import Leone.Framework.Slice
import Leone.Framework.Stepping
import Leone.Session.Segment

/-!
# Windowed evaluation

A token stream is evaluated in windows that overlap by one token. Each window starts on an empty
cache, and every token but its last scores the token after it. The tokens of a window are evaluated
one by one or in blocks.
-/

namespace Leone.Session

open Framework Kv

/-- What an evaluation asks of the model and the backend. The logits belong to the rows of the cache.
`newState` sets up the cache and the activations of a window, `prepareBlocks` those of a window in
blocks. -/
structure EvalBackend (F : Type) extends Runtime where
  logits : List KvRow → {row : List F // row.length = vocabSize}
  newState : Except BackendError Unit
  prepareBlocks : (blockTokens windowTokens : Nat) → Except BackendError Unit
  synchronize : Except BackendError Unit

/-- The calls of `on_logits` and their count. -/
structure EvalRun (F : Type) where
  calls : List (Nat × List F)
  scored : Nat

/-- Hand out the row of a position. -/
def EvalRun.emit {F : Type} (run : EvalRun F) (position : Nat) (row : List F) :
    Except RuntimeError (EvalRun F) :=
  match checkedAdd 64 run.scored 1 with
  | none => .error .sizeOverflow
  | some scored => .ok ⟨run.calls ++ [(position, row)], scored⟩

section Evaluate

variable {F : Type} (backend : EvalBackend F)

def validateEvalTokens (tokens : List Token) (windowTokens : Nat) : Except RuntimeError Unit :=
  if tokens.length < 2 then .error .tooFewEvalTokens
  else if windowTokens < 2 then .error .evalWindowTooSmall
  else if backend.contextLength < windowTokens then
    .error (.contextCapacity windowTokens backend.contextLength)
  else validateGenerationTokens backend.toRuntime tokens

def validateChunkedEvalTokens (tokens : List Token) (windowTokens chunkTokens : Nat) :
    Except RuntimeError Unit :=
  if tokens.length < 2 then .error .tooFewEvalTokens
  else if windowTokens < 2 then .error .evalWindowTooSmall
  else if chunkTokens = 0 then .error (.backend (.zero "evaluation prefill chunk tokens"))
  else if backend.prefillMethod = .sequentialDecode then
    .error (.backend (.operation "evaluate chunked prefill logits"
      "the backend selects sequential decode prefill"))
  else if backend.contextLength < windowTokens then
    .error (.contextCapacity windowTokens backend.contextLength)
  else validateGenerationTokens backend.toRuntime tokens

def evalAttentionShape (windowTokens : Nat) : Except RuntimeError AttentionShape := do
  let attentionContext ← onBackend (decodeGraphBucket windowTokens)
  onBackend (AttentionShape.new backend.nHead backend.nHeadKv backend.headDim attentionContext)

/-- The window that starts at a token. -/
def evalWindow (tokens : List Token) (windowTokens start : Nat) : Except RuntimeError (List Token) :=
  match checkedAdd 64 start windowTokens with
  | none => .error .sizeOverflow
  | some stop => .ok ((tokens.take (min stop tokens.length)).drop start)

/-- An empty cache and no activations. -/
def Evaluator.start (shape : AttentionShape) (dtype : KvCacheDtype) : Evaluator :=
  ⟨⟨dtype, shape, []⟩, .new, []⟩

/-! ## One token at a time -/

/-- Score the token after the last row, if the window has one. -/
def emitBefore (windowTokens start offset : Nat) (rows : List KvRow) (run : EvalRun F) :
    Except RuntimeError (EvalRun F) :=
  if offset + 1 < windowTokens then run.emit (start + offset + 1) (backend.logits rows).val
  else .ok run

def evaluateWindowTokens (windowTokens start : Nat) :
    List Token → Nat → Evaluator → EvalRun F → Except RuntimeError (EvalRun F)
  | [], _, _, run => .ok run
  | token :: rest, offset, e, run => do
    let e ← forwardToken true token .logits e
    let run ← emitBefore backend windowTokens start offset e.cache.rows run
    evaluateWindowTokens windowTokens start rest (offset + 1) e run

/-- The calls of a window after those before it, and the positions that the window scores. -/
def evaluateLogitsWindow (window : List Token) (start : Nat) (shape : AttentionShape)
    (dtype : KvCacheDtype) (calls : List (Nat × List F)) : Except RuntimeError (EvalRun F) := do
  onBackend backend.newState
  evaluateWindowTokens backend window.length start window 0 (.start shape dtype) ⟨calls, 0⟩

def evaluateLogitsFrom (tokens : List Token) (windowTokens : Nat) (shape : AttentionShape)
    (dtype : KvCacheDtype) (run : EvalRun F) (start : Nat) : Except RuntimeError (EvalRun F) := do
  let window ← evalWindow tokens windowTokens start
  let scoredWindow ← evaluateLogitsWindow backend window start shape dtype run.calls
  match checkedAdd 64 run.scored scoredWindow.scored with
  | none => .error .sizeOverflow
  | some scored => .ok ⟨scoredWindow.calls, scored⟩

/-- Evaluates one exact token stream and emits full-vocabulary logits. -/
def evaluateLogits (tokens : List Token) (windowTokens : Nat) (dtype : KvCacheDtype) :
    Except RuntimeError (EvalRun F) := do
  validateEvalTokens backend tokens windowTokens
  let shape ← evalAttentionShape backend windowTokens
  let run ← (stepBy (tokens.length - 1) (windowTokens - 1)).foldlM
    (evaluateLogitsFrom backend tokens windowTokens shape dtype) ⟨[], 0⟩
  onBackend backend.synchronize
  return run

/-! ## In blocks -/

/-- The rows of logits that a set of activations holds. -/
def prefillEvalActivations (tokens : Nat) : Except RuntimeError Nat :=
  match checkedMul 64 tokens backend.vocabSize with
  | none => .error (.backend (.sizeOverflow "prefill evaluation logits"))
  | some _ => .ok tokens

/-- The activations of a whole block, and of what is left of the window after them. -/
def prepareChunkedEvalWindow (windowTokens blockTokens : Nat) :
    Except RuntimeError (Nat × Option Nat) := do
  onBackend (backend.prepareBlocks blockTokens windowTokens)
  let full ← prefillEvalActivations backend blockTokens
  if windowTokens % blockTokens = 0 then return (full, none)
  else do
    let tail ← prefillEvalActivations backend (windowTokens % blockTokens)
    return (full, some tail)

/-- The logits of the rows from an offset on, in one buffer. -/
def hostLogits (rows : List KvRow) (offset size : Nat) : List F :=
  (List.range size).flatMap fun index => (backend.logits (rows.take (offset + index + 1))).val

/-- A row of the buffer, by the bounds that the runtime computes. -/
def logitRow (host : List F) (index : Nat) : Except RuntimeError (List F) :=
  match (checkedMul 64 index backend.vocabSize).bind fun first =>
      (checkedAdd 64 first backend.vocabSize).map fun last => (first, last) with
  | none => .error .sizeOverflow
  | some (first, last) =>
    if last ≤ host.length then .ok (slice host first last) else .error .sizeOverflow

def emitChunkedEvalRows (windowTokens start offset : Nat) (host : List F) :
    List Nat → EvalRun F → Except RuntimeError (EvalRun F)
  | [], run => .ok run
  | index :: indexes, run =>
    if windowTokens ≤ offset + index + 1 then .ok run
    else do
      let row ← logitRow backend host index
      let run ← run.emit (start + (offset + index) + 1) row
      emitChunkedEvalRows windowTokens start offset host indexes run

/-- The activations that a block is evaluated in. -/
def blockActivations (activations : Nat × Option Nat) (blockTokens length : Nat) :
    Except RuntimeError Nat :=
  if length = blockTokens then .ok activations.1
  else activations.2.elim (.error .sizeOverflow) .ok

def processChunkedEvalBlock (window : List Token) (start blockTokens : Nat)
    (activations : Nat × Option Nat) (progress : Evaluator × EvalRun F) (offset : Nat) :
    Except RuntimeError (Evaluator × EvalRun F) := do
  let block := (window.take (min (offset + blockTokens) window.length)).drop offset
  let size ← blockActivations activations blockTokens block.length
  let e ← forwardPrefillChunk .backendPreferred true block offset progress.1
  let run ← emitChunkedEvalRows backend window.length start offset
    (hostLogits backend e.cache.rows offset size) (List.range block.length) progress.2
  return (e, run)

def processChunkedEvalWindow (window : List Token) (start blockTokens : Nat)
    (activations : Nat × Option Nat) (shape : AttentionShape) (dtype : KvCacheDtype)
    (run : EvalRun F) : Except RuntimeError (EvalRun F) := do
  let progress ← (stepBy window.length blockTokens).foldlM
    (processChunkedEvalBlock backend window start blockTokens activations) (.start shape dtype, run)
  return progress.2

def evaluateChunkedFrom (tokens : List Token) (windowTokens chunkTokens : Nat)
    (shape : AttentionShape) (dtype : KvCacheDtype) (run : EvalRun F) (start : Nat) :
    Except RuntimeError (EvalRun F) := do
  let window ← evalWindow tokens windowTokens start
  let blockTokens := min chunkTokens window.length
  let activations ← prepareChunkedEvalWindow backend window.length blockTokens
  processChunkedEvalWindow backend window start blockTokens activations shape dtype run

/-- Evaluates fixed tokens through the chunked prefill path and emits logits. -/
def evaluateLogitsChunked (tokens : List Token) (windowTokens chunkTokens : Nat)
    (dtype : KvCacheDtype) : Except RuntimeError (EvalRun F) := do
  validateChunkedEvalTokens backend tokens windowTokens chunkTokens
  let shape ← evalAttentionShape backend windowTokens
  let run ← (stepBy (tokens.length - 1) (windowTokens - 1)).foldlM
    (evaluateChunkedFrom backend tokens windowTokens chunkTokens shape dtype) ⟨[], 0⟩
  onBackend backend.synchronize
  return run

end Evaluate

end Leone.Session

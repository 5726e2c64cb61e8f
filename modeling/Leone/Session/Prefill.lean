import Leone.Session.Model

/-!
# Resumable prefill

Prompt tokens are evaluated in bounded advances, by whole chunks or one by one. A restored
session replays the tokens up to its boundary first and continues one by one. The evaluator
records every forward call that writes to the KV cache. No call is cancelled.
-/

namespace Leone.Session

open Framework Kv

/-! ## Forward calls -/

/-- A forward call that writes to the KV cache. -/
structure ForwardCall where
  start : Nat
  tokens : List Token
  evaluation : Evaluation
  deriving DecidableEq, Repr

/-- What a prefill works on, and the forward calls it has made. -/
structure Evaluator where
  cache : KvCache
  activations : Activations
  calls : List ForwardCall
  deriving DecidableEq

/-- Append rows and record the call that wrote them. -/
def Evaluator.append (e : Evaluator) (tokens : List Token) (evaluation : Evaluation)
    (initial : Bool) : Evaluator :=
  { e with
    cache.rows := e.cache.rows ++ tokens.map fun token => ⟨token, evaluation, initial⟩
    calls := e.calls ++ [⟨e.cache.position, tokens, evaluation⟩] }

inductive SequentialPrefillOutput
  | hidden
  | logits
  deriving DecidableEq

def SequentialPrefillOutput.forPosition (position lastQuantumPosition : Nat) :
    SequentialPrefillOutput :=
  if position = lastQuantumPosition then .logits else .hidden

/-- Evaluate one token, with or without its logits. -/
def forwardToken (initial : Bool) (token : Token) (output : SequentialPrefillOutput)
    (e : Evaluator) : Except RuntimeError Evaluator := do
  onBackend (e.cache.prepareAppend 1)
  let e := e.append [token] .sequential initial
  match output with
  | .hidden => return { e with activations.hidden := some e.cache.tokens }
  | .logits => return { e with activations := ⟨some e.cache.tokens, some e.cache.tokens⟩ }

/-- Evaluate a chunk of tokens at the position of the cache. -/
def forwardPrefillChunk (numerics : PrefillNumerics) (initial : Bool) (tokens : List Token)
    (startPosition : Nat) (e : Evaluator) : Except RuntimeError Evaluator := do
  if startPosition ≠ e.cache.position then
    .error (.backend (.operation "prepare prefill KV append"
      "the chunk start does not match the committed position"))
  else do
    onBackend (e.cache.prepareAppend tokens.length)
    return e.append tokens (.batched numerics) initial

/-! ## Prepared prefill -/

/-- How a segment of the prompt is evaluated. The storage of the last chunk has its own size. -/
inductive PreparedPrefill
  | reused
  | sequential
  | chunked (chunkTokens : Nat) (tail : Option Nat) (numerics : PrefillNumerics)
  deriving DecidableEq, Repr

/-- The result of one bounded part of a segment. -/
structure PrefillExecution where
  processedTokens : Nat
  complete : Bool
  deriving DecidableEq, Repr

section Runtime

variable (rt : Runtime)

def q8PrefillUnavailable (options : GenerateOptions) : Bool :=
  options.kvCacheDtype == .q8 && !rt.q8PrefillSupported

def decodeEquivalentWarmPrefillSupported (options : GenerateOptions) : Bool :=
  options.kvCacheDtype == .f16 && rt.decodeEquivalentPrefillSupported

def generationPrefillNumerics (options : GenerateOptions) (reusedTokens : Nat) :
    Option PrefillNumerics :=
  if q8PrefillUnavailable rt options then none
  else if reusedTokens = 0 then some .backendPreferred
  else if decodeEquivalentWarmPrefillSupported rt options = false then none
  else some .decodeEquivalent

def preparePromptPrefillWithNumerics (prefillTokens chunkTokens : Nat) (numerics : PrefillNumerics) :
    Except RuntimeError PreparedPrefill :=
  if prefillTokens = 0 then .ok .reused
  else if rt.prefillMethod = .sequentialDecode then .ok .sequential
  else if chunkTokens = 0 then .error (.backend (.zero "prefill chunk tokens"))
  else
    let chunkTokens := min chunkTokens prefillTokens
    let remainder := prefillTokens % chunkTokens
    .ok (.chunked chunkTokens (if remainder = 0 then none else some remainder) numerics)

def prepareGenerationPrefill (prefillTokens : Nat) (options : GenerateOptions)
    (reusedTokens : Nat) : Except RuntimeError PreparedPrefill :=
  match generationPrefillNumerics rt options reusedTokens with
  | none => .ok .sequential
  | some numerics =>
    preparePromptPrefillWithNumerics rt prefillTokens options.prefillChunkTokens numerics

def prepareReplayPrefill (replayTokens : Nat) (options : GenerateOptions) :
    Except RuntimeError PreparedPrefill :=
  if q8PrefillUnavailable rt options then .ok .sequential
  else preparePromptPrefillWithNumerics rt replayTokens options.prefillChunkTokens .backendPreferred

/-- Whether the rows up to the recorded boundary are replayed before the others. -/
def GenerationReuse.splitReplay (reuse : GenerationReuse) (promptTokens : Nat) : Bool :=
  decide (reuse.reuseClass = .restoreReplay ∧ reuse.reusedTokens = 0 ∧
    0 < reuse.replayPrefillBoundary ∧ reuse.replayPrefillBoundary < promptTokens)

def preparePrefillForGeneration (prompt : List Token) (options : GenerateOptions)
    (reuse : GenerationReuse) : Except RuntimeError PreparedPrefill :=
  if reuse.splitReplay prompt.length then
    prepareReplayPrefill rt reuse.replayPrefillBoundary options
  else prepareGenerationPrefill rt (prompt.length - reuse.reusedTokens) options reuse.reusedTokens

/-- The tokens of the first append that the prepared prefill makes. -/
def firstGenerationAppend (prepared : PreparedPrefill) (remainingTokens : Nat) : Option Nat :=
  if remainingTokens = 0 then none
  else
    match prepared with
    | .reused => none
    | .sequential => some 1
    | .chunked chunkTokens _ _ =>
      if min chunkTokens remainingTokens = 0 then none else some (min chunkTokens remainingTokens)

end Runtime

/-! ## Bounded segments -/

/-- Evaluate tokens one by one, with logits for the last one of the quantum. -/
def runSequentialTokens (initial : Bool) (lastQuantumPosition : Nat) :
    Nat → List Token → Evaluator → Except RuntimeError Evaluator
  | _, [], e => .ok e
  | processed, token :: tokens, e => do
    let e ← forwardToken initial token (.forPosition processed lastQuantumPosition) e
    runSequentialTokens initial lastQuantumPosition (processed + 1) tokens e

def runSequentialPrefillBounded (initial : Bool) (tokens : List Token) (budget : Nat)
    (e : Evaluator) : Except RuntimeError (PrefillExecution × Evaluator) := do
  let lastQuantumPosition := min budget tokens.length - 1
  let e ← runSequentialTokens initial lastQuantumPosition 0 (tokens.take budget) e
  return (⟨(tokens.take budget).length, decide ((tokens.take budget).length = tokens.length)⟩, e)

/-- The next chunk, if the budget holds it. -/
def boundedPrefillChunk (chunkTokens remaining budget processed : Nat) :
    Except RuntimeError (Option Nat) :=
  let count := min chunkTokens remaining
  if count ≤ budget - processed then .ok (some count)
  else if processed = 0 then .error (.prefillBudgetTooSmall budget count)
  else .ok none

/-- The storage for a chunk: the full one, or the one for the last chunk of its size. -/
def selectPrefillBatch (count chunkTokens : Nat) (tail : Option Nat) : Except RuntimeError Unit :=
  if count = chunkTokens then .ok ()
  else
    match tail with
    | none => .error (.backend (.operation "select prefill tail"
        "tail activation storage is missing"))
    | some size =>
      if size = count then .ok ()
      else .error (.backend (.sizeMismatch "prefill tokens" size count))

/-- The loop over the chunks. Each turn takes at least one token, which bounds the turns. -/
def runPrefillChunks (chunkTokens : Nat) (tail : Option Nat) (numerics : PrefillNumerics)
    (initial : Bool) (tokens : List Token) (budget basePosition : Nat) :
    Nat → Nat → Evaluator → Except RuntimeError (Nat × Evaluator)
  | 0, processed, e => .ok (processed, e)
  | turns + 1, processed, e =>
    if processed < tokens.length then do
      match ← boundedPrefillChunk chunkTokens (tokens.length - processed) budget processed with
      | none => return (processed, e)
      | some count => do
        selectPrefillBatch count chunkTokens tail
        let e ← forwardPrefillChunk numerics initial ((tokens.drop processed).take count)
          (basePosition + processed) e
        runPrefillChunks chunkTokens tail numerics initial tokens budget basePosition turns
          (processed + count) e
    else .ok (processed, e)

/-- The hidden row of the last token and its logits, once a segment is complete. -/
def finishPrefillLogits (e : Evaluator) : Evaluator :=
  { e with activations := ⟨some e.cache.tokens, some e.cache.tokens⟩ }

def runChunkedPrefillBounded (chunkTokens : Nat) (tail : Option Nat) (numerics : PrefillNumerics)
    (initial : Bool) (tokens : List Token) (budget : Nat) (e : Evaluator) :
    Except RuntimeError (PrefillExecution × Evaluator) := do
  let (processed, e) ← runPrefillChunks chunkTokens tail numerics initial tokens budget
    e.cache.position tokens.length 0 e
  if processed = tokens.length then return (⟨processed, true⟩, finishPrefillLogits e)
  else return (⟨processed, false⟩, e)

def runPromptPrefillBounded (prepared : PreparedPrefill) (initial : Bool) (tokens : List Token)
    (budget : Nat) (e : Evaluator) : Except RuntimeError (PrefillExecution × Evaluator) :=
  match prepared with
  | .reused => .ok (⟨0, true⟩, e)
  | .sequential => runSequentialPrefillBounded initial tokens budget e
  | .chunked chunkTokens tail numerics =>
    runChunkedPrefillBounded chunkTokens tail numerics initial tokens budget e

/-- The budget that no prompt exceeds. -/
def unlimited : Nat := 2 ^ 64 - 1

def runPromptPrefill (prepared : PreparedPrefill) (initial : Bool) (tokens : List Token)
    (e : Evaluator) : Except RuntimeError (PrefillExecution × Evaluator) :=
  runPromptPrefillBounded prepared initial tokens unlimited e

/-- The prefill of a generation call. A split replay continues one by one after its boundary. -/
def runGenerationPrefill (prompt : List Token) (reuse : GenerationReuse) (prepared : PreparedPrefill)
    (e : Evaluator) : Except RuntimeError Evaluator := do
  if reuse.splitReplay prompt.length then do
    let (_, e) ← runPromptPrefill prepared true (prompt.take reuse.replayPrefillBoundary) e
    let (_, e) ← runPromptPrefill .sequential false (prompt.drop reuse.replayPrefillBoundary) e
    return e
  else do
    let (_, e) ← runPromptPrefill prepared (reuse.reusedTokens == 0) (prompt.drop reuse.reusedTokens) e
    return e

/-! ## Pending prefill -/

inductive PendingPrefillStage
  | single (start stop processed : Nat) (prepared : PreparedPrefill)
  | replay (boundary processed : Nat) (prepared : PreparedPrefill)
  | continuation (start stop processed : Nat) (prepared : PreparedPrefill)
  | done
  deriving DecidableEq, Repr

/-- Holds device state while prompt tokens advance in bounded chunks. -/
structure PendingPrefill where
  promptTokens : List Token
  evaluator : Evaluator
  stage : PendingPrefillStage
  reuse : GenerationReuse
  deriving DecidableEq

/-- Owns a complete prompt state that has not yet been committed to a session. -/
structure ReadyPrefill where
  promptTokens : List Token
  evaluator : Evaluator
  reuse : GenerationReuse
  deriving DecidableEq

inductive PrefillProgress
  | pending (p : PendingPrefill)
  | ready (r : ReadyPrefill)
  deriving DecidableEq

/-- The tokens of the next chunk or sequential step of a segment. -/
def minimumCount (prepared : Option PreparedPrefill) (remaining : Nat) : Nat :=
  match prepared with
  | some (.chunked chunkTokens _ _) => min chunkTokens remaining
  | _ => 1

/-- Returns the minimum budget for the next fixed chunk or sequential token. -/
def PendingPrefill.minimumBudget (p : PendingPrefill) : Nat :=
  let count := match p.stage with
    | .single start stop processed prepared => minimumCount (some prepared) (stop - start - processed)
    | .continuation start stop processed prepared =>
      minimumCount (some prepared) (stop - start - processed)
    | .replay boundary processed prepared => minimumCount (some prepared) (boundary - processed)
    | .done => minimumCount none 0
  if count = 0 then 1 else count

/-- Evaluate a bounded part of a prompt range. -/
def advancePrefillRange (prompt : List Token) (e : Evaluator) (start stop processed : Nat)
    (prepared : PreparedPrefill) (initial : Bool) (budget : Nat) :
    Except RuntimeError (PrefillExecution × Nat × Evaluator) := do
  match checkedAdd 64 start processed with
  | none => .error .sizeOverflow
  | some offset =>
    if stop < offset ∨ prompt.length < stop then .error .sizeOverflow
    else do
      let (execution, e) ← runPromptPrefillBounded prepared initial
        ((prompt.take stop).drop offset) budget e
      match checkedAdd 64 processed execution.processedTokens with
      | none => .error .sizeOverflow
      | some processed => return (execution, processed, e)

def advancePendingPrefillStage (p : PendingPrefill) (budget : Nat) :
    Except RuntimeError (PrefillExecution × PendingPrefill) :=
  match p.stage with
  | .single start stop processed prepared => do
    let (execution, processed, evaluator) ← advancePrefillRange p.promptTokens p.evaluator start stop
      processed prepared (start == 0) budget
    return (execution, { p with evaluator, stage := .single start stop processed prepared })
  | .continuation start stop processed prepared => do
    let (execution, processed, evaluator) ← advancePrefillRange p.promptTokens p.evaluator start stop
      processed prepared false budget
    return (execution, { p with evaluator, stage := .continuation start stop processed prepared })
  | .replay boundary processed prepared => do
    let (execution, processed, evaluator) ← advancePrefillRange p.promptTokens p.evaluator 0 boundary
      processed prepared true budget
    return (execution, { p with evaluator, stage := .replay boundary processed prepared })
  | .done => .ok (⟨0, true⟩, p)

def transitionPendingPrefillStage (p : PendingPrefill) : PendingPrefill :=
  match p.stage with
  | .replay boundary _ _ =>
    if boundary < p.promptTokens.length then
      { p with stage := .continuation boundary p.promptTokens.length 0 .sequential }
    else { p with stage := .done }
  | _ => { p with stage := .done }

inductive PrefillAdvanceStep
  | continue
  | pending
  | ready
  deriving DecidableEq, Repr

/-- Where an advance goes after a part of its stage. -/
def finishPrefillStep (p : PendingPrefill) (budget : Nat) (execution : PrefillExecution) :
    PrefillAdvanceStep × PendingPrefill :=
  if execution.complete then
    let p := transitionPendingPrefillStage p
    if p.stage = .done then (.ready, p)
    else if budget = 0 then (.pending, p)
    else (.continue, p)
  else if 0 < execution.processedTokens ∧ 0 < budget then
    -- a chunk boundary can leave a budget remainder below the next chunk
    (.pending, p)
  else if budget = 0 then (.pending, p)
  else (.continue, p)

def PendingPrefill.intoReady (p : PendingPrefill) : ReadyPrefill :=
  ⟨p.promptTokens, p.evaluator, p.reuse⟩

/-- The loop of an advance over so many turns. It has no value if it does not end in them. -/
def advanceLoop : Nat → PendingPrefill → Nat → Option (Except RuntimeError PrefillProgress)
  | 0, _, _ => none
  | turns + 1, p, budget =>
    if p.stage = .done then some (.ok (.ready p.intoReady))
    else
      match advancePendingPrefillStage p budget with
      | .error e => some (.error e)
      | .ok (execution, p) =>
        let budget := budget - execution.processedTokens
        match finishPrefillStep p budget execution with
        | (.continue, p) => advanceLoop turns p budget
        | (.pending, p) => some (.ok (.pending p))
        | (.ready, p) => some (.ok (.ready p.intoReady))

/-- Advances prefill by at most the requested number of prompt positions. A call goes through at
most two stages. -/
def advancePrefill (p : PendingPrefill) (budget : Nat) :
    Option (Except RuntimeError PrefillProgress) :=
  advanceLoop 2 p budget

/-- The cache and the activations that a request starts from. -/
def takeGenerationState (session : GenerationSession) (options : GenerateOptions)
    (shape : AttentionShape) (reuse : GenerationReuse) (firstAppend : Option Nat) :
    Except RuntimeError (KvCache × Activations) :=
  if reuse.compatible then
    match session.state, session.activations with
    | some state, some activations => do
      let state ← onBackend (prepareCompatibleState state shape reuse.reusedTokens firstAppend)
      return (state, activations)
    | _, _ => .error .sizeOverflow
  else do
    let state ← onBackend (KvCache.prepareFirstAppend ⟨options.kvCacheDtype, shape, []⟩ 0 firstAppend)
    return (state, .new)

/-- The plan of a request and what it starts from. -/
def prepareGeneration (rt : Runtime) (session : GenerationSession) (prompt : List Token)
    (options : GenerateOptions) :
    Except RuntimeError (GenerationReuse × PreparedPrefill × Evaluator) := do
  let shape ← validateGenerationRequest rt prompt options
  let reuse := generationReuse session prompt options shape
  let prepared ← preparePrefillForGeneration rt prompt options reuse
  let (cache, activations) ← takeGenerationState session options shape reuse
    (firstGenerationAppend prepared (prompt.length - reuse.reusedTokens))
  return (reuse, prepared, ⟨cache, activations, []⟩)

/-- Starts prompt prefill. The session is discarded. -/
def beginPrefill (rt : Runtime) (session : GenerationSession) (prompt : List Token)
    (options : GenerateOptions) : Except RuntimeError PendingPrefill := do
  let (reuse, prepared, evaluator) ← prepareGeneration rt session prompt options
  let stage := if reuse.splitReplay prompt.length then
      .replay reuse.replayPrefillBoundary 0 prepared
    else .single reuse.reusedTokens prompt.length 0 prepared
  return ⟨prompt, evaluator, stage, reuse⟩

end Leone.Session

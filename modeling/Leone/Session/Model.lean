import Leone.Kv.Types

/-!
# Generation sessions

A session retains a KV cache and the activations of its last evaluation between requests. What
a request can reuse of it is decided from the token prefixes, the context bucket and the KV type.
The backend is deterministic: the row of a token and the logits after it belong to the tokens up
to it, so the model records a logit row by the tokens it belongs to.
-/

namespace Leone.Session

open Framework Kv

abbrev Token := Nat

/-! ## Retained state -/

/-- Selects the numerical contract for chunked prefill. -/
inductive PrefillNumerics
  | backendPreferred
  | decodeEquivalent
  deriving DecidableEq, Repr

/-- How a row was evaluated: in a batch of positions, or one position at a time. -/
inductive Evaluation
  | batched (numerics : PrefillNumerics)
  | sequential
  deriving DecidableEq, Repr

/-- A row of the KV cache: its token, how it was evaluated, and whether a prefill that started
from an empty cache evaluated it. -/
structure KvRow where
  token : Token
  evaluation : Evaluation
  initial : Bool
  deriving DecidableEq, Repr

/-- The committed rows of a KV table, in the order of their positions. -/
structure KvCache where
  dtype : KvCacheDtype
  shape : AttentionShape
  rows : List KvRow
  deriving DecidableEq

def KvCache.position (c : KvCache) : Nat := c.rows.length
def KvCache.tokens (c : KvCache) : List Token := c.rows.map KvRow.token

/-- The hidden and the logit row of the last evaluation, by the tokens they belong to. -/
structure Activations where
  hidden : Option (List Token)
  logits : Option (List Token)
  deriving DecidableEq, Repr

def Activations.new : Activations := ⟨none, none⟩

/-- KV state retained between generation requests. -/
structure GenerationSession where
  state : Option KvCache
  activations : Option Activations
  evaluatedTokens : List Token
  restoredTokens : List Token
  retainedLogitsPosition : Option Nat
  prefillBoundary : Nat
  pendingFork : Bool
  pendingWake : Bool
  deriving DecidableEq

def GenerationSession.new : GenerationSession := ⟨none, none, [], [], none, 0, false, false⟩

/-- Clears session-owned device allocations and replay state. -/
def GenerationSession.invalidate (_ : GenerationSession) : GenerationSession := .new

/-! ## Requests -/

inductive RuntimeError
  | backend (error : BackendError)
  | unsupportedDecodeGraph
  | zeroGeneration
  | emptyPrompt
  | mirostatSpeculation
  | sizeOverflow
  | contextCapacity (requested capacity : Nat)
  | tooFewEvalTokens
  | evalWindowTooSmall
  | evalTokenOutOfRange (index : Nat) (token : Token) (vocabSize : Nat)
  | prefillBudgetTooSmall (budget chunk : Nat)
  | sessionForkUnavailable
  deriving DecidableEq

/-- A backend call, with its error as the runtime's. -/
def onBackend {α : Type} (r : Except BackendError α) : Except RuntimeError α :=
  r.mapError .backend

/-- The implementation selected for prefill. -/
inductive PrefillMethod
  | sequentialDecode
  | chunkedGpu
  | chunkedCublasLtFp16
  | tiledCublasLtFp16
  deriving DecidableEq, Repr

/-- What the plan of a request asks of the model and the backend. -/
structure Runtime where
  nHead : Nat
  nHeadKv : Nat
  headDim : Nat
  contextLength : Nat
  vocabSize : Nat
  decodeGraphSupported : Bool
  prefillMethod : PrefillMethod
  q8PrefillSupported : Bool
  decodeEquivalentPrefillSupported : Bool

structure GenerateOptions where
  maxTokens : Nat
  kvCacheDtype : KvCacheDtype
  prefillChunkTokens : Nat
  /-- Decode without a graph. -/
  eager : Bool
  mirostat : Bool
  speculation : Bool
  deriving DecidableEq, Repr

def decodeGraphBucket (contextLength : Nat) : Except BackendError Nat :=
  sized (checkedNextPowerOfTwo (max contextLength 512)) "decode graph context bucket"

section Runtime

variable (rt : Runtime)

def validateGenerationOptions (options : GenerateOptions) (prompt : List Token) :
    Except RuntimeError Unit :=
  if options.eager = false ∧ rt.decodeGraphSupported = false then .error .unsupportedDecodeGraph
  else if options.maxTokens = 0 then .error .zeroGeneration
  else if prompt = [] then .error .emptyPrompt
  else if options.mirostat = true ∧ options.speculation = true then .error .mirostatSpeculation
  else .ok ()

def generationContextBucket (promptTokens maxTokens : Nat) : Except RuntimeError Nat :=
  match (checkedSub maxTokens 1).bind (checkedAdd 64 promptTokens) with
  | none => .error .sizeOverflow
  | some requestedContext =>
    if rt.contextLength < requestedContext then
      .error (.contextCapacity requestedContext rt.contextLength)
    else onBackend (decodeGraphBucket requestedContext)

/-- Every token is in the vocabulary. -/
def validateGenerationTokens (prompt : List Token) : Except RuntimeError Unit :=
  match prompt.zipIdx.find? fun token => rt.vocabSize ≤ token.1 with
  | some (token, index) => .error (.evalTokenOutOfRange index token rt.vocabSize)
  | none => .ok ()

def validateGenerationRequest (prompt : List Token) (options : GenerateOptions) :
    Except RuntimeError AttentionShape := do
  validateGenerationOptions rt options prompt
  validateGenerationTokens rt prompt
  let contextBucket ← generationContextBucket rt prompt.length options.maxTokens
  onBackend (AttentionShape.new rt.nHead rt.nHeadKv rt.headDim contextBucket)

end Runtime

/-! ## The reuse plan -/

/-- How one request relates to the KV state retained by its session. -/
inductive SessionReuseClass
  | cold
  | exactRepeat
  | appendOnly
  | arbitraryBranch
  | restoreReplay
  | deviceFork
  | hostWake
  deriving DecidableEq, Repr

structure GenerationReuse where
  reuseClass : SessionReuseClass
  compatible : Bool
  reusedTokens : Nat
  cachedTokens : Nat
  restoredCommon : Nat
  commonTokens : Nat
  replayPrefillBoundary : Nat
  deriving DecidableEq, Repr

/-- The number of leading tokens that two lists share. -/
def commonPrefix : List Token → List Token → Nat
  | left :: lefts, right :: rights => if left = right then commonPrefix lefts rights + 1 else 0
  | _, _ => 0

def KvCache.hasCompatibleLayout (c : KvCache) (shape : AttentionShape) : Bool :=
  c.shape.nHead == shape.nHead && c.shape.nHeadKv == shape.nHeadKv &&
    c.shape.headDim == shape.headDim

def KvCache.canGrowTo (c : KvCache) (shape : AttentionShape) : Bool :=
  c.hasCompatibleLayout shape && decide (c.shape.maxContext ≤ shape.maxContext)

def KvCache.canRetainAt (c : KvCache) (shape : AttentionShape) : Bool :=
  c.hasCompatibleLayout shape && decide (c.position ≤ shape.maxContext)

def retainedStateCompatible (state : KvCache) (shape : AttentionShape) (dtype : KvCacheDtype)
    (cachedTokens commonTokens : Nat) : Bool :=
  if state.dtype ≠ dtype then false
  else decide (state.shape = shape) ||
    (decide (0 < cachedTokens) && commonTokens == cachedTokens && state.canRetainAt shape)

def compatibleReuseClass (commonTokens cachedTokens promptTokens : Nat) : SessionReuseClass :=
  if commonTokens = promptTokens ∧ commonTokens = cachedTokens then .exactRepeat
  else if commonTokens = cachedTokens ∧ 0 < commonTokens then .appendOnly
  else .arbitraryBranch

def restoredOrColdReuseClass (commonTokens cachedTokens restoredCommon : Nat) : SessionReuseClass :=
  if (commonTokens = cachedTokens ∧ 0 < commonTokens) ∨ 0 < restoredCommon then
    -- replay host tokens when a changed bucket invalidates device buffers
    .restoreReplay
  else .cold

def baseReuseClass (compatible : Bool)
    (commonTokens cachedTokens restoredCommon promptTokens : Nat) : SessionReuseClass :=
  if compatible then compatibleReuseClass commonTokens cachedTokens promptTokens
  else restoredOrColdReuseClass commonTokens cachedTokens restoredCommon

def overrideReuseClass (compatible : Bool) (commonTokens : Nat) (session : GenerationSession)
    (reuseClass : SessionReuseClass) : SessionReuseClass :=
  if compatible = true ∧ 0 < commonTokens ∧ session.pendingWake = true then .hostWake
  else if compatible = true ∧ 0 < commonTokens ∧ session.pendingFork = true then .deviceFork
  else reuseClass

/-- The rows that stay: one less where the whole prompt would, unless nothing follows it. -/
def reusedTokens (compatible : Bool) (commonTokens promptTokens cachedTokens : Nat) : Nat :=
  if compatible = true ∧ commonTokens = promptTokens ∧ commonTokens < cachedTokens then
    commonTokens - 1
  else if compatible then commonTokens
  else 0

def sessionCompatible (session : GenerationSession) (prompt : List Token) (options : GenerateOptions)
    (shape : AttentionShape) : Bool :=
  (match session.state with
  | none => false
  | some state => retainedStateCompatible state shape options.kvCacheDtype
      session.evaluatedTokens.length (commonPrefix prompt session.evaluatedTokens)) &&
  session.activations.isSome

def generationReuse (session : GenerationSession) (prompt : List Token) (options : GenerateOptions)
    (shape : AttentionShape) : GenerationReuse :=
  let cachedTokens := session.evaluatedTokens.length
  let commonTokens := commonPrefix prompt session.evaluatedTokens
  let restoredCommon := commonPrefix prompt session.restoredTokens
  let compatible := sessionCompatible session prompt options shape
  { reuseClass := overrideReuseClass compatible commonTokens session
      (baseReuseClass compatible commonTokens cachedTokens restoredCommon prompt.length)
    compatible
    reusedTokens := reusedTokens compatible commonTokens prompt.length cachedTokens
    cachedTokens
    restoredCommon
    commonTokens
    replayPrefillBoundary := min session.prefillBoundary prompt.length }

/-! ## Staging the cache -/

/-- Staging an append checks that it is not empty and that its end is in the context. -/
def KvCache.prepareAppend (c : KvCache) (tokens : Nat) : Except BackendError Unit :=
  if tokens = 0 then .error (.zero "KV append tokens")
  else if c.shape.maxContext < c.position + tokens then
    .error (.positionOutOfBounds (c.position + tokens) c.shape.maxContext)
  else .ok ()

/-- Keep the rows below a position. -/
def KvCache.truncate (c : KvCache) (position : Nat) : Except BackendError KvCache :=
  if c.position < position then .error (.positionOutOfBounds position c.position)
  else .ok { c with rows := c.rows.take position }

/-- Cut the cache and stage its first append, if there is one. -/
def KvCache.prepareFirstAppend (c : KvCache) (position : Nat) (firstAppend : Option Nat) :
    Except BackendError KvCache := do
  let c ← c.truncate position
  match firstAppend with
  | none => return c
  | some tokens => do
    c.prepareAppend tokens
    return c

def needsShapeGrowth (state : KvCache) (shape : AttentionShape) : Bool :=
  decide (state.shape.maxContext < shape.maxContext) && state.canGrowTo shape

def prepareCompatibleState (state : KvCache) (shape : AttentionShape) (reusedTokens : Nat)
    (firstAppend : Option Nat) : Except BackendError KvCache :=
  if needsShapeGrowth state shape then
    { state with shape }.prepareFirstAppend reusedTokens firstAppend
  else state.prepareFirstAppend reusedTokens firstAppend

end Leone.Session

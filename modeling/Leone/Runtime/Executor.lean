import Leone.Service.Model

/-!
# The runtime executor

The executor that runs scheduled quanta on retained sessions of a generation driver. The driver
is a parameter: any state machine with the driver's calls, each of which may fail. A session is
mutated in place, so a driver call returns it also when it fails.
-/

namespace Leone.Runtime

open Framework Service
open Scheduler hiding RequestState cancel

/-! ## Drivers -/

/-- Options of a generation. `rest` stands for the options that only the driver reads. -/
structure GenerateOptions (ω : Type) where
  maxTokens : Nat
  rest : ω

/-- The output of one bounded call to a pausable generation driver. -/
structure GenerationQuantum where
  tokens : List Nat
  pieces : List (List Nat)
  eos : Bool
  cancelled : Bool
  deriving DecidableEq

/-- One bounded prompt advance from a pausable generation driver. -/
inductive DriverPrefillProgress (P R : Type)
  | pending (pending : P) (processedTokens : Nat)
  | ready (ready : R) (processedTokens : Nat)
  | cancelled (processedTokens : Nat)

/-- Runs retained generation state for one bounded token quantum. `δ` is the driver's own state,
`S` a session, `P` and `R` pending and ready prompt evaluations, and `κ` a cancellation flag that
the driver may read at any time. -/
structure PausableGenerationDriver (δ S P R ω κ ε : Type) where
  startSession : δ → S × δ
  beginPrefill : List Nat → GenerateOptions ω → EStateM ε (δ × S) P
  advancePrefill : P → Nat → κ → EStateM ε δ (DriverPrefillProgress P R)
  finishPrefill : R → EStateM ε (δ × S) Unit
  generateQuantum : List Nat → GenerateOptions ω → κ → EStateM ε (δ × S) GenerationQuantum
  finishSession : RequestStatus → EStateM ε (δ × S) Unit

/-! ## Executor state -/

/-- The input and cancellation state for one scheduled generation. -/
structure ScheduledGenerationRequest (ω κ : Type) where
  promptTokens : List Nat
  options : GenerateOptions ω
  cancelled : κ

structure RequestState (S P ω κ : Type) where
  session : S
  pendingPrefill : Option P
  transcript : List Nat
  options : GenerateOptions ω
  remainingTokens : Nat
  emittedTokens : List Nat
  emittedPieces : List (List Nat)
  cancelled : κ

/-- The exact terminal transcript retained for a scheduled request. -/
structure CompletedGeneration where
  status : RequestStatus
  tokens : List Nat
  pieces : List (List Nat)
  deriving DecidableEq

/-- Executes scheduler selections with one retained session per admitted request. -/
structure RuntimeQuantumExecutor (δ S P ω κ : Type) where
  driver : δ
  active : SortedMap RequestId (RequestState S P ω κ)
  completed : SortedMap RequestId CompletedGeneration

/-- An invariant or driver failure during scheduled generation. -/
inductive RuntimeQuantumExecutorError (ε : Type)
  | duplicateRequest (id : RequestId)
  | unknownRequest (id : RequestId)
  | quantumOverflow (budget emitted : Nat)
  | prefillPending
  | zeroPrefillBudget
  | driver (error : ε)
  deriving DecidableEq

variable {δ S P R ω κ ε α : Type}

def RuntimeQuantumExecutor.new (driver : δ) : RuntimeQuantumExecutor δ S P ω κ := ⟨driver, ∅, ∅⟩

abbrev RuntimeM (δ S P ω κ ε α : Type) :=
  ExecutorM (RuntimeQuantumExecutor δ S P ω κ) (RuntimeQuantumExecutorError ε) α

/-- What runs on the driver and the state of one request. -/
abbrev RequestM (δ S P ω κ ε α : Type) :=
  EStateM (RuntimeQuantumExecutorError ε) (δ × RequestState S P ω κ) α

/-- Mutate the state of an active request in place, also when the call fails. -/
def onRequest (id : RequestId) (m : RequestM δ S P ω κ ε α) : RuntimeM δ S P ω κ ε α := fun x =>
  match x.active.get? id with
  | none => .error (.unknownRequest id) x
  | some state =>
    match m.run (x.driver, state) with
    | .ok a p => .ok a { x with driver := p.1, active := x.active.insert id p.2 }
    | .error e p => .error e { x with driver := p.1, active := x.active.insert id p.2 }

/-- A driver call on the session of the request at hand. -/
def driverCall (m : EStateM ε (δ × S) α) : RequestM δ S P ω κ ε α := fun p =>
  match m.run (p.1, p.2.session) with
  | .ok a q => .ok a (q.1, { p.2 with session := q.2 })
  | .error e q => .error (.driver e) (q.1, { p.2 with session := q.2 })

/-- A driver call that is not given the session. -/
def withoutSession (m : EStateM ε δ α) : EStateM ε (δ × S) α := fun p =>
  match m.run p.1 with
  | .ok a d => .ok a (d, p.2)
  | .error e d => .error e (d, p.2)

/-! ## Quanta -/

section Executor

variable (D : PausableGenerationDriver δ S P R ω κ ε)

/-- Progress beyond 32 bits is reported as the largest count. -/
def reportedTokens (processedTokens : Nat) : Nat := (tryFrom 32 processedTokens).getD (2 ^ 32 - 1)

def finishPrefillProgress (progress : DriverPrefillProgress P R) :
    RequestM δ S P ω κ ε QuantumOutput :=
  match progress with
  | .pending pending processedTokens => do
    modify fun p => (p.1, { p.2 with pendingPrefill := some pending })
    return .ofPrefill (reportedTokens processedTokens) false false
  | .ready ready processedTokens => do
    driverCall (D.finishPrefill ready)
    return .ofPrefill (reportedTokens processedTokens) true false
  | .cancelled processedTokens =>
    return .ofPrefill (reportedTokens processedTokens) false true

/-- Take the pending evaluation of a prompt, or start one. -/
def takePendingPrefill : RequestM δ S P ω κ ε P := do
  let state := (← get).2
  match state.pendingPrefill with
  | some pending => do
    modify fun p => (p.1, { p.2 with pendingPrefill := none })
    return pending
  | none => driverCall (D.beginPrefill state.transcript state.options)

def executePrefill (dispatch : Dispatch) : RuntimeM δ S P ω κ ε QuantumOutput := do
  if dispatch.tokenBudget = 0 then throw .zeroPrefillBudget
  onRequest dispatch.requestId do
    let pending ← takePendingPrefill D
    let progress ← driverCall <| withoutSession <|
      D.advancePrefill pending dispatch.tokenBudget (← get).2.cancelled
    finishPrefillProgress D progress

/-- Record the tokens of a quantum. Remaining tokens at zero end the request even without an
end-of-sequence token. -/
def emitQuantum (quantum : GenerationQuantum) : RequestM δ S P ω κ ε QuantumOutput := do
  modify fun p => (p.1, { p.2 with
    remainingTokens := p.2.remainingTokens - quantum.tokens.length
    transcript := p.2.transcript ++ quantum.tokens
    emittedTokens := p.2.emittedTokens ++ quantum.tokens
    emittedPieces := p.2.emittedPieces ++ quantum.pieces })
  return ⟨quantum.tokens, quantum.eos || (← get).2.remainingTokens = 0, quantum.cancelled, none⟩

def execute (requestId : RequestId) (tokenBudget : Nat) : RuntimeM δ S P ω κ ε QuantumOutput :=
  onRequest requestId do
    let state := (← get).2
    if state.pendingPrefill.isSome then throw .prefillPending
    -- the scheduler quantum cannot exceed the remaining request limit
    let budget := min tokenBudget state.remainingTokens
    let quantum ← driverCall (D.generateQuantum state.transcript
      { state.options with maxTokens := budget } state.cancelled)
    if budget < quantum.tokens.length then
      throw (.quantumOverflow budget quantum.tokens.length)
    emitQuantum quantum

def executeDispatch (dispatch : Dispatch) : RuntimeM δ S P ω κ ε QuantumOutput :=
  match dispatch.kind with
  | .prefill => executePrefill D dispatch
  | .decode => execute D dispatch.requestId dispatch.tokenBudget

/-! ## Requests -/

def begin (requestId : RequestId) (request : ScheduledGenerationRequest ω κ) :
    RuntimeM δ S P ω κ ε Unit := do
  if (← get).active.contains requestId then throw (.duplicateRequest requestId)
  modify fun x => { x with completed := x.completed.remove requestId }
  modify fun x => { x with
    driver := (D.startSession x.driver).2
    active := x.active.insert requestId
      { session := (D.startSession x.driver).1
        pendingPrefill := none
        transcript := request.promptTokens
        options := request.options
        remainingTokens := request.options.maxTokens
        emittedTokens := []
        emittedPieces := []
        cancelled := request.cancelled } }

/-- Move the transcript of a request to the completed ones. A driver error loses it. -/
def finish (requestId : RequestId) (status : RequestStatus) : RuntimeM δ S P ω κ ε Unit :=
  fun x =>
    match x.active.get? requestId with
    | none => .error (.unknownRequest requestId) x
    | some state =>
      match (D.finishSession status).run (x.driver, state.session) with
      | .error e p => .error (.driver e)
        { x with driver := p.1, active := x.active.remove requestId }
      | .ok _ p => .ok () { x with
        driver := p.1
        active := x.active.remove requestId
        completed := x.completed.insert requestId
          ⟨status, state.emittedTokens, state.emittedPieces⟩ }

/-- The executor that the service drives. Its batches run row by row and stop at the first
error, as in the default of the executor interface. -/
def runtimeExecutor : QuantumExecutor (RuntimeQuantumExecutor δ S P ω κ)
    (ScheduledGenerationRequest ω κ) (RuntimeQuantumExecutorError ε) where
  begin := begin D
  executeBatch dispatches := dispatches.mapM' (executeDispatch D)
  finish := finish D
  finishAt requestId status _ := finish D requestId status

end Executor

/-- The tokens that the executor retains for a request. -/
def retained (x : RuntimeQuantumExecutor δ S P ω κ) (id : RequestId) : Option (List Nat) :=
  match x.active.get? id with
  | some state => some state.emittedTokens
  | none => (x.completed.get? id).map CompletedGeneration.tokens

end Leone.Runtime

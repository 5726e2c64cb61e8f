import Leone.Framework.Machine
import Leone.Runtime.Transcript
import Leone.Service.Ticks

/-!
# Agreement of the two transcripts

The service and the runtime executor each keep the tokens of a request. They agree unless tokens
that the executor recorded are dropped by the service, which happens when a batch fails after
one of its rows emitted tokens, or lost by the executor, when the driver fails to finish a
session.
-/

namespace Leone.Runtime

open Framework Framework.Method Service
open Scheduler hiding RequestState cancel

variable {δ S P R ω κ ε : Type}

/-- A service over the runtime executor, whose driver records failed finishes. -/
abbrev GenerationService (δ S P ω κ ε : Type) :=
  ScheduledService (RuntimeQuantumExecutor (δ × Bool) S P ω κ) (RuntimeQuantumExecutorError ε)

/-- The driver has failed to finish a session. -/
def finishFailed (s : GenerationService δ S P ω κ ε) : Bool := s.executor.driver.2

/-- The service and the executor hold the same tokens for every request. -/
def TranscriptsAgree (s : GenerationService δ S P ω κ ε) : Prop :=
  ∀ id, s.output id = retained s.executor id

/-! ## Batches that keep their tokens -/

/-- The scheduler after one output was committed. -/
def commitScheduler (s : ContinuousScheduler) (dispatch : Dispatch) (output : QuantumOutput)
    (state : Scheduler.RequestState) : ContinuousScheduler :=
  committedState (markedState s dispatch.requestId state output.cancelled) dispatch.requestId
    (committedRecord dispatch.kind output.tokens.length (quantumProgress dispatch output)
      (output.prefill.any (·.ready)) output.eos (marked state output.cancelled))
    (committedStats dispatch.kind output.tokens.length (quantumProgress dispatch output)
      (output.prefill.any (·.ready)) output.eos (marked state output.cancelled) s.stats)

/-- The counters that committing one output advances have room. -/
def OutputFits (s : ContinuousScheduler) (dispatch : Dispatch) (output : QuantumOutput)
    (state : Scheduler.RequestState) : Prop :=
  QuantumFits dispatch.kind output.tokens.length (quantumProgress dispatch output)
    (output.prefill.any (·.ready)) (marked state output.cancelled) s.stats

instance (s : ContinuousScheduler) (dispatch : Dispatch) (output : QuantumOutput)
    (state : Scheduler.RequestState) : Decidable (OutputFits s dispatch output state) :=
  inferInstanceAs (Decidable (QuantumFits _ _ _ _ _ _))

/-- From the first output whose commit finds a counter exhausted, no output has tokens. -/
def CommitsKeep : ContinuousScheduler → List Dispatch → List QuantumOutput → Prop
  | s, dispatch :: batch, output :: outputs =>
    match s.requests.get? dispatch.requestId with
    | none => True
    | some state =>
      if OutputFits s dispatch output state then
        CommitsKeep (commitScheduler s dispatch output state) batch outputs
      else ∀ output' ∈ output :: outputs, output'.tokens = []
  | _, _, _ => True

instance CommitsKeep.decidable : ∀ s batch outputs, Decidable (CommitsKeep s batch outputs)
  | s, dispatch :: batch, output :: outputs => by
    unfold CommitsKeep
    cases s.requests.get? dispatch.requestId with
    | none => exact .isTrue trivial
    | some state =>
      have := CommitsKeep.decidable (commitScheduler s dispatch output state) batch outputs
      dsimp only
      infer_instance
  | _, [], _ | _, _ :: _, [] => .isTrue trivial

section Batches

variable (D : PausableGenerationDriver δ S P R ω κ ε)

/-- No row of a batch records a token. -/
def Silent (batch : List Dispatch) (x : RuntimeQuantumExecutor δ S P ω κ) : Prop :=
  ∀ tokens ∈ rowTokens D batch x, tokens = []

/-- The outputs of a batch pass the service's checks. -/
def Accepted (ε : Type) (batch : List Dispatch) (outputs : List QuantumOutput) : Prop :=
  outputs.length = batch.length ∧ overBudgetOutput batch outputs = none ∧
    invalidOutputPhase batch outputs = (none : Option (ServiceError ε))

instance (ε : Type) (batch : List Dispatch) (outputs : List QuantumOutput) :
    Decidable (Accepted ε batch outputs) :=
  inferInstanceAs (Decidable (_ ∧ _ ∧ _))

/-- A batch whose recorded tokens reach the service: if a row fails, or an output does not pass
the service's checks, no row recorded a token. -/
def BatchKeeps (batch : List Dispatch) (s : GenerationService δ S P ω κ ε) : Prop :=
  match (answer ((runtimeExecutor D.recorded).executeBatch batch) s.executor).1 with
  | .error _ => Silent D.recorded batch s.executor
  | .ok outputs =>
    if Accepted (RuntimeQuantumExecutorError ε) batch outputs then
      CommitsKeep s.scheduler batch outputs
    else Silent D.recorded batch s.executor

instance (batch : List Dispatch) (x : RuntimeQuantumExecutor δ S P ω κ) :
    Decidable (Silent D batch x) :=
  inferInstanceAs (Decidable (∀ tokens ∈ _, tokens = []))

instance (batch : List Dispatch) (s : GenerationService δ S P ω κ ε) :
    Decidable (BatchKeeps D batch s) := by
  unfold BatchKeeps
  split <;> infer_instance

end Batches

/-! ## The discipline of a tick -/

/-- Unless the driver failed to finish a session, the transcripts agree. -/
def Agreed (s : GenerationService δ S P ω κ ε) : Prop :=
  finishFailed s = false → TranscriptsAgree s

/-- The executor is ahead of the service by the outputs still to commit. -/
structure Ahead (batch : List Dispatch) (outputs : List QuantumOutput)
    (s : GenerationService δ S P ω κ ε) : Prop where
  tokens : finishFailed s = false → ∀ id, retained s.executor id =
    (s.output id).map (· ++ pendingTokens id batch (outputs.map QuantumOutput.tokens))
  keep : CommitsKeep s.scheduler batch outputs

theorem Ahead.agreed_of_silent {batch : List Dispatch} {outputs : List QuantumOutput}
    {s : GenerationService δ S P ω κ ε} (h : Ahead batch outputs s)
    (hsilent : ∀ output ∈ outputs, output.tokens = []) : Agreed s := by
  intro hflag id
  have hrows : ∀ tokens ∈ outputs.map QuantumOutput.tokens, tokens = [] := by
    simpa using hsilent
  have hid := h.tokens hflag id
  rw [pendingTokens_silent batch hrows id] at hid
  simpa using hid.symm

section Discipline

variable (D : PausableGenerationDriver δ S P R ω κ ε)

/-- Finishing a request keeps the agreement, unless the driver fails. -/
theorem Agreed.finish {s : GenerationService δ S P ω κ ε} (h : Agreed s) (id : RequestId)
    (status : RequestStatus) (scheduler : ContinuousScheduler)
    (finishError : Option (ServiceError (RuntimeQuantumExecutorError ε))) :
    Agreed { s with
      scheduler
      executor := (answer (finish D.recorded id status) s.executor).2
      finishError } := by
  intro hflag id'
  obtain ⟨hbefore, hsame⟩ := finish_retained D status s.executor id hflag
  exact (h hbefore id').trans (hsame id').symm

theorem Ahead.committed {dispatch : Dispatch} {batch : List Dispatch} {output : QuantumOutput}
    {outputs : List QuantumOutput} {s s' : GenerationService δ S P ω κ ε}
    {state : Scheduler.RequestState} (h : Ahead (dispatch :: batch) (output :: outputs) s)
    (hget : s.scheduler.requests.get? dispatch.requestId = some state)
    (hc : Committed (runtimeExecutor D.recorded) s dispatch output state s') :
    Ahead batch outputs s' := by
  obtain ⟨tokens, completion, scheduler, finishError, htokens, hr, rfl⟩ := hc
  have hrelease : finishFailed (committedService (runtimeExecutor D.recorded) s dispatch
      (tokens ++ output.tokens) completion.status scheduler finishError) = false →
      finishFailed s = false ∧ ∀ id, retained (committedService (runtimeExecutor D.recorded) s
        dispatch (tokens ++ output.tokens) completion.status scheduler finishError).executor id =
        retained s.executor id := by
    intro hflag
    simp only [finishFailed, committedService] at hflag ⊢
    split_ifs at hflag ⊢
    · exact finish_retained D _ _ _ hflag
    · exact ⟨hflag, fun _ => rfl⟩
  refine ⟨fun hflag id => ?_, ?_⟩
  · obtain ⟨hbefore, hsame⟩ := hrelease hflag
    rw [hsame id, h.tokens hbefore id]
    simp only [ScheduledService.output, committedService, SortedMap.get?_insert, pendingTokens,
      List.map_cons]
    by_cases heq : id = dispatch.requestId
    · simp [heq, htokens]
    · simp [heq, Ne.symm heq]
  · have hkeep := h.keep
    have hfits : OutputFits s.scheduler dispatch output state := hr.fits
    simp only [CommitsKeep, hget, if_pos hfits] at hkeep
    rwa [show scheduler = commitScheduler s.scheduler dispatch output state from hr.state_eq]
      at *

theorem Ahead.stalled {dispatch : Dispatch} {batch : List Dispatch} {output : QuantumOutput}
    {outputs : List QuantumOutput} {s : GenerationService δ S P ω κ ε}
    {state record : Scheduler.RequestState} {stats : SchedulerStats}
    (h : Ahead (dispatch :: batch) (output :: outputs) s)
    (hget : s.scheduler.requests.get? dispatch.requestId = some state)
    (hstall : CommitStalls s.scheduler dispatch output state record stats) : Agreed s := by
  have hkeep := h.keep
  have hfits : ¬ OutputFits s.scheduler dispatch output state := hstall.noFit
  simp only [CommitsKeep, hget, if_neg hfits] at hkeep
  exact h.agreed_of_silent hkeep

theorem Agreed.executed {batch : List Dispatch} {s : GenerationService δ S P ω κ ε}
    {outputs : List QuantumOutput} (h : Agreed s) (hkeeps : BatchKeeps D batch s)
    (hok : (answer ((runtimeExecutor D.recorded).executeBatch batch) s.executor).1 = .ok outputs)
    (hvalid : List.Forall₂ ValidOutput batch outputs) :
    Ahead batch outputs { s with
      executor := (answer ((runtimeExecutor D.recorded).executeBatch batch) s.executor).2 } := by
  obtain ⟨hflag, hretained, hrows⟩ := executeBatch_retained D batch s.executor
  have hlength := hvalid.length_eq.symm
  have haccepted : Accepted (RuntimeQuantumExecutorError ε) batch outputs :=
    ⟨hlength, (forall₂_validOutput hlength).mpr hvalid⟩
  refine ⟨fun hafter id => ?_, ?_⟩
  · have hbefore : finishFailed s = false := hflag.symm.trans hafter
    rw [hretained id, hrows outputs hok, ← h hbefore id]
    rfl
  · simpa only [BatchKeeps, hok, if_pos haccepted] using hkeeps

theorem Agreed.refused {batch : List Dispatch} {s : GenerationService δ S P ω κ ε}
    (h : Agreed s) (hkeeps : BatchKeeps D batch s)
    (hbad : ∀ outputs,
      (answer ((runtimeExecutor D.recorded).executeBatch batch) s.executor).1 = .ok outputs →
      ¬ List.Forall₂ ValidOutput batch outputs) :
    Agreed { s with
      executor := (answer ((runtimeExecutor D.recorded).executeBatch batch) s.executor).2 } := by
  have hsilent : Silent D.recorded batch s.executor := by
    unfold BatchKeeps at hkeeps
    split at hkeeps
    · exact hkeeps
    · rename_i outputs hok
      have hrefused : ¬ Accepted (RuntimeQuantumExecutorError ε) batch outputs :=
        fun haccepted => hbad outputs hok ((forall₂_validOutput haccepted.1).mp haccepted.2)
      rwa [if_neg hrefused] at hkeeps
  obtain ⟨hflag, hretained, -⟩ := executeBatch_retained D batch s.executor
  intro hafter id
  have hbefore : finishFailed s = false := hflag.symm.trans hafter
  rw [hretained id, pendingTokens_silent batch hsilent id, ← h hbefore id]
  simp [ScheduledService.output]

theorem agreement_discipline : Discipline (runtimeExecutor D.recorded)
    (Agreed (ε := ε)) (BatchKeeps D) (fun _ => Agreed) Ahead (fun _ => Agreed) where
  forget _ _ h := h
  opens _ _ _ _ _ _ _ _ h _ _ := h
  fails _ _ _ _ _ _ h _ _ := h
  finishes _ s id _ finishError h := h.finish D id .deadlineExpired s.scheduler finishError
  idle _ h := h
  executes _ _ _ _ h hkeeps hok hvalid := h.executed D hkeeps hok hvalid
  refuses _ _ _ h hkeeps hbad := h.refused D hkeeps hbad
  commits _ _ _ _ _ _ _ _ hget _ h hc := h.committed D hget hc
  stalls dispatch _ _ _ s _ record stats _ hget h hstall :=
    (h.stalled hget hstall).finish D dispatch.requestId .cancelled _ s.finishError
  aborts dispatch _ s _ _ _ h := h.finish D dispatch.requestId .cancelled _ s.finishError
  commits_done _ h := h.agreed_of_silent (by simp)
  aborts_done _ h := h

end Discipline

/-! ## Whole runs -/

section Runs

variable (D : PausableGenerationDriver δ S P R ω κ ε)

/-- The batch that a tick selects keeps its tokens. -/
def TickKeeps (s : GenerationService δ S P ω κ ε) (nowNs limit : Nat) : Prop :=
  (openBatch (runtimeExecutor D.recorded) nowNs limit).Ends { s with finishError := none }
    (fun batch s' => batch ≠ [] → BatchKeeps D batch s') (fun _ _ => True)

instance (s : GenerationService δ S P ω κ ε) (nowNs limit : Nat) :
    Decidable (TickKeeps D s nowNs limit) :=
  inferInstanceAs (Decidable (Ends _ _ _ _))

/-- What a call needs for the transcripts to agree. Terminal records stay. -/
def KeepsTokens (s : GenerationService δ S P ω κ ε) :
    ServiceCall (ScheduledGenerationRequest ω κ) → Prop
  | .tick nowNs => TickKeeps D s nowNs 1
  | .tickBatch nowNs => TickKeeps D s nowNs s.scheduler.policy.maxBatchRequests
  | .admitRequest _ _ _ | .cancel _ => True
  | .pruneTerminal => False

/-- A call that returns, keeps its tokens and in which the driver finishes every session. -/
structure Faithful (s : GenerationService δ S P ω κ ε)
    (call : ServiceCall (ScheduledGenerationRequest ω κ)) : Prop where
  returns : call.Returns (runtimeExecutor D.recorded) s
  keeps : KeepsTokens D s call
  finishes : finishFailed (serviceStep (runtimeExecutor D.recorded) s call) = false

instance (s : GenerationService δ S P ω κ ε)
    (call : ServiceCall (ScheduledGenerationRequest ω κ)) : Decidable (KeepsTokens D s call) := by
  cases call <;> unfold KeepsTokens <;> infer_instance

instance [DecidableEq ε] (s : GenerationService δ S P ω κ ε)
    (call : ServiceCall (ScheduledGenerationRequest ω κ)) : Decidable (Faithful D s call) :=
  decidable_of_iff (call.Returns (runtimeExecutor D.recorded) s ∧ KeepsTokens D s call ∧
      finishFailed (serviceStep (runtimeExecutor D.recorded) s call) = false)
    ⟨fun h => ⟨h.1, h.2.1, h.2.2⟩, fun h => ⟨h.1, h.2, h.3⟩⟩

variable {D} {s : GenerationService δ S P ω κ ε}

open Discipline (Rest)

theorem agreed_admitRequest (h : Rest Agreed s) (spec : RequestSpec)
    (request : ScheduledGenerationRequest ω κ) (nowNs : Nat) :
    (admitRequest (runtimeExecutor D.recorded) spec request nowNs).Leaves s (Rest Agreed) True := by
  refine h.admitRequest (fun _ _ => h.2) (fun _ _ _ _ => h.2) (fun bytes u hfresh hok => ?_)
    (fun scheduler record error _ _ herror => ?_)
  · obtain ⟨hflag, hown, hrest⟩ := begin_retained D hok
    intro hafter id
    have hbefore : finishFailed s = false := hflag.symm.trans hafter
    by_cases heq : id = spec.id
    · subst heq
      exact (SortedMap.get?_insert_self _ _ _).trans hown.symm
    · have hid := (h.2 hbefore id).trans (hrest id heq).symm
      exact (SortedMap.get?_insert_of_ne heq).trans hid
  · have hsame : (answer (begin D.recorded spec.id request) s.executor).2 = s.executor :=
      begin_failed D herror
    simp only [runtimeExecutor, hsame]
    exact h.2

theorem agreed_cancel (h : Rest Agreed s) (id : RequestId) :
    (Service.cancel (runtimeExecutor D.recorded) id).Leaves s (Rest Agreed) True :=
  h.cancel (fun _ _ _ => h.2.finish D id .cancelled _ s.finishError) (fun _ _ _ => h.2)

theorem agreed_step {call : ServiceCall (ScheduledGenerationRequest ω κ)} (h : Rest Agreed s)
    (hcall : Faithful D s call) :
    Rest Agreed (serviceStep (runtimeExecutor D.recorded) s call) := by
  have hkeeps := hcall.keeps
  refine hcall.returns.after ?_
  cases call with
  | admitRequest spec request nowNs =>
    simpa only [Leaves, ServiceCall.exec, ends_discard] using agreed_admitRequest h spec request nowNs
  | tick nowNs =>
    simpa only [Leaves, ServiceCall.exec, tick, ends_discard, ends_bind, ends_pure] using
      (agreement_discipline D).tick h hkeeps
  | tickBatch nowNs =>
    simpa only [Leaves, ServiceCall.exec, tickBatch, ends_discard, ends_bind, ends_get] using
      (agreement_discipline D).tick h hkeeps
  | cancel id =>
    simpa only [Leaves, ServiceCall.exec, ends_discard] using agreed_cancel h id
  | pruneTerminal => exact hkeeps.elim

theorem agreed_new {policy : SchedulerPolicy} {driver : δ × Bool}
    (h : ScheduledService.new policy (RuntimeQuantumExecutor.new driver) = .ok s) :
    Rest Agreed s := by
  cases hnew : ContinuousScheduler.new policy with
  | error e =>
    rw [ScheduledService.new, hnew] at h
    cases h
  | ok scheduler =>
    rw [ScheduledService.new, hnew] at h
    cases h
    exact ⟨(Inv.new hnew).toCoherent, fun _ _ => rfl⟩

end Runs

/-- The two transcripts agree after every call, in every run of admissions, ticks and
cancellations whose batches keep their tokens and whose driver finishes every session. -/
theorem transcripts_agree_along (policy : SchedulerPolicy)
    (D : PausableGenerationDriver δ S P R ω κ ε) (driver : δ) (s : GenerationService δ S P ω κ ε)
    (calls : List (ServiceCall (ScheduledGenerationRequest ω κ)))
    (hnew : ScheduledService.new policy (RuntimeQuantumExecutor.new (driver, false)) = .ok s)
    (hcalls : Along (serviceStep (runtimeExecutor D.recorded)) (Faithful D) s calls) :
    Along (serviceStep (runtimeExecutor D.recorded))
      (fun s call => TranscriptsAgree (serviceStep (runtimeExecutor D.recorded) s call)) s calls :=
  along_of_invariant (agreed_new hnew) (fun _ _ h hcall => agreed_step h hcall) hcalls
    fun _ _ h hcall => (agreed_step h hcall).2 hcall.finishes

/-- A driver that answers the session numbered `n` with one token, up to the first `limit`
sessions. It fails on the others. -/
def countingDriver (limit : Nat) : PausableGenerationDriver Nat Nat Unit Unit Unit Unit Unit where
  startSession next := (next, next + 1)
  beginPrefill _ _ := pure ()
  advancePrefill _ budget _ := pure (.pending () budget)
  finishPrefill _ := pure ()
  generateQuantum _ _ _ := do
    let p ← get
    if p.2 < limit then return ⟨[p.2], [[]], false, false⟩ else throw ()
  finishSession _ := pure ()

def oneTokenCalls : List (ServiceCall (ScheduledGenerationRequest Unit Unit)) :=
  [.admitRequest ⟨1, 0, 0, 0, 1, 1, none⟩ ⟨[], ⟨1, ()⟩, ()⟩ 0,
    .admitRequest ⟨2, 0, 0, 0, 1, 1, none⟩ ⟨[], ⟨1, ()⟩, ()⟩ 0, .tickBatch 0]

theorem transcripts_agree_along_counting :
    Along (serviceStep (runtimeExecutor (countingDriver 2).recorded))
      (fun s call => TranscriptsAgree
        (serviceStep (runtimeExecutor (countingDriver 2).recorded) s call))
      ⟨⟨smallPolicy, ∅, ∅, [], 0, 0, .default⟩, .new (0, false), ∅, none⟩ oneTokenCalls := by
  exact transcripts_agree_along smallPolicy (countingDriver 2) 0 _ _ rfl (by decide +kernel)

/-- A batch whose second row fails drops the token that its first row recorded. -/
theorem transcripts_disagree :
    ¬ Along (serviceStep (runtimeExecutor (countingDriver 1).recorded))
      (fun s call => TranscriptsAgree
        (serviceStep (runtimeExecutor (countingDriver 1).recorded) s call))
      ⟨⟨smallPolicy, ∅, ∅, [], 0, 0, .default⟩, .new (0, false), ∅, none⟩ oneTokenCalls := by
  intro halong
  have hfirst : Along (serviceStep (runtimeExecutor (countingDriver 1).recorded))
      (fun s call =>
        (serviceStep (runtimeExecutor (countingDriver 1).recorded) s call).output 1 =
        retained (serviceStep (runtimeExecutor (countingDriver 1).recorded) s call).executor 1)
      ⟨⟨smallPolicy, ∅, ∅, [], 0, 0, .default⟩, .new (0, false), ∅, none⟩ oneTokenCalls :=
    halong.mono fun _ _ hagree => hagree 1
  revert hfirst
  decide +kernel

end Leone.Runtime

import Leone.Runtime.Executor

/-!
# Recorded transcripts

What each executor call does to the tokens that the executor retains. A row records what it
returns, a batch what its rows up to the first failing one recorded, and a finish keeps the
transcript unless the driver fails to finish the session.
-/

namespace Leone.Runtime

open Framework Service
open Scheduler hiding RequestState cancel

variable {δ S P R ω κ ε α β : Type}

/-! ## Answers of composed calls -/

section Answers

variable {σ : Type}

@[simp] theorem answer_pure (a : α) (x : σ) :
    answer (pure a : ExecutorM σ ε α) x = (.ok a, x) := rfl

@[simp] theorem answer_throw (e : ε) (x : σ) :
    answer (throw e : ExecutorM σ ε α) x = (.error e, x) := rfl

theorem answer_bind (m : ExecutorM σ ε α) (f : α → ExecutorM σ ε β) (x : σ) :
    answer (m >>= f) x = match answer m x with
      | (.ok a, x') => answer (f a) x'
      | (.error e, x') => (.error e, x') := by
  simp only [answer, EStateM.run_bind]
  cases m.run x <;> rfl

/-- The rows of a loop after one that returned. -/
theorem answer_mapM'_cons_ok {f : α → ExecutorM σ ε β} {a : α} {b : β} {x x' : σ}
    (h : answer (f a) x = (.ok b, x')) (as : List α) :
    answer ((a :: as).mapM' f) x =
      ((answer (as.mapM' f) x').1.map (b :: ·), (answer (as.mapM' f) x').2) := by
  rw [List.mapM'_cons, answer_bind, h]
  simp only [answer_bind, answer_pure]
  rcases answer (as.mapM' f) x' with ⟨bs | e, x''⟩ <;> rfl

theorem answer_mapM'_cons_error {f : α → ExecutorM σ ε β} {a : α} {e : ε} {x x' : σ}
    (h : answer (f a) x = (.error e, x')) (as : List α) :
    answer ((a :: as).mapM' f) x = (.error e, x') := by
  rw [List.mapM'_cons, answer_bind, h]

end Answers

/-! ## Failed finishes -/

/-- A session call of a driver, with a flag that is raised when `failing` and the call fails. -/
def recording (failing : Bool) (m : EStateM ε (δ × S) α) : EStateM ε ((δ × Bool) × S) α :=
  fun p =>
    match m.run (p.1.1, p.2) with
    | .ok a q => .ok a ((q.1, p.1.2), q.2)
    | .error e q => .error e ((q.1, p.1.2 || failing), q.2)

/-- A driver that records whether finishing a session has failed. It behaves as the original
otherwise. -/
def PausableGenerationDriver.recorded (D : PausableGenerationDriver δ S P R ω κ ε) :
    PausableGenerationDriver (δ × Bool) S P R ω κ ε where
  startSession d := ((D.startSession d.1).1, ((D.startSession d.1).2, d.2))
  beginPrefill transcript options := recording false (D.beginPrefill transcript options)
  advancePrefill pending budget cancelled := fun d =>
    match (D.advancePrefill pending budget cancelled).run d.1 with
    | .ok a d' => .ok a (d', d.2)
    | .error e d' => .error e (d', d.2)
  finishPrefill ready := recording false (D.finishPrefill ready)
  generateQuantum transcript options cancelled :=
    recording false (D.generateQuantum transcript options cancelled)
  finishSession status := recording true (D.finishSession status)

/-! ## What one row records -/

section Rows

/-- A call on the state of one request. It appends the tokens of what it returns to the recorded
ones, nothing when it fails, and does not raise the flag. -/
def Emits (m : RequestM (δ × Bool) S P ω κ ε α) (tokens : α → List Nat) : Prop :=
  ∀ p, match m.run p with
  | .ok a p' => p'.1.2 = p.1.2 ∧ p'.2.emittedTokens = p.2.emittedTokens ++ tokens a
  | .error _ p' => p'.1.2 = p.1.2 ∧ p'.2.emittedTokens = p.2.emittedTokens

variable {tokens : β → List Nat}

theorem emits_pure {a : β} (h : tokens a = []) :
    Emits (pure a : RequestM (δ × Bool) S P ω κ ε β) tokens := by
  intro p
  simp [EStateM.run_pure, h]

theorem emits_throw (e : RuntimeQuantumExecutorError ε) :
    Emits (throw e : RequestM (δ × Bool) S P ω κ ε β) tokens :=
  fun _ => ⟨rfl, rfl⟩

theorem emits_get : Emits (get : RequestM (δ × Bool) S P ω κ ε _) (fun _ => []) := by
  intro p
  simp [EStateM.run_get]

theorem emits_modify {f : (δ × Bool) × RequestState S P ω κ → (δ × Bool) × RequestState S P ω κ}
    (hflag : ∀ p, (f p).1.2 = p.1.2)
    (htokens : ∀ p, (f p).2.emittedTokens = p.2.emittedTokens) :
    Emits (modify f : RequestM (δ × Bool) S P ω κ ε PUnit) (fun _ => []) := by
  intro p
  simp [EStateM.run_modify, hflag, htokens]

/-- Only the last part of a call emits. -/
theorem emits_bind {m : RequestM (δ × Bool) S P ω κ ε α}
    {f : α → RequestM (δ × Bool) S P ω κ ε β} (hm : Emits m fun _ => [])
    (hf : ∀ a, Emits (f a) tokens) : Emits (m >>= f) tokens := by
  intro p
  rw [EStateM.run_bind]
  have hfirst := hm p
  cases hrun : m.run p with
  | error e p' =>
    rw [hrun] at hfirst
    exact hfirst
  | ok a p' =>
    rw [hrun] at hfirst
    obtain ⟨hflag, htokens⟩ := hfirst
    rw [List.append_nil] at htokens
    have hsecond := hf a p'
    rw [hflag, htokens] at hsecond
    exact hsecond

/-- A session call that does not raise the flag. -/
def KeepsFlag (m : EStateM ε ((δ × Bool) × S) α) : Prop :=
  ∀ p, match m.run p with | .ok _ q | .error _ q => q.1.2 = p.1.2

/-- The driver sees the session, not the recorded tokens. -/
theorem emits_driverCall {m : EStateM ε ((δ × Bool) × S) α} (h : KeepsFlag m) :
    Emits (driverCall m : RequestM (δ × Bool) S P ω κ ε α) (fun _ => []) := by
  intro p
  have hcall := h (p.1, p.2.session)
  simp only [driverCall, EStateM.run] at *
  cases hrun : m (p.1, p.2.session) with
  | ok a q =>
    rw [hrun] at hcall
    exact ⟨hcall, (List.append_nil _).symm⟩
  | error e q =>
    rw [hrun] at hcall
    exact ⟨hcall, rfl⟩

theorem keepsFlag_recording (m : EStateM ε (δ × S) α) : KeepsFlag (recording false m) := by
  intro p
  simp only [recording, EStateM.run]
  cases m (p.1.1, p.2) with
  | ok a q => rfl
  | error e q => exact Bool.or_false _

variable (D : PausableGenerationDriver δ S P R ω κ ε)

theorem keepsFlag_advancePrefill (pending : P) (budget : Nat) (cancelled : κ) :
    KeepsFlag (withoutSession (D.recorded.advancePrefill pending budget cancelled) :
      EStateM ε ((δ × Bool) × S) _) := by
  intro p
  simp only [withoutSession, PausableGenerationDriver.recorded, EStateM.run]
  cases D.advancePrefill pending budget cancelled p.1.1 <;> rfl

theorem emits_takePendingPrefill :
    Emits (takePendingPrefill D.recorded : RequestM (δ × Bool) S P ω κ ε P) (fun _ => []) := by
  refine emits_bind emits_get fun p => ?_
  dsimp only
  split
  · exact emits_bind (emits_modify (fun _ => rfl) (fun _ => rfl)) fun _ => emits_pure rfl
  · exact emits_driverCall (keepsFlag_recording _)

theorem emits_finishPrefillProgress (progress : DriverPrefillProgress P R) :
    Emits (finishPrefillProgress D.recorded progress : RequestM (δ × Bool) S P ω κ ε _)
      QuantumOutput.tokens := by
  cases progress with
  | pending =>
    exact emits_bind (emits_modify (fun _ => rfl) (fun _ => rfl)) fun _ => emits_pure rfl
  | ready => exact emits_bind (emits_driverCall (keepsFlag_recording _)) fun _ => emits_pure rfl
  | cancelled => exact emits_pure rfl

theorem emits_emitQuantum (quantum : GenerationQuantum) :
    Emits (emitQuantum quantum : RequestM (δ × Bool) S P ω κ ε _) QuantumOutput.tokens :=
  fun _ => ⟨rfl, rfl⟩

/-! ## What one dispatch records -/

variable {D} {x : RuntimeQuantumExecutor (δ × Bool) S P ω κ} {id : RequestId}

/-- The transcripts after a row of `id` that added `tokens`. -/
structure Extends (x x' : RuntimeQuantumExecutor (δ × Bool) S P ω κ) (id : RequestId)
    (tokens : List Nat) : Prop where
  failed : x'.driver.2 = x.driver.2
  own : retained x' id = (retained x id).map (· ++ tokens)
  rest : ∀ id', id' ≠ id → retained x' id' = retained x id'

theorem Extends.refl (x : RuntimeQuantumExecutor (δ × Bool) S P ω κ) (id : RequestId) :
    Extends x x id [] := ⟨rfl, by simp, fun _ _ => rfl⟩

/-- What a row returns is what it records. -/
def RecordsOwn (id : RequestId) (m : RuntimeM (δ × Bool) S P ω κ ε QuantumOutput) : Prop :=
  ∀ x, match answer m x with
  | (.ok output, x') => Extends x x' id output.tokens
  | (.error _, x') => Extends x x' id []

theorem recordsOwn_onRequest {m : RequestM (δ × Bool) S P ω κ ε QuantumOutput}
    (h : Emits m QuantumOutput.tokens) : RecordsOwn id (onRequest id m) := by
  intro x
  have hinsert (driver : δ × Bool) (state state' : RequestState S P ω κ) (tokens : List Nat)
      (hget : x.active.get? id = some state) (hflag : driver.2 = x.driver.2)
      (htokens : state'.emittedTokens = state.emittedTokens ++ tokens) :
      Extends x { x with driver, active := x.active.insert id state' } id tokens := by
    refine ⟨hflag, ?_, fun id' hne => ?_⟩
    · simp [retained, hget, htokens]
    · simp [retained, SortedMap.get?_insert, hne]
  simp only [answer, onRequest, EStateM.run]
  cases hget : x.active.get? id with
  | none => exact .refl x id
  | some state =>
    have hrun := h (x.driver, state)
    simp only [EStateM.run] at hrun
    cases hm : m (x.driver, state) with
    | ok output p =>
      rw [hm] at hrun
      simp only [hm]
      exact hinsert _ _ _ _ hget hrun.1 hrun.2
    | error e p =>
      rw [hm] at hrun
      simp only [hm]
      exact hinsert _ _ _ [] hget hrun.1 (hrun.2.trans (List.append_nil _).symm)

theorem recordsOwn_executeDispatch (D : PausableGenerationDriver δ S P R ω κ ε)
    (dispatch : Dispatch) :
    RecordsOwn dispatch.requestId (executeDispatch D.recorded dispatch) := by
  cases hk : dispatch.kind with
  | prefill =>
    simp only [executeDispatch, hk, executePrefill]
    by_cases hzero : dispatch.tokenBudget = 0
    · rw [if_pos hzero]
      exact fun x => .refl x _
    · rw [if_neg hzero]
      refine recordsOwn_onRequest (emits_bind (emits_takePendingPrefill D) fun pending => ?_)
      refine emits_bind emits_get fun state => emits_bind ?_ (emits_finishPrefillProgress D)
      exact emits_driverCall (keepsFlag_advancePrefill D pending _ _)
  | decode =>
    simp only [executeDispatch, hk, execute]
    refine recordsOwn_onRequest (emits_bind emits_get fun state => ?_)
    split
    · exact emits_throw _
    · refine emits_bind (emits_driverCall (keepsFlag_recording _)) fun quantum => ?_
      split
      · exact emits_throw _
      · exact emits_emitQuantum quantum

/-! ## What a batch records -/

/-- The tokens that each row of a batch records, up to the first row that fails. -/
def rowTokens (D : PausableGenerationDriver δ S P R ω κ ε) :
    List Dispatch → RuntimeQuantumExecutor δ S P ω κ → List (List Nat)
  | [], _ => []
  | dispatch :: batch, x =>
    match answer (executeDispatch D dispatch) x with
    | (.ok output, x') => output.tokens :: rowTokens D batch x'
    | (.error _, _) => []

/-- What the rows of a batch recorded for one request. -/
def pendingTokens (id : RequestId) : List Dispatch → List (List Nat) → List Nat
  | dispatch :: batch, tokens :: rows =>
    (if dispatch.requestId = id then tokens else []) ++ pendingTokens id batch rows
  | _, _ => []

theorem pendingTokens_silent (batch : List Dispatch) {rows : List (List Nat)}
    (h : ∀ tokens ∈ rows, tokens = []) (id : RequestId) : pendingTokens id batch rows = [] := by
  induction rows generalizing batch with
  | nil => cases batch <;> rfl
  | cons tokens rows ih =>
    have htokens := h tokens List.mem_cons_self
    cases batch with
    | nil => rfl
    | cons dispatch batch =>
      simp [pendingTokens, htokens, ih batch fun tokens hmem => h tokens (List.mem_cons_of_mem _ hmem)]

theorem Extends.retained_eq {x x' : RuntimeQuantumExecutor (δ × Bool) S P ω κ} {tokens : List Nat}
    (h : Extends x x' id tokens) (id' : RequestId) :
    retained x' id' = (retained x id').map (· ++ if id = id' then tokens else []) := by
  by_cases heq : id' = id
  · subst heq
    simpa using h.own
  · rw [h.rest id' heq, if_neg (Ne.symm heq)]
    simp

/-- A batch appends to each transcript the tokens of its own rows, also when it fails. -/
theorem executeBatch_retained (D : PausableGenerationDriver δ S P R ω κ ε)
    (batch : List Dispatch) (x : RuntimeQuantumExecutor (δ × Bool) S P ω κ) :
    let r := answer ((runtimeExecutor D.recorded).executeBatch batch) x
    r.2.driver.2 = x.driver.2 ∧
      (∀ id, retained r.2 id =
        (retained x id).map (· ++ pendingTokens id batch (rowTokens D.recorded batch x))) ∧
      ∀ outputs, r.1 = .ok outputs →
        rowTokens D.recorded batch x = outputs.map QuantumOutput.tokens := by
  simp only [runtimeExecutor]
  induction batch generalizing x with
  | nil =>
    refine ⟨rfl, fun id => by simp [pendingTokens, List.mapM'], fun outputs hok => ?_⟩
    cases hok
    rfl
  | cons dispatch batch ih =>
    have hrow := recordsOwn_executeDispatch D dispatch x
    rw [rowTokens]
    split
    · rename_i output x' hanswer
      simp only [hanswer] at hrow
      rw [answer_mapM'_cons_ok hanswer]
      obtain ⟨hflag, hretained, houtputs⟩ := ih x'
      refine ⟨hflag.trans hrow.failed, fun id => ?_, fun outputs hok => ?_⟩
      · have hown := hrow.retained_eq id
        simp only [hretained id, hown, pendingTokens, Option.map_map]
        congr 1
        funext tokens
        exact List.append_assoc _ _ _
      · cases hrest : (answer (batch.mapM' (executeDispatch D.recorded)) x').1 with
        | error e =>
          rw [hrest] at hok
          cases hok
        | ok rest =>
          rw [hrest] at hok
          cases hok
          rw [houtputs rest hrest]
          rfl
    · rename_i e x' hanswer
      simp only [hanswer] at hrow
      rw [answer_mapM'_cons_error hanswer]
      refine ⟨hrow.failed, fun id => ?_, fun outputs hok => by cases hok⟩
      rw [hrow.retained_eq id]
      simp [pendingTokens]

/-! ## Beginning and finishing -/

theorem begin_retained (D : PausableGenerationDriver δ S P R ω κ ε)
    {request : ScheduledGenerationRequest ω κ} {u : Unit}
    (h : (answer (begin D.recorded id request) x).1 = .ok u) :
    let x' := (answer (begin D.recorded id request) x).2
    x'.driver.2 = x.driver.2 ∧ retained x' id = some [] ∧
      ∀ id', id' ≠ id → retained x' id' = retained x id' := by
  simp only [begin, answer, EStateM.run_bind, EStateM.run_get] at *
  by_cases hdup : x.active.contains id
  · simp [hdup, EStateM.run_throw, EStateM.run_bind] at h
  · simp only [hdup]
    refine ⟨rfl, ?_, fun id' hne => ?_⟩
    · simp [retained, EStateM.run_modify]
    · simp [retained, EStateM.run_modify, SortedMap.get?_insert, SortedMap.get?_remove, hne]

theorem begin_failed (D : PausableGenerationDriver δ S P R ω κ ε)
    {request : ScheduledGenerationRequest ω κ} {e : RuntimeQuantumExecutorError ε}
    (h : (answer (begin D.recorded id request) x).1 = .error e) :
    (answer (begin D.recorded id request) x).2 = x := by
  simp only [begin, answer, EStateM.run_bind, EStateM.run_get] at *
  by_cases hdup : x.active.contains id
  · simp [hdup, EStateM.run_throw, EStateM.run_bind]
  · simp [hdup, EStateM.run_modify] at h

/-- Finishing a request keeps its transcript, unless the driver fails. -/
theorem finish_retained (D : PausableGenerationDriver δ S P R ω κ ε) (status : RequestStatus)
    (x : RuntimeQuantumExecutor (δ × Bool) S P ω κ) (id : RequestId)
    (h : (answer (finish D.recorded id status) x).2.driver.2 = false) :
    x.driver.2 = false ∧
      ∀ id', retained (answer (finish D.recorded id status) x).2 id' = retained x id' := by
  simp only [answer, finish, PausableGenerationDriver.recorded, recording, EStateM.run] at *
  cases hget : x.active.get? id with
  | none =>
    simp only [hget] at h
    exact ⟨h, fun _ => rfl⟩
  | some state =>
    simp only [hget] at h ⊢
    cases hrun : D.finishSession status (x.driver.1, state.session) with
    | error e q =>
      simp [hrun] at h
    | ok a q =>
      simp only [hrun] at h ⊢
      refine ⟨h, fun id' => ?_⟩
      by_cases heq : id' = id
      · subst heq
        simp [retained, hget]
      · simp [retained, SortedMap.get?_remove, SortedMap.get?_insert, heq]

end Rows

end Leone.Runtime

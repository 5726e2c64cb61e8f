import Leone.Scheduler.Moves

/-!
# Bounded unfairness

While one request waits, another one is selected only at a virtual runtime no larger than the
waiting request's. What it can gain is one quantum beyond that, and the quantum that was
already open when the waiting began. Each token served costs virtual time, so the tokens that
can be served in the meantime are bounded too.
-/

namespace Leone.Scheduler

open Framework Framework.Method

/-! ## Virtual time -/

theorem charge_mono {progress progress' priority : Nat} (hp : 1 ≤ priority)
    (h : progress ≤ progress') : charge progress priority ≤ charge progress' priority := by
  have hsat : saturatingMul 128 progress 1024 ≤ saturatingMul 128 progress' 1024 := by
    unfold saturatingMul
    omega
  rw [charge, charge, ceilDiv_le_iff_le_mul hp]
  exact hsat.trans ((ceilDiv_le_iff_le_mul hp).mp le_rfl)

theorem charge_eq {progress : Nat} (priority : Nat) (h : progress < 2 ^ 32) :
    charge progress priority = (1024 * progress) ⌈/⌉ priority := by
  have hsat : saturatingMul 128 progress 1024 = 1024 * progress := by
    unfold saturatingMul
    omega
  rw [charge, hsat]

/-- Virtual time pays for every token at the request's rate. -/
theorem tokens_le_charge {progress priority : Nat} (hp : 1 ≤ priority) (h : progress < 2 ^ 32) :
    1024 * progress ≤ priority * charge progress priority := by
  rw [charge_eq priority h]
  exact (ceilDiv_le_iff_le_mul hp).mp le_rfl

/-- The larger of the two quanta of a policy. -/
def maxQuantum (policy : SchedulerPolicy) : Nat :=
  max policy.serviceQuantumTokens policy.prefillChunkTokens

theorem maxQuantum_lt (policy : SchedulerPolicy) : maxQuantum policy < 2 ^ 32 :=
  max_lt policy.serviceQuantumTokens.isLt policy.prefillChunkTokens.isLt

theorem DispatchOk.budget_le {policy : SchedulerPolicy} {id : RequestId} {state : RequestState}
    {dispatch : Dispatch} (h : DispatchOk policy id state dispatch) :
    dispatch.tokenBudget ≤ maxQuantum policy := by
  cases hk : dispatch.kind with
  | prefill => exact (h.prefill hk).trans (le_max_right _ _)
  | decode => exact (h.decode hk).1.trans (le_max_left _ _)

/-- A new request starts no later in virtual time than any nonterminal one. -/
theorem newRecord_runtime_le {s : ContinuousScheduler} {id : RequestId} {waiting : RequestState}
    (hget : s.requests.get? id = some waiting) (hlive : ¬ waiting.status.isTerminal)
    (spec : RequestSpec) (status : RequestStatus) (bytes remaining : Nat) :
    (newRecord s spec status bytes remaining).virtualRuntime ≤ waiting.virtualRuntime := by
  have hmem : waiting.virtualRuntime ∈ (s.requests.values.filter fun state =>
      !state.status.isTerminal).map RequestState.virtualRuntime := by
    apply List.mem_map_of_mem
    rw [List.mem_filter]
    exact ⟨SortedMap.mem_values_iff.mpr ⟨id, hget⟩, by simpa using hlive⟩
  have hbase : baseRuntime s.requests ≤ waiting.virtualRuntime := List.min?_getD_le_of_mem hmem
  exact (Nat.sub_le _ _).trans hbase

/-! ## Watching one request -/

/-- What an interval records of the current record of a request: its virtual runtime when it was
first seen, the charge of a quantum open since then, and the tokens committed since. -/
structure Account where
  start : Nat
  pending : Nat
  served : Nat
  deriving DecidableEq

/-- The charge of the quantum that a request has open. -/
def openCharge (s : ContinuousScheduler) (id : RequestId) (state : RequestState) : Nat :=
  match s.running.get? id with
  | some dispatch => charge dispatch.tokenBudget state.spec.priority
  | none => 0

/-- The account of a request from a given state on. -/
def Account.opening (id : RequestId) (s : ContinuousScheduler) : Account :=
  match s.requests.get? id with
  | some state => ⟨state.virtualRuntime, openCharge s id state, 0⟩
  | none => ⟨0, 0, 0⟩

/-- The tokens that a completion call names. -/
def Call.tokens (id : RequestId) : Call → Nat
  | .completeQuantum id' emitted _ => if id' = id then emitted else 0
  | .completeQuantumWithProgress id' _ progress _ _ => if id' = id then progress else 0
  | _ => 0

/-- The tokens that a call commits to a request: none when it fails. -/
def committedTokens (id : RequestId) (s : ContinuousScheduler) (call : Call) : Nat :=
  match call.exec.run s with
  | .ok _ _ => call.tokens id
  | .error _ _ => 0

/-- An account follows one record. It is opened anew when a call stores the record. -/
def Account.next (id : RequestId) (s : ContinuousScheduler) (call : Call) (a : Account) :
    Account :=
  if (s.requests.get? id).isNone then Account.opening id (step s call)
  else { a with served := a.served + committedTokens id s call }

/-- The scheduler together with the account of one request. -/
def watchStep (id : RequestId) (w : ContinuousScheduler × Account) (call : Call) :
    ContinuousScheduler × Account :=
  (step w.1 call, w.2.next id w.1 call)

def Waiting (id : RequestId) (s : ContinuousScheduler) : Prop := s.status id = some .queued

/-- A dispatch does not find the request inside the urgent window. -/
def NotUrgent (id : RequestId) (s : ContinuousScheduler) : Call → Prop
  | .dispatchBatch nowNs _ => ∀ state ∈ s.requests.get? id, ¬ urgent s.policy nowNs state
  | _ => True

instance (id : RequestId) (s : ContinuousScheduler) : Decidable (Waiting id s) :=
  inferInstanceAs (Decidable (s.status id = some .queued))

instance (id : RequestId) (s : ContinuousScheduler) : (call : Call) → Decidable (NotUrgent id s call)
  | .dispatchBatch nowNs _ =>
    inferInstanceAs (Decidable (∀ state ∈ s.requests.get? id, ¬ urgent s.policy nowNs state))
  | .admitRequest .. | .completeQuantum .. | .completeQuantumWithProgress .. | .abortQuantum _
  | .cancel _ | .takeExpiredDeadlines | .pruneTerminal => .isTrue trivial

/-- What holds of request `i` while request `j` waits at the virtual runtime `runtime`. -/
structure Fair (i j : RequestId) (runtime : Nat) (s : ContinuousScheduler) (a : Account) :
    Prop where
  waiting : ∃ waiting, s.requests.get? j = some waiting ∧ waiting.status = .queued ∧
    waiting.virtualRuntime = runtime
  idle : ∀ state, s.requests.get? i = some state → s.running.get? i = none →
    state.virtualRuntime ≤
      max (a.start + a.pending) (runtime + charge (maxQuantum s.policy) state.spec.priority)
  running : ∀ state dispatch, s.requests.get? i = some state →
    s.running.get? i = some dispatch →
    state.virtualRuntime + charge dispatch.tokenBudget state.spec.priority ≤
      a.start + a.pending ∨ state.virtualRuntime ≤ runtime
  served : ∀ state, s.requests.get? i = some state →
    state.spec.priority * a.start + 1024 * a.served ≤ state.spec.priority * state.virtualRuntime

theorem waiting_iff {id : RequestId} {s : ContinuousScheduler} :
    Waiting id s ↔ ∃ state, s.requests.get? id = some state ∧ state.status = .queued := by
  simp [Waiting, ContinuousScheduler.status]

/-- A request that waits before and after a call has been left alone. -/
theorem Move.waiting_kept {s s' : ContinuousScheduler} {call : Call} {id : RequestId}
    (h : Inv s) (hm : Move s call id s') (hbefore : Waiting id s) (hafter : Waiting id s') :
    s'.requests.get? id = s.requests.get? id := by
  obtain ⟨state, hget, hqueued⟩ := waiting_iff.mp hbefore
  obtain ⟨state', hget', hqueued'⟩ := waiting_iff.mp hafter
  have hidle := h.not_running hget (by simp [hqueued])
  cases hm with
  | kept hreq => exact hreq
  | stored spec nowNs record hcall hid hnone =>
    rw [hget] at hnone
    cases hnone
  | expired nowNs limit old hcall hold hdue hreq =>
    rw [hget', Option.some.injEq] at hreq
    rw [hreq] at hqueued'
    cases hqueued'
  | selected nowNs limit old hcall hold hq hfirst hreq =>
    rw [hget', Option.some.injEq] at hreq
    rw [hreq] at hqueued'
    cases hqueued'
  | committed _ _ _ _ _ dispatch old hcall hr =>
    rw [hr.running] at hidle
    cases hidle
  | stalled _ _ _ _ dispatch old new stats hcall hdispatch =>
    rw [hdispatch] at hidle
    cases hidle
  | aborted old hcall hold hstatus =>
    rw [hget, Option.some.injEq] at hold
    rw [hold, hstatus] at hqueued
    cases hqueued
  | cancelled old hcall hold hq hreq =>
    rw [hget', Option.some.injEq] at hreq
    rw [hreq] at hqueued'
    cases hqueued'
  | flagged old hcall hold hstatus =>
    rw [hget, Option.some.injEq] at hold
    rw [hold, hstatus] at hqueued
    cases hqueued
  | pruned old hcall hold hterm hreq =>
    rw [hget'] at hreq
    cases hreq

/-- A commit stores a record of the same request, later in virtual time by its charge. -/
theorem CompleteReturns.runtime {s s' : ContinuousScheduler} {id : RequestId}
    {emitted progress : Nat} {ready eos : Bool} {completion : QuantumCompletion}
    {dispatch : Dispatch} {state : RequestState}
    (hr : CompleteReturns s id emitted progress ready eos completion s' dispatch state) :
    s'.running.get? id = none ∧ ∃ state', s'.requests.get? id = some state' ∧
      state'.spec = state.spec ∧
      state'.virtualRuntime = state.virtualRuntime + charge progress state.spec.priority := by
  obtain ⟨-, -, -, hdecode⟩ := validateQuantumCompletion_eq_ok hr.valid
  have hruntime : (committedRecord dispatch.kind emitted progress ready eos state).virtualRuntime =
      state.virtualRuntime + charge progress state.spec.priority := by
    cases hk : dispatch.kind with
    | prefill => rfl
    | decode =>
      rw [hdecode hk]
      rfl
  rw [hr.state_eq]
  refine ⟨SortedMap.get?_remove_self _ _, _, SortedMap.get?_insert_self _ _ _, ?_, ?_⟩
  · split_ifs
    · exact committedRecord_spec _ _ _ _ eos _
    · exact committedRecord_spec _ _ _ _ eos _
  · split_ifs
    · exact hruntime
    · exact hruntime

/-- A call commits no tokens to a request unless it completes the request's quantum. -/
theorem committedTokens_cases (id : RequestId) (s : ContinuousScheduler) (call : Call) :
    committedTokens id s call = 0 ∨ ∃ emitted progress ready eos completion dispatch state,
      call.Completes id emitted progress ready eos ∧
      CompleteReturns s id emitted progress ready eos completion (step s call) dispatch state ∧
      committedTokens id s call = progress := by
  unfold committedTokens
  cases hrun : call.exec.run s with
  | error fault s' => exact .inl rfl
  | ok reply s' =>
    have hafter : step s call = s' := after_of_ok hrun
    rw [hafter]
    cases call with
    | completeQuantum id' emitted eos =>
      by_cases hid : id' = id
      · subst hid
        right
        have hends : (Call.completeQuantum id' emitted eos).exec.Ends s
            (fun _ s' => ∃ completion dispatch state,
              CompleteReturns s id' emitted emitted false eos completion s' dispatch state)
            (fun _ _ => True) := by
          simp only [Call.exec, ends_bind, ends_pure]
          refine (completeQuantum_ends s id' emitted eos).mono ?_ (fun _ _ _ => trivial)
          rintro completion s' ⟨dispatch, state, -, hr⟩
          exact ⟨completion, dispatch, state, hr⟩
        obtain ⟨completion, dispatch, state, hr⟩ := hends.of_ok hrun
        exact ⟨emitted, emitted, false, eos, completion, dispatch, state, .inr ⟨rfl, rfl, rfl⟩, hr,
          by simp [Call.tokens]⟩
      · left
        simp [Call.tokens, hid]
    | completeQuantumWithProgress id' emitted progress ready eos =>
      by_cases hid : id' = id
      · subst hid
        right
        have hends : (Call.completeQuantumWithProgress id' emitted progress ready eos).exec.Ends s
            (fun _ s' => ∃ completion dispatch state,
              CompleteReturns s id' emitted progress ready eos completion s' dispatch state)
            (fun _ _ => True) := by
          simp only [Call.exec, ends_bind, ends_pure]
          refine (completeQuantumWithProgress_ends s id' emitted progress ready eos).mono ?_
            (fun _ _ _ => trivial)
          rintro completion s' ⟨dispatch, state, hr⟩
          exact ⟨completion, dispatch, state, hr⟩
        obtain ⟨completion, dispatch, state, hr⟩ := hends.of_ok hrun
        exact ⟨emitted, progress, ready, eos, completion, dispatch, state, .inl rfl, hr,
          by simp [Call.tokens]⟩
      · left
        simp [Call.tokens, hid]
    | admitRequest | dispatchBatch | abortQuantum | cancel | takeExpiredDeadlines
    | pruneTerminal => exact .inl rfl

section Step

variable {s s' : ContinuousScheduler} {call : Call} {i j : RequestId} {runtime : Nat}
  {a : Account}

/-- A commit spends the open quantum or the room above the waiting request. -/
theorem Fair.committed {emitted progress n : Nat} {ready eos : Bool}
    {completion : QuantumCompletion} {dispatch : Dispatch} {state : RequestState} (h : Inv s)
    (hfair : Fair i j runtime s a)
    (hr : CompleteReturns s i emitted progress ready eos completion s' dispatch state)
    (hpolicy : s'.policy = s.policy) (hn : n ≤ progress)
    (hwaiting : s'.requests.get? j = s.requests.get? j) :
    Fair i j runtime s' { a with served := a.served + n } := by
  obtain ⟨hidle, state', hget', hspec, hruntime⟩ := hr.runtime
  obtain ⟨hstatus, hdispatch⟩ := h.dispatched hr.request hr.running
  have hpos := (h.record hr.request).priority (by simp [hstatus])
  have hbudget : progress ≤ dispatch.tokenBudget := (validateQuantumCompletion_eq_ok hr.valid).2.1
  have hmax := hdispatch.budget_le
  refine ⟨?_, ?_, ?_, ?_⟩
  · rw [hwaiting]
    exact hfair.waiting
  · intro state₁ hget₁ _
    rw [hget', Option.some.injEq] at hget₁
    subst hget₁
    rw [hruntime, hspec, hpolicy]
    dsimp only
    rcases hfair.running state dispatch hr.request hr.running with hopen | hbehind
    · have hcharge := charge_mono hpos hbudget
      exact le_max_of_le_left (by omega)
    · have hcharge := charge_mono hpos (hbudget.trans hmax)
      exact le_max_of_le_right (by omega)
  · intro state₁ dispatch₁ _ hrun₁
    rw [hidle] at hrun₁
    cases hrun₁
  · intro state₁ hget₁
    rw [hget', Option.some.injEq] at hget₁
    subst hget₁
    have hserved := hfair.served state hr.request
    have hlt := maxQuantum_lt s.policy
    have hpaid := tokens_le_charge hpos (lt_of_le_of_lt (hbudget.trans hmax) hlt)
    rw [hruntime, hspec, Nat.mul_add (state.spec.priority : Nat)]
    dsimp only
    omega

/-- A request whose virtual runtime stands still stays within its bound. -/
theorem Fair.stood {state state' : RequestState} (hfair : Fair i j runtime s a)
    (hget : s.requests.get? i = some state) (hget' : s'.requests.get? i = some state')
    (hspec : state'.spec = state.spec) (hruntime : state'.virtualRuntime = state.virtualRuntime)
    (hrun : s'.running.get? i = none ∨ s'.running.get? i = s.running.get? i)
    (hpolicy : s'.policy = s.policy)
    (hwaiting : s'.requests.get? j = s.requests.get? j) : Fair i j runtime s' a := by
  refine ⟨?_, ?_, ?_, ?_⟩
  · rw [hwaiting]
    exact hfair.waiting
  · intro state₁ hget₁ _
    rw [hget', Option.some.injEq] at hget₁
    subst hget₁
    rw [hruntime, hspec, hpolicy]
    cases hold : s.running.get? i with
    | none => exact hfair.idle state hget hold
    | some dispatch =>
      rcases hfair.running state dispatch hget hold with hopen | hbehind
      · exact le_max_of_le_left (by omega)
      · exact le_max_of_le_right (by omega)
  · intro state₁ dispatch hget₁ hrun₁
    rw [hget', Option.some.injEq] at hget₁
    subst hget₁
    rw [hruntime, hspec]
    rcases hrun with hnone | hsame
    · rw [hnone] at hrun₁
      cases hrun₁
    · rw [hsame] at hrun₁
      exact hfair.running state dispatch hget hrun₁
  · intro state₁ hget₁
    rw [hget', Option.some.injEq] at hget₁
    subst hget₁
    rw [hruntime, hspec]
    exact hfair.served state hget

/-- A selected request is behind the waiting one in virtual time. -/
theorem Fair.selected {state : RequestState} {nowNs : Nat} (hfair : Fair i j runtime s a)
    (hget : s.requests.get? i = some state) (hurgent : ¬ urgent s.policy nowNs state)
    (hfirst : ∀ id other, s'.requests.get? id = some other → other.status = .queued →
      serviceKey s.policy nowNs state ≤ serviceKey s.policy nowNs other)
    (hget' : s'.requests.get? i = some (startedRecord state)) (hrun : s'.running.get? i ≠ none)
    (hwaiting : s'.requests.get? j = s.requests.get? j) : Fair i j runtime s' a := by
  obtain ⟨waiting, hwait, hqueued, hruntime⟩ := hfair.waiting
  have hle : state.virtualRuntime ≤ runtime := by
    rw [← hruntime]
    exact runtime_le_of_serviceKey_le hurgent
      (hfirst j waiting (hwaiting ▸ hwait) hqueued)
  refine ⟨⟨waiting, hwaiting ▸ hwait, hqueued, hruntime⟩, ?_, ?_, ?_⟩
  · intro _ _ hnone
    exact absurd hnone hrun
  · intro state₁ dispatch hget₁ _
    rw [hget', Option.some.injEq] at hget₁
    subst hget₁
    exact .inr hle
  · intro state₁ hget₁
    rw [hget', Option.some.injEq] at hget₁
    subst hget₁
    exact hfair.served state hget

/-- A request that is not there is bounded by nothing it did before. -/
theorem Fair.gone (hfair : Fair i j runtime s a) (hnone : s'.requests.get? i = none)
    (hwaiting : s'.requests.get? j = s.requests.get? j) (a' : Account) :
    Fair i j runtime s' a' := by
  refine ⟨?_, ?_, ?_, ?_⟩
  · rw [hwaiting]
    exact hfair.waiting
  · intro state hget
    rw [hnone] at hget
    cases hget
  · intro state dispatch hget
    rw [hnone] at hget
    cases hget
  · intro state hget
    rw [hnone] at hget
    cases hget

/-- An account opened on a request that is not running, or just opened its quantum, is fair. -/
theorem Fair.opening (hwaiting : ∃ waiting, s.requests.get? j = some waiting ∧
    waiting.status = .queued ∧ waiting.virtualRuntime = runtime) :
    Fair i j runtime s (Account.opening i s) := by
  refine ⟨hwaiting, ?_, ?_, ?_⟩
  · intro state hget hnone
    apply le_max_of_le_left
    simp [Account.opening, hget]
  · intro state dispatch hget hrun
    left
    simp [Account.opening, hget, openCharge, hrun]
  · intro state hget
    simp [Account.opening, hget]

theorem Call.Completes.room {id : RequestId} {emitted progress : Nat} {ready eos : Bool}
    (hcall : call.Completes id emitted progress ready eos) (hroom : call.HasRoom s) :
    DecodeRoom s id emitted progress := by
  rcases hcall with rfl | ⟨rfl, rfl, -⟩
  · exact hroom
  · exact hroom

/-- A commit that stalls under a call with room has not charged the request. -/
theorem PartlyCommitted.runtime_eq {id : RequestId} {emitted progress : Nat}
    {dispatch : Dispatch} {state state' : RequestState} {stats : SchedulerStats} (h : Inv s)
    (hroom : DecodeRoom s id emitted progress) (hdispatch : s.running.get? id = some dispatch)
    (hget : s.requests.get? id = some state)
    (hvalid : validateQuantumCompletion dispatch id emitted progress = .ok ())
    (hp : PartlyCommitted dispatch.kind emitted state s.stats state' stats) :
    state'.virtualRuntime = state.virtualRuntime := by
  apply hp.runtime
  by_cases hzero : emitted = 0
  · rw [hzero, Nat.add_zero]
    exact h.emitted
  · have hk : dispatch.kind = .decode := by
      cases hk : dispatch.kind with
      | prefill => exact absurd ((validateQuantumCompletion_eq_ok hvalid).2.2.1 hk) hzero
      | decode => rfl
    exact (hroom dispatch hdispatch state hget hk hvalid (Nat.pos_of_ne_zero hzero)).2.1

/-- The bound survives every move of the request. -/
theorem Fair.moved {state : RequestState} (hfair : Fair i j runtime s a) (h : Inv s)
    (hget : s.requests.get? i = some state) (hpolicy : s'.policy = s.policy)
    (hroom : call.HasRoom s) (hurgent : NotUrgent i s call)
    (hwaiting : s'.requests.get? j = s.requests.get? j) (hm : Move s call i s') :
    Fair i j runtime s' a := by
  have hsame {old : RequestState} (hold : s.requests.get? i = some old) : old = state := by
    simpa [hget] using hold.symm
  cases hm with
  | kept hreq hrun =>
    exact hfair.stood hget (hreq.trans hget) rfl rfl (.inr hrun) hpolicy hwaiting
  | stored spec nowNs record hcall hid hnone =>
    rw [hget] at hnone
    cases hnone
  | expired nowNs limit old hcall hold hdue hreq hrun =>
    obtain rfl := hsame hold
    exact hfair.stood hget hreq rfl rfl (.inl hrun) hpolicy hwaiting
  | selected nowNs limit old hcall hold hq hfirst hreq hrun =>
    obtain rfl := hsame hold
    subst hcall
    refine hfair.selected hget (hurgent _ hget) hfirst hreq ?_ hwaiting
    rw [hrun]
    simp
  | committed emitted progress ready eos completion dispatch old hcall hr =>
    exact hfair.committed h hr hpolicy (Nat.zero_le _) hwaiting
  | stalled emitted progress ready eos dispatch old new stats hcall hdispatch hold hvalid _ hp hreq
      hrun =>
    obtain rfl := hsame hold
    have hruntime := hp.runtime_eq h (hcall.room hroom) hdispatch hget hvalid
    exact hfair.stood hget hreq hp.standing.spec hruntime (.inr (hrun.trans hdispatch.symm))
      hpolicy hwaiting
  | aborted old hcall hold hstatus hreq hrun =>
    obtain rfl := hsame hold
    exact hfair.stood hget hreq rfl rfl (.inl hrun) hpolicy hwaiting
  | cancelled old hcall hold hq hreq hrun =>
    obtain rfl := hsame hold
    exact hfair.stood hget hreq rfl rfl (.inl hrun) hpolicy hwaiting
  | flagged old hcall hold hstatus hreq hrun =>
    obtain rfl := hsame hold
    exact hfair.stood hget hreq rfl rfl (.inr hrun) hpolicy hwaiting
  | pruned old hcall hold hterm hreq =>
    exact hfair.gone hreq hwaiting a

/-- The account keeps its bound over one call. -/
theorem Fair.next (h : Inv s) (hfair : Fair i j runtime s a)
    (hpolicy : (step s call).policy = s.policy) (hroom : call.HasRoom s)
    (hwait : Waiting j (step s call)) (hurgent : NotUrgent i s call) :
    Fair i j runtime (step s call) (a.next i s call) := by
  have hbefore : Waiting j s := by
    obtain ⟨waiting, hget, hqueued, -⟩ := hfair.waiting
    exact waiting_iff.mpr ⟨waiting, hget, hqueued⟩
  have hwaiting := (h.move call j).waiting_kept h hbefore hwait
  have hwaiting' : ∃ waiting, (step s call).requests.get? j = some waiting ∧
      waiting.status = .queued ∧ waiting.virtualRuntime = runtime := by
    rw [hwaiting]
    exact hfair.waiting
  cases hget : s.requests.get? i with
  | none =>
    rw [Account.next, hget]
    exact Fair.opening hwaiting'
  | some state =>
    rw [Account.next, hget]
    simp only [Option.isNone_some, Bool.false_eq_true, if_false]
    rcases committedTokens_cases i s call with hzero | hcommit
    · rw [hzero, Nat.add_zero]
      exact hfair.moved h hget hpolicy hroom hurgent hwaiting (h.move call i)
    · obtain ⟨emitted, progress, ready, eos, completion, dispatch, state₁, -, hr, htokens⟩ := hcommit
      rw [htokens]
      exact hfair.committed h hr hpolicy le_rfl hwaiting

/-- The bound when the waiting began survives every call of the interval. -/
theorem Fair.run {calls : List Call} (h : Inv s) (hfair : Fair i j runtime s a)
    (hadmits : s.nextSequence + calls.countP Call.isAdmit < 2 ^ 64)
    (hroom : Along step (fun s call => call.HasRoom s) s calls)
    (hinterval : Along step (fun s call => Waiting j (step s call) ∧ NotUrgent i s call) s calls) :
    Fair i j runtime (Framework.run (watchStep i) (s, a) calls).1
      (Framework.run (watchStep i) (s, a) calls).2 := by
  induction calls generalizing s a with
  | nil => exact hfair
  | cons call calls ih =>
    obtain ⟨hcall, hroom⟩ := hroom
    obtain ⟨⟨hwait, hurgent⟩, hinterval⟩ := hinterval
    obtain ⟨hinv, hframed⟩ := h.step_framed (sequence_lt_of_countP hadmits) hcall
    have hnext := hfair.next h hframed.1 hcall hwait hurgent
    exact ih hinv hnext (hframed.countP hadmits) hroom hinterval

/-- Watching a request does not change the run. -/
theorem run_watchStep_fst (calls : List Call) (s : ContinuousScheduler) (a : Account) :
    (Framework.run (watchStep i) (s, a) calls).1 = Framework.run step s calls := by
  induction calls generalizing s a with
  | nil => rfl
  | cons call calls ih => exact ih _ _

end Step

/-- The virtual runtime that one quantum costs a request, at most. -/
def quantumCost (policy : SchedulerPolicy) (state : RequestState) : Nat :=
  (1024 * max (policy.serviceQuantumTokens : Nat) policy.prefillChunkTokens) ⌈/⌉
    (state.spec.priority : Nat)

/-- Request `i`, as far as an interval has accounted for it, is ahead of the waiting request `j`
by no more than its start, the quantum open at the start, or one quantum; and it has paid for
the tokens it was served. -/
def BoundedBy (policy : SchedulerPolicy) (i j : RequestId) (s : ContinuousScheduler)
    (start pending served : Nat) : Prop :=
  ∀ state ∈ s.requests.get? i, ∀ waiting ∈ s.requests.get? j,
    state.virtualRuntime ≤
      max (start + pending) (waiting.virtualRuntime + quantumCost policy state) ∧
    state.spec.priority * start + 1024 * served ≤ state.spec.priority * state.virtualRuntime

instance (policy : SchedulerPolicy) (i j : RequestId) (s : ContinuousScheduler)
    (start pending served : Nat) : Decidable (BoundedBy policy i j s start pending served) :=
  inferInstanceAs (Decidable (∀ state ∈ s.requests.get? i, ∀ waiting ∈ s.requests.get? j, _ ∧ _))

/-- Bounded unfairness: while `j` waits, every other request that is not urgent stays within one
quantum of `j`, or within what it had reached and had open when the waiting began. -/
theorem unfairness_bounded (policy : SchedulerPolicy) (init : ContinuousScheduler)
    (before interval : List Call) (i j : RequestId)
    (hnew : ContinuousScheduler.new policy = .ok init)
    (hadmits : (before ++ interval).countP Call.isAdmit < 2 ^ 64)
    (hroom : Along step (fun s call => call.HasRoom s) init (before ++ interval))
    (hwait : Waiting j (run step init before))
    (hinterval : Along step (fun s call => Waiting j (step s call) ∧ NotUrgent i s call)
      (run step init before) interval) :
    let start := run step init before
    let watched := run (watchStep i) (start, Account.opening i start) interval
    BoundedBy policy i j watched.1 watched.2.start watched.2.pending watched.2.served := by
  intro start watched state hget waiting hget'
  have hinit := Inv.new hnew
  have hzero : init.nextSequence = 0 ∧ init.policy = policy := by
    obtain ⟨rfl, -⟩ := ContinuousScheduler.new_eq_ok hnew
    exact ⟨rfl, rfl⟩
  rw [List.countP_append] at hadmits
  rw [along_append] at hroom
  obtain ⟨hbefore, hroom⟩ := hroom
  obtain ⟨hstart, hpolicy, hnext⟩ := hinit.run_sound (by omega) hbefore
  obtain ⟨old, hold, hqueued⟩ := waiting_iff.mp hwait
  have hfair := Fair.opening (i := i) ⟨old, hold, hqueued, rfl⟩
  have hend := hfair.run hstart (by omega) hroom hinterval
  obtain ⟨hsound, hpolicy', -⟩ := hstart.run_sound (by omega) hroom
  have hrun : watched.1 = run step start interval := run_watchStep_fst _ _ _
  obtain ⟨waiting', hget'', -, hruntime⟩ := hend.waiting
  have hsame : waiting = waiting' := by
    have hsome := hget'.symm.trans hget''
    simpa using hsome
  have hcost : charge (maxQuantum watched.1.policy) state.spec.priority =
      quantumCost policy state := by
    rw [hrun, hpolicy', hpolicy, hzero.2]
    exact charge_eq _ (maxQuantum_lt policy)
  refine ⟨?_, hend.served state hget⟩
  rw [hsame, hruntime, ← hcost]
  cases hrunning : watched.1.running.get? i with
  | none => exact hend.idle state hget hrunning
  | some dispatch =>
    rcases hend.running state dispatch hget hrunning with hopen | hbehind
    · exact le_max_of_le_left ((Nat.le_add_right _ _).trans hopen)
    · exact le_max_of_le_right (hbehind.trans (Nat.le_add_right _ _))

/-- Request 1 opens a second quantum, and request 2 arrives behind it on its prefix credit. -/
def creditedCalls : List Call :=
  [.admitRequest ⟨1, 0, 0, 0, 8, 1, none⟩ 0, .dispatchBatch 0 1, .completeQuantum 1 2 false,
    .dispatchBatch 1 1, .admitRequest ⟨2, 1, 3, 2, 4, 1, none⟩ 1]

theorem unfairness_bounded_credited :
    let start := run step ⟨smallPolicy, ∅, ∅, [], 0, 0, .default⟩ creditedCalls
    let watched := run (watchStep 1) (start, Account.opening 1 start) [.completeQuantum 1 2 false]
    BoundedBy smallPolicy 1 2 watched.1 watched.2.start watched.2.pending watched.2.served :=
  unfairness_bounded smallPolicy _ creditedCalls [.completeQuantum 1 2 false] 1 2 rfl
    (by decide) (by decide +kernel) (by decide +kernel) (by decide +kernel)

/-- The quantum open at the start counts: without it the bound does not hold in every run. -/
theorem unfairness_needs_pending : ¬ ∀ (policy : SchedulerPolicy) (init : ContinuousScheduler)
    (before interval : List Call) (i j : RequestId), i ≠ j →
    ContinuousScheduler.new policy = .ok init →
    (before ++ interval).countP Call.isAdmit < 2 ^ 64 →
    Along step (fun s call => call.HasRoom s) init (before ++ interval) →
    Waiting j (run step init before) →
    Along step (fun s call => Waiting j (step s call) ∧ NotUrgent i s call)
      (run step init before) interval →
    let start := run step init before
    let watched := run (watchStep i) (start, Account.opening i start) interval
    BoundedBy policy i j watched.1 watched.2.start 0 watched.2.served := by
  intro hall
  have hbound := hall smallPolicy ⟨smallPolicy, ∅, ∅, [], 0, 0, .default⟩ creditedCalls
    [.completeQuantum 1 2 false] 1 2 (by decide) rfl (by decide) (by decide +kernel)
    (by decide +kernel) (by decide +kernel)
  revert hbound
  decide +kernel

end Leone.Scheduler

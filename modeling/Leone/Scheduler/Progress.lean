import Leone.Scheduler.Fairness

/-!
# Progress of one request

The tokens of a request are conserved, its two phases follow each other, and a quantum that is
cancelled is its last. In a run of fewer than `2 ^ 64` tokens, quanta and admissions a valid
completion always returns.
-/

namespace Leone.Scheduler

open Framework Framework.Method

/-! ## Work offered and done -/

/-- The progress of a completion that passes validation. -/
def validated (s : ContinuousScheduler) (id : RequestId) (emitted progress : Nat) : Option Nat :=
  (s.running.get? id).bind fun dispatch =>
    match validateQuantumCompletion dispatch id emitted progress with
    | .ok _ => some progress
    | .error _ => none

/-- The progress that a completion call offers, if it passes validation. -/
def Call.offers (s : ContinuousScheduler) : Call → Option Nat
  | .completeQuantum id emitted _ =>
    if (s.running.get? id).any (·.kind = .prefill) then none else validated s id emitted emitted
  | .completeQuantumWithProgress id emitted progress _ _ => validated s id emitted progress
  | .admitRequest .. | .dispatchBatch .. | .abortQuantum _ | .cancel _ | .takeExpiredDeadlines
  | .pruneTerminal => none

def Call.offeredTokens (s : ContinuousScheduler) (call : Call) : Nat := (call.offers s).getD 0
def Call.offeredQuanta (s : ContinuousScheduler) (call : Call) : Nat :=
  (call.offers s).isSome.toNat

/-- All tokens committed so far, of both phases. -/
def SchedulerStats.tokens (stats : SchedulerStats) : Nat :=
  stats.prefillTokens + stats.emittedTokens

/-- All quanta committed so far, of both phases. -/
def SchedulerStats.quanta (stats : SchedulerStats) : Nat :=
  stats.prefillChunks + stats.decodeQuanta

theorem validated_eq_some {s : ContinuousScheduler} {id : RequestId} {emitted progress n : Nat}
    (h : validated s id emitted progress = some n) : n = progress ∧ ∃ dispatch,
      s.running.get? id = some dispatch ∧
      validateQuantumCompletion dispatch id emitted progress = .ok () := by
  obtain ⟨dispatch, hrun, hn⟩ := Option.bind_eq_some_iff.mp h
  split at hn
  · rename_i hok
    exact ⟨(Option.some.inj hn).symm, dispatch, hrun, hok⟩
  · cases hn

theorem validated_of_ok {s : ContinuousScheduler} {id : RequestId} {emitted progress : Nat}
    {dispatch : Dispatch} (hrun : s.running.get? id = some dispatch)
    (hok : validateQuantumCompletion dispatch id emitted progress = .ok ()) :
    validated s id emitted progress = some progress := by
  simp [validated, hrun, hok]

/-- What a call did to the counters of committed work. -/
inductive Worked (s : ContinuousScheduler) (call : Call) (s' : ContinuousScheduler) : Prop
  | idle (htokens : s'.stats.tokens = s.stats.tokens) (hquanta : s'.stats.quanta = s.stats.quanta)
  | completed (id : RequestId) (emitted progress : Nat) (ready eos : Bool)
      (completion : QuantumCompletion) (dispatch : Dispatch) (state : RequestState)
      (hoffers : call.offers s = some progress)
      (hreturns : CompleteReturns s id emitted progress ready eos completion s' dispatch state)

/-- A valid completion that found a counter exhausted. -/
def Stalls (s : ContinuousScheduler) (call : Call) : Prop :=
  ∃ id emitted progress ready dispatch state, call.offers s = some progress ∧
    s.running.get? id = some dispatch ∧ s.requests.get? id = some state ∧
    validateQuantumCompletion dispatch id emitted progress = .ok () ∧
    ¬ QuantumFits dispatch.kind emitted progress ready state s.stats

theorem StartedBy.worked {s expired started s' : ContinuousScheduler} {nowNs n : Nat}
    {batch : List Dispatch} {call : Call} (he : ExpiredBy (dueIds s nowNs) s expired)
    (hs : StartedBy nowNs (selectBatchIds expired nowNs n) expired started batch)
    (htokens : s'.stats.tokens = started.stats.tokens)
    (hquanta : s'.stats.quanta = started.stats.quanta) : Worked s call s' := by
  refine .idle ?_ ?_
  · rw [htokens, hs.stats, he.stats]
    rfl
  · rw [hquanta, hs.stats, he.stats]
    rfl

theorem CompleteFails.worked {s s' : ContinuousScheduler} {call : Call} {id : RequestId}
    {emitted progress : Nat} {ready : Bool} {fault : Fault SchedulerError} (h : Coherent s)
    (hf : CompleteFails s id emitted progress ready fault s')
    (hoffers : call.offers s = validated s id emitted progress) :
    fault = .panic ∨ Worked s call s' ∧ call.offers s = none ∨ Stalls s call := by
  cases hf with
  | notRunning hnone => exact .inr (.inl ⟨.idle rfl rfl, by simp [hoffers, validated, hnone]⟩)
  | invalid dispatch error hrun herror =>
    exact .inr (.inl ⟨.idle rfl rfl, by simp [hoffers, validated, hrun, herror]⟩)
  | unknown dispatch hrun hnone =>
    obtain ⟨state, hget⟩ := h.exists_record hrun
    exact absurd (hnone.symm.trans hget) (by simp)
  | overflow dispatch state state' stats hrun hget hok hover =>
    refine .inr (.inr ⟨id, emitted, progress, ready, dispatch, state, ?_, hrun, hget, hok, hover⟩)
    rw [hoffers, validated_of_ok hrun hok]
  | panic => exact .inl rfl

/-- Every call leaves the counters of committed work, or adds one quantum to them. Of the valid
completions only those that find a counter exhausted fail. -/
theorem Call.exec_worked {s : ContinuousScheduler} (h : Coherent s) (call : Call) :
    call.exec.Ends s (fun _ s' => Worked s call s')
      (fun fault s' => fault = .panic ∨ Worked s call s' ∧ call.offers s = none ∨
        Stalls s call) := by
  cases call with
  | admitRequest spec nowNs =>
    simp only [Call.exec, ends_bind, ends_pure]
    refine (admit_ends spec nowNs h.policy.page).mono ?_ ?_
    · rintro (bytes | reason) s' ⟨-, -, -, hr⟩
      · rw [hr.2]
        exact .idle rfl rfl
      · rw [hr.2]
        exact .idle rfl rfl
    · rintro fault s' hf
      cases hf <;> exact .inr (.inl ⟨.idle rfl rfl, rfl⟩)
  | dispatchBatch nowNs limit =>
    simp only [Call.exec, ends_bind, ends_pure]
    refine (dispatchBatch_ends h nowNs limit).mono ?_ ?_
    · rintro batch s' ⟨-, expired, started, hr⟩
      refine hr.start.worked hr.expire ?_ ?_
      · rw [hr.state_eq]
        unfold countedState
        split_ifs <;> rfl
      · rw [hr.state_eq]
        unfold countedState
        split_ifs <;> rfl
    · rintro fault s' (hpanic | ⟨-, hf⟩)
      · exact .inl hpanic
      cases hf with
      | inFlight | zeroLimit => exact .inr (.inl ⟨.idle rfl rfl, rfl⟩)
      | overflow expired started batch _ _ _ he hs =>
        exact .inr (.inl ⟨hs.worked he rfl rfl, rfl⟩)
  | completeQuantum id emitted eos =>
    simp only [Call.exec, ends_bind, ends_pure]
    refine (completeQuantum_ends s id emitted eos).mono ?_ ?_
    · rintro completion s' ⟨dispatch, state, hk, hr⟩
      refine .completed id emitted emitted false eos completion dispatch state ?_ hr
      simp [Call.offers, hr.running, hk, validated_of_ok hr.running hr.valid]
    · rintro fault s' (⟨rfl, -, dispatch, hrun, hk⟩ | ⟨hk, hf⟩)
      · exact .inr (.inl ⟨.idle rfl rfl, by simp [Call.offers, hrun, hk]⟩)
      · refine hf.worked h (if_neg ?_)
        cases hrun : s.running.get? id with
        | none => simp
        | some dispatch => simp [hk dispatch hrun]
  | completeQuantumWithProgress id emitted progress ready eos =>
    simp only [Call.exec, ends_bind, ends_pure]
    refine (completeQuantumWithProgress_ends s id emitted progress ready eos).mono ?_ ?_
    · rintro completion s' ⟨dispatch, state, hr⟩
      exact .completed id emitted progress ready eos completion dispatch state
        (validated_of_ok hr.running hr.valid) hr
    · exact fun fault s' hf => hf.worked h rfl
  | abortQuantum id =>
    simp only [Call.exec, ends_bind, ends_pure]
    refine (abortQuantum_ends s id).mono ?_ ?_
    · rintro _ _ ⟨dispatch, state, -, -, -, rfl⟩
      exact .idle rfl rfl
    · rintro _ _ ⟨rfl, -⟩
      exact .inr (.inl ⟨.idle rfl rfl, rfl⟩)
  | cancel id =>
    simp only [Call.exec, ends_bind, ends_pure]
    refine (cancel_ends s id).mono ?_ ?_
    · rintro _ _ ⟨state, -, hr⟩
      unfold CancelReturns at hr
      split at hr <;> rw [hr.2] <;> exact .idle rfl rfl
    · rintro _ _ ⟨rfl, -⟩
      exact .inr (.inl ⟨.idle rfl rfl, rfl⟩)
  | takeExpiredDeadlines =>
    simp only [Call.exec, ends_bind, ends_pure]
    exact .idle rfl rfl
  | pruneTerminal =>
    simp only [Call.exec, ends_bind, ends_pure]
    exact .idle rfl rfl

/-- A plain completion of a prefill quantum is refused. -/
theorem step_completeQuantum_prefill {s : ContinuousScheduler} {id : RequestId}
    {dispatch : Dispatch} (hrun : s.running.get? id = some dispatch)
    (hk : dispatch.kind = .prefill) (emitted : Nat) (eos : Bool) :
    step s (.completeQuantum id emitted eos) = s := by
  have hsame {dispatch' : Dispatch} (hrun' : s.running.get? id = some dispatch')
      (hk' : dispatch'.kind = .decode) : False := by
    obtain rfl := Option.some.inj (hrun'.symm.trans hrun)
    rw [hk] at hk'
    cases hk'
  refine Ends.after (P := fun s' => s' = s) ?_
  simp only [Call.exec, ends_bind, ends_pure]
  refine (completeQuantum_ends s id emitted eos).mono ?_ ?_
  · rintro completion s' ⟨dispatch', state, hk', hr⟩
    exact (hsame hr.running hk').elim
  · rintro fault s' (⟨rfl, -⟩ | ⟨hk', -⟩)
    · rfl
    · exact (hsame hrun (hk' dispatch hrun)).elim

/-- A completion that finds a counter exhausted is valid, or refused at once. -/
theorem Call.Completes.stalls_or_refused {s : ContinuousScheduler} {call : Call} {id : RequestId}
    {emitted progress : Nat} {ready eos : Bool} {dispatch : Dispatch} {state : RequestState}
    (hcall : call.Completes id emitted progress ready eos)
    (hrun : s.running.get? id = some dispatch) (hget : s.requests.get? id = some state)
    (hvalid : validateQuantumCompletion dispatch id emitted progress = .ok ())
    (hover : ¬ QuantumFits dispatch.kind emitted progress ready state s.stats) :
    Stalls s call ∨ step s call = s := by
  rcases hcall with rfl | ⟨rfl, rfl, rfl⟩
  · exact .inl ⟨id, emitted, progress, ready, dispatch, state, validated_of_ok hrun hvalid, hrun,
      hget, hvalid, hover⟩
  · cases hk : dispatch.kind with
    | prefill => exact .inr (step_completeQuantum_prefill hrun hk _ eos)
    | decode =>
      refine .inl ⟨id, _, _, false, dispatch, state, ?_, hrun, hget, hvalid, hover⟩
      simp [Call.offers, hrun, hk, validated_of_ok hrun hvalid]

/-! ## One request -/

/-- A dispatch asks for no more than its phase still needs, and decodes only once the prompt is
evaluated. -/
structure DispatchFits (policy : SchedulerPolicy) (state : RequestState) (dispatch : Dispatch) :
    Prop where
  pos : 1 ≤ dispatch.tokenBudget
  prefill : dispatch.kind = .prefill → dispatch.tokenBudget ≤ policy.prefillChunkTokens ∧
    dispatch.tokenBudget ≤ state.remainingPrefillTokens
  decode : dispatch.kind = .decode → dispatch.tokenBudget ≤ policy.serviceQuantumTokens ∧
    dispatch.tokenBudget ≤ state.remainingTokens ∧ state.remainingPrefillTokens = 0

/-- What holds of a request after `prefilled` prompt tokens were committed to it. -/
structure Orderly (id : RequestId) (s : ContinuousScheduler) (prefilled : Nat) : Prop where
  conserved : ∀ state, s.requests.get? id = some state →
    state.emittedTokens + state.remainingTokens = state.spec.maxOutputTokens
  prefilled_le : ∀ state, s.requests.get? id = some state →
    prefilled + state.remainingPrefillTokens ≤
      (state.spec.promptTokens : Nat) - state.spec.prefixReusedTokens
  opened : ∀ state dispatch, s.requests.get? id = some state →
    s.running.get? id = some dispatch → DispatchFits s.policy state dispatch

/-- The prompt tokens that a call commits to a request. -/
def prefilledBy (id : RequestId) (s : ContinuousScheduler) (call : Call) : Nat :=
  if (s.running.get? id).any (·.kind = .prefill) then committedTokens id s call else 0

/-- The prompt tokens committed to the current record of each request. -/
abbrev Tally := RequestId → Nat

/-- The scheduler together with the tally of its requests. -/
def tallyStep (w : ContinuousScheduler × Tally) (call : Call) : ContinuousScheduler × Tally :=
  (step w.1 call, fun id =>
    if (w.1.requests.get? id).isNone then 0 else w.2 id + prefilledBy id w.1 call)

/-- The progress fields of two versions of a record agree. -/
structure SameProgress (state state' : RequestState) : Prop where
  spec : state'.spec = state.spec
  prefill : state'.remainingPrefillTokens = state.remainingPrefillTokens
  remaining : state'.remainingTokens = state.remainingTokens
  emitted : state'.emittedTokens = state.emittedTokens

theorem openDispatch_fits {policy : SchedulerPolicy} {state : RequestState} (nowNs : Nat)
    (id : RequestId) (hpolicy : PolicyOk policy) (hpos : 1 ≤ state.remainingTokens) :
    DispatchFits policy state (openDispatch policy nowNs id state) := by
  have hok := openDispatch_ok nowNs id hpolicy hpos
  refine ⟨hok.pos, fun hk => ⟨hok.prefill hk, ?_⟩, fun hk => ?_⟩
  · by_cases hprefill : 0 < state.remainingPrefillTokens
    · simp [openDispatch, nextQuantum, hprefill]
    · simp [openDispatch, nextQuantum, hprefill] at hk
  · obtain ⟨hservice, hremaining⟩ := hok.decode hk
    refine ⟨hservice, hremaining, ?_⟩
    by_contra hne
    simp [openDispatch, nextQuantum, Nat.pos_of_ne_zero hne] at hk

theorem DispatchFits.same {policy : SchedulerPolicy} {state state' : RequestState}
    {dispatch : Dispatch} (h : DispatchFits policy state dispatch)
    (hsame : SameProgress state state') : DispatchFits policy state' dispatch := by
  refine ⟨h.pos, fun hk => ?_, fun hk => ?_⟩
  · rw [hsame.prefill]
    exact h.prefill hk
  · rw [hsame.remaining, hsame.prefill]
    exact h.decode hk

/-- A commit stores a record with the progress added and the status of the completion. -/
theorem CompleteReturns.record {s s' : ContinuousScheduler} {id : RequestId}
    {emitted progress : Nat} {ready eos : Bool} {completion : QuantumCompletion}
    {dispatch : Dispatch} {state : RequestState}
    (hr : CompleteReturns s id emitted progress ready eos completion s' dispatch state) :
    ∃ record, s'.requests.get? id = some record ∧
      SameProgress (progressedRecord dispatch.kind emitted progress ready state) record ∧
      record.status = settledStatus dispatch.kind eos
        (progressedRecord dispatch.kind emitted progress ready state) := by
  have hget : s'.requests.get? id = _ :=
    (congrArg (·.requests.get? id) hr.state_eq).trans (SortedMap.get?_insert_self _ _ _)
  refine ⟨_, hget, ?_, ?_⟩
  · split_ifs <;> exact ⟨rfl, rfl, rfl, rfl⟩
  · split_ifs <;> rfl

namespace Orderly

variable {s s' : ContinuousScheduler} {call : Call} {id : RequestId} {n m : Nat}
  {state state' : RequestState}

theorem absent (h : s.requests.get? id = none) (n : Nat) : Orderly id s n := by
  refine ⟨?_, ?_, ?_⟩ <;> intro state <;> simp [h]

/-- The record at hand and its dispatch decide. -/
theorem of_record (hget : s.requests.get? id = some state)
    (hconserved : state.emittedTokens + state.remainingTokens = state.spec.maxOutputTokens)
    (hprefilled : n + state.remainingPrefillTokens ≤
      (state.spec.promptTokens : Nat) - state.spec.prefixReusedTokens)
    (hopened : ∀ dispatch, s.running.get? id = some dispatch →
      DispatchFits s.policy state dispatch) : Orderly id s n := by
  have heq {state' : RequestState} (hget' : s.requests.get? id = some state') :
      state' = state := Option.some.inj (hget'.symm.trans hget)
  refine ⟨fun state' hget' => ?_, fun state' hget' => ?_, fun state' dispatch hget' => ?_⟩
  · rw [heq hget']
    exact hconserved
  · rw [heq hget']
    exact hprefilled
  · rw [heq hget']
    exact hopened dispatch

/-- A move that touches no progress. -/
theorem same (h : Orderly id s n) (hget : s.requests.get? id = some state)
    (hget' : s'.requests.get? id = some state') (hsame : SameProgress state state')
    (hpolicy : s'.policy = s.policy)
    (hrun : s'.running.get? id = none ∨ s'.running.get? id = s.running.get? id) :
    Orderly id s' n := by
  refine of_record hget' ?_ ?_ fun dispatch hdispatch => ?_
  · rw [hsame.emitted, hsame.remaining, hsame.spec]
    exact h.conserved state hget
  · rw [hsame.prefill, hsame.spec]
    exact h.prefilled_le state hget
  · rcases hrun with hnone | hkeep
    · rw [hnone] at hdispatch
      cases hdispatch
    · rw [hkeep] at hdispatch
      rw [hpolicy]
      exact (h.opened state dispatch hget hdispatch).same hsame

/-- A commit moves tokens from what remains to what is done. -/
theorem committed {emitted progress : Nat} {ready eos : Bool} {completion : QuantumCompletion}
    {dispatch : Dispatch} (h : Orderly id s n)
    (hr : CompleteReturns s id emitted progress ready eos completion s' dispatch state)
    (hm : m ≤ if dispatch.kind = .prefill then progress else 0) : Orderly id s' (n + m) := by
  obtain ⟨record, hget', hsame, -⟩ := hr.record
  have hfits := h.opened state dispatch hr.request hr.running
  obtain ⟨hemitted, hprogress, -, -⟩ := validateQuantumCompletion_eq_ok hr.valid
  have hconserved := h.conserved state hr.request
  have hprefilled := h.prefilled_le state hr.request
  have hspec : record.spec = state.spec :=
    hsame.spec.trans (progressedRecord_standing dispatch.kind emitted progress ready state).spec
  refine of_record hget' ?_ ?_ fun dispatch' hdispatch => ?_
  · rw [hsame.emitted, hsame.remaining, hspec]
    cases hk : dispatch.kind with
    | prefill => exact hconserved
    | decode =>
      have hle := (hfits.decode hk).2.1
      simp only [progressedRecord]
      omega
  · rw [hsame.prefill, hspec]
    cases hk : dispatch.kind with
    | prefill =>
      have hle := (hfits.prefill hk).2
      rw [hk, if_pos rfl] at hm
      simp only [progressedRecord]
      split_ifs <;> omega
    | decode =>
      rw [hk, if_neg (by simp)] at hm
      simp only [progressedRecord]
      omega
  · rw [hr.runtime.1] at hdispatch
    cases hdispatch

/-- A call that does not stall keeps a request orderly. -/
theorem moved (h : Orderly id s n) (hinv : Inv s) (hpolicy : (step s call).policy = s.policy)
    (hstalls : ¬ Stalls s call) (hget : s.requests.get? id = some state) :
    Orderly id (step s call) n := by
  have hsame {old : RequestState} (hold : s.requests.get? id = some old) : old = state :=
    Option.some.inj (hold.symm.trans hget)
  cases hinv.move call id with
  | kept hreq hrun =>
    exact h.same hget (hreq.trans hget) ⟨rfl, rfl, rfl, rfl⟩ hpolicy (.inr hrun)
  | stored spec nowNs record hcall hid hnone => exact absurd (hnone.symm.trans hget) (by simp)
  | expired nowNs limit old hcall hold hdue hreq hrun =>
    obtain rfl := hsame hold
    exact h.same hget hreq ⟨rfl, rfl, rfl, rfl⟩ hpolicy (.inl hrun)
  | selected nowNs limit old hcall hold hqueued hfirst hreq hrun =>
    obtain rfl := hsame hold
    have hpos := (hinv.record hget).runnable (by simp [hqueued, RequestStatus.isTerminal])
    have hfits := openDispatch_fits nowNs id hinv.policy hpos
    refine of_record hreq (h.conserved old hget) (h.prefilled_le old hget) fun dispatch hd => ?_
    obtain rfl := Option.some.inj (hrun.symm.trans hd)
    rw [hpolicy]
    exact hfits.same ⟨rfl, rfl, rfl, rfl⟩
  | committed emitted progress ready eos completion dispatch old hcall hr =>
    exact h.committed hr (Nat.zero_le _)
  | stalled emitted progress ready eos dispatch old new stats hcall hdispatch hold hvalid hover hp
      hreq hrun =>
    rcases hcall.stalls_or_refused hdispatch hold hvalid hover with hstall | hrefused
    · exact absurd hstall hstalls
    · rw [hrefused]
      exact h
  | aborted old hcall hold hstatus hreq hrun =>
    obtain rfl := hsame hold
    exact h.same hget hreq ⟨rfl, rfl, rfl, rfl⟩ hpolicy (.inl hrun)
  | cancelled old hcall hold hq hreq hrun =>
    obtain rfl := hsame hold
    exact h.same hget hreq ⟨rfl, rfl, rfl, rfl⟩ hpolicy (.inl hrun)
  | flagged old hcall hold hstatus hreq hrun =>
    obtain rfl := hsame hold
    exact h.same hget hreq ⟨rfl, rfl, rfl, rfl⟩ hpolicy (.inr hrun)
  | pruned old hcall hold hterm hreq => exact .absent hreq n

/-- A request that a call stores starts with an empty tally. -/
theorem stored (hinv : Inv s) (hnone : s.requests.get? id = none) :
    Orderly id (step s call) 0 := by
  have hfound {old : RequestState} (hold : s.requests.get? id = some old) : False := by
    rw [hnone] at hold
    cases hold
  cases hinv.move call id with
  | kept hreq => exact .absent (hreq.trans hnone) 0
  | stored spec nowNs record hcall hid hget hrecord hreq hrun =>
    have hopened : ∀ dispatch, (step s call).running.get? id = some dispatch →
        DispatchFits (step s call).policy record dispatch := by
      intro dispatch hd
      rw [hrun] at hd
      cases hd
    rcases hrecord with rfl | ⟨bytes, -, rfl⟩
    · exact of_record hreq (Nat.zero_add _) (Nat.zero_le _) hopened
    · exact of_record hreq (Nat.zero_add _) (Nat.zero_add _).le hopened
  | expired _ _ old _ hold => exact (hfound hold).elim
  | selected _ _ old _ hold => exact (hfound hold).elim
  | committed _ _ _ _ _ _ old _ hr => exact (hfound hr.request).elim
  | stalled _ _ _ _ _ old _ _ _ _ hold => exact (hfound hold).elim
  | aborted old _ hold => exact (hfound hold).elim
  | cancelled old _ hold => exact (hfound hold).elim
  | flagged old _ hold => exact (hfound hold).elim
  | pruned old _ hold => exact (hfound hold).elim

/-- One call keeps a request orderly, with its tally moved along. -/
theorem next (h : Orderly id s n) (hinv : Inv s) (hpolicy : (step s call).policy = s.policy)
    (hstalls : ¬ Stalls s call) :
    Orderly id (step s call)
      (if (s.requests.get? id).isNone then 0 else n + prefilledBy id s call) := by
  cases hget : s.requests.get? id with
  | none =>
    simp only [Option.isNone_none, if_true]
    exact .stored hinv hget
  | some state =>
    simp only [Option.isNone_some, Bool.false_eq_true, if_false]
    rcases committedTokens_cases id s call with hzero | hcommit
    · rw [prefilledBy, hzero, ite_self, Nat.add_zero]
      exact h.moved hinv hpolicy hstalls hget
    · obtain ⟨emitted, progress, ready, eos, completion, dispatch, old, -, hr, htokens⟩ := hcommit
      refine h.committed hr ?_
      simp [prefilledBy, hr.running, htokens]

end Orderly

/-! ## Counters with room -/

/-- A sound state in which virtual time is paid for by committed tokens. -/
structure Paid (s : ContinuousScheduler) : Prop extends Inv s where
  runtime : ∀ id state, s.requests.get? id = some state →
    state.virtualRuntime ≤ 1024 * s.stats.tokens

theorem charge_le (progress : Nat) {priority : Nat} (h : 1 ≤ priority) :
    charge progress priority ≤ 1024 * progress := by
  have hsat : saturatingMul 128 progress 1024 ≤ 1024 * progress := by
    unfold saturatingMul
    omega
  rw [charge, ceilDiv_le_iff_le_mul h]
  exact hsat.trans (Nat.le_mul_of_pos_left _ h)

/-- In a run that stays below the counters' width, a valid completion fits. -/
theorem Paid.fits {s : ContinuousScheduler} {id : RequestId} {n emitted progress : Nat}
    {ready : Bool} {dispatch : Dispatch} {state : RequestState} (h : Paid s)
    (ho : Orderly id s n) (hrun : s.running.get? id = some dispatch)
    (hget : s.requests.get? id = some state)
    (hvalid : validateQuantumCompletion dispatch id emitted progress = .ok ())
    (htokens : s.stats.tokens + progress < 2 ^ 64) (hquanta : s.stats.quanta + 1 < 2 ^ 64) :
    QuantumFits dispatch.kind emitted progress ready state s.stats := by
  obtain ⟨hemitted, hprogress, hprefill, hdecode⟩ := validateQuantumCompletion_eq_ok hvalid
  have hfits := ho.opened state dispatch hget hrun
  have hconserved := ho.conserved state hget
  have hmax := state.spec.maxOutputTokens.isLt
  have hstatus := (h.dispatched hget hrun).1
  have hpriority := (h.record hget).priority (by simp [hstatus])
  have hcharge := charge_le progress hpriority
  have hruntime := h.runtime id state hget
  simp only [SchedulerStats.tokens, SchedulerStats.quanta] at htokens hquanta hruntime
  cases hk : dispatch.kind with
  | prefill =>
    have hle := (hfits.prefill hk).2
    rw [hprefill hk]
    exact ⟨by omega, fun _ => by omega, by omega, by omega, by omega⟩
  | decode =>
    have hle := (hfits.decode hk).2.1
    rw [hdecode hk] at hcharge htokens
    exact ⟨by omega, by omega, by omega, by omega⟩

/-- A commit adds one quantum and its progress to the counters. -/
theorem CompleteReturns.counters {s s' : ContinuousScheduler} {id : RequestId}
    {emitted progress : Nat} {ready eos : Bool} {completion : QuantumCompletion}
    {dispatch : Dispatch} {state : RequestState}
    (hr : CompleteReturns s id emitted progress ready eos completion s' dispatch state) :
    s'.stats.tokens = s.stats.tokens + progress ∧ s'.stats.quanta = s.stats.quanta + 1 := by
  obtain ⟨-, -, hprefill, hdecode⟩ := validateQuantumCompletion_eq_ok hr.valid
  obtain ⟨completed, cancelled, overshoot, hstats⟩ := committedStats_eq dispatch.kind emitted
    progress ready eos state s.stats
  have hafter : s'.stats = committedStats dispatch.kind emitted progress ready eos state s.stats :=
    congrArg ContinuousScheduler.stats hr.state_eq
  rw [hafter, hstats]
  cases hk : dispatch.kind with
  | prefill =>
    simp only [SchedulerStats.tokens, SchedulerStats.quanta, progressedStats, hprefill hk]
    omega
  | decode =>
    simp only [SchedulerStats.tokens, SchedulerStats.quanta, progressedStats, hdecode hk]
    omega

/-- What a call adds to the counters is what it offers, or nothing. -/
theorem Worked.counters {s s' : ContinuousScheduler} {call : Call} (h : Worked s call s') :
    s.stats.tokens ≤ s'.stats.tokens ∧
      s'.stats.tokens ≤ s.stats.tokens + call.offeredTokens s ∧
      s'.stats.quanta ≤ s.stats.quanta + call.offeredQuanta s := by
  cases h with
  | idle htokens hquanta => omega
  | completed id emitted progress ready eos completion dispatch state hoffers hr =>
    obtain ⟨htokens, hquanta⟩ := hr.counters
    simp only [Call.offeredTokens, Call.offeredQuanta, hoffers, Option.getD_some,
      Option.isSome_some, Bool.toNat_true]
    omega

theorem Paid.baseRuntime_le {s : ContinuousScheduler} (h : Paid s) :
    baseRuntime s.requests ≤ 1024 * s.stats.tokens := by
  unfold baseRuntime
  cases hmin : ((s.requests.values.filter fun state => !state.status.isTerminal).map
    RequestState.virtualRuntime).min? with
  | none => exact Nat.zero_le _
  | some least =>
    obtain ⟨state, hmem, rfl⟩ := List.mem_map.mp (List.min?_mem hmin)
    obtain ⟨id, hget⟩ := SortedMap.mem_values_iff.mp (List.mem_filter.mp hmem).1
    exact h.runtime id state hget

/-- Committing pays for the virtual time that it adds. -/
theorem Paid.next {s : ContinuousScheduler} {call : Call} (h : Paid s)
    (hinv : Inv (step s call)) (hworked : Worked s call (step s call))
    (hstalls : ¬ Stalls s call) : Paid (step s call) := by
  refine ⟨hinv, fun id state' hget' => ?_⟩
  have hmono := hworked.counters.1
  have hbase := h.baseRuntime_le
  have hstands {old : RequestState} (hold : s.requests.get? id = some old)
      (hreq : (step s call).requests.get? id = some state')
      (heq : state'.virtualRuntime = old.virtualRuntime) :
      state'.virtualRuntime ≤ 1024 * (step s call).stats.tokens := by
    have hold' := h.runtime id old hold
    omega
  have hfound {record : RequestState} (hreq : (step s call).requests.get? id = some record) :
      state' = record := Option.some.inj (hget'.symm.trans hreq)
  cases h.move call id with
  | kept hreq => exact hstands (hreq ▸ hget') hget' rfl
  | stored spec nowNs record hcall hid hnone hrecord hreq =>
    have hle : state'.virtualRuntime ≤ baseRuntime s.requests := by
      rw [hfound hreq]
      rcases hrecord with rfl | ⟨bytes, -, rfl⟩
      · exact Nat.sub_le _ _
      · exact Nat.sub_le _ _
    omega
  | expired _ _ old _ hold _ hreq => exact hstands hold hget' (by rw [hfound hreq]; rfl)
  | selected _ _ old _ hold _ _ hreq => exact hstands hold hget' (by rw [hfound hreq]; rfl)
  | committed emitted progress ready eos completion dispatch old hcall hr =>
    obtain ⟨-, record, hreq, -, hruntime⟩ := hr.runtime
    have hold := h.runtime id old hr.request
    have hstatus := (h.dispatched hr.request hr.running).1
    have hcharge := charge_le progress
      ((h.record hr.request).priority (by simp [hstatus]))
    rw [hfound hreq, hruntime, hr.counters.1]
    omega
  | stalled _ _ _ _ _ old _ _ hcall hdispatch hold hvalid hover _ hreq =>
    rcases hcall.stalls_or_refused hdispatch hold hvalid hover with hstall | hrefused
    · exact absurd hstall hstalls
    · rw [hrefused] at hget' ⊢
      exact h.runtime id state' hget'
  | aborted old _ hold _ hreq => exact hstands hold hget' (by rw [hfound hreq]; rfl)
  | cancelled old _ hold _ hreq => exact hstands hold hget' (by rw [hfound hreq])
  | flagged old _ hold _ hreq => exact hstands hold hget' (by rw [hfound hreq])
  | pruned _ _ _ _ hreq => exact absurd (hget'.symm.trans hreq) (by simp)

/-! ## Calls that do not stall -/

theorem Call.hasRoom_of_not_stalls {s : ContinuousScheduler} {call : Call}
    (h : ¬ Stalls s call) : call.HasRoom s := by
  have hdecode {id : RequestId} {emitted progress : Nat} (ready : Bool)
      (hoffers : ∀ dispatch, s.running.get? id = some dispatch → dispatch.kind = .decode →
        validateQuantumCompletion dispatch id emitted progress = .ok () →
        call.offers s = some progress) : DecodeRoom s id emitted progress := by
    intro dispatch hrun state hget hk hvalid _
    by_contra hover
    refine h ⟨id, emitted, progress, ready, dispatch, state, hoffers dispatch hrun hk hvalid, hrun,
      hget, hvalid, fun hfits => hover ?_⟩
    rw [hk] at hfits
    exact ⟨hfits.2.1, hfits.1, hfits.2.2.2⟩
  cases call with
  | completeQuantum id emitted eos =>
    refine hdecode false fun dispatch hrun hk hvalid => ?_
    simp [Call.offers, hrun, hk, validated_of_ok hrun hvalid]
  | completeQuantumWithProgress id emitted progress ready eos =>
    exact hdecode ready fun dispatch hrun _ hvalid => validated_of_ok hrun hvalid
  | admitRequest | dispatchBatch | abortQuantum | cancel | takeExpiredDeadlines
  | pruneTerminal => trivial

/-- The dispatches that a call returns are open after it. -/
def Call.ReturnsOpen (s : ContinuousScheduler) (call : Call) : Prop :=
  call.exec.Ends s (fun reply s' => ∀ batch, reply = .dispatches batch →
    ∀ dispatch ∈ batch, s'.running.get? dispatch.requestId = some dispatch) (fun _ _ => True)

theorem Coherent.returnsOpen {s : ContinuousScheduler} (h : Coherent s) (call : Call) :
    call.ReturnsOpen s := by
  unfold Call.ReturnsOpen
  cases call with
  | dispatchBatch nowNs limit =>
    simp only [Call.exec, ends_bind, ends_pure, Reply.dispatches.injEq]
    refine (dispatchBatch_ends h nowNs limit).mono ?_ (fun _ _ _ => trivial)
    rintro batch s' ⟨-, expired, started, hr⟩ _ rfl dispatch hd
    exact ((hr.dispatched h).batch_status dispatch hd).2.2
  | admitRequest | completeQuantum | completeQuantumWithProgress | abortQuantum | cancel
  | takeExpiredDeadlines | pruneTerminal =>
    simp only [Call.exec, ends_bind, ends_pure, reduceCtorEq, false_implies, implies_true]
    exact ends_iff.mpr ⟨fun _ _ _ => trivial, fun _ _ _ => trivial⟩

/-! ## Cancelled quanta -/

/-- A request that was asked to stop in the quantum `dispatch` still has this quantum open, or it
is cancelled and has emitted no more than the quantum allowed. -/
def Stopping (id : RequestId) (state : RequestState) (dispatch : Dispatch)
    (s : ContinuousScheduler) : Prop :=
  (s.running.get? id = some dispatch ∧
    s.requests.get? id = some { state with cancellationRequested := true }) ∨
  (s.running.get? id = none ∧ ∃ state', s.requests.get? id = some state' ∧
    state'.status = .cancelled ∧ state'.emittedTokens ≤ state.emittedTokens + dispatch.tokenBudget)

/-- The commit of a cancelled quantum cancels its request. -/
theorem Stopping.committed {s s' : ContinuousScheduler} {id : RequestId} {state : RequestState}
    {dispatch opened : Dispatch} {emitted progress : Nat} {ready eos : Bool}
    {completion : QuantumCompletion} (hrun : s.running.get? id = some dispatch)
    (hr : CompleteReturns s id emitted progress ready eos completion s' opened
      { state with cancellationRequested := true }) : Stopping id state dispatch s' := by
  obtain rfl : opened = dispatch := Option.some.inj (hr.running.symm.trans hrun)
  obtain ⟨record, hreq, hsame, hstatus⟩ := hr.record
  have hbudget := (validateQuantumCompletion_eq_ok hr.valid).1
  refine .inr ⟨hr.runtime.1, record, hreq, ?_, ?_⟩
  · rw [hstatus, settledStatus]
    cases opened.kind <;> rfl
  · rw [hsame.emitted]
    cases opened.kind with
    | prefill => exact Nat.le_add_right _ _
    | decode => exact Nat.add_le_add_left hbudget _

/-- Asking a running request to stop. -/
theorem Stopping.cancel {s : ContinuousScheduler} {id : RequestId} {state : RequestState}
    {dispatch : Dispatch} (hinv : Inv s) (hget : s.requests.get? id = some state)
    (hrun : s.running.get? id = some dispatch) :
    Stopping id state dispatch (step s (.cancel id)) := by
  have hrunning := (hinv.dispatched hget hrun).1
  refine Ends.after (P := Stopping id state dispatch) ?_
  simp only [Call.exec, ends_bind, ends_pure]
  refine (cancel_ends s id).mono ?_ ?_
  · intro status s' hr
    obtain ⟨state', hget', hr⟩ := hr
    obtain rfl : state' = state := Option.some.inj (hget'.symm.trans hget)
    simp only [CancelReturns, hrunning] at hr
    rw [hr.2]
    exact .inl ⟨hrun, SortedMap.get?_insert_self _ _ _⟩
  · intro fault s' hf
    obtain ⟨rfl, hf⟩ := hf
    cases hf with
    | unknown hnone => exact absurd (hnone.symm.trans hget) (by simp)
    | panic state' hget' hlt => exact absurd (hinv.reserved_le hget') (not_le.mpr hlt)

theorem Stopping.next {s : ContinuousScheduler} {call : Call} {id : RequestId}
    {state : RequestState} {dispatch : Dispatch} (h : Stopping id state dispatch s)
    (hinv : Inv s) (hstalls : ¬ Stalls s call)
    (hkept : (step s call).requests.contains id) : Stopping id state dispatch (step s call) := by
  have hpresent : (step s call).requests.get? id ≠ none := by
    rw [SortedMap.contains, Option.isSome_iff_ne_none] at hkept
    exact hkept
  rcases h with ⟨hrun, hget⟩ | ⟨hidle, state', hget, hcancelled, hle⟩
  · have hrunning := (hinv.dispatched hget hrun).1
    have hsame {old : RequestState} (hold : s.requests.get? id = some old) :
        old = { state with cancellationRequested := true } :=
      Option.some.inj (hold.symm.trans hget)
    cases hinv.move call id with
    | kept hreq hrun' => exact .inl ⟨hrun'.trans hrun, hreq.trans hget⟩
    | stored _ _ _ _ _ hnone => exact absurd (hnone.symm.trans hget) (by simp)
    | expired _ _ old _ hold hdue =>
      simp [hsame hold, deadlinePassed, hrunning] at hdue
    | selected _ _ old _ hold hqueued =>
      rw [hsame hold, hrunning] at hqueued
      cases hqueued
    | committed emitted progress ready eos completion opened old _ hr =>
      obtain rfl := hsame hr.request
      exact .committed hrun hr
    | stalled _ _ _ _ _ _ _ _ hcall hdispatch hold hvalid hover =>
      rcases hcall.stalls_or_refused hdispatch hold hvalid hover with hstall | hrefused
      · exact absurd hstall hstalls
      · rw [hrefused]
        exact .inl ⟨hrun, hget⟩
    | aborted old _ hold _ hreq hrun' =>
      obtain rfl := hsame hold
      exact .inr ⟨hrun', _, hreq, rfl, Nat.le_add_right _ _⟩
    | cancelled old _ hold hqueued =>
      rw [hsame hold, hrunning] at hqueued
      cases hqueued
    | flagged old _ hold _ hreq hrun' =>
      obtain rfl := hsame hold
      exact .inl ⟨hrun'.trans hrun, hreq⟩
    | pruned _ _ _ _ hreq => exact absurd hreq hpresent
  · have hsame {old : RequestState} (hold : s.requests.get? id = some old) :
        old.status = .cancelled := by
      rw [Option.some.inj (hold.symm.trans hget), hcancelled]
    cases hinv.move call id with
    | kept hreq hrun =>
      exact .inr ⟨hrun.trans hidle, state', hreq.trans hget, hcancelled, hle⟩
    | stored _ _ _ _ _ hnone => exact absurd (hnone.symm.trans hget) (by simp)
    | expired _ _ old _ hold hdue => simp [deadlinePassed, hsame hold] at hdue
    | selected _ _ old _ hold hqueued => exact absurd ((hsame hold).symm.trans hqueued) (by simp)
    | committed _ _ _ _ _ _ _ _ hr => exact absurd (hr.running.symm.trans hidle) (by simp)
    | stalled _ _ _ _ _ _ _ _ _ hrun => exact absurd (hrun.symm.trans hidle) (by simp)
    | aborted old _ hold hrunning => exact absurd ((hsame hold).symm.trans hrunning) (by simp)
    | cancelled old _ hold hqueued => exact absurd ((hsame hold).symm.trans hqueued) (by simp)
    | flagged old _ hold hrunning => exact absurd ((hsame hold).symm.trans hrunning) (by simp)
    | pruned _ _ _ _ hreq => exact absurd hreq hpresent

/-! ## Whole runs -/

/-- The counters of a state have room for the rest of a run. -/
structure RunRoom (s : ContinuousScheduler) (calls : List Call) : Prop where
  admissions : s.nextSequence + calls.countP Call.isAdmit < 2 ^ 64
  tokens : s.stats.tokens + total step (fun s call => call.offeredTokens s) s calls < 2 ^ 64
  quanta : s.stats.quanta + total step (fun s call => call.offeredQuanta s) s calls < 2 ^ 64

/-- With room for the run, its first call does not stall. -/
theorem RunRoom.not_stalls {s : ContinuousScheduler} {call : Call} {calls : List Call}
    {tally : Tally} (hroom : RunRoom s (call :: calls)) (h : Paid s)
    (ho : ∀ id, Orderly id s (tally id)) : ¬ Stalls s call := by
  rintro ⟨id, emitted, progress, ready, dispatch, state, hoffers, hrun, hget, hvalid, hover⟩
  have htokens := hroom.tokens
  have hquanta := hroom.quanta
  simp only [total, Call.offeredTokens, Call.offeredQuanta, hoffers, Option.getD_some,
    Option.isSome_some, Bool.toNat_true] at htokens hquanta
  exact hover (h.fits (ho id) hrun hget hvalid (by omega) (by omega))

/-- What every state of a run with room keeps, and the room for the rest of the run. -/
structure Steady (s : ContinuousScheduler) (tally : Tally) (calls : List Call) : Prop
    extends Paid s where
  orderly : ∀ id, Orderly id s (tally id)
  room : RunRoom s calls

namespace Steady

variable {s : ContinuousScheduler} {tally : Tally} {call : Call} {calls : List Call}

theorem not_stalls (h : Steady s tally (call :: calls)) : ¬ Stalls s call :=
  h.room.not_stalls h.toPaid h.orderly

/-- The first call of a run works, or it offers nothing. -/
theorem exec (h : Steady s tally (call :: calls)) :
    call.exec.Ends s (fun _ s' => Worked s call s')
      (fun _ s' => Worked s call s' ∧ call.offers s = none) := by
  refine ((Call.exec_worked h.toCoherent call).and (h.exec_ne_panic call)).mono
    (fun _ _ hw => hw.1) ?_
  rintro fault s' ⟨hpanic | hworked | hstall, hne⟩
  · exact absurd hpanic hne
  · exact hworked
  · exact absurd hstall h.not_stalls

theorem worked (h : Steady s tally (call :: calls)) : Worked s call (step s call) :=
  Ends.after (h.exec.mono (fun _ _ hw => hw) fun _ _ hw => hw.1)

theorem next (h : Steady s tally (call :: calls)) :
    Steady (step s call) (tallyStep (s, tally) call).2 calls := by
  have hstalls := h.not_stalls
  have hworked := h.worked
  obtain ⟨hinv, hframed⟩ := h.step_framed (sequence_lt_of_countP h.room.admissions)
    (Call.hasRoom_of_not_stalls hstalls)
  refine ⟨h.toPaid.next hinv hworked hstalls, fun id => ?_, hframed.countP h.room.admissions, ?_, ?_⟩
  · exact (h.orderly id).next h.toInv hframed.1 hstalls
  · have htokens := h.room.tokens
    have hle := hworked.counters.2.1
    simp only [total] at htokens
    omega
  · have hquanta := h.room.quanta
    have hle := hworked.counters.2.2
    simp only [total] at hquanta
    omega

theorem run {after : List Call} (h : Steady s tally (calls ++ after)) :
    ∃ tally', Steady (Framework.run step s calls) tally' after := by
  induction calls generalizing s tally with
  | nil => exact ⟨tally, h⟩
  | cons call calls ih => exact ih h.next

theorem stopping {id : RequestId} {state : RequestState} {dispatch : Dispatch}
    (h : Steady s tally calls) (hstop : Stopping id state dispatch s)
    (hkept : Along step (fun s call => (step s call).requests.contains id) s calls) :
    Stopping id state dispatch (Framework.run step s calls) := by
  induction calls generalizing s tally with
  | nil => exact hstop
  | cons call calls ih =>
    exact ih h.next (hstop.next h.toInv h.not_stalls hkept.1) hkept.2

theorem new {policy : SchedulerPolicy} (hnew : ContinuousScheduler.new policy = .ok s)
    (hadmits : calls.countP Call.isAdmit < 2 ^ 64)
    (htokens : total step (fun s call => call.offeredTokens s) s calls < 2 ^ 64)
    (hquanta : total step (fun s call => call.offeredQuanta s) s calls < 2 ^ 64) :
    Steady s (fun _ => 0) calls := by
  have hinv := Inv.new hnew
  obtain ⟨rfl, -⟩ := ContinuousScheduler.new_eq_ok hnew
  refine ⟨⟨hinv, fun id state hget => ?_⟩, fun id => .absent rfl 0, ?_⟩
  · cases hget
  · refine ⟨?_, ?_, ?_⟩
    · rwa [Nat.zero_add]
    · rwa [show SchedulerStats.default.tokens = 0 from rfl, Nat.zero_add]
    · rwa [show SchedulerStats.default.quanta = 0 from rfl, Nat.zero_add]

end Steady

/-- What one call of a run keeps: every request stays orderly and has a token left while it is
queued, a valid completion returns, and what a dispatch returns is open. -/
structure Advances (w : ContinuousScheduler × Tally) (call : Call) : Prop where
  orderly : ∀ id, Orderly id (tallyStep w call).1 ((tallyStep w call).2 id)
  queued : ∀ id state, (step w.1 call).requests.get? id = some state →
    state.status = .queued → 1 ≤ state.remainingTokens
  returns : call.exec.Ends w.1 (fun _ _ => True) (fun _ _ => call.offers w.1 = none)
  opens : call.ReturnsOpen w.1

theorem Steady.along {s : ContinuousScheduler} {tally : Tally} {calls : List Call}
    (h : Steady s tally calls) : Along tallyStep Advances (s, tally) calls := by
  induction calls generalizing s tally with
  | nil => trivial
  | cons call calls ih =>
    have hnext := h.next
    refine ⟨⟨hnext.orderly, fun id state hget hqueued => ?_, ?_, ?_⟩, ih hnext⟩
    · exact (hnext.record hget).runnable (by simp [hqueued, RequestStatus.isTerminal])
    · exact h.exec.mono (fun _ _ _ => trivial) fun _ _ hw => hw.2
    · exact h.toCoherent.returnsOpen call

/-- Wherever a run cancels a running request, the request stops within the quantum that is open,
as long as its record is kept. -/
def CancelsStop (s : ContinuousScheduler) (calls : List Call) : Prop :=
  ∀ before after id state dispatch, calls = before ++ .cancel id :: after →
    (run step s before).requests.get? id = some state →
    (run step s before).running.get? id = some dispatch →
    Along step (fun s call => (step s call).requests.contains id)
      (run step s (before ++ [.cancel id])) after →
    Stopping id state dispatch (run step s calls)

/-- Progress is conserved and ordered, and a cancelled quantum is the last of its request, in
every run of fewer than `2 ^ 64` admissions, committed tokens and committed quanta. -/
theorem progress_along (policy : SchedulerPolicy) (s : ContinuousScheduler) (calls : List Call)
    (hnew : ContinuousScheduler.new policy = .ok s)
    (hadmits : calls.countP Call.isAdmit < 2 ^ 64)
    (htokens : total step (fun s call => call.offeredTokens s) s calls < 2 ^ 64)
    (hquanta : total step (fun s call => call.offeredQuanta s) s calls < 2 ^ 64) :
    Along tallyStep Advances (s, fun _ => 0) calls ∧ CancelsStop s calls := by
  have hsteady := Steady.new hnew hadmits htokens hquanta
  refine ⟨hsteady.along, ?_⟩
  intro before after id state dispatch hcalls hget hrun hkept
  subst hcalls
  obtain ⟨tally, hbefore⟩ := hsteady.run
  have hflagged : Stopping id state dispatch (run step s (before ++ [.cancel id])) := by
    rw [run_append]
    exact .cancel hbefore.toInv hget hrun
  rw [run_append] at hflagged hkept ⊢
  exact hbefore.next.stopping hflagged hkept

/-- A request that is cancelled in its second quantum. -/
def cancelledCalls : List Call :=
  [.admitRequest ⟨1, 0, 3, 0, 4, 1, none⟩ 0, .dispatchBatch 0 2,
    .completeQuantumWithProgress 1 0 2 false false, .dispatchBatch 1 1, .cancel 1,
    .completeQuantumWithProgress 1 0 1 false false]

theorem progress_along_cancelled :
    Along tallyStep Advances (⟨smallPolicy, ∅, ∅, [], 0, 0, .default⟩, fun _ => 0)
      cancelledCalls ∧ CancelsStop ⟨smallPolicy, ∅, ∅, [], 0, 0, .default⟩ cancelledCalls :=
  progress_along smallPolicy _ _ rfl (by decide) (by decide +kernel) (by decide +kernel)

/-! ## A run of quanta without tokens -/

/-- One request that is served a quantum of no tokens. -/
def idleCycle : List Call := [.dispatchBatch 0 1, .completeQuantum 1 0 false]

def idleRecord : RequestState := ⟨⟨1, 0, 0, 0, 1, 1, none⟩, .queued, 4, 0, 1, 0, 0, 0, false⟩

/-- The scheduler after `k` quanta without tokens. -/
structure Idled (k : Nat) (s : ContinuousScheduler) : Prop where
  inv : Inv s
  policy : s.policy = smallPolicy
  requests : s.requests = (∅ : SortedMap _ _).insert 1 idleRecord
  running : s.running = ∅
  dispatchedQuanta : s.stats.dispatchedQuanta = k
  decodeQuanta : s.stats.decodeQuanta = k
  emittedTokens : s.stats.emittedTokens = 0

theorem Idled.opens {k : Nat} {s : ContinuousScheduler} (h : Idled k s) :
    ∃ counted, OpenedAlone 1 idleRecord 0 counted s (step s (.dispatchBatch 0 1)) ∧
      (k + 1 < 2 ^ 64 → counted = 1) := by
  refine Ends.after (P := fun s' => ∃ counted, OpenedAlone 1 idleRecord 0 counted s s' ∧
    (k + 1 < 2 ^ 64 → counted = 1)) ?_
  simp only [Call.exec, ends_bind, ends_pure]
  refine (dispatchBatch_singleton h.inv h.requests h.running rfl rfl rfl 0).mono ?_ ?_
  · exact fun _ _ ho => ⟨1, ho.2, fun _ => rfl⟩
  · rintro _ _ ⟨hover, ho⟩
    rw [h.dispatchedQuanta] at hover
    exact ⟨0, ho, fun hlt => absurd hlt (not_lt.mpr hover)⟩

theorem Idled.cycle {k : Nat} {s : ContinuousScheduler} (h : Idled k s) (hk : k + 1 < 2 ^ 64) :
    Idled (k + 1) (run step s idleCycle) := by
  simp only [idleCycle, run_cons, run_nil]
  obtain ⟨counted, ho, hcounted⟩ := h.opens
  obtain rfl := hcounted hk
  generalize step s (.dispatchBatch 0 1) = s₁ at ho
  have hopen : openDispatch s.policy 0 1 idleRecord = ⟨1, 1, 0, .decode⟩ := by
    rw [h.policy]
    decide
  have hrun : s₁.running.get? 1 = some ⟨1, 1, 0, .decode⟩ := by
    rw [ho.running, hopen]
    exact SortedMap.get?_insert_self _ _ _
  have hget : s₁.requests.get? 1 = some (startedRecord idleRecord) := by
    rw [ho.requests]
    exact SortedMap.get?_insert_self _ _ _
  have hfits : QuantumFits .decode 0 0 false (startedRecord idleRecord) s₁.stats := by
    rw [QuantumFits, ho.emittedTokens, ho.decodeQuanta, h.emittedTokens, h.decodeQuanta]
    exact ⟨by decide, hk, by decide, by decide⟩
  refine Ends.after (P := Idled (k + 1)) ?_
  simp only [Call.exec, ends_bind, ends_pure]
  refine (completeQuantum_decode_ends hrun hget rfl (Nat.zero_le _)).mono ?_ ?_
  · intro completion s' hr
    have hinv := ho.inv.completeReturns hr
    have hrecord : committedRecord .decode 0 0 false false (startedRecord idleRecord) =
        idleRecord := by decide
    obtain ⟨completed, cancelled, overshoot, hstats⟩ := committedStats_eq .decode 0 0 false false
      (startedRecord idleRecord) s₁.stats
    rw [hr.state_eq] at hinv ⊢
    refine ⟨hinv, ho.policy.trans h.policy, ?_, ?_, ?_, ?_, ?_⟩
    · simp only [committedState, hrecord, ho.requests, SortedMap.insert_insert]
      rfl
    · simp only [committedState, ho.running]
      rfl
    · simp only [committedState, hstats, progressedStats, ho.dispatchedQuanta, h.dispatchedQuanta]
    · simp only [committedState, hstats, progressedStats, ho.decodeQuanta, h.decodeQuanta]
    · simp only [committedState, hstats, progressedStats, ho.emittedTokens, h.emittedTokens]
  · rintro fault s' (⟨-, hcause⟩ | ⟨-, hover, -⟩)
    · exact absurd hcause (ho.inv.not_panic_cause hrun hget
        (validateQuantumCompletion_decode 1 rfl (Nat.zero_le _)))
    · exact absurd hfits hover

theorem Idled.replicate {k : Nat} {s : ContinuousScheduler} (h : Idled 0 s) (hk : k < 2 ^ 64) :
    Idled k (run step s (List.replicate k idleCycle).flatten) := by
  induction k with
  | zero => exact h
  | succ k ih =>
    rw [List.replicate_succ', List.flatten_append, run_append]
    simpa using (ih (by omega)).cycle hk

/-- A quantum too many, after `k` quanta without tokens. -/
def idleCalls (k : Nat) : List Call :=
  .admitRequest idleRecord.spec 0 :: ((List.replicate k idleCycle).flatten ++ idleCycle)

theorem mem_idleCycles {k : Nat} {call : Call}
    (h : call ∈ (List.replicate k idleCycle).flatten ++ idleCycle) :
    call = .dispatchBatch 0 1 ∨ call = .completeQuantum 1 0 false := by
  rcases List.mem_append.mp h with hmem | hmem
  · obtain ⟨cycle, hcycle, hmem⟩ := List.mem_flatten.mp hmem
    rw [List.eq_of_mem_replicate hcycle] at hmem
    simpa [idleCycle] using hmem
  · simpa [idleCycle] using hmem

theorem countP_idleCalls (k : Nat) : (idleCalls k).countP Call.isAdmit = 1 := by
  have hrest : ((List.replicate k idleCycle).flatten ++ idleCycle).countP Call.isAdmit = 0 := by
    rw [List.countP_eq_zero]
    intro call hmem
    rcases mem_idleCycles hmem with rfl | rfl <;> simp [Call.isAdmit]
  rw [idleCalls, List.countP_cons, hrest]
  rfl

/-- No call of the run offers a token. -/
theorem offeredTokens_idleCalls {k : Nat} {call : Call} (h : call ∈ idleCalls k)
    (s : ContinuousScheduler) : call.offeredTokens s = 0 := by
  rcases List.mem_cons.mp h with rfl | hmem
  · rfl
  rcases mem_idleCycles hmem with rfl | rfl
  · rfl
  · simp only [Call.offeredTokens, Call.offers]
    split_ifs
    · rfl
    · cases hoffers : validated s 1 0 0 with
      | none => rfl
      | some n => exact (validated_eq_some hoffers).1

/-- The quantum that finds the counter of decode quanta exhausted is refused. -/
theorem Idled.overflows {s s₁ : ContinuousScheduler} {k counted : Nat} (h : Idled k s)
    (hk : 2 ^ 64 ≤ k + 1) (ho : OpenedAlone 1 idleRecord 0 counted s s₁) :
    (Call.completeQuantum 1 0 false).offers s₁ = some 0 ∧
      (Call.completeQuantum 1 0 false).exec.Ends s₁ (fun _ _ => False)
        (fun fault _ => fault = .error .accountingOverflow) := by
  have hopen : openDispatch s.policy 0 1 idleRecord = ⟨1, 1, 0, .decode⟩ := by
    rw [h.policy]
    decide
  have hrun : s₁.running.get? 1 = some ⟨1, 1, 0, .decode⟩ := by
    rw [ho.running, hopen]
    exact SortedMap.get?_insert_self _ _ _
  have hget : s₁.requests.get? 1 = some (startedRecord idleRecord) := by
    rw [ho.requests]
    exact SortedMap.get?_insert_self _ _ _
  have hvalid : validateQuantumCompletion ⟨1, 1, 0, .decode⟩ 1 0 0 = .ok () :=
    validateQuantumCompletion_decode 1 rfl (Nat.zero_le 1)
  have hover : ¬ QuantumFits .decode 0 0 false (startedRecord idleRecord) s₁.stats := by
    rw [QuantumFits, ho.decodeQuanta, h.decodeQuanta]
    omega
  refine ⟨by simp [Call.offers, hrun, validated_of_ok hrun hvalid], ?_⟩
  simp only [Call.exec, ends_bind, ends_pure]
  refine (completeQuantum_decode_ends hrun hget rfl (Nat.zero_le 1)).mono ?_ ?_
  · exact fun _ _ hr => hover hr.fits
  · rintro fault _ (⟨-, hcause⟩ | ⟨hfault, -⟩)
    · exact absurd hcause (ho.inv.not_panic_cause hrun hget hvalid)
    · exact hfault

/-- A run without tokens and with one admission can still exhaust a counter. -/
theorem progress_overflows : ¬ ∀ (policy : SchedulerPolicy) (s : ContinuousScheduler)
    (calls : List Call), ContinuousScheduler.new policy = .ok s →
    calls.countP Call.isAdmit < 2 ^ 64 →
    total step (fun s call => call.offeredTokens s) s calls < 2 ^ 64 →
    Along step (fun s call => call.exec.Ends s (fun _ _ => True) (fun fault _ =>
      fault = .error .accountingOverflow → call.offers s = none)) s calls := by
  intro hall
  obtain ⟨s, hnew⟩ : ∃ s, ContinuousScheduler.new smallPolicy = .ok s := ⟨_, rfl⟩
  obtain ⟨k, hk⟩ : ∃ k : Nat, k + 1 = 2 ^ 64 := ⟨2 ^ 64 - 1, by omega⟩
  have htokens : total step (fun s call => call.offeredTokens s) s (idleCalls k) = 0 :=
    total_eq_zero fun s call hmem => offeredTokens_idleCalls hmem s
  have halong := hall smallPolicy s (idleCalls k) hnew (countP_idleCalls k ▸ by decide)
    (htokens ▸ Nat.two_pow_pos 64)
  have hstart : Idled 0 (step s (.admitRequest idleRecord.spec 0)) := by
    have hinv := (Inv.new hnew).exec (.admitRequest idleRecord.spec 0) (fun _ => ?_) trivial
    · cases hnew
      exact ⟨Ends.after (hinv.mono (fun _ _ hi => hi) fun _ _ hi => hi.1), by decide +kernel, by decide +kernel, by decide +kernel, by decide +kernel,
        by decide +kernel, by decide +kernel⟩
    · cases hnew
      decide
  have hfull := hstart.replicate (k := k) (by omega)
  rw [idleCalls, Along, along_append] at halong
  obtain ⟨-, -, -, hlast, -⟩ := halong
  obtain ⟨counted, ho, -⟩ := hfull.opens
  generalize run step (step s _) _ = s₁ at hfull ho hlast
  generalize step s₁ (.dispatchBatch 0 1) = s₂ at ho hlast
  obtain ⟨hoffers, hends⟩ := hfull.overflows (by omega) ho
  refine not_ends_false _ _ ((hends.and hlast).mono ?_ ?_)
  · exact fun _ _ h => h.1
  · rintro fault _ ⟨hfault, hnone⟩
    simp [hoffers] at hnone
    exact hnone hfault

end Leone.Scheduler

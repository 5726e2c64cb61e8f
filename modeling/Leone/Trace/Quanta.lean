import Leone.Trace.Execution

/-!
# One quantum of an execution

A turn expires the requests whose deadline has passed, opens at most one quantum, and runs it to
its end. Each part keeps the invariant, and a completed quantum shortens the backlog.
-/

namespace Leone.Trace

open Framework Framework.Method Scheduler

section Quanta

variable {trace : ServiceTrace} {ordered : List ServiceTraceRequest}
  {sources : SortedMap RequestId ServiceTraceRequest} {run run' : TraceRun}

/-! ## Expired requests -/

theorem sublist_filterMap {α β κ : Type} {f : α → Option β} {g : β → κ} {k : α → κ}
    (h : ∀ a b, f a = some b → g b = k a) (l : List α) :
    ((l.filterMap f).map g).Sublist (l.map k) := by
  induction l with
  | nil => exact .slnil
  | cons a l ih =>
    rw [List.map_cons]
    cases hf : f a with
    | none =>
      rw [List.filterMap_cons_none hf]
      exact ih.cons _
    | some b =>
      rw [List.filterMap_cons_some hf, List.map_cons, h a b hf]
      exact ih.cons_cons _

theorem SourcesOf.ids_eq_keys (h : SourcesOf ordered sources) :
    (sources.values.map fun source => source.spec.id) = sources.keys := by
  rw [SortedMap.values, SortedMap.keys, List.map_map]
  apply List.map_congr_left
  intro entry hentry
  exact ((h.get?_iff _ _).mp (SortedMap.get?_eq_some_iff.mpr hentry)).2

theorem nodup_traceExpiredRequests (h : SourcesOf ordered sources) (s : ContinuousScheduler)
    (nowNs : Nat) : ((traceExpiredRequests sources s nowNs).map Prod.fst).Nodup := by
  have hkeys : (sources.values.map fun source => source.spec.id).Nodup :=
    h.ids_eq_keys ▸ sources.nodup_keys
  refine (sublist_filterMap (fun source entry hentry => ?_) sources.values).nodup hkeys
  obtain ⟨state, -, hdue⟩ := Option.bind_eq_some_iff.mp hentry
  split_ifs at hdue
  cases hdue
  rfl

theorem TraceOk.mem_traceExpiredRequests (h : TraceOk trace ordered sources run)
    (hsources : SourcesOf ordered sources) {nowNs : Nat} {entry : RequestId × Nat} :
    entry ∈ traceExpiredRequests sources run.scheduler nowNs ↔
      ∃ state, run.scheduler.requests.get? entry.1 = some state ∧ deadlinePassed nowNs state ∧
        entry.2 = state.reservedKvBytes := by
  simp only [traceExpiredRequests, List.mem_filterMap, Option.bind_eq_some_iff]
  constructor
  · intro hmem
    obtain ⟨source, -, state, hget, hdue⟩ := hmem
    split_ifs at hdue with hpassed
    cases hdue
    exact ⟨state, hget, hpassed, rfl⟩
  · intro hentry
    obtain ⟨state, hget, hpassed, hbytes⟩ := hentry
    obtain ⟨source, hsource, -⟩ := h.served _ state hget
    have hid := ((hsources.get?_iff _ _).mp hsource).2
    refine ⟨source, SortedMap.mem_values_iff.mpr ⟨_, hsource⟩, state, hid ▸ hget, ?_⟩
    rw [if_pos hpassed, hid, ← hbytes]

theorem TraceOk.mem_expired_ids (h : TraceOk trace ordered sources run)
    (hsources : SourcesOf ordered sources) (nowNs : Nat) (id : RequestId) :
    id ∈ (traceExpiredRequests sources run.scheduler nowNs).map Prod.fst ↔
      id ∈ dueIds run.scheduler nowNs := by
  rw [h.inv.keyed.mem_dueIds, List.mem_map]
  constructor
  · intro hmem
    obtain ⟨entry, hentry, hid⟩ := hmem
    obtain ⟨state, hget, hpassed, -⟩ := (h.mem_traceExpiredRequests hsources).mp hentry
    exact ⟨state, hid ▸ hget, hpassed⟩
  · intro hdue
    obtain ⟨state, hget, hpassed⟩ := hdue
    exact ⟨(id, state.reservedKvBytes),
      (h.mem_traceExpiredRequests hsources).mpr ⟨state, hget, hpassed, rfl⟩, rfl⟩

/-! ## Opening a quantum -/

/-- What a dispatch does to one record. -/
inductive Opened (state : RequestState) : RequestState → Prop
  | kept : Opened state state
  | started (h : state.status = .queued) : Opened state (startedRecord state)
  | expired (h : state.status = .queued) : Opened state (expiredRecord state)

theorem Opened.serves {source : ServiceTraceRequest} {state state' : RequestState}
    (h : Opened state state') (hserves : Serves source state) : Serves source state' := by
  cases h with
  | kept => exact hserves
  | started hqueued =>
    have hlive : ¬ state.status.isTerminal := by simp [hqueued, RequestStatus.isTerminal]
    refine ⟨hserves.spec, hserves.emitted_le, hserves.emitted_le_max,
      fun _ => hserves.covers_prefill hlive, fun _ => hserves.covers_decode hlive,
      fun hagain => ?_, fun hfinished => ?_⟩
    · cases hagain
    · cases hfinished
  | expired =>
    refine ⟨hserves.spec, hserves.emitted_le, hserves.emitted_le_max, fun hlive => ?_,
      fun hlive => ?_, fun hagain => ?_, fun hfinished => ?_⟩
    · exact absurd rfl hlive
    · exact absurd rfl hlive
    · cases hagain
    · cases hfinished

theorem Opened.emittedTokens {state state' : RequestState} (h : Opened state state') :
    state'.emittedTokens = state.emittedTokens := by
  cases h <;> rfl

theorem Opened.recordWork_le {state state' : RequestState} (h : Opened state state') :
    recordWork sources state' ≤ recordWork sources state := by
  cases h with
  | kept => exact le_rfl
  | started hqueued =>
    simp [recordWork, startedRecord, hqueued, RequestStatus.isTerminal]
  | expired => exact Nat.zero_le _

section Opening

variable {s' expired started : ContinuousScheduler} {nowNs : Nat} {batch : List Dispatch}

theorem opened_records (hinv : Inv run.scheduler)
    (hr : DispatchReturns run.scheduler nowNs 1 batch s' expired started) (id : RequestId) :
    Option.Rel Opened (run.scheduler.requests.get? id) (s'.requests.get? id) := by
  rw [dispatch_record hr]
  split_ifs with hsel hdue
  · rcases dispatch_batch hr with hnil | ⟨id', state, hone, hget, hqueued, -⟩
    · rw [hnil] at hsel
      cases hsel
    · rw [hone, List.map_cons, List.map_nil, List.mem_singleton] at hsel
      have hid : id = id' := hsel
      rw [hid, hget]
      exact .some (.started hqueued)
  · obtain ⟨state, hget, hpassed⟩ := hinv.keyed.mem_dueIds.mp hdue
    simp only [deadlinePassed, Bool.and_eq_true, decide_eq_true_eq] at hpassed
    rw [hget]
    exact .some (.expired hpassed.1)
  · cases run.scheduler.requests.get? id with
    | none => exact .none
    | some state => exact .some .kept

/-- A dispatch touches the policy and the overshoot of cancellations not at all. -/
theorem dispatch_policy (hr : DispatchReturns run.scheduler nowNs 1 batch s' expired started) :
    s'.policy = run.scheduler.policy ∧ s'.stats.maxCancellationOvershootTokens =
      run.scheduler.stats.maxCancellationOvershootTokens := by
  have hpolicy := hr.start.policy.trans hr.expire.policy
  have hstats : started.stats.maxCancellationOvershootTokens =
      run.scheduler.stats.maxCancellationOvershootTokens := by
    rw [hr.start.stats, hr.expire.stats]
  rw [hr.state_eq, countedState]
  split_ifs
  · exact ⟨hpolicy, hstats⟩
  · exact ⟨hpolicy, hstats⟩

/-- The invariant after a dispatch, once its events are recorded. -/
theorem TraceOk.opened (h : TraceOk trace ordered sources run) (hinv' : Inv s')
    (hr : DispatchReturns run.scheduler nowNs 1 batch s' expired started)
    (events : List ServiceEvent)
    (hreplayed : ∃ replay, Replays trace.policy.maxReservedKvBytes TraceReplay.default events
      replay ∧ Matches s' replay) :
    TraceOk trace ordered sources { run with scheduler := s', events } := by
  have hrecords := opened_records h.inv hr
  obtain ⟨hpolicy, hover⟩ := dispatch_policy hr
  refine ⟨hinv', hpolicy.trans h.policy, fun id state' hstate' => ?_, fun id => ?_, h.pending,
    fun request hrequest => ?_, fun request hrequest => ?_, hreplayed, ?_⟩
  · have hrecord := hrecords id
    change s'.requests.get? id = some state' at hstate'
    rw [hstate'] at hrecord
    generalize hold : run.scheduler.requests.get? id = old at hrecord
    cases hrecord with
    | @some state _ hopened =>
      obtain ⟨source, hsource, hserves⟩ := h.served id state hold
      exact ⟨source, hsource, hopened.serves hserves⟩
  · have hrecord := hrecords id
    change run.outputs.get? id = (s'.requests.get? id).bind (transcript sources id)
    rw [h.outputs]
    generalize run.scheduler.requests.get? id = old at hrecord ⊢
    generalize s'.requests.get? id = new at hrecord ⊢
    cases hrecord with
    | none => rfl
    | some hopened =>
      rw [Option.bind_some, Option.bind_some, transcript, transcript, hopened.emittedTokens]
  · have hrecord := hrecords request.spec.id
    rw [h.waiting request hrequest] at hrecord
    change s'.requests.get? request.spec.id = none
    generalize s'.requests.get? request.spec.id = new at hrecord ⊢
    cases hrecord
    rfl
  · rcases h.arrived request hrequest with hmem | ⟨state, hget⟩
    · exact .inl hmem
    · have hrecord := hrecords request.spec.id
      rw [hget] at hrecord
      change _ ∨ ∃ state, s'.requests.get? request.spec.id = some state
      generalize s'.requests.get? request.spec.id = new at hrecord ⊢
      cases hrecord with
      | @some _ state' => exact .inr ⟨state', rfl⟩
  · exact hover.le.trans h.overshoot

theorem backlog_opened (h : TraceOk trace ordered sources run)
    (hr : DispatchReturns run.scheduler nowNs 1 batch s' expired started)
    (events : List ServiceEvent) :
    backlog sources { run with scheduler := s', events } ≤ backlog sources run := by
  apply Nat.add_le_add_left
  apply SortedMap.sumBy_le_sumBy
  intro id
  have hrecord := opened_records h.inv hr id
  rw [SortedMap.share, SortedMap.share]
  change Option.getD ((s'.requests.get? id).map _) 0 ≤ _
  generalize run.scheduler.requests.get? id = old at hrecord ⊢
  generalize s'.requests.get? id = new at hrecord ⊢
  cases hrecord with
  | none => exact le_rfl
  | some hopened => exact hopened.recordWork_le

/-- The expirations replay, down to the bytes that the scheduler still holds. -/
theorem TraceOk.expirations (h : TraceOk trace ordered sources run)
    (hsources : SourcesOf ordered sources) (hinv' : Inv s')
    (hr : DispatchReturns run.scheduler nowNs 1 batch s' expired started) :
    ∃ replay middle,
      Matches run.scheduler replay ∧
      Freed ((traceExpiredRequests sources run.scheduler nowNs).map Prod.fst) replay middle ∧
      Replays trace.policy.maxReservedKvBytes TraceReplay.default
        (run.events ++ expireEvents nowNs run.scheduler.reservedKvBytes
          (traceExpiredRequests sources run.scheduler nowNs)) middle ∧
      s'.reservedKvBytes +
          ((traceExpiredRequests sources run.scheduler nowNs).map Prod.snd).sum =
        run.scheduler.reservedKvBytes := by
  obtain ⟨replay, hreplays, hmatches⟩ := h.replayed
  have hheld : ∀ entry ∈ traceExpiredRequests sources run.scheduler nowNs,
      replay.reservations.get? entry.1 = some entry.2 := by
    intro entry hentry
    obtain ⟨state, hget, hpassed, hbytes⟩ := (h.mem_traceExpiredRequests hsources).mp hentry
    simp only [deadlinePassed, Bool.and_eq_true, decide_eq_true_eq] at hpassed
    rw [hbytes]
    exact hmatches.held hget (by simp [hpassed.1, RequestStatus.isTerminal])
  have hcapacity : replay.reserved ≤ trace.policy.maxReservedKvBytes := by
    rw [hmatches.reserved, ← h.policy]
    exact h.inv.capacity
  obtain ⟨middle, hsteps, hfreed, hsum⟩ := replays_expireEvents nowNs hmatches.exact_total
    hcapacity (nodup_traceExpiredRequests hsources run.scheduler nowNs) hheld
  rw [hmatches.reserved] at hsteps hsum
  refine ⟨replay, middle, hmatches, hfreed, hreplays.append hsteps, ?_⟩
  rw [← hsum, Matches.reserved_of_reservations hinv' hfreed.exact_total
    (hmatches.reservations_dispatched h.inv hr (h.mem_expired_ids hsources nowNs) hfreed)]

end Opening

/-! ## The bounds of a quantum -/

/-- What a quantum covers: the whole prompt chunk, or the next tokens of the transcript. -/
structure BoundsOk (sources : SortedMap RequestId ServiceTraceRequest) (dispatch : Dispatch)
    (state : RequestState) (nowNs : Nat) (bounds : QuantumBounds) : Prop where
  source : sources.get? dispatch.requestId = some bounds.source
  prefill : dispatch.kind = .prefill → bounds.count = dispatch.tokenBudget
  decode : dispatch.kind = .decode → bounds.start = state.emittedTokens ∧ bounds.count =
    min dispatch.tokenBudget (bounds.source.isolatedTokens.length - state.emittedTokens)
  later : nowNs ≤ bounds.endNs

theorem traceEnd_spec (duration count nowNs : Nat) :
    (∀ endNs, traceEnd duration count nowNs = .ok endNs → nowNs ≤ endNs) ∧
      ∀ e, traceEnd duration count nowNs = .error e → e = .accountingOverflow := by
  unfold traceEnd
  cases hcount : tryFrom 64 count with
  | none => simp [okOr, bind, Except.bind]
  | some narrow =>
    simp only [okOr, bind, Except.bind]
    cases hmul : checkedMul 64 narrow duration with
    | none => simp
    | some product =>
      cases hadd : checkedAdd 64 nowNs product with
      | none => simp [hadd]
      | some sum =>
        obtain ⟨-, rfl⟩ := checkedAdd_eq_some.mp hadd
        simp [hadd]

theorem traceQuantumBounds_spec (trace : ServiceTrace) {s : ContinuousScheduler}
    {dispatch : Dispatch} {state : RequestState} {source : ServiceTraceRequest} (nowNs : Nat)
    (hrun : s.running.get? dispatch.requestId = some dispatch)
    (hget : s.requests.get? dispatch.requestId = some state)
    (hsource : sources.get? dispatch.requestId = some source)
    (hbudget : dispatch.tokenBudget < 2 ^ 64) (hemitted : state.emittedTokens < 2 ^ 64) :
    (∀ bounds, traceQuantumBounds trace s sources dispatch.requestId dispatch.tokenBudget nowNs =
      .ok bounds → BoundsOk sources dispatch state nowNs bounds) ∧
    ∀ e, traceQuantumBounds trace s sources dispatch.requestId dispatch.tokenBudget nowNs =
      .error e → e = .accountingOverflow := by
  have hkind : traceIsPrefill s dispatch.requestId = decide (dispatch.kind = .prefill) := by
    simp [traceIsPrefill, hrun]
  have hwide : tryFrom 64 state.emittedTokens = some state.emittedTokens :=
    tryFrom_eq_some.mpr ⟨hemitted, rfl⟩
  have hstart : traceEmittedStart s dispatch.requestId = .ok state.emittedTokens := by
    simp [traceEmittedStart, ContinuousScheduler.emittedTokens, hget, okOr, hwide, bind,
      Except.bind]
  have hnarrow : tryFrom 64 dispatch.tokenBudget = some dispatch.tokenBudget :=
    tryFrom_eq_some.mpr ⟨hbudget, rfl⟩
  cases hphase : dispatch.kind with
  | prefill =>
    have hbounds : traceQuantumBounds trace s sources dispatch.requestId dispatch.tokenBudget
        nowNs = (traceEnd trace.tokenDurationNs dispatch.tokenBudget nowNs).map fun endNs =>
          ⟨source, 0, dispatch.tokenBudget, endNs⟩ := by
      simp only [traceQuantumBounds, hsource, hkind, hphase, decide_true, traceStart, traceCount,
        if_true, hnarrow, okOr, bind, Except.bind]
      cases traceEnd trace.tokenDurationNs dispatch.tokenBudget nowNs <;> rfl
    obtain ⟨hlater, herror⟩ := traceEnd_spec trace.tokenDurationNs dispatch.tokenBudget nowNs
    rw [hbounds]
    cases hend : traceEnd trace.tokenDurationNs dispatch.tokenBudget nowNs with
    | ok endNs =>
      refine ⟨fun bounds hok => ?_, fun e hfails => ?_⟩
      · cases hok
        exact ⟨hsource, fun _ => rfl, fun hdecode => absurd (hphase.symm.trans hdecode) (by simp),
          hlater endNs hend⟩
      · cases hfails
    | error e =>
      refine ⟨fun bounds hok => ?_, fun e' hfails => ?_⟩
      · cases hok
      · cases hfails
        exact herror e hend
  | decode =>
    generalize hcount : min dispatch.tokenBudget
      (source.isolatedTokens.length - state.emittedTokens) = count
    have hbounds : traceQuantumBounds trace s sources dispatch.requestId dispatch.tokenBudget
        nowNs = (traceEnd trace.tokenDurationNs count nowNs).map fun endNs =>
          ⟨source, state.emittedTokens, count, endNs⟩ := by
      simp only [traceQuantumBounds, hsource, hkind, hphase, reduceCtorEq, decide_false, traceStart,
        traceCount, Bool.false_eq_true, if_false, hstart, traceQuantumCount, hnarrow, okOr, bind,
        Except.bind, pure, Except.pure, hcount]
      cases traceEnd trace.tokenDurationNs count nowNs <;> rfl
    obtain ⟨hlater, herror⟩ := traceEnd_spec trace.tokenDurationNs count nowNs
    rw [hbounds]
    cases hend : traceEnd trace.tokenDurationNs count nowNs with
    | ok endNs =>
      refine ⟨fun bounds hok => ?_, fun e hfails => ?_⟩
      · cases hok
        exact ⟨hsource, fun hprefill => absurd (hphase.symm.trans hprefill) (by simp),
          fun _ => ⟨rfl, hcount.symm⟩, hlater endNs hend⟩
      · cases hfails
    | error e =>
      refine ⟨fun bounds hok => ?_, fun e' hfails => ?_⟩
      · cases hok
      · cases hfails
        exact herror e hend

end Quanta

end Leone.Trace

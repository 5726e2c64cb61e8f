import Leone.Scheduler.Invariant

/-!
# Forming one batch

A dispatch expires the queued requests whose deadline has passed, selects a prefix of the rest
in service order, and opens one quantum for each. Both loops touch each request at most once,
so each is specified by a lookup.
-/

namespace Leone.Scheduler

open Framework Framework.Method

/-! ## The requests of a batch -/

/-- The requests whose deadline passed while they were queued. -/
def dueIds (s : ContinuousScheduler) (nowNs : Nat) : List RequestId :=
  (s.requests.values.filter (deadlinePassed nowNs)).map fun state => state.spec.id

/-- The number of requests that one dispatch may select. -/
def batchLimit (s : ContinuousScheduler) (limit : Nat) : Nat :=
  min limit s.policy.maxBatchRequests

/-- Every record is stored under its own identity. -/
def Keyed (s : ContinuousScheduler) : Prop :=
  ∀ id state, s.requests.get? id = some state → state.spec.id = id

theorem Coherent.keyed {s : ContinuousScheduler} (h : Coherent s) : Keyed s :=
  fun _ _ hget => (h.record hget).keyed

namespace Keyed

variable {s : ContinuousScheduler}

theorem ids_eq_keys (h : Keyed s) :
    (s.requests.values.map fun state => state.spec.id) = s.requests.keys := by
  rw [SortedMap.values, SortedMap.keys, List.map_map]
  refine List.map_congr_left fun entry hentry => ?_
  exact h _ _ (SortedMap.get?_eq_some_iff.mpr hentry)

theorem nodup_ids (h : Keyed s) :
    (s.requests.values.map fun state => state.spec.id).Nodup :=
  h.ids_eq_keys ▸ s.requests.nodup_keys

theorem mem_values (h : Keyed s) {state : RequestState} :
    state ∈ s.requests.values ↔ s.requests.get? state.spec.id = some state := by
  rw [SortedMap.mem_values_iff]
  constructor
  · rintro ⟨id, hget⟩
    rwa [h _ _ hget]
  · exact fun hget => ⟨_, hget⟩

theorem nodup_dueIds (h : Keyed s) (nowNs : Nat) : (dueIds s nowNs).Nodup :=
  h.nodup_ids.sublist (List.filter_sublist.map _)

theorem mem_dueIds (h : Keyed s) {nowNs : Nat} {id : RequestId} :
    id ∈ dueIds s nowNs ↔
      ∃ state, s.requests.get? id = some state ∧ deadlinePassed nowNs state := by
  simp only [dueIds, List.mem_map, List.mem_filter, h.mem_values]
  constructor
  · rintro ⟨state, ⟨hget, hdue⟩, rfl⟩
    exact ⟨state, hget, hdue⟩
  · rintro ⟨state, hget, hdue⟩
    obtain rfl := h _ _ hget
    exact ⟨state, ⟨hget, hdue⟩, rfl⟩

theorem nodup_selectBatchIds (h : Keyed s) (nowNs limit : Nat) :
    (selectBatchIds s nowNs limit).Nodup := by
  have hperm := List.perm_insertionSort
    (fun left right => compareRequests s.policy nowNs left right ≠ .gt)
    (s.requests.values.filter fun state => state.status = .queued)
  have hfilter := h.nodup_ids.sublist
    ((List.filter_sublist (p := fun state : RequestState => state.status = .queued)).map _)
  exact ((hperm.map _).nodup_iff.mpr hfilter).sublist ((List.take_sublist _ _).map _)

theorem mem_selectBatchIds (h : Keyed s) {nowNs limit : Nat} {id : RequestId}
    (hid : id ∈ selectBatchIds s nowNs limit) :
    ∃ state, s.requests.get? id = some state ∧ state.status = .queued := by
  obtain ⟨state, hstate, rfl⟩ := List.mem_map.mp hid
  have hsorted := (List.mem_insertionSort _).mp (List.mem_of_mem_take hstate)
  obtain ⟨hvalue, hqueued⟩ := List.mem_filter.mp hsorted
  exact ⟨state, h.mem_values.mp hvalue, by simpa using hqueued⟩

end Keyed

theorem length_selectBatchIds_le (s : ContinuousScheduler) (nowNs limit : Nat) :
    (selectBatchIds s nowNs limit).length ≤ limit := by
  simp [selectBatchIds]

theorem dueIds_singleton {s : ContinuousScheduler} {id : RequestId} {state : RequestState}
    (hreq : s.requests = (∅ : SortedMap _ _).insert id state) (nowNs : Nat)
    (hdeadline : state.spec.deadlineNs = none) : dueIds s nowNs = [] := by
  simp [dueIds, hreq, deadlinePassed, hdeadline]

theorem selectBatchIds_singleton {s : ContinuousScheduler} {id : RequestId}
    {state : RequestState} (hreq : s.requests = (∅ : SortedMap _ _).insert id state)
    (hstatus : state.status = .queued) (nowNs limit : Nat) :
    selectBatchIds s nowNs (limit + 1) = [state.spec.id] := by
  simp [selectBatchIds, hreq, hstatus]

/-! ## Expiring deadlines -/

def expiredRecord (state : RequestState) : RequestState :=
  { state with status := .deadlineExpired, reservedKvBytes := 0 }

/-- The state after one expired request gave its reservation back. -/
def expiredState (s : ContinuousScheduler) (id : RequestId) (state : RequestState) :
    ContinuousScheduler :=
  { s with
    requests := s.requests.insert id (expiredRecord state)
    reservedKvBytes := s.reservedKvBytes - state.reservedKvBytes
    stats := { s.stats with expiredRequests := wrappingAdd 64 s.stats.expiredRequests 1 }
    expired := s.expired ++ [id] }

theorem expireOne_ends {s : ContinuousScheduler} {id : RequestId} {state : RequestState}
    (hget : s.requests.get? id = some state) :
    (expireOne id).Ends s (fun _ s' => s' = expiredState s id state)
      (fun fault _ => fault = .panic ∧ s.reservedKvBytes < state.reservedKvBytes) := by
  simp [expireOne, hget, release_ends, releasedState, expiredState, expiredRecord]

theorem Coherent.expired {s : ContinuousScheduler} {id : RequestId} {state : RequestState}
    (h : Coherent s) (hget : s.requests.get? id = some state) (hqueued : state.status = .queued) :
    Coherent (expiredState s id state) := by
  have hrecord := h.record hget
  refine h.update rfl rfl (fun _ _ => rfl) ?_ h.emitted
  rw [show (expiredState s id state).running = s.running from rfl,
    h.not_running hget (by simp [hqueued])]
  exact ⟨⟨hrecord.keyed, fun _ => rfl, fun _ => hrecord.priority (by simp [hqueued]),
    by simp [expiredRecord, RequestStatus.isTerminal],
    by simp [expiredRecord, RequestStatus.isTerminal]⟩, by simp [expiredRecord]⟩

theorem Inv.expired {s : ContinuousScheduler} {id : RequestId} {state : RequestState} (h : Inv s)
    (hget : s.requests.get? id = some state) (hqueued : state.status = .queued) :
    Inv (expiredState s id state) := by
  have hle := h.reserved_le hget
  refine h.update (h.toCoherent.expired hget hqueued) hget rfl rfl ?_ (Nat.zero_le _) ?_
  · simp only [expiredState, expiredRecord]
    omega
  · simp [hqueued, RequestStatus.isTerminal]

/-- What expiring a list of requests changes. -/
structure ExpiredBy (ids : List RequestId) (s s' : ContinuousScheduler) : Prop where
  policy : s'.policy = s.policy
  running : s'.running = s.running
  nextSequence : s'.nextSequence = s.nextSequence
  expired : s'.expired = s.expired ++ ids
  stats : s'.stats = { s.stats with expiredRequests := s'.stats.expiredRequests }
  requests : ∀ id, s'.requests.get? id =
    if id ∈ ids then (s.requests.get? id).map expiredRecord else s.requests.get? id

/-- The requests of a list are queued. -/
def AllQueued (s : ContinuousScheduler) (ids : List RequestId) : Prop :=
  ∀ id ∈ ids, ∃ state, s.requests.get? id = some state ∧ state.status = .queued

theorem AllQueued.tail {s s' : ContinuousScheduler} {id : RequestId} {ids : List RequestId}
    {state : RequestState} (h : AllQueued s (id :: ids)) (hfresh : id ∉ ids)
    (hreq : s'.requests = s.requests.insert id state) : AllQueued s' ids := by
  intro id' hid'
  have hne : id' ≠ id := fun heq => hfresh (heq ▸ hid')
  rw [hreq, SortedMap.get?_insert_of_ne hne]
  exact h id' (List.mem_cons_of_mem _ hid')

/-- Expiring queued requests keeps what expiring one keeps, and fails only as one fails. -/
theorem forM_expireOne_ends {P : ContinuousScheduler → Prop}
    {E : Fault SchedulerError → ContinuousScheduler → Prop} {ids : List RequestId}
    {s : ContinuousScheduler} (h : P s)
    (hkeeps : ∀ s id state, P s → s.requests.get? id = some state → state.status = .queued →
      P (expiredState s id state))
    (hfails : ∀ s id state s', P s → s.requests.get? id = some state →
      s.reservedKvBytes < state.reservedKvBytes → E .panic s')
    (hnodup : ids.Nodup) (hids : AllQueued s ids) :
    (forM ids expireOne).Ends s (fun _ s' => P s' ∧ ExpiredBy ids s s') E := by
  induction ids generalizing s with
  | nil =>
    refine ⟨h, ⟨rfl, rfl, rfl, by simp, rfl, by simp⟩⟩
  | cons id ids ih =>
    obtain ⟨hfresh, hnodup⟩ := List.nodup_cons.mp hnodup
    obtain ⟨state, hget, hqueued⟩ := hids id List.mem_cons_self
    simp only [List.forM_cons, ends_bind]
    refine (expireOne_ends hget).mono ?_ ?_
    · rintro _ _ rfl
      refine (ih (hkeeps s id state h hget hqueued) hnodup (hids.tail hfresh rfl)).mono ?_
        (fun _ _ hf => hf)
      rintro _ s' ⟨hkept, hby⟩
      refine ⟨hkept, hby.policy, hby.running, hby.nextSequence, ?_, ?_, ?_⟩
      · rw [hby.expired]
        simp [expiredState]
      · rw [hby.stats]
        rfl
      · intro id'
        rw [hby.requests]
        by_cases hid : id' = id
        · simp [hid, hfresh, hget, expiredState]
        · simp [hid, expiredState, SortedMap.get?_insert_of_ne hid]
    · rintro _ _ ⟨rfl, hlt⟩
      exact hfails s id state _ h hget hlt

theorem Keyed.allQueued_dueIds {s : ContinuousScheduler} (h : Keyed s) (nowNs : Nat) :
    AllQueued s (dueIds s nowNs) := by
  intro id hid
  obtain ⟨state, hget, hdue⟩ := h.mem_dueIds.mp hid
  refine ⟨state, hget, ?_⟩
  simp only [deadlinePassed, Bool.and_eq_true, decide_eq_true_eq] at hdue
  exact hdue.1

theorem expireDeadlines_ends {s : ContinuousScheduler} (h : Coherent s) (nowNs : Nat) :
    (expireDeadlines nowNs).Ends s
      (fun _ s' => Coherent s' ∧ ExpiredBy (dueIds s nowNs) s s')
      (fun fault _ => fault = .panic) := by
  simp only [expireDeadlines, ends_bind, ends_get]
  exact forM_expireOne_ends h (fun _ _ _ => Coherent.expired) (fun _ _ _ _ _ _ _ => rfl)
    (h.keyed.nodup_dueIds nowNs) (h.keyed.allQueued_dueIds nowNs)

theorem Inv.expireDeadlines {s : ContinuousScheduler} (h : Inv s) (nowNs : Nat) :
    (expireDeadlines nowNs).Ends s (fun _ s' => Inv s') (fun _ _ => False) := by
  simp only [Scheduler.expireDeadlines, ends_bind, ends_get]
  refine (forM_expireOne_ends h (fun _ _ _ => Inv.expired) ?_ (h.keyed.nodup_dueIds nowNs)
    (h.keyed.allQueued_dueIds nowNs)).mono (fun _ _ hq => hq.1) fun _ _ hf => hf
  exact fun _ _ _ _ hinv hget hlt => absurd (hinv.reserved_le hget) (not_le.mpr hlt)

/-! ## Opening quanta -/

def startedRecord (state : RequestState) : RequestState := { state with status := .running }

def openDispatch (policy : SchedulerPolicy) (nowNs : Nat) (id : RequestId)
    (state : RequestState) : Dispatch :=
  ⟨id, (nextQuantum policy state).1, nowNs, (nextQuantum policy state).2⟩

/-- The state after one queued request was put to work. -/
def startedState (s : ContinuousScheduler) (nowNs : Nat) (id : RequestId)
    (state : RequestState) : ContinuousScheduler :=
  { s with
    requests := s.requests.insert id (startedRecord state)
    running := s.running.insert id (openDispatch s.policy nowNs id state) }

theorem nextQuantum_lt (policy : SchedulerPolicy) (state : RequestState) :
    (nextQuantum policy state).1 < 2 ^ 32 := by
  unfold nextQuantum
  split_ifs
  · exact lt_of_le_of_lt (min_le_right _ _) policy.prefillChunkTokens.isLt
  · exact lt_of_le_of_lt (min_le_right _ _) policy.serviceQuantumTokens.isLt

theorem startOne_ends {s : ContinuousScheduler} {nowNs : Nat} {id : RequestId}
    {state : RequestState} (hget : s.requests.get? id = some state) :
    (startOne nowNs id).Ends s
      (fun dispatch s' => dispatch = openDispatch s.policy nowNs id state ∧
        s' = startedState s nowNs id state) (fun _ _ => False) := by
  have hlt := nextQuantum_lt s.policy state
  have hfits : tryFrom 32 (nextQuantum s.policy state).1 = some (nextQuantum s.policy state).1 :=
    tryFrom_eq_some.mpr ⟨hlt, rfl⟩
  simp only [startOne, ends_bind, ends_get, hget, ends_orPanic, ends_orErr, hfits, ends_set,
    ends_pure, Option.some.injEq, forall_eq', reduceCtorEq, false_implies, and_true]
  exact ⟨rfl, rfl⟩

theorem openDispatch_ok {policy : SchedulerPolicy} {state : RequestState} (nowNs : Nat)
    (id : RequestId) (hpolicy : PolicyOk policy) (hpos : 1 ≤ state.remainingTokens) :
    DispatchOk policy id state (openDispatch policy nowNs id state) := by
  have hchunk := hpolicy.chunk
  have hservice := hpolicy.service
  by_cases hprefill : 0 < state.remainingPrefillTokens
  · refine ⟨rfl, ?_, ?_, ?_⟩
    · simp only [openDispatch, nextQuantum, hprefill, if_true]
      omega
    · simp [openDispatch, nextQuantum, hprefill]
    · simp [openDispatch, nextQuantum, hprefill]
  · refine ⟨rfl, ?_, ?_, ?_⟩
    · simp only [openDispatch, nextQuantum, hprefill, if_false]
      omega
    · simp [openDispatch, nextQuantum, hprefill]
    · simp [openDispatch, nextQuantum, hprefill]

theorem Coherent.started {s : ContinuousScheduler} {nowNs : Nat} {id : RequestId}
    {state : RequestState} (h : Coherent s) (hget : s.requests.get? id = some state)
    (hqueued : state.status = .queued) : Coherent (startedState s nowNs id state) := by
  have hrecord := h.record hget
  have hlive : ¬ state.status.isTerminal := by simp [hqueued, RequestStatus.isTerminal]
  have hpos := hrecord.runnable hlive
  refine h.update rfl rfl (fun id' hid' => SortedMap.get?_insert_of_ne hid') ?_ h.emitted
  have hrun : (startedState s nowNs id state).running.get? id =
      some (openDispatch s.policy nowNs id state) := SortedMap.get?_insert_self _ _ _
  have hopen := openDispatch_ok nowNs id h.policy hpos
  rw [hrun]
  exact ⟨⟨hrecord.keyed, by simp [startedRecord, RequestStatus.isTerminal],
    fun _ => hrecord.priority (by simp [hqueued]), fun _ => hrecord.tokens hlive,
    fun _ => hpos⟩, rfl, ⟨hopen.keyed, hopen.pos, hopen.prefill, hopen.decode⟩⟩

theorem Inv.started {s : ContinuousScheduler} {nowNs : Nat} {id : RequestId}
    {state : RequestState} (h : Inv s) (hget : s.requests.get? id = some state)
    (hqueued : state.status = .queued) : Inv (startedState s nowNs id state) := by
  refine h.update (h.toCoherent.started hget hqueued) hget rfl rfl rfl le_rfl ?_
  simp [hqueued, RequestStatus.isTerminal]

/-- What opening one quantum for each of a list of requests changes. -/
structure StartedBy (nowNs : Nat) (ids : List RequestId) (s s' : ContinuousScheduler)
    (batch : List Dispatch) : Prop where
  policy : s'.policy = s.policy
  reserved : s'.reservedKvBytes = s.reservedKvBytes
  nextSequence : s'.nextSequence = s.nextSequence
  expired : s'.expired = s.expired
  stats : s'.stats = s.stats
  requests : ∀ id, s'.requests.get? id =
    if id ∈ ids then (s.requests.get? id).map startedRecord else s.requests.get? id
  running : ∀ id, s'.running.get? id =
    if id ∈ ids then (s.requests.get? id).map (openDispatch s.policy nowNs id)
    else s.running.get? id
  batch_ids : batch.map Dispatch.requestId = ids
  batch_running : ∀ dispatch ∈ batch, s'.running.get? dispatch.requestId = some dispatch

/-- Opening quanta for queued requests keeps what opening one keeps, and does not fail. -/
theorem startBatch_ends {P : ContinuousScheduler → Prop} {ids : List RequestId}
    {s : ContinuousScheduler} {nowNs : Nat} (h : P s)
    (hkeeps : ∀ s id state, P s → s.requests.get? id = some state → state.status = .queued →
      P (startedState s nowNs id state))
    (hnodup : ids.Nodup) (hids : AllQueued s ids) :
    (startBatch ids nowNs).Ends s
      (fun batch s' => P s' ∧ StartedBy nowNs ids s s' batch) (fun _ _ => False) := by
  unfold startBatch
  induction ids generalizing s with
  | nil =>
    exact ⟨h, ⟨rfl, rfl, rfl, rfl, rfl, by simp, by simp, rfl, by simp⟩⟩
  | cons id ids ih =>
    obtain ⟨hfresh, hnodup⟩ := List.nodup_cons.mp hnodup
    obtain ⟨state, hget, hqueued⟩ := hids id List.mem_cons_self
    simp only [List.mapM', ends_bind, ends_pure]
    refine (startOne_ends hget).mono ?_ (fun _ _ hf => hf)
    rintro _ _ ⟨rfl, rfl⟩
    have hrest : ∀ id', id' ≠ id → (startedState s nowNs id state).requests.get? id' =
        s.requests.get? id' := fun id' => SortedMap.get?_insert_of_ne
    have hrun : ∀ id', id' ≠ id → (startedState s nowNs id state).running.get? id' =
        s.running.get? id' := fun id' => SortedMap.get?_insert_of_ne
    refine (ih (hkeeps s id state h hget hqueued) hnodup (hids.tail hfresh rfl)).mono ?_ (fun _ _ hf => hf)
    rintro batch s' ⟨hkept, hby⟩
    have hhead : s'.running.get? id = some (openDispatch s.policy nowNs id state) := by
      rw [hby.running, if_neg hfresh]
      exact SortedMap.get?_insert_self _ _ _
    refine ⟨hkept, hby.policy, hby.reserved, hby.nextSequence, hby.expired, hby.stats, ?_, ?_,
      ?_, ?_⟩
    · intro id'
      rw [hby.requests]
      by_cases hid : id' = id
      · simp [hid, hfresh, hget, startedState]
      · simp [hid, hrest id' hid]
    · intro id'
      by_cases hid : id' = id
      · subst hid
        simp [hhead, hget]
      · rw [hby.running]
        rw [hrest id' hid, hrun id' hid]
        simp [hid, startedState]
    · simp [hby.batch_ids, openDispatch]
    · intro dispatch hmem
      rcases List.mem_cons.mp hmem with rfl | hmem
      · exact hhead
      · exact hby.batch_running dispatch hmem

theorem Inv.startBatch {ids : List RequestId} {s : ContinuousScheduler} {nowNs : Nat}
    (h : Inv s) (hnodup : ids.Nodup) (hids : AllQueued s ids) :
    (startBatch ids nowNs).Ends s (fun _ s' => Inv s') (fun _ _ => False) :=
  (startBatch_ends h (fun _ _ _ => Inv.started) hnodup hids).mono (fun _ _ hq => hq.1)
    fun _ _ hf => hf

/-! ## One dispatch -/

/-- The state with a batch counted. An empty batch is not counted. -/
def countedState (s : ContinuousScheduler) (batch : List Dispatch) : ContinuousScheduler :=
  if batch = [] then s
  else { s with stats := { s.stats with
    dispatchedBatches := wrappingAdd 64 s.stats.dispatchedBatches 1
    dispatchedQuanta := s.stats.dispatchedQuanta + batch.length
    maxBatchWidth := max s.stats.maxBatchWidth batch.length } }

/-- The state left when the quantum counter has no room for the batch that was opened. -/
def uncountedState (s : ContinuousScheduler) : ContinuousScheduler :=
  { s with stats := { s.stats with
    dispatchedBatches := wrappingAdd 64 s.stats.dispatchedBatches 1 } }

theorem recordBatchDispatch_ends {s : ContinuousScheduler} {batch : List Dispatch}
    (hlength : batch.length < 2 ^ 32) :
    (recordBatchDispatch batch).Ends s
      (fun _ s' => s' = countedState s batch ∧
        (batch ≠ [] → s.stats.dispatchedQuanta + batch.length < 2 ^ 64))
      (fun fault s' => fault = .error .accountingOverflow ∧ s' = uncountedState s ∧
        batch ≠ [] ∧ 2 ^ 64 ≤ s.stats.dispatchedQuanta + batch.length) := by
  have hwide : tryFrom 64 batch.length = some batch.length :=
    tryFrom_eq_some.mpr ⟨hlength.trans (by decide), rfl⟩
  have hwidth : tryFrom 32 batch.length = some batch.length :=
    tryFrom_eq_some.mpr ⟨hlength, rfl⟩
  by_cases hempty : batch = []
  · subst hempty
    simp [recordBatchDispatch, countedState]
  · simp only [recordBatchDispatch, List.isEmpty_iff, hempty, if_false, ends_bind, ends_modify,
      ends_get, ends_orErr, hwide, hwidth, Option.getD_some, checkedAdd_eq_some,
      checkedAdd_eq_none, countedState, and_imp]
    refine ⟨?_, fun hover => ⟨trivial, rfl, hempty, hover⟩⟩
    rintro _ hlt rfl
    exact ⟨rfl, fun _ => hlt⟩

/-- What a dispatch that returns did, through the states after its two loops. -/
structure DispatchReturns (s : ContinuousScheduler) (nowNs limit : Nat) (batch : List Dispatch)
    (s' expired started : ContinuousScheduler) : Prop where
  idle : s.running.isEmpty
  limit_ne : limit ≠ 0
  expired_coherent : Coherent expired
  expire : ExpiredBy (dueIds s nowNs) s expired
  start : StartedBy nowNs (selectBatchIds expired nowNs (batchLimit s limit)) expired started batch
  fits : batch ≠ [] → started.stats.dispatchedQuanta + batch.length < 2 ^ 64
  state_eq : s' = countedState started batch

/-- Why a dispatch can fail, and the state it leaves. An exhausted counter leaves the batch open. -/
inductive DispatchFails (s : ContinuousScheduler) (nowNs limit : Nat) :
    Fault SchedulerError → ContinuousScheduler → Prop
  | inFlight (h : ¬ s.running.isEmpty) : DispatchFails s nowNs limit (.error .dispatchInFlight) s
  | zeroLimit (h : limit = 0) : DispatchFails s nowNs limit
      (.error (.invalidPolicy "dispatch batch limit must be nonzero")) s
  | overflow (expired started : ContinuousScheduler) (batch : List Dispatch)
      (hidle : s.running.isEmpty) (hlimit : limit ≠ 0) (hcoh : Coherent expired)
      (he : ExpiredBy (dueIds s nowNs) s expired)
      (hs : StartedBy nowNs (selectBatchIds expired nowNs (batchLimit s limit)) expired started
        batch)
      (hbatch : batch ≠ [])
      (ho : 2 ^ 64 ≤ started.stats.dispatchedQuanta + batch.length) :
      DispatchFails s nowNs limit (.error .accountingOverflow) (uncountedState started)

theorem StartedBy.length_lt {s s' expired : ContinuousScheduler} {nowNs limit : Nat}
    {batch : List Dispatch}
    (h : StartedBy nowNs (selectBatchIds expired nowNs (batchLimit s limit)) expired s' batch) :
    batch.length < 2 ^ 32 := by
  have hlength : batch.length = (selectBatchIds expired nowNs (batchLimit s limit)).length := by
    rw [← h.batch_ids, List.length_map]
  have hle := length_selectBatchIds_le expired nowNs (batchLimit s limit)
  have hmax : batchLimit s limit ≤ s.policy.maxBatchRequests := min_le_right _ _
  have hlt := s.policy.maxBatchRequests.isLt
  omega

/-- What the two loops of a dispatch do to the statuses. -/
structure Dispatched (due : List RequestId) (batch : List Dispatch)
    (s s' : ContinuousScheduler) : Prop where
  due_status : ∀ id ∈ due, s.status id = some .queued ∧ s'.status id = some .deadlineExpired
  batch_status : ∀ dispatch ∈ batch, s.status dispatch.requestId = some .queued ∧
    s'.status dispatch.requestId = some .running ∧
    s'.running.get? dispatch.requestId = some dispatch
  rest : ∀ id, id ∉ due → id ∉ batch.map Dispatch.requestId → s'.status id = s.status id
  disjoint : ∀ id ∈ due, id ∉ batch.map Dispatch.requestId
  nodup_due : due.Nodup
  nodup_batch : (batch.map Dispatch.requestId).Nodup
  expired : s'.expired = s.expired ++ due

theorem StartedBy.dispatched {s expired started : ContinuousScheduler} {nowNs n : Nat}
    {batch : List Dispatch} (h : Coherent s) (hcoh : Coherent expired)
    (he : ExpiredBy (dueIds s nowNs) s expired)
    (hs : StartedBy nowNs (selectBatchIds expired nowNs n) expired started batch) :
    Dispatched (dueIds s nowNs) batch s started := by
  have hdue : ∀ id ∈ dueIds s nowNs, s.status id = some .queued ∧
      expired.status id = some .deadlineExpired := by
    intro id hid
    obtain ⟨state, hget, hpassed⟩ := h.keyed.mem_dueIds.mp hid
    simp only [deadlinePassed, Bool.and_eq_true, decide_eq_true_eq] at hpassed
    have hget' := he.requests id
    rw [if_pos hid, hget] at hget'
    exact ⟨by simp [ContinuousScheduler.status, hget, hpassed.1],
      by simp [ContinuousScheduler.status, hget', expiredRecord]⟩
  have hselected : ∀ id ∈ selectBatchIds expired nowNs n, expired.status id = some .queued ∧
      started.status id = some .running := by
    intro id hid
    obtain ⟨state, hget, hqueued⟩ := hcoh.keyed.mem_selectBatchIds hid
    have hget' := hs.requests id
    rw [if_pos hid, hget] at hget'
    exact ⟨by simp [ContinuousScheduler.status, hget, hqueued],
      by simp [ContinuousScheduler.status, hget', startedRecord]⟩
  have hdisjoint : ∀ id ∈ dueIds s nowNs, id ∉ selectBatchIds expired nowNs n := by
    intro id hid hsel
    have hboth := (hdue id hid).2.symm.trans (hselected id hsel).1
    simp at hboth
  have hkept : ∀ id, id ∉ selectBatchIds expired nowNs n →
      started.status id = expired.status id := by
    intro id hid
    rw [ContinuousScheduler.status, hs.requests, if_neg hid]
    rfl
  have hkept' : ∀ id, id ∉ dueIds s nowNs → expired.status id = s.status id := by
    intro id hid
    rw [ContinuousScheduler.status, he.requests, if_neg hid]
    rfl
  have hmem : ∀ dispatch ∈ batch, dispatch.requestId ∈ selectBatchIds expired nowNs n :=
    fun dispatch hd => hs.batch_ids ▸ List.mem_map_of_mem hd
  refine ⟨fun id hid => ?_, fun dispatch hd => ?_, fun id hid hsel => ?_, ?_, h.keyed.nodup_dueIds nowNs,
    ?_, ?_⟩
  · exact ⟨(hdue id hid).1, (hkept id (hdisjoint id hid)).trans (hdue id hid).2⟩
  · have hsel := hselected _ (hmem dispatch hd)
    have hnot : dispatch.requestId ∉ dueIds s nowNs := fun hid =>
      hdisjoint _ hid (hmem dispatch hd)
    exact ⟨(hkept' _ hnot).symm.trans hsel.1, hsel.2, hs.batch_running dispatch hd⟩
  · rw [hs.batch_ids] at hsel
    exact (hkept id hsel).trans (hkept' id hid)
  · rw [hs.batch_ids]
    exact hdisjoint
  · rw [hs.batch_ids]
    exact hcoh.keyed.nodup_selectBatchIds _ _
  · rw [hs.expired, he.expired]

/-- The number of requests that a dispatch at `nowNs` opens. -/
def batchWidth (s : ContinuousScheduler) (nowNs limit : Nat) : Nat :=
  min (batchLimit s limit)
    (s.requests.countBy fun state => state.status = .queued && !deadlinePassed nowNs state)

theorem StartedBy.length_eq {s expired started : ContinuousScheduler} {nowNs limit : Nat}
    {batch : List Dispatch} (h : Keyed s) (he : ExpiredBy (dueIds s nowNs) s expired)
    (hs : StartedBy nowNs (selectBatchIds expired nowNs (batchLimit s limit)) expired started
      batch) : batch.length = batchWidth s nowNs limit := by
  have hcount : (expired.requests.countBy fun state => state.status = .queued) =
      s.requests.countBy fun state => state.status = .queued && !deadlinePassed nowNs state := by
    refine SortedMap.countBy_congr fun id => ?_
    rw [he.requests]
    split_ifs with hid
    · obtain ⟨state, hget, hdue⟩ := h.mem_dueIds.mp hid
      simp [hget, hdue, expiredRecord]
    · cases hget : s.requests.get? id with
      | none => rfl
      | some state =>
        have hnot : deadlinePassed nowNs state = false := by
          by_contra hdue
          exact hid (h.mem_dueIds.mpr ⟨state, hget, by simpa using hdue⟩)
        simp [hnot]
  rw [← List.length_map Dispatch.requestId, hs.batch_ids, selectBatchIds, List.length_map,
    List.length_take, List.length_insertionSort, batchWidth, ← hcount, SortedMap.countBy,
    List.countP_eq_length_filter]

/-- Counting a batch changes statistics only. -/
theorem countedState_same (s : ContinuousScheduler) (batch : List Dispatch) :
    (countedState s batch).requests = s.requests ∧ (countedState s batch).running = s.running ∧
      (countedState s batch).expired = s.expired := by
  unfold countedState
  split_ifs <;> exact ⟨rfl, rfl, rfl⟩

theorem DispatchReturns.dispatched {s s' expired started : ContinuousScheduler}
    {nowNs limit : Nat} {batch : List Dispatch} (h : Coherent s)
    (hr : DispatchReturns s nowNs limit batch s' expired started) :
    Dispatched (dueIds s nowNs) batch s s' := by
  have hstarted := hr.start.dispatched h hr.expired_coherent hr.expire
  obtain ⟨hreq, hrun, hexpired⟩ := countedState_same started batch
  rw [← hr.state_eq] at hreq hrun hexpired
  have hstatus (id : RequestId) : s'.status id = started.status id := by
    rw [ContinuousScheduler.status, hreq]
    rfl
  refine ⟨fun id hid => ?_, fun dispatch hd => ?_, fun id hdue hbatch => ?_, hstarted.disjoint,
    hstarted.nodup_due, hstarted.nodup_batch, hexpired.trans hstarted.expired⟩
  · rw [hstatus]
    exact hstarted.due_status id hid
  · rw [hstatus, hrun]
    exact hstarted.batch_status dispatch hd
  · rw [hstatus]
    exact hstarted.rest id hdue hbatch

theorem Keyed.allQueued_selectBatchIds {s : ContinuousScheduler} (h : Keyed s)
    (nowNs limit : Nat) : AllQueued s (selectBatchIds s nowNs limit) :=
  fun _ hid => h.mem_selectBatchIds hid

theorem dispatchBatch_ends {s : ContinuousScheduler} (h : Coherent s) (nowNs limit : Nat) :
    (dispatchBatch nowNs limit).Ends s
      (fun batch s' => Coherent s' ∧
        ∃ expired started, DispatchReturns s nowNs limit batch s' expired started)
      (fun fault s' => fault = .panic ∨ Coherent s' ∧ DispatchFails s nowNs limit fault s') := by
  simp only [dispatchBatch, ends_bind, ends_get, ends_ensure]
  refine ⟨fun hidle => ⟨fun hlimit => ?_, fun hlimit => ?_⟩,
    fun hbusy => .inr ⟨h, .inFlight hbusy⟩⟩
  · refine (expireDeadlines_ends h nowNs).mono ?_ (fun _ _ hf => .inl hf)
    rintro _ expired ⟨hcoh, hexpire⟩
    refine (startBatch_ends hcoh (fun _ _ _ => Coherent.started) (hcoh.keyed.nodup_selectBatchIds _ _)
      (hcoh.keyed.allQueued_selectBatchIds _ _)).mono ?_ (fun _ _ hf => hf.elim)
    rintro batch started ⟨hcoh', hstart⟩
    rw [hexpire.policy] at hstart
    refine (recordBatchDispatch_ends hstart.length_lt).mono ?_ ?_
    · rintro _ _ ⟨rfl, hfits⟩
      refine ⟨?_, expired, started, hidle, hlimit, hcoh, hexpire, hstart, hfits, rfl⟩
      unfold countedState
      split_ifs
      · exact hcoh'
      · exact hcoh'.congr rfl rfl rfl rfl
    · rintro _ _ ⟨rfl, rfl, hbatch, hover⟩
      exact .inr ⟨hcoh'.congr rfl rfl rfl rfl,
        .overflow expired started batch hidle hlimit hcoh hexpire hstart hbatch hover⟩
  · exact .inr ⟨h, .zeroLimit (not_not.mp hlimit)⟩

theorem recordBatchDispatch_keeps {s : ContinuousScheduler} (h : Inv s) (batch : List Dispatch) :
    (recordBatchDispatch batch).Ends s (fun _ s' => Inv s')
      (fun fault s' => Inv s' ∧ fault ≠ .panic) := by
  by_cases hempty : batch = []
  · subst hempty
    exact h
  · simp only [recordBatchDispatch, List.isEmpty_iff, hempty, if_false, ends_bind, ends_modify,
      ends_get, ends_orErr]
    refine ⟨fun _ _ => h.congr rfl rfl rfl rfl rfl, fun _ => ⟨h.congr rfl rfl rfl rfl rfl, ?_⟩⟩
    simp

/-- A dispatch keeps the invariant and does not panic. -/
theorem Inv.dispatchBatch {s : ContinuousScheduler} (h : Inv s) (nowNs limit : Nat) :
    (dispatchBatch nowNs limit).Ends s (fun _ s' => Inv s')
      (fun fault s' => Inv s' ∧ fault ≠ .panic) := by
  simp only [Scheduler.dispatchBatch, ends_bind, ends_get, ends_ensure, ends_pure]
  refine ⟨fun _ => ⟨fun _ => ?_, fun _ => ⟨h, by simp⟩⟩, fun _ => ⟨h, by simp⟩⟩
  refine (h.expireDeadlines nowNs).mono ?_ (fun _ _ hf => hf.elim)
  intro _ expired hexpired
  refine (hexpired.startBatch (hexpired.keyed.nodup_selectBatchIds _ _)
    (hexpired.keyed.allQueued_selectBatchIds _ _)).mono ?_ (fun _ _ hf => hf.elim)
  intro batch started hstarted
  exact recordBatchDispatch_keeps hstarted batch

end Leone.Scheduler

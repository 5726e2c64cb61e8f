import Leone.Scheduler.Numbered

/-!
# What a dispatch selects

On the queued requests the comparison is a strict total order, so a dispatch opens quanta for the
least of them, in that order. Their identities play no part.
-/

namespace Leone.Scheduler

open Framework Framework.Method

/-- A relation that orders the elements with a property strictly and totally. -/
structure StrictTotalOn {α : Type*} (P : α → Prop) (before : α → α → Prop) : Prop where
  irrefl : ∀ a, ¬ before a a
  trans : ∀ a b c, before a b → before b c → before a c
  total : ∀ a b, P a → P b → a ≠ b → before a b ∨ before b a

/-- Comparing by a key orders strictly and totally wherever the key is injective. -/
theorem StrictTotalOn.of_key {α β : Type*} [LinearOrder β] {P : α → Prop}
    {before : α → α → Prop} (key : α → β) (hkey : ∀ a b, before a b ↔ key a < key b)
    (hinj : ∀ a b, P a → P b → key a = key b → a = b) : StrictTotalOn P before where
  irrefl a := by rw [hkey]; exact lt_irrefl _
  trans a b c := by simp only [hkey]; exact lt_trans
  total a b ha hb hne := by
    simp only [hkey]
    exact lt_or_gt_of_ne fun heq => hne (hinj a b ha hb heq)

/-- A request that is stored and waits for a dispatch. -/
def Queued (s : ContinuousScheduler) (state : RequestState) : Prop :=
  s.requests.get? state.spec.id = some state ∧ state.status = .queued

def Before (policy : SchedulerPolicy) (nowNs : Nat) (left right : RequestState) : Prop :=
  compareRequests policy nowNs left right = .lt

theorem before_iff {policy : SchedulerPolicy} {nowNs : Nat} {left right : RequestState} :
    Before policy nowNs left right ↔
      serviceKey policy nowNs left < serviceKey policy nowNs right := by
  rw [Before, compareRequests_eq, compare_lt_iff_lt]

/-- The sequence number is the last part of the key. -/
theorem sequence_of_serviceKey {policy : SchedulerPolicy} {nowNs : Nat}
    {left right : RequestState}
    (h : serviceKey policy nowNs left = serviceKey policy nowNs right) :
    left.sequence = right.sequence := by
  unfold serviceKey at h
  split_ifs at h <;> simp only [EmbeddingLike.apply_eq_iff_eq, Prod.mk.injEq] at h <;> simp_all

section Order

variable {s : ContinuousScheduler} {left right : RequestState}

theorem Numbered.sequence_inj (h : Numbered s) (hleft : Queued s left) (hright : Queued s right)
    (heq : left.sequence = right.sequence) : left = right := by
  have hlive : ∀ state : RequestState, state.status = .queued → ¬ state.status.isTerminal := by
    intro state hqueued
    simp [hqueued, RequestStatus.isTerminal]
  have hid := h.distinct _ _ _ _ hleft.1 hright.1 (hlive _ hleft.2) (hlive _ hright.2) heq
  have hget := hright.1
  rw [← hid, hleft.1] at hget
  exact Option.some.inj hget

theorem Numbered.strictTotal (h : Numbered s) (nowNs : Nat) :
    StrictTotalOn (Queued s) (Before s.policy nowNs) :=
  .of_key (serviceKey s.policy nowNs) (fun _ _ => before_iff)
    fun _ _ hleft hright hkey => h.sequence_inj hleft hright (sequence_of_serviceKey hkey)

theorem mem_serviceOrder (h : Keyed s) {nowNs : Nat} {state : RequestState} :
    state ∈ serviceOrder s nowNs ↔ Queued s state := by
  rw [serviceOrder, List.mem_insertionSort, List.mem_filter, h.mem_values, decide_eq_true_eq]
  rfl

theorem nodup_serviceOrder (h : Keyed s) (nowNs : Nat) : (serviceOrder s nowNs).Nodup := by
  have hvalues : s.requests.values.Nodup := List.Nodup.of_map _ h.nodup_ids
  exact (List.perm_insertionSort _ _).nodup_iff.mpr (hvalues.filter _)

/-- The key tells the requests of a service order apart. -/
theorem Numbered.serviceKey_inj (h : Numbered s) {policy : SchedulerPolicy} {nowNs nowNs' : Nat}
    (hleft : left ∈ serviceOrder s nowNs) (hright : right ∈ serviceOrder s nowNs)
    (hkey : serviceKey policy nowNs' left = serviceKey policy nowNs' right) : left = right :=
  h.sequence_inj ((mem_serviceOrder h.keyed).mp hleft) ((mem_serviceOrder h.keyed).mp hright)
    (sequence_of_serviceKey hkey)

/-- The service order is strict. -/
theorem Numbered.pairwise_before (h : Numbered s) (nowNs : Nat) :
    (serviceOrder s nowNs).Pairwise (Before s.policy nowNs) := by
  have hsorted := (pairwise_serviceOrder s nowNs).and (nodup_serviceOrder h.keyed nowNs)
  apply hsorted.imp_of_mem
  intro left right hleft hright hpair
  rw [before_iff]
  apply lt_of_le_of_ne hpair.1
  intro hkey
  exact hpair.2 (h.serviceKey_inj hleft hright hkey)

end Order

/-! ## The selected requests -/

/-- The deadline of a request has not passed. -/
def InTime (nowNs : Nat) (state : RequestState) : Prop :=
  ∀ deadline ∈ state.spec.deadlineNs, nowNs < (deadline : Nat)

/-- A batch opens quanta for the least queued requests, in order. -/
structure MinimalBatch (s : ContinuousScheduler) (nowNs limit : Nat) (batch : List Dispatch) :
    Prop where
  length : batch.length = min (min limit s.policy.maxBatchRequests)
    (s.requests.countBy fun state => state.status = .queued && !deadlinePassed nowNs state)
  rows : ∃ rows : List RequestState,
    batch.map Dispatch.requestId = rows.map (fun row => row.spec.id) ∧
    rows.Pairwise (Before s.policy nowNs) ∧ (∀ row ∈ rows, Queued s row ∧ InTime nowNs row) ∧
    ∀ other, Queued s other → InTime nowNs other → other ∉ rows →
      ∀ row ∈ rows, Before s.policy nowNs row other

section Selected

variable {s expired : ContinuousScheduler} {nowNs : Nat} {state : RequestState}

theorem inTime_iff (hqueued : state.status = .queued) :
    InTime nowNs state ↔ deadlinePassed nowNs state = false := by
  cases hdeadline : state.spec.deadlineNs with
  | none => simp [InTime, deadlinePassed, hdeadline]
  | some deadline => simp [InTime, deadlinePassed, hdeadline, hqueued]

/-- The requests that stay queued while deadlines expire are the ones in time. -/
theorem queued_expired (h : Keyed s) (he : ExpiredBy (dueIds s nowNs) s expired) :
    Queued expired state ↔ Queued s state ∧ InTime nowNs state := by
  rw [Queued, Queued, he.requests]
  by_cases hdue : state.spec.id ∈ dueIds s nowNs
  · rw [if_pos hdue]
    obtain ⟨old, hold, hpassed⟩ := h.mem_dueIds.mp hdue
    rw [hold]
    constructor
    · intro hstate
      obtain ⟨hrecord, hqueued⟩ := hstate
      rw [← Option.some.inj hrecord] at hqueued
      cases hqueued
    · intro hstate
      obtain ⟨⟨hrecord, hqueued⟩, htime⟩ := hstate
      rw [Option.some.inj hrecord] at hpassed
      rw [inTime_iff hqueued, hpassed] at htime
      cases htime
  · rw [if_neg hdue]
    constructor
    · intro hstate
      refine ⟨hstate, (inTime_iff hstate.2).mpr ?_⟩
      by_contra hpassed
      exact hdue (h.mem_dueIds.mpr ⟨state, hstate.1, by simpa using hpassed⟩)
    · exact fun hstate => hstate.1

theorem Numbered.minimalBatch {started : ContinuousScheduler} {limit : Nat}
    {batch : List Dispatch} (h : Numbered s) (hexpired : Numbered expired)
    (he : ExpiredBy (dueIds s nowNs) s expired)
    (hs : StartedBy nowNs (selectBatchIds expired nowNs (batchLimit s limit)) expired started
      batch) : MinimalBatch s nowNs limit batch := by
  refine ⟨hs.length_eq h.keyed he, (serviceOrder expired nowNs).take (batchLimit s limit), ?_, ?_,
    ?_, ?_⟩
  · rw [hs.batch_ids, selectBatchIds_eq]
  · rw [← he.policy]
    exact (hexpired.pairwise_before nowNs).sublist (List.take_sublist _ _)
  · intro row hrow
    exact (queued_expired h.keyed he).mp
      ((mem_serviceOrder hexpired.keyed).mp (List.mem_of_mem_take hrow))
  · intro other hqueued htime hnot row hrow
    have hmem : other ∈ serviceOrder expired nowNs :=
      (mem_serviceOrder hexpired.keyed).mpr ((queued_expired h.keyed he).mpr ⟨hqueued, htime⟩)
    rw [← List.take_append_drop (batchLimit s limit) (serviceOrder expired nowNs),
      List.mem_append] at hmem
    have hpairs := hexpired.pairwise_before nowNs
    rw [← List.take_append_drop (batchLimit s limit) (serviceOrder expired nowNs),
      List.pairwise_append] at hpairs
    rw [← he.policy]
    exact hpairs.2.2 row hrow other (hmem.resolve_left hnot)

end Selected

/-! ## Other identities -/

def renameRecord (rename : RequestId → RequestId) (state : RequestState) : RequestState :=
  { state with spec := { state.spec with id := rename state.spec.id } }

/-- Two schedulers that hold the same requests under other identities. -/
structure Renamed (rename : RequestId → RequestId) (s t : ContinuousScheduler) : Prop where
  injective : Function.Injective rename
  policy : t.policy = s.policy
  requests : ∀ id, t.requests.get? (rename id) = (s.requests.get? id).map (renameRecord rename)
  only : ∀ id state, t.requests.get? id = some state → ∃ id', rename id' = id

section Rename

variable {rename : RequestId → RequestId} {s t : ContinuousScheduler} {state : RequestState}

theorem renameRecord_injective (h : Function.Injective rename) :
    Function.Injective (renameRecord rename) := by
  intro left right heq
  simp only [renameRecord, RequestState.mk.injEq, RequestSpec.mk.injEq] at heq
  cases left with
  | mk leftSpec =>
    cases right with
    | mk rightSpec =>
      cases leftSpec
      cases rightSpec
      simp_all only [RequestState.mk.injEq, RequestSpec.mk.injEq, and_true]
      exact h heq.1.1

theorem serviceKey_renameRecord (policy : SchedulerPolicy) (nowNs : Nat) (state : RequestState) :
    serviceKey policy nowNs (renameRecord rename state) = serviceKey policy nowNs state := rfl

theorem Renamed.get? (h : Renamed rename s t) {id : RequestId} {record : RequestState} :
    t.requests.get? id = some record ↔
      ∃ id' state, rename id' = id ∧ s.requests.get? id' = some state ∧
        renameRecord rename state = record := by
  constructor
  · intro hget
    obtain ⟨id', rfl⟩ := h.only id record hget
    rw [h.requests, Option.map_eq_some_iff] at hget
    obtain ⟨state, hstate, heq⟩ := hget
    exact ⟨id', state, rfl, hstate, heq⟩
  · intro hstate
    obtain ⟨id', state, rfl, hstate, rfl⟩ := hstate
    rw [h.requests, hstate]
    rfl

theorem Keyed.insert {s' : ContinuousScheduler} {id : RequestId} (h : Keyed s)
    (hreq : s'.requests = s.requests.insert id state) (hid : state.spec.id = id) : Keyed s' := by
  intro id' record hget
  rw [hreq] at hget
  by_cases heq : id' = id
  · subst heq
    rw [SortedMap.get?_insert_self] at hget
    rw [← Option.some.inj hget, hid]
  · rw [SortedMap.get?_insert_of_ne heq] at hget
    exact h id' record hget

theorem Renamed.keyed (h : Renamed rename s t) (hkeyed : Keyed s) : Keyed t := by
  intro id record hget
  obtain ⟨id', state, rfl, hstate, rfl⟩ := h.get?.mp hget
  exact congrArg rename (hkeyed id' state hstate)

theorem Renamed.queued (h : Renamed rename s t) (hkeyed : Keyed s) {record : RequestState} :
    Queued t record ↔ ∃ state, Queued s state ∧ renameRecord rename state = record := by
  rw [Queued, h.get?]
  constructor
  · intro hrecord
    obtain ⟨⟨id', state, -, hstate, rfl⟩, hqueued⟩ := hrecord
    have hid := hkeyed id' state hstate
    exact ⟨state, ⟨hid ▸ hstate, hqueued⟩, rfl⟩
  · intro hstate
    obtain ⟨state, ⟨hget, hqueued⟩, rfl⟩ := hstate
    exact ⟨⟨state.spec.id, state, rfl, hget, rfl⟩, hqueued⟩

/-- Expiring deadlines goes on alike under other identities. -/
theorem Renamed.expired {s' t' : ContinuousScheduler} {nowNs : Nat} (h : Renamed rename s t)
    (hkeyed : Keyed s) (hs : ExpiredBy (dueIds s nowNs) s s')
    (ht : ExpiredBy (dueIds t nowNs) t t') : Renamed rename s' t' := by
  have hdue : ∀ id, rename id ∈ dueIds t nowNs ↔ id ∈ dueIds s nowNs := by
    intro id
    rw [(h.keyed hkeyed).mem_dueIds, hkeyed.mem_dueIds, h.requests]
    cases s.requests.get? id with
    | none => simp
    | some state =>
      simp only [Option.map_some, Option.some.injEq, exists_eq_left']
      rfl
  refine ⟨h.injective, ?_, ?_, ?_⟩
  · rw [ht.policy, hs.policy, h.policy]
  · intro id
    rw [ht.requests, hs.requests, h.requests]
    simp only [hdue]
    split_ifs
    · cases s.requests.get? id <;> rfl
    · rfl
  · intro id record hrecord
    rw [ht.requests] at hrecord
    cases hget : t.requests.get? id with
    | none =>
      rw [hget, Option.map_none, ite_self] at hrecord
      cases hrecord
    | some old => exact h.only id old hget

/-- The service order is the same under other identities. -/
theorem Renamed.serviceOrder (h : Renamed rename s t) (hs : Numbered s) (nowNs : Nat) :
    Scheduler.serviceOrder t nowNs =
      (Scheduler.serviceOrder s nowNs).map (renameRecord rename) := by
  have hkeyed := h.keyed hs.keyed
  have hperm : (Scheduler.serviceOrder t nowNs).Perm
      ((Scheduler.serviceOrder s nowNs).map (renameRecord rename)) := by
    apply (List.perm_ext_iff_of_nodup (nodup_serviceOrder hkeyed nowNs)
      ((nodup_serviceOrder hs.keyed nowNs).map (renameRecord_injective h.injective))).mpr
    intro record
    rw [mem_serviceOrder hkeyed, h.queued hs.keyed, List.mem_map]
    simp only [mem_serviceOrder hs.keyed]
  have hsorted : ((Scheduler.serviceOrder s nowNs).map (renameRecord rename)).Pairwise
      fun left right => serviceKey t.policy nowNs left ≤ serviceKey t.policy nowNs right := by
    simp only [List.pairwise_map, serviceKey_renameRecord, h.policy]
    exact pairwise_serviceOrder s nowNs
  refine List.Perm.eq_of_pairwise ?_ (pairwise_serviceOrder t nowNs) hsorted hperm
  intro first second hfirst hsecond hle hge
  obtain ⟨left, hleft, rfl⟩ := List.mem_map.mp (hperm.mem_iff.mp hfirst)
  obtain ⟨right, hright, rfl⟩ := List.mem_map.mp hsecond
  rw [serviceKey_renameRecord, serviceKey_renameRecord] at hle hge
  exact congrArg _ (hs.serviceKey_inj hleft hright (le_antisymm hle hge))

theorem Renamed.selectBatchIds (h : Renamed rename s t) (hs : Numbered s) (nowNs limit : Nat) :
    Scheduler.selectBatchIds t nowNs limit =
      (Scheduler.selectBatchIds s nowNs limit).map rename := by
  rw [selectBatchIds_eq, selectBatchIds_eq, h.serviceOrder hs, ← List.map_take, List.map_map,
    List.map_map]
  rfl

/-- Two dispatches that return select the same requests. -/
theorem Renamed.dispatch (h : Renamed rename s t) (hs : Numbered s) {nowNs limit : Nat}
    {batch batch' : List Dispatch} (hbatch : (dispatchBatch nowNs limit).result s = .ok batch)
    (hbatch' : (dispatchBatch nowNs limit).result t = .ok batch') :
    batch'.map Dispatch.requestId = batch.map fun dispatch => rename dispatch.requestId := by
  obtain ⟨-, expired, started, hexpired, he, hstart⟩ :=
    (ends_iff_result.mp (hs.dispatchBatch_ends nowNs limit)).1 batch hbatch
  have hother := dispatchBatch_selects (C := True) (h.keyed hs.keyed) (fun _ hk => hk)
    (fun _ id state hk hget _ => hk.insert rfl (hk id state hget))
    (fun _ _ id state hk hget _ => hk.insert rfl (hk id state hget))
    (fun _ _ hk _ hreq _ _ _ => by rwa [Keyed, hreq]) (fun _ _ _ _ _ _ => trivial) nowNs limit
  obtain ⟨-, expired', started', -, he', hstart'⟩ := (ends_iff_result.mp hother).1 batch' hbatch'
  have hlimit : batchLimit t limit = batchLimit s limit := by
    rw [batchLimit, batchLimit, h.policy]
  rw [hstart'.batch_ids, (h.expired hs.keyed he he').selectBatchIds hexpired, hlimit,
    ← hstart.batch_ids, List.map_map]
  rfl

end Rename

/-! ## Every run -/

/-- Every dispatch of a state takes the least requests of a strict total order. -/
structure Selects (s : ContinuousScheduler) : Prop where
  order : ∀ nowNs, StrictTotalOn (Queued s) (Before s.policy nowNs)
  sequences : ∀ left right, Queued s left → Queued s right → left.sequence = right.sequence →
    left = right
  batch : ∀ nowNs limit, (dispatchBatch nowNs limit).Ends s
    (fun batch _ => MinimalBatch s nowNs limit batch)
    (fun fault _ => ∃ error, fault = .error error ∧ DispatchRefuses s nowNs limit error)
  renamed : ∀ rename t nowNs limit batch batch', Renamed rename s t →
    (dispatchBatch nowNs limit).result s = .ok batch →
    (dispatchBatch nowNs limit).result t = .ok batch' →
    batch'.map Dispatch.requestId = batch.map fun dispatch => rename dispatch.requestId

theorem Numbered.selects {s : ContinuousScheduler} (h : Numbered s) : Selects s where
  order := h.strictTotal
  sequences _ _ := h.sequence_inj
  batch nowNs limit := by
    apply (h.dispatchBatch_ends nowNs limit).mono
    · intro batch s' hbatch
      obtain ⟨-, expired, started, hexpired, he, hs⟩ := hbatch
      exact h.minimalBatch hexpired he hs
    · intro fault s' hf
      obtain ⟨error, hfault, -, hrefuses⟩ := hf
      exact ⟨error, hfault, hrefuses⟩
  renamed _ _ _ _ _ _ hrenamed := hrenamed.dispatch h

/-- In every run of calls that return, and whose accepted requests find a sequence number, a
dispatch takes the least requests of a strict total order. -/
theorem selects_along (policy : SchedulerPolicy) (s : ContinuousScheduler) (calls : List Call)
    (hnew : ContinuousScheduler.new policy = .ok s)
    (hcalls : Along step (fun s call => Numbered.Room s call ∧ Numbered.Returns s call) s calls) :
    Selects (run step s calls) :=
  (run_invariant Numbered (Numbered.new hnew) (fun _ _ hs hcall => hs.step hcall) hcalls).selects

/-- Two requests arrive, the second under a deadline, and one is served. -/
theorem selects_along_small :
    Selects (run step ⟨smallPolicy, ∅, ∅, [], 0, 0, .default⟩
      [.admitRequest ⟨1, 0, 3, 0, 4, 1, none⟩ 0, .admitRequest ⟨2, 0, 0, 0, 4, 1, some 9⟩ 0,
        .dispatchBatch 0 1, .cancel 1]) := by
  refine selects_along smallPolicy _ _ rfl ⟨⟨fun _ _ _ _ => ?_, by decide +kernel⟩,
    ⟨fun _ _ _ _ => ?_, by decide +kernel⟩, ⟨trivial, by decide +kernel⟩,
    ⟨trivial, by decide +kernel⟩, trivial⟩
  all_goals decide +kernel

/-! ### Sequence numbers run out -/

/-- A request of one output token. Without a priority it is rejected. -/
def oneToken (id : RequestId) (priority : U16) : RequestSpec := ⟨id, 0, 0, 0, 1, priority, none⟩

/-- An empty scheduler that used `k` sequence numbers. -/
structure Worn (k : Nat) (s : ContinuousScheduler) : Prop where
  numbered : Numbered s
  policy : s.policy = smallPolicy
  requests : s.requests = ∅
  nextSequence : s.nextSequence = k

def wearCalls : List Call := [.admitRequest (oneToken 3 0) 0, .pruneTerminal]

section Worn

variable {k : Nat} {s : ContinuousScheduler}

theorem admit_returns (hpage : 1 ≤ (s.policy.kvPageTokens : Nat)) (spec : RequestSpec)
    (nowNs : Nat) : Numbered.Returns s (.admitRequest spec nowNs) := by
  rw [Numbered.Returns]
  simp only [Call.exec, ends_bind, ends_pure]
  apply (admit_ends spec nowNs hpage).mono (fun _ _ _ => trivial)
  intro fault s' hf
  cases hf <;> exact Fault.error_ne_panic

/-- An accepted request that finds no sequence number stays queued. -/
theorem step_stranded {spec : RequestSpec} {nowNs bytes : Nat} (hpage : 1 ≤ (s.policy.kvPageTokens : Nat))
    (hadmissible : Admissible s spec nowNs bytes) (hfresh : s.requests.get? spec.id = none)
    (harrived : (spec.arrivalNs : Nat) ≤ nowNs) (hover : 2 ^ 64 ≤ s.nextSequence + 1) :
    step s (.admitRequest spec nowNs) = strandedState s (queuedRecord s spec bytes) := by
  apply Ends.after (P := fun s' => s' = strandedState s (queuedRecord s spec bytes))
  simp only [Call.exec, ends_bind, ends_pure]
  apply (admit_ends spec nowNs hpage).mono
  · intro outcome s' hr
    exact absurd hr.2.2.1 (not_lt.mpr hover)
  · intro fault s' hf
    cases hf with
    | duplicate hdup => simp [SortedMap.contains, hfresh] at hdup
    | future hlate => omega
    | reservation _ hoverflows =>
      have hbytes := hoverflows bytes hadmissible.reservation
      have hcapacity := hadmissible.capacity
      have hmax := s.policy.maxReservedKvBytes.isLt
      omega
    | strandedRejected _ _ hrefused => exact absurd hadmissible (hrefused bytes)
    | strandedQueued bytes' _ _ hadmissible' =>
      have hsame := hadmissible.reservation.symm.trans hadmissible'.reservation
      rw [Option.some.inj hsame]

theorem Worn.refused (h : Worn k s) (id : RequestId) (bytes : Nat) :
    ¬ Admissible s (oneToken id 0) 0 bytes := by
  intro hadmissible
  have hbasic := hadmissible.basic
  rw [h.policy] at hbasic
  cases hbasic

theorem Worn.reserved (h : Worn k s) : s.reservedKvBytes = 0 := by
  rw [h.numbered.reserved, h.requests]
  rfl

theorem Worn.step_rejected (h : Worn k s) (hk : k + 1 < 2 ^ 64) :
    step s (.admitRequest (oneToken 3 0) 0) = rejectedState s (oneToken 3 0) := by
  apply Ends.after (P := fun s' => s' = rejectedState s (oneToken 3 0))
  simp only [Call.exec, ends_bind, ends_pure]
  apply (admit_ends _ _ h.numbered.page).mono
  · intro outcome s' hr
    cases outcome with
    | rejected reason => exact hr.2.2.2.2
    | admitted bytes => exact absurd hr.2.2.2.1 (h.refused 3 bytes)
  · intro fault s' hf
    have hnumber := h.nextSequence
    cases hf with
    | duplicate hdup =>
      rw [h.requests] at hdup
      cases hdup
    | future hlate => cases hlate
    | reservation _ hover =>
      have hbytes := hover 4 (h.policy ▸ rfl)
      rw [h.reserved] at hbytes
      omega
    | strandedRejected _ hover => omega
    | strandedQueued bytes _ hover => omega

theorem Worn.wear (h : Worn k s) (hk : k + 1 < 2 ^ 64) :
    Worn (k + 1) (run step s wearCalls) ∧ Along step Numbered.Returns s wearCalls := by
  have hreturns := admit_returns h.numbered.page (oneToken 3 0) 0
  have hrejected := h.step_rejected hk
  have hroom : Numbered.Room s (.admitRequest (oneToken 3 0) 0) :=
    fun bytes hadmissible => absurd hadmissible (h.refused 3 bytes)
  have hnumbered := (h.numbered.step ⟨hroom, hreturns⟩).prune
  refine ⟨?_, hreturns, trivial, trivial⟩
  rw [hrejected] at hnumbered
  rw [wearCalls, run_cons, hrejected]
  refine ⟨hnumbered, h.policy, ?_, ?_⟩
  · show ((rejectedState s (oneToken 3 0)).requests.retain fun _ state =>
      !state.status.isTerminal) = ∅
    rw [rejectedState, h.requests]
    rfl
  · show s.nextSequence + 1 = k + 1
    rw [h.nextSequence]

theorem Worn.replicate (h : Worn 0 s) (hk : k < 2 ^ 64) :
    Worn k (run step s (List.replicate k wearCalls).flatten) ∧
      Along step Numbered.Returns s (List.replicate k wearCalls).flatten := by
  induction k with
  | zero => exact ⟨h, trivial⟩
  | succ k ih =>
    obtain ⟨hworn, halong⟩ := ih (by omega)
    obtain ⟨hnext, hlast⟩ := hworn.wear hk
    rw [List.replicate_succ', List.flatten_append, List.flatten_singleton, run_append, along_append]
    exact ⟨hnext, halong, hlast⟩

theorem Worn.admissible (h : Worn k s) : Admissible s (oneToken 1 1) 0 4 := by
  have hcounts : requestCounts s.requests = (0, 0) := by
    rw [h.requests]
    rfl
  constructor
  · rw [h.policy]
    decide
  · rw [hcounts, h.policy]
    decide
  · rw [hcounts, h.policy]
    decide
  · rw [h.policy]
    decide
  · rw [h.policy, h.reserved]
    decide

/-- Two accepted requests behind the last sequence number carry the same one. -/
theorem Worn.ties (h : Worn k s) (hk : k + 1 = 2 ^ 64) :
    let calls := [.admitRequest (oneToken 1 1) 0, .admitRequest (oneToken 2 1) 0]
    Along step Numbered.Returns s calls ∧ ¬ Selects (run step s calls) := by
  intro calls
  have hnumber := h.nextSequence
  have hfirst : step s (.admitRequest (oneToken 1 1) 0) =
      strandedState s (queuedRecord s (oneToken 1 1) 4) := by
    apply step_stranded h.numbered.page h.admissible _ (Nat.le_refl 0) (by omega)
    rw [h.requests]
    rfl
  let s₁ := strandedState s (queuedRecord s (oneToken 1 1) 4)
  have hrequests : s₁.requests = (∅ : SortedMap _ _).insert 1 (queuedRecord s (oneToken 1 1) 4) := by
    show s.requests.insert 1 _ = _
    rw [h.requests]
  have hcounts : requestCounts s₁.requests = (1, 1) := by
    rw [hrequests]
    rfl
  have hadmissible : Admissible s₁ (oneToken 2 1) 0 4 := by
    have hpolicy : s₁.policy = smallPolicy := h.policy
    have hreserved : s₁.reservedKvBytes = 0 := h.reserved
    constructor
    · rw [hpolicy]
      decide
    · rw [hcounts, hpolicy]
      decide
    · rw [hcounts, hpolicy]
      decide
    · rw [hpolicy]
      decide
    · rw [hpolicy, hreserved]
      decide
  have hsecond : step s₁ (.admitRequest (oneToken 2 1) 0) =
      strandedState s₁ (queuedRecord s₁ (oneToken 2 1) 4) := by
    have hpage : 1 ≤ (s₁.policy.kvPageTokens : Nat) := h.numbered.page
    apply step_stranded hpage hadmissible _ (Nat.le_refl 0)
    · show 2 ^ 64 ≤ s.nextSequence + 1
      omega
    · rw [hrequests]
      rfl
  have hlast : run step s calls = strandedState s₁ (queuedRecord s₁ (oneToken 2 1) 4) := by
    rw [run_cons, hfirst, run_cons, hsecond, run_nil]
  refine ⟨⟨admit_returns h.numbered.page _ _, ?_, trivial⟩, fun hselects => ?_⟩
  · rw [hfirst]
    apply admit_returns
    exact h.numbered.page
  · rw [hlast] at hselects
    have hstored : (strandedState s₁ (queuedRecord s₁ (oneToken 2 1) 4)).requests =
        s₁.requests.insert 2 (queuedRecord s₁ (oneToken 2 1) 4) := rfl
    have hleft : Queued (strandedState s₁ (queuedRecord s₁ (oneToken 2 1) 4))
        (queuedRecord s (oneToken 1 1) 4) := by
      refine ⟨?_, rfl⟩
      rw [hstored, hrequests]
      rfl
    have hright : Queued (strandedState s₁ (queuedRecord s₁ (oneToken 2 1) 4))
        (queuedRecord s₁ (oneToken 2 1) 4) := by
      refine ⟨?_, rfl⟩
      rw [hstored, hrequests]
      rfl
    have hids : (1 : RequestId) = 2 := congrArg (fun state => state.spec.id)
      (hselects.sequences _ _ hleft hright rfl)
    exact absurd hids (by decide)

end Worn

/-- Two queued requests may be left without an order once the sequence numbers are used up. -/
theorem selects_fails : ¬ ∀ (policy : SchedulerPolicy) (s : ContinuousScheduler)
    (calls : List Call), ContinuousScheduler.new policy = .ok s →
    Along step Numbered.Returns s calls → Selects (run step s calls) := by
  intro hall
  obtain ⟨s, hnew⟩ : ∃ s, ContinuousScheduler.new smallPolicy = .ok s := ⟨_, rfl⟩
  obtain ⟨k, hk⟩ : ∃ k : Nat, k + 1 = 2 ^ 64 := ⟨2 ^ 64 - 1, by omega⟩
  have hworn : Worn 0 s := by
    have hnumbered := Numbered.new hnew
    cases hnew
    exact ⟨hnumbered, rfl, rfl, rfl⟩
  have hreplicate := hworn.replicate (k := k) (by omega)
  have hties := hreplicate.1.ties hk
  have hselects := hall smallPolicy s _ hnew ((along_append _ _ _).mpr ⟨hreplicate.2, hties.1⟩)
  rw [run_append] at hselects
  exact hties.2 hselects

end Leone.Scheduler

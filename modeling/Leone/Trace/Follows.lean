import Leone.Trace.Events
import Leone.Scheduler.Accounting

/-!
# The replay follows the scheduler

Between two events the replay agrees with the scheduler on the reserved bytes, on who holds them,
on the open quantum and on the token counts. Every scheduler call of the executor, with the
event recorded for it, keeps this agreement.
-/

namespace Leone.Trace

open Framework Framework.Method Scheduler

/-- The bytes that a live request holds. -/
def heldBytes (state : RequestState) : Option Nat :=
  if state.status.isTerminal then none else some state.reservedKvBytes

/-- The replay agrees with the scheduler. -/
structure Matches (s : ContinuousScheduler) (replay : TraceReplay) : Prop where
  exact_total : replay.Exact
  reserved : replay.reserved = s.reservedKvBytes
  reservations : ∀ id, replay.reservations.get? id = (s.requests.get? id).bind heldBytes
  running : ∀ id dispatch, s.running.get? id = some dispatch →
    ∃ state, s.requests.get? id = some state ∧
      replay.running = some ⟨id, dispatch.tokenBudget, dispatch.kind, state.cancellationRequested⟩
  idle : s.running.isEmpty → replay.running = none
  emitted : ∀ id, (replay.emitted.get? id).getD 0 =
    ((s.requests.get? id).map RequestState.emittedTokens).getD 0

theorem heldBytes_live {state : RequestState} (h : ¬ state.status.isTerminal) :
    heldBytes state = some state.reservedKvBytes := by simp [heldBytes, h]

theorem heldBytes_terminal {state : RequestState} (h : state.status.isTerminal) :
    heldBytes state = none := by simp [heldBytes, h]

theorem matches_new {policy : SchedulerPolicy} {s : ContinuousScheduler}
    (h : ContinuousScheduler.new policy = .ok s) : Matches s TraceReplay.default := by
  obtain ⟨rfl, -⟩ := ContinuousScheduler.new_eq_ok h
  refine ⟨rfl, rfl, fun _ => rfl, ?_, fun _ => rfl, fun _ => rfl⟩
  intro id dispatch hrun
  cases hrun

namespace Matches

variable {s s' : ContinuousScheduler} {replay : TraceReplay} {id : RequestId}
  {state : RequestState} {capacity : Nat}

/-- What the replay holds for a live request is what the scheduler reserved for it. -/
theorem held (h : Matches s replay) (hget : s.requests.get? id = some state)
    (hlive : ¬ state.status.isTerminal) :
    replay.reservations.get? id = some state.reservedKvBytes := by
  rw [h.reservations, hget, Option.bind_some, heldBytes_live hlive]

/-- A new record is stored. -/
theorem stored (h : Matches s replay) {replay' : TraceReplay} (hcoh : Coherent s)
    (hnew : s.requests.get? id = none) (hreq : s'.requests = s.requests.insert id state)
    (hrun : s'.running = s.running) (hfresh : state.emittedTokens = 0)
    (hexact : replay'.Exact) (hreserved : replay'.reserved = s'.reservedKvBytes)
    (hreservations : ∀ id', replay'.reservations.get? id' =
      if id' = id then heldBytes state else replay.reservations.get? id')
    (hrunning : replay'.running = replay.running) (hemitted : replay'.emitted = replay.emitted) :
    Matches s' replay' := by
  refine ⟨hexact, hreserved, fun id' => ?_, fun id' dispatch hdispatch => ?_, fun hidle => ?_,
    fun id' => ?_⟩
  · rw [hreservations, hreq, SortedMap.get?_insert]
    split_ifs with hid
    · rfl
    · exact h.reservations id'
  · rw [hrun] at hdispatch
    obtain ⟨state', hget, hactive⟩ := h.running id' dispatch hdispatch
    refine ⟨state', ?_, hrunning.trans hactive⟩
    rw [hreq, SortedMap.get?_insert_of_ne, hget]
    intro hid
    rw [hid, hnew] at hget
    cases hget
  · rw [hrunning]
    exact h.idle (hrun ▸ hidle)
  · rw [hemitted, h.emitted, hreq, SortedMap.get?_insert]
    split_ifs with hid
    · rw [hid, hnew]
      simp [hfresh]
    · rfl

/-- An admission and its event. -/
theorem admission (h : Matches s replay) (hinv : Inv s) {spec : RequestSpec} {nowNs : Nat}
    {outcome : AdmissionOutcome} (hr : AdmitReturns s spec nowNs outcome s') :
    ∃ replay', Replayed capacity replay (.admission nowNs spec.id outcome) replay' ∧
      Matches s' replay' := by
  have hinv' := hinv.admitReturns hr
  obtain ⟨hnew, -, -, hr⟩ := hr
  have hfree : replay.reservations.get? spec.id = none := by rw [h.reservations, hnew]; rfl
  cases outcome with
  | rejected reason =>
    obtain ⟨-, rfl⟩ := hr
    refine ⟨replay, .rejected, h.stored hinv.toCoherent hnew rfl rfl rfl h.exact_total h.reserved
      (fun id' => ?_) rfl rfl⟩
    split_ifs with hid
    · rw [hid, hfree]
      rfl
    · rfl
  | admitted bytes =>
    obtain ⟨ha, rfl⟩ := hr
    have hcapacity := ha.capacity
    have hmax := s.policy.maxReservedKvBytes.isLt
    have hfits : replay.reserved + bytes < 2 ^ 64 := by
      rw [h.reserved]
      omega
    have hstep : Replayed capacity replay (.admission nowNs spec.id (.admitted bytes)) _ :=
      .admitted hfree hfits
    refine ⟨_, hstep, h.stored hinv.toCoherent hnew rfl rfl rfl (h.exact_total.replayed hstep) ?_
      (fun id' => ?_) rfl rfl⟩
    · rw [h.reserved]
      rfl
    · rw [SortedMap.get?_insert]
      rfl

/-- A released reservation, seen from every request. -/
theorem get?_released (replay : TraceReplay) (id id' : RequestId) :
    (replay.released id).reservations.get? id' =
      if id' = id then none else replay.reservations.get? id' :=
  SortedMap.get?_remove _ _ _

/-- A record that ended gives its bytes back, in the scheduler and in the replay. -/
theorem reservations_released (h : Matches s replay) {state' : RequestState}
    (hreq : s'.requests = s.requests.insert id state') (hterm : state'.status.isTerminal)
    (id' : RequestId) : (replay.released id).reservations.get? id' =
      (s'.requests.get? id').bind heldBytes := by
  rw [get?_released, hreq, SortedMap.get?_insert]
  split_ifs with hid
  · exact (heldBytes_terminal hterm).symm
  · exact h.reservations id'

theorem reserved_released (h : Matches s replay) (hget : s.requests.get? id = some state)
    (hlive : ¬ state.status.isTerminal) :
    (replay.released id).reserved = s.reservedKvBytes - state.reservedKvBytes := by
  rw [TraceReplay.released, h.held hget hlive, h.reserved]
  rfl

/-- The token counts do not change with a record that emitted as much. -/
theorem emitted_kept (h : Matches s replay) {state' : RequestState}
    (hget : s.requests.get? id = some state) (hreq : s'.requests = s.requests.insert id state')
    (hsame : state'.emittedTokens = state.emittedTokens) (id' : RequestId) :
    (replay.emitted.get? id').getD 0 =
      ((s'.requests.get? id').map RequestState.emittedTokens).getD 0 := by
  rw [h.emitted, hreq, SortedMap.get?_insert]
  split_ifs with hid
  · rw [hid, hget]
    simp [hsame]
  · rfl

/-- A queued request is cancelled, and the event says that it did not run. -/
theorem cancelled (h : Matches s replay) (hcoh : Coherent s) (atNs : Nat)
    (hget : s.requests.get? id = some state) (hqueued : state.status = .queued) :
    ∃ replay', Replayed capacity replay (.cancel atNs id false) replay' ∧
      Matches (cancelledState s id state) replay' := by
  have hlive : ¬ state.status.isTerminal := by simp [hqueued, RequestStatus.isTerminal]
  have hstep : Replayed capacity replay (.cancel atNs id false) (replay.released id) :=
    .withdrawn (h.exact_total.covers id)
  refine ⟨_, hstep, h.exact_total.replayed hstep, (h.reserved_released hget hlive).trans rfl,
    h.reservations_released rfl rfl, fun id' dispatch hdispatch => ?_, h.idle,
    h.emitted_kept hget rfl rfl⟩
  obtain ⟨other, hother, hactive⟩ := h.running id' dispatch hdispatch
  have hne : id' ≠ id := by
    intro hid
    have hnone := hcoh.not_running hget (by simp [hqueued])
    change s.running.get? id' = some dispatch at hdispatch
    rw [hid, hnone] at hdispatch
    cases hdispatch
  exact ⟨other, (SortedMap.get?_insert_of_ne hne).trans hother, hactive⟩

/-- A running request is asked to stop, and the replay marks its open quantum. -/
theorem flagged (h : Matches s replay) {dispatch : Dispatch} (atNs : Nat)
    (hget : s.requests.get? id = some state) (hlive : ¬ state.status.isTerminal)
    (hrun : s.running.get? id = some dispatch) :
    ∃ replay', Replayed capacity replay (.cancel atNs id true) replay' ∧
      Matches (flaggedState s id state) replay' := by
  obtain ⟨_, hget', hactive⟩ := h.running id dispatch hrun
  rw [hget] at hget'
  cases hget'
  refine ⟨_, .flagged hactive rfl, h.exact_total, h.reserved, fun id' => ?_,
    fun id' dispatch' hdispatch' => ?_, fun hidle => ?_, h.emitted_kept hget rfl rfl⟩
  · rw [flaggedState, SortedMap.get?_insert]
    split_ifs with hid
    · rw [hid, h.held hget hlive]
      exact (heldBytes_live hlive).symm
    · exact h.reservations id'
  · obtain ⟨_, _, hactive'⟩ := h.running id' dispatch' hdispatch'
    have hsame := hactive.symm.trans hactive'
    simp only [Option.some.injEq, OpenQuantum.mk.injEq] at hsame
    obtain ⟨rfl, hbudget, hkind, -⟩ := hsame
    refine ⟨{ state with cancellationRequested := true }, SortedMap.get?_insert_self _ _ _, ?_⟩
    rw [hbudget, hkind]
  · have hnone : s.running.get? id = none := SortedMap.isEmpty_iff.mp hidle id
    rw [hrun] at hnone
    cases hnone

/-- The open quantum is the only one. -/
theorem running_unique (h : Matches s replay) {id' : RequestId} {dispatch dispatch' : Dispatch}
    (hrun : s.running.get? id = some dispatch) (hrun' : s.running.get? id' = some dispatch') :
    id' = id := by
  obtain ⟨_, -, hactive⟩ := h.running id dispatch hrun
  obtain ⟨_, -, hactive'⟩ := h.running id' dispatch' hrun'
  have hsame := hactive.symm.trans hactive'
  simp only [Option.some.injEq, OpenQuantum.mk.injEq] at hsame
  exact hsame.1.symm

/-- A commit and its event. -/
theorem committed (h : Matches s replay) (hinv : Inv s) (endNs : Nat) {dispatch : Dispatch}
    {emitted progress : Nat} {ready eos : Bool} {completion : QuantumCompletion}
    (hr : CompleteReturns s id emitted progress ready eos completion s' dispatch state) :
    ∃ replay', Replayed capacity replay (.complete endNs completion.requestId
      completion.emittedTokens completion.status s'.reservedKvBytes dispatch.kind) replay' ∧
      Matches s' replay' := by
  obtain ⟨hrun, hget, hvalid, hemits, hfits, hcompletion, hstate⟩ := hr
  obtain ⟨hstatus, -⟩ := hinv.dispatched hget hrun
  have hlive : ¬ state.status.isTerminal := by simp [hstatus, RequestStatus.isTerminal]
  obtain ⟨_, hget', hactive⟩ := h.running id dispatch hrun
  rw [hget] at hget'
  cases hget'
  generalize hrecord : committedRecord dispatch.kind emitted progress ready eos state = record
    at hcompletion hstate
  have hbytes : record.reservedKvBytes = state.reservedKvBytes := by
    rw [← hrecord, committedRecord_reserved]
  obtain ⟨hemitted, -, hprefill, -⟩ := validateQuantumCompletion_eq_ok hvalid
  have hcancelled : state.cancellationRequested → record.status = .cancelled := by
    intro hflag
    have hkept := (progressedRecord_standing dispatch.kind emitted progress ready state).cancellation
    rw [← hrecord]
    simp [committedRecord, settledStatus, hkept, hflag]
  have hcheck : TraceReplay.validateTraceCompletion
      ⟨id, dispatch.tokenBudget, dispatch.kind, state.cancellationRequested⟩ id emitted
      dispatch.kind record.status = .ok () :=
    TraceReplay.validateTraceCompletion_eq_ok.mpr ⟨rfl, rfl, hemitted, hprefill, hcancelled⟩
  have hcount : wrappingAdd 64 ((replay.emitted.get? id).getD 0) emitted =
      record.emittedTokens := by
    rw [h.emitted, hget, ← hrecord]
    have htokens := (hinv.record hget).tokens hlive
    have hmax := state.spec.maxOutputTokens.isLt
    cases hkind : dispatch.kind with
    | prefill =>
      rw [hprefill hkind]
      exact wrappingAdd_of_lt (by simp; omega)
    | decode =>
      rw [hkind] at hfits
      exact wrappingAdd_of_lt hfits.2.2.1
  have htotal : (replay.completed id emitted record.status).reserved = s'.reservedKvBytes := by
    rw [hstate, TraceReplay.completed, committedState]
    split_ifs with hterm
    · rw [hbytes]
      exact h.reserved_released hget hlive
    · exact h.reserved
  have hstep : Replayed capacity replay (.complete endNs id emitted record.status
      s'.reservedKvBytes dispatch.kind) (replay.completed id emitted record.status) :=
    .completed hactive hcheck (fun _ => h.exact_total.covers id) htotal
  rw [hcompletion]
  refine ⟨_, hstep, h.exact_total.replayed hstep, htotal, fun id' => ?_,
    fun id' dispatch' hdispatch' => ?_, fun _ => ?_, fun id' => ?_⟩
  · rw [hstate, TraceReplay.completed, committedState, SortedMap.get?_insert]
    split_ifs with hterm hid hid
    · have hgone : heldBytes { record with reservedKvBytes := 0 } = none := heldBytes_terminal hterm
      rw [get?_released, if_pos hid]
      exact hgone.symm
    · rw [get?_released, if_neg hid]
      exact h.reservations id'
    · rw [hid, Option.bind_some, heldBytes_live hterm, hbytes]
      exact h.held hget hlive
    · exact h.reservations id'
  · rw [hstate, committedState, SortedMap.get?_remove] at hdispatch'
    split_ifs at hdispatch' with hid
    exact absurd (h.running_unique hrun hdispatch') hid
  · unfold TraceReplay.completed
    split_ifs <;> rfl
  · have hcounted : (replay.completed id emitted record.status).emitted.get? id' =
        if id' = id then some record.emittedTokens else replay.emitted.get? id' := by
      rw [← hcount]
      unfold TraceReplay.completed
      split_ifs <;> simp_all [TraceReplay.released, TraceReplay.counted, SortedMap.get?_insert]
    rw [hcounted, hstate, committedState, SortedMap.get?_insert]
    split_ifs with hid
    · rfl
    · rfl
    · exact h.emitted id'

/-- The totals agree when the reservations do. -/
theorem reserved_of_reservations {replay : TraceReplay} (hinv : Inv s) (hexact : replay.Exact)
    (h : ∀ id, replay.reservations.get? id = (s.requests.get? id).bind heldBytes) :
    replay.reserved = s.reservedKvBytes := by
  have hshare (id : RequestId) : SortedMap.share (fun bytes => bytes) replay.reservations id =
      SortedMap.share RequestState.reservedKvBytes s.requests id := by
    rw [SortedMap.share, SortedMap.share, h]
    cases hget : s.requests.get? id with
    | none => rfl
    | some state =>
      rw [Option.bind_some, Option.map_some, Option.getD_some]
      cases hterm : state.status.isTerminal with
      | true =>
        rw [heldBytes_terminal hterm, (hinv.record hget).terminal hterm]
        rfl
      | false =>
        rw [heldBytes_live (by simp [hterm])]
        rfl
  rw [hexact, hinv.reserved]
  apply le_antisymm
  · exact SortedMap.sumBy_le_sumBy fun id => (hshare id).le
  · exact SortedMap.sumBy_le_sumBy fun id => (hshare id).ge

end Matches

/-! ## Expirations -/

/-- The events of the expired requests, from the bytes reserved before them. -/
def expireEvents (nowNs : Nat) : Nat → List (RequestId × Nat) → List ServiceEvent
  | _, [] => []
  | reserved, entry :: rest =>
    .expire nowNs entry.1 (reserved - entry.2) :: expireEvents nowNs (reserved - entry.2) rest

/-- What replaying the expirations changes. -/
structure Freed (ids : List RequestId) (replay replay' : TraceReplay) : Prop where
  exact_total : replay'.Exact
  reservations : ∀ id, replay'.reservations.get? id =
    if id ∈ ids then none else replay.reservations.get? id
  running : replay'.running = replay.running
  emitted : replay'.emitted = replay.emitted

/-- The replay takes the expirations of different requests that hold the bytes listed. -/
theorem replays_expireEvents (nowNs : Nat) {capacity : Nat} {entries : List (RequestId × Nat)}
    {replay : TraceReplay} (hexact : replay.Exact) (hcapacity : replay.reserved ≤ capacity)
    (hnodup : (entries.map Prod.fst).Nodup)
    (hheld : ∀ entry ∈ entries, replay.reservations.get? entry.1 = some entry.2) :
    ∃ replay', Replays capacity replay (expireEvents nowNs replay.reserved entries) replay' ∧
      Freed (entries.map Prod.fst) replay replay' ∧
      replay'.reserved + (entries.map Prod.snd).sum = replay.reserved := by
  induction entries generalizing replay with
  | nil => exact ⟨replay, .nil _, ⟨hexact, by simp, rfl, rfl⟩, rfl⟩
  | cons entry rest ih =>
    rw [List.map_cons, List.nodup_cons] at hnodup
    have hget := hheld entry List.mem_cons_self
    have hcovers := hexact.covers entry.1
    have hfirst : (replay.released entry.1).reserved = replay.reserved - entry.2 := by
      rw [TraceReplay.released, hget]
      rfl
    have hle : entry.2 ≤ replay.reserved := by
      rw [TraceReplay.Covers, hget] at hcovers
      exact hcovers
    have hstep : Replayed capacity replay (.expire nowNs entry.1 (replay.reserved - entry.2))
        (replay.released entry.1) :=
      .expired hcovers (SortedMap.contains_iff.mpr ⟨_, hget⟩) hfirst
    have hwithin : (replay.released entry.1).reserved ≤ capacity := by omega
    have hrest : ∀ other ∈ rest,
        (replay.released entry.1).reservations.get? other.1 = some other.2 := by
      intro other hother
      rw [Matches.get?_released, if_neg, hheld other (List.mem_cons_of_mem _ hother)]
      intro hid
      exact hnodup.1 (hid ▸ List.mem_map_of_mem hother)
    obtain ⟨replay', hsteps, hfreed, hsum⟩ := ih (hexact.replayed hstep) hwithin hnodup.2 hrest
    refine ⟨replay', ?_, ⟨hfreed.exact_total, fun id => ?_, hfreed.running, hfreed.emitted⟩, ?_⟩
    · rw [hfirst] at hsteps
      exact .cons hstep hwithin hsteps
    · rw [hfreed.reservations, Matches.get?_released, List.map_cons]
      by_cases hid : id = entry.1
      · simp [hid]
      · rw [if_neg hid]
        simp only [List.mem_cons, hid, false_or]
    · rw [List.map_cons, List.sum_cons]
      omega

/-- The bytes of a wrapping sum that stays within 64 bits. -/
theorem foldl_wrappingAdd {bytes : List Nat} {start : Nat} (h : start + bytes.sum < 2 ^ 64) :
    bytes.foldl (wrappingAdd 64) start = start + bytes.sum := by
  induction bytes generalizing start with
  | nil => rfl
  | cons first rest ih =>
    rw [List.sum_cons] at h
    rw [List.foldl_cons, wrappingAdd_of_lt (by omega), ih (by omega), List.sum_cons, Nat.add_assoc]

/-- Recording the expirations appends their events. -/
theorem recordTraceExpirations_ends {run : TraceRun} {entries : List (RequestId × Nat)}
    {reserved : Nat} (nowNs : Nat) (hlt : reserved < 2 ^ 64)
    (hsum : run.scheduler.reservedKvBytes + (entries.map Prod.snd).sum = reserved) :
    (recordTraceExpirations entries nowNs).Ends run
      (fun _ run' => run' = { run with events := run.events ++ expireEvents nowNs reserved entries })
      (fun _ _ => False) := by
  have hstart : saturatingAdd 64 run.scheduler.reservedKvBytes
      ((entries.map Prod.snd).foldl (wrappingAdd 64) 0) = reserved := by
    rw [foldl_wrappingAdd (by omega), saturatingAdd]
    omega
  simp only [recordTraceExpirations, ends_bind, ends_get, ends_pure, hstart]
  clear hstart hsum hlt
  induction entries generalizing run reserved with
  | nil => simp [expireEvents]
  | cons entry rest ih =>
    rw [List.foldlM_cons, ends_bind]
    simp only [recordExpiration, pushEvent, ends_bind, ends_modify, ends_pure]
    apply ih.mono
    · intro _ run' hrun
      rw [hrun]
      simp [expireEvents]
    · exact fun _ _ hf => hf

/-! ## One dispatch -/

section Dispatching

variable {s s' expired started : ContinuousScheduler} {nowNs : Nat} {batch : List Dispatch}

/-- A dispatch of one request, seen from every record. -/
theorem dispatch_record (hr : DispatchReturns s nowNs 1 batch s' expired started)
    (id : RequestId) : s'.requests.get? id =
      if id ∈ batch.map Dispatch.requestId then (s.requests.get? id).map startedRecord
      else if id ∈ dueIds s nowNs then (s.requests.get? id).map expiredRecord
      else s.requests.get? id := by
  have hsame := (countedState_same started batch).1
  rw [← hr.state_eq] at hsame
  rw [hsame, hr.start.requests, hr.start.batch_ids, hr.expire.requests]
  by_cases hsel : id ∈ selectBatchIds expired nowNs (batchLimit s 1)
  · have hnotdue : id ∉ dueIds s nowNs := by
      intro hdue
      obtain ⟨state, hget, hqueued⟩ := hr.expired_coherent.keyed.mem_selectBatchIds hsel
      rw [hr.expire.requests, if_pos hdue, Option.map_eq_some_iff] at hget
      obtain ⟨_, -, rfl⟩ := hget
      cases hqueued
    rw [if_pos hsel, if_pos hsel, if_neg hnotdue]
  · rw [if_neg hsel, if_neg hsel]

/-- Only the dispatched requests run. -/
theorem dispatch_running (hr : DispatchReturns s nowNs 1 batch s' expired started)
    (id : RequestId) : s'.running.get? id =
      if id ∈ batch.map Dispatch.requestId then
        (s.requests.get? id).map (openDispatch s.policy nowNs id)
      else none := by
  have hsame := (countedState_same started batch).2.1
  have hrecord := dispatch_record hr id
  have hstarted := (countedState_same started batch).1
  rw [← hr.state_eq] at hsame hstarted
  rw [hsame, hr.start.running, hr.start.batch_ids, hr.expire.policy, hr.expire.running,
    SortedMap.isEmpty_iff.mp hr.idle id]
  split_ifs with hsel
  · congr 1
    rw [hr.expire.requests, if_neg]
    intro hdue
    obtain ⟨state, hget, hqueued⟩ := hr.expired_coherent.keyed.mem_selectBatchIds hsel
    rw [hr.expire.requests, if_pos hdue, Option.map_eq_some_iff] at hget
    obtain ⟨_, -, rfl⟩ := hget
    cases hqueued
  · rfl

/-- A dispatch of one request opens at most one quantum, of a request that was queued. -/
theorem dispatch_batch (hr : DispatchReturns s nowNs 1 batch s' expired started) :
    batch = [] ∨ ∃ id state, batch = [openDispatch s.policy nowNs id state] ∧
      s.requests.get? id = some state ∧ state.status = .queued ∧ id ∉ dueIds s nowNs := by
  have hlength : batch.length ≤ 1 := by
    rw [← List.length_map Dispatch.requestId, hr.start.batch_ids]
    exact (length_selectBatchIds_le _ _ _).trans (min_le_left _ _)
  cases batch with
  | nil => exact .inl rfl
  | cons dispatch rest =>
    have hrest : rest = [] := List.length_eq_zero_iff.mp (by simpa using hlength)
    subst hrest
    have hids := hr.start.batch_ids
    have hsel : dispatch.requestId ∈ selectBatchIds expired nowNs (batchLimit s 1) := by
      rw [← hids]
      exact List.mem_cons_self
    obtain ⟨state, hget, hqueued⟩ := hr.expired_coherent.keyed.mem_selectBatchIds hsel
    have hnotdue : dispatch.requestId ∉ dueIds s nowNs := by
      intro hdue
      rw [hr.expire.requests, if_pos hdue, Option.map_eq_some_iff] at hget
      obtain ⟨_, -, rfl⟩ := hget
      cases hqueued
    rw [hr.expire.requests, if_neg hnotdue] at hget
    have hopen := hr.start.batch_running dispatch List.mem_cons_self
    have hrun := dispatch_running hr dispatch.requestId
    rw [hr.state_eq, (countedState_same started _).2.1, hopen,
      if_pos (List.mem_map_of_mem List.mem_cons_self), hget, Option.map_some,
      Option.some.injEq] at hrun
    refine .inr ⟨dispatch.requestId, state, ?_, hget, hqueued, hnotdue⟩
    rw [← hrun]

/-- Without a dispatch no request is left in the queue. -/
theorem dispatch_none (hr : DispatchReturns s nowNs 1 [] s' expired started)
    (hbatch : 1 ≤ (s.policy.maxBatchRequests : Nat)) (id : RequestId) (state : RequestState)
    (hget : s'.requests.get? id = some state) : state.status ≠ .queued := by
  intro hqueued
  have hempty : selectBatchIds expired nowNs (batchLimit s 1) = [] := hr.start.batch_ids.symm
  have hsame := (countedState_same started []).1
  rw [← hr.state_eq] at hsame
  have hget' : expired.requests.get? id = some state := by
    rw [hsame, hr.start.requests, hempty] at hget
    exact hget
  have hlimit : batchLimit s 1 = 1 := min_eq_left hbatch
  rw [selectBatchIds, List.map_eq_nil_iff, hlimit, List.take_eq_nil_iff] at hempty
  rcases hempty with hone | hnil
  · cases hone
  · have hmem : state ∈ expired.requests.values.filter fun state => state.status = .queued := by
      rw [List.mem_filter, SortedMap.mem_values_iff]
      exact ⟨⟨id, hget'⟩, by simpa using hqueued⟩
    have hsorted := (List.mem_insertionSort fun left right =>
      compareRequests expired.policy nowNs left right ≠ .gt).mpr hmem
    rw [hnil] at hsorted
    cases hsorted

variable {replay middle : TraceReplay} {ids : List RequestId}

/-- The reservations of the dispatched state, after its expirations were replayed. -/
theorem Matches.reservations_dispatched (h : Matches s replay) (hinv : Inv s)
    (hr : DispatchReturns s nowNs 1 batch s' expired started)
    (hids : ∀ id, id ∈ ids ↔ id ∈ dueIds s nowNs) (hfreed : Freed ids replay middle)
    (id : RequestId) :
    middle.reservations.get? id = (s'.requests.get? id).bind heldBytes := by
  rw [hfreed.reservations, dispatch_record hr]
  by_cases hdue : id ∈ dueIds s nowNs
  · have hnotsel : id ∉ batch.map Dispatch.requestId := by
      intro hsel
      rcases dispatch_batch hr with rfl | ⟨id', state, rfl, -, -, hnotdue⟩
      · cases hsel
      · rw [List.map_cons, List.map_nil, List.mem_singleton] at hsel
        have hid : id = id' := hsel
        exact hnotdue (hid ▸ hdue)
    rw [if_pos ((hids id).mpr hdue), if_neg hnotsel, if_pos hdue]
    cases s.requests.get? id with
    | none => rfl
    | some state => rfl
  · rw [if_neg (fun hid => hdue ((hids id).mp hid)), h.reservations, if_neg hdue]
    split_ifs with hsel
    · rcases dispatch_batch hr with rfl | ⟨id', state, rfl, hget, hqueued, -⟩
      · cases hsel
      · rw [List.map_cons, List.map_nil, List.mem_singleton] at hsel
        have hid : id = id' := hsel
        rw [hid, hget]
        simp [heldBytes, startedRecord, hqueued, RequestStatus.isTerminal]
    · rfl

theorem Matches.emitted_dispatched (h : Matches s replay)
    (hr : DispatchReturns s nowNs 1 batch s' expired started) (hfreed : Freed ids replay middle)
    (id : RequestId) : (middle.emitted.get? id).getD 0 =
      ((s'.requests.get? id).map RequestState.emittedTokens).getD 0 := by
  rw [hfreed.emitted, h.emitted, dispatch_record hr]
  split_ifs
  · rw [Option.map_map]
    rfl
  · rw [Option.map_map]
    rfl
  · rfl

/-- A turn that finds nothing to dispatch. -/
theorem Matches.waited (h : Matches s replay) (hinv : Inv s) (hinv' : Inv s')
    (hr : DispatchReturns s nowNs 1 [] s' expired started)
    (hids : ∀ id, id ∈ ids ↔ id ∈ dueIds s nowNs) (hfreed : Freed ids replay middle) :
    Matches s' middle := by
  have hreservations := h.reservations_dispatched hinv hr hids hfreed
  refine ⟨hfreed.exact_total, reserved_of_reservations hinv' hfreed.exact_total hreservations,
    hreservations, fun id dispatch hrun => ?_, fun _ => ?_, h.emitted_dispatched hr hfreed⟩
  · rw [dispatch_running hr, List.map_nil, if_neg List.not_mem_nil] at hrun
    cases hrun
  · rw [hfreed.running]
    exact h.idle hr.idle

/-- A dispatched quantum and its event. -/
theorem Matches.dispatched (h : Matches s replay) (hinv : Inv s) (hinv' : Inv s')
    {id : RequestId} {state : RequestState} {capacity : Nat}
    (hr : DispatchReturns s nowNs 1 [openDispatch s.policy nowNs id state] s' expired started)
    (hids : ∀ id, id ∈ ids ↔ id ∈ dueIds s nowNs) (hfreed : Freed ids replay middle)
    (hget : s.requests.get? id = some state) (hlive : ¬ state.status.isTerminal)
    (hunflagged : state.cancellationRequested = false)
    (hle : (openDispatch s.policy nowNs id state).tokenBudget ≤ capacity) :
    ∃ replay', Replayed capacity middle (.dispatch nowNs id
      (openDispatch s.policy nowNs id state).tokenBudget
      (openDispatch s.policy nowNs id state).kind) replay' ∧ Matches s' replay' := by
  have hreservations := h.reservations_dispatched hinv hr hids hfreed
  have hsel : id ∈ [openDispatch s.policy nowNs id state].map Dispatch.requestId :=
    List.mem_singleton_self _
  have hrecord := dispatch_record hr id
  rw [if_pos hsel, hget] at hrecord
  have hheld : middle.reservations.contains id := by
    rw [SortedMap.contains_iff]
    refine ⟨state.reservedKvBytes, ?_⟩
    rw [hreservations, hrecord]
    rfl
  have hpos := (openDispatch_ok nowNs id hinv.policy ((hinv.record hget).runnable hlive)).pos
  have hidle : middle.running = none := hfreed.running.trans (h.idle hr.idle)
  have hemitted := h.emitted_dispatched hr hfreed
  refine ⟨_, .dispatched hidle hheld (by omega) hle, hfreed.exact_total,
    reserved_of_reservations hinv' hfreed.exact_total hreservations, hreservations,
    fun id' dispatch hrun => ?_, fun hempty => ?_, hemitted⟩
  · rw [dispatch_running hr] at hrun
    split_ifs at hrun with hsel'
    rw [List.map_cons, List.map_nil, List.mem_singleton] at hsel'
    have hid : id' = id := hsel'
    rw [hid, hget, Option.map_some, Option.some.injEq] at hrun
    subst hrun
    refine ⟨startedRecord state, ?_, ?_⟩
    · rw [hid, hrecord]
      rfl
    · rw [hid]
      simp [startedRecord, hunflagged]
  · have hnone := SortedMap.isEmpty_iff.mp hempty id
    rw [dispatch_running hr, if_pos hsel, hget] at hnone
    cases hnone

end Dispatching

end Leone.Trace

import Leone.Trace.Replay

/-!
# What one replayed event does

One constructor for each accepted event gives its checks and the state after it. The replay
accepts an event exactly when one of them applies and the total stays within the capacity. Its
two unchecked subtractions are safe while the total is the sum of the reservations.
-/

namespace Leone.Trace

open Framework Framework.Method Scheduler

/-- The replay after a request gave its reservation back. A request without one changes nothing. -/
def TraceReplay.released (replay : TraceReplay) (id : RequestId) : TraceReplay :=
  { replay with
    reservations := replay.reservations.remove id
    reserved := replay.reserved - (replay.reservations.get? id).getD 0 }

/-- The replay after a quantum was closed and its tokens were counted. -/
def TraceReplay.counted (replay : TraceReplay) (id : RequestId) (emitted : Nat) : TraceReplay :=
  { replay with
    running := none
    emitted := replay.emitted.insert id
      (wrappingAdd 64 ((replay.emitted.get? id).getD 0) emitted) }

/-- The replay after a completion, which frees a request that ended. -/
def TraceReplay.completed (replay : TraceReplay) (id : RequestId) (emitted : Nat)
    (status : RequestStatus) : TraceReplay :=
  if status.isTerminal then (replay.counted id emitted).released id
  else replay.counted id emitted

/-- The reservation of a request is no larger than the total. -/
def TraceReplay.Covers (replay : TraceReplay) (id : RequestId) : Prop :=
  (replay.reservations.get? id).getD 0 ≤ replay.reserved

/-- What a completion must agree with. -/
theorem TraceReplay.validateTraceCompletion_eq_ok {active : OpenQuantum} {id : RequestId}
    {emitted : Nat} {kind : DispatchKind} {status : RequestStatus} :
    validateTraceCompletion active id emitted kind status = .ok () ↔
      active.requestId = id ∧ active.kind = kind ∧ emitted ≤ active.tokenBudget ∧
        (kind = .prefill → emitted = 0) ∧ (active.cancelled → status = .cancelled) := by
  unfold validateTraceCompletion
  split_ifs with hdispatch hprefill hcancelled
  · simp only [reduceCtorEq, false_iff]
    intro h
    rcases hdispatch with hid | hkind | hlt
    · exact hid h.1
    · exact hkind h.2.1
    · exact absurd h.2.2.1 (not_le.mpr hlt)
  · simp only [reduceCtorEq, false_iff]
    exact fun h => hprefill.2 (h.2.2.2.1 hprefill.1)
  · simp only [reduceCtorEq, false_iff]
    exact fun h => hcancelled.2 (h.2.2.2.2 hcancelled.1)
  · simp only [not_or, not_not, not_lt] at hdispatch
    simp only [true_iff]
    refine ⟨hdispatch.1, hdispatch.2.1, hdispatch.2.2, fun hkind => ?_, fun hflag => ?_⟩
    · by_contra hne
      exact hprefill ⟨hkind, hne⟩
    · by_contra hne
      exact hcancelled ⟨hflag, hne⟩

/-- The events that the replay takes, with the state after each. -/
inductive Replayed (capacity : Nat) (replay : TraceReplay) : ServiceEvent → TraceReplay → Prop
  | admitted {atNs : Nat} {id : RequestId} {bytes : Nat}
      (hnew : replay.reservations.get? id = none) (hfits : replay.reserved + bytes < 2 ^ 64) :
      Replayed capacity replay (.admission atNs id (.admitted bytes)) { replay with
        reservations := replay.reservations.insert id bytes
        reserved := replay.reserved + bytes }
  | rejected {atNs : Nat} {id : RequestId} {reason : AdmissionReject} :
      Replayed capacity replay (.admission atNs id (.rejected reason)) replay
  | dispatched {atNs : Nat} {id : RequestId} {budget : Nat} {kind : DispatchKind}
      (hidle : replay.running = none) (hheld : replay.reservations.contains id)
      (hpos : budget ≠ 0) (hle : budget ≤ capacity) :
      Replayed capacity replay (.dispatch atNs id budget kind)
        { replay with running := some ⟨id, budget, kind, false⟩ }
  | flagged {atNs : Nat} {id : RequestId} {active : OpenQuantum}
      (hactive : replay.running = some active) (hid : active.requestId = id) :
      Replayed capacity replay (.cancel atNs id true)
        { replay with running := some { active with cancelled := true } }
  | withdrawn {atNs : Nat} {id : RequestId} (hcovers : replay.Covers id) :
      Replayed capacity replay (.cancel atNs id false) (replay.released id)
  | expired {atNs : Nat} {id : RequestId} {reserved : Nat} (hcovers : replay.Covers id)
      (hheld : replay.reservations.contains id)
      (hexact : (replay.released id).reserved = reserved) :
      Replayed capacity replay (.expire atNs id reserved) (replay.released id)
  | completed {atNs : Nat} {id : RequestId} {emitted : Nat} {status : RequestStatus}
      {reserved : Nat} {kind : DispatchKind} {active : OpenQuantum}
      (hactive : replay.running = some active)
      (hvalid : TraceReplay.validateTraceCompletion active id emitted kind status = .ok ())
      (hcovers : status.isTerminal → replay.Covers id)
      (hexact : (replay.completed id emitted status).reserved = reserved) :
      Replayed capacity replay (.complete atNs id emitted status reserved kind)
        (replay.completed id emitted status)

namespace TraceReplay

variable {replay : TraceReplay} {Q : Unit → TraceReplay → Prop}
  {E : Fault SchedulerError → TraceReplay → Prop}

theorem releaseReservation_ends (id : RequestId) :
    (releaseReservation id).Ends replay (fun _ replay' => replay.Covers id ∧
      replay' = replay.released id) (fun fault _ => fault = .panic ∧ ¬ replay.Covers id) := by
  simp only [releaseReservation, ends_bind, ends_get]
  cases hget : replay.reservations.get? id with
  | none =>
    simp [released, Covers, hget, SortedMap.remove_eq_self hget]
  | some bytes =>
    simp only [ends_bind, ends_modify, ends_get, ends_orPanic, checkedSub_eq_some,
      checkedSub_eq_none, and_imp, Covers, released, hget, Option.getD_some]
    refine ⟨?_, fun hlt => ⟨trivial, not_le.mpr hlt⟩⟩
    intro reserved hle heq
    subst heq
    exact ⟨hle, rfl⟩

theorem reserve_ends (id : RequestId) (bytes : Nat) :
    (reserve id bytes).Ends replay
      (fun _ replay' => replay.reservations.get? id = none ∧ replay.reserved + bytes < 2 ^ 64 ∧
        replay' = { replay with
          reservations := replay.reservations.insert id bytes
          reserved := replay.reserved + bytes })
      (fun fault _ => fault ≠ .panic ∧
        ¬ (replay.reservations.get? id = none ∧ replay.reserved + bytes < 2 ^ 64)) := by
  simp only [reserve, ends_bind, ends_get, ends_modify, ends_ensure, ends_orErr,
    checkedAdd_eq_some, checkedAdd_eq_none, and_imp]
  refine ⟨fun hnew => ⟨?_, fun hover => ⟨by simp, by omega⟩⟩, fun hdup => ⟨by simp, ?_⟩⟩
  · intro reserved hlt heq
    subst heq
    exact ⟨by simpa [SortedMap.contains] using hnew, hlt, rfl⟩
  · intro hboth
    simp [SortedMap.contains, hboth.1] at hdup

/-- A fault says why no accepted event is this one, and a panic names an uncovered request. -/
def Refused (capacity : Nat) (replay : TraceReplay) (event : ServiceEvent)
    (fault : Fault SchedulerError) : Prop :=
  (fault = .panic → ∃ id, ¬ replay.Covers id) ∧ ∀ after, ¬ Replayed capacity replay event after

theorem dispatch_ends (capacity atNs : Nat) (id : RequestId) (budget : Nat)
    (kind : DispatchKind) :
    (dispatch id budget kind capacity).Ends replay
      (fun _ after => Replayed capacity replay (.dispatch atNs id budget kind) after)
      (fun fault _ => replay.Refused capacity (.dispatch atNs id budget kind) fault) := by
  simp only [dispatch, ends_bind, ends_get, ends_ensure, ends_set]
  constructor
  · intro h
    exact .dispatched h.1 h.2.1 h.2.2.1 h.2.2.2
  · intro h
    refine ⟨by simp, fun after hafter => h ?_⟩
    cases hafter with
    | dispatched hidle hheld hpos hle => exact ⟨hidle, hheld, hpos, hle⟩

theorem cancel_ends (capacity atNs : Nat) (id : RequestId) (running : Bool) :
    (cancel id running).Ends replay
      (fun _ after => Replayed capacity replay (.cancel atNs id running) after)
      (fun fault _ => replay.Refused capacity (.cancel atNs id running) fault) := by
  cases running with
  | true =>
    simp only [cancel, if_true, ends_bind, ends_get, ends_orErr, ends_ensure, ends_modify]
    refine ⟨fun active hactive => ⟨fun hid => ?_, fun hid => ⟨by simp, ?_⟩⟩,
      fun hidle => ⟨by simp, ?_⟩⟩
    · exact .flagged hactive hid
    · intro after hafter
      cases hafter with
      | flagged hactive' hid' =>
        rw [hactive] at hactive'
        cases hactive'
        exact hid hid'
    · intro after hafter
      cases hafter with
      | flagged hactive' hid' =>
        rw [hidle] at hactive'
        cases hactive'
  | false =>
    simp only [cancel, Bool.false_eq_true, if_false]
    apply (releaseReservation_ends id).mono
    · intro _ after h
      obtain ⟨hcovers, heq⟩ := h
      subst heq
      exact .withdrawn hcovers
    · intro fault _ h
      refine ⟨fun _ => ⟨id, h.2⟩, fun after hafter => ?_⟩
      cases hafter with
      | withdrawn hcovers => exact h.2 hcovers

theorem expire_ends (capacity atNs : Nat) (id : RequestId) (reserved : Nat) :
    (expire id reserved).Ends replay
      (fun _ after => Replayed capacity replay (.expire atNs id reserved) after)
      (fun fault _ => replay.Refused capacity (.expire atNs id reserved) fault) := by
  simp only [expire, ends_bind, ends_get, ends_orErr, ends_modify, ends_ensure,
    checkedSub_eq_some, checkedSub_eq_none, and_imp]
  refine ⟨fun bytes hget => ⟨?_, fun hlt => ⟨by simp, ?_⟩⟩, fun hnone => ⟨by simp, ?_⟩⟩
  · intro left hle hleft
    subst hleft
    have hstate : { replay with
        reservations := replay.reservations.remove id, reserved := replay.reserved - bytes } =
        replay.released id := by simp [released, hget]
    rw [hstate]
    have hcovers : replay.Covers id := by simpa [Covers, hget] using hle
    refine ⟨fun hexact => ?_, fun hexact => ⟨by simp, fun after hafter => ?_⟩⟩
    · refine .expired hcovers (SortedMap.contains_iff.mpr ⟨bytes, hget⟩) ?_
      simpa [released, hget] using hexact
    · cases hafter with
      | expired _ _ hexact' =>
        apply hexact
        simpa [released, hget] using hexact'
  · intro after hafter
    cases hafter with
    | expired hcovers =>
      rw [Covers, hget, Option.getD_some] at hcovers
      omega
  · intro after hafter
    cases hafter with
    | expired _ hheld =>
      obtain ⟨bytes, hget⟩ := SortedMap.contains_iff.mp hheld
      rw [hnone] at hget
      cases hget

theorem releaseTraceReservation_ends (id : RequestId) (status : RequestStatus) :
    (releaseTraceReservation id status).Ends replay
      (fun _ after => (status.isTerminal → replay.Covers id) ∧
        after = if status.isTerminal then replay.released id else replay)
      (fun fault _ => fault = .panic ∧ status.isTerminal ∧ ¬ replay.Covers id) := by
  rw [releaseTraceReservation, ends_ite]
  constructor
  · intro hterm
    apply (releaseReservation_ends id).mono
    · intro _ after h
      simpa [hterm] using h
    · intro fault _ h
      exact ⟨h.1, hterm, h.2⟩
  · intro hlive
    rw [if_neg hlive]
    exact ⟨fun hterm => absurd hterm hlive, rfl⟩

theorem complete_ends (capacity atNs : Nat) (id : RequestId) (emitted : Nat)
    (status : RequestStatus) (reserved : Nat) (kind : DispatchKind) :
    (complete id emitted status kind reserved).Ends replay
      (fun _ after =>
        Replayed capacity replay (.complete atNs id emitted status reserved kind) after)
      (fun fault _ =>
        replay.Refused capacity (.complete atNs id emitted status reserved kind) fault) := by
  simp only [complete, ends_bind, ends_get, ends_orErr, ends_modify, ends_ofExcept, ends_ensure]
  refine ⟨fun active hactive => ⟨fun _ hvalid => ?_, fun error hinvalid => ⟨by simp, ?_⟩⟩,
    fun hidle => ⟨by simp, ?_⟩⟩
  · change (releaseTraceReservation id status).Ends (replay.counted id emitted) _ _
    apply (releaseTraceReservation_ends id status).mono
    · intro _ after h
      obtain ⟨hcovers, heq⟩ := h
      have hstate : after = replay.completed id emitted status := heq
      subst hstate
      refine ⟨fun hexact => ?_, fun hexact => ⟨by simp, fun after' hafter => ?_⟩⟩
      · exact .completed hactive hvalid hcovers hexact
      · cases hafter with
        | completed _ _ _ hexact' => exact hexact hexact'
    · intro fault _ h
      refine ⟨fun _ => ⟨id, h.2.2⟩, fun after hafter => ?_⟩
      cases hafter with
      | completed _ _ hcovers => exact h.2.2 (hcovers h.2.1)
  · intro after hafter
    cases hafter with
    | completed hactive' hvalid =>
      rw [hactive] at hactive'
      cases hactive'
      rw [hinvalid] at hvalid
      cases hvalid
  · intro after hafter
    cases hafter with
    | completed hactive' =>
      rw [hidle] at hactive'
      cases hactive'

theorem applyTraceEvent_ends (capacity : Nat) (event : ServiceEvent) :
    (applyTraceEvent capacity event).Ends replay
      (fun _ after => Replayed capacity replay event after)
      (fun fault _ => replay.Refused capacity event fault) := by
  cases event with
  | admission atNs id outcome =>
    cases outcome with
    | admitted bytes =>
      apply (reserve_ends id bytes).mono
      · intro _ after h
        obtain ⟨hnew, hfits, heq⟩ := h
        subst heq
        exact .admitted hnew hfits
      · intro fault _ h
        refine ⟨fun hpanic => absurd hpanic h.1, fun after hafter => h.2 ?_⟩
        cases hafter with
        | admitted hnew hfits => exact ⟨hnew, hfits⟩
    | rejected reason => exact .rejected
  | dispatch atNs id budget kind => exact dispatch_ends capacity atNs id budget kind
  | cancel atNs id running => exact cancel_ends capacity atNs id running
  | expire atNs id reserved => exact expire_ends capacity atNs id reserved
  | complete atNs id emitted status reserved kind =>
    exact complete_ends capacity atNs id emitted status reserved kind

end TraceReplay

/-- The state after an accepted event is determined by it. -/
theorem Replayed.unique {capacity : Nat} {replay after after' : TraceReplay}
    {event : ServiceEvent} (h : Replayed capacity replay event after)
    (h' : Replayed capacity replay event after') : after = after' := by
  cases h with
  | admitted | rejected | dispatched | withdrawn | expired | completed => cases h'; rfl
  | flagged hactive =>
    cases h' with
    | flagged hactive' =>
      rw [hactive] at hactive'
      cases hactive'
      rfl

/-! ## Sequences of events -/

/-- The replay takes a list of events, with the total within the capacity after each. -/
inductive Replays (capacity : Nat) : TraceReplay → List ServiceEvent → TraceReplay → Prop
  | nil (replay : TraceReplay) : Replays capacity replay [] replay
  | cons {replay middle after : TraceReplay} {event : ServiceEvent} {events : List ServiceEvent}
      (head : Replayed capacity replay event middle) (within : middle.reserved ≤ capacity)
      (tail : Replays capacity middle events after) :
      Replays capacity replay (event :: events) after

theorem Replays.append {capacity : Nat} {replay middle after : TraceReplay}
    {events events' : List ServiceEvent} (h : Replays capacity replay events middle)
    (h' : Replays capacity middle events' after) :
    Replays capacity replay (events ++ events') after := by
  induction h with
  | nil => exact h'
  | cons head within _ ih => exact .cons head within (ih h')

theorem Replays.snoc {capacity : Nat} {replay middle after : TraceReplay}
    {events : List ServiceEvent} {event : ServiceEvent} (h : Replays capacity replay events middle)
    (h' : Replayed capacity middle event after) (hwithin : after.reserved ≤ capacity) :
    Replays capacity replay (events ++ [event]) after :=
  h.append (.cons h' hwithin (.nil _))

theorem Replays.unique {capacity : Nat} {replay after after' : TraceReplay}
    {events : List ServiceEvent} (h : Replays capacity replay events after)
    (h' : Replays capacity replay events after') : after = after' := by
  induction h with
  | nil => cases h'; rfl
  | cons head _ _ ih =>
    cases h' with
    | cons head' _ tail' =>
      rw [head.unique head'] at ih
      exact ih tail'

/-- The total is the sum of the reservations. -/
def TraceReplay.Exact (replay : TraceReplay) : Prop :=
  replay.reserved = replay.reservations.sumBy fun bytes => bytes

namespace TraceReplay.Exact

variable {replay after : TraceReplay}

theorem covers (h : replay.Exact) (id : RequestId) : replay.Covers id := by
  rw [Covers]
  cases hget : replay.reservations.get? id with
  | none => exact Nat.zero_le _
  | some bytes =>
    rw [h]
    exact SortedMap.le_sumBy (fun bytes => bytes) hget

theorem released (h : replay.Exact) (id : RequestId) : (replay.released id).Exact := by
  unfold TraceReplay.Exact at *
  simp only [TraceReplay.released]
  cases hget : replay.reservations.get? id with
  | none => simpa [SortedMap.remove_eq_self hget] using h
  | some bytes =>
    have hsum := SortedMap.sumBy_remove_add (fun bytes => bytes) hget
    simp only [Option.getD_some]
    omega

theorem completed (h : replay.Exact) (id : RequestId) (emitted : Nat) (status : RequestStatus) :
    (replay.completed id emitted status).Exact := by
  have hcounted : (replay.counted id emitted).Exact := h
  unfold TraceReplay.completed
  split_ifs
  · exact hcounted.released id
  · exact hcounted

theorem replayed {capacity : Nat} {event : ServiceEvent} (h : replay.Exact)
    (hevent : Replayed capacity replay event after) : after.Exact := by
  cases hevent with
  | @admitted _ id bytes hnew =>
    have hsum := SortedMap.sumBy_insert_new bytes (fun bytes => bytes) hnew
    unfold TraceReplay.Exact at *
    simp only
    omega
  | rejected | dispatched | flagged => exact h
  | withdrawn => exact h.released _
  | expired => exact h.released _
  | completed => exact h.completed _ _ _

end TraceReplay.Exact

/-- The replay takes an event list exactly when it steps through it, and never panics. -/
theorem TraceReplay.forM_applyEvent_ends {capacity : Nat} {replay : TraceReplay}
    (h : replay.Exact) (events : List ServiceEvent) :
    (forM events (applyEvent capacity)).Ends replay
      (fun _ after => Replays capacity replay events after ∧ after.Exact)
      (fun fault _ => fault ≠ .panic ∧ ∀ after, ¬ Replays capacity replay events after) := by
  induction events generalizing replay with
  | nil => exact ⟨.nil _, h⟩
  | cons event events ih =>
    simp only [List.forM_cons, ends_bind, applyEvent, ends_get, ends_ensure]
    apply (applyTraceEvent_ends capacity event).mono
    · intro _ middle hmiddle
      refine ⟨fun hwithin => ?_, fun hover => ⟨by simp, fun after hafter => ?_⟩⟩
      · apply (ih (h.replayed hmiddle)).mono
        · intro _ after hafter
          exact ⟨.cons hmiddle hwithin hafter.1, hafter.2⟩
        · intro fault _ hfault
          refine ⟨hfault.1, fun after hafter => ?_⟩
          cases hafter with
          | cons head _ tail =>
            rw [head.unique hmiddle] at tail
            exact hfault.2 after tail
      · cases hafter with
        | cons head within _ =>
          rw [head.unique hmiddle] at within
          exact hover within
    · intro fault _ hfault
      refine ⟨fun hpanic => ?_, fun after hafter => ?_⟩
      · obtain ⟨id, huncovered⟩ := hfault.1 hpanic
        exact huncovered (h.covers id)
      · cases hafter with
        | cons head _ _ => exact hfault.2 _ head

end Leone.Trace

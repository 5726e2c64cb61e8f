import Leone.Framework.Machine
import Leone.Memory.Invariant

/-!
# Runs of the ledger

Each operation on a sound ledger leaves a sound ledger or returns an error with nothing changed,
and no run panics. The peaks are the greatest values that their counters had in the run.
-/

namespace Leone.Memory

open Framework Framework.Method

variable {s : Ledger} {t : Nat} {tracker : MemoryTracker}

/-- A sound ledger whose peaks follow the counters. -/
def Follows (s s' : Ledger) : Prop := Sound s' ∧ ∀ t, Raises (s.locked t) (s'.locked t)

/-- Nothing changed, and it was no panic. -/
def Refuses (s : Ledger) (fault : Fault MemoryError) (s' : Ledger) : Prop :=
  s' = s ∧ fault ≠ .panic

theorem Sound.follows (h : Sound s) : Follows s s := ⟨h, fun t => (h.peaked t).raises⟩

theorem stateOf_of_get (ht : s.trackers[t]? = some tracker) : s.stateOf t = tracker.state := by
  rw [Ledger.stateOf, ht]
  rfl

theorem locked_of_get (ht : s.trackers[t]? = some tracker) :
    s.locked t = Ledger.lockedBy tracker s := by
  rw [Ledger.locked, stateOf_of_get ht]
  rfl

/-- The handle of a live reservation leads to its tracker. -/
theorem Exact.trackerOf_reservation (h : Exact s) {i : Nat} {reservation : MemoryReservation}
    (hi : s.reservations[i]? = some reservation) :
    ∃ tracker, s.trackers[reservation.tracker]? = some tracker :=
  ⟨_, List.getElem?_eq_getElem (h.reserved reservation (List.mem_of_getElem? hi))⟩

theorem Exact.trackerOf_allocation (h : Exact s) {i : Nat} {allocation : MemoryAllocation}
    (hi : s.allocations[i]? = some allocation) :
    ∃ tracker, s.trackers[allocation.tracker]? = some tracker :=
  ⟨_, List.getElem?_eq_getElem (h.allocated allocation (List.mem_of_getElem? hi))⟩

theorem locked_unlock (ht : s.trackers[t]? = some tracker) (l : Locked)
    (reservations : List MemoryReservation) (allocations : List MemoryAllocation) (t' : Nat) :
    Ledger.locked { s.unlock t tracker l with reservations, allocations } t' =
      if t' = t then l else ⟨l.shared, s.stateOf t'⟩ := by
  have hlength : t < s.trackers.length := (List.getElem?_eq_some_iff.mp ht).1
  by_cases heq : t' = t
  · subst heq
    simp [Ledger.locked, Ledger.stateOf, Ledger.unlock, hlength]
  · simp [Ledger.locked, Ledger.stateOf, Ledger.unlock, List.getElem?_set_ne (Ne.symm heq), heq]

/-- What a method on one tracker did is what the ledger did. -/
theorem Sound.unlock (h : Sound s) (ht : s.trackers[t]? = some tracker) {l : Locked}
    {reservations : List MemoryReservation} {allocations : List MemoryAllocation}
    (hexact : Exact { s.unlock t tracker l with reservations, allocations })
    (hraises : Raises (Ledger.lockedBy tracker s) l) :
    Follows s { s.unlock t tracker l with reservations, allocations } := by
  have hlocked (t' : Nat) : Raises (s.locked t')
      (Ledger.locked { s.unlock t tracker l with reservations, allocations } t') := by
    rw [locked_unlock ht]
    by_cases heq : t' = t
    · subst heq
      rw [if_pos rfl, locked_of_get ht]
      exact hraises
    · rw [if_neg heq]
      exact hraises.sibling (h.peaked t')
  exact ⟨⟨hexact, fun t' => (hlocked t').peaked⟩, hlocked⟩

/-- Unlocking what was locked changes nothing. -/
theorem unlock_lockedBy (ht : s.trackers[t]? = some tracker) :
    s.unlock t tracker (Ledger.lockedBy tracker s) = s := by
  obtain ⟨hlength, htracker⟩ := List.getElem?_eq_some_iff.mp ht
  have hset : s.trackers.set t tracker = s.trackers := by
    rw [← htracker, List.set_getElem_self]
  show { s with trackers := s.trackers.set t tracker } = s
  rw [hset]

/-! ## Operations -/

/-- Budgets are no gauges. -/
theorem raises_budget (h : Sound s) (s' : Ledger) (t : Nat)
    (htotal : s'.shared.total = s.shared.total)
    (hreserved : s'.shared.reservedBytes = s.shared.reservedBytes)
    (hpeak : s'.shared.peakOwnedAndReservedBytes = s.shared.peakOwnedAndReservedBytes)
    (hstate : ∀ g : Gauge, g.value ⟨s.shared, s'.stateOf t⟩ = g.value (s.locked t) ∧
      g.peak ⟨s.shared, s'.stateOf t⟩ = g.peak (s.locked t)) :
    Raises (s.locked t) (s'.locked t) := by
  have hsame (g : Gauge) : g.value (s'.locked t) = g.value ⟨s.shared, s'.stateOf t⟩ ∧
      g.peak (s'.locked t) = g.peak ⟨s.shared, s'.stateOf t⟩ := by
    cases g <;> simp only [Gauge.value, Gauge.peak, Ledger.locked, htotal, hreserved, hpeak,
      and_self]
  apply (h.peaked t).raises_of_le
  · exact fun g => (hsame g).2.trans (hstate g).2
  · exact fun g => ((hsame g).1.trans (hstate g).1).le

theorem child_follows (h : Sound s) (budget : MemoryBudget) :
    (Ledger.child budget).Ends s (fun _ s' => Follows s s') (Refuses s) := by
  have hold (t : Nat) (hne : t ≠ s.trackers.length) :
      (s.trackers ++ [⟨.new budget, false⟩])[t]? = s.trackers[t]? := by
    rcases lt_or_gt_of_ne hne with hlt | hgt
    · exact List.getElem?_append_left hlt
    · rw [List.getElem?_eq_none (by simp; omega), List.getElem?_eq_none (by omega)]
  have hraises (t : Nat) : Raises (s.locked t) (Ledger.locked { s with
      trackers := s.trackers ++ [⟨.new budget, false⟩] } t) := by
    apply raises_budget h { s with trackers := s.trackers ++ [⟨.new budget, false⟩] } t rfl rfl rfl
    intro g
    by_cases heq : t = s.trackers.length
    · subst heq
      cases g <;> simp [Gauge.value, Gauge.peak, Ledger.locked, Ledger.stateOf,
        MemoryTrackerState.new]
    · simp only [Ledger.locked, Ledger.stateOf, hold t heq, and_self]
  refine ⟨⟨⟨fun t tracker ht => ?_, fun q => ?_, ?_, ?_, h.rootSettled, fun a ha => ?_,
    fun r hr => ?_, h.byteBound, h.countBound, h.rootBudget, fun tracker htracker howner => ?_⟩,
    fun t => (hraises t).peaked⟩, hraises⟩
  · by_cases heq : t = s.trackers.length
    · subst heq
      obtain rfl : tracker = ⟨.new budget, false⟩ := by simpa using ht.symm
      have hlive : liveOf s.allocations s.trackers.length = 0 :=
        Multiset.filter_eq_nil.mpr fun a ha => (h.allocated a ha).ne
      have hreserved : reservedOf s.reservations s.trackers.length = 0 :=
        Multiset.filter_eq_nil.mpr fun r hr => (h.reserved r hr).ne
      show TrackerExact (liveOf s.allocations _) (reservedOf s.reservations _) _
      rw [hlive, hreserved]
      exact .new budget
    · exact h.tracker t tracker ((hold t heq).symm.trans ht)
  · show _ = ((s.trackers ++ [_]).map _).sum
    rw [List.map_append, List.sum_append, ← h.root q]
    cases q <;> rfl
  · show _ = ((s.trackers ++ [_]).map _).sum
    rw [List.map_append, List.sum_append, ← h.rootReservedBytes]
    rfl
  · show _ = ((s.trackers ++ [_]).map _).sum
    rw [List.map_append, List.sum_append, ← h.rootReservedAllocations]
    rfl
  · have hlt := h.allocated a ha
    show _ < (s.trackers ++ [_]).length
    rw [List.length_append]
    omega
  · have hlt := h.reserved r hr
    show _ < (s.trackers ++ [_]).length
    rw [List.length_append]
    omega
  · rcases List.mem_append.mp htracker with hin | hin
    · exact h.childBudget tracker hin howner
    · rw [List.mem_singleton.mp hin]
      cases budget with
      | unlimited => trivial
      | bytes limit => exact Nat.zero_le limit

theorem setRootBudget_follows (h : Sound s) (budget : MemoryBudget) :
    (Ledger.setRootBudget budget).Ends s (fun _ s' => Follows s s') (Refuses s) := by
  unfold Ledger.setRootBudget
  simp only [ends_bind, ends_get, ends_set]
  apply (checkBudgetChange_ends ..).mono
  · intro _ s' hs'
    obtain ⟨heq, hallows⟩ := hs'
    have hraises (t : Nat) : Raises (s.locked t) (Ledger.locked { s with
        shared := { s.shared with budget } } t) :=
      raises_budget h _ t rfl rfl rfl fun g => ⟨rfl, rfl⟩
    exact ⟨⟨⟨h.tracker, h.root, h.rootReservedBytes, h.rootReservedAllocations, h.rootSettled,
      h.allocated, h.reserved, h.byteBound, h.countBound, hallows, h.childBudget⟩,
      fun t => (hraises t).peaked⟩, hraises⟩
  · exact fun _ _ hf => hf

theorem setBudget_follows (h : Sound s) (t : Nat) (budget : MemoryBudget) :
    (Ledger.setBudget t budget).Ends s (fun _ s' => Follows s s') (Refuses s) := by
  unfold Ledger.setBudget Ledger.withTracker
  rw [ends_bind, ends_get]
  cases ht : s.trackers[t]? with
  | none => exact h.follows
  | some tracker =>
    simp only [ends_zoom]
    apply (setBudget_ends tracker.rootOwner budget).mono
    · rintro _ l ⟨hstate, hshared, rfl⟩
      have hsame : Raises (Ledger.lockedBy tracker s)
          ⟨if tracker.rootOwner then { s.shared with budget } else s.shared,
            { tracker.state with budget }⟩ := by
        apply Peaked.raises_of_le (locked_of_get ht ▸ h.peaked t)
        · intro g
          cases tracker.rootOwner <;> cases g <;> rfl
        · intro g
          cases tracker.rootOwner <;> cases g <;> exact le_refl _
      apply h.unlock ht ?_ hsame
      apply h.toExact.replace ht
      · exact (h.tracker t tracker ht).of_counters rfl rfl rfl rfl rfl
      · exact fun _ _ => rfl
      · exact fun _ _ => rfl
      · exact h.allocated
      · exact h.reserved
      · intro q
        cases tracker.rootOwner <;> rfl
      · cases tracker.rootOwner <;> rfl
      · cases tracker.rootOwner <;> rfl
      · have hbound := h.byteBound
        cases tracker.rootOwner <;> exact hbound
      · have hbound := h.countBound
        cases tracker.rootOwner <;> exact hbound
      · have hallows := h.rootBudget
        cases howner : tracker.rootOwner with
        | false => exact hallows
        | true => exact hshared howner
      · exact fun _ => hstate
    · rintro fault l ⟨rfl, hfault⟩
      exact ⟨unlock_lockedBy ht, hfault⟩

theorem reserve_follows (h : Sound s) (t : Nat) (cls : MemoryClass) (bytes : Nat) :
    (Ledger.reserve t cls bytes).Ends s
      (fun _ s' => Follows s s' ∧ (t < s.trackers.length →
        s'.reservations = s.reservations ++ [⟨t, cls, bytes⟩])) (Refuses s) := by
  unfold Ledger.reserve Ledger.withTracker
  rw [ends_bind, ends_get]
  cases ht : s.trackers[t]? with
  | none =>
    have hlength := List.getElem?_eq_none_iff.mp ht
    exact ⟨h.follows, fun hlt => absurd hlt (not_lt.mpr hlength)⟩
  | some tracker =>
    simp only [ends_bind, ends_zoom, ends_modify]
    apply (reserve_ends tracker.rootOwner cls bytes).mono
    · rintro _ l ⟨hreservable, rfl⟩
      have hstate := (h.tracker t tracker ht).reserve (s := Ledger.lockedBy tracker s)
        tracker.rootOwner ⟨t, cls, bytes⟩
      refine ⟨h.unlock ht ?_ ((locked_of_get ht ▸ h.peaked t).reserved _ _ _), fun _ => rfl⟩
      apply h.toExact.replace ht
      · show TrackerExact _ (share _ (s.reservations ++ [⟨t, cls, bytes⟩])
          (MemoryReservation.tracker ⟨t, cls, bytes⟩)) _
        rw [share_append]
        exact hstate
      · exact fun _ _ => rfl
      · exact fun t' hne => share_append_of_ne s.reservations (x := ⟨t, cls, bytes⟩) hne
      · exact h.allocated
      · intro r hr
        rcases List.mem_append.mp hr with hold | hnew
        · exact h.reserved r hold
        · rw [List.mem_singleton.mp hnew]
          exact (List.getElem?_eq_some_iff.mp ht).1
      · exact fun q => rfl
      · simp only [reservedState, Ledger.lockedBy]
        omega
      · simp only [reservedState, Ledger.lockedBy]
        omega
      · show s.shared.total.liveBytes + (s.shared.reservedBytes + bytes) < 2 ^ 64
        rw [← Nat.add_assoc]
        exact hreservable.bound
      · exact hreservable.capacity.allocations
      · show s.shared.budget.Allows (s.shared.total.liveBytes + (s.shared.reservedBytes + bytes))
        rw [← Nat.add_assoc]
        exact hreservable.sharedBudget
      · intro _
        show MemoryBudget.Allows _
          (tracker.state.total.liveBytes + (tracker.state.reservedBytes + bytes))
        rw [← Nat.add_assoc]
        exact hreservable.budget
    · rintro fault l ⟨rfl, hfault⟩
      exact ⟨unlock_lockedBy ht, hfault⟩

section Release

variable {i : Nat} {reservation : MemoryReservation}

/-- The tracker of a live reservation counts it. -/
theorem Exact.reservationExact (h : Exact s) (hi : s.reservations[i]? = some reservation)
    (ht : s.trackers[reservation.tracker]? = some tracker) :
    TrackerExact (liveOf s.allocations reservation.tracker)
      (reservation ::ₘ reservedOf (s.reservations.eraseIdx i) reservation.tracker)
      tracker.state := by
  have hshare : reservedOf s.reservations reservation.tracker =
      reservation ::ₘ reservedOf (s.reservations.eraseIdx i) reservation.tracker :=
    share_eraseIdx hi
  rw [← hshare]
  exact h.tracker _ tracker ht

/-- A live reservation is held on both levels. -/
theorem Exact.holds (h : Exact s) (hi : s.reservations[i]? = some reservation)
    (ht : s.trackers[reservation.tracker]? = some tracker) :
    Holds reservation.cls reservation.bytes (Ledger.lockedBy tracker s) := by
  have hexact := h.reservationExact hi ht
  obtain ⟨-, hbytes, hcount⟩ := h.state_le_root ht
  have hstate := hexact.reservedBytes
  have hallocations := hexact.reservedAllocations
  have hclass := hexact.classReservations reservation.cls
  rw [Multiset.map_cons, Multiset.sum_cons] at hstate
  rw [Multiset.card_cons] at hallocations
  rw [TrackerExact.card_filter_cons, if_pos rfl] at hclass
  constructor <;> simp only [Ledger.lockedBy] <;> omega

/-- Every counter has room to commit a live reservation. -/
theorem Exact.committable (h : Exact s) (hi : s.reservations[i]? = some reservation)
    (ht : s.trackers[reservation.tracker]? = some tracker) :
    Committable reservation.cls reservation.bytes (Ledger.lockedBy tracker s) := by
  have hholds := h.holds hi ht
  have hexact := h.tracker _ tracker ht
  obtain ⟨htotal, hbytes, hcount⟩ := h.state_le_root ht
  have hliveBytes := htotal .liveBytes
  have hallocations := htotal .allocations
  have hrootLive := h.rootSettled
  have hstateLive := hexact.settled
  have hclassLive := hexact.classSettled reservation.cls
  have hclassBytes := le_sum_table (fun cls => (tracker.state.classes cls).amount .liveBytes)
    reservation.cls
  have hclassAllocations := le_sum_table
    (fun cls => (tracker.state.classes cls).amount .allocations) reservation.cls
  rw [hexact.classTotals .liveBytes] at hclassBytes
  rw [hexact.classTotals .allocations] at hclassAllocations
  have hclassReserved : tracker.state.reservedClasses reservation.cls ≤
      tracker.state.reservedAllocations := by
    rw [hexact.classReservations, hexact.reservedAllocations]
    exact Multiset.card_le_card (Multiset.filter_le _ _)
  have hbyteBound := h.byteBound
  have hcountBound := h.countBound
  have hsharedBytes := hholds.sharedBytes
  have hstateBytes := hholds.stateBytes
  have hsharedCount := hholds.sharedCount
  have hstateCount := hholds.stateCount
  have hclassCount := hholds.classCount
  simp only [MemoryCounters.amount, Ledger.lockedBy] at *
  have hshared : Capacity s.shared.total reservation.bytes (s.shared.reservedAllocations - 1) := by
    constructor <;> omega
  have hstate : Capacity tracker.state.total reservation.bytes
      (tracker.state.reservedAllocations - 1) := by
    constructor <;> omega
  have hclass : Capacity (tracker.state.classes reservation.cls) reservation.bytes
      (tracker.state.reservedClasses reservation.cls - 1) := by
    constructor <;> omega
  exact ⟨hholds, hshared, hstate, hclass⟩

theorem dropReservation_follows (h : Sound s) (i : Nat) :
    (Ledger.dropReservation i).Ends s (fun _ s' => Follows s s') (fun _ _ => False) := by
  unfold Ledger.dropReservation
  rw [ends_bind, ends_get]
  cases hi : s.reservations[i]? with
  | none => exact h.follows
  | some reservation =>
    obtain ⟨tracker, ht⟩ := h.trackerOf_reservation hi
    have hholds := h.holds hi ht
    simp only [Ledger.withTracker, ends_bind, ends_get, ht, ends_zoom, ends_modify]
    apply (dropReservation_ends hholds).mono
    · rintro _ l rfl
      have hexact := h.reservationExact hi ht
      apply h.unlock ht ?_ ((locked_of_get ht ▸ h.peaked reservation.tracker).released _ _)
      apply h.toExact.replace ht
      · exact hexact.release (s := Ledger.lockedBy tracker s)
      · exact fun _ _ => rfl
      · exact fun t' hne => share_eraseIdx_of_ne hi hne
      · exact h.allocated
      · exact fun r hr => h.reserved r (List.mem_of_mem_eraseIdx hr)
      · exact fun q => rfl
      · have hshared := hholds.sharedBytes
        have hstate := hholds.stateBytes
        simp only [releasedState, Ledger.lockedBy] at *
        omega
      · have hshared := hholds.sharedCount
        have hstate := hholds.stateCount
        simp only [releasedState, Ledger.lockedBy] at *
        omega
      · have hbound := h.byteBound
        simp only [releasedState, Ledger.lockedBy]
        omega
      · have hbound := h.countBound
        simp only [releasedState, Ledger.lockedBy]
        omega
      · exact h.rootBudget.mono (Nat.add_le_add_left (Nat.sub_le _ _) _)
      · exact fun howner => (h.childBudget tracker (List.mem_of_getElem? ht) howner).mono
          (Nat.add_le_add_left (Nat.sub_le _ _) _)
    · exact fun _ _ hf => hf

/-- A live reservation always commits, and no gauge goes down. -/
theorem commit_follows (h : Sound s) (i : Nat) :
    (Ledger.commit i).Ends s (fun _ s' => Follows s s' ∧
      ∀ t (g : Gauge), g.value (s.locked t) ≤ g.value (s'.locked t)) (fun _ _ => False) := by
  unfold Ledger.commit
  rw [ends_bind, ends_get]
  cases hi : s.reservations[i]? with
  | none => exact ⟨h.follows, fun _ _ => le_refl _⟩
  | some reservation =>
    obtain ⟨tracker, ht⟩ := h.trackerOf_reservation hi
    have hready := h.committable hi ht
    have hlength : reservation.tracker < s.trackers.length := (List.getElem?_eq_some_iff.mp ht).1
    simp only [Ledger.withTracker, ends_bind, ends_get, ht, ends_attempt]
    apply (commit_ends hready).mono
    · rintro identity l ⟨rfl, -⟩
      simp only [ends_modify]
      have hshared := hready.sharedBytes
      have hstate := hready.stateBytes
      have hsharedCount := hready.sharedCount
      have hstateCount := hready.stateCount
      have hexact := h.reservationExact hi ht
      refine ⟨h.unlock ht ?_ ((locked_of_get ht ▸ h.peaked reservation.tracker).committed
        hshared hstate), fun t g => ?_⟩
      · apply h.toExact.replace ht
        · show TrackerExact (share _ (s.allocations ++ [_])
            (MemoryAllocation.tracker ⟨identity, reservation.tracker, reservation.cls,
              reservation.bytes⟩)) _ _
          rw [share_append]
          exact hexact.commit (s := Ledger.lockedBy tracker s) identity reservation.tracker
        · exact fun t' hne => share_append_of_ne s.allocations
            (x := ⟨identity, reservation.tracker, reservation.cls, reservation.bytes⟩) hne
        · exact fun t' hne => share_eraseIdx_of_ne hi hne
        · intro a ha
          rcases List.mem_append.mp ha with hold | hnew
          · exact h.allocated a hold
          · rw [List.mem_singleton.mp hnew]
            exact hlength
        · exact fun r hr => h.reserved r (List.mem_of_mem_eraseIdx hr)
        · intro q
          cases q <;> simp only [MemoryCounters.amount, committedState, releasedState,
            MemoryCounters.allocated, Ledger.lockedBy] <;> omega
        · simp only [committedState, releasedState, Ledger.lockedBy] at *
          omega
        · simp only [committedState, releasedState, Ledger.lockedBy] at *
          omega
        · have hbound := h.byteBound
          simp only [committedState, releasedState, MemoryCounters.allocated, Ledger.lockedBy] at *
          omega
        · have hbound := h.countBound
          simp only [committedState, releasedState, MemoryCounters.allocated, Ledger.lockedBy] at *
          omega
        · apply h.rootBudget.mono
          simp only [committedState, releasedState, MemoryCounters.allocated, Ledger.lockedBy] at *
          omega
        · intro howner
          apply (h.childBudget tracker (List.mem_of_getElem? ht) howner).mono
          simp only [committedState, releasedState, MemoryCounters.allocated, Ledger.lockedBy] at *
          omega
      · rw [locked_unlock ht]
        have hle (g : Gauge) := @value_le_committed _ reservation.cls _ hshared hstate g
        by_cases heq : t = reservation.tracker
        · subst heq
          rw [if_pos rfl, locked_of_get ht]
          exact hle g
        · rw [if_neg heq]
          exact value_le_sibling hle (s.stateOf t) g
    · exact fun _ _ hf => hf.elim

end Release

section Live

variable {i : Nat} {allocation : MemoryAllocation}

/-- The tracker of a live allocation counts it. -/
theorem Exact.allocationExact (h : Exact s) (hi : s.allocations[i]? = some allocation)
    (ht : s.trackers[allocation.tracker]? = some tracker) :
    TrackerExact (allocation ::ₘ liveOf (s.allocations.eraseIdx i) allocation.tracker)
      (reservedOf s.reservations allocation.tracker) tracker.state := by
  have hshare : liveOf s.allocations allocation.tracker =
      allocation ::ₘ liveOf (s.allocations.eraseIdx i) allocation.tracker := share_eraseIdx hi
  rw [← hshare]
  exact h.tracker _ tracker ht

/-- A live allocation is owned on both levels. -/
theorem Exact.owns (h : Exact s) (hi : s.allocations[i]? = some allocation)
    (ht : s.trackers[allocation.tracker]? = some tracker) :
    Owns allocation.cls allocation.bytes (Ledger.lockedBy tracker s) := by
  have hexact := h.allocationExact hi ht
  have hstate := hexact.covers
  have hclass := hexact.covers_class
  have htotal := (h.state_le_root ht).1
  have hbytes := htotal .liveBytes
  have hlive := htotal .liveAllocations
  have hfrees := htotal .frees
  have hclassFrees := le_sum_table (fun cls => (tracker.state.classes cls).amount .frees)
    allocation.cls
  rw [hexact.classTotals .frees] at hclassFrees
  have hsettled := h.rootSettled
  have hbound := h.countBound
  have hstateBytes := hstate.bytes
  have hstateLive := hstate.live
  simp only [MemoryCounters.amount] at hbytes hlive hfrees hclassFrees
  refine ⟨⟨?_, ?_⟩, ?_, hstate, ?_, hclass, ?_⟩ <;> simp only [Ledger.lockedBy] <;> omega

theorem dropAllocation_follows (h : Sound s) (i : Nat) :
    (Ledger.dropAllocation i).Ends s (fun _ s' => Follows s s') (fun _ _ => False) := by
  unfold Ledger.dropAllocation
  rw [ends_bind, ends_get]
  cases hi : s.allocations[i]? with
  | none => exact h.follows
  | some allocation =>
    obtain ⟨tracker, ht⟩ := h.trackerOf_allocation hi
    have howns := h.owns hi ht
    have hexact := h.allocationExact hi ht
    simp only [Ledger.withTracker, ends_bind, ends_get, ht, ends_zoom, ends_modify]
    apply (dropAllocation_ends howns).mono
    · rintro _ l rfl
      have hshared := howns.shared
      have hstate := howns.total
      have hsharedBytes := hshared.bytes
      have hsharedLive := hshared.live
      have hstateBytes := hstate.bytes
      have hstateLive := hstate.live
      apply h.unlock ht ?_ ((locked_of_get ht ▸ h.peaked allocation.tracker).freed _ _)
      apply h.toExact.replace ht
      · exact hexact.free (s := Ledger.lockedBy tracker s)
      · exact fun t' hne => share_eraseIdx_of_ne hi hne
      · exact fun _ _ => rfl
      · exact fun a ha => h.allocated a (List.mem_of_mem_eraseIdx ha)
      · exact h.reserved
      · intro q
        cases q <;> simp only [MemoryCounters.amount, freedState, MemoryCounters.freed,
          Ledger.lockedBy] at * <;> omega
      · rfl
      · rfl
      · have hbound := h.byteBound
        simp only [freedState, MemoryCounters.freed, Ledger.lockedBy]
        omega
      · exact h.countBound
      · exact h.rootBudget.mono (Nat.add_le_add_right (Nat.sub_le _ _) _)
      · exact fun howner => (h.childBudget tracker (List.mem_of_getElem? ht) howner).mono
          (Nat.add_le_add_right (Nat.sub_le _ _) _)
    · exact fun _ _ hf => hf

theorem reclassify_follows (h : Sound s) (i : Nat) (cls : MemoryClass) :
    (Ledger.reclassify i cls).Ends s (fun _ s' => Follows s s') (fun _ _ => False) := by
  unfold Ledger.reclassify
  rw [ends_bind, ends_get]
  cases hi : s.allocations[i]? with
  | none => exact h.follows
  | some allocation =>
    obtain ⟨tracker, ht⟩ := h.trackerOf_allocation hi
    have hexact := h.allocationExact hi ht
    have hclass := hexact.covers_class
    have hsettled := hexact.classSettled allocation.cls
    simp only [Ledger.withTracker, ends_bind, ends_get, ht, ends_ite, ends_pure, ends_modify,
      ends_zoom]
    refine ⟨fun _ => h.follows, fun hne => ?_⟩
    have hclassLive := hclass.live
    have hcapacity : Capacity (tracker.state.classes cls) allocation.bytes 0 := by
      have htotal := (h.state_le_root ht).1
      have hrootBytes := htotal .liveBytes
      have hrootAllocations := htotal .allocations
      have hbytes := add_le_sum_table
        (fun cls => (tracker.state.classes cls).amount .liveBytes) hne
      have hallocations := add_le_sum_table
        (fun cls => (tracker.state.classes cls).amount .allocations) hne
      rw [hexact.classTotals .liveBytes] at hbytes
      rw [hexact.classTotals .allocations] at hallocations
      have hclassSettled := hexact.classSettled cls
      have hclassBytes := hclass.bytes
      have hbyteBound := h.byteBound
      have hcountBound := h.countBound
      simp only [MemoryCounters.amount] at hrootBytes hrootAllocations hbytes hallocations
      constructor <;> omega
    apply (moveLive_ends (s := Ledger.lockedBy tracker s) hne hclass (by
      simp only [Ledger.lockedBy]
      omega) hcapacity).mono
    · rintro _ l rfl
      show Follows s { s.unlock allocation.tracker tracker (movedState allocation.cls cls
        allocation.bytes (Ledger.lockedBy tracker s)) with
          allocations := s.allocations.set i { allocation with cls } }
      apply h.unlock ht ?_ ((locked_of_get ht ▸ h.peaked allocation.tracker).moved hne _)
      apply h.toExact.replace ht
      · have hshare : liveOf (s.allocations.set i { allocation with cls }) allocation.tracker =
            { allocation with cls } ::ₘ liveOf (s.allocations.eraseIdx i) allocation.tracker :=
          share_set hi rfl
        rw [hshare]
        exact hexact.move (s := Ledger.lockedBy tracker s) hne
      · exact fun t' hne' => share_set_of_ne hi rfl hne'
      · exact fun _ _ => rfl
      · intro a ha
        rcases List.mem_or_eq_of_mem_set ha with hold | rfl
        · exact h.allocated a hold
        · exact h.allocated allocation (List.mem_of_getElem? hi)
      · exact h.reserved
      · exact fun q => rfl
      · rfl
      · rfl
      · exact h.byteBound
      · exact h.countBound
      · exact h.rootBudget
      · exact fun howner => h.childBudget tracker (List.mem_of_getElem? ht) howner
    · exact fun _ _ hf => hf

end Live

/-- A reservation that is committed at once. -/
theorem allocate_follows (h : Sound s) (t : Nat) (cls : MemoryClass) (bytes : Nat) :
    (Ledger.allocate t cls bytes).Ends s (fun _ s' => Follows s s') (Refuses s) := by
  unfold Ledger.allocate
  rw [ends_bind]
  apply (reserve_follows h t cls bytes).mono
  · rintro _ middle ⟨⟨hmiddle, hraised⟩, -⟩
    rw [ends_bind, ends_get]
    apply (commit_follows hmiddle _).mono
    · rintro _ s' ⟨⟨hs', hraised'⟩, hle⟩
      refine ⟨hs', fun t g => ?_⟩
      rw [hraised' t g, hraised t g, max_assoc, max_eq_right (hle t g)]
    · exact fun _ _ hf => hf.elim
  · exact fun _ _ hf => hf

theorem Op.exec_follows (h : Sound s) (op : Op) :
    op.exec.Ends s (fun _ s' => Follows s s') (Refuses s) := by
  have hnever {m : LedgerM Unit} (hm : m.Ends s (fun _ s' => Follows s s') fun _ _ => False) :
      m.Ends s (fun _ s' => Follows s s') (Refuses s) :=
    hm.mono (fun _ _ hr => hr) fun _ _ hf => hf.elim
  have hreserve (t : Nat) (cls : MemoryClass) (bytes : Nat) :
      (Ledger.reserve t cls bytes).Ends s (fun _ s' => Follows s s') (Refuses s) :=
    (reserve_follows h t cls bytes).mono (fun _ _ hr => hr.1) fun _ _ hf => hf
  cases op with
  | child budget => exact child_follows h budget
  | setRootBudget budget => exact setRootBudget_follows h budget
  | setBudget t budget => exact setBudget_follows h t budget
  | reserve t cls bytes => exact hreserve t cls bytes
  | commit i => exact hnever ((commit_follows h i).mono (fun _ _ hr => hr.1) fun _ _ hf => hf)
  | dropReservation i => exact hnever (dropReservation_follows h i)
  | dropAllocation i => exact hnever (dropAllocation_follows h i)
  | reclassify i cls => exact hnever (reclassify_follows h i cls)
  | allocate t cls bytes => exact allocate_follows h t cls bytes
  | reserveDuplicate i =>
    show (Ledger.reserveDuplicate i).Ends s _ _
    unfold Ledger.reserveDuplicate
    rw [ends_bind, ends_get]
    split
    · exact h.follows
    · exact hreserve _ _ _
  | duplicate i =>
    show (Ledger.duplicate i).Ends s _ _
    unfold Ledger.duplicate
    rw [ends_bind, ends_get]
    split
    · exact h.follows
    · exact allocate_follows h _ _ _

/-! ## Runs -/

theorem step_follows (h : Sound s) (op : Op) : Follows s (step s op) := by
  apply Ends.after (P := fun s' : Ledger => Follows s s')
  apply (op.exec_follows h).mono
  · exact fun _ _ hr => hr
  · rintro _ _ ⟨rfl, -⟩
    exact h.follows

/-- A ledger at its start: a root alone, or a tracker that owns its root. -/
def Initial (s : Ledger) : Prop :=
  ∃ budget, s = .ofRoot budget ∨ s = .ofTracker budget

theorem MemoryBudget.allows_zero (budget : MemoryBudget) : budget.Allows 0 := by
  cases budget with
  | unlimited => trivial
  | bytes limit => exact Nat.zero_le limit

theorem Initial.sound (h : Initial s) :
    Sound s ∧ ∀ t (g : Gauge), g.peak (s.locked t) = g.value (s.locked t) := by
  obtain ⟨budget, rfl | rfl⟩ := h
  · have hgauge (t : Nat) (g : Gauge) : g.peak ((Ledger.ofRoot budget).locked t) =
        g.value ((Ledger.ofRoot budget).locked t) := by
      cases g <;> rfl
    refine ⟨⟨⟨nofun, fun q => ?_, rfl, rfl, rfl, nofun, nofun, ?_, ?_, budget.allows_zero,
      nofun⟩, fun t g => (hgauge t g).ge⟩, hgauge⟩
    · cases q <;> rfl
    · exact Nat.two_pow_pos 64
    · exact Nat.two_pow_pos 64
  · have hgauge (t : Nat) (g : Gauge) : g.peak ((Ledger.ofTracker budget).locked t) =
        g.value ((Ledger.ofTracker budget).locked t) := by
      cases t <;> cases g <;> rfl
    refine ⟨⟨⟨fun t tracker ht => ?_, fun q => ?_, rfl, rfl, rfl, nofun, nofun, ?_, ?_,
      budget.allows_zero, fun tracker htracker howner => ?_⟩, fun t g => (hgauge t g).ge⟩, hgauge⟩
    · cases t with
      | zero =>
        obtain rfl := Option.some.inj ht
        exact .new budget
      | succ t => cases ht
    · cases q <;> rfl
    · exact Nat.two_pow_pos 64
    · exact Nat.two_pow_pos 64
    · rw [List.mem_singleton.mp htracker] at howner
      cases howner

theorem run_sound (h : Sound s) (ops : List Op) : Sound (run step s ops) := by
  induction ops generalizing s with
  | nil => exact h
  | cons op ops ih => exact ih (step_follows h op).1

/-- The memory ledger is exact in every reachable state: every counter counts the live handles,
budgets hold, and each peak is the greatest value that its counter had. The next operation
neither panics nor, when it returns an error, changes anything, and a commit does not fail. -/
theorem ledger_exact {s₀ : Ledger} (h : Initial s₀) (ops : List Op) :
    let s := run step s₀ ops
    Exact s ∧
    (∀ (t : Nat) tracker, s.trackers[t]? = some tracker → (s.budgetOf tracker).Allows
      (tracker.state.total.liveBytes + tracker.state.reservedBytes)) ∧
    (∀ t (g : Gauge), IsGreatest
      {n | ∃ earlier, earlier <+: ops ∧ g.value ((run step s₀ earlier).locked t) = n}
      (g.peak (s.locked t))) ∧
    (∀ op : Op, op.exec.Ends s (fun _ _ => True) fun fault s' => fault ≠ .panic ∧ s' = s) ∧
    ∀ i, (Ledger.commit i).Ends s (fun _ _ => True) fun _ _ => False := by
  obtain ⟨hsound, hgauge⟩ := h.sound
  have hend := run_sound hsound ops
  refine ⟨hend.toExact, fun t tracker ht => hend.trackerBudget ht, fun t g => ?_, fun op => ?_,
    fun i => ?_⟩
  · exact @peak_isGreatest _ _ step Sound (fun s => g.value (s.locked t))
      (fun s => g.peak (s.locked t)) (fun s op hs => (step_follows hs op).1)
      (fun s op hs => (step_follows hs op).2 t g) _ ops hsound (hgauge t g)
  · exact (op.exec_follows hend).mono (fun _ _ _ => trivial) fun _ _ hf => ⟨hf.2, hf.1⟩
  · exact (commit_follows hend i).mono (fun _ _ _ => trivial) fun _ _ hf => hf

theorem ledger_exact_duplicate :
    let s := run step (.ofTracker (.bytes 100)) [.child .unlimited, .reserve 0 .kvCache 40,
      .commit 0, .duplicate 0, .reclassify 0 .activation, .dropAllocation 0]
    Exact s ∧ s.shared.total.liveBytes = 40 ∧ s.shared.peakOwnedAndReservedBytes = 80 :=
  ⟨(ledger_exact ⟨.bytes 100, .inr rfl⟩ _).1, by decide +kernel, by decide +kernel⟩

end Leone.Memory

import Leone.Memory.Exact
import Leone.Memory.Gauges

/-!
# The ledger invariant

Every tracker counts its live handles, the root counts what its trackers count, and the bytes that
are owned or reserved fit the budgets.
-/

namespace Leone.Memory

open Framework Framework.Method

/-- The live allocations of one tracker. -/
abbrev liveOf (allocations : List MemoryAllocation) (t : Nat) : Multiset MemoryAllocation :=
  share MemoryAllocation.tracker allocations t

/-- The outstanding reservations of one tracker. -/
abbrev reservedOf (reservations : List MemoryReservation) (t : Nat) : Multiset MemoryReservation :=
  share MemoryReservation.tracker reservations t

/-- The accounting of a ledger is exact and within its budgets. -/
structure Exact (s : Ledger) : Prop where
  tracker : ∀ t tracker, s.trackers[t]? = some tracker →
    TrackerExact (liveOf s.allocations t) (reservedOf s.reservations t) tracker.state
  root : ∀ q, s.shared.total.amount q =
    (s.trackers.map fun tracker => tracker.state.total.amount q).sum
  rootReservedBytes : s.shared.reservedBytes =
    (s.trackers.map fun tracker => tracker.state.reservedBytes).sum
  rootReservedAllocations : s.shared.reservedAllocations =
    (s.trackers.map fun tracker => tracker.state.reservedAllocations).sum
  rootSettled : s.shared.total.allocations =
    s.shared.total.liveAllocations + s.shared.total.frees
  allocated : ∀ allocation ∈ s.allocations, allocation.tracker < s.trackers.length
  reserved : ∀ reservation ∈ s.reservations, reservation.tracker < s.trackers.length
  byteBound : s.shared.total.liveBytes + s.shared.reservedBytes < 2 ^ 64
  countBound : s.shared.total.allocations + s.shared.reservedAllocations < 2 ^ 64
  rootBudget : s.shared.budget.Allows (s.shared.total.liveBytes + s.shared.reservedBytes)
  childBudget : ∀ tracker ∈ s.trackers, tracker.rootOwner = false →
    tracker.state.budget.Allows (tracker.state.total.liveBytes + tracker.state.reservedBytes)

/-- The state of a tracker. A tracker that was never created counts nothing. -/
def Ledger.stateOf (s : Ledger) (t : Nat) : MemoryTrackerState :=
  ((s.trackers[t]?).map MemoryTracker.state).getD (.new .unlimited)

/-- The root and one tracker. -/
def Ledger.locked (s : Ledger) (t : Nat) : Locked := ⟨s.shared, s.stateOf t⟩

/-- The invariant of a ledger. -/
structure Sound (s : Ledger) : Prop extends Exact s where
  peaked : ∀ t, Peaked (s.locked t)

theorem MemoryBudget.Allows.mono {budget : MemoryBudget} {accounted accounted' : Nat}
    (h : budget.Allows accounted) (hle : accounted' ≤ accounted) : budget.Allows accounted' := by
  cases budget with
  | unlimited => trivial
  | bytes limit => exact hle.trans h

namespace Exact

variable {s : Ledger} {t : Nat} {tracker : MemoryTracker}

theorem state_le_root (h : Exact s) (ht : s.trackers[t]? = some tracker) :
    (∀ q, tracker.state.total.amount q ≤ s.shared.total.amount q) ∧
      tracker.state.reservedBytes ≤ s.shared.reservedBytes ∧
      tracker.state.reservedAllocations ≤ s.shared.reservedAllocations := by
  refine ⟨fun q => ?_, ?_, ?_⟩
  · rw [h.root q]
    exact le_sum_map ht fun tracker => tracker.state.total.amount q
  · rw [h.rootReservedBytes]
    exact le_sum_map ht fun tracker => tracker.state.reservedBytes
  · rw [h.rootReservedAllocations]
    exact le_sum_map ht fun tracker => tracker.state.reservedAllocations

/-- The budget that bounds a tracker allows what it owns and reserves. -/
theorem trackerBudget (h : Exact s) (ht : s.trackers[t]? = some tracker) :
    (s.budgetOf tracker).Allows
      (tracker.state.total.liveBytes + tracker.state.reservedBytes) := by
  unfold Ledger.budgetOf
  cases howner : tracker.rootOwner with
  | false => exact h.childBudget tracker (List.mem_of_getElem? ht) howner
  | true =>
    obtain ⟨htotal, hreserved, -⟩ := h.state_le_root ht
    exact h.rootBudget.mono (Nat.add_le_add (htotal .liveBytes) hreserved)

/-- One tracker and the root change by the same amounts. -/
theorem replace (h : Exact s) (ht : s.trackers[t]? = some tracker) {l : Locked}
    {reservations : List MemoryReservation} {allocations : List MemoryAllocation}
    (hstate : TrackerExact (liveOf allocations t) (reservedOf reservations t) l.state)
    (hlive : ∀ t', t' ≠ t → liveOf allocations t' = liveOf s.allocations t')
    (hreserved : ∀ t', t' ≠ t → reservedOf reservations t' = reservedOf s.reservations t')
    (hallocated : ∀ allocation ∈ allocations, allocation.tracker < s.trackers.length)
    (hreservedAt : ∀ reservation ∈ reservations, reservation.tracker < s.trackers.length)
    (hroot : ∀ q, l.shared.total.amount q + tracker.state.total.amount q =
      s.shared.total.amount q + l.state.total.amount q)
    (hbytes : l.shared.reservedBytes + tracker.state.reservedBytes =
      s.shared.reservedBytes + l.state.reservedBytes)
    (hcount : l.shared.reservedAllocations + tracker.state.reservedAllocations =
      s.shared.reservedAllocations + l.state.reservedAllocations)
    (hbyteBound : l.shared.total.liveBytes + l.shared.reservedBytes < 2 ^ 64)
    (hcountBound : l.shared.total.allocations + l.shared.reservedAllocations < 2 ^ 64)
    (hrootBudget : l.shared.budget.Allows (l.shared.total.liveBytes + l.shared.reservedBytes))
    (hbudget : tracker.rootOwner = false →
      l.state.budget.Allows (l.state.total.liveBytes + l.state.reservedBytes)) :
    Exact { s.unlock t tracker l with reservations, allocations } := by
  have hsum (f : MemoryTrackerState → Nat) :
      ((s.trackers.set t { tracker with state := l.state }).map fun tracker => f tracker.state).sum +
        f tracker.state = (s.trackers.map fun tracker => f tracker.state).sum + f l.state :=
    sum_map_set ht { tracker with state := l.state } fun tracker => f tracker.state
  have hsettled := (h.tracker t tracker ht).settled
  have hlength : t < s.trackers.length := (List.getElem?_eq_some_iff.mp ht).1
  refine ⟨fun t' tracker' ht' => ?_, fun q => ?_, ?_, ?_, ?_, fun a ha => ?_, fun r hr => ?_,
    hbyteBound, hcountBound, hrootBudget, fun tracker' htracker' howner => ?_⟩
  · by_cases heq : t' = t
    · subst heq
      obtain rfl : tracker' = { tracker with state := l.state } := by
        simpa [Ledger.unlock, hlength] using ht'.symm
      exact hstate
    · have hold : s.trackers[t']? = some tracker' := by
        simpa [Ledger.unlock, List.getElem?_set_ne (Ne.symm heq)] using ht'
      have hexact := h.tracker t' tracker' hold
      rw [← hlive t' heq, ← hreserved t' heq] at hexact
      exact hexact
  · have hamount := hsum fun state => state.total.amount q
    have hold := h.root q
    have hchange := hroot q
    simp only [Ledger.unlock]
    omega
  · have hamount := hsum MemoryTrackerState.reservedBytes
    have hold := h.rootReservedBytes
    simp only [Ledger.unlock]
    omega
  · have hamount := hsum MemoryTrackerState.reservedAllocations
    have hold := h.rootReservedAllocations
    simp only [Ledger.unlock]
    omega
  · have hnew := hstate.settled
    have hold := h.rootSettled
    have hallocations := hroot .allocations
    have hlives := hroot .liveAllocations
    have hfrees := hroot .frees
    simp only [MemoryCounters.amount] at hallocations hlives hfrees
    simp only [Ledger.unlock]
    omega
  · simpa [Ledger.unlock] using hallocated a ha
  · simpa [Ledger.unlock] using hreservedAt r hr
  · rcases List.mem_or_eq_of_mem_set htracker' with hold | rfl
    · exact h.childBudget tracker' hold howner
    · exact hbudget howner

end Exact

end Leone.Memory

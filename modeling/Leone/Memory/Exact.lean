import Leone.Framework.Tally
import Leone.Memory.Steps

/-!
# Exact counters

The counters of a tracker are exact when they count its live handles, in total and by class. Each
method keeps them exact for the handles that it adds or takes out.
-/

namespace Leone.Memory

open Framework

/-- The counters that move with the allocations of a tracker. -/
inductive Amount
  | liveBytes
  | liveAllocations
  | allocations
  | frees
  deriving DecidableEq

def MemoryCounters.amount (counters : MemoryCounters) : Amount → Nat
  | .liveBytes => counters.liveBytes
  | .liveAllocations => counters.liveAllocations
  | .allocations => counters.allocations
  | .frees => counters.frees

/-- The handles of one class. -/
def ofClass (live : Multiset MemoryAllocation) (cls : MemoryClass) : Multiset MemoryAllocation :=
  live.filter fun allocation => allocation.cls = cls

/-- The counters of a tracker count its live allocations and its reservations. -/
structure TrackerExact (live : Multiset MemoryAllocation) (reserved : Multiset MemoryReservation)
    (state : MemoryTrackerState) : Prop where
  liveBytes : state.total.liveBytes = (live.map MemoryAllocation.bytes).sum
  liveAllocations : state.total.liveAllocations = live.card
  reservedBytes : state.reservedBytes = (reserved.map MemoryReservation.bytes).sum
  reservedAllocations : state.reservedAllocations = reserved.card
  classBytes : ∀ cls, (state.classes cls).liveBytes =
    ((ofClass live cls).map MemoryAllocation.bytes).sum
  classAllocations : ∀ cls, (state.classes cls).liveAllocations = (ofClass live cls).card
  classReservations : ∀ cls, state.reservedClasses cls =
    (reserved.filter fun reservation => reservation.cls = cls).card
  settled : state.total.allocations = state.total.liveAllocations + state.total.frees
  classSettled : ∀ cls, (state.classes cls).allocations =
    (state.classes cls).liveAllocations + (state.classes cls).frees
  classTotals : ∀ q, ∑ cls, (state.classes cls).amount q = state.total.amount q

namespace TrackerExact

variable {live : Multiset MemoryAllocation} {reserved : Multiset MemoryReservation}
  {state : MemoryTrackerState} {s : Locked}

theorem new (budget : MemoryBudget) : TrackerExact 0 0 (.new budget) := by
  refine ⟨rfl, rfl, rfl, rfl, fun _ => rfl, fun _ => rfl, fun _ => rfl, rfl, fun _ => rfl, ?_⟩
  intro q
  cases q <;> exact Finset.sum_const_zero

/-- Exactness depends only on the counters. -/
theorem of_counters {state' : MemoryTrackerState} (h : TrackerExact live reserved state)
    (htotal : state'.total = state.total) (hclasses : state'.classes = state.classes)
    (hreservedClasses : state'.reservedClasses = state.reservedClasses)
    (hbytes : state'.reservedBytes = state.reservedBytes)
    (hcount : state'.reservedAllocations = state.reservedAllocations) :
    TrackerExact live reserved state' := by
  constructor <;> simp only [htotal, hclasses, hreservedClasses, hbytes, hcount]
  · exact h.liveBytes
  · exact h.liveAllocations
  · exact h.reservedBytes
  · exact h.reservedAllocations
  · exact h.classBytes
  · exact h.classAllocations
  · exact h.classReservations
  · exact h.settled
  · exact h.classSettled
  · exact h.classTotals

/-- The reservations of a class, with one more. -/
theorem card_filter_cons (reservation : MemoryReservation) (cls : MemoryClass) :
    ((reservation ::ₘ reserved).filter fun r => r.cls = cls).card =
      (reserved.filter fun r => r.cls = cls).card + if reservation.cls = cls then 1 else 0 := by
  rw [Multiset.filter_cons]
  split_ifs <;> simp

theorem card_ofClass_cons (allocation : MemoryAllocation) (cls : MemoryClass) :
    (ofClass (allocation ::ₘ live) cls).card =
      (ofClass live cls).card + if allocation.cls = cls then 1 else 0 := by
  unfold ofClass
  rw [Multiset.filter_cons]
  split_ifs <;> simp

theorem sum_ofClass_cons (allocation : MemoryAllocation) (cls : MemoryClass) :
    ((ofClass (allocation ::ₘ live) cls).map MemoryAllocation.bytes).sum =
      ((ofClass live cls).map MemoryAllocation.bytes).sum +
        if allocation.cls = cls then allocation.bytes else 0 := by
  unfold ofClass
  rw [Multiset.filter_cons]
  split_ifs <;> simp [Nat.add_comm]

theorem reserve (h : TrackerExact live reserved s.state) (rootOwner : Bool)
    (reservation : MemoryReservation) :
    TrackerExact live (reservation ::ₘ reserved)
      (reservedState rootOwner reservation.cls reservation.bytes s).state := by
  refine ⟨h.liveBytes, h.liveAllocations, ?_, ?_, h.classBytes, h.classAllocations, fun cls => ?_,
    h.settled, h.classSettled, h.classTotals⟩
  · rw [Multiset.map_cons, Multiset.sum_cons, ← h.reservedBytes]
    exact Nat.add_comm _ _
  · rw [Multiset.card_cons, ← h.reservedAllocations]
    rfl
  · rw [card_filter_cons, ← h.classReservations cls]
    simp only [reservedState, Function.update_apply]
    by_cases hcls : cls = reservation.cls
    · subst hcls
      simp
    · simp [hcls, Ne.symm hcls]

theorem release {reservation : MemoryReservation}
    (h : TrackerExact live (reservation ::ₘ reserved) s.state) :
    TrackerExact live reserved (releasedState reservation.cls reservation.bytes s).state := by
  refine ⟨h.liveBytes, h.liveAllocations, ?_, ?_, h.classBytes, h.classAllocations, fun cls => ?_,
    h.settled, h.classSettled, h.classTotals⟩
  · have hbytes := h.reservedBytes
    rw [Multiset.map_cons, Multiset.sum_cons] at hbytes
    simp only [releasedState]
    omega
  · have hcount := h.reservedAllocations
    rw [Multiset.card_cons] at hcount
    simp only [releasedState]
    omega
  · have hclass := h.classReservations cls
    rw [card_filter_cons] at hclass
    simp only [releasedState, Function.update_apply]
    by_cases hcls : cls = reservation.cls
    · subst hcls
      simp only [if_true] at hclass ⊢
      omega
    · rw [if_neg (Ne.symm hcls)] at hclass
      rw [if_neg hcls]
      omega

/-- A table of counters with one entry that counts one allocation more. -/
theorem allocated_entry (classes : MemoryClass → MemoryCounters) (at' cls : MemoryClass)
    (bytes : Nat) :
    let counters := Function.update classes at' ((classes at').allocated bytes) cls
    counters.liveBytes = (classes cls).liveBytes + (if at' = cls then bytes else 0) ∧
    counters.liveAllocations = (classes cls).liveAllocations + (if at' = cls then 1 else 0) ∧
    counters.allocations = (classes cls).allocations + (if at' = cls then 1 else 0) ∧
    counters.frees = (classes cls).frees := by
  by_cases hcls : at' = cls
  · subst hcls
    simp [MemoryCounters.allocated]
  · simp [Function.update_of_ne (Ne.symm hcls), hcls]

/-- An allocation recorded in the total and in its class. -/
theorem allocate (h : TrackerExact live reserved state) (allocation : MemoryAllocation) :
    TrackerExact (allocation ::ₘ live) reserved { state with
      total := state.total.allocated allocation.bytes
      classes := Function.update state.classes allocation.cls
        ((state.classes allocation.cls).allocated allocation.bytes) } := by
  have hentry (cls : MemoryClass) := allocated_entry state.classes allocation.cls cls
    allocation.bytes
  refine ⟨?_, ?_, h.reservedBytes, h.reservedAllocations, fun cls => ?_, fun cls => ?_,
    h.classReservations, ?_, fun cls => ?_, fun q => ?_⟩
  · rw [Multiset.map_cons, Multiset.sum_cons, ← h.liveBytes]
    exact Nat.add_comm _ _
  · rw [Multiset.card_cons, ← h.liveAllocations]
    rfl
  · rw [sum_ofClass_cons, ← h.classBytes cls]
    exact (hentry cls).1
  · rw [card_ofClass_cons, ← h.classAllocations cls]
    exact (hentry cls).2.1
  · have hsettled := h.settled
    simp only [MemoryCounters.allocated]
    omega
  · obtain ⟨-, hlive, hallocations, hfrees⟩ := hentry cls
    have hsettled := h.classSettled cls
    dsimp only at hlive hallocations hfrees ⊢
    omega
  · have hsum := sum_update state.classes allocation.cls
      ((state.classes allocation.cls).allocated allocation.bytes) (MemoryCounters.amount · q)
    have htotal := h.classTotals q
    cases q <;> simp only [MemoryCounters.amount, MemoryCounters.allocated] at hsum htotal ⊢ <;>
      omega

theorem commit {reservation : MemoryReservation} (identity t : Nat)
    (h : TrackerExact live (reservation ::ₘ reserved) s.state) :
    TrackerExact (⟨identity, t, reservation.cls, reservation.bytes⟩ ::ₘ live) reserved
      (committedState reservation.cls reservation.bytes s).state :=
  h.release.allocate ⟨identity, t, reservation.cls, reservation.bytes⟩

/-- The entry of a live allocation covers it. -/
theorem covers_class {allocation : MemoryAllocation}
    (h : TrackerExact (allocation ::ₘ live) reserved state) :
    Covers (state.classes allocation.cls) allocation.bytes := by
  constructor
  · rw [h.classBytes, sum_ofClass_cons, if_pos rfl]
    exact Nat.le_add_left _ _
  · rw [h.classAllocations, card_ofClass_cons, if_pos rfl]
    exact Nat.le_add_left _ _

theorem covers {allocation : MemoryAllocation}
    (h : TrackerExact (allocation ::ₘ live) reserved state) :
    Covers state.total allocation.bytes := by
  constructor
  · rw [h.liveBytes, Multiset.map_cons, Multiset.sum_cons]
    exact Nat.le_add_right _ _
  · rw [h.liveAllocations, Multiset.card_cons]
    exact Nat.le_add_left _ _

theorem free {allocation : MemoryAllocation}
    (h : TrackerExact (allocation ::ₘ live) reserved s.state) :
    TrackerExact live reserved (freedState allocation.cls allocation.bytes s).state := by
  have hcovers := h.covers
  have hclass := h.covers_class
  have hentry (cls : MemoryClass) :
      let counters := (freedState allocation.cls allocation.bytes s).state.classes cls
      counters.liveBytes = ((ofClass live cls).map MemoryAllocation.bytes).sum ∧
      counters.liveAllocations = (ofClass live cls).card ∧
      counters.allocations = counters.liveAllocations + counters.frees := by
    have hbytes := h.classBytes cls
    have hcount := h.classAllocations cls
    have hsettled := h.classSettled cls
    rw [sum_ofClass_cons] at hbytes
    rw [card_ofClass_cons] at hcount
    by_cases hcls : allocation.cls = cls
    · subst hcls
      rw [if_pos rfl] at hbytes hcount
      simp only [freedState, Function.update_self, MemoryCounters.freed]
      omega
    · rw [if_neg hcls] at hbytes hcount
      simp only [freedState, Function.update_of_ne (Ne.symm hcls)]
      omega
  have hbytes := h.liveBytes
  have hcount := h.liveAllocations
  have hsettled := h.settled
  have hone := hcovers.live
  rw [Multiset.map_cons, Multiset.sum_cons] at hbytes
  rw [Multiset.card_cons] at hcount
  refine ⟨?_, ?_, h.reservedBytes, h.reservedAllocations, fun cls => (hentry cls).1,
    fun cls => (hentry cls).2.1, h.classReservations, ?_, fun cls => (hentry cls).2.2,
    fun q => ?_⟩
  · simp only [freedState, MemoryCounters.freed]
    omega
  · simp only [freedState, MemoryCounters.freed]
    omega
  · simp only [freedState, MemoryCounters.freed]
    omega
  · have hsum := sum_update s.state.classes allocation.cls
      ((s.state.classes allocation.cls).freed allocation.bytes) (MemoryCounters.amount · q)
    have htotal := h.classTotals q
    have hle := hcovers.bytes
    have hclassLe := hclass.bytes
    have hclassOne := hclass.live
    cases q <;> simp only [MemoryCounters.amount, MemoryCounters.freed, freedState]
      at hsum htotal ⊢ <;> omega

theorem move {allocation : MemoryAllocation} {next : MemoryClass} (hne : allocation.cls ≠ next)
    (h : TrackerExact (allocation ::ₘ live) reserved s.state) :
    TrackerExact ({ allocation with cls := next } ::ₘ live) reserved
      (movedState allocation.cls next allocation.bytes s).state := by
  have hclass := h.covers_class
  have hone := h.classSettled allocation.cls
  have hentry (cls : MemoryClass) :
      let counters := (movedState allocation.cls next allocation.bytes s).state.classes cls
      counters.liveBytes = ((ofClass ({ allocation with cls := next } ::ₘ live) cls).map
        MemoryAllocation.bytes).sum ∧
      counters.liveAllocations = (ofClass ({ allocation with cls := next } ::ₘ live) cls).card ∧
      counters.allocations = counters.liveAllocations + counters.frees := by
    have hbytes := h.classBytes cls
    have hcount := h.classAllocations cls
    have hsettled := h.classSettled cls
    rw [sum_ofClass_cons] at hbytes ⊢
    rw [card_ofClass_cons] at hcount ⊢
    by_cases hnext : next = cls
    · subst hnext
      rw [if_neg hne] at hbytes hcount
      simp only [movedState, Function.update_self, MemoryCounters.allocated, if_true]
      omega
    · by_cases hprevious : allocation.cls = cls
      · subst hprevious
        rw [if_pos rfl] at hbytes hcount
        simp only [movedState, Function.update_of_ne (Ne.symm hnext), Function.update_self,
          MemoryCounters.left, if_neg hnext]
        omega
      · rw [if_neg hprevious] at hbytes hcount
        simp only [movedState, Function.update_of_ne (Ne.symm hnext),
          Function.update_of_ne (Ne.symm hprevious), if_neg hnext]
        omega
  refine ⟨h.liveBytes.trans ?_, h.liveAllocations.trans ?_, h.reservedBytes,
    h.reservedAllocations, fun cls => (hentry cls).1, fun cls => (hentry cls).2.1,
    h.classReservations, h.settled, fun cls => (hentry cls).2.2, fun q => ?_⟩
  · simp only [Multiset.map_cons]
  · simp only [Multiset.card_cons]
  · have hleft := sum_update s.state.classes allocation.cls
      ((s.state.classes allocation.cls).left allocation.bytes) (MemoryCounters.amount · q)
    have hjoined := sum_update (Function.update s.state.classes allocation.cls
      ((s.state.classes allocation.cls).left allocation.bytes)) next
      ((s.state.classes next).allocated allocation.bytes) (MemoryCounters.amount · q)
    rw [Function.update_of_ne hne.symm] at hjoined
    have htotal := h.classTotals q
    have hle := hclass.bytes
    have hlive := hclass.live
    cases q <;> simp only [MemoryCounters.amount, MemoryCounters.left, MemoryCounters.allocated,
      movedState] at hleft hjoined htotal ⊢ <;> omega

end TrackerExact

end Leone.Memory

import Leone.Memory.Model

/-!
# What one accounting method does

A check either passes or returns an error with nothing written. Past its checks a method writes
one known state, and no subtraction underflows while the counters cover what is released.
-/

namespace Leone.Memory

open Framework Framework.Method

/-! ## Checks -/

/-- Room for an allocation of the given bytes, behind those pending. -/
structure Capacity (counters : MemoryCounters) (bytes pending : Nat) : Prop where
  bytes : counters.liveBytes + bytes < 2 ^ 64
  live : counters.liveAllocations + pending + 1 < 2 ^ 64
  allocations : counters.allocations + pending + 1 < 2 ^ 64

section Checks

variable {σ : Type} {s : σ}

theorem checkedCounterCapacity_ends (counters : MemoryCounters) (bytes pending : Nat) :
    (checkedCounterCapacity counters bytes pending).Ends s
      (fun _ s' => s' = s ∧ Capacity counters bytes pending)
      (fun fault s' => s' = s ∧ fault ≠ .panic) := by
  simp only [checkedCounterCapacity, ends_bind, ends_orErr, ends_pure, Option.bind_eq_some_iff,
    checkedAdd_eq_some]
  refine ⟨?_, fun _ => ⟨trivial, Fault.error_ne_panic⟩⟩
  rintro _ ⟨hbytes, -⟩
  refine ⟨?_, fun _ => ⟨trivial, Fault.error_ne_panic⟩⟩
  rintro _ ⟨_, ⟨-, rfl⟩, hlive, -⟩
  refine ⟨?_, fun _ => ⟨trivial, Fault.error_ne_panic⟩⟩
  rintro _ ⟨_, ⟨-, rfl⟩, hallocations, -⟩
  exact ⟨trivial, hbytes, hlive, hallocations⟩

theorem checkedCounterCapacity_eq {counters : MemoryCounters} {bytes pending : Nat}
    (h : Capacity counters bytes pending) :
    checkedCounterCapacity (σ := σ) counters bytes pending = pure () := by
  have hlive : counters.liveAllocations + pending < 2 ^ 64 := by have := h.live; omega
  have hallocations : counters.allocations + pending < 2 ^ 64 := by have := h.allocations; omega
  simp only [checkedCounterCapacity, checkedAdd, h.bytes, hlive, hallocations, if_true,
    Option.bind_some, h.live, h.allocations]
  rfl

theorem checkedAccounted_ends (budget : MemoryBudget) (owned reserved bytes : Nat) :
    (checkedAccounted budget owned reserved bytes).Ends s
      (fun accounted s' => s' = s ∧ accounted = owned + reserved + bytes ∧
        owned + reserved + bytes < 2 ^ 64 ∧ budget.Allows (owned + reserved + bytes))
      (fun fault s' => s' = s ∧ fault ≠ .panic) := by
  simp only [checkedAccounted, ends_bind, ends_orErr, Option.bind_eq_some_iff, checkedAdd_eq_some]
  refine ⟨?_, fun _ => ⟨trivial, Fault.error_ne_panic⟩⟩
  rintro _ ⟨_, ⟨-, rfl⟩, hlt, rfl⟩
  cases budget with
  | unlimited => exact ⟨rfl, rfl, hlt, trivial⟩
  | bytes limit =>
    simp only [ends_bind, ends_ensure, ends_pure]
    exact ⟨fun hle => ⟨trivial, trivial, hlt, hle⟩, fun _ => ⟨trivial, Fault.error_ne_panic⟩⟩

theorem checkBudgetChange_ends (budget : MemoryBudget) (owned reserved : Nat) :
    (checkBudgetChange budget owned reserved).Ends s
      (fun _ s' => s' = s ∧ budget.Allows (owned + reserved))
      (fun fault s' => s' = s ∧ fault ≠ .panic) := by
  simp only [checkBudgetChange, ends_bind, ends_orErr, checkedAdd_eq_some]
  refine ⟨?_, fun _ => ⟨trivial, Fault.error_ne_panic⟩⟩
  rintro _ ⟨-, rfl⟩
  cases budget with
  | unlimited => exact ⟨rfl, trivial⟩
  | bytes limit =>
    simp only [ends_ensure]
    exact ⟨fun hle => ⟨trivial, hle⟩, fun _ => ⟨trivial, Fault.error_ne_panic⟩⟩

theorem checkedSharedReservation_ends (state : MemoryRootState) (bytes : Nat) :
    (checkedSharedReservation state bytes).Ends s
      (fun next s' => s' = s ∧ next = (state.reservedBytes + bytes, state.reservedAllocations + 1,
          state.total.liveBytes + state.reservedBytes + bytes) ∧
        state.total.liveBytes + state.reservedBytes + bytes < 2 ^ 64 ∧
        state.budget.Allows (state.total.liveBytes + state.reservedBytes + bytes) ∧
        Capacity state.total bytes state.reservedAllocations)
      (fun fault s' => s' = s ∧ fault ≠ .panic) := by
  simp only [checkedSharedReservation, ends_bind]
  refine (checkedAccounted_ends ..).mono ?_ fun _ _ h => h
  rintro _ _ ⟨rfl, rfl, hlt, hallows⟩
  refine (checkedCounterCapacity_ends ..).mono ?_ fun _ _ h => h
  rintro _ _ ⟨rfl, hcapacity⟩
  simp only [ends_orErr, checkedAdd_eq_some, ends_pure, and_imp]
  refine ⟨?_, fun _ => ⟨trivial, Fault.error_ne_panic⟩⟩
  rintro _ - rfl
  refine ⟨?_, fun _ => ⟨trivial, Fault.error_ne_panic⟩⟩
  rintro _ - rfl
  exact ⟨trivial, rfl, hlt, hallows, hcapacity⟩

theorem checkedReservation_ends (state : MemoryTrackerState) (budget : MemoryBudget)
    (cls : MemoryClass) (bytes : Nat) :
    (checkedReservation state budget cls bytes).Ends s
      (fun next s' => s' = s ∧ next = (state.reservedBytes + bytes, state.reservedAllocations + 1,
          state.reservedClasses cls + 1, state.total.liveBytes + state.reservedBytes + bytes) ∧
        budget.Allows (state.total.liveBytes + state.reservedBytes + bytes))
      (fun fault s' => s' = s ∧ fault ≠ .panic) := by
  simp only [checkedReservation, ends_bind]
  refine (checkedAccounted_ends ..).mono ?_ fun _ _ h => h
  rintro _ _ ⟨rfl, rfl, -, hallows⟩
  refine (checkedCounterCapacity_ends ..).mono ?_ fun _ _ h => h
  rintro _ _ ⟨rfl, -⟩
  refine (checkedCounterCapacity_ends ..).mono ?_ fun _ _ h => h
  rintro _ _ ⟨rfl, -⟩
  simp only [ends_orErr, checkedAdd_eq_some, ends_pure, and_imp]
  refine ⟨?_, fun _ => ⟨trivial, Fault.error_ne_panic⟩⟩
  rintro _ - rfl
  refine ⟨?_, fun _ => ⟨trivial, Fault.error_ne_panic⟩⟩
  rintro _ - rfl
  refine ⟨?_, fun _ => ⟨trivial, Fault.error_ne_panic⟩⟩
  rintro _ - rfl
  exact ⟨trivial, rfl, hallows⟩

end Checks

/-! ## Counters -/

section Counters

variable {σ : Type} {counters : MemoryCounters} {bytes : Nat}

def MemoryCounters.allocated (counters : MemoryCounters) (bytes : Nat) : MemoryCounters where
  liveBytes := counters.liveBytes + bytes
  peakLiveBytes := max counters.peakLiveBytes (counters.liveBytes + bytes)
  liveAllocations := counters.liveAllocations + 1
  peakLiveAllocations := max counters.peakLiveAllocations (counters.liveAllocations + 1)
  allocations := counters.allocations + 1
  frees := counters.frees

def MemoryCounters.freed (counters : MemoryCounters) (bytes : Nat) : MemoryCounters :=
  { counters with
    liveBytes := counters.liveBytes - bytes
    liveAllocations := counters.liveAllocations - 1
    frees := counters.frees + 1 }

def MemoryCounters.left (counters : MemoryCounters) (bytes : Nat) : MemoryCounters :=
  { counters with
    liveBytes := counters.liveBytes - bytes
    liveAllocations := counters.liveAllocations - 1
    allocations := counters.allocations - 1 }

theorem recordAllocate_eq (h : Capacity counters bytes 0) :
    recordAllocate (σ := σ) counters bytes = pure (counters.allocated bytes) := by
  have hlive : counters.liveAllocations + 1 < 2 ^ 64 := h.live
  have hallocations : counters.allocations + 1 < 2 ^ 64 := h.allocations
  simp only [recordAllocate, checkedAdd, h.bytes, hlive, hallocations, if_true]
  rfl

/-- The counters cover one live allocation of the given bytes. -/
structure Covers (counters : MemoryCounters) (bytes : Nat) : Prop where
  bytes : bytes ≤ counters.liveBytes
  live : 1 ≤ counters.liveAllocations

theorem recordFree_eq (h : Covers counters bytes) (hfrees : counters.frees + 1 < 2 ^ 64) :
    recordFree (σ := σ) counters bytes = pure (counters.freed bytes) := by
  simp only [recordFree, checkedSub, checkedAdd, h.bytes, h.live, hfrees, if_true]
  rfl

theorem recordLeave_eq (h : Covers counters bytes) (hallocations : 1 ≤ counters.allocations) :
    recordLeave (σ := σ) counters bytes = pure (counters.left bytes) := by
  simp only [recordLeave, checkedSub, h.bytes, h.live, hallocations, if_true]
  rfl

end Counters

/-! ## Methods -/

section Methods

variable {s : Locked} {cls : MemoryClass} {bytes : Nat}

theorem setBudget_ends (rootOwner : Bool) (budget : MemoryBudget) :
    (setBudget rootOwner budget).Ends s
      (fun _ s' => budget.Allows (s.state.total.liveBytes + s.state.reservedBytes) ∧
        (rootOwner → budget.Allows (s.shared.total.liveBytes + s.shared.reservedBytes)) ∧
        s' = ⟨if rootOwner then { s.shared with budget } else s.shared, { s.state with budget }⟩)
      (fun fault s' => s' = s ∧ fault ≠ .panic) := by
  simp only [setBudget, ends_bind, ends_get]
  refine (checkBudgetChange_ends ..).mono ?_ fun _ _ h => h
  rintro _ _ ⟨rfl, hstate⟩
  cases rootOwner with
  | false => exact ⟨hstate, by simp, rfl⟩
  | true =>
    simp only [if_true, ends_bind]
    refine (checkBudgetChange_ends ..).mono ?_ fun _ _ h => h
    rintro _ _ ⟨rfl, hshared⟩
    exact ⟨hstate, fun _ => hshared, rfl⟩

/-- The checks that a reservation passed. -/
structure Reservable (rootOwner : Bool) (bytes : Nat) (s : Locked) : Prop where
  positive : bytes ≠ 0
  bound : s.shared.total.liveBytes + s.shared.reservedBytes + bytes < 2 ^ 64
  sharedBudget :
    s.shared.budget.Allows (s.shared.total.liveBytes + s.shared.reservedBytes + bytes)
  capacity : Capacity s.shared.total bytes s.shared.reservedAllocations
  budget : (if rootOwner then s.shared.budget else s.state.budget).Allows
    (s.state.total.liveBytes + s.state.reservedBytes + bytes)

/-- The states after a reservation. -/
def reservedState (rootOwner : Bool) (cls : MemoryClass) (bytes : Nat) (s : Locked) : Locked where
  shared := { s.shared with
    reservedBytes := s.shared.reservedBytes + bytes
    reservedAllocations := s.shared.reservedAllocations + 1
    peakOwnedAndReservedBytes := max s.shared.peakOwnedAndReservedBytes
      (s.shared.total.liveBytes + s.shared.reservedBytes + bytes) }
  state := { s.state with
    budget := if rootOwner then s.shared.budget else s.state.budget
    reservedBytes := s.state.reservedBytes + bytes
    reservedAllocations := s.state.reservedAllocations + 1
    reservedClasses := Function.update s.state.reservedClasses cls (s.state.reservedClasses cls + 1)
    peakOwnedAndReservedBytes := max s.state.peakOwnedAndReservedBytes
      (s.state.total.liveBytes + s.state.reservedBytes + bytes) }

theorem reserve_ends (rootOwner : Bool) (cls : MemoryClass) (bytes : Nat) :
    (reserve rootOwner cls bytes).Ends s
      (fun _ s' => Reservable rootOwner bytes s ∧ s' = reservedState rootOwner cls bytes s)
      (fun fault s' => s' = s ∧ fault ≠ .panic) := by
  simp only [reserve, ends_bind, ends_ensure, ends_get]
  refine ⟨fun hpositive => ?_, fun _ => ⟨trivial, Fault.error_ne_panic⟩⟩
  refine (checkedSharedReservation_ends ..).mono ?_ fun _ _ h => h
  rintro _ _ ⟨rfl, rfl, hbound, hshared, hcapacity⟩
  refine (checkedReservation_ends ..).mono ?_ fun _ _ h => h
  rintro _ _ ⟨rfl, rfl, hbudget⟩
  exact ⟨⟨hpositive, hbound, hshared, hcapacity, hbudget⟩, rfl⟩

/-- Both levels hold a reservation of the given class and bytes. -/
structure Holds (cls : MemoryClass) (bytes : Nat) (s : Locked) : Prop where
  sharedBytes : bytes ≤ s.shared.reservedBytes
  sharedCount : 1 ≤ s.shared.reservedAllocations
  stateBytes : bytes ≤ s.state.reservedBytes
  stateCount : 1 ≤ s.state.reservedAllocations
  classCount : 1 ≤ s.state.reservedClasses cls

/-- The states without one reservation. -/
def releasedState (cls : MemoryClass) (bytes : Nat) (s : Locked) : Locked where
  shared := { s.shared with
    reservedBytes := s.shared.reservedBytes - bytes
    reservedAllocations := s.shared.reservedAllocations - 1 }
  state := { s.state with
    reservedBytes := s.state.reservedBytes - bytes
    reservedAllocations := s.state.reservedAllocations - 1
    reservedClasses := Function.update s.state.reservedClasses cls
      (s.state.reservedClasses cls - 1) }

theorem dropReservation_ends (h : Holds cls bytes s) :
    (dropReservation cls bytes).Ends s (fun _ s' => s' = releasedState cls bytes s)
      (fun _ _ => False) := by
  have hshared := h.sharedBytes
  have hsharedCount := h.sharedCount
  have hbytes := h.stateBytes
  have hcount := h.stateCount
  have hclass := h.classCount
  simp [dropReservation, modifyShared, modifyState, decrementReservedClass, releasedState,
    hshared, hbytes, Nat.pos_iff_ne_zero.mp hsharedCount, Nat.pos_iff_ne_zero.mp hcount,
    Nat.pos_iff_ne_zero.mp hclass]

/-- The states after a reservation became an allocation. -/
def committedState (cls : MemoryClass) (bytes : Nat) (s : Locked) : Locked where
  shared := { (releasedState cls bytes s).shared with total := s.shared.total.allocated bytes }
  state := { (releasedState cls bytes s).state with
    total := s.state.total.allocated bytes
    classes := Function.update s.state.classes cls ((s.state.classes cls).allocated bytes) }

/-- Every counter has room for the allocation of a held reservation. -/
structure Committable (cls : MemoryClass) (bytes : Nat) (s : Locked) : Prop
    extends Holds cls bytes s where
  sharedCapacity : Capacity s.shared.total bytes (s.shared.reservedAllocations - 1)
  capacity : Capacity s.state.total bytes (s.state.reservedAllocations - 1)
  classCapacity : Capacity (s.state.classes cls) bytes (s.state.reservedClasses cls - 1)

theorem Capacity.mono {counters : MemoryCounters} {bytes pending pending' : Nat}
    (h : Capacity counters bytes pending) (hle : pending' ≤ pending) :
    Capacity counters bytes pending' :=
  ⟨h.bytes, by have := h.live; omega, by have := h.allocations; omega⟩

theorem commit_ends (h : Committable cls bytes s) :
    (commit cls bytes).Ends s (fun identity s' => s' = committedState cls bytes s ∧
      identity = s'.state.total.allocations) (fun _ _ => False) := by
  have hshared := h.sharedBytes
  have hsharedCount := Nat.pos_iff_ne_zero.mp h.sharedCount
  have hbytes := h.stateBytes
  have hcount := Nat.pos_iff_ne_zero.mp h.stateCount
  have hclass := h.classCount
  have hclassCount := Nat.pos_iff_ne_zero.mp h.classCount
  simp only [commit, ends_bind, ends_get, checkedSharedCommit, ends_ensure, hshared, hsharedCount,
    hbytes, hcount, hclassCount, ne_eq, not_false_eq_true, and_self, true_implies, not_true_eq_false,
    false_implies, and_true, checkedCounterCapacity_eq h.sharedCapacity,
    checkedCounterCapacity_eq h.capacity, checkedCounterCapacity_eq h.classCapacity, ends_pure,
    modifyShared, modifyState, ends_modify, decrementReservedClass, ends_orPanic,
    checkedSub_eq_some, checkedSub_eq_none,
    recordAllocate_eq (h.sharedCapacity.mono (Nat.zero_le _)),
    recordAllocate_eq (h.capacity.mono (Nat.zero_le _)),
    recordAllocate_eq (h.classCapacity.mono (Nat.zero_le _))]
  refine ⟨?_, fun hnone => absurd hclass (not_le.mpr hnone)⟩
  rintro _ ⟨-, rfl⟩
  rfl

/-- The states after an allocation was freed. -/
def freedState (cls : MemoryClass) (bytes : Nat) (s : Locked) : Locked where
  shared := { s.shared with total := s.shared.total.freed bytes }
  state := { s.state with
    total := s.state.total.freed bytes
    classes := Function.update s.state.classes cls ((s.state.classes cls).freed bytes) }

/-- Both levels hold a live allocation of the given class and bytes, with room to count its
free. -/
structure Owns (cls : MemoryClass) (bytes : Nat) (s : Locked) : Prop where
  shared : Covers s.shared.total bytes
  sharedFrees : s.shared.total.frees + 1 < 2 ^ 64
  total : Covers s.state.total bytes
  frees : s.state.total.frees + 1 < 2 ^ 64
  ofClass : Covers (s.state.classes cls) bytes
  classFrees : (s.state.classes cls).frees + 1 < 2 ^ 64

theorem dropAllocation_ends (h : Owns cls bytes s) :
    (dropAllocation cls bytes).Ends s (fun _ s' => s' = freedState cls bytes s)
      (fun _ _ => False) := by
  simp only [dropAllocation, ends_bind, ends_get, recordFree_eq h.total h.frees, ends_pure,
    modifyState, modifyShared, ends_modify, recordFree_eq h.ofClass h.classFrees,
    recordFree_eq h.shared h.sharedFrees]
  rfl

/-- The state after an allocation moved to another class. -/
def movedState (previous next : MemoryClass) (bytes : Nat) (s : Locked) : Locked :=
  { s with state := { s.state with
    classes := Function.update
      (Function.update s.state.classes previous ((s.state.classes previous).left bytes)) next
      ((s.state.classes next).allocated bytes) } }

theorem moveLive_ends {previous next : MemoryClass} (hne : previous ≠ next)
    (h : Covers (s.state.classes previous) bytes)
    (hallocations : 1 ≤ (s.state.classes previous).allocations)
    (hcapacity : Capacity (s.state.classes next) bytes 0) :
    (moveLive previous next bytes).Ends s (fun _ s' => s' = movedState previous next bytes s)
      (fun _ _ => False) := by
  simp only [moveLive, ends_bind, ends_get, recordLeave_eq h hallocations, ends_pure, modifyState,
    ends_modify, Function.update_of_ne hne.symm, recordAllocate_eq hcapacity]
  rfl

end Methods

end Leone.Memory

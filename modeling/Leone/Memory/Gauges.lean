import Leone.Memory.Steps

/-!
# High-water marks

A gauge is a counter with the peak that the accounting keeps of it. Each method that raises a
gauge raises its peak with it.
-/

namespace Leone.Memory

open Framework

/-- The counters that have a peak. -/
inductive Gauge
  | rootBytes
  | rootAllocations
  | rootOwned
  | bytes
  | allocations
  | owned
  | classBytes (cls : MemoryClass)
  | classAllocations (cls : MemoryClass)

namespace Gauge

def value (l : Locked) : Gauge → Nat
  | rootBytes => l.shared.total.liveBytes
  | rootAllocations => l.shared.total.liveAllocations
  | rootOwned => l.shared.total.liveBytes + l.shared.reservedBytes
  | bytes => l.state.total.liveBytes
  | allocations => l.state.total.liveAllocations
  | owned => l.state.total.liveBytes + l.state.reservedBytes
  | classBytes cls => (l.state.classes cls).liveBytes
  | classAllocations cls => (l.state.classes cls).liveAllocations

def peak (l : Locked) : Gauge → Nat
  | rootBytes => l.shared.total.peakLiveBytes
  | rootAllocations => l.shared.total.peakLiveAllocations
  | rootOwned => l.shared.peakOwnedAndReservedBytes
  | bytes => l.state.total.peakLiveBytes
  | allocations => l.state.total.peakLiveAllocations
  | owned => l.state.peakOwnedAndReservedBytes
  | classBytes cls => (l.state.classes cls).peakLiveBytes
  | classAllocations cls => (l.state.classes cls).peakLiveAllocations

end Gauge

/-- Every gauge is within its peak. -/
def Peaked (l : Locked) : Prop := ∀ g : Gauge, g.value l ≤ g.peak l

/-- Every peak was raised to the new value of its gauge. -/
def Raises (l l' : Locked) : Prop := ∀ g : Gauge, g.peak l' = max (g.peak l) (g.value l')

variable {l l' : Locked} {cls : MemoryClass} {bytes : Nat}

theorem Raises.peaked (h : Raises l l') : Peaked l' := fun g => by
  rw [h g]
  exact le_max_right _ _

theorem Peaked.raises (h : Peaked l) : Raises l l := fun g => (max_eq_left (h g)).symm

/-- Values that do not rise need no new peak. -/
theorem Peaked.raises_of_le (h : Peaked l) (hpeak : ∀ g : Gauge, g.peak l' = g.peak l)
    (hvalue : ∀ g : Gauge, g.value l' ≤ g.value l) : Raises l l' := fun g => by
  rw [hpeak g, max_eq_left ((hvalue g).trans (h g))]

theorem Peaked.reserved (h : Peaked l) (rootOwner : Bool) (cls : MemoryClass) (bytes : Nat) :
    Raises l (reservedState rootOwner cls bytes l) := by
  intro g
  have hg := h g
  cases g with
  | rootOwned =>
    simp only [Gauge.value, Gauge.peak, reservedState]
    rw [Nat.add_assoc]
  | owned =>
    simp only [Gauge.value, Gauge.peak, reservedState]
    rw [Nat.add_assoc]
  | _ => exact (max_eq_left hg).symm

theorem Peaked.released (h : Peaked l) (cls : MemoryClass) (bytes : Nat) :
    Raises l (releasedState cls bytes l) := by
  apply h.raises_of_le
  · intro g
    cases g <;> rfl
  · intro g
    cases g <;> simp only [Gauge.value, releasedState] <;> omega

/-- A committed reservation lowers no gauge. -/
theorem value_le_committed (hshared : bytes ≤ l.shared.reservedBytes)
    (hstate : bytes ≤ l.state.reservedBytes) (g : Gauge) :
    g.value l ≤ g.value (committedState cls bytes l) := by
  cases g with
  | classBytes cls' =>
    by_cases hcls : cls' = cls
    · subst hcls
      simp [Gauge.value, committedState, MemoryCounters.allocated]
    · simp [Gauge.value, committedState, Function.update_of_ne hcls]
  | classAllocations cls' =>
    by_cases hcls : cls' = cls
    · subst hcls
      simp [Gauge.value, committedState, MemoryCounters.allocated]
    · simp [Gauge.value, committedState, Function.update_of_ne hcls]
  | _ =>
    simp only [Gauge.value, committedState, releasedState, MemoryCounters.allocated]
    omega

theorem Peaked.committed (h : Peaked l) (hshared : bytes ≤ l.shared.reservedBytes)
    (hstate : bytes ≤ l.state.reservedBytes) : Raises l (committedState cls bytes l) := by
  intro g
  have hg := h g
  cases g with
  | rootOwned =>
    simp only [Gauge.value, Gauge.peak, committedState, releasedState,
      MemoryCounters.allocated] at hg ⊢
    omega
  | owned =>
    simp only [Gauge.value, Gauge.peak, committedState, releasedState,
      MemoryCounters.allocated] at hg ⊢
    omega
  | classBytes cls' =>
    by_cases hcls : cls' = cls
    · subst hcls
      simp [Gauge.value, Gauge.peak, committedState, MemoryCounters.allocated]
    · simpa [Gauge.value, Gauge.peak, committedState, Function.update_of_ne hcls] using hg
  | classAllocations cls' =>
    by_cases hcls : cls' = cls
    · subst hcls
      simp [Gauge.value, Gauge.peak, committedState, MemoryCounters.allocated]
    · simpa [Gauge.value, Gauge.peak, committedState, Function.update_of_ne hcls] using hg
  | _ => rfl

theorem Peaked.freed (h : Peaked l) (cls : MemoryClass) (bytes : Nat) :
    Raises l (freedState cls bytes l) := by
  have hentry (cls' : MemoryClass) : let counters := (freedState cls bytes l).state.classes cls'
      counters.peakLiveBytes = (l.state.classes cls').peakLiveBytes ∧
      counters.peakLiveAllocations = (l.state.classes cls').peakLiveAllocations ∧
      counters.liveBytes ≤ (l.state.classes cls').liveBytes ∧
      counters.liveAllocations ≤ (l.state.classes cls').liveAllocations := by
    by_cases hcls : cls' = cls
    · subst hcls
      simp [freedState, MemoryCounters.freed]
    · simp [freedState, Function.update_of_ne hcls]
  apply h.raises_of_le
  · intro g
    cases g with
    | classBytes cls' => exact (hentry cls').1
    | classAllocations cls' => exact (hentry cls').2.1
    | _ => rfl
  · intro g
    cases g with
    | classBytes cls' => exact (hentry cls').2.2.1
    | classAllocations cls' => exact (hentry cls').2.2.2
    | _ =>
      simp only [Gauge.value, freedState, MemoryCounters.freed]
      omega

theorem Peaked.moved (h : Peaked l) {previous next : MemoryClass} (hne : previous ≠ next)
    (bytes : Nat) : Raises l (movedState previous next bytes l) := by
  have hentry (cls' : MemoryClass) :
      let counters := (movedState previous next bytes l).state.classes cls'
      counters.peakLiveBytes =
        max (l.state.classes cls').peakLiveBytes counters.liveBytes ∧
      counters.peakLiveAllocations =
        max (l.state.classes cls').peakLiveAllocations counters.liveAllocations := by
    have hbytes := h (.classBytes cls')
    have hcount := h (.classAllocations cls')
    simp only [Gauge.value, Gauge.peak] at hbytes hcount
    by_cases hnext : cls' = next
    · subst hnext
      simp [movedState, MemoryCounters.allocated]
    · by_cases hprevious : cls' = previous
      · subst hprevious
        simp only [movedState, Function.update_of_ne hne, Function.update_self,
          MemoryCounters.left]
        omega
      · simp only [movedState, Function.update_of_ne hnext, Function.update_of_ne hprevious]
        omega
  intro g
  have hg := h g
  cases g with
  | classBytes cls' => exact (hentry cls').1
  | classAllocations cls' => exact (hentry cls').2
  | _ => exact (max_eq_left hg).symm

/-- Another tracker sees only the root change. -/
theorem Raises.sibling (h : Raises l l') {state : MemoryTrackerState}
    (hsibling : Peaked ⟨l.shared, state⟩) : Raises ⟨l.shared, state⟩ ⟨l'.shared, state⟩ := by
  intro g
  have hg := hsibling g
  cases g with
  | rootBytes => exact h .rootBytes
  | rootAllocations => exact h .rootAllocations
  | rootOwned => exact h .rootOwned
  | _ => exact (max_eq_left hg).symm

theorem value_le_sibling (h : ∀ g : Gauge, g.value l ≤ g.value l') (state : MemoryTrackerState)
    (g : Gauge) : g.value ⟨l.shared, state⟩ ≤ g.value ⟨l'.shared, state⟩ := by
  cases g with
  | rootBytes => exact h .rootBytes
  | rootAllocations => exact h .rootAllocations
  | rootOwned => exact h .rootOwned
  | _ => exact le_refl _

end Leone.Memory

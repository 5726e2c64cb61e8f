import Mathlib
import Leone.Gguf.Parser

/-!
# Reads that succeed

`Decodes p bytes a guards` says that `p` reads `a` from the bytes in front of any rest, under any
budget that grants what it is asked, and stores at most `guards` allocation guards. Such facts
compose along the concatenation of the bytes.
-/

namespace Leone.Gguf

open Framework Framework.Method

variable {β α γ : Type}

/-! ## Budgets and accounts -/

/-- A budget that grants every request, with small charges for its own wrappers. -/
structure AllocationBudget.Grants (budget : AllocationBudget β) : Prop where
  reserve : ∀ bytes what state, ∃ state', budget.reserve bytes what state = .ok state'
  commit : ∀ state, ∃ state', budget.commit state = .ok state'
  guardMetadataBytes : ∀ state, (budget.guardMetadataBytes state : Nat) ≤ 2 ^ 13
  reservationMetadataBytes : ∀ state, (budget.reservationMetadataBytes state : Nat) ≤ 2 ^ 13

theorem unlimitedAllocationBudget_grants : unlimitedAllocationBudget.Grants where
  reserve _ _ _ := ⟨(), rfl⟩
  commit _ := ⟨(), rfl⟩
  guardMetadataBytes _ := Nat.zero_le _
  reservationMetadataBytes _ := Nat.zero_le _

/-- More guards than any document within the limits needs. -/
def maxGuards : Nat := 2 ^ 49

/-- The accounts of a run that no limit stops. The capacity for guard metadata is zero or a power of
two, so each of its growths, and the reservation retained for it, shows in its binary length.
`held` counts the other retained reservations and `guards` the guards still to come. -/
structure Ready (input : Input β) (held guards : Nat) : Prop where
  grants : input.budget.Grants
  held_le : held ≤ 2
  position : input.position + input.reader.length = input.fileLen
  fileLen : input.fileLen < 2 ^ 64
  allocations : input.allocations ≤ input.guardMetadataUsed
  vector : input.allocationsCapacity ≤ 2 * (input.allocations + 1)
  capacity : input.guardMetadataCapacity = 0 ∨ ∃ k, input.guardMetadataCapacity = 2 ^ k
  used : input.guardMetadataUsed ≤ input.guardMetadataCapacity
  tight : input.guardMetadataCapacity ≤ 2 * input.guardMetadataUsed
  reservations : input.reservations ≤ held + Nat.size input.guardMetadataCapacity
  room : input.guardMetadataUsed + guards ≤ maxGuards

theorem Ready.mono {input : Input β} {held guards fewer : Nat} (h : Ready input held guards)
    (hle : fewer ≤ guards) : Ready input held fewer :=
  { h with room := (Nat.add_le_add_left hle _).trans h.room }

theorem Ready.remaining {input : Input β} {held guards : Nat} (h : Ready input held guards) :
    input.remaining = input.reader.length := by
  have hposition := h.position
  rw [Input.remaining]
  omega

/-- A run that returns. -/
def Returns (m : Parser β α) (input : Input β) (Q : α → Input β → Prop) : Prop :=
  m.Ends input Q fun _ _ => False

theorem Returns.mono {m : Parser β α} {input : Input β} {Q R : α → Input β → Prop}
    (h : Returns m input Q) (hQR : ∀ a input', Q a input' → R a input') : Returns m input R :=
  Ends.mono h hQR fun _ _ hf => hf

section Rules

variable {input : Input β}

theorem returns_bind {Q : γ → Input β → Prop} {m : Parser β α} {f : α → Parser β γ} :
    Returns (m >>= f) input Q ↔ Returns m input fun a input' => Returns (f a) input' Q :=
  ends_bind m f

theorem returns_pure {Q : α → Input β → Prop} {a : α} (h : Q a input) :
    Returns (pure a : Parser β α) input Q := h

theorem returns_get {Q : γ → Input β → Prop} {f : Input β → Parser β γ}
    (h : Returns (f input) input Q) : Returns (get >>= f) input Q := h

theorem returns_modify {Q : PUnit → Input β → Prop} {f : Input β → Input β}
    (h : Q ⟨⟩ (f input)) : Returns (modify f : Parser β PUnit) input Q := h

theorem returns_orErr {Q : α → Input β → Prop} {value : Option α} {error : Error} {a : α}
    (hvalue : value = some a) (h : Q a input) :
    Returns (orErr value error : Parser β α) input Q := by
  subst hvalue
  exact h

theorem returns_ofExcept {Q : α → Input β → Prop} {result : Except Error α} {a : α}
    (hresult : result = .ok a) (h : Q a input) :
    Returns (ofExcept result : Parser β α) input Q := by
  subst hresult
  exact h

theorem returns_ensure {Q : Unit → Input β → Prop} {c : Prop} [Decidable c] {error : Error}
    (hc : c) (h : Q () input) : Returns (ensure c error : Parser β Unit) input Q := by
  rw [ensure, if_pos hc]
  exact h

end Rules

section Accounts

variable {input : Input β} {held guards : Nat}

/-- Nothing but the state of the budget changes. -/
theorem returns_reserve {Q : Unit → Input β → Prop} (hg : input.budget.Grants) (bytes : Nat)
    (what : String) (h : ∀ budgetState, Q () { input with budgetState }) :
    Returns (reserve bytes what) input Q := by
  obtain ⟨state, hstate⟩ := hg.reserve bytes what input.budgetState
  apply returns_get
  apply returns_bind.mpr
  apply returns_ofExcept (a := state) (by rw [hstate]; rfl)
  exact returns_modify (h state)

theorem returns_commit {Q : Unit → Input β → Prop} (hg : input.budget.Grants)
    (h : ∀ budgetState, Q () { input with budgetState }) : Returns commit input Q := by
  obtain ⟨state, hstate⟩ := hg.commit input.budgetState
  apply returns_get
  apply returns_bind.mpr
  apply returns_ofExcept (a := state) (by rw [hstate]; rfl)
  exact returns_modify (h state)

theorem Ready.charge (h : Ready input held guards) (budgetState : β) :
    Ready { input with budgetState } held guards := { h with }

theorem Ready.capacity_le (h : Ready input held guards) :
    input.guardMetadataCapacity ≤ 2 ^ 50 := by
  have htight := h.tight
  have hroom := h.room
  rw [maxGuards] at hroom
  omega

/-- A slot below the limit is left for one more reservation. -/
theorem Ready.slot (h : Ready input held guards) :
    input.reservations < parserMaxRetainedReservationWrappers := by
  have hsize : Nat.size input.guardMetadataCapacity ≤ 51 := by
    rw [Nat.size_le]
    exact lt_of_le_of_lt h.capacity_le (by decide)
  have hreservations := h.reservations
  have hheld := h.held_le
  have hlimit : parserMaxRetainedReservationWrappers = 63 := rfl
  omega

theorem returns_geometricCapacity {Q : Nat → Input β → Prop} {required current : Nat} (what : String)
    (hlt : current < required) (hbound : current * 2 < 2 ^ 64)
    (h : Q (max required (current * 2)) input) :
    Returns (geometricCapacity required current what) input Q := by
  rw [geometricCapacity, if_neg (not_le.mpr hlt)]
  by_cases hzero : current = 0
  · rw [if_pos hzero]
    rw [hzero, Nat.zero_mul, Nat.max_zero] at h
    exact h
  · rw [if_neg hzero]
    apply returns_bind.mpr
    exact returns_orErr (checkedMul_eq_some.mpr ⟨hbound, rfl⟩) h

theorem returns_reserveGuards {Q : Unit → Input β → Prop} (hg : input.budget.Grants)
    (hslot : input.reservations < parserMaxRetainedReservationWrappers) {additional : Nat}
    (hadditional : additional ≤ 2 ^ 50)
    (h : ∀ budgetState reservations, reservations ≤ input.reservations + 1 →
      Q () { input with budgetState, reservations }) :
    Returns (reserveGuards additional) input Q := by
  apply returns_get
  have hcharge := hg.guardMetadataBytes input.budgetState
  dsimp only
  split_ifs with hzero
  · exact h input.budgetState input.reservations (Nat.le_succ _)
  · have hproduct : additional * (input.budget.guardMetadataBytes input.budgetState : Nat)
        < 2 ^ 64 := by
      have hmul := Nat.mul_le_mul hadditional hcharge
      exact lt_of_le_of_lt hmul (by decide)
    apply returns_bind.mpr
    apply returns_orErr (checkedMul_eq_some.mpr ⟨hproduct, rfl⟩)
    apply returns_bind.mpr
    apply returns_reserve hg
    intro budgetState
    apply returns_get
    apply returns_bind.mpr
    apply returns_ensure hslot
    exact returns_modify (h budgetState _ le_rfl)

theorem returns_reserveGuardResize {Q : Unit → Input β → Prop} (hg : input.budget.Grants)
    (oldBytes : Nat) (h : ∀ budgetState, Q () { input with budgetState }) :
    Returns (reserveGuardResize oldBytes) input Q := by
  unfold reserveGuardResize
  split_ifs
  · exact h input.budgetState
  · exact returns_reserve hg _ _ h

theorem returns_ensureGuardStorageCapacity {Q : Unit → Input β → Prop} (hg : input.budget.Grants)
    (hallocations : input.allocations ≤ 2 ^ 50)
    (hvector : input.allocationsCapacity ≤ 2 * (input.allocations + 1))
    (h : ∀ budgetState capacity, capacity ≤ 2 * (input.allocations + 1) →
      Q () { input with budgetState, allocationsCapacity := capacity }) :
    Returns ensureGuardStorageCapacity input Q := by
  apply returns_get
  apply returns_bind.mpr
  apply returns_orErr (checkedAdd_eq_some.mpr ⟨by omega, rfl⟩)
  split_ifs with hle
  · exact h input.budgetState input.allocationsCapacity hvector
  · apply returns_bind.mpr
    apply returns_geometricCapacity _ (not_le.mp hle) (by omega)
    apply returns_bind.mpr
    have hslots : input.allocationsCapacity * guardSlotBytes < 2 ^ 64 := by
      rw [guardSlotBytes]
      omega
    apply returns_orErr (checkedMul_eq_some.mpr ⟨hslots, rfl⟩)
    apply returns_bind.mpr
    apply returns_reserveGuardResize hg
    intro budgetState
    exact returns_modify (h budgetState _ (by omega))

/-- The next capacity for guard metadata. -/
theorem Ready.grow (h : Ready input held (guards + 1))
    (hfull : input.guardMetadataCapacity < input.guardMetadataUsed + 1) (budgetState : β)
    {reservations capacity : Nat} (hreservations : reservations ≤ input.reservations + 1)
    (hcapacity : capacity ≤ 2 * (input.allocations + 1)) :
    Ready { input with
      budgetState, reservations, allocationsCapacity := capacity,
      guardMetadataCapacity := max (input.guardMetadataUsed + 1) (input.guardMetadataCapacity * 2),
      guardMetadataUsed := input.guardMetadataUsed + 1 } held guards := by
  have hused := h.used
  have hsame : input.guardMetadataUsed = input.guardMetadataCapacity := by omega
  have hold := h.reservations
  have hroom := h.room
  have hpower : ∃ k, max (input.guardMetadataUsed + 1) (input.guardMetadataCapacity * 2) = 2 ^ k ∧
      Nat.size (2 ^ k) = Nat.size input.guardMetadataCapacity + 1 := by
    rw [hsame]
    rcases h.capacity with hzero | ⟨k, hk⟩
    · rw [hzero]
      exact ⟨0, rfl, rfl⟩
    · have hone : 1 ≤ 2 ^ k := Nat.one_le_two_pow
      rw [hk]
      refine ⟨k + 1, ?_, by rw [Nat.size_pow, Nat.size_pow]⟩
      rw [pow_succ]
      omega
  obtain ⟨k, hk, hsize⟩ := hpower
  exact {
    grants := h.grants
    held_le := h.held_le
    position := h.position
    fileLen := h.fileLen
    allocations := h.allocations.trans (Nat.le_succ _)
    vector := hcapacity
    capacity := Or.inr ⟨k, hk⟩
    used := le_max_left _ _
    tight := by dsimp only; omega
    reservations := by dsimp only; rw [hk, hsize]; omega
    room := by dsimp only; omega }

/-- A guard that fits the capacity for guard metadata. -/
theorem Ready.use (h : Ready input held (guards + 1))
    (hfree : input.guardMetadataUsed + 1 ≤ input.guardMetadataCapacity) (budgetState : β)
    {capacity : Nat} (hcapacity : capacity ≤ 2 * (input.allocations + 1)) :
    Ready { input with
      budgetState, allocationsCapacity := capacity,
      guardMetadataUsed := input.guardMetadataUsed + 1 } held guards := by
  have htight := h.tight
  have hroom := h.room
  exact { h with
    allocations := h.allocations.trans (Nat.le_succ _)
    vector := hcapacity
    used := hfree
    tight := by dsimp only; omega
    room := by dsimp only; omega }

/-- What the accounts leave as it was. -/
structure Kept (input input' : Input β) : Prop where
  reader : input'.reader = input.reader
  fileLen : input'.fileLen = input.fileLen

theorem returns_growGuardMetadata {Q : Unit → Input β → Prop} (h : Ready input held (guards + 1))
    (hfull : input.guardMetadataCapacity < input.guardMetadataUsed + 1) (storeInVector : Bool)
    (hQ : ∀ budgetState reservations capacity, reservations ≤ input.reservations + 1 →
      capacity ≤ 2 * (input.allocations + 1) →
      Q () { input with
        budgetState, reservations, allocationsCapacity := capacity,
        guardMetadataCapacity :=
          max (input.guardMetadataUsed + 1) (input.guardMetadataCapacity * 2) }) :
    Returns (growGuardMetadata (input.guardMetadataUsed + 1) storeInVector) input Q := by
  have hcapacity := h.capacity_le
  have hused := h.used
  have hallocations := h.allocations
  apply returns_get
  apply returns_bind.mpr
  apply returns_geometricCapacity _ hfull (by omega)
  apply returns_bind.mpr
  apply returns_reserveGuards h.grants h.slot (by omega)
  intro budgetState reservations hreservations
  dsimp only
  split_ifs with hstore
  · apply returns_bind.mpr
    apply returns_ensureGuardStorageCapacity
    · exact h.grants
    · exact hallocations.trans (hused.trans hcapacity)
    · exact h.vector
    · intro budgetState' capacity hvector
      exact returns_modify (hQ budgetState' reservations capacity hreservations hvector)
  · exact returns_modify (hQ budgetState reservations _ hreservations h.vector)

theorem returns_reserveGuardMetadata (h : Ready input held (guards + 1)) (storeInVector : Bool) :
    Returns (reserveGuardMetadata storeInVector) input fun _ input' =>
      Ready input' held guards ∧ Kept input input' ∧
        input'.allocations < input'.guardMetadataUsed := by
  have hallocations := Nat.lt_succ_of_le h.allocations
  have hcapacity := h.capacity_le
  have hused := h.used
  apply returns_get
  apply returns_bind.mpr
  apply returns_orErr (checkedAdd_eq_some.mpr ⟨by omega, rfl⟩)
  dsimp only
  split_ifs with hfull hstore
  · apply returns_bind.mpr
    apply returns_growGuardMetadata h hfull
    intro budgetState reservations capacity hreservations hvector
    exact returns_modify ⟨h.grow hfull budgetState hreservations hvector, ⟨rfl, rfl⟩, hallocations⟩
  · apply returns_bind.mpr
    apply returns_ensureGuardStorageCapacity h.grants (by omega) h.vector
    intro budgetState capacity hvector
    exact returns_modify
      ⟨h.use (not_lt.mp hfull) budgetState hvector, ⟨rfl, rfl⟩, hallocations⟩
  · exact returns_modify
      ⟨h.use (not_lt.mp hfull) input.budgetState h.vector, ⟨rfl, rfl⟩, hallocations⟩

theorem returns_commitRetained (h : Ready input held (guards + 1)) :
    Returns commitRetained input fun _ input' => Ready input' held guards ∧ Kept input input' := by
  apply returns_bind.mpr
  apply (returns_reserveGuardMetadata h true).mono
  rintro _ input₁ ⟨hready, hkept, hlt⟩
  apply returns_bind.mpr
  apply returns_commit hready.grants
  intro budgetState
  have hvector := hready.vector
  exact returns_modify ⟨{ hready with
    allocations := hlt
    vector := hvector.trans (by dsimp only; omega) }, hkept.reader, hkept.fileLen⟩

theorem returns_retainReservation (h : Ready input 1 guards) :
    Returns retainReservation input fun _ input' => Ready input' 2 guards ∧ Kept input input' := by
  have hreservations := h.reservations
  apply returns_get
  apply returns_bind.mpr
  apply returns_ensure h.slot
  exact returns_modify ⟨{ h with
    held_le := le_rfl
    reservations := by dsimp only; omega }, rfl, rfl⟩

end Accounts

/-! ## Reads along the bytes -/

/-- `p` reads `a` from the bytes in front of any rest, with at most `guards` more guards. -/
def Decodes (p : Parser β α) (bytes : List UInt8) (a : α) (guards : Nat) : Prop :=
  ∀ input held more rest, Ready input held (guards + more) → input.reader = bytes ++ rest →
    Returns p input fun a' input' =>
      a' = a ∧ Ready input' held more ∧ input'.reader = rest ∧ input'.fileLen = input.fileLen

namespace Decodes

variable {p : Parser β α} {f : α → Parser β γ} {xs ys : List UInt8} {a : α} {c : γ} {m n : Nat}

theorem mono (h : Decodes p xs a m) (hle : m ≤ n) : Decodes p xs a n := by
  intro input held more rest hready hreader
  have hmore : m + (n - m + more) ≤ n + more := by omega
  apply (h input held (n - m + more) rest (hready.mono hmore) hreader).mono
  rintro a' input' ⟨ha, hready', hrest⟩
  exact ⟨ha, hready'.mono (by omega), hrest⟩

theorem pure : Decodes (Pure.pure a : Parser β α) [] a 0 := by
  intro input held more rest hready hreader
  rw [Nat.zero_add] at hready
  exact returns_pure ⟨rfl, hready, hreader, rfl⟩

theorem bind (hp : Decodes p xs a m) (hf : Decodes (f a) ys c n) :
    Decodes (p >>= f) (xs ++ ys) c (m + n) := by
  intro input held more rest hready hreader
  rw [Nat.add_assoc] at hready
  rw [List.append_assoc] at hreader
  apply returns_bind.mpr
  apply (hp input held (n + more) (ys ++ rest) hready hreader).mono
  rintro a' input₁ ⟨ha, hready₁, hreader₁, hlen₁⟩
  subst ha
  apply (hf input₁ held more rest hready₁ hreader₁).mono
  rintro c' input₂ ⟨hc, hready₂, hreader₂, hlen₂⟩
  exact ⟨hc, hready₂, hreader₂, hlen₂.trans hlen₁⟩

theorem map (hp : Decodes p xs a m) (g : α → γ) : Decodes (do return g (← p)) xs (g a) m := by
  have hbind : Decodes (p >>= fun a => Pure.pure (g a)) (xs ++ []) (g a) (m + 0) := hp.bind pure
  rwa [List.append_nil] at hbind

theorem ensure {f : Unit → Parser β γ} {condition : Prop} [Decidable condition] {error : Error}
    (hcondition : condition) (hf : Decodes (f ()) ys c n) :
    Decodes (Method.ensure condition error >>= f) ys c n := by
  intro input held more rest hready hreader
  apply returns_bind.mpr
  exact returns_ensure hcondition (hf input held more rest hready hreader)

theorem orErr {value : Option α} {error : Error} (hvalue : value = some a)
    (hf : Decodes (f a) ys c n) : Decodes (Method.orErr value error >>= f) ys c n := by
  intro input held more rest hready hreader
  apply returns_bind.mpr
  exact returns_orErr hvalue (hf input held more rest hready hreader)

theorem ofExcept {result : Except Error α} (hresult : result = .ok a)
    (hf : Decodes (f a) ys c n) : Decodes (Method.ofExcept result >>= f) ys c n := by
  intro input held more rest hready hreader
  apply returns_bind.mpr
  exact returns_ofExcept hresult (hf input held more rest hready hreader)

/-- A read may look at the state, in which the bytes are still to come. -/
theorem get {f : Input β → Parser β γ}
    (hf : ∀ input : Input β, ys.length ≤ input.remaining → Decodes (f input) ys c n) :
    Decodes (MonadState.get >>= f) ys c n := by
  intro input held more rest hready hreader
  apply returns_get
  apply hf input _ input held more rest hready hreader
  rw [hready.remaining, hreader, List.length_append]
  exact Nat.le_add_right _ _

theorem reserve {f : Unit → Parser β γ} {bytes : Nat} {what : String}
    (hf : Decodes (f ()) ys c n) : Decodes (Gguf.reserve bytes what >>= f) ys c n := by
  intro input held more rest hready hreader
  apply returns_bind.mpr
  apply returns_reserve hready.grants
  exact fun budgetState => hf _ held more rest (hready.charge budgetState) hreader

end Decodes

theorem decodes_commitRetained : Decodes (commitRetained : Parser β Unit) [] () 1 := by
  intro input held more rest hready hreader
  rw [Nat.add_comm] at hready
  apply (returns_commitRetained hready).mono
  rintro _ input' ⟨hready', hkept⟩
  exact ⟨rfl, hready', hkept.reader.trans hreader, hkept.fileLen⟩

/-- The next bytes are read and the position moves past them. -/
theorem decodes_read {f : List UInt8 → Parser β γ} {xs ys : List UInt8} {c : γ} {n : Nat}
    (hf : Decodes (f xs) ys c n) :
    Decodes (do let read ← readExact xs.length; advance xs.length; f read) (xs ++ ys) c n := by
  intro input held more rest hready hreader
  have hlen : input.reader.length = xs.length + (ys ++ rest).length := by
    rw [hreader, List.append_assoc, List.length_append]
  have hposition := hready.position
  have hbound := hready.fileLen
  apply returns_bind.mpr
  apply returns_get
  apply returns_bind.mpr
  apply returns_ensure (by omega)
  apply returns_bind.mpr
  apply returns_modify
  apply returns_pure
  apply returns_bind.mpr
  apply returns_get
  apply returns_bind.mpr
  apply returns_orErr (checkedAdd_eq_some.mpr ⟨by dsimp only; omega, rfl⟩)
  apply returns_modify
  have htake : input.reader.take xs.length = xs := by
    rw [hreader, List.append_assoc, List.take_left]
  have hdrop : input.reader.drop xs.length = ys ++ rest := by
    rw [hreader, List.append_assoc, List.drop_left]
  rw [htake]
  apply hf _ held more rest _ hdrop
  exact { hready with position := by dsimp only; rw [hdrop]; omega }

end Leone.Gguf

import Leone.Gguf.Parser

/-!
# What the reads of the parser yield

`Yields m P` says that a value returned by `m` has `P`, whatever the budget answers, and that the
length of the file stays the same.
-/

namespace Leone.Gguf

open Framework Framework.Method

variable {β α γ : Type}

def Yields (m : Parser β α) (P : α → Prop) : Prop :=
  ∀ input, m.Ends input (fun a input' => P a ∧ input'.fileLen = input.fileLen) fun _ _ => True

namespace Yields

variable {P Q : α → Prop} {m : Parser β α}

theorem mono (h : Yields m P) (hPQ : ∀ a, P a → Q a) : Yields m Q := fun input =>
  (h input).mono (fun a _ ha => ⟨hPQ a ha.1, ha.2⟩) fun _ _ hf => hf

theorem pure {a : α} (h : P a) : Yields (Pure.pure a : Parser β α) P := fun _ => ⟨h, rfl⟩

theorem bind {R : γ → Prop} {f : α → Parser β γ} (hm : Yields m P)
    (hf : ∀ a, P a → Yields (f a) R) : Yields (m >>= f) R := by
  intro input
  rw [ends_bind]
  apply (hm input).mono
  · rintro a input' ⟨ha, hlen⟩
    exact (hf a ha input').mono (fun c _ hc => ⟨hc.1, hc.2.trans hlen⟩) fun _ _ hf => hf
  · exact fun _ _ hf => hf

theorem get {f : Input β → Parser β γ} {R : γ → Prop} (hf : ∀ input, Yields (f input) R) :
    Yields (MonadState.get >>= f) R := by
  intro input
  rw [ends_bind, ends_get]
  exact hf input input

theorem raise (error : Error) : Yields (Method.raise error : Parser β α) P := fun _ => trivial

theorem ensure {c : Prop} [Decidable c] (error : Error) :
    Yields (Method.ensure c error : Parser β Unit) fun _ => c := by
  intro input
  rw [ends_ensure]
  exact ⟨fun hc => ⟨hc, rfl⟩, fun _ => trivial⟩

theorem orErr (value : Option α) (error : Error) :
    Yields (Method.orErr value error : Parser β α) fun a => value = some a := by
  intro input
  rw [ends_orErr]
  exact ⟨fun a ha => ⟨ha, rfl⟩, fun _ => trivial⟩

theorem ofExcept (result : Except Error α) :
    Yields (Method.ofExcept result : Parser β α) fun a => result = .ok a := by
  intro input
  rw [ends_ofExcept]
  exact ⟨fun a ha => ⟨ha, rfl⟩, fun _ _ => trivial⟩

theorem modify {f : Input β → Input β} (h : ∀ input, (f input).fileLen = input.fileLen) :
    Yields (modify f : Parser β Unit) fun _ => True := by
  intro input
  rw [ends_modify]
  exact ⟨trivial, h input⟩

theorem ite {c : Prop} [Decidable c] {n : Parser β α} (hm : c → Yields m P)
    (hn : ¬ c → Yields n P) : Yields (if c then m else n) P := by
  by_cases hc : c
  · rw [if_pos hc]
    exact hm hc
  · rw [if_neg hc]
    exact hn hc

end Yields

/-- A read that keeps the length of the file. -/
abbrev Keeps (m : Parser β α) : Prop := Yields m fun _ => True

theorem Keeps.of {m : Parser β α} {P : α → Prop} (h : Yields m P) : Keeps m :=
  h.mono fun _ _ => trivial

theorem Keeps.bind {m : Parser β α} {f : α → Parser β γ} (hm : Keeps m)
    (hf : ∀ a, Keeps (f a)) : Keeps (m >>= f) :=
  Yields.bind hm fun a _ => hf a

section Fields

theorem keeps_readExact (n : Nat) : Keeps (readExact n : Parser β _) := by
  apply Yields.get
  intro _
  apply Keeps.bind (Keeps.of (Yields.ensure _))
  intro _
  apply Keeps.bind
  · exact Yields.modify fun _ => rfl
  · exact fun _ => Yields.pure trivial

theorem keeps_advance (n : Nat) : Keeps (advance n : Parser β _) := by
  apply Yields.get
  intro _
  apply Keeps.bind (Keeps.of (Yields.orErr _ _))
  intro _
  exact Yields.modify fun _ => rfl

theorem keeps_bytes (n : Nat) : Keeps (bytes n : Parser β _) :=
  (keeps_readExact n).bind fun _ => (keeps_advance n).bind fun _ => Yields.pure trivial

theorem keeps_u8 : Keeps (u8 : Parser β _) := (keeps_bytes 1).bind fun _ => Yields.pure trivial
theorem keeps_u16 : Keeps (u16 : Parser β _) := (keeps_bytes 2).bind fun _ => Yields.pure trivial
theorem keeps_u32 : Keeps (u32 : Parser β _) := (keeps_bytes 4).bind fun _ => Yields.pure trivial
theorem keeps_u64 : Keeps (u64 : Parser β _) := (keeps_bytes 8).bind fun _ => Yields.pure trivial

theorem keeps_bool : Keeps (bool : Parser β _) := by
  apply keeps_u8.bind
  intro _
  apply Yields.ite
  · exact fun _ => Yields.pure trivial
  · intro _
    apply Yields.ite
    · exact fun _ => Yields.pure trivial
    · exact fun _ => Yields.raise _

end Fields

section Budget

theorem keeps_reserve (bytes : Nat) (what : String) : Keeps (reserve bytes what : Parser β _) := by
  apply Yields.get
  intro _
  apply Keeps.bind (Keeps.of (Yields.ofExcept _))
  intro _
  exact Yields.modify fun _ => rfl

theorem keeps_commit : Keeps (commit : Parser β _) := by
  apply Yields.get
  intro _
  apply Keeps.bind (Keeps.of (Yields.ofExcept _))
  intro _
  exact Yields.modify fun _ => rfl

theorem keeps_retainReservation : Keeps (retainReservation : Parser β _) := by
  apply Yields.get
  intro _
  apply Keeps.bind (Keeps.of (Yields.ensure _))
  intro _
  exact Yields.modify fun _ => rfl

theorem keeps_geometricCapacity (required current : Nat) (what : String) :
    Keeps (geometricCapacity required current what : Parser β _) := by
  apply Yields.ite
  · exact fun _ => Yields.pure trivial
  · intro _
    apply Yields.ite
    · exact fun _ => Yields.pure trivial
    · exact fun _ => Keeps.bind (Keeps.of (Yields.orErr _ _)) fun _ => Yields.pure trivial

theorem keeps_reserveGuardResize (oldBytes : Nat) :
    Keeps (reserveGuardResize oldBytes : Parser β _) := by
  apply Yields.ite
  · exact fun _ => Yields.pure trivial
  · exact fun _ => keeps_reserve _ _

theorem keeps_ensureGuardStorageCapacity : Keeps (ensureGuardStorageCapacity : Parser β _) := by
  apply Yields.get
  intro _
  apply Keeps.bind (Keeps.of (Yields.orErr _ _))
  intro _
  apply Yields.ite
  · exact fun _ => Yields.pure trivial
  · intro _
    apply (keeps_geometricCapacity _ _ _).bind
    intro _
    apply Keeps.bind (Keeps.of (Yields.orErr _ _))
    intro _
    apply (keeps_reserveGuardResize _).bind
    intro _
    exact Yields.modify fun _ => rfl

theorem keeps_reserveGuards (additional : Nat) : Keeps (reserveGuards additional : Parser β _) := by
  apply Yields.get
  intro _
  apply Yields.ite
  · exact fun _ => Yields.pure trivial
  · intro _
    apply Keeps.bind (Keeps.of (Yields.orErr _ _))
    intro _
    exact (keeps_reserve _ _).bind fun _ => keeps_retainReservation

theorem keeps_growGuardMetadata (required : Nat) (store : Bool) :
    Keeps (growGuardMetadata required store : Parser β _) := by
  apply Yields.get
  intro _
  apply (keeps_geometricCapacity _ _ _).bind
  intro _
  apply (keeps_reserveGuards _).bind
  intro _
  dsimp only
  apply Yields.ite
  · exact fun _ => keeps_ensureGuardStorageCapacity.bind fun _ => Yields.modify fun _ => rfl
  · exact fun _ => Yields.modify fun _ => rfl

theorem keeps_reserveGuardMetadata (store : Bool) :
    Keeps (reserveGuardMetadata store : Parser β _) := by
  apply Yields.get
  intro _
  apply Keeps.bind (Keeps.of (Yields.orErr _ _))
  intro _
  dsimp only
  apply Yields.ite
  · exact fun _ => (keeps_growGuardMetadata _ _).bind fun _ => Yields.modify fun _ => rfl
  · intro _
    apply Yields.ite
    · exact fun _ => keeps_ensureGuardStorageCapacity.bind fun _ => Yields.modify fun _ => rfl
    · exact fun _ => Yields.modify fun _ => rfl

theorem keeps_commitRetained : Keeps (commitRetained : Parser β _) :=
  (keeps_reserveGuardMetadata true).bind fun _ =>
    keeps_commit.bind fun _ => Yields.modify fun _ => rfl

theorem keeps_allocateVec (elementBytes count : Nat) (what : String) :
    Keeps (allocateVec elementBytes count what : Parser β _) := by
  apply Yields.ite
  · exact fun _ => Yields.pure trivial
  · intro _
    apply Keeps.bind
    · apply Keeps.bind (Keeps.of (Yields.orErr _ _))
      exact fun _ => Keeps.of (Yields.orErr _ _)
    · exact fun _ => (keeps_reserve _ _).bind fun _ => keeps_commitRetained

theorem keeps_reserveHashCollection (entryBytes count : Nat) (what : String) :
    Keeps (reserveHashCollection entryBytes count what : Parser β _) := by
  apply Yields.ite
  · exact fun _ => Yields.pure trivial
  · intro _
    apply Keeps.bind
    · apply Keeps.bind (Keeps.of (Yields.orErr _ _))
      intro _
      apply Keeps.bind (Keeps.of (Yields.orErr _ _))
      intro _
      apply Keeps.bind (Keeps.of (Yields.orErr _ _))
      exact fun _ => Keeps.of (Yields.orErr _ _)
    · exact fun _ => keeps_reserve _ _

theorem keeps_reserveOrderedCollection (entryBytes count : Nat) (what : String) :
    Keeps (reserveOrderedCollection entryBytes count what : Parser β _) := by
  apply Yields.ite
  · exact fun _ => Yields.pure trivial
  · exact fun _ => Keeps.bind (Keeps.of (Yields.orErr _ _)) fun _ => keeps_reserve _ _

end Budget

section Values

theorem keeps_checkLimit (what : String) (value limit : Nat) :
    Keeps (checkLimit what value limit : Parser β _) := Keeps.of (Yields.ensure _)

theorem keeps_string (field : String) : Keeps (string field : Parser β _) := by
  apply Keeps.bind
  · apply keeps_u64.bind
    intro _
    apply (keeps_checkLimit _ _ _).bind
    intro _
    apply Yields.get
    intro _
    exact Keeps.bind (Keeps.of (Yields.ensure _)) fun _ => Yields.pure trivial
  · intro _
    apply Yields.ite
    · exact fun _ => Yields.pure trivial
    · intro _
      apply (keeps_reserve _ _).bind
      intro _
      apply (keeps_readExact _).bind
      intro _
      apply (keeps_advance _).bind
      intro _
      apply Keeps.bind (Keeps.of (Yields.orErr _ _))
      intro _
      exact keeps_commitRetained.bind fun _ => Yields.pure trivial

theorem keeps_cloneString (value field : String) : Keeps (cloneString value field : Parser β _) := by
  apply Yields.ite
  · exact fun _ => Yields.pure trivial
  · intro _
    apply (keeps_reserve _ _).bind
    intro _
    apply (keeps_reserveGuardMetadata _).bind
    intro _
    exact keeps_commit.bind fun _ => Yields.pure trivial

/-- A fixed number of reads yields as many values of the kind. -/
theorem yields_readMany {read : Parser β α} {P : α → Prop} (h : Yields read P) (count : Nat) :
    Yields (readMany read count) fun values => values.length = count ∧ ∀ v ∈ values, P v := by
  induction count with
  | zero => exact Yields.pure ⟨rfl, by simp⟩
  | succ count ih =>
    apply h.bind
    intro value hvalue
    apply ih.bind
    rintro values ⟨hlen, hall⟩
    apply Yields.pure
    refine ⟨by rw [List.length_cons, hlen], ?_⟩
    intro v hv
    rcases List.mem_cons.mp hv with rfl | hmem
    · exact hvalue
    · exact hall v hmem

theorem keeps_readArrayValuesMapped {read : Parser β α} (h : Keeps read) (elementBytes len : Nat)
    (map : α → γ) : Keeps (readArrayValuesMapped elementBytes len read map) :=
  (keeps_allocateVec _ _ _).bind fun _ =>
    Keeps.of (yields_readMany (h.bind fun _ => Yields.pure trivial) len)

theorem keeps_map {f : α → γ} {m : Parser β α} (h : Keeps m) :
    Keeps (do return f (← m)) := h.bind fun _ => Yields.pure trivial

theorem keeps_parseArrayValues (elementType : ValueType) (len : Nat) :
    Keeps (parseArrayValues elementType len : Parser β _) := by
  cases elementType with
  | uint8 | int8 => exact keeps_map (keeps_readArrayValuesMapped keeps_u8 _ _ _)
  | uint16 | int16 => exact keeps_map (keeps_readArrayValuesMapped keeps_u16 _ _ _)
  | uint32 | int32 | float32 => exact keeps_map (keeps_readArrayValuesMapped keeps_u32 _ _ _)
  | uint64 | int64 | float64 => exact keeps_map (keeps_readArrayValuesMapped keeps_u64 _ _ _)
  | bool => exact keeps_map (keeps_readArrayValuesMapped keeps_bool _ _ _)
  | string => exact keeps_map (keeps_readArrayValuesMapped (keeps_string _) _ _ _)
  | array => exact Yields.raise _

theorem keeps_parseArray : Keeps (parseArray : Parser β _) := by
  apply keeps_u32.bind
  intro _
  apply Keeps.bind (Keeps.of (Yields.orErr _ _))
  intro _
  apply Keeps.bind (Keeps.of (Yields.ensure _))
  intro _
  apply keeps_u64.bind
  intro _
  apply (keeps_checkLimit _ _ _).bind
  intro _
  apply Keeps.bind (Keeps.of (Yields.orErr _ _))
  intro _
  apply Yields.get
  intro _
  apply Keeps.bind (Keeps.of (Yields.ensure _))
  intro _
  exact keeps_parseArrayValues _ _

theorem keeps_parseValue (valueType : ValueType) : Keeps (parseValue valueType : Parser β _) := by
  cases valueType with
  | uint8 | int8 => exact keeps_map keeps_u8
  | uint16 | int16 => exact keeps_map keeps_u16
  | uint32 | int32 | float32 => exact keeps_map keeps_u32
  | uint64 | int64 | float64 => exact keeps_map keeps_u64
  | bool => exact keeps_map keeps_bool
  | string => exact keeps_map (keeps_string _)
  | array => exact keeps_map keeps_parseArray

end Values

end Leone.Gguf

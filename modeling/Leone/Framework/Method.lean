import Mathlib

/-!
# Fallible methods on mutable state

A method that may fail keeps the writes it made before it failed. It either returns a value,
returns an error, or panics. `Ends` is its weakest precondition, with one postcondition for a
returned value and one for a fault; each construct has one rewriting rule.
-/

namespace Framework

/-- How a method can stop early: with a returned error, or with a panic. -/
inductive Fault (ε : Type*)
  | error (e : ε)
  | panic
  deriving DecidableEq, Repr

theorem Fault.error_ne_panic {ε : Type*} {e : ε} : Fault.error e ≠ .panic := nofun

/-- A method over the state `σ`. Writes made before a fault persist. -/
abbrev Method (σ ε α : Type) := EStateM (Fault ε) σ α

namespace Method

variable {σ τ ε α β ι : Type}

def raise (e : ε) : Method σ ε α := throw (.error e)
def panic : Method σ ε α := throw .panic

/-- The value of an option, or a returned error. -/
def orErr (o : Option α) (e : ε) : Method σ ε α :=
  match o with
  | some a => pure a
  | none => raise e

/-- The value of an option, or a panic. -/
def orPanic (o : Option α) : Method σ ε α :=
  match o with
  | some a => pure a
  | none => panic

def ofExcept (r : Except ε α) : Method σ ε α :=
  match r with
  | .ok a => pure a
  | .error e => raise e

/-- Go on only under a condition. -/
def ensure (c : Prop) [Decidable c] (e : ε) : Method σ ε Unit := if c then pure () else raise e

/-- Run a method on a part of the state and write the part back, also after a fault. -/
def zoom (view : σ → τ) (put : τ → σ → σ) (m : Method τ ε α) : Method σ ε α := fun s =>
  match m.run (view s) with
  | .ok a t => .ok a (put t s)
  | .error e t => .error e (put t s)

/-- Run a method on a part of the state and hand its returned error over as a value. A panic
stays a panic. -/
def attempt {ε' : Type} (view : σ → τ) (put : τ → σ → σ) (m : Method τ ε' α) :
    Method σ ε (Except ε' α) := fun s =>
  match m.run (view s) with
  | .ok a t => .ok (.ok a) (put t s)
  | .error (.error e) t => .ok (.error e) (put t s)
  | .error .panic t => .error .panic (put t s)

/-- The state a call leaves behind, whichever way it ends. -/
def after (m : Method σ ε α) (s : σ) : σ :=
  match m.run s with
  | .ok _ s' => s'
  | .error _ s' => s'

/-- What a call returns, whichever state it leaves behind. -/
def result (m : Method σ ε α) (s : σ) : Except (Fault ε) α :=
  match m.run s with
  | .ok a _ => .ok a
  | .error e _ => .error e

/-- Weakest precondition: `Q` after a returned value, `E` after a fault. -/
def Ends (m : Method σ ε α) (s : σ) (Q : α → σ → Prop) (E : Fault ε → σ → Prop) : Prop :=
  match m.run s with
  | .ok a s' => Q a s'
  | .error e s' => E e s'

section Rules

variable {Q : α → σ → Prop} {E : Fault ε → σ → Prop} {s : σ}

theorem Ends.mono {Q' : α → σ → Prop} {E' : Fault ε → σ → Prop} {m : Method σ ε α}
    (h : m.Ends s Q E) (hQ : ∀ a s', Q a s' → Q' a s') (hE : ∀ e s', E e s' → E' e s') :
    Ends m s Q' E' := by
  unfold Ends at *
  split at h
  · exact hQ _ _ h
  · exact hE _ _ h

theorem Ends.and {Q' : α → σ → Prop} {E' : Fault ε → σ → Prop} {m : Method σ ε α}
    (h : m.Ends s Q E) (h' : m.Ends s Q' E') :
    Ends m s (fun a s' => Q a s' ∧ Q' a s') (fun e s' => E e s' ∧ E' e s') := by
  unfold Ends at *
  cases hm : m.run s <;> simp_all

theorem Ends.after {P : σ → Prop} {m : Method σ ε α}
    (h : Ends m s (fun _ s' => P s') (fun _ s' => P s')) : P (after m s) := by
  unfold Ends at h
  unfold Method.after
  split <;> simp_all

/-- A precondition that always ends in a value determines the run. -/
theorem Ends.run_ok {m : Method σ ε α} (h : Ends m s Q fun _ _ => False) :
    ∃ a s', m.run s = .ok a s' ∧ Q a s' := by
  unfold Ends at h
  split at h
  · exact ⟨_, _, ‹_›, h⟩
  · exact h.elim

theorem ends_iff {m : Method σ ε α} : Ends m s Q E ↔
    (∀ a s', m.run s = .ok a s' → Q a s') ∧ ∀ e s', m.run s = .error e s' → E e s' := by
  unfold Ends
  cases m.run s <;> simp

theorem Ends.of_ok {m : Method σ ε α} {a : α} {s' : σ} (h : m.Ends s Q E)
    (hr : m.run s = .ok a s') : Q a s' :=
  (ends_iff.mp h).1 a s' hr

theorem Ends.of_error {m : Method σ ε α} {e : Fault ε} {s' : σ} (h : m.Ends s Q E)
    (hr : m.run s = .error e s') : E e s' :=
  (ends_iff.mp h).2 e s' hr

/-- Every run ends one way or the other. -/
theorem not_ends_false (m : Method σ ε α) (s : σ) :
    ¬ Ends m s (fun _ _ => False) (fun _ _ => False) := by
  unfold Ends
  split <;> exact fun h => h

instance (m : Method σ ε α) [∀ a s, Decidable (Q a s)] [∀ e s, Decidable (E e s)] :
    Decidable (Ends m s Q E) := by
  unfold Ends
  split <;> infer_instance

theorem after_of_ok {m : Method σ ε α} {a : α} {s' : σ} (hr : m.run s = .ok a s') :
    after m s = s' := by simp [after, hr]

theorem after_of_error {m : Method σ ε α} {e : Fault ε} {s' : σ} (hr : m.run s = .error e s') :
    after m s = s' := by simp [after, hr]

theorem run_of_result {m : Method σ ε α} {a : α} (h : result m s = .ok a) :
    m.run s = .ok a (after m s) := by
  unfold result at h
  unfold after
  split at h <;> simp_all

/-- A postcondition holds of what the call returns and of the state it leaves behind. -/
theorem ends_iff_result {m : Method σ ε α} : Ends m s Q E ↔
    (∀ a, result m s = .ok a → Q a (after m s)) ∧ ∀ e, result m s = .error e → E e (after m s) := by
  unfold Ends result after
  cases m.run s <;> simp

@[simp] theorem ends_pure (a : α) : Ends (pure a : Method σ ε α) s Q E ↔ Q a s := Iff.rfl

@[simp] theorem ends_bind {Q : β → σ → Prop} (m : Method σ ε α) (f : α → Method σ ε β) :
    Ends (m >>= f) s Q E ↔ Ends m s (fun a s' => Ends (f a) s' Q E) E := by
  unfold Ends
  rw [EStateM.run_bind]
  cases m.run s <;> rfl

@[simp] theorem ends_map {Q : β → σ → Prop} (f : α → β) (m : Method σ ε α) :
    Ends (f <$> m) s Q E ↔ Ends m s (fun a s' => Q (f a) s') E := by
  rw [map_eq_pure_bind, ends_bind]
  rfl

@[simp] theorem ends_discard {Q : PUnit → σ → Prop} (m : Method σ ε α) :
    Ends (discard m) s Q E ↔ Ends m s (fun _ s' => Q ⟨⟩ s') E :=
  ends_map _ m

@[simp] theorem ends_get {Q : σ → σ → Prop} :
    Ends (get : Method σ ε σ) s Q E ↔ Q s s := Iff.rfl

@[simp] theorem ends_set {Q : PUnit → σ → Prop} (s' : σ) :
    Ends (set s' : Method σ ε PUnit) s Q E ↔ Q ⟨⟩ s' := Iff.rfl

@[simp] theorem ends_modify {Q : PUnit → σ → Prop} (f : σ → σ) :
    Ends (modify f : Method σ ε PUnit) s Q E ↔ Q ⟨⟩ (f s) := Iff.rfl

@[simp] theorem ends_ite (c : Prop) [Decidable c] (m n : Method σ ε α) :
    Ends (if c then m else n) s Q E ↔ (c → Ends m s Q E) ∧ (¬ c → Ends n s Q E) := by
  split <;> simp [*]

@[simp] theorem ends_zoom (view : σ → τ) (put : τ → σ → σ) (m : Method τ ε α) :
    Ends (zoom view put m) s Q E ↔
      Ends m (view s) (fun a t => Q a (put t s)) (fun e t => E e (put t s)) := by
  simp only [Ends, zoom, EStateM.run]
  cases m (view s) <;> rfl

/-- A fold over a list keeps an invariant of the items still to come. -/
theorem ends_foldlM {f : β → ι → Method σ ε β} {I : List ι → σ → Prop} {is : List ι}
    (h : I is s) (hf : ∀ b i is s, I (i :: is) s → Ends (f b i) s (fun _ s' => I is s') E)
    (b : β) : Ends (is.foldlM f b) s (fun _ s' => I [] s') E := by
  induction is generalizing s b with
  | nil => exact h
  | cons i is ih =>
    simp only [List.foldlM_cons, ends_bind]
    exact (hf b i is s h).mono (fun b' s' hs' => ih hs' b') (fun _ _ he => he)

/-- A loop over a list keeps an invariant of the items still to come. -/
theorem ends_forM {f : ι → Method σ ε PUnit} {I : List ι → σ → Prop} {is : List ι}
    (h : I is s)
    (hf : ∀ i is s, I (i :: is) s → Ends (f i) s (fun _ s' => I is s') E) :
    Ends (forM is f) s (fun _ s' => I [] s') E := by
  induction is generalizing s with
  | nil => exact h
  | cons i is ih =>
    simp only [List.forM_cons, ends_bind]
    exact (hf i is s h).mono (fun _ s' hs' => ih hs') (fun _ _ he => he)

@[simp] theorem ends_raise (e : ε) : Ends (raise e : Method σ ε α) s Q E ↔ E (.error e) s :=
  Iff.rfl

@[simp] theorem ends_panic : Ends (panic : Method σ ε α) s Q E ↔ E .panic s := Iff.rfl

@[simp] theorem ends_orErr (o : Option α) (e : ε) : Ends (orErr o e) s Q E ↔
    (∀ a, o = some a → Q a s) ∧ (o = none → E (.error e) s) := by
  cases o <;> simp [orErr]

@[simp] theorem ends_orPanic (o : Option α) : Ends (orPanic o) s Q E ↔
    (∀ a, o = some a → Q a s) ∧ (o = none → E .panic s) := by
  cases o <;> simp [orPanic]

@[simp] theorem ends_ofExcept (r : Except ε α) : Ends (ofExcept r) s Q E ↔
    (∀ a, r = .ok a → Q a s) ∧ (∀ e, r = .error e → E (.error e) s) := by
  cases r <;> simp [ofExcept]

@[simp] theorem ends_ensure {Q : Unit → σ → Prop} (c : Prop) [Decidable c] (e : ε) :
    Ends (ensure c e) s Q E ↔ (c → Q () s) ∧ (¬ c → E (.error e) s) := by
  unfold ensure
  split <;> simp [*]

@[simp] theorem ends_attempt {ε' : Type} {Q : Except ε' α → σ → Prop} (view : σ → τ)
    (put : τ → σ → σ) (m : Method τ ε' α) : Ends (attempt view put m) s Q E ↔
      Ends m (view s) (fun a t => Q (.ok a) (put t s)) (fun fault t =>
        (∀ e, fault = .error e → Q (.error e) (put t s)) ∧
        (fault = .panic → E .panic (put t s))) := by
  simp only [Ends, attempt, EStateM.run]
  cases m (view s) with
  | ok a t => exact Iff.rfl
  | error fault t => cases fault <;> simp

/-- `m` leaves a state with `P` however it returns, and panics only under `R`. -/
def Leaves (m : Method σ ε α) (s : σ) (P : σ → Prop) (R : Prop) : Prop :=
  Ends m s (fun _ s' => P s') (fun fault s' => (fault = .panic → R) ∧ (fault ≠ .panic → P s'))

end Rules

/-! ## What a method never touches -/

section Frame

variable {κ : Type*} {view : σ → κ}

/-- `m` leaves the viewed part of the state as it was, however it ends. -/
def Keeps (view : σ → κ) (m : Method σ ε α) : Prop :=
  ∀ s, Ends m s (fun _ s' => view s' = view s) (fun _ s' => view s' = view s)

theorem Keeps.after {m : Method σ ε α} (h : Keeps view m) (s : σ) :
    view (after m s) = view s := (h s).after

theorem keeps_pure (a : α) : Keeps view (pure a : Method σ ε α) := fun _ => rfl

theorem keeps_get : Keeps view (get : Method σ ε σ) := fun _ => rfl

theorem keeps_modify {f : σ → σ} (hf : ∀ s, view (f s) = view s) :
    Keeps view (modify f : Method σ ε PUnit) := hf

theorem Keeps.bind {m : Method σ ε α} {f : α → Method σ ε β} (hm : Keeps view m)
    (hf : ∀ a, Keeps view (f a)) : Keeps view (m >>= f) := by
  intro s
  rw [ends_bind]
  apply (hm s).mono
  · intro a t ht
    apply (hf a t).mono
    · exact fun b u hu => hu.trans ht
    · exact fun e u hu => hu.trans ht
  · exact fun e t ht => ht

theorem keeps_orErr (o : Option α) (e : ε) : Keeps view (orErr o e : Method σ ε α) := by
  intro s
  cases o <;> rfl

theorem keeps_orPanic (o : Option α) : Keeps view (orPanic o : Method σ ε α) := by
  intro s
  cases o <;> rfl

theorem keeps_ofExcept (r : Except ε α) : Keeps view (ofExcept r : Method σ ε α) := by
  intro s
  cases r <;> rfl

theorem keeps_ensure (c : Prop) [Decidable c] (e : ε) :
    Keeps view (ensure c e : Method σ ε Unit) := by
  intro s
  by_cases h : c <;> simp [h]

theorem Keeps.ite {c : Prop} [Decidable c] {m n : Method σ ε α} (hm : Keeps view m)
    (hn : Keeps view n) : Keeps view (if c then m else n) := by
  split
  · exact hm
  · exact hn

theorem Keeps.forM {f : ι → Method σ ε PUnit} (hf : ∀ i, Keeps view (f i)) (is : List ι) :
    Keeps view (forM is f) := by
  induction is with
  | nil => exact keeps_pure _
  | cons i is ih =>
    rw [List.forM_cons]
    exact (hf i).bind fun _ => ih

theorem Keeps.mapM' {f : ι → Method σ ε α} (hf : ∀ i, Keeps view (f i)) (is : List ι) :
    Keeps view (is.mapM' f) := by
  induction is with
  | nil => exact keeps_pure _
  | cons i is ih =>
    rw [List.mapM']
    exact (hf i).bind fun _ => ih.bind fun _ => keeps_pure _

/-- A part of the state whose changes the view does not show. -/
theorem Keeps.zoom {κ' : Type*} {inner : τ → κ'} {part : σ → τ} {put : τ → σ → σ}
    {m : Method τ ε α} (hm : Keeps inner m)
    (hput : ∀ s t, inner t = inner (part s) → view (put t s) = view s) :
    Keeps view (zoom part put m) := by
  intro s
  rw [ends_zoom]
  apply (hm (part s)).mono
  · exact fun _ t ht => hput s t ht
  · exact fun _ t ht => hput s t ht

end Frame

end Method

/-! ## Loops that may fail without a state -/

section Except

variable {ε α β : Type}

theorem exists_of_isOk {r : Except ε α} (h : r.isOk = true) : ∃ a, r = .ok a := by
  cases r with
  | ok a => exact ⟨a, rfl⟩
  | error e => cases h

theorem bind_eq_ok {m : Except ε α} {f : α → Except ε β} {b : β} :
    m >>= f = .ok b ↔ ∃ a, m = .ok a ∧ f a = .ok b := by
  cases m with
  | ok a => exact ⟨fun h => ⟨a, rfl, h⟩, fun ⟨_, ha, h⟩ => Except.ok.inj ha ▸ h⟩
  | error e => exact ⟨fun h => (by cases h), fun ⟨_, ha, _⟩ => (by cases ha)⟩

/-- A traversal succeeds exactly when each element does. -/
theorem mapM_eq_ok {f : α → Except ε β} {as : List α} {bs : List β} :
    as.mapM f = .ok bs ↔ List.Forall₂ (fun a b => f a = .ok b) as bs := by
  induction as generalizing bs with
  | nil =>
    rw [List.mapM_nil, List.forall₂_nil_left_iff]
    exact ⟨fun h => (Except.ok.inj h).symm, fun h => congrArg Except.ok h.symm⟩
  | cons a as ih =>
    rw [List.mapM_cons, bind_eq_ok, List.forall₂_cons_left_iff]
    constructor
    · rintro ⟨b, hb, hrest⟩
      obtain ⟨bs', hbs, heq⟩ := bind_eq_ok.mp hrest
      exact ⟨b, bs', hb, ih.mp hbs, (Except.ok.inj heq).symm⟩
    · rintro ⟨b, bs', hb, hbs, rfl⟩
      exact ⟨b, hb, bind_eq_ok.mpr ⟨bs', ih.mpr hbs, rfl⟩⟩

/-- Every result of a traversal comes from one of its elements. -/
theorem exists_of_mem_mapM {f : α → Except ε β} {as : List α} {bs : List β}
    (h : as.mapM f = .ok bs) {b : β} (hb : b ∈ bs) : ∃ a ∈ as, f a = .ok b := by
  rw [mapM_eq_ok] at h
  induction h with
  | nil => cases hb
  | @cons a first as bs hfirst _ ih =>
    rcases List.mem_cons.mp hb with heq | hrest
    · exact ⟨a, List.mem_cons_self, heq ▸ hfirst⟩
    · obtain ⟨a', ha', hresult⟩ := ih hrest
      exact ⟨a', List.mem_cons_of_mem _ ha', hresult⟩

/-- What every step of a fold keeps holds of its result. -/
theorem foldlM_invariant {f : β → α → Except ε β} {P : β → Prop} {as : List α} {b b' : β}
    (h : as.foldlM f b = .ok b') (hb : P b)
    (hstep : ∀ a ∈ as, ∀ b b', P b → f b a = .ok b' → P b') : P b' := by
  induction as generalizing b with
  | nil => exact Except.ok.inj h ▸ hb
  | cons a as ih =>
    rw [List.foldlM_cons] at h
    obtain ⟨c, hc, hrest⟩ := bind_eq_ok.mp h
    exact ih hrest (hstep a List.mem_cons_self b c hb hc)
      fun a' ha' => hstep a' (List.mem_cons_of_mem a ha')

end Except

/-! ## Fixed-width arithmetic on natural numbers -/

/-- Unsigned values of a fixed width. -/
abbrev U16 := Fin (2 ^ 16)
abbrev U32 := Fin (2 ^ 32)
abbrev U64 := Fin (2 ^ 64)

instance neZero_u16 : NeZero (2 ^ 16 : Nat) := ⟨by decide⟩
instance neZero_u32 : NeZero (2 ^ 32 : Nat) := ⟨by decide⟩
instance neZero_u64 : NeZero (2 ^ 64 : Nat) := ⟨by decide⟩

theorem one_lt_u64 : 1 < 2 ^ 64 := by decide

def checkedAdd (w a b : Nat) : Option Nat := if a + b < 2 ^ w then some (a + b) else none
def checkedMul (w a b : Nat) : Option Nat := if a * b < 2 ^ w then some (a * b) else none
def checkedSub (a b : Nat) : Option Nat := if b ≤ a then some (a - b) else none
def checkedDiv (a b : Nat) : Option Nat := if b = 0 then none else some (a / b)
def saturatingAdd (w a b : Nat) : Nat := min (a + b) (2 ^ w - 1)
def saturatingMul (w a b : Nat) : Nat := min (a * b) (2 ^ w - 1)
def wrappingAdd (w a b : Nat) : Nat := (a + b) % 2 ^ w
/-- Division rounding up. Division by zero has no value. -/
def divCeil (a b : Nat) : Option Nat := if b = 0 then none else some (a ⌈/⌉ b)
/-- The least power of two that is not below a number, if it fits in 64 bits. -/
def checkedNextPowerOfTwo (value : Nat) : Option Nat :=
  if 2 ^ Nat.clog 2 value < 2 ^ 64 then some (2 ^ Nat.clog 2 value) else none
def tryFrom (w a : Nat) : Option Nat := if a < 2 ^ w then some a else none

@[simp] theorem checkedAdd_eq_some {w a b c : Nat} :
    checkedAdd w a b = some c ↔ a + b < 2 ^ w ∧ a + b = c := by simp [checkedAdd]

@[simp] theorem checkedAdd_eq_none {w a b : Nat} :
    checkedAdd w a b = none ↔ 2 ^ w ≤ a + b := by simp [checkedAdd]

@[simp] theorem checkedMul_eq_some {w a b c : Nat} :
    checkedMul w a b = some c ↔ a * b < 2 ^ w ∧ a * b = c := by simp [checkedMul]

@[simp] theorem checkedMul_eq_none {w a b : Nat} :
    checkedMul w a b = none ↔ 2 ^ w ≤ a * b := by simp [checkedMul]

@[simp] theorem checkedSub_eq_some {a b c : Nat} :
    checkedSub a b = some c ↔ b ≤ a ∧ a - b = c := by simp [checkedSub]

@[simp] theorem checkedSub_eq_none {a b : Nat} : checkedSub a b = none ↔ a < b := by
  simp [checkedSub]

@[simp] theorem tryFrom_eq_some {w a b : Nat} :
    tryFrom w a = some b ↔ a < 2 ^ w ∧ a = b := by simp [tryFrom]

@[simp] theorem tryFrom_eq_none {w a : Nat} : tryFrom w a = none ↔ 2 ^ w ≤ a := by
  simp [tryFrom]

@[simp] theorem divCeil_eq_some {a b c : Nat} : divCeil a b = some c ↔ b ≠ 0 ∧ a ⌈/⌉ b = c := by
  simp [divCeil]

@[simp] theorem divCeil_eq_none {a b : Nat} : divCeil a b = none ↔ b = 0 := by simp [divCeil]

theorem wrappingAdd_of_lt {w a b : Nat} (h : a + b < 2 ^ w) : wrappingAdd w a b = a + b :=
  Nat.mod_eq_of_lt h

end Framework

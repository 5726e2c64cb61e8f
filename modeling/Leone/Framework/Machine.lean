import Mathlib

/-!
# Runs of a deterministic machine

A machine is a step function on states and inputs. `Along` states a condition on every
transition of a run and `total` adds up what the transitions cost. An invariant that survives
each admitted step survives the run.
-/

namespace Framework

section Machine

variable {σ ι : Type*} (step : σ → ι → σ)

/-- The state after a sequence of inputs. -/
def run (s : σ) (is : List ι) : σ := is.foldl step s

/-- The sum of `f` over the transitions of a run. -/
def total (f : σ → ι → Nat) : σ → List ι → Nat
  | _, [] => 0
  | s, i :: is => f s i + total f (step s i) is

/-- `R` holds at every transition of the run. -/
def Along (R : σ → ι → Prop) : σ → List ι → Prop
  | _, [] => True
  | s, i :: is => R s i ∧ Along R (step s i) is

variable {step} {R R' : σ → ι → Prop}

instance Along.decidable [h : ∀ s i, Decidable (R s i)] : ∀ s is, Decidable (Along step R s is)
  | _, [] => .isTrue trivial
  | s, i :: is => @instDecidableAnd _ _ (h s i) (Along.decidable (step s i) is)

@[simp] theorem run_nil (s : σ) : run step s [] = s := rfl
@[simp] theorem run_cons (s : σ) (i : ι) (is : List ι) :
    run step s (i :: is) = run step (step s i) is := rfl

theorem run_append (s : σ) (is js : List ι) :
    run step s (is ++ js) = run step (run step s is) js := List.foldl_append

theorem along_append (s : σ) (is js : List ι) :
    Along step R s (is ++ js) ↔ Along step R s is ∧ Along step R (run step s is) js := by
  induction is generalizing s with
  | nil => simp [Along]
  | cons i is ih => simp [Along, ih, and_assoc]

/-- A run of transitions that cost nothing costs nothing. -/
theorem total_eq_zero {f : σ → ι → Nat} {s : σ} {is : List ι} (h : ∀ s, ∀ i ∈ is, f s i = 0) :
    total step f s is = 0 := by
  induction is generalizing s with
  | nil => rfl
  | cons i is ih =>
    rw [total, h s i List.mem_cons_self, ih fun s j hj => h s j (List.mem_cons_of_mem i hj)]

theorem Along.mono {s : σ} {is : List ι} (h : Along step R s is)
    (hR : ∀ s i, R s i → R' s i) : Along step R' s is := by
  induction is generalizing s with
  | nil => trivial
  | cons i is ih => exact ⟨hR _ _ h.1, ih h.2⟩

theorem Along.and {s : σ} {is : List ι} (h : Along step R s is) (h' : Along step R' s is) :
    Along step (fun s i => R s i ∧ R' s i) s is := by
  induction is generalizing s with
  | nil => trivial
  | cons i is ih => exact ⟨⟨h.1, h'.1⟩, ih h.2 h'.2⟩

/-- An invariant kept by every admitted step holds at the end of an admitted run. -/
theorem run_invariant (Inv : σ → Prop) {s : σ} {is : List ι} (hs : Inv s)
    (hstep : ∀ s i, Inv s → R s i → Inv (step s i)) (h : Along step R s is) :
    Inv (run step s is) := by
  induction is generalizing s with
  | nil => exact hs
  | cons i is ih => exact ih (hstep s i hs h.1) h.2

section Peak

variable {Inv : σ → Prop} {value peak : σ → Nat}

/-- A record that every step raises to the current value bounds the run, and is the record that
was there or a value of the run. -/
theorem peak_run (hstep : ∀ s i, Inv s → Inv (step s i))
    (hpeak : ∀ s i, Inv s → peak (step s i) = max (peak s) (value (step s i)))
    {s : σ} (is : List ι) (hs : Inv s) (hle : value s ≤ peak s) :
    peak s ≤ peak (run step s is) ∧
      (∀ js, js <+: is → value (run step s js) ≤ peak (run step s is)) ∧
      (peak (run step s is) = peak s ∨
        ∃ js, js <+: is ∧ value (run step s js) = peak (run step s is)) := by
  induction is generalizing s with
  | nil =>
    refine ⟨le_refl _, fun js hjs => ?_, .inl rfl⟩
    rw [List.prefix_nil.mp hjs]
    exact hle
  | cons i is ih =>
    have hnext := hpeak s i hs
    obtain ⟨hraised, hbound, hreached⟩ := ih (hstep s i hs) (by rw [hnext]; exact le_max_right _ _)
    have hkept : peak s ≤ peak (run step s (i :: is)) := by
      refine le_trans ?_ hraised
      rw [hnext]
      exact le_max_left _ _
    refine ⟨hkept, fun js hjs => ?_, ?_⟩
    · cases js with
      | nil => exact hle.trans hkept
      | cons j js =>
        obtain ⟨rfl, htail⟩ := List.cons_prefix_cons.mp hjs
        exact hbound js htail
    · rcases hreached with heq | ⟨js, hjs, heq⟩
      · rcases le_total (value (step s i)) (peak s) with hmax | hmax
        · exact .inl (heq.trans (hnext.trans (max_eq_left hmax)))
        · exact .inr ⟨[i], List.cons_prefix_cons.mpr ⟨rfl, List.nil_prefix⟩,
            (heq.trans (hnext.trans (max_eq_right hmax))).symm⟩
      · exact .inr ⟨i :: js, List.cons_prefix_cons.mpr ⟨rfl, hjs⟩, heq⟩

/-- From a state that is its own record, the record is the greatest value of the run. -/
theorem peak_isGreatest (hstep : ∀ s i, Inv s → Inv (step s i))
    (hpeak : ∀ s i, Inv s → peak (step s i) = max (peak s) (value (step s i)))
    {s : σ} (is : List ι) (hs : Inv s) (hfirst : peak s = value s) :
    IsGreatest {n | ∃ js, js <+: is ∧ value (run step s js) = n} (peak (run step s is)) := by
  obtain ⟨-, hbound, hreached⟩ := peak_run hstep hpeak is hs hfirst.ge
  constructor
  · rcases hreached with heq | hreached
    · exact ⟨[], List.nil_prefix, (heq.trans hfirst).symm⟩
    · exact hreached
  · rintro n ⟨js, hjs, rfl⟩
    exact hbound js hjs

end Peak

/-- What an invariant implies of each transition holds along an admitted run. -/
theorem along_of_invariant {Inv : σ → Prop} {s : σ} {is : List ι} (hs : Inv s)
    (hstep : ∀ s i, Inv s → R s i → Inv (step s i)) (h : Along step R s is)
    (hR : ∀ s i, Inv s → R s i → R' s i) : Along step R' s is := by
  induction is generalizing s with
  | nil => trivial
  | cons i is ih => exact ⟨hR s i hs h.1, ih (hstep s i hs h.1) h.2⟩

/-- What an invariant of every step implies of each transition holds along every run. -/
theorem along_of_inductive {Inv : σ → Prop} {s : σ} (hs : Inv s)
    (hstep : ∀ s i, Inv s → Inv (step s i)) (hR : ∀ s i, Inv s → R s i) (is : List ι) :
    Along step R s is := by
  induction is generalizing s with
  | nil => trivial
  | cons i is ih => exact ⟨hR s i hs, ih (hstep s i hs)⟩

end Machine

end Framework

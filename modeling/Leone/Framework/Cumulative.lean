import Mathlib

/-!
# Cumulative weights

The cumulative sums of a list of nonnegative weights cut the interval below their total into one
interval for each weight, of the length of the weight.
-/

namespace Framework

section Weights

variable {K : Type*} [AddCommMonoid K] {weights : List K}

/-- The weight at an index, `0` past the end. -/
def weightAt (weights : List K) (index : ℕ) : K := weights.getD index 0

/-- The sum of the weights before an index. -/
def cumulative (weights : List K) (index : ℕ) : K := (weights.take index).sum

@[simp] theorem weightAt_nil (index : ℕ) : weightAt ([] : List K) index = 0 := by
  simp [weightAt]

@[simp] theorem weightAt_cons_zero (w : K) (ws : List K) : weightAt (w :: ws) 0 = w := by
  simp [weightAt]

@[simp] theorem weightAt_cons_succ (w : K) (ws : List K) (index : ℕ) :
    weightAt (w :: ws) (index + 1) = weightAt ws index := by
  simp [weightAt]

@[simp] theorem cumulative_zero : cumulative weights 0 = 0 := by
  simp [cumulative]

@[simp] theorem cumulative_cons_succ (w : K) (ws : List K) (index : ℕ) :
    cumulative (w :: ws) (index + 1) = w + cumulative ws index := by
  simp [cumulative]

theorem weightAt_of_lt {index : ℕ} (h : index < weights.length) :
    weightAt weights index = weights[index] := by
  simp [weightAt, h]

theorem weightAt_of_le {index : ℕ} (h : weights.length ≤ index) : weightAt weights index = 0 := by
  simp [weightAt, h]

theorem cumulative_succ (weights : List K) (index : ℕ) :
    cumulative weights (index + 1) = cumulative weights index + weightAt weights index := by
  induction weights generalizing index with
  | nil => simp [cumulative]
  | cons w ws ih =>
    cases index with
    | zero => simp
    | succ index =>
      rw [cumulative_cons_succ, cumulative_cons_succ, weightAt_cons_succ, ih, add_assoc]

theorem cumulative_eq_sum (weights : List K) (index : ℕ) :
    cumulative weights index = ∑ i ∈ Finset.range index, weightAt weights i := by
  induction index with
  | zero => simp
  | succ index ih => rw [cumulative_succ, Finset.sum_range_succ, ih]

theorem sum_weightAt (weights : List K) {n : ℕ} (h : weights.length = n) :
    ∑ i ∈ Finset.range n, weightAt weights i = weights.sum := by
  rw [← cumulative_eq_sum, cumulative, List.take_of_length_le h.le]

end Weights

section Intervals

variable {K : Type*} [Field K] [LinearOrder K] [IsStrictOrderedRing K] {weights : List K}

omit [IsStrictOrderedRing K] in
theorem weightAt_nonneg (hnonneg : ∀ w ∈ weights, 0 ≤ w) (index : ℕ) :
    0 ≤ weightAt weights index := by
  by_cases h : index < weights.length
  · rw [weightAt_of_lt h]
    exact hnonneg _ (List.getElem_mem h)
  · rw [weightAt_of_le (not_lt.mp h)]

theorem cumulative_mono (hnonneg : ∀ w ∈ weights, 0 ≤ w) : Monotone (cumulative weights) := by
  apply monotone_nat_of_le_succ
  intro index
  rw [cumulative_succ]
  exact le_add_of_nonneg_right (weightAt_nonneg hnonneg index)

theorem cumulative_nonneg (hnonneg : ∀ w ∈ weights, 0 ≤ w) (index : ℕ) :
    0 ≤ cumulative weights index := by
  have h := cumulative_mono hnonneg (Nat.zero_le index)
  rwa [cumulative_zero] at h

theorem cumulative_le_sum (hnonneg : ∀ w ∈ weights, 0 ≤ w) (index : ℕ) :
    cumulative weights index ≤ weights.sum := by
  have h := cumulative_mono hnonneg (Nat.le_add_right index weights.length)
  have hall : cumulative weights (index + weights.length) = weights.sum := by
    rw [cumulative, List.take_of_length_le (Nat.le_add_left _ _)]
  rwa [hall] at h

/-- The interval of the weight at an index. -/
def cell (weights : List K) (index : ℕ) : Set K :=
  Set.Ico (cumulative weights index) (cumulative weights (index + 1))

/-- The intervals of two weights do not meet. -/
theorem cell_index_unique (hnonneg : ∀ w ∈ weights, 0 ≤ w) {i j : ℕ} {u : K}
    (hi : u ∈ cell weights i) (hj : u ∈ cell weights j) : i = j := by
  obtain ⟨hi, hi'⟩ := hi
  obtain ⟨hj, hj'⟩ := hj
  rcases Nat.lt_trichotomy i j with hlt | heq | hgt
  · have h := cumulative_mono hnonneg (Nat.succ_le_of_lt hlt)
    exact absurd (lt_of_lt_of_le hi' h) (not_lt.mpr hj)
  · exact heq
  · have h := cumulative_mono hnonneg (Nat.succ_le_of_lt hgt)
    exact absurd (lt_of_lt_of_le hj' h) (not_lt.mpr hi)

omit [IsStrictOrderedRing K] in
theorem cell_eq_empty {index : ℕ} (h : weights.length ≤ index) : cell weights index = ∅ := by
  rw [cell, cumulative_succ, weightAt_of_le h, add_zero, Set.Ico_self]

omit [IsStrictOrderedRing K] in
theorem lt_length_of_mem_cell {index : ℕ} {u : K} (h : u ∈ cell weights index) :
    index < weights.length := by
  by_contra hle
  rw [cell_eq_empty (not_lt.mp hle)] at h
  exact h

/-- A list of nonnegative weights with total one cuts up the unit interval. -/
theorem cell_subset_unit (hnonneg : ∀ w ∈ weights, 0 ≤ w) (hsum : weights.sum = 1) (index : ℕ) :
    cell weights index ⊆ Set.Ico 0 1 := by
  intro u hu
  have hhigh := cumulative_le_sum hnonneg (index + 1)
  rw [hsum] at hhigh
  exact ⟨le_trans (cumulative_nonneg hnonneg index) hu.1, lt_of_lt_of_le hu.2 hhigh⟩

end Intervals

section Correction

variable {K : Type*} [Field K] [LinearOrder K] [IsStrictOrderedRing K]

theorem min_add_max_sub (a b : K) : min a b + max (a - b) 0 = a := by
  rcases le_total a b with h | h
  · rw [min_eq_left h, max_eq_right (sub_nonpos.mpr h), add_zero]
  · rw [min_eq_right h, max_eq_left (sub_nonneg.mpr h), add_sub_cancel]

variable {n : ℕ} {p q : ℕ → K}

/-- The mass that acceptance leaves over is the mass of the residual. -/
theorem one_sub_sum_min (hp : ∑ i ∈ Finset.range n, p i = 1) :
    1 - ∑ i ∈ Finset.range n, min (p i) (q i) = ∑ i ∈ Finset.range n, max (p i - q i) 0 := by
  have h : ∑ i ∈ Finset.range n, (min (p i) (q i) + max (p i - q i) 0) = 1 := by
    rw [← hp]
    apply Finset.sum_congr rfl
    intro i _
    exact min_add_max_sub (p i) (q i)
  rw [Finset.sum_add_distrib] at h
  linarith

/-- Drafting from `q`, accepting with `min 1 (p / q)` and correcting from the normalised residual
emits `p`. -/
theorem accepted_add_corrected (hp : ∑ i ∈ Finset.range n, p i = 1)
    (hq : ∑ i ∈ Finset.range n, q i = 1) {r : ℕ → K} {t : ℕ} (ht : t < n)
    (hr : 0 < ∑ i ∈ Finset.range n, max (p i - q i) 0 →
      r t = max (p t - q t) 0 / ∑ i ∈ Finset.range n, max (p i - q i) 0) :
    min (p t) (q t) + (∑ i ∈ Finset.range n, (q i - min (p i) (q i))) * r t = p t := by
  have hnonneg : ∀ i ∈ Finset.range n, 0 ≤ max (p i - q i) 0 := fun i _ => le_max_right _ _
  rw [Finset.sum_sub_distrib, hq, one_sub_sum_min hp]
  rcases (Finset.sum_nonneg hnonneg).lt_or_eq with hpos | hzero
  · rw [hr hpos, mul_div_cancel₀ _ hpos.ne', min_add_max_sub]
  · have hall := (Finset.sum_eq_zero_iff_of_nonneg hnonneg).mp hzero.symm
    have ht0 := hall t (Finset.mem_range.mpr ht)
    have h := min_add_max_sub (p t) (q t)
    rw [← hzero, zero_mul, add_zero]
    rwa [ht0, add_zero] at h

end Correction

end Framework

import Mathlib
import Leone.Framework.Cumulative

/-!
# Ranked weights

A list whose entries satisfy a test up to some place is cut there. Weights are normalized to shares
of their sum, and written back to the places they came from. `Passes` runs stages one after the
other, each from a state that satisfies an invariant.
-/

namespace Framework

/-- A test that holds of an entry only if it holds of those before it cuts a list at one place. -/
theorem lt_length_takeWhile {α : Type*} {test : α → Bool} {entries : List α}
    (hmono : entries.Pairwise fun left right => test right = true → test left = true) (slot : ℕ) :
    slot < (entries.takeWhile test).length ↔
      ∃ h : slot < entries.length, test entries[slot] = true := by
  induction entries generalizing slot with
  | nil => simp
  | cons entry rest ih =>
    obtain ⟨hhead, hrest⟩ := List.pairwise_cons.mp hmono
    by_cases htest : test entry = true
    · rw [List.takeWhile_cons_of_pos htest]
      cases slot with
      | zero => simp [htest]
      | succ slot => simpa using ih hrest slot
    · rw [List.takeWhile_cons_of_neg htest]
      constructor
      · intro h
        exact absurd h (Nat.not_lt_zero _)
      · rintro ⟨hslot, hreaches⟩
        cases slot with
        | zero => exact absurd hreaches htest
        | succ slot => exact absurd (hhead _ (List.getElem_mem _) hreaches) htest

section Shares

variable {ι K : Type*} [Field K] [LinearOrder K] [IsStrictOrderedRing K]

/-- Every weight as a share of the sum. -/
def shares (weights : List K) : List K := weights.map (· / weights.sum)

omit [LinearOrder K] [IsStrictOrderedRing K] in
@[simp] theorem length_shares (weights : List K) : (shares weights).length = weights.length := by
  simp [shares]

theorem sum_pos_of_pos {weights : List K} (hne : weights ≠ []) (hpos : ∀ w ∈ weights, 0 < w) :
    0 < weights.sum :=
  List.sum_pos weights hpos hne

omit [LinearOrder K] [IsStrictOrderedRing K] in
theorem sum_map_div (weights : List K) (scale : K) :
    (weights.map (· / scale)).sum = weights.sum / scale := by
  simp only [div_eq_mul_inv]
  rw [List.sum_map_mul_right, List.map_id']

omit [IsStrictOrderedRing K] in
theorem sum_shares {weights : List K} (hpos : 0 < weights.sum) : (shares weights).sum = 1 := by
  rw [shares, sum_map_div, div_self hpos.ne']

omit [LinearOrder K] [IsStrictOrderedRing K] in
/-- Shares do not depend on the scale of the weights. -/
theorem shares_map_div (weights : List K) {scale : K} (hscale : scale ≠ 0) :
    shares (weights.map (· / scale)) = shares weights := by
  rw [shares, sum_map_div, shares, List.map_map]
  apply List.map_congr_left
  intro w _
  exact div_div_div_cancel_right₀ hscale w weights.sum

end Shares

section Scatter

variable {K : Type*}

/-- Writes each value to its place in a row. -/
def scatter (row : List K) : List (ℕ × K) → List K
  | [] => row
  | (index, value) :: rest => scatter (row.set index value) rest

@[simp] theorem length_scatter (row : List K) (entries : List (ℕ × K)) :
    (scatter row entries).length = row.length := by
  induction entries generalizing row with
  | nil => rfl
  | cons entry rest ih => rw [scatter, ih, List.length_set]

/-- Values that are a function of their place land there, and the other places keep theirs. -/
theorem scatter_getElem? (row : List K) (order : List ℕ) (value : ℕ → K) (index : ℕ) :
    (scatter row (order.map fun place => (place, value place)))[index]? =
      if index ∈ order ∧ index < row.length then some (value index) else row[index]? := by
  induction order generalizing row with
  | nil => simp [scatter]
  | cons place rest ih =>
    rw [List.map_cons, scatter, ih, List.length_set]
    by_cases hrest : index ∈ rest
    · by_cases hlt : index < row.length
      · simp [hrest, hlt]
      · simp [hlt]
    · by_cases hplace : index = place
      · subst hplace
        by_cases hlt : index < row.length
        · simp [hrest, hlt]
        · simp [hlt]
      · simp [hrest, hplace, List.getElem?_set_ne (Ne.symm hplace)]

/-- A row of zeros receives the values at their places, and sums to their sum. -/
theorem sum_scatter [AddCommMonoid K] {order : List ℕ} (hnodup : order.Nodup) {n : ℕ}
    (hbound : ∀ index ∈ order, index < n) (value : ℕ → K) :
    (scatter (List.replicate n 0) (order.map fun place => (place, value place))).sum =
      (order.map value).sum := by
  rw [← sum_weightAt (n := n) _ (by simp)]
  have hentry : ∀ index ∈ Finset.range n,
      weightAt (scatter (List.replicate n 0) (order.map fun place => (place, value place))) index =
        if index ∈ order then value index else 0 := by
    intro index hindex
    have hlt : index < n := Finset.mem_range.mp hindex
    rw [weightAt, List.getD_eq_getElem?_getD, scatter_getElem?]
    by_cases horder : index ∈ order
    · simp [horder, hlt]
    · simp [horder, hlt]
  rw [Finset.sum_congr rfl hentry, Finset.sum_ite, Finset.sum_const_zero, add_zero]
  have hfilter : (Finset.range n).filter (· ∈ order) = order.toFinset := by
    ext index
    simp only [Finset.mem_filter, Finset.mem_range, List.mem_toFinset]
    constructor
    · intro h
      exact h.2
    · intro h
      exact ⟨hbound index h, h⟩
  rw [hfilter, List.sum_toFinset value hnodup]

end Scatter

section Passes

variable {σ ι ε : Type*} {Inv Inv' : σ → Prop} {Step Step' : ι → σ → σ → Prop}

/-- A run of stages through states that satisfy the invariant. -/
inductive Passes (Inv : σ → Prop) (Step : ι → σ → σ → Prop) : List ι → σ → σ → Prop
  | done {s : σ} (inv : Inv s) : Passes Inv Step [] s s
  | stage {i : ι} {rest : List ι} {s next last : σ} (inv : Inv s) (step : Step i s next)
      (tail : Passes Inv Step rest next last) : Passes Inv Step (i :: rest) s last

theorem Passes.mono {is : List ι} {s last : σ} (h : Passes Inv Step is s last)
    (hInv : ∀ s, Inv s → Inv' s) (hStep : ∀ i s next, Step i s next → Step' i s next) :
    Passes Inv' Step' is s last := by
  induction h with
  | done inv => exact .done (hInv _ inv)
  | stage inv step _ ih => exact .stage (hInv _ inv) (hStep _ _ _ step) ih

theorem Passes.inv_last {is : List ι} {s last : σ} (h : Passes Inv Step is s last) : Inv last := by
  induction h with
  | done inv => exact inv
  | stage _ _ _ ih => exact ih

/-- Stages that each succeed on the invariant and keep it make a run that succeeds. -/
theorem passes_foldlM {step : σ → ι → Except ε σ} {is : List ι} {s : σ} (hs : Inv s)
    (hstep : ∀ i ∈ is, ∀ s, Inv s → ∃ next, step s i = .ok next ∧ Inv next ∧ Step i s next) :
    ∃ last, is.foldlM step s = .ok last ∧ Passes Inv Step is s last := by
  induction is generalizing s with
  | nil => exact ⟨s, rfl, .done hs⟩
  | cons i rest ih =>
    obtain ⟨next, hnext, hinv, hrel⟩ := hstep i List.mem_cons_self s hs
    obtain ⟨last, hlast, hpasses⟩ := ih hinv fun j hj => hstep j (List.mem_cons_of_mem i hj)
    refine ⟨last, ?_, .stage hs hrel hpasses⟩
    rw [List.foldlM_cons, hnext]
    exact hlast

end Passes

end Framework

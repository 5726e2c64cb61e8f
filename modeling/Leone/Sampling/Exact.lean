import Mathlib
import Leone.Sampling.Verify

/-!
# The emitted token has the target distribution

The draws of a position are independent and uniform on the unit interval. The draws that emit a
token form one box on which it is drafted and kept, and one box for each rejected draft.
-/

namespace Leone.Sampling

open Framework MeasureTheory

/-- The uniform distribution on the unit interval. -/
noncomputable def unitUniform : Measure ℝ := volume.restrict (Set.Ico 0 1)

/-- Independent uniform draws for the purposes of one position. -/
noncomputable def draws : Measure (Draw → ℝ) := Measure.pi fun _ => unitUniform

/-- The stream with given draws at every position. -/
def SamplerRng.ofDraws (u : Draw → ℝ) : SamplerRng ℝ := ⟨fun _ => u⟩

instance : SigmaFinite unitUniform := by
  unfold unitUniform
  infer_instance

theorem unitUniform_Ico {a b : ℝ} (ha : 0 ≤ a) (hb : b ≤ 1) :
    unitUniform (Set.Ico a b) = ENNReal.ofReal (b - a) := by
  have hsub : Set.Ico a b ⊆ Set.Ico 0 1 := Set.Ico_subset_Ico ha hb
  rw [unitUniform, Measure.restrict_apply measurableSet_Ico, Set.inter_eq_left.mpr hsub,
    Real.volume_Ico]

theorem unitUniform_unit : unitUniform (Set.Ico 0 1) = 1 := by
  rw [unitUniform_Ico le_rfl le_rfl, sub_zero, ENNReal.ofReal_one]

theorem unitUniform_cell {weights : List ℝ} (hnonneg : ∀ w ∈ weights, 0 ≤ w)
    (hsum : weights.sum = 1) (i : ℕ) :
    unitUniform (cell weights i) = ENNReal.ofReal (weightAt weights i) := by
  have hlow := cumulative_nonneg hnonneg i
  have hhigh := cumulative_le_sum hnonneg (i + 1)
  rw [hsum] at hhigh
  rw [cell, unitUniform_Ico hlow hhigh, cumulative_succ, add_sub_cancel_left]

/-- The draws whose values lie in one set for each purpose. -/
def box (drafts accepts selects : Set ℝ) : Set (Draw → ℝ) :=
  Set.univ.pi fun
    | .draft => drafts
    | .accept => accepts
    | .select => selects

variable {drafts accepts selects : Set ℝ} {u : Draw → ℝ}

theorem mem_box : u ∈ box drafts accepts selects ↔
    u .draft ∈ drafts ∧ u .accept ∈ accepts ∧ u .select ∈ selects := by
  constructor
  · intro h
    exact ⟨h .draft trivial, h .accept trivial, h .select trivial⟩
  · intro h draw _
    cases draw with
    | accept => exact h.2.1
    | select => exact h.2.2
    | draft => exact h.1

theorem measurableSet_box (hdrafts : MeasurableSet drafts) (haccepts : MeasurableSet accepts)
    (hselects : MeasurableSet selects) : MeasurableSet (box drafts accepts selects) := by
  apply MeasurableSet.univ_pi
  intro draw
  cases draw with
  | accept => exact haccepts
  | select => exact hselects
  | draft => exact hdrafts

theorem draws_box : draws (box drafts accepts selects) =
    unitUniform drafts * unitUniform accepts * unitUniform selects := by
  have huniv : (Finset.univ : Finset Draw) = {.draft, .accept, .select} := by decide
  rw [draws, box, Measure.pi_pi, huniv, Finset.prod_insert (by decide),
    Finset.prod_insert (by decide), Finset.prod_singleton, mul_assoc]

/-- Almost every draw is in the unit interval. -/
theorem draws_unit : ∀ᵐ u ∂draws, ∀ draw, u draw ∈ Set.Ico (0 : ℝ) 1 := by
  have hrestrict : draws = (Measure.pi fun _ => volume).restrict
      (Set.univ.pi fun _ => Set.Ico 0 1) := by
    rw [Measure.restrict_pi_pi]
    rfl
  rw [hrestrict]
  have hmem := ae_restrict_mem (μ := Measure.pi fun _ : Draw => (volume : Measure ℝ))
    (MeasurableSet.univ_pi fun _ => measurableSet_Ico (a := (0 : ℝ)) (b := 1))
  filter_upwards [hmem] with u hu draw
  exact hu draw trivial

section Emission

variable (target draft residual : Distribution ℝ)

/-- The acceptance of the draft of an index. -/
noncomputable def acceptanceAt (i : ℕ) : ℝ :=
  acceptance (weightAt target.probabilities i) (weightAt draft.probabilities i)

/-- The draws that draft an index and keep it. -/
def acceptBox (i : ℕ) : Set (Draw → ℝ) :=
  box (cell draft.probabilities i) (Set.Ico 0 (acceptanceAt target draft i)) (Set.Ico 0 1)

/-- The draws that draft an index, reject it and select a replacement. -/
def rejectBox (token i : ℕ) : Set (Draw → ℝ) :=
  box (cell draft.probabilities i) (Set.Ico (acceptanceAt target draft i) 1)
    (cell residual.probabilities token)

variable {target draft residual : Distribution ℝ}

theorem acceptanceAt_nonneg (h : target.Normalized) (i : ℕ) : 0 ≤ acceptanceAt target draft i :=
  acceptance_nonneg (weightAt_nonneg h.nonneg i)

theorem acceptanceAt_le_one (i : ℕ) : acceptanceAt target draft i ≤ 1 := acceptance_le_one _ _

theorem emit_ae (h : Rows target draft)
    (hresidual : correctionResidual target draft = .ok residual)
    (hcorrects : Corrects target draft residual) (position : UInt64) (token : UInt32) :
    {u | emit target draft (.ofDraws u) position = .ok token} =ᵐ[draws]
      (acceptBox target draft token.toNat ∪ ⋃ i ∈ Finset.range target.len,
        rejectBox target draft residual token.toNat i : Set (Draw → ℝ)) := by
  filter_upwards [draws_unit] with u hu
  have hunit : UnitDraws (.ofDraws u) position := hu
  have hiff := emit_iff h hunit hresidual hcorrects token
  apply propext
  change emit target draft (.ofDraws u) position = .ok token ↔
    u ∈ acceptBox target draft token.toNat ∨
      u ∈ ⋃ i ∈ Finset.range target.len, rejectBox target draft residual token.toNat i
  rw [hiff]
  simp only [Set.mem_iUnion, Finset.mem_range, exists_prop]
  apply or_congr
  · rw [acceptBox, mem_box]
    constructor
    · intro hbox
      exact ⟨hbox.1, ⟨(hu .accept).1, hbox.2⟩, hu .select⟩
    · intro hbox
      exact ⟨hbox.1, hbox.2.1.2⟩
  · simp only [rejectBox, mem_box]
    constructor
    · rintro ⟨drafted, hcell, hrejected, hselected⟩
      have hlt := lt_of_lt_of_eq (lt_length_of_mem_cell hcell) h.sameLen.symm
      exact ⟨drafted.toNat, hlt, hcell, ⟨hrejected, (hu .accept).2⟩, hselected⟩
    · rintro ⟨i, hi, hcell, hrejected, hselected⟩
      have hround : (UInt32.ofNat i).toNat = i :=
        UInt32.toNat_ofNat_of_lt' (lt_of_lt_of_le hi h.vocab)
      refine ⟨UInt32.ofNat i, ?_, ?_, hselected⟩
      · rwa [hround]
      · rw [Distribution.mass, Distribution.mass, hround]
        exact hrejected.1

theorem measurableSet_rejectBox (token i : ℕ) :
    MeasurableSet (rejectBox target draft residual token i) :=
  measurableSet_box measurableSet_Ico measurableSet_Ico measurableSet_Ico

theorem rejectBox_disjoint (h : Rows target draft) (token : ℕ) {i j : ℕ} (hij : i ≠ j) :
    Disjoint (rejectBox target draft residual token i)
      (rejectBox target draft residual token j) := by
  apply Set.disjoint_left.mpr
  intro u hi hj
  exact hij (cell_index_unique h.draftNormalized.nonneg (mem_box.mp hi).1 (mem_box.mp hj).1)

theorem acceptBox_disjoint (h : Rows target draft) (token i : ℕ) :
    Disjoint (acceptBox target draft token) (rejectBox target draft residual token i) := by
  apply Set.disjoint_left.mpr
  intro u haccept hreject
  obtain ⟨hcell, haccepted, _⟩ := mem_box.mp haccept
  obtain ⟨hcell', hrejected, _⟩ := mem_box.mp hreject
  obtain rfl := cell_index_unique h.draftNormalized.nonneg hcell hcell'
  exact absurd haccepted.2 (not_lt.mpr hrejected.1)

theorem draws_acceptBox (h : Rows target draft) (i : ℕ) :
    draws (acceptBox target draft i) =
      ENNReal.ofReal (min (weightAt target.probabilities i) (weightAt draft.probabilities i)) := by
  have hp := weightAt_nonneg h.targetNormalized.nonneg i
  have hq := weightAt_nonneg h.draftNormalized.nonneg i
  rw [acceptBox, draws_box, unitUniform_unit, mul_one,
    unitUniform_cell h.draftNormalized.nonneg h.draftNormalized.sum_eq_one,
    unitUniform_Ico le_rfl (acceptanceAt_le_one i), sub_zero, ← ENNReal.ofReal_mul hq,
    acceptanceAt, mul_acceptance hp hq]

theorem draws_rejectBox (h : Rows target draft) (hnormal : residual.Normalized) (token i : ℕ) :
    draws (rejectBox target draft residual token i) =
      ENNReal.ofReal ((weightAt draft.probabilities i
        - min (weightAt target.probabilities i) (weightAt draft.probabilities i))
        * weightAt residual.probabilities token) := by
  have hp := weightAt_nonneg h.targetNormalized.nonneg i
  have hq := weightAt_nonneg h.draftNormalized.nonneg i
  have hgap : 0 ≤ 1 - acceptanceAt target draft i := sub_nonneg.mpr (acceptanceAt_le_one i)
  rw [rejectBox, draws_box,
    unitUniform_cell h.draftNormalized.nonneg h.draftNormalized.sum_eq_one,
    unitUniform_Ico (acceptanceAt_nonneg h.targetNormalized i) le_rfl,
    unitUniform_cell hnormal.nonneg hnormal.sum_eq_one, ← ENNReal.ofReal_mul hq,
    ← ENNReal.ofReal_mul (mul_nonneg hq hgap), mul_sub, mul_one, acceptanceAt,
    mul_acceptance hp hq]

/-- The measure of the draws that emit a token is its target probability. -/
theorem draws_emit (h : Rows target draft) (position : UInt64) (token : UInt32) :
    draws {u | emit target draft (.ofDraws u) position = .ok token}
      = ENNReal.ofReal (target.mass token) := by
  obtain ⟨residual, hresidual, hcorrects⟩ := correctionResidual_corrects h
  have hnormal := hcorrects.normalized
  set t := token.toNat with ht
  have hmin : 0 ≤ min (weightAt target.probabilities t) (weightAt draft.probabilities t) :=
    le_min (weightAt_nonneg h.targetNormalized.nonneg t)
      (weightAt_nonneg h.draftNormalized.nonneg t)
  have hreject : ∀ i ∈ Finset.range target.len, 0 ≤ (weightAt draft.probabilities i
      - min (weightAt target.probabilities i) (weightAt draft.probabilities i))
      * weightAt residual.probabilities t := by
    intro i _
    exact mul_nonneg (sub_nonneg.mpr (min_le_right _ _)) (weightAt_nonneg hnormal.nonneg t)
  have hunion : draws (⋃ i ∈ Finset.range target.len, rejectBox target draft residual t i)
      = ENNReal.ofReal (∑ i ∈ Finset.range target.len, (weightAt draft.probabilities i
        - min (weightAt target.probabilities i) (weightAt draft.probabilities i))
        * weightAt residual.probabilities t) := by
    rw [measure_biUnion_finset (fun i _ j _ hij => rejectBox_disjoint h t hij)
      (fun i _ => measurableSet_rejectBox t i), ENNReal.ofReal_sum_of_nonneg hreject]
    exact Finset.sum_congr rfl fun i _ => draws_rejectBox h hnormal t i
  have hdisjoint : Disjoint (acceptBox target draft t)
      (⋃ i ∈ Finset.range target.len, rejectBox target draft residual t i) := by
    simp only [Set.disjoint_iUnion_right]
    intro i _
    exact acceptBox_disjoint h t i
  rw [measure_congr (emit_ae h hresidual hcorrects position token),
    measure_union hdisjoint (Finset.measurableSet_biUnion _ fun i _ => measurableSet_rejectBox t i),
    draws_acceptBox h, hunion, ← ENNReal.ofReal_add hmin (Finset.sum_nonneg hreject)]
  congr 1
  by_cases hlt : t < target.len
  · have hp := (sum_weightAt target.probabilities (n := target.len) rfl).trans
      h.targetNormalized.sum_eq_one
    have hq := (sum_weightAt draft.probabilities (n := target.len) h.sameLen.symm).trans
      h.draftNormalized.sum_eq_one
    rw [← Finset.sum_mul]
    apply accepted_add_corrected hp hq hlt
    rw [← residualMass_eq_sum h.sameLen]
    intro hpos
    exact hcorrects.entry hpos t
  · -- Past the vocabulary every term is zero.
    have hle := not_lt.mp hlt
    have hzero : weightAt target.probabilities t = 0 := weightAt_of_le hle
    have hzero' : weightAt draft.probabilities t = 0 := weightAt_of_le (le_of_eq_of_le h.sameLen.symm hle)
    have hzero'' : weightAt residual.probabilities t = 0 :=
      weightAt_of_le (le_of_eq_of_le hcorrects.len_eq hle)
    simp only [Distribution.mass, ← ht, hzero, hzero', hzero'', min_self, mul_zero,
      Finset.sum_const_zero, add_zero]

end Emission

/-- A drafted and verified token has the target distribution, has positive target probability on
every draw, and is never accepted when the drafter could not have produced it. -/
theorem verification_exact {target draft : Distribution ℝ} (htarget : target.Normalized)
    (hdraft : draft.Normalized) (hlen : target.len = draft.len) (hvocab : target.len ≤ 2 ^ 32)
    (position : UInt64) :
    (∀ token, draws {u | emit target draft (.ofDraws u) position = .ok token}
      = ENNReal.ofReal (target.mass token)) ∧
    (∀ rng, UnitDraws rng position → ∃ token, emit target draft rng position = .ok token ∧
      0 < target.mass token) ∧
    ∀ rng drafted, draft.probability drafted = .ok 0 →
      verify target draft drafted rng position ≠ .ok .accept := by
  have h : Rows target draft := ⟨htarget, hdraft, hlen, hvocab⟩
  refine ⟨draws_emit h position, ?_, fun rng drafted hzero => verify_zero_draft hzero⟩
  intro rng hu
  obtain ⟨token, hemit⟩ := emit_ok h hu
  exact ⟨token, hemit, emit_support h hu hemit⟩

theorem verification_exact_quarters :
    draws {u | emit (K := ℝ) ⟨[1 / 2, 1 / 2]⟩ ⟨[1 / 4, 3 / 4]⟩ (.ofDraws u) 0 = .ok 0}
      = ENNReal.ofReal (1 / 2) := by
  have h := (@verification_exact ⟨[1 / 2, 1 / 2]⟩ ⟨[1 / 4, 3 / 4]⟩
    ⟨by norm_num, by norm_num⟩ ⟨by norm_num, by norm_num⟩ rfl (by norm_num [Distribution.len]) 0).1 0
  simpa [Distribution.mass] using h

section WideVocabulary

/-- A row of `n + 1` tokens with all its mass on the last. -/
def lastOnly (n : ℕ) : Distribution ℝ := ⟨List.replicate n 0 ++ [1]⟩

theorem lastOnly_normalized (n : ℕ) : (lastOnly n).Normalized := by
  constructor
  · intro p hp
    rcases List.mem_append.mp hp with hzero | hone
    · exact (List.eq_of_mem_replicate hzero).ge
    · rw [List.mem_singleton.mp hone]
      exact zero_le_one
  · rw [lastOnly, List.sum_append, List.sum_replicate, smul_zero, zero_add, List.sum_singleton]

theorem scan_lastOnly (n index : ℕ) :
    scan (0 : ℝ) (List.replicate n 0 ++ [1]) index 0 none = some (index + n) := by
  induction n generalizing index with
  | zero => simp [scan]
  | succ n ih =>
    rw [List.replicate_succ, List.cons_append, scan, if_pos le_rfl, ih]
    congr 1
    omega

theorem selectWith_lastOnly (n : ℕ) : selectWith (lastOnly n) 0 = .ok (UInt32.ofNat n) := by
  rw [selectWith, lastOnly, scan_lastOnly, Nat.zero_add]

theorem probability_lastOnly (n : ℕ) (hn : 0 < n) : (lastOnly n).probability 0 = .ok 0 := by
  have hget : (List.replicate n (0 : ℝ) ++ [1])[0]? = some 0 := by
    rw [List.getElem?_append_left (by rwa [List.length_replicate]), List.getElem?_replicate,
      if_pos hn]
  rw [Distribution.probability, UInt32.toNat_zero, lastOnly, hget]

theorem emit_lastOnly {n : ℕ} (hn : 0 < n) (hwrap : UInt32.ofNat n = 0) :
    emit (lastOnly n) (lastOnly n) ⟨fun _ _ => 0⟩ 0 = .ok 0 := by
  have hselect := selectWith_lastOnly n
  have hzero := probability_lastOnly n hn
  rw [hwrap] at hselect
  simp only [emit, selectDraft, hselect, verify, hzero, correctionResidual_self, bind, Except.bind,
    ne_eq, not_true, if_false, lt_irrefl, Bool.false_eq_true, pure, Except.pure]

/-- With more than `2 ^ 32` tokens the index of the scan wraps to a token of probability zero. -/
theorem verification_wraps : (lastOnly 4294967296).Normalized ∧
    emit (lastOnly 4294967296) (lastOnly 4294967296) ⟨fun _ _ => 0⟩ 0 = .ok 0 ∧
    (lastOnly 4294967296).probability 0 = .ok 0 :=
  ⟨lastOnly_normalized 4294967296, emit_lastOnly (by decide) (by decide),
    probability_lastOnly 4294967296 (by decide)⟩

end WideVocabulary

end Leone.Sampling

import Leone.Sampling.Model

/-!
# One verified token

On the unit interval the accept draw decides between the drafted token and a draw from the
residual, and either way the emitted token has positive target probability.
-/

namespace Leone.Sampling

open Framework

variable {K : Type} [Field K] [LinearOrder K] [IsStrictOrderedRing K]
variable {target draft residual : Distribution K} {rng : SamplerRng K} {position : UInt64}

/-- The rows of one proposal: both normalised, over one vocabulary of token ids. -/
structure Rows (target draft : Distribution K) : Prop where
  targetNormalized : target.Normalized
  draftNormalized : draft.Normalized
  sameLen : target.len = draft.len
  vocab : target.len ≤ 2 ^ 32

/-- Every draw at a position is in the unit interval. -/
def UnitDraws (rng : SamplerRng K) (position : UInt64) : Prop :=
  ∀ draw, rng.uniform position draw ∈ Set.Ico 0 1

/-- The total mass of the residual before it is normalised. -/
def residualMass (target draft : Distribution K) : K := (residualEntries target draft).sum

omit [IsStrictOrderedRing K] in
theorem length_residualEntries (h : target.len = draft.len) :
    (residualEntries target draft).length = target.len := by
  rw [residualEntries, List.length_zipWith]
  exact min_eq_left h.le

omit [IsStrictOrderedRing K] in
theorem weightAt_residualEntries (h : target.len = draft.len) (i : ℕ) :
    weightAt (residualEntries target draft) i
      = max (weightAt target.probabilities i - weightAt draft.probabilities i) 0 := by
  by_cases hi : i < target.len
  · have hentry : i < (residualEntries target draft).length := by
      rwa [length_residualEntries h]
    rw [weightAt_of_lt hentry, weightAt_of_lt (show i < target.probabilities.length from hi),
      weightAt_of_lt (show i < draft.probabilities.length from lt_of_lt_of_eq hi h)]
    simp only [residualEntries, List.getElem_zipWith]
  · have hle := not_lt.mp hi
    rw [weightAt_of_le (show target.probabilities.length ≤ i from hle),
      weightAt_of_le (show draft.probabilities.length ≤ i from le_of_eq_of_le h.symm hle),
      weightAt_of_le (by rwa [length_residualEntries h]), sub_zero, max_self]

omit [IsStrictOrderedRing K] in
theorem residualEntries_nonneg : ∀ w ∈ residualEntries target draft, 0 ≤ w := by
  intro w hw
  obtain ⟨i, hi, rfl⟩ := List.mem_iff_getElem.mp hw
  simp only [residualEntries, List.getElem_zipWith]
  exact le_max_right _ _

omit [IsStrictOrderedRing K] in
theorem residualMass_eq_sum (h : target.len = draft.len) :
    residualMass target draft = ∑ i ∈ Finset.range target.len,
      max (weightAt target.probabilities i - weightAt draft.probabilities i) 0 := by
  rw [residualMass, ← sum_weightAt _ (length_residualEntries h)]
  exact Finset.sum_congr rfl fun i _ => weightAt_residualEntries h i

omit [LinearOrder K] [IsStrictOrderedRing K] in
theorem weightAt_div (weights : List K) (total : K) (i : ℕ) :
    weightAt (weights.map (· / total)) i = weightAt weights i / total := by
  by_cases hi : i < weights.length
  · rw [weightAt_of_lt hi, weightAt_of_lt (by rwa [List.length_map]), List.getElem_map]
  · have hle := not_lt.mp hi
    rw [weightAt_of_le hle, weightAt_of_le (by rwa [List.length_map]), zero_div]

/-- What `correctionResidual` returns on the rows of a proposal. -/
structure Corrects (target draft residual : Distribution K) : Prop where
  normalized : residual.Normalized
  len_eq : residual.len = target.len
  entry : 0 < residualMass target draft → ∀ i, weightAt residual.probabilities i =
    max (weightAt target.probabilities i - weightAt draft.probabilities i) 0
      / residualMass target draft
  support : ∀ token, 0 < residual.mass token → 0 < target.mass token

theorem correctionResidual_corrects (h : Rows target draft) :
    ∃ residual, correctionResidual target draft = .ok residual ∧
      Corrects target draft residual := by
  unfold correctionResidual
  rw [if_neg (not_not.mpr h.sameLen)]
  dsimp only
  by_cases htotal : (residualEntries target draft).sum ≤ 0
  · rw [if_pos htotal]
    refine ⟨target, rfl, h.targetNormalized, rfl, ?_, fun _ hpos => hpos⟩
    intro hpos
    exact absurd hpos (not_lt.mpr htotal)
  · rw [if_neg htotal]
    have hpos := not_le.mp htotal
    have hentry := fun i => (weightAt_div (residualEntries target draft)
      (residualEntries target draft).sum i).trans (by rw [weightAt_residualEntries h.sameLen])
    refine ⟨_, rfl, ⟨?_, ?_⟩, ?_, fun _ => hentry, ?_⟩
    · intro p hp
      obtain ⟨w, hw, rfl⟩ := List.mem_map.mp hp
      exact div_nonneg (residualEntries_nonneg w hw) hpos.le
    · simp only [div_eq_mul_inv]
      rw [List.sum_map_mul_right, List.map_id', mul_inv_cancel₀ hpos.ne']
    · rw [Distribution.len, List.length_map, length_residualEntries h.sameLen]
    · intro token hmass
      rw [Distribution.mass, hentry] at hmass
      have hgap := (div_pos_iff_of_pos_right hpos).mp hmass
      have hdraft := weightAt_nonneg h.draftNormalized.nonneg token.toNat
      rcases lt_max_iff.mp hgap with hlt | hfalse
      · exact lt_of_le_of_lt hdraft (sub_pos.mp hlt)
      · exact absurd hfalse (lt_irrefl 0)

omit [IsStrictOrderedRing K] in
/-- Equal rows leave no residual, and the target stands in for it. -/
theorem correctionResidual_self (target : Distribution K) :
    correctionResidual target target = .ok target := by
  have hentries : (residualEntries target target).sum = 0 := by
    change residualMass target target = 0
    rw [residualMass_eq_sum rfl]
    apply Finset.sum_eq_zero
    intro i _
    rw [sub_self, max_self]
  unfold correctionResidual
  rw [if_neg (not_not.mpr rfl)]
  dsimp only
  rw [hentries, if_pos le_rfl]

omit [IsStrictOrderedRing K] in
/-- The comparison of `verify`: an accept draw below one is kept when it is below the acceptance. -/
theorem accepted_iff {p q u : K} (hu : u ∈ Set.Ico 0 1) :
    (if 0 < q then decide (1 ≤ p / q) || decide (u < p / q) else false) = true
      ↔ u < acceptance p q := by
  unfold acceptance
  by_cases hq : 0 < q
  · rw [if_pos hq, if_pos hq, Bool.or_eq_true, decide_eq_true_eq, decide_eq_true_eq, lt_min_iff]
    constructor
    · intro h
      rcases h with hone | hlt
      · exact ⟨hu.2, lt_of_lt_of_le hu.2 hone⟩
      · exact ⟨hu.2, hlt⟩
    · intro h
      exact .inr h.2
  · rw [if_neg hq, if_neg hq]
    simp only [Bool.false_eq_true, false_iff, not_lt]
    exact hu.1

theorem acceptance_nonneg {p q : K} (hp : 0 ≤ p) : 0 ≤ acceptance p q := by
  unfold acceptance
  split_ifs with hq
  · exact le_min zero_le_one (div_nonneg hp hq.le)
  · exact le_refl 0

theorem acceptance_le_one (p q : K) : acceptance p q ≤ 1 := by
  unfold acceptance
  split_ifs
  · exact min_le_left _ _
  · exact zero_le_one

/-- A token is drafted and kept with probability `min p q`. -/
theorem mul_acceptance {p q : K} (hp : 0 ≤ p) (hq : 0 ≤ q) :
    q * acceptance p q = min p q := by
  unfold acceptance
  rcases hq.lt_or_eq with hpos | hzero
  · rw [if_pos hpos, mul_min_of_nonneg _ _ hq, mul_one, mul_div_cancel₀ _ hpos.ne', min_comm]
  · rw [← hzero, zero_mul, min_eq_right hp]

variable {drafted token : UInt32}

omit [IsStrictOrderedRing K] in
theorem verify_eq (h : Rows target draft) (hu : UnitDraws rng position)
    (hdrafted : drafted.toNat < target.len)
    (hresidual : correctionResidual target draft = .ok residual) :
    verify target draft drafted rng position =
      if rng.uniform position .accept < acceptance (target.mass drafted) (draft.mass drafted) then
        .ok .accept
      else
        (selectWith residual (rng.uniform position .select)).map .reject := by
  have hdrafted' : drafted.toNat < draft.len := h.sameLen ▸ hdrafted
  unfold verify
  rw [if_neg (not_not.mpr h.sameLen), Distribution.probability_eq hdrafted,
    Distribution.probability_eq hdrafted', hresidual]
  simp only [bind, Except.bind]
  have hiff := accepted_iff (p := target.mass drafted) (q := draft.mass drafted) (hu .accept)
  by_cases hlt : rng.uniform position .accept <
      acceptance (target.mass drafted) (draft.mass drafted)
  · rw [if_pos hlt, if_pos (hiff.mpr hlt)]
    rfl
  · rw [if_neg hlt, if_neg (fun hif => hlt (hiff.mp hif))]
    cases selectWith residual (rng.uniform position .select) <;> rfl

/-- Every round emits a token of the vocabulary. -/
theorem emit_ok (h : Rows target draft) (hu : UnitDraws rng position) :
    ∃ token, emit target draft rng position = .ok token := by
  have hvocab : draft.len ≤ 2 ^ 32 := h.sameLen ▸ h.vocab
  obtain ⟨drafted, hdraft, hlt⟩ := selectWith_ok h.draftNormalized hvocab (hu .draft)
  obtain ⟨residual, hresidual, hcorrects⟩ := correctionResidual_corrects h
  obtain ⟨token, hselect, _⟩ := selectWith_ok hcorrects.normalized
    (hcorrects.len_eq ▸ h.vocab) (hu .select)
  have hverify := verify_eq h hu (h.sameLen ▸ hlt) hresidual
  rw [hselect] at hverify
  simp only [emit, selectDraft, hdraft, bind, Except.bind, hverify]
  by_cases hacc : rng.uniform position .accept <
      acceptance (target.mass drafted) (draft.mass drafted)
  · exact ⟨drafted, by rw [if_pos hacc]; rfl⟩
  · exact ⟨token, by rw [if_neg hacc]; rfl⟩

/-- The draws that emit a token: they draft and keep it, or reject a draft and select it. -/
theorem emit_iff (h : Rows target draft) (hu : UnitDraws rng position)
    (hresidual : correctionResidual target draft = .ok residual)
    (hcorrects : Corrects target draft residual) (token : UInt32) :
    emit target draft rng position = .ok token ↔
      (rng.uniform position .draft ∈ cell draft.probabilities token.toNat ∧
        rng.uniform position .accept < acceptance (target.mass token) (draft.mass token)) ∨
      ∃ drafted : UInt32, rng.uniform position .draft ∈ cell draft.probabilities drafted.toNat ∧
        acceptance (target.mass drafted) (draft.mass drafted) ≤ rng.uniform position .accept ∧
        rng.uniform position .select ∈ cell residual.probabilities token.toNat := by
  have hvocab : draft.len ≤ 2 ^ 32 := h.sameLen ▸ h.vocab
  have hcell := selectWith_iff h.draftNormalized hvocab (hu .draft)
  have hselect := selectWith_iff hcorrects.normalized (hcorrects.len_eq ▸ h.vocab) (hu .select)
  obtain ⟨drafted, hdraft, hlt⟩ := selectWith_ok h.draftNormalized hvocab (hu .draft)
  have hsame : ∀ other : UInt32,
      rng.uniform position .draft ∈ cell draft.probabilities other.toNat → other = drafted := by
    intro other hother
    have heq := ((hcell other).mpr hother).symm.trans hdraft
    exact Except.ok.inj heq
  have hverify := verify_eq h hu (h.sameLen ▸ hlt) hresidual
  simp only [emit, selectDraft, hdraft, bind, Except.bind, hverify]
  by_cases hacc : rng.uniform position .accept <
      acceptance (target.mass drafted) (draft.mass drafted)
  · rw [if_pos hacc]
    constructor
    · intro heq
      obtain rfl : drafted = token := Except.ok.inj heq
      exact .inl ⟨(hcell drafted).mp hdraft, hacc⟩
    · intro hor
      rcases hor with ⟨htoken, _⟩ | ⟨other, hother, hrejected, _⟩
      · rw [hsame token htoken]
        rfl
      · rw [hsame other hother] at hrejected
        exact absurd hacc (not_lt.mpr hrejected)
  · rw [if_neg hacc]
    constructor
    · intro heq
      right
      refine ⟨drafted, (hcell drafted).mp hdraft, not_lt.mp hacc, (hselect token).mp ?_⟩
      generalize hselected : selectWith residual (rng.uniform position .select) = selected at heq
      cases selected with
      | error _ => cases heq
      | ok replacement => exact heq
    · intro hor
      rcases hor with ⟨htoken, haccepted⟩ | ⟨other, hother, _, hreplaced⟩
      · rw [hsame token htoken] at haccepted
        exact absurd haccepted hacc
      · rw [(hselect token).mpr hreplaced]
        rfl

/-- A token of target probability zero is never emitted. -/
theorem emit_support (h : Rows target draft) (hu : UnitDraws rng position)
    (hemit : emit target draft rng position = .ok token) : 0 < target.mass token := by
  obtain ⟨residual, hresidual, hcorrects⟩ := correctionResidual_corrects h
  rcases (emit_iff h hu hresidual hcorrects token).mp hemit with ⟨_, haccepted⟩ | ⟨_, _, _, hreplaced⟩
  · have hpos := lt_of_le_of_lt (hu .accept).1 haccepted
    unfold acceptance at hpos
    split_ifs at hpos with hq
    · exact (div_pos_iff_of_pos_right hq).mp (lt_min_iff.mp hpos).2
    · exact absurd hpos (lt_irrefl 0)
  · have hlen := hcorrects.len_eq ▸ h.vocab
    have hselect := (selectWith_iff hcorrects.normalized hlen (hu .select) token).mpr hreplaced
    exact hcorrects.support token (selectWith_support hlen hselect)

omit [IsStrictOrderedRing K] in
/-- A token the drafter could not have produced is never accepted. -/
theorem verify_zero_draft (hzero : draft.probability drafted = .ok 0) :
    verify target draft drafted rng position ≠ .ok .accept := by
  unfold verify
  by_cases hlen : target.len ≠ draft.len
  · rw [if_pos hlen]
    intro h
    cases h
  · rw [if_neg hlen, hzero]
    cases target.probability drafted with
    | error _ =>
      intro h
      cases h
    | ok targetProbability =>
      simp only [lt_irrefl, if_false, Bool.false_eq_true, bind, Except.bind]
      cases correctionResidual target draft with
      | error _ => exact fun h => nomatch h
      | ok residual =>
        dsimp only
        cases selectWith residual (rng.uniform position .select) <;> exact fun h => nomatch h

end Leone.Sampling

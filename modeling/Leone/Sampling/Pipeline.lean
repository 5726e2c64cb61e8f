import Leone.Sampling.Stages

/-!
# Runs of a pipeline

The candidates of a row are always a leading part of its ranking, weighted in proportion to the
whole row. Each pass over the stages keeps that, and the stages after the raw ones see shares.
-/

namespace Leone.Sampling

open Framework

variable {K : Type} [Field K] [LinearOrder K] {logits : List (Logit K)}

/-- The stages that read raw logits. -/
def Truncation.isRaw : Truncation K → Bool
  | .topNSigma _ | .minK _ => true
  | _ => false

/-- The stages that keep a leading part of the candidates. -/
def Truncation.isCut : Truncation K → Bool
  | .typical _ => false
  | _ => true

/-- A candidate with its weight is ranked before another. -/
def Before (logits : List (Logit K)) (left right : Nat × K) : Prop :=
  right.2 < left.2 ∨
    right.2 = left.2 ∧
      (logitOf logits left.1 ≠ .negativeZero ∧ logitOf logits right.1 = .negativeZero ∨
        logitOf logits right.1 = logitOf logits left.1 ∧ left.1 < right.1)

/-- Candidates sorted by weight, the first of the whole row among them. -/
structure Ranked (logits : List (Logit K)) (candidates : Candidates K) : Prop where
  length_eq : candidates.kept.length = candidates.order.length
  sorted : (candidates.order.zip candidates.kept).Pairwise (Before logits)
  positive : ∀ weight ∈ candidates.kept, 0 < weight
  highest : ∃ top, candidates.order.head? = some top ∧
    ∀ index, (logitOf logits index).isFinite = true → Precedes logits top index

section Steps

variable [Elementary K] [FloorRing K]

def Cuts (logits : List (Logit K)) (truncation : Truncation K) (candidates next : Candidates K) :
    Prop :=
  ∃ keep, Keeps logits candidates keep truncation ∧ next.order = candidates.order.take keep

/-- A stage of the pass on raw logits. -/
def RawStep (logits : List (Logit K)) (truncation : Truncation K)
    (candidates next : Candidates K) : Prop :=
  if truncation.isRaw then Cuts logits truncation candidates next else next = candidates

/-- A stage of the pass on shares. -/
def Step (logits : List (Logit K)) (truncation : Truncation K)
    (candidates next : Candidates K) : Prop :=
  if truncation.isRaw then next = candidates else Cuts logits truncation candidates next

end Steps

section Validity

variable {truncation : Truncation K} {sampler : Sampler K}

theorem Truncation.parameter_of_validate (h : truncation.validate = .ok ()) {value : K}
    (hvalue : truncation.parameter = some value) : truncation.inRange value = true := by
  rw [validate, hvalue] at h
  by_contra hrange
  simp only [hrange] at h
  cases h

theorem forM_ok {ε ι : Type} {check : ι → Except ε Unit} {is : List ι}
    (h : is.forM check = .ok ()) : ∀ i ∈ is, check i = .ok () := by
  induction is with
  | nil => simp
  | cons i rest ih =>
    change (check i >>= fun _ => rest.forM check) = .ok () at h
    cases hcheck : check i with
    | error e =>
      rw [hcheck] at h
      cases h
    | ok =>
      rw [hcheck] at h
      intro j hj
      rcases List.mem_cons.mp hj with rfl | hrest
      · exact hcheck
      · exact ih h j hrest

theorem Sampler.of_validate (h : sampler.validate = .ok ()) :
    sampler.temperature.validate = .ok () ∧
      ∀ truncation ∈ sampler.truncations, truncation.validate = .ok () := by
  rw [Sampler.validate] at h
  cases htemperature : sampler.temperature.validate with
  | error e =>
    rw [htemperature] at h
    cases h
  | ok =>
    rw [htemperature] at h
    exact ⟨rfl, forM_ok h⟩

end Validity

section Weights

variable [Elementary K]

/-- The weight of a token before the row is normalized. -/
def weightOf (logits : List (Logit K)) (temperature : K) (index : Nat) : K :=
  Elementary.exp
    (valueOf logits index / temperature - valueOf logits ((ranking logits).headD 0) / temperature)

variable {temperature : K} {candidates : Candidates K}

theorem weightOf_pos (index : Nat) : 0 < weightOf logits temperature index :=
  Elementary.exp_pos _

/-- A leading part of the ranking, weighted in proportion to the row. -/
structure Scaled (logits : List (Logit K)) (temperature : K) (candidates : Candidates K) :
    Prop where
  leading : candidates.order <+: ranking logits
  nonempty : candidates.order ≠ []
  proportional : ∃ scale, 0 < scale ∧
    candidates.kept = candidates.order.map fun index => weightOf logits temperature index / scale

/-- A leading part of the ranking with the shares of its weights. -/
structure Shared (logits : List (Logit K)) (temperature : K) (candidates : Candidates K) :
    Prop where
  leading : candidates.order <+: ranking logits
  nonempty : candidates.order ≠ []
  kept_eq : candidates.kept = shares (candidates.order.map (weightOf logits temperature))

variable [IsStrictOrderedRing K]

theorem sum_weightOf_pos {order : List Nat} (hne : order ≠ []) :
    0 < (order.map (weightOf logits temperature)).sum := by
  apply sum_pos_of_pos
  · simpa using hne
  · intro w hw
    obtain ⟨index, -, rfl⟩ := List.mem_map.mp hw
    exact weightOf_pos index

theorem Shared.scaled (h : Shared logits temperature candidates) :
    Scaled logits temperature candidates where
  leading := h.leading
  nonempty := h.nonempty
  proportional := by
    have hpos : 0 < (candidates.order.map (weightOf logits temperature)).sum :=
      sum_weightOf_pos h.nonempty
    refine ⟨_, hpos, ?_⟩
    rw [h.kept_eq, shares, List.map_map]
    rfl

theorem Shared.sum_eq_one (h : Shared logits temperature candidates) : candidates.kept.sum = 1 := by
  rw [h.kept_eq]
  exact sum_shares (sum_weightOf_pos h.nonempty)

/-- Normalizing proportional weights gives their shares. -/
theorem Scaled.renormalize_ok (h : Scaled logits temperature candidates) :
    renormalize candidates.kept =
      .ok (shares (candidates.order.map (weightOf logits temperature))) := by
  obtain ⟨scale, hscale, hkept⟩ := h.proportional
  have hmap : candidates.kept =
      (candidates.order.map (weightOf logits temperature)).map (· / scale) := by
    rw [hkept, List.map_map]
    rfl
  have hsum : 0 < candidates.kept.sum := by
    rw [hmap, sum_map_div]
    exact div_pos (sum_weightOf_pos h.nonempty) hscale
  rw [renormalize, if_neg (not_le.mpr hsum), ← shares_map_div _ hscale.ne', ← hmap]
  rfl

omit [IsStrictOrderedRing K] in
theorem Scaled.take (h : Scaled logits temperature candidates) {keep : Nat} (hkeep : 0 < keep) :
    Scaled logits temperature
      { order := candidates.order.take keep, kept := candidates.kept.take keep } := by
  obtain ⟨scale, hscale, hkept⟩ := h.proportional
  constructor
  · exact (List.take_prefix keep _).trans h.leading
  · intro hnil
    rcases List.take_eq_nil_iff.mp hnil with hzero | hempty
    · omega
    · exact h.nonempty hempty
  · refine ⟨scale, hscale, ?_⟩
    rw [hkept, List.map_take]

omit [IsStrictOrderedRing K] in
theorem Scaled.length_eq (h : Scaled logits temperature candidates) :
    candidates.kept.length = candidates.order.length := by
  obtain ⟨scale, -, hkept⟩ := h.proportional
  rw [hkept, List.length_map]

omit [IsStrictOrderedRing K] in
theorem Scaled.isFinite (h : Scaled logits temperature candidates) {index : Nat}
    (hindex : index ∈ candidates.order) : (logitOf logits index).isFinite = true :=
  mem_ranking.mp (h.leading.subset hindex)

omit [LinearOrder K] [Elementary K] [IsStrictOrderedRing K] in
/-- Finite logits of one value are one logit, unless one is a negative zero. -/
theorem logitOf_eq {left right : Nat} (hleft : (logitOf logits left).isFinite = true)
    (hright : (logitOf logits right).isFinite = true)
    (hvalue : valueOf logits right = valueOf logits left)
    (hsign : logitOf logits left = .negativeZero ↔ logitOf logits right = .negativeZero) :
    logitOf logits right = logitOf logits left := by
  simp only [valueOf] at hvalue
  cases hl : logitOf logits left with
  | nonFinite =>
    rw [hl] at hleft
    cases hleft
  | negativeZero => exact hsign.mp hl
  | finite value =>
    cases hr : logitOf logits right with
    | nonFinite =>
      rw [hr] at hright
      cases hright
    | negativeZero =>
      rw [hsign.mpr hr] at hl
      cases hl
    | finite other =>
      rw [hl, hr] at hvalue
      rw [show other = value from hvalue]

theorem weightOf_lt (htemperature : 0 < temperature) {left right : Nat}
    (h : valueOf logits right < valueOf logits left) :
    weightOf logits temperature right < weightOf logits temperature left := by
  apply Elementary.exp_strictMono
  have hdiv := div_lt_div_of_pos_right h htemperature
  linarith

/-- Proportional weights fall along the ranking. -/
theorem Scaled.ranked (h : Scaled logits temperature candidates) (htemperature : 0 < temperature) :
    Ranked logits candidates := by
  obtain ⟨scale, hscale, hkept⟩ := h.proportional
  have hpairs : candidates.order.Pairwise fun left right =>
      Precedes logits left right ∧ left ≠ right :=
    ((pairwise_ranking logits).and (nodup_ranking logits)).sublist h.leading.sublist
  refine ⟨h.length_eq, ?_, ?_, ?_⟩
  · rw [hkept, ← List.map_prod_left_eq_zip, List.pairwise_map]
    apply List.Pairwise.imp_of_mem _ hpairs
    intro left right hleft hright hpair
    obtain ⟨hprecedes, hne⟩ := hpair
    rcases hprecedes with hlt | ⟨heq, hsign⟩
    · left
      exact div_lt_div_of_pos_right (weightOf_lt htemperature hlt) hscale
    · right
      constructor
      · simp only [weightOf, heq]
      · rcases hsign with hzero | ⟨hiff, hle⟩
        · exact .inl hzero
        · right
          exact ⟨logitOf_eq (h.isFinite hleft) (h.isFinite hright) heq hiff,
            lt_of_le_of_ne hle hne⟩
  · intro weight hweight
    rw [hkept] at hweight
    obtain ⟨index, -, rfl⟩ := List.mem_map.mp hweight
    exact div_pos (weightOf_pos index) hscale
  · obtain ⟨rest, hrest⟩ := h.leading
    cases horder : candidates.order with
    | nil => exact absurd horder h.nonempty
    | cons top tail =>
      refine ⟨top, rfl, ?_⟩
      intro index hindex
      have hmem := mem_ranking.mpr hindex
      have hsorted := pairwise_ranking logits
      rw [← hrest, horder, List.cons_append] at hmem hsorted
      rcases List.mem_cons.mp hmem with rfl | htail
      · exact .inr ⟨rfl, .inr ⟨Iff.rfl, le_refl _⟩⟩
      · exact (List.pairwise_cons.mp hsorted).1 index htail

theorem Scaled.kept_sorted (h : Scaled logits temperature candidates)
    (htemperature : 0 < temperature) :
    candidates.kept.Pairwise fun left right => right ≤ left := by
  have hranked := h.ranked htemperature
  have hzip : candidates.kept = (candidates.order.zip candidates.kept).map Prod.snd := by
    rw [List.map_snd_zip hranked.length_eq.le]
  rw [hzip, List.pairwise_map]
  apply hranked.sorted.imp
  intro left right hbefore
  rcases hbefore with hlt | ⟨heq, -⟩
  · exact hlt.le
  · exact heq.le

omit [IsStrictOrderedRing K] in
theorem Scaled.values_sorted (h : Scaled logits temperature candidates) :
    candidates.order.Pairwise fun left right => valueOf logits right ≤ valueOf logits left := by
  apply ((pairwise_ranking logits).sublist h.leading.sublist).imp
  intro left right hprecedes
  rcases hprecedes with hlt | ⟨heq, -⟩
  · exact hlt.le
  · exact heq.le

end Weights

end Leone.Sampling

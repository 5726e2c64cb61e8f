import Leone.Sampling.Passes

/-!
# The truncated distribution

The distribution of a row gives each kept token its share of the kept weights and every other token
zero. Greedy sampling skips the stages and keeps the token of `argmax`.
-/

namespace Leone.Sampling

open Framework

section Argmax

variable {K : Type} [Field K] [LinearOrder K] {logits : List (Logit K)}

/-- The highest finite logit before an index, the lowest token of several. -/
def Best (logits : List (Logit K)) (count : Nat) : Option (Nat × K) → Prop
  | none => ∀ index < count, (logitOf logits index).isFinite = false
  | some (token, current) =>
    (logitOf logits token).isFinite = true ∧ current = valueOf logits token ∧ token < count ∧
      ∀ index < count, (logitOf logits index).isFinite = true →
        valueOf logits index < current ∨ valueOf logits index = current ∧ token ≤ index

/-- One more logit is passed by or becomes the best. -/
theorem Best.step {count : Nat} {best : Option (Nat × K)} (h : Best logits count best) :
    Best logits (count + 1)
      (if passedBy (logitOf logits count) best then best
        else some (count, valueOf logits count)) := by
  by_cases hpassed : passedBy (logitOf logits count) best = true
  · rw [if_pos hpassed]
    rw [passedBy, Bool.or_eq_true, Bool.not_eq_true'] at hpassed
    cases best with
    | none =>
      intro index hindex
      rcases Nat.lt_succ_iff_lt_or_eq.mp hindex with hbefore | rfl
      · exact h index hbefore
      · simpa using hpassed
    | some entry =>
      obtain ⟨hfinite, hcurrent, hlt, hothers⟩ := h
      refine ⟨hfinite, hcurrent, Nat.lt_succ_of_lt hlt, ?_⟩
      intro index hindex hindexFinite
      rcases Nat.lt_succ_iff_lt_or_eq.mp hindex with hbefore | rfl
      · exact hothers index hbefore hindexFinite
      · have hle : valueOf logits index ≤ entry.2 := by
          simpa [hindexFinite, valueOf] using hpassed
        rcases lt_or_eq_of_le hle with hless | heq
        · exact .inl hless
        · exact .inr ⟨heq, hlt.le⟩
  · rw [if_neg hpassed]
    rw [passedBy, Bool.or_eq_true, not_or] at hpassed
    obtain ⟨hfinite, habove⟩ := hpassed
    refine ⟨by simpa using hfinite, rfl, Nat.lt_succ_self _, ?_⟩
    intro index hindex hindexFinite
    rcases Nat.lt_succ_iff_lt_or_eq.mp hindex with hbefore | rfl
    · cases best with
      | none =>
        rw [h index hbefore] at hindexFinite
        cases hindexFinite
      | some entry =>
        obtain ⟨-, -, -, hothers⟩ := h
        have hlt : entry.2 < valueOf logits count := by
          simpa [valueOf] using habove
        rcases hothers index hbefore hindexFinite with hless | ⟨heq, -⟩
        · exact .inl (hless.trans hlt)
        · rw [heq]
          exact .inl hlt
    · exact .inr ⟨rfl, le_refl _⟩

theorem argmaxFrom_best {rest : List (Logit K)} {count : Nat} {best : Option (Nat × K)}
    (h : Best logits count best) (hrest : logits.drop count = rest) :
    Best logits (count + rest.length) (argmaxFrom rest count best) := by
  induction rest generalizing count best with
  | nil => exact h
  | cons value rest ih =>
    have hget : logitOf logits count = value := by
      have hhead := congrArg List.head? hrest
      rw [List.head?_drop, List.head?_cons] at hhead
      rw [logitOf, List.getD_eq_getElem?_getD, hhead, Option.getD_some]
    have htail : logits.drop (count + 1) = rest := by
      rw [← List.drop_drop, hrest, List.drop_one, List.tail_cons]
    have hstep := h.step
    rw [valueOf, hget] at hstep
    rw [List.length_cons, Nat.add_comm rest.length, ← Nat.add_assoc]
    exact ih hstep htail

/-- A row with a finite logit has a highest one. -/
theorem argmax_highest (hrow : ∃ logit ∈ logits, logit.isFinite = true) :
    ∃ best, argmax logits = some best ∧ best < logits.length ∧
      (logitOf logits best).isFinite = true ∧
      ∀ index, (logitOf logits index).isFinite = true →
        valueOf logits index < valueOf logits best ∨
          valueOf logits index = valueOf logits best ∧ best ≤ index := by
  have hstart : Best logits 0 none := fun index hindex => absurd hindex (Nat.not_lt_zero _)
  have hbest := argmaxFrom_best hstart List.drop_zero
  rw [Nat.zero_add] at hbest
  have hbound : ∀ index, (logitOf logits index).isFinite = true → index < logits.length :=
    fun index hfinite => lt_length_of_mem (mem_ranking.mpr hfinite)
  cases hentry : argmaxFrom logits 0 none with
  | none =>
    obtain ⟨index, hindex⟩ := List.exists_mem_of_ne_nil _ (ranking_ne_nil hrow)
    have hfinite := mem_ranking.mp hindex
    rw [hentry] at hbest
    rw [hbest index (hbound index hfinite)] at hfinite
    cases hfinite
  | some entry =>
    rw [hentry] at hbest
    obtain ⟨hfinite, hcurrent, hlt, hothers⟩ := hbest
    refine ⟨entry.1, by rw [argmax, hentry, Option.map_some], hlt, hfinite, ?_⟩
    intro index hindex
    have hother := hothers index (hbound index hindex) hindex
    rwa [hcurrent] at hother

end Argmax

section Rows

variable {K : Type} [Field K] [LinearOrder K] {logits : List (Logit K)}

/-- A distribution that keeps some of a row's tokens, in the ratios of the whole row. -/
structure Truncates (logits : List (Logit K)) (full truncated : Distribution K)
    (kept : List Nat) : Prop where
  highest : ∃ top ∈ kept, (logitOf logits top).isFinite = true ∧
    ∀ index, (logitOf logits index).isFinite = true → valueOf logits index ≤ valueOf logits top
  len_eq : truncated.len = logits.length
  positive : ∀ token ∈ kept,
    0 < weightAt truncated.probabilities token ∧ 0 < weightAt full.probabilities token
  zero : ∀ token ∉ kept, weightAt truncated.probabilities token = 0
  sum_eq_one : truncated.probabilities.sum = 1
  ratio : ∀ left ∈ kept, ∀ right ∈ kept,
    weightAt truncated.probabilities left / weightAt truncated.probabilities right =
      weightAt full.probabilities left / weightAt full.probabilities right

omit [LinearOrder K] in
theorem weightAt_scatter {order : List Nat} {n : Nat} (hbound : ∀ index ∈ order, index < n)
    (value : Nat → K) (index : Nat) :
    weightAt (scatter (List.replicate n 0) (order.map fun place => (place, value place))) index =
      if index ∈ order then value index else 0 := by
  rw [weightAt, List.getD_eq_getElem?_getD, scatter_getElem?, List.length_replicate]
  by_cases horder : index ∈ order
  · simp [horder, hbound index horder]
  · by_cases hlt : index < n
    · simp [horder, hlt]
    · simp [horder, hlt]

section Scattered

variable [IsStrictOrderedRing K] [Elementary K] {temperature : K} {full final : Candidates K}

/-- The row written from a leading part of the ranking. -/
theorem Shared.truncates (hfull : Shared logits temperature full)
    (hall : full.order = ranking logits) (h : Shared logits temperature final)
    (htemperature : 0 < temperature) :
    Truncates logits
      { probabilities := scatter (List.replicate logits.length 0) (full.order.zip full.kept) }
      { probabilities := scatter (List.replicate logits.length 0) (final.order.zip final.kept) }
      final.order := by
  obtain ⟨scale, hscale, hkept⟩ := h.scaled.proportional
  obtain ⟨whole, hwhole, hweights⟩ := hfull.scaled.proportional
  have hbound : ∀ index ∈ final.order, index < logits.length :=
    fun index hindex => lt_length_of_mem (h.leading.subset hindex)
  have hboundFull : ∀ index ∈ full.order, index < logits.length :=
    fun index hindex => lt_length_of_mem (hfull.leading.subset hindex)
  have hmem : ∀ index ∈ final.order, index ∈ full.order := by
    intro index hindex
    rw [hall]
    exact h.leading.subset hindex
  have hnodup : final.order.Nodup := (nodup_ranking logits).sublist h.leading.sublist
  have hentry : ∀ index ∈ final.order,
      weightAt (scatter (List.replicate logits.length 0) (final.order.zip final.kept)) index =
        weightOf logits temperature index / scale := by
    intro index hindex
    rw [hkept, ← List.map_prod_left_eq_zip, weightAt_scatter hbound, if_pos hindex]
  have hentryFull : ∀ index ∈ final.order,
      weightAt (scatter (List.replicate logits.length 0) (full.order.zip full.kept)) index =
        weightOf logits temperature index / whole := by
    intro index hindex
    rw [hweights, ← List.map_prod_left_eq_zip, weightAt_scatter hboundFull,
      if_pos (hmem index hindex)]
  refine ⟨?_, ?_, ?_, ?_, ?_, ?_⟩
  · obtain ⟨top, htop, hothers⟩ := (h.scaled.ranked htemperature).highest
    have htopMem : top ∈ final.order := List.mem_of_mem_head? htop
    refine ⟨top, htopMem, h.scaled.isFinite htopMem, ?_⟩
    intro index hindex
    rcases hothers index hindex with hlt | ⟨heq, -⟩
    · exact hlt.le
    · exact heq.le
  · simp [Distribution.len]
  · intro token htoken
    dsimp only
    rw [hentry token htoken, hentryFull token htoken]
    exact ⟨div_pos (weightOf_pos token) hscale, div_pos (weightOf_pos token) hwhole⟩
  · intro token htoken
    dsimp only
    rw [hkept, ← List.map_prod_left_eq_zip, weightAt_scatter hbound, if_neg htoken]
  · have hsum := h.sum_eq_one
    dsimp only
    rw [hkept] at hsum ⊢
    rw [← List.map_prod_left_eq_zip, sum_scatter hnodup hbound]
    exact hsum
  · intro left hleft right hright
    dsimp only
    rw [hentry left hleft, hentry right hright, hentryFull left hleft, hentryFull right hright,
      div_div_div_cancel_right₀ hscale.ne', div_div_div_cancel_right₀ hwhole.ne']

end Scattered

end Rows

section Pipelines

variable {K : Type} [Field K] [LinearOrder K] [IsStrictOrderedRing K] [Elementary K]
  [FloorRing K] {logits : List (Logit K)} {sampler : Sampler K}

/-- The tokens kept are what the stages leave: first the raw ones in turn, then the others in turn
on shares, with the candidates sorted all along. -/
def Staged (logits : List (Logit K)) (temperature : K) (truncations : List (Truncation K))
    (kept : List Nat) : Prop :=
  ∃ full raw cut final : Candidates K,
    scaledDistribution logits temperature = .ok full ∧
      Passes (Ranked logits) (RawStep logits) truncations full raw ∧
      applyRawTruncations logits truncations full = .ok cut ∧ cut.order = raw.order ∧
      Passes (fun candidates => Ranked logits candidates ∧ candidates.kept.sum = 1) (Step logits)
        truncations cut final ∧
      applyTruncations truncations cut = .ok final ∧ final.order = kept

/-- The kept tokens of a sampler: the first of the highest, or what the stages leave. -/
def Keeping (logits : List (Logit K)) (sampler : Sampler K) (kept : List Nat) : Prop :=
  match sampler.temperature with
  | .greedy => ∃ best, argmax logits = some best ∧ kept = [best]
  | .scaled temperature => Staged logits temperature sampler.truncations kept

omit [IsStrictOrderedRing K] in
theorem distribution_greedy (hvalid : sampler.validate = .ok ()) (hne : logits ≠ [])
    (hgreedy : sampler.temperature = .greedy) {best : Nat} (hbest : argmax logits = some best) :
    distribution logits sampler =
      .ok { probabilities := (List.replicate logits.length 0).set best 1 } := by
  simp only [distribution, hvalid, List.isEmpty_iff, hne, if_false, hgreedy, greedyDistribution,
    hbest]
  rfl

omit [IsStrictOrderedRing K] in
theorem distribution_scaled (hvalid : sampler.validate = .ok ()) (hne : logits ≠ [])
    {temperature : K} (hscaled : sampler.temperature = .scaled temperature)
    {full cut final : Candidates K} (hfull : scaledDistribution logits temperature = .ok full)
    (hcut : applyRawTruncations logits sampler.truncations full = .ok cut)
    (hfinal : applyTruncations sampler.truncations cut = .ok final) :
    distribution logits sampler =
      .ok { probabilities :=
        scatter (List.replicate logits.length 0) (final.order.zip final.kept) } := by
  simp only [distribution, hvalid, List.isEmpty_iff, hne, if_false, hscaled, greedyDistribution]
  show (scaledDistribution logits temperature >>= _) = _
  rw [hfull]
  show (applyRawTruncations logits sampler.truncations full >>= _) = _
  rw [hcut]
  show (applyTruncations sampler.truncations cut >>= _) = _
  rw [hfinal]
  rfl

omit [IsStrictOrderedRing K] [Elementary K] [FloorRing K] in
theorem Sampler.validate_untruncated (h : sampler.validate = .ok ()) :
    ({ sampler with truncations := [] } : Sampler K).validate = .ok () := by
  rw [Sampler.validate, (Sampler.of_validate h).1]
  rfl

omit [Elementary K] [FloorRing K] in
/-- A one-hot row at the greedy token. -/
theorem truncates_greedy {best : Nat} (hlt : best < logits.length)
    (hfinite : (logitOf logits best).isFinite = true)
    (hhighest : ∀ index, (logitOf logits index).isFinite = true →
      valueOf logits index ≤ valueOf logits best) :
    Truncates logits
      { probabilities := (List.replicate logits.length (0 : K)).set best 1 }
      { probabilities := (List.replicate logits.length (0 : K)).set best 1 } [best] := by
  have hrow : (List.replicate logits.length (0 : K)).set best 1 =
      scatter (List.replicate logits.length 0) ([best].map fun place => (place, (1 : K))) := rfl
  have hbound : ∀ index ∈ [best], index < logits.length := by
    intro index hindex
    rwa [List.mem_singleton.mp hindex]
  have hentry := weightAt_scatter hbound fun _ => (1 : K)
  rw [hrow]
  refine ⟨⟨best, List.mem_singleton_self best, hfinite, hhighest⟩, ?_, ?_, ?_, ?_, ?_⟩
  · simp [Distribution.len]
  · intro token htoken
    dsimp only
    rw [hentry, if_pos htoken]
    exact ⟨zero_lt_one, zero_lt_one⟩
  · intro token htoken
    dsimp only
    rw [hentry, if_neg htoken]
  · dsimp only
    rw [sum_scatter (List.nodup_singleton best) hbound]
    simp
  · intro left _ right _
    rfl

/-- A valid sampler truncates every row with a finite logit. -/
theorem distribution_ok (hvalid : sampler.validate = .ok ())
    (hrow : ∃ logit ∈ logits, logit.isFinite = true)
    (hcuts : ∀ truncation ∈ sampler.truncations, truncation.isCut = true) :
    ∃ full truncated kept,
      distribution logits { sampler with truncations := [] } = .ok full ∧
        distribution logits sampler = .ok truncated ∧
        Truncates logits full truncated kept ∧ Keeping logits sampler kept := by
  have hne : logits ≠ [] := by
    obtain ⟨logit, hlogit, -⟩ := hrow
    exact List.ne_nil_of_mem hlogit
  have huntruncated := Sampler.validate_untruncated hvalid
  obtain ⟨htemperature, hstages⟩ := Sampler.of_validate hvalid
  cases hmode : sampler.temperature with
  | greedy =>
    obtain ⟨best, hbest, hlt, hfinite, hothers⟩ := argmax_highest hrow
    rw [← hmode]
    refine ⟨_, _, [best], distribution_greedy huntruncated hne hmode hbest,
      distribution_greedy hvalid hne hmode hbest, truncates_greedy hlt hfinite ?_, ?_⟩
    · intro index hindex
      rcases hothers index hindex with hless | ⟨heq, -⟩
      · exact hless.le
      · exact heq.le
    · rw [Keeping, hmode]
      exact ⟨best, hbest, rfl⟩
  | scaled temperature =>
    have hpos : 0 < temperature := by
      rw [hmode, Temperature.validate] at htemperature
      by_contra hle
      rw [if_pos (not_lt.mp hle)] at htemperature
      cases htemperature
    obtain ⟨full, hfull, hall, hshared⟩ :=
      @scaledDistribution_shared K _ _ _ _ logits temperature (ranking_ne_nil hrow)
    obtain ⟨raw, cut, hcut, hraw, horder, hcutShared⟩ :=
      hshared.applyRawTruncations_passes hstages
    obtain ⟨final, hfinal, hpasses⟩ :=
      hcutShared.applyTruncations_passes hpos hcuts hstages
    have hranked : ∀ candidates, Shared logits temperature candidates →
        Ranked logits candidates ∧ candidates.kept.sum = 1 :=
      fun _ hstate => ⟨hstate.scaled.ranked hpos, hstate.sum_eq_one⟩
    rw [← hmode]
    refine ⟨_, _, final.order, distribution_scaled huntruncated hne hmode hfull rfl rfl,
      distribution_scaled hvalid hne hmode hfull hcut hfinal,
      hshared.truncates hall hpasses.inv_last hpos, ?_⟩
    rw [Keeping, hmode]
    exact ⟨full, raw, cut, final, hfull,
      hraw.mono (fun _ hstate => hstate.ranked hpos) fun _ _ _ hstep => hstep, hcut, horder,
      hpasses.mono hranked fun _ _ _ hstep => hstep, hfinal, rfl⟩

end Pipelines

/-- Over the reals, a valid pipeline of stages that keep a leading part keeps exactly the tokens
its stages define, each in its share. -/
theorem distribution_truncates (logits : List (Logit ℝ)) (sampler : Sampler ℝ)
    (hvalid : sampler.validate = .ok ()) (hrow : ∃ logit ∈ logits, logit.isFinite = true)
    (hcuts : ∀ truncation ∈ sampler.truncations, truncation.isCut = true) :
    ∃ full truncated kept,
      distribution logits { sampler with truncations := [] } = .ok full ∧
        distribution logits sampler = .ok truncated ∧
        Truncates logits full truncated kept ∧ Keeping logits sampler kept :=
  distribution_ok hvalid hrow hcuts

/-- Two equal logits, cut by a count and by a floor that neither share reaches. -/
theorem distribution_truncates_pair :
    ∃ full truncated kept,
      distribution ([.finite 0, .finite 0] : List (Logit ℝ))
          { temperature := .scaled 1, truncations := [] } = .ok full ∧
        distribution ([.finite 0, .finite 0] : List (Logit ℝ))
          { temperature := .scaled 1, truncations := [.minK 3, .topK 2, .epsilon 1] } =
            .ok truncated ∧
        Truncates ([.finite 0, .finite 0] : List (Logit ℝ)) full truncated kept ∧
        Keeping ([.finite 0, .finite 0] : List (Logit ℝ))
          { temperature := .scaled 1, truncations := [.minK 3, .topK 2, .epsilon 1] } kept := by
  apply distribution_truncates [.finite 0, .finite 0]
    { temperature := .scaled 1, truncations := [.minK 3, .topK 2, .epsilon 1] }
  · have hminK : (Truncation.minK (3 : ℝ)).validate = .ok () := by
      simp [Truncation.validate, Truncation.parameter, Truncation.inRange]
    have htopK : (Truncation.topK 2 : Truncation ℝ).validate = .ok () := rfl
    have hepsilon : (Truncation.epsilon (1 : ℝ)).validate = .ok () := by
      simp [Truncation.validate, Truncation.parameter, Truncation.inRange]
    have htemperature : (Temperature.scaled (1 : ℝ)).validate = .ok () := by
      rw [Temperature.validate, if_neg (by norm_num)]
    simp only [Sampler.validate, List.forM_eq_forM, List.forM_cons, List.forM_nil, hminK, htopK,
      hepsilon, htemperature]
    rfl
  · exact ⟨.finite 0, List.mem_cons_self, rfl⟩
  · simp [Truncation.isCut]

/-- A floor that no share reaches keeps the first token, an empty row has no distribution, a
negative zero comes after a positive one, and greedy sampling runs no stage. -/
theorem truncation_exceptions :
    (∃ candidates next : Candidates ℝ,
      scaledDistribution [.finite 0, .finite 0] 1 = .ok candidates ∧
        applyTruncation (.epsilon 1) candidates = .ok next ∧ next.order = [0] ∧
        ∀ share ∈ candidates.kept, share < 1) ∧
      distribution ([] : List (Logit ℝ)) { temperature := .scaled 1, truncations := [] } =
        .error .emptyRow ∧
      ranking ([.negativeZero, .finite 0] : List (Logit ℝ)) = [1, 0] ∧
      distribution ([.finite 0, .finite 0] : List (Logit ℝ))
        { temperature := .greedy, truncations := [.topK 2] } =
          .ok { probabilities := [1, 0] } := by
  have hindex : compare 0 1 = Ordering.lt := rfl
  have hsign : compare true false = Ordering.gt := rfl
  have hranking : ranking ([.finite 0, .finite 0] : List (Logit ℝ)) = [0, 1] := by
    simp [ranking, List.range_succ, logitOf, Logit.isFinite, compareCandidates, Logit.totalCmp,
      Logit.toF64, hindex]
  refine ⟨?_, ?_, ?_, ?_⟩
  · have hne : ranking ([.finite 0, .finite 0] : List (Logit ℝ)) ≠ [] := by simp [hranking]
    obtain ⟨full, hfull, horder, hshared⟩ :=
      @scaledDistribution_shared ℝ _ _ _ _ [.finite 0, .finite 0] 1 hne
    have hkept : full.kept = [1 / 2, 1 / 2] := by
      rw [hshared.kept_eq, horder, hranking]
      norm_num [shares, weightOf, valueOf, logitOf, Logit.toF64, hranking, Elementary.exp]
    rw [hranking] at horder
    refine ⟨full, { order := [0], kept := [1] }, hfull, ?_, rfl, ?_⟩
    · simp only [applyTruncation, truncationKeep, hkept, horder]
      norm_num [thresholdKeep, renormalize]
    · rw [hkept]
      norm_num
  · have htemperature : (Temperature.scaled (1 : ℝ)).validate = .ok () := by
      rw [Temperature.validate, if_neg (by norm_num)]
    simp only [distribution, Sampler.validate, htemperature]
    rfl
  · simp [ranking, List.range_succ, logitOf, Logit.isFinite, compareCandidates, Logit.totalCmp,
      Logit.toF64, hsign]
  · have hargmax : argmax ([.finite 0, .finite 0] : List (Logit ℝ)) = some 0 := by
      simp [argmax, argmaxFrom, passedBy, Logit.isFinite, Logit.toF64]
    exact distribution_greedy rfl (List.cons_ne_nil _ _) rfl hargmax

end Leone.Sampling

import Leone.Sampling.Pipeline

/-!
# The two passes

A stage with a valid parameter succeeds, keeps what `Keeps` says, and leaves a leading part of the
ranking. Both passes over the stages are runs of such steps.
-/

namespace Leone.Sampling

open Framework

variable {K : Type} [Field K] [LinearOrder K] [IsStrictOrderedRing K] [Elementary K]
  {logits : List (Logit K)} {temperature : K} {candidates : Candidates K}
  {truncation : Truncation K}

theorem Shared.first_pos (h : Shared logits temperature candidates) :
    0 < weightAt candidates.kept 0 := by
  obtain ⟨scale, hscale, hkept⟩ := h.scaled.proportional
  rw [hkept]
  cases horder : candidates.order with
  | nil => exact absurd horder h.nonempty
  | cons first rest =>
    rw [List.map_cons, weightAt_cons_zero]
    exact div_pos (weightOf_pos first) hscale

theorem Shared.first_le_one (h : Shared logits temperature candidates) :
    weightAt candidates.kept 0 ≤ 1 := by
  obtain ⟨scale, hscale, hkept⟩ := h.scaled.proportional
  have hnonneg : ∀ weight ∈ candidates.kept, 0 ≤ weight := by
    intro weight hweight
    rw [hkept] at hweight
    obtain ⟨index, -, rfl⟩ := List.mem_map.mp hweight
    exact (div_pos (weightOf_pos index) hscale).le
  have hle := cumulative_le_sum hnonneg 1
  rwa [cumulative_succ, cumulative_zero, zero_add, h.sum_eq_one] at hle

theorem Shared.kept_pos (h : Shared logits temperature candidates) :
    0 < candidates.kept.length := by
  rw [h.scaled.length_eq]
  exact List.length_pos_iff.mpr h.nonempty

section Stages

variable [FloorRing K]

theorem Scaled.rawKeep_keeps (h : Scaled logits temperature candidates)
    (hraw : truncation.isRaw = true) (hvalid : truncation.validate = .ok ()) :
    ∃ keep, rawKeep logits candidates.order truncation = some keep ∧
      Keeps logits candidates (max keep 1) truncation := by
  cases truncation with
  | topNSigma sigmas =>
    have hsigmas : 0 ≤ sigmas :=
      of_decide_eq_true (@Truncation.parameter_of_validate K _ _ _ hvalid sigmas rfl)
    exact ⟨_, rfl, topNSigmaKeep_reaches hsigmas h.nonempty h.values_sorted⟩
  | minK tau =>
    have htau : 0 ≤ tau :=
      of_decide_eq_true (@Truncation.parameter_of_validate K _ _ _ hvalid tau rfl)
    exact ⟨_, rfl, minKKeep_cliffs htau h.nonempty h.values_sorted⟩
  | _ => cases hraw

theorem Shared.truncationKeep_keeps (h : Shared logits temperature candidates)
    (htemperature : 0 < temperature) (hraw : truncation.isRaw = false)
    (hcut : truncation.isCut = true) (hvalid : truncation.validate = .ok ()) :
    ∃ keep, truncationKeep candidates.kept truncation = some keep ∧
      Keeps logits candidates (max keep 1) truncation := by
  have hsorted := h.scaled.kept_sorted htemperature
  have hpos := h.first_pos
  have hunit : ∀ value, truncation.parameter = some value →
      truncation.inRange value = (decide (0 < value) && decide (value ≤ 1)) →
      0 < value ∧ value ≤ 1 := by
    intro value hparameter hrange
    have hin := Truncation.parameter_of_validate hvalid hparameter
    rw [hrange, Bool.and_eq_true, decide_eq_true_eq, decide_eq_true_eq] at hin
    exact hin
  cases truncation with
  | topK count =>
    refine ⟨_, rfl, ?_⟩
    have hkept := h.kept_pos
    have hcount := count.pos
    show max (min (count : Nat) candidates.kept.length) 1 =
      min (count : Nat) candidates.kept.length
    omega
  | topP mass =>
    obtain ⟨hlow, hhigh⟩ := hunit mass rfl rfl
    have hcovers : Covers candidates.kept mass (prefixReachingMass candidates.kept mass) :=
      prefixReachingMass_covers hlow (by rwa [h.sum_eq_one])
    have hne : prefixReachingMass candidates.kept mass ≠ 0 := by
      intro hzero
      have hreaches := hcovers.reaches
      rw [hzero, cumulative_zero] at hreaches
      exact absurd hreaches (not_le.mpr hlow)
    refine ⟨_, rfl, ?_⟩
    rwa [max_eq_left (Nat.one_le_iff_ne_zero.mpr hne)]
  | minP fraction =>
    obtain ⟨-, hhigh⟩ := hunit fraction rfl rfl
    exact ⟨_, rfl, thresholdKeep_reaches hsorted (mul_le_of_le_one_left hpos.le hhigh)⟩
  | topA fraction =>
    obtain ⟨hlow, hhigh⟩ := hunit fraction rfl rfl
    have hfirst : fraction * weightAt candidates.kept 0 ≤ 1 :=
      mul_le_one₀ hhigh hpos.le h.first_le_one
    exact ⟨_, rfl, thresholdKeep_reaches hsorted (mul_le_of_le_one_left hpos.le hfirst)⟩
  | epsilon floor => exact ⟨_, rfl, thresholdKeep_reachesOrFirst hsorted⟩
  | eta floor => exact ⟨_, rfl, thresholdKeep_reachesOrFirst hsorted⟩
  | tailFree share => exact ⟨_, rfl, tailFreeKeep_heads (hunit share rfl rfl).1⟩
  | typical mass => cases hcut
  | topNSigma sigmas => cases hraw
  | minK tau => cases hraw

theorem Shared.applyTruncation_step (h : Shared logits temperature candidates)
    (htemperature : 0 < temperature) (hcut : truncation.isCut = true)
    (hvalid : truncation.validate = .ok ()) :
    ∃ next, applyTruncation truncation candidates = .ok next ∧
      Shared logits temperature next ∧ Step logits truncation candidates next := by
  by_cases hraw : truncation.isRaw = true
  · refine ⟨candidates, ?_, h, by rw [Step, if_pos hraw]⟩
    cases truncation <;> first | rfl | cases hraw
  · have hnot : truncation.isRaw = false := by simpa using hraw
    obtain ⟨keep, hkeep, hkeeps⟩ := h.truncationKeep_keeps htemperature hnot hcut hvalid
    have hscaled := h.scaled.take (show 0 < max keep 1 by omega)
    have hok := hscaled.renormalize_ok
    refine ⟨{ order := candidates.order.take (max keep 1)
              kept := shares
                ((candidates.order.take (max keep 1)).map (weightOf logits temperature)) },
      ?_, ⟨hscaled.leading, hscaled.nonempty, rfl⟩, ?_⟩
    · have hunfold : applyTruncation truncation candidates =
          (renormalize (candidates.kept.take (max keep 1))).bind fun kept =>
            .ok { order := candidates.order.take (max keep 1), kept } := by
        cases truncation <;> first
          | exact absurd rfl hraw
          | exact absurd hcut Bool.false_ne_true
          | simp only [applyTruncation, hkeep, Bind.bind, Pure.pure, Except.pure]
      rw [hunfold, hok]
      rfl
    · rw [Step, if_neg hraw]
      exact ⟨_, hkeeps, rfl⟩

/-- The loop over raw stages is a run of them, and nothing changes unless one ran. -/
theorem Scaled.rawStages_passes {truncations : List (Truncation K)}
    (h : Scaled logits temperature candidates)
    (hvalid : ∀ truncation ∈ truncations, truncation.validate = .ok ()) (changed : Bool) :
    ∃ changed' last, rawStages logits truncations changed candidates = (changed', last) ∧
      Passes (Scaled logits temperature) (RawStep logits) truncations candidates last ∧
      (changed = true → changed' = true) ∧ (changed' = false → last = candidates) := by
  induction truncations generalizing candidates changed with
  | nil => exact ⟨changed, candidates, rfl, .done h, id, fun _ => rfl⟩
  | cons truncation rest ih =>
    have hrest : ∀ later ∈ rest, later.validate = .ok () :=
      fun later hlater => hvalid later (List.mem_cons_of_mem truncation hlater)
    rw [rawStages]
    by_cases hraw : truncation.isRaw = true
    · obtain ⟨keep, hkeep, hkeeps⟩ := h.rawKeep_keeps hraw (hvalid truncation List.mem_cons_self)
      have hlength : candidates.kept.take (candidates.order.take (max keep 1)).length =
          candidates.kept.take (max keep 1) := by
        rw [List.length_take, ← h.length_eq, List.take_eq_take_min (i := max keep 1)]
      have htake := h.take (show 0 < max keep 1 by omega)
      obtain ⟨changed', last, heq, hpasses, hran, -⟩ := ih htake hrest true
      rw [hkeep]
      dsimp only
      rw [hlength]
      refine ⟨changed', last, heq, .stage h ?_ hpasses, fun _ => hran rfl, ?_⟩
      · rw [RawStep, if_pos hraw]
        exact ⟨_, hkeeps, rfl⟩
      · intro hunchanged
        rw [hran rfl] at hunchanged
        cases hunchanged
    · have hkeep : rawKeep logits candidates.order truncation = none := by
        cases truncation <;> first | rfl | exact absurd rfl hraw
      obtain ⟨changed', last, heq, hpasses, hran, hsame⟩ := ih h hrest changed
      rw [hkeep]
      refine ⟨changed', last, heq, .stage h ?_ hpasses, hran, hsame⟩
      rw [RawStep, if_neg hraw]

/-- The raw pass runs its stages and leaves shares of what they keep. -/
theorem Shared.applyRawTruncations_passes {truncations : List (Truncation K)}
    (h : Shared logits temperature candidates)
    (hvalid : ∀ truncation ∈ truncations, truncation.validate = .ok ()) :
    ∃ raw cut, applyRawTruncations logits truncations candidates = .ok cut ∧
      Passes (Scaled logits temperature) (RawStep logits) truncations candidates raw ∧
      cut.order = raw.order ∧ Shared logits temperature cut := by
  obtain ⟨changed, raw, heq, hpasses, -, hsame⟩ := h.scaled.rawStages_passes hvalid false
  have hraw := hpasses.inv_last
  rw [applyRawTruncations, heq]
  cases changed with
  | false =>
    refine ⟨raw, raw, rfl, hpasses, rfl, ?_⟩
    rw [hsame rfl]
    exact h
  | true =>
    refine ⟨raw, { order := raw.order
                   kept := shares (raw.order.map (weightOf logits temperature)) },
      ?_, hpasses, rfl, ⟨hraw.leading, hraw.nonempty, rfl⟩⟩
    simp only [if_true, hraw.renormalize_ok]
    rfl

theorem Shared.applyTruncations_passes {truncations : List (Truncation K)}
    (h : Shared logits temperature candidates) (htemperature : 0 < temperature)
    (hcut : ∀ truncation ∈ truncations, truncation.isCut = true)
    (hvalid : ∀ truncation ∈ truncations, truncation.validate = .ok ()) :
    ∃ final, applyTruncations truncations candidates = .ok final ∧
      Passes (Shared logits temperature) (Step logits) truncations candidates final :=
  passes_foldlM h fun truncation hmem _ hstate =>
    hstate.applyTruncation_step htemperature (hcut truncation hmem) (hvalid truncation hmem)

end Stages

theorem scaledDistribution_shared (hne : ranking logits ≠ []) :
    ∃ full, scaledDistribution logits temperature = .ok full ∧ full.order = ranking logits ∧
      Shared logits temperature full := by
  have hpos : 0 < ((ranking logits).map (weightOf logits temperature)).sum := sum_weightOf_pos hne
  have hscaled : scaledDistribution logits temperature =
      .ok { order := ranking logits
            kept := shares ((ranking logits).map (weightOf logits temperature)) } := by
    simp only [scaledDistribution]
    cases horder : ranking logits with
    | nil => exact absurd horder hne
    | cons first rest =>
      have hweights : ((first :: rest).map fun index =>
          Elementary.exp (valueOf logits index / temperature - valueOf logits first / temperature))
          = (first :: rest).map (weightOf logits temperature) := by
        apply List.map_congr_left
        intro index _
        simp only [weightOf, horder, List.headD_cons]
      rw [horder] at hpos
      dsimp only
      rw [hweights, if_neg (not_le.mpr hpos)]
      rfl
  exact ⟨_, hscaled, rfl, List.prefix_refl _, hne, rfl⟩

end Leone.Sampling

import Leone.Drafting.Receipt

/-!
# Counters of a call and of a session

The statistics of a call count its own drafted rounds, and a controller counts the rounds of every
call that used it. So the two agree exactly when the session's controller had not observed a
speculative round before the call.
-/

namespace Leone.Drafting

open Framework

/-! ## The adaptive controller -/

/-- The width slots agree with the round counters. -/
structure AdaptiveController.Counted (c : AdaptiveController) : Prop where
  first : c.stats.widthRounds 0 = 0
  plain : c.stats.widthRounds 1 = c.stats.plainRounds
  speculative : total c.stats.widthRounds speculativeWidths = c.stats.speculativeRounds
  fits : c.stats.speculativeRounds < 2 ^ 64

theorem AdaptiveController.new_counted : AdaptiveController.new.Counted :=
  ⟨rfl, rfl, rfl, by simp [AdaptiveController.new]⟩

/-- What a choice between the modes leaves of the counters. -/
def AdaptiveController.SameRounds (c c' : AdaptiveController) : Prop :=
  c'.stats.widthRounds = c.stats.widthRounds ∧ c'.stats.plainRounds = c.stats.plainRounds ∧
    c'.stats.speculativeRounds = c.stats.speculativeRounds

theorem AdaptiveController.Counted.same {c c' : AdaptiveController} (h : c.Counted)
    (hsame : c.SameRounds c') : c'.Counted := by
  obtain ⟨hwidths, hplain, hspeculative⟩ := hsame
  refine ⟨?_, ?_, ?_, ?_⟩
  · rw [hwidths]
    exact h.first
  · rw [hwidths, hplain]
    exact h.plain
  · rw [hwidths, hspeculative]
    exact h.speculative
  · rw [hspeculative]
    exact h.fits

theorem AdaptiveController.decide_ok (c : AdaptiveController) (proposalTokens : Nat)
    (timing : AdaptiveTiming) :
    c.SameRounds (c.decide proposalTokens timing).2 ∧
      ∀ width, (c.decide proposalTokens timing).1 = some width →
        2 ≤ width.val ∧ width.val ≤ proposalTokens + 1 := by
  unfold AdaptiveController.decide
  split
  · exact ⟨⟨rfl, rfl, rfl⟩, by simp⟩
  split
  · exact ⟨⟨rfl, rfl, rfl⟩, by simp⟩
  · simp only
    split
    · next width hprobe =>
      refine ⟨⟨rfl, rfl, rfl⟩, fun width' hwidth => ?_⟩
      obtain rfl := Option.some.inj hwidth
      have hmem := List.mem_of_find?_eq_some hprobe
      have hle := List.find?_some hprobe
      simp only [Bool.and_eq_true, decide_eq_true_eq] at hle
      refine ⟨?_, by omega⟩
      simp only [List.mem_cons, List.not_mem_nil, or_false] at hmem
      rcases hmem with rfl | rfl | rfl | rfl <;> decide
    · split
      · exact ⟨⟨rfl, rfl, rfl⟩, by simp⟩
      · split
        · next width hbest =>
          refine ⟨⟨rfl, rfl, rfl⟩, fun width' hwidth => ?_⟩
          obtain rfl := Option.some.inj hwidth
          have hpassed := (Option.filter_eq_some_iff.mp hbest).2
          simp only [Bool.and_eq_true, decide_eq_true_eq] at hpassed
          omega
        · exact ⟨⟨rfl, rfl, rfl⟩, by simp⟩

theorem AdaptiveController.recordSource_ok {c c' : AdaptiveController} {source : ProposalSource}
    (h : c.recordSource source = .ok c') : c.SameRounds c' := by
  cases source with
  | suffix =>
    obtain ⟨count, -, h⟩ := bind_eq_ok.mp h
    cases h
    exact ⟨rfl, rfl, rfl⟩
  | tokenRecycling =>
    obtain ⟨count, -, h⟩ := bind_eq_ok.mp h
    cases h
    exact ⟨rfl, rfl, rfl⟩

/-- An observation counts in its width slot, and in one of the two round counters. -/
theorem AdaptiveController.observe_ok {c c' : AdaptiveController} {verifierPositions : Nat}
    (hcounted : c.Counted) (hpos : 0 < verifierPositions)
    (h : c.observe verifierPositions = .ok c') :
    c'.Counted ∧ c'.stats.speculativeRounds =
      c.stats.speculativeRounds + if verifierPositions = 1 then 0 else 1 := by
  unfold AdaptiveController.observe at h
  split at h
  · next hwidth =>
    obtain ⟨widthRounds, hbump, h⟩ := bind_eq_ok.mp h
    have htotal := total_bump hbump speculativeWidths
    rw [count_speculativeWidths, hcounted.speculative] at htotal
    have hfirst : widthRounds 0 = 0 := by
      rw [bump_of_ne hbump (by simp [Fin.ext_iff]; omega), hcounted.first]
    split at h
    · next hone =>
      obtain ⟨plainRounds, hplain, hok⟩ := bind_eq_ok.mp h
      subst hone
      have hself : widthRounds 1 = plainRounds := by
        rw [(checkedSucc_eq_ok.mp hplain).2, ← hcounted.plain]
        exact bump_self hbump
      cases hok
      rw [if_neg (by simp)] at htotal
      exact ⟨⟨hfirst, hself, htotal, hcounted.fits⟩, by simp⟩
    · next hne =>
      obtain ⟨speculativeRounds, hspeculative, h⟩ := bind_eq_ok.mp h
      obtain ⟨hfits, rfl⟩ := checkedSucc_eq_ok.mp hspeculative
      have hother : widthRounds 1 = c.stats.plainRounds := by
        rw [bump_of_ne hbump (by simp [Fin.ext_iff]; omega), hcounted.plain]
      have htwo : 2 ≤ verifierPositions := by omega
      cases h
      rw [if_pos htwo] at htotal
      exact ⟨⟨hfirst, hother, htotal, hfits⟩, by rw [if_neg hne]⟩
  · cases h

/-! ## The correctable controller -/

section Correctable

variable {F : Type} {ops : Float64 F}

/-- The plan and width slots agree with the round counters, and an unused controller has no
overlap. -/
structure CorrectableController.Counted (ops : Float64 F) (c : CorrectableController F) : Prop where
  first : c.stats.widthRounds 0 = 0
  plain : c.stats.widthRounds 1 = c.stats.plainRounds
  speculative : total c.stats.widthRounds speculativeWidths = c.stats.speculativeRounds
  plans : total c.stats.planRounds (List.finRange 4) = c.stats.speculativeRounds
  fits : c.stats.speculativeRounds < 2 ^ 64
  unused : c.stats.speculativeRounds = 0 →
    c.stats.overlapSum = ops.zero ∧ c.stats.overlapProposals = 0

theorem CorrectableController.new_counted :
    (CorrectableController.new ops).Counted ops :=
  ⟨rfl, rfl, rfl, rfl, by simp [CorrectableController.new], fun _ => ⟨rfl, rfl⟩⟩

def CorrectableController.SameRounds (c c' : CorrectableController F) : Prop :=
  c'.stats.widthRounds = c.stats.widthRounds ∧ c'.stats.plainRounds = c.stats.plainRounds ∧
    c'.stats.speculativeRounds = c.stats.speculativeRounds ∧
    c'.stats.planRounds = c.stats.planRounds ∧ c'.stats.overlapSum = c.stats.overlapSum ∧
    c'.stats.overlapProposals = c.stats.overlapProposals

theorem CorrectableController.Counted.same {c c' : CorrectableController F} (h : c.Counted ops)
    (hsame : c.SameRounds c') : c'.Counted ops := by
  obtain ⟨hwidths, hplain, hspeculative, hplans, hsum, hproposals⟩ := hsame
  refine ⟨?_, ?_, ?_, ?_, ?_, ?_⟩
  · rw [hwidths]
    exact h.first
  · rw [hwidths, hplain]
    exact h.plain
  · rw [hwidths, hspeculative]
    exact h.speculative
  · rw [hplans, hspeculative]
    exact h.plans
  · rw [hspeculative]
    exact h.fits
  · rw [hspeculative, hsum, hproposals]
    exact h.unused

theorem speculate_positions (plan : CorrectablePlan) (maximumPositions : Nat) :
    2 ≤ (speculate plan maximumPositions).2 := Nat.le_max_left _ _

theorem CorrectableController.decide_ok {c c' : CorrectableController F}
    {available : CorrectablePlan → Bool} {maximumPositions : Nat} {timing : CorrectableTiming}
    {decision : Option (CorrectablePlan × Nat)}
    (h : c.decide available maximumPositions timing = .ok (decision, c')) :
    c.SameRounds c' ∧ ∀ plan positions, decision = some (plan, positions) → 2 ≤ positions := by
  unfold CorrectableController.decide at h
  split at h
  · cases h
  split at h
  · cases h
    exact ⟨⟨rfl, rfl, rfl, rfl, rfl, rfl⟩, by simp⟩
  split at h
  · cases h
    exact ⟨⟨rfl, rfl, rfl, rfl, rfl, rfl⟩, by simp⟩
  · split at h
    · cases h
      refine ⟨⟨rfl, rfl, rfl, rfl, rfl, rfl⟩, fun plan positions heq => ?_⟩
      cases heq
      exact Nat.le_max_left _ _
    · split at h
      · obtain ⟨count, -, h⟩ := bind_eq_ok.mp h
        cases h
        exact ⟨⟨rfl, rfl, rfl, rfl, rfl, rfl⟩, by simp⟩
      · split at h
        · cases h
          refine ⟨⟨rfl, rfl, rfl, rfl, rfl, rfl⟩, fun plan positions heq => ?_⟩
          cases heq
          exact Nat.le_max_left _ _
        · obtain ⟨count, -, h⟩ := bind_eq_ok.mp h
          cases h
          exact ⟨⟨rfl, rfl, rfl, rfl, rfl, rfl⟩, by simp⟩

/-- A plain observation has one position and no plan, a speculative one has both. -/
theorem CorrectableController.observe_ok {c c' : CorrectableController F}
    {observation : CorrectableObservation F} (hcounted : c.Counted ops)
    (hkind : observation.plan = none ∧ observation.verifierPositions = 1 ∨
      observation.plan.isSome ∧ 2 ≤ observation.verifierPositions)
    (h : c.observe ops observation = .ok c') :
    c'.Counted ops ∧
      if observation.plan.isSome then
        c'.stats.speculativeRounds = c.stats.speculativeRounds + 1 ∧
          c'.stats.overlapSum = ops.add c.stats.overlapSum observation.overlapSum ∧
          c'.stats.overlapProposals = c.stats.overlapProposals + observation.overlapProposals
      else c'.stats.speculativeRounds = c.stats.speculativeRounds ∧
        c'.stats.overlapSum = c.stats.overlapSum ∧
        c'.stats.overlapProposals = c.stats.overlapProposals := by
  unfold CorrectableController.observe at h
  split at h
  · next hwidth =>
    split at h
    · cases h
    · obtain ⟨widthRounds, hbump, h⟩ := bind_eq_ok.mp h
      have htotal := total_bump hbump speculativeWidths
      rw [count_speculativeWidths, hcounted.speculative] at htotal
      have hfirst : widthRounds 0 = 0 := by
        rw [bump_of_ne hbump (by simp [Fin.ext_iff]; omega), hcounted.first]
      rcases hkind with ⟨hplan, hone⟩ | ⟨hplan, htwo⟩
      · simp only [hplan] at h
        obtain ⟨plainRounds, hplain, h⟩ := bind_eq_ok.mp h
        have hslot : (1 : Fin widthSlots) = ⟨observation.verifierPositions, hwidth⟩ := by
          simp [hone]
        have hself : widthRounds 1 = plainRounds := by
          rw [(checkedSucc_eq_ok.mp hplain).2, ← hcounted.plain, hslot]
          exact bump_self hbump
        cases h
        rw [if_neg (by simp [hone])] at htotal
        exact ⟨⟨hfirst, hself, htotal, hcounted.plans, hcounted.fits, hcounted.unused⟩,
          by simp [hplan]⟩
      · obtain ⟨plan, hplan⟩ := Option.isSome_iff_exists.mp hplan
        simp only [hplan] at h
        obtain ⟨speculativeRounds, hspeculative, h⟩ := bind_eq_ok.mp h
        obtain ⟨planRounds, hplans, h⟩ := bind_eq_ok.mp h
        obtain ⟨proposed, -, h⟩ := bind_eq_ok.mp h
        obtain ⟨accepted, -, h⟩ := bind_eq_ok.mp h
        obtain ⟨overlapProposals, hoverlap, h⟩ := bind_eq_ok.mp h
        obtain ⟨hfits, rfl⟩ := checkedSucc_eq_ok.mp hspeculative
        obtain rfl := (checkedCount_eq_ok.mp hoverlap).2
        have hother : widthRounds 1 = c.stats.plainRounds := by
          rw [bump_of_ne hbump (by simp [Fin.ext_iff]; omega), hcounted.plain]
        have hplanTotal := total_bump hplans (List.finRange 4)
        rw [count_finRange_plan, hcounted.plans] at hplanTotal
        cases h
        rw [if_pos htwo] at htotal
        exact ⟨⟨hfirst, hother, htotal, hplanTotal, hfits, by simp⟩, by simp [hplan]⟩
  · cases h

end Correctable

end Leone.Drafting

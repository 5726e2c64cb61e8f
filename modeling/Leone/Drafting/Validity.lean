import Leone.Drafting.Agreement

/-!
# The record of a call on a retained session

A session keeps the controller of its last call. The record of the next call copies that
controller's counters, with the rounds of the earlier calls in them.
-/

namespace Leone.Drafting

open Framework

section Validity

variable {F : Type} {ops : Float64 F}

/-! ## Retained sessions -/

/-- The controllers that a session can hold: none at first and after a failed call, those of a
prompt that was evaluated without a decode, and those of a completed or stopped call. -/
inductive Retained (ops : Float64 F) : SessionControllers F → Prop
  | fresh : Retained ops .new
  | lost {session : SessionControllers F} (adaptive correctable : Bool) :
      Retained ops session → Retained ops
        ⟨if adaptive then none else session.adaptive,
          if correctable then none else session.correctable⟩
  | evaluated {session : SessionControllers F} (mode : Speculation) :
      Retained ops session → Retained ops (restoreGenerationControllers ops session mode)
  | generated {session : SessionControllers F} {mode : Speculation} {maxTokens : Nat}
      {inputs : List (RoundInput F)} {result : GenerationStats F} :
      Retained ops session → generate ops session mode maxTokens inputs = .ok result →
        Retained ops result.kept

/-- The counters of a session's controllers agree. -/
structure SessionControllers.Counted (ops : Float64 F) (session : SessionControllers F) : Prop where
  adaptive : ∀ c ∈ session.adaptive, c.Counted
  correctable : ∀ c ∈ session.correctable, c.Counted ops

theorem SessionControllers.Counted.restore {session : SessionControllers F}
    (h : session.Counted ops) (mode : Speculation) :
    (restoreGenerationControllers ops session mode).Counted ops := by
  cases mode with
  | disabled => exact ⟨nofun, nofun⟩
  | suffix => exact ⟨nofun, nofun⟩
  | adaptive =>
    refine ⟨fun c hc => ?_, nofun⟩
    cases hc
    cases hsession : session.adaptive with
    | none => exact AdaptiveController.new_counted
    | some c => exact h.adaptive c hsession
  | correctable n =>
    refine ⟨nofun, fun c hc => ?_⟩
    cases hc
    cases hsession : session.correctable with
    | none => exact CorrectableController.new_counted
    | some c => exact h.correctable c hsession

/-! ## The start and the end of a call -/

/-- What a call starts its rounds with. -/
def decodeStart (ops : Float64 F) (session : SessionControllers F) (mode : Speculation) :
    DecodeState F :=
  ⟨1, 0, .default ops, restoreGenerationControllers ops session mode, []⟩

theorem start_agree {session : SessionControllers F} (h : session.Counted ops)
    (mode : Speculation) :
    StatsAgree ops (decodeStart ops session mode).stats (decodeStart ops session mode).compared ∧
      ControllersAgree ops mode session (decodeStart ops session mode) := by
  have hrestored := h.restore mode
  refine ⟨⟨Nat.le_refl 0, fun _ => rfl, fun _ => rfl, Nat.le_refl 0, fun _ => rfl, rfl, rfl,
    Nat.le_refl 0⟩, ?_⟩
  cases mode with
  | disabled => exact ⟨nofun, rfl⟩
  | suffix => exact ⟨nofun, rfl⟩
  | adaptive =>
    refine ⟨nofun, _, rfl, hrestored.adaptive _ rfl, ?_⟩
    cases hsession : session.adaptive with
    | none => simp [priorRounds, hsession, AdaptiveController.new, decodeStart, SpeculationStats.default]
    | some c => simp [priorRounds, hsession, decodeStart, SpeculationStats.default]
  | correctable n =>
    have hcounted := hrestored.correctable _ rfl
    refine ⟨_, rfl, hcounted, ?_, fun hprior => hcounted.unused ?_⟩
    · cases hsession : session.correctable with
      | none =>
        simp [priorRounds, hsession, CorrectableController.new, decodeStart, SpeculationStats.default]
      | some c => simp [priorRounds, hsession, decodeStart, SpeculationStats.default]
    · cases hsession : session.correctable with
      | none => rfl
      | some c => simpa [priorRounds, hsession] using hprior

/-- What a completed or stopped call has counted. -/
theorem generate_ok {session : SessionControllers F} {mode : Speculation} {maxTokens : Nat}
    {inputs : List (RoundInput F)} {result : GenerationStats F} (hsession : session.Counted ops)
    (h : generate ops session mode maxTokens inputs = .ok result) :
    ∃ s : DecodeState F, StatsAgree ops s.stats s.compared ∧ ControllersAgree ops mode session s ∧
      result.speculation = recordGenerationControllerStats s.stats s.controllers ∧
      result.kept = s.controllers ∧ result.compared = s.compared := by
  obtain ⟨s, hrun, hok⟩ := bind_eq_ok.mp h
  obtain ⟨hstats, hcontrollers⟩ := iterations_agree (start_agree hsession mode) hrun
  cases hok
  exact ⟨s, hstats, hcontrollers, rfl, rfl, rfl⟩

theorem ControllersAgree.counted {mode : Speculation} {session : SessionControllers F}
    {s : DecodeState F} (h : ControllersAgree ops mode session s) :
    s.controllers.Counted ops := by
  cases mode with
  | disabled =>
    rw [h.2]
    exact ⟨nofun, nofun⟩
  | suffix =>
    rw [h.2]
    exact ⟨nofun, nofun⟩
  | adaptive =>
    obtain ⟨-, c, hsome, hcounted, -⟩ := h
    rw [hsome]
    exact ⟨fun c' hc' => by cases hc'; exact hcounted, nofun⟩
  | correctable n =>
    obtain ⟨c, hsome, hcounted, -⟩ := h
    rw [hsome]
    exact ⟨nofun, fun c' hc' => by cases hc'; exact hcounted⟩

theorem Retained.counted {session : SessionControllers F} (h : Retained ops session) :
    session.Counted ops := by
  induction h with
  | fresh => exact ⟨nofun, nofun⟩
  | lost adaptive correctable _ ih =>
    refine ⟨fun c hc => ?_, fun c hc => ?_⟩
    · cases adaptive with
      | false => exact ih.adaptive c hc
      | true => cases hc
    · cases correctable with
      | false => exact ih.correctable c hc
      | true => cases hc
  | evaluated mode _ ih => exact ih.restore mode
  | generated _ hgenerate ih =>
    obtain ⟨s, -, hcontrollers, -, hkept, -⟩ := generate_ok ih hgenerate
    rw [hkept]
    exact hcontrollers.counted

/-! ## The rules -/

/-- The overlaps of the compared rows add up to a number between zero and their count. -/
structure OverlapInRange (ops : Float64 F) (compared : List (List (List F × List F))) : Prop where
  finite : ops.isFinite (callOverlap ops compared) = true
  nonnegative : ops.lt (callOverlap ops compared) ops.zero = false
  bounded : ops.lt (ops.add (ops.ofNat (comparedRows compared)) ops.nano)
    (callOverlap ops compared) = false

theorem overlapInRange_of_nil {compared : List (List (List F × List F))}
    (h : ∀ rows ∈ compared, rows = []) : OverlapInRange ops compared := by
  obtain ⟨hsum, hcount⟩ := callOverlap_of_nil ops h
  refine ⟨?_, ?_, ?_⟩
  · rw [hsum]
    exact ops.isFinite_zero
  · rw [hsum]
    exact ops.zero_lt_zero
  · rw [hsum, hcount]
    exact ops.margin_lt_zero

theorem validateSpeculation_eq_ok {record : SpeculationRecord F} {schemaVersion : Nat} :
    validateSpeculation ops record schemaVersion = .ok () ↔
      validateSpeculationCounts record = .ok () ∧
        validateSpeculationDraft record schemaVersion = .ok () ∧
        validateSpeculationVerifier record = .ok () ∧ validateAdaptiveRounds record = .ok () ∧
        validateCorrectableOverlap ops record = .ok () ∧ validateCorrectableRounds record = .ok () := by
  simp only [validateSpeculation, bind_eq_ok, Unique.exists_iff]

theorem validateNonempty_drafterName (s : SpeculationStats F) :
    validateNonempty (drafterName s) "speculation.drafter" = .ok () := by
  unfold drafterName
  split
  · decide
  · split
    · decide
    · decide

/-- The rules about the counts of a call itself. -/
theorem StatsAgree.valid {s : SpeculationStats F} {compared : List (List (List F × List F))}
    (h : StatsAgree ops s compared) (controllers : Controllers F) {evaluations : Nat}
    (hevaluated : 1 ≤ evaluations) (schemaVersion : Nat) :
    let record := speculationRecord (recordGenerationControllerStats s controllers) evaluations
    validateSpeculationCounts record = .ok () ∧
      validateSpeculationDraft record schemaVersion = .ok () ∧
      validateSpeculationVerifier record = .ok () := by
  refine ⟨?_, ?_, ?_⟩
  · rw [validateSpeculationCounts, bind_eq_ok]
    refine ⟨(), validateNonempty_drafterName _, ?_⟩
    rw [if_neg, if_neg, validatePositive, if_neg]
    · exact Nat.one_le_iff_ne_zero.mp hevaluated
    · intro hproposed
      exact Nat.ne_of_gt hproposed.1 (h.rounds hproposed.2)
    · exact Nat.not_lt.mpr h.accepted
  · rw [validateSpeculationDraft, if_neg]
    intro hwidth
    exact Nat.ne_of_gt hwidth.2.1 (h.width hwidth.2.2)
  · rw [validateSpeculationVerifier, if_neg, if_neg]
    · exact Nat.not_lt.mpr h.passes
    · intro hverified
      exact hverified.2 (h.verified hverified.1)

theorem checkedTotal_of_lt {n : Nat} {rounds : Fin n → Nat} {slots : List (Fin n)}
    (h : total rounds slots < 2 ^ 64) (message : String) :
    checkedTotal rounds slots message = .ok (total rounds slots) := if_pos h

/-- A controller that counts right passes if its speculative rounds are those of the call. -/
theorem validateAdaptiveRounds_iff {record : SpeculationRecord F} {c : AdaptiveController}
    (hcounted : c.Counted) (hplain : record.adaptivePlainRounds = c.stats.plainRounds)
    (hspeculative : record.adaptiveSpeculativeRounds = c.stats.speculativeRounds)
    (hwidths : record.adaptiveWidthRounds = c.stats.widthRounds) :
    validateAdaptiveRounds record = .ok () ↔
      (c.stats.speculativeRounds ≠ 0 → c.stats.speculativeRounds = record.rounds) := by
  have htotal : checkedTotal record.adaptiveWidthRounds speculativeWidths
      "adaptive width accounting overflowed" = .ok c.stats.speculativeRounds := by
    rw [hwidths, checkedTotal_of_lt (by rw [hcounted.speculative]; exact hcounted.fits),
      hcounted.speculative]
  rw [validateAdaptiveRounds, htotal, hplain, hspeculative, hwidths]
  change (if _ then _ else if _ then _ else _) = _ ↔ _
  rw [if_neg (by simp [hcounted.first, hcounted.plain])]
  by_cases hzero : c.stats.speculativeRounds = 0
  · simp [hzero]
  · by_cases hrounds : c.stats.speculativeRounds = record.rounds
    · simp [hrounds]
    · simp [hzero, hrounds]

theorem validateCorrectableRounds_iff {record : SpeculationRecord F} {c : CorrectableController F}
    (hcounted : c.Counted ops) (hplain : record.correctablePlainRounds = c.stats.plainRounds)
    (hspeculative : record.correctableSpeculativeRounds = c.stats.speculativeRounds)
    (hplans : record.correctablePlanRounds = c.stats.planRounds)
    (hwidths : record.correctableWidthRounds = c.stats.widthRounds) :
    validateCorrectableRounds record = .ok () ↔
      (c.stats.speculativeRounds ≠ 0 → c.stats.speculativeRounds = record.rounds) := by
  have hplanTotal : checkedTotal record.correctablePlanRounds (List.finRange 4)
      "correctable plan accounting overflowed" = .ok c.stats.speculativeRounds := by
    rw [hplans, checkedTotal_of_lt (by rw [hcounted.plans]; exact hcounted.fits), hcounted.plans]
  have htotal : checkedTotal record.correctableWidthRounds speculativeWidths
      "correctable width accounting overflowed" = .ok c.stats.speculativeRounds := by
    rw [hwidths, checkedTotal_of_lt (by rw [hcounted.speculative]; exact hcounted.fits),
      hcounted.speculative]
  rw [validateCorrectableRounds, hplanTotal, htotal, hplain, hspeculative, hwidths]
  change (if _ then _ else if _ then _ else _) = _ ↔ _
  rw [if_neg (by simp [hcounted.first, hcounted.plain])]
  by_cases hzero : c.stats.speculativeRounds = 0
  · simp [hzero]
  · by_cases hrounds : c.stats.speculativeRounds = record.rounds
    · simp [hrounds]
    · simp [hzero, hrounds]

theorem validateCorrectableOverlap_iff {record : SpeculationRecord F}
    {compared : List (List (List F × List F))}
    (hsum : record.correctableOverlapSum = callOverlap ops compared)
    (hcount : record.correctableOverlapProposals = comparedRows compared)
    (hproposed : comparedRows compared ≤ record.proposed) :
    validateCorrectableOverlap ops record = .ok () ↔ OverlapInRange ops compared := by
  rw [validateCorrectableOverlap, hsum, hcount]
  constructor
  · intro h
    split at h
    · cases h
    · next hfirst =>
      split at h
      · cases h
      · next hsecond =>
        simp only [not_or, Bool.not_eq_false, Bool.not_eq_true] at hfirst hsecond
        exact ⟨hfirst.1, hfirst.2, hsecond.2⟩
  · intro h
    rw [if_neg (by simp [h.finite, h.nonnegative]),
      if_neg (by simp [h.bounded, Nat.not_lt.mpr hproposed])]

/-- The record of a call. -/
abbrev callRecord (s : SpeculationStats F) (controllers : Controllers F) (evaluations : Nat) :
    SpeculationRecord F :=
  speculationRecord (recordGenerationControllerStats s controllers) evaluations

/-- A call without an adaptive controller has counted no adaptive round. -/
theorem StatsAgree.adaptive_unused {s : SpeculationStats F} {compared : List (List (List F × List F))}
    (h : StatsAgree ops s compared) (correctable : Option (CorrectableController F))
    (evaluations : Nat) :
    validateAdaptiveRounds (callRecord s ⟨none, correctable⟩ evaluations) = .ok () := by
  have hadaptive : (recordGenerationControllerStats s ⟨none, correctable⟩).adaptive =
      AdaptiveController.new.stats := h.adaptive
  apply (validateAdaptiveRounds_iff AdaptiveController.new_counted ?_ ?_ ?_).mpr
  · exact fun hrounds => absurd rfl hrounds
  · simp only [speculationRecord, hadaptive]
  · simp only [speculationRecord, hadaptive]
  · simp only [speculationRecord, hadaptive]

theorem StatsAgree.correctable_unused {s : SpeculationStats F}
    {compared : List (List (List F × List F))} (h : StatsAgree ops s compared)
    (adaptive : Option AdaptiveController) (evaluations : Nat) :
    validateCorrectableRounds (callRecord s ⟨adaptive, none⟩ evaluations) = .ok () ∧
      (validateCorrectableOverlap ops (callRecord s ⟨adaptive, none⟩ evaluations) = .ok () ↔
        OverlapInRange ops compared) := by
  have hcorrectable : (recordGenerationControllerStats s ⟨adaptive, none⟩).correctable =
      { (CorrectableController.new ops).stats with
        overlapSum := callOverlap ops compared, overlapProposals := comparedRows compared } :=
    h.correctable
  constructor
  · apply (validateCorrectableRounds_iff
      (CorrectableController.new_counted : (CorrectableController.new ops).Counted ops)
      ?_ ?_ ?_ ?_).mpr
    · exact fun hrounds => absurd rfl hrounds
    · simp only [speculationRecord, hcorrectable]
    · simp only [speculationRecord, hcorrectable]
    · simp only [speculationRecord, hcorrectable]
    · simp only [speculationRecord, hcorrectable]
  · apply validateCorrectableOverlap_iff
    · simp only [speculationRecord, hcorrectable]
    · simp only [speculationRecord, hcorrectable]
    · exact h.compared

/-- The speculative rounds of a controller that had observed some before are those of the call
only if there are none of either. -/
theorem rounds_agree_iff {prior rounds speculative : Nat} (h : speculative = prior + rounds) :
    (speculative ≠ 0 → speculative = rounds) ↔ prior = 0 := by
  omega

end Validity

/-! ## Two calls on one session -/

/-- Rational arithmetic. -/
def exact : Float64 Rat :=
  { zero := 0
    one := 1
    nano := 1 / 1000000000
    ofNat := fun n => (n : Rat)
    add := fun left right => left + right
    sub := fun left right => left - right
    half := fun value => value / 2
    abs := fun value => if value < 0 then -value else value
    isFinite := fun _ => true
    lt := fun left right => decide (left < right)
    add_zero := Rat.add_zero 0
    isFinite_zero := rfl
    zero_lt_zero := by decide +kernel
    margin_lt_zero := by decide +kernel }

/-- A round whose drafters propose nothing. -/
def idleRound : RoundInput Rat :=
  ⟨[], none, ⟨false, none⟩, fun _ => false, ⟨false, none⟩, [], [], true, []⟩

/-- A round with one suffix proposal, which the target accepts. -/
def suffixRound : RoundInput Rat :=
  { idleRound with proposal := some (.suffix, [5]), verdicts := [(true, [])] }

/-- The warm-up rounds and the first probe. -/
def probeRounds : List (RoundInput Rat) := List.replicate plainWarmupRounds idleRound ++ [suffixRound]

/-- The rule on the record of a plain round, after a call that probed. -/
def secondRecord : Except RuntimeError (Nat × Except String Unit) := do
  let first ← generate exact .new .adaptive 11 probeRounds
  let second ← generate exact first.kept .adaptive 2 [idleRound]
  return (second.decodeEvaluations,
    validateSpeculation exact (speculationRecord second.speculation second.decodeEvaluations) 7)

end Leone.Drafting

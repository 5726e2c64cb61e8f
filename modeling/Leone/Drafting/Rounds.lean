import Leone.Drafting.Decisions
import Mathlib

/-!
# Runs of the measured controller

Every decision of a run keeps to its plans, its warm-up and its width, and the counters balance.
-/

namespace Leone.Drafting.Measured

open Framework Framework.Method

variable {F : Type} (ops : Operations F)

/-- The plan of a call that observes a round. -/
def Call.observed : Call F → Option (Option CorrectablePlan)
  | .observe observation => if observation.Accepted ops then some observation.plan else none
  | .decide _ _ => none

/-- The plans of the rounds that a run observes. -/
def observedPlans (calls : List (Call F)) : List (Option CorrectablePlan) :=
  calls.filterMap (Call.observed ops)

/-- The counters have room for what a call observes. -/
def Room (c : CorrectableController F) : Call F → Prop
  | .observe observation => HasRoom c observation
  | .decide _ _ => True

/-- A plain round evaluates one position and a speculative one at least two. -/
def Positioned : Call F → Prop
  | .observe observation =>
    if observation.plan = none then observation.verifierPositions.get = 1
    else 2 ≤ observation.verifierPositions.get
  | .decide _ _ => True

/-- The plan slots add up to the speculative rounds, and the width slots to all rounds. -/
structure Balanced (c : CorrectableController F) : Prop where
  plans : total c.stats.planRounds (List.finRange 4) = c.stats.speculativeRounds
  widths : total c.stats.widthRounds (List.finRange widthSlots) =
    c.stats.plainRounds + c.stats.speculativeRounds

/-- Plain rounds are the rounds of width one, and the wider ones are speculative. -/
structure WidthsAgree (c : CorrectableController F) : Prop where
  first : c.stats.widthRounds 0 = 0
  plain : c.stats.widthRounds 1 = c.stats.plainRounds
  speculative : total c.stats.widthRounds speculativeWidths = c.stats.speculativeRounds

section Steps

variable {c c' : CorrectableController F} {config : CorrectableControllerConfig F}
  {observed : List (Option CorrectablePlan)} {observation : CorrectableObservation F}

theorem new_counted (config : CorrectableControllerConfig F) :
    Counted config (CorrectableController.new ops config) [] :=
  ⟨rfl, rfl, rfl, fun _ => rfl, fun _ => rfl, rfl⟩

theorem new_balanced (config : CorrectableControllerConfig F) :
    Balanced (CorrectableController.new ops config) := ⟨rfl, rfl⟩

theorem new_widthsAgree (config : CorrectableControllerConfig F) :
    WidthsAgree (CorrectableController.new ops config) := ⟨rfl, rfl, rfl⟩

theorem Counted.same (h : Counted config c observed) (hsame : SameRounds c c') :
    Counted config c' observed := by
  constructor
  · rw [hsame.config, h.config]
  · rw [hsame.plain, h.plain]
  · rw [hsame.plainRounds, h.plainRounds]
  · intro plan
    rw [hsame.plans, h.plans]
  · intro plan
    rw [hsame.planRounds, h.planRounds]
  · rw [hsame.speculativeRounds, h.speculativeRounds]

theorem count_concat (observed : List (Option CorrectablePlan)) (plan entry : Option CorrectablePlan) :
    (observed ++ [plan]).count entry = observed.count entry + if plan = entry then 1 else 0 := by
  rw [List.count_append, List.count_singleton]
  simp only [beq_iff_eq]

theorem Counted.observe (h : Counted config c observed) (hrecorded : Recorded c observation c') :
    Counted config c' (observed ++ [observation.plan]) := by
  obtain ⟨width, duration, hwidth, hround⟩ := hrecorded
  constructor
  · rw [hround.config]
    exact h.config
  · rw [hround.plain, count_concat, ← h.plain]
  · rw [hround.plainRounds, count_concat, ← h.plainRounds]
  · intro plan
    rw [hround.plans, count_concat, ← h.plans]
  · intro plan
    rw [hround.planRounds, count_concat, ← h.planRounds]
  · rw [hround.speculativeRounds, List.countP_append, ← h.speculativeRounds]
    cases observation.plan <;> rfl

theorem Balanced.same (h : Balanced c) (hsame : SameRounds c c') : Balanced c' := by
  constructor
  · rw [hsame.planRounds, hsame.speculativeRounds, h.plans]
  · rw [hsame.width, hsame.plainRounds, hsame.speculativeRounds, h.widths]

theorem WidthsAgree.same (h : WidthsAgree c) (hsame : SameRounds c c') : WidthsAgree c' := by
  constructor
  · rw [hsame.width, h.first]
  · rw [hsame.width, hsame.plainRounds, h.plain]
  · rw [hsame.width, hsame.speculativeRounds, h.speculative]

theorem index_surj (slot : Fin 4) : ∃ plan : CorrectablePlan, plan.index = slot := by
  match slot with
  | 0 => exact ⟨.suffix, rfl⟩
  | 1 => exact ⟨.unigram, rfl⟩
  | 2 => exact ⟨.bigram, rfl⟩
  | 3 => exact ⟨.fourgram, rfl⟩

/-- The plan slots after a round: the slot of its plan counts one more. -/
theorem RoundCounted.planTotal {plan : Option CorrectablePlan} (h : RoundCounted plan c c') :
    total c'.stats.planRounds (List.finRange 4) = total c.stats.planRounds (List.finRange 4) +
      if plan = none then 0 else 1 := by
  cases plan with
  | none =>
    have heq : c'.stats.planRounds = c.stats.planRounds := by
      funext slot
      obtain ⟨plan, rfl⟩ := index_surj slot
      exact h.planRounds plan
    rw [heq]
    rfl
  | some plan =>
    have heq : c'.stats.planRounds = Function.update c.stats.planRounds plan.index
        (c.stats.planRounds plan.index + 1) := by
      funext slot
      obtain ⟨other, rfl⟩ := index_surj slot
      rw [h.planRounds, update_count]
      exact congrArg _ (if_congr (by rw [index_inj, Option.some.injEq, eq_comm]) rfl rfl)
    rw [heq, total_update, count_finRange_plan]
    rfl

theorem count_finRange_width (width : Fin widthSlots) :
    (List.finRange widthSlots).count width = 1 := by
  revert width
  decide

theorem Balanced.observe (h : Balanced c) (hrecorded : Recorded c observation c') :
    Balanced c' := by
  obtain ⟨width, duration, -, hround⟩ := hrecorded
  constructor
  · rw [hround.planTotal, hround.speculativeRounds]
    exact congrArg (· + _) h.plans
  · rw [hround.width, hround.plainRounds, hround.speculativeRounds, total_update,
      count_finRange_width, h.widths]
    cases observation.plan with
    | none => simp only [if_true]; omega
    | some plan => simp only [reduceCtorEq, if_false]; omega

theorem WidthsAgree.observe (h : WidthsAgree c) (hrecorded : Recorded c observation c')
    (hpositioned : Positioned (.observe observation)) : WidthsAgree c' := by
  obtain ⟨width, duration, hwidth, hround⟩ := hrecorded
  have hpositive : width ≠ 0 := by
    intro heq
    have hpos := observation.verifierPositions.pos
    rw [← hwidth, heq] at hpos
    exact absurd hpos (by decide)
  have hslots : c'.stats.widthRounds = Function.update c.stats.widthRounds width
      (c.stats.widthRounds width + 1) := hround.width
  rw [Positioned] at hpositioned
  constructor
  · rw [hslots, Function.update_of_ne hpositive.symm, h.first]
  · rw [hslots, hround.plainRounds, update_count, h.plain]
    refine congrArg _ (if_congr ?_ rfl rfl)
    split at hpositioned
    · next hplan =>
      refine iff_of_true ?_ hplan
      apply Fin.ext
      rw [hwidth, hpositioned]
      rfl
    · next hplan =>
      refine iff_of_false ?_ hplan
      intro heq
      rw [← hwidth, ← heq] at hpositioned
      exact absurd hpositioned (by decide)
  · rw [hslots, hround.speculativeRounds, total_update, count_speculativeWidths, h.speculative,
      hwidth]
    refine congrArg _ ?_
    split at hpositioned
    · next hplan => rw [if_pos hplan, if_neg (by omega)]
    · next hplan => rw [if_neg hplan, if_pos hpositioned]

theorem after_decide {available : CorrectablePlan → Bool} {maximumPositions : Nat}
    (h : Counted config c observed) : SameRounds c (step ops c (.decide available maximumPositions)) := by
  apply Ends.after (P := SameRounds c)
  apply (decide_ends ops h).mono
  · intro decision c' hc'
    exact hc'.1
  · intro fault c' hc'
    rw [hc'.2]
    exact ⟨rfl, rfl, rfl, rfl, rfl, rfl, fun _ => rfl⟩

theorem after_observe (h : Counted config c observed) (hroom : HasRoom c observation) :
    observation.Accepted ops ∧ Recorded c observation (step ops c (.observe observation)) ∨
      ¬ observation.Accepted ops ∧ step ops c (.observe observation) = c := by
  apply Ends.after (P := fun c' => observation.Accepted ops ∧ Recorded c observation c' ∨
    ¬ observation.Accepted ops ∧ c' = c)
  apply (observe_ends ops h hroom).mono
  · intro _ c' hc'
    exact .inl hc'
  · intro fault c' hc'
    exact hc'.2

end Steps

/-- What a run leaves behind. -/
structure Followed (config : CorrectableControllerConfig F) (c : CorrectableController F)
    (calls : List (Call F)) : Prop where
  counted : Counted config c (observedPlans ops calls)
  balanced : Balanced c
  widths : (∀ call ∈ calls, Positioned call) → WidthsAgree c

theorem Followed.step {config : CorrectableControllerConfig F} {c : CorrectableController F}
    {calls : List (Call F)} {call : Call F} (h : Followed ops config c calls)
    (hroom : Room c call) : Followed ops config (step ops c call) (calls ++ [call]) := by
  have hpositioned : (∀ other ∈ calls ++ [call], Positioned other) →
      (∀ other ∈ calls, Positioned other) ∧ Positioned call := by
    simp only [List.mem_append, List.mem_singleton]
    exact fun hall => ⟨fun other hmem => hall other (.inl hmem), hall call (.inr rfl)⟩
  have hobserved : observedPlans ops (calls ++ [call]) =
      observedPlans ops calls ++ (call.observed ops).toList := by
    rw [observedPlans, List.filterMap_append]
    rfl
  cases call with
  | decide available maximumPositions =>
    have hsame : SameRounds c (Measured.step ops c (.decide available maximumPositions)) :=
      after_decide ops h.counted
    refine ⟨?_, h.balanced.same hsame, fun hall => (h.widths (hpositioned hall).1).same hsame⟩
    rw [hobserved]
    exact (List.append_nil _).symm ▸ h.counted.same hsame
  | observe observation =>
    rcases after_observe ops h.counted hroom with ⟨haccepted, hrecorded⟩ | ⟨hrefused, hsame⟩
    · have hplan : (Call.observe observation).observed ops = some observation.plan :=
        if_pos haccepted
      refine ⟨?_, h.balanced.observe hrecorded, fun hall => ?_⟩
      · rw [hobserved, hplan]
        exact h.counted.observe hrecorded
      · exact (h.widths (hpositioned hall).1).observe hrecorded (hpositioned hall).2
    · have hplan : (Call.observe observation).observed ops = none := if_neg hrefused
      rw [hsame]
      refine ⟨?_, h.balanced, fun hall => h.widths (hpositioned hall).1⟩
      rw [hobserved, hplan]
      exact (List.append_nil _).symm ▸ h.counted

theorem followed_along {config : CorrectableControllerConfig F} (calls : List (Call F))
    (hroom : Along (step ops) Room (CorrectableController.new ops config) calls) :
    Followed ops config (run (step ops) (CorrectableController.new ops config) calls) calls := by
  induction calls using List.reverseRecOn with
  | nil => exact ⟨new_counted ops config, new_balanced ops config,
      fun _ => new_widthsAgree ops config⟩
  | append_singleton calls call ih =>
    rw [along_append] at hroom
    rw [run_append]
    exact (ih hroom.1).step ops hroom.2.1

/-- After every run the next decision is allowed, the counters balance, and the width slots agree
when every round evaluates the positions of its kind. -/
theorem decisions_along (config : CorrectableControllerConfig F) (calls : List (Call F))
    (hroom : Along (step ops) Room (CorrectableController.new ops config) calls) :
    let c := run (step ops) (CorrectableController.new ops config) calls
    (∀ available maximumPositions,
      (CorrectableController.decide ops available maximumPositions).Ends c
        (fun decision _ =>
          Allowed config (observedPlans ops calls) available maximumPositions decision)
        (fun fault c' => fault ≠ .panic ∧ c' = c)) ∧
      Balanced c ∧ ((∀ call ∈ calls, Positioned call) → WidthsAgree c) := by
  intro c
  have hfollowed := followed_along ops calls hroom
  refine ⟨fun available maximumPositions => ?_, hfollowed.balanced, hfollowed.widths⟩
  apply (decide_ends ops hfollowed.counted).mono
  · intro decision c' hc'
    exact hc'.2
  · intro fault c' hc'
    exact hc'

/-! ### A small run -/

/-- The operations on rational numbers. -/
def rational : Operations ℚ where
  zero := 0
  one := 1
  ofDuration duration := duration
  ofNat n := n
  add := (· + ·)
  sub := (· - ·)
  mul := (· * ·)
  div := (· / ·)
  isFinite _ := true
  lt left right := left < right
  le left right := left ≤ right
  totalCmp := compare

def smallConfig : CorrectableControllerConfig ℚ := ⟨⟨1, Nat.one_pos, one_lt_u64⟩, 11 / 10, 3 / 100, 1 / 4⟩

/-- A round of one position that produces one token. -/
def singleRound (plan : Option CorrectablePlan) : Call ℚ :=
  .observe ⟨plan, ⟨1, Nat.one_pos, one_lt_u64⟩, ⟨1, Nat.one_pos, one_lt_u64⟩, 0, 0, 0, 0, 1, 0⟩

instance (c : CorrectableController ℚ) (observation : CorrectableObservation ℚ) :
    Decidable (HasRoom c observation) :=
  decidable_of_iff (c.stats.controllerDuration + observation.controllerDuration ≤ maximumDuration ∧
      (∀ width, c.stats.widthRounds width + 1 < 2 ^ 64) ∧ c.stats.plainRounds + 1 < 2 ^ 64 ∧
        c.stats.speculativeRounds + 1 < 2 ^ 64)
    ⟨fun h => ⟨h.1, h.2.1, h.2.2.1, h.2.2.2⟩, fun h => ⟨h.1, h.2, h.3, h.4⟩⟩

instance (c : CorrectableController ℚ) (call : Call ℚ) : Decidable (Room c call) :=
  match call with
  | .observe observation => inferInstanceAs (Decidable (HasRoom c observation))
  | .decide _ _ => .isTrue trivial

/-- After one plain round the controller probes a plan at two positions, for which a maximum of one
leaves no room, and a speculative round of one position is missing among the wide ones. -/
theorem narrow_rounds_disagree :
    (∃ calls available maximumPositions plan positions reason,
      Along (step rational) Room (CorrectableController.new rational smallConfig) calls ∧
      (CorrectableController.decide rational available maximumPositions).result
        (run (step rational) (CorrectableController.new rational smallConfig) calls) =
          .ok (.speculate plan positions reason) ∧ maximumPositions < positions) ∧
    ∃ calls, Along (step rational) Room (CorrectableController.new rational smallConfig) calls ∧
      (∀ observation, .observe observation ∈ calls → observation.plan = none →
        observation.verifierPositions.get = 1) ∧
      let c := run (step rational) (CorrectableController.new rational smallConfig) calls
      total c.stats.widthRounds speculativeWidths ≠ c.stats.speculativeRounds := by
  constructor
  · exact ⟨[singleRound none], fun _ => true, 1, .suffix, 2, .planProbe, by decide +kernel,
      by decide +kernel, by decide⟩
  · refine ⟨[singleRound (some .suffix)], by decide +kernel, ?_, by decide +kernel⟩
    intro observation hmem hplan
    obtain rfl := Call.observe.inj (List.mem_singleton.mp hmem)
    rfl

/-- A run that warms up and then drafts one round. -/
theorem decisions_along_small :
    let calls := [singleRound none, .decide (fun _ => true) 4,
      .observe ⟨some .suffix, ⟨4, by decide, by decide⟩, ⟨2, by decide, by decide⟩, 3, 1, 0, 3, 5, 0⟩]
    let c := run (step rational) (CorrectableController.new rational smallConfig) calls
    (∀ available maximumPositions,
      (CorrectableController.decide rational available maximumPositions).Ends c
        (fun decision _ =>
          Allowed smallConfig (observedPlans rational calls) available maximumPositions decision)
        (fun fault c' => fault ≠ .panic ∧ c' = c)) ∧
      Balanced c ∧ ((∀ call ∈ calls, Positioned call) → WidthsAgree c) :=
  decisions_along rational smallConfig _ (by decide +kernel)

end Leone.Drafting.Measured

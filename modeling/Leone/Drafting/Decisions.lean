import Leone.Drafting.Measured

/-!
# Decisions of the measured controller

What an observation counts, what a decision rests on, and what follows for the decisions of a run.
-/

namespace Leone.Drafting.Measured

open Framework Framework.Method

variable {F : Type} (ops : Operations F)

/-! ## What an observation counts -/

/-- The controller accepts the observation. -/
def CorrectableObservation.Accepted (observation : CorrectableObservation F) : Prop :=
  observation.verifierPositions.get < widthSlots ∧ ops.isFinite observation.overlapSum = true

instance (observation : CorrectableObservation F) : Decidable (observation.Accepted ops) :=
  inferInstanceAs (Decidable (_ ∧ _))

/-- The counters after a round, the width slots apart. -/
structure RoundCounted (plan : Option CorrectablePlan) (c c' : CorrectableController F) :
    Prop where
  config : c'.config = c.config
  width : c'.stats.widthRounds = c.stats.widthRounds
  plainRounds : c'.stats.plainRounds = c.stats.plainRounds + if plan = none then 1 else 0
  speculativeRounds : c'.stats.speculativeRounds =
    c.stats.speculativeRounds + if plan = none then 0 else 1
  planRounds : ∀ other : CorrectablePlan, c'.stats.planRounds other.index =
    c.stats.planRounds other.index + if plan = some other then 1 else 0
  plain : c'.plain.rounds = c.plain.rounds + if plan = none then 1 else 0
  plans : ∀ other : CorrectablePlan, (c'.plans other.index).rounds =
    (c.plans other.index).rounds + if plan = some other then 1 else 0

/-- The controller records the round of an observation in its width slot and under its plan. -/
def Recorded (c : CorrectableController F) (observation : CorrectableObservation F)
    (c' : CorrectableController F) : Prop :=
  ∃ (width : Fin widthSlots) (duration : Nat),
    width.val = observation.verifierPositions.get ∧
    RoundCounted observation.plan { c with stats := { c.stats with
      controllerDuration := duration
      widthRounds := Function.update c.stats.widthRounds width
        (c.stats.widthRounds width + 1) } } c'

/-- The round counters are the same. -/
structure SameRounds (c c' : CorrectableController F) : Prop where
  config : c'.config = c.config
  width : c'.stats.widthRounds = c.stats.widthRounds
  plainRounds : c'.stats.plainRounds = c.stats.plainRounds
  speculativeRounds : c'.stats.speculativeRounds = c.stats.speculativeRounds
  planRounds : c'.stats.planRounds = c.stats.planRounds
  plain : c'.plain.rounds = c.plain.rounds
  plans : ∀ plan, (c'.plans plan).rounds = (c.plans plan).rounds

theorem RoundCounted.same {plan : Option CorrectablePlan} {c c₁ c₂ : CorrectableController F}
    (h : RoundCounted plan c c₁) (hsame : SameRounds c₁ c₂) : RoundCounted plan c c₂ := by
  constructor
  · rw [hsame.config, h.config]
  · rw [hsame.width, h.width]
  · rw [hsame.plainRounds, h.plainRounds]
  · rw [hsame.speculativeRounds, h.speculativeRounds]
  · rw [hsame.planRounds]
    exact h.planRounds
  · rw [hsame.plain, h.plain]
  · intro plan
    rw [hsame.plans, h.plans]

/-- The round counters that the observation adds to stay below `2 ^ 64`, and the durations add up. -/
structure HasRoom (c : CorrectableController F) (observation : CorrectableObservation F) :
    Prop where
  duration : c.stats.controllerDuration + observation.controllerDuration ≤ maximumDuration
  width : ∀ width, c.stats.widthRounds width + 1 < 2 ^ 64
  plainRounds : c.stats.plainRounds + 1 < 2 ^ 64
  speculativeRounds : c.stats.speculativeRounds + 1 < 2 ^ 64

theorem index_inj {plan plan' : CorrectablePlan} : plan.index = plan'.index ↔ plan = plan' := by
  cases plan <;> cases plan' <;> decide

section Observe

variable {c : CorrectableController F} {observation : CorrectableObservation F}
  {Q : Unit → CorrectableController F → Prop} {E : Fault ControllerError → CorrectableController F → Prop}

@[simp] theorem ends_modifyStats (f : CorrectableControllerStats F → CorrectableControllerStats F) :
    Ends (CorrectableController.modifyStats f) c Q E ↔ Q () { c with stats := f c.stats } := Iff.rfl

theorem ends_countRound {n : Nat} {rounds : Fin n → Nat} {slot : Fin n}
    {Q : (Fin n → Nat) → CorrectableController F → Prop} (hroom : rounds slot + 1 < 2 ^ 64) :
    Ends (CorrectableController.countRound rounds slot) c Q E ↔
      Q (Function.update rounds slot (rounds slot + 1)) c := by
  have hadd : checkedAdd 64 (rounds slot) 1 = some (rounds slot + 1) := by
    rw [checkedAdd_eq_some]
    exact ⟨hroom, rfl⟩
  simp [CorrectableController.countRound, hadd]

theorem update_rounds (measurement : PlanMeasurement F) (value weight : F)
    (hroom : measurement.rounds + 1 < 2 ^ 64) :
    (CorrectableController.PlanMeasurement.update ops measurement value weight).rounds =
      measurement.rounds + 1 := wrappingAdd_of_lt hroom

/-- The tokens of an observation are counted apart from its rounds. -/
theorem observeTokens_ends (c : CorrectableController F) (observation : CorrectableObservation F) :
    (CorrectableController.observeTokens ops observation).Ends c
      (fun _ c' => ∃ proposed accepted overlap proposals, c' = { c with stats := { c.stats with
        proposedTokens := proposed, acceptedTokens := accepted, overlapSum := overlap
        overlapProposals := proposals } })
      (fun fault c' => fault ≠ .panic ∧ ∃ proposed accepted overlap, c' = { c with
        stats := { c.stats with
          proposedTokens := proposed, acceptedTokens := accepted, overlapSum := overlap } }) := by
  simp only [CorrectableController.observeTokens, ends_bind, ends_get, ends_orErr, ends_modifyStats]
  refine ⟨fun proposed _ => ⟨fun accepted _ => ⟨fun proposals _ => ⟨_, _, _, _, rfl⟩, fun _ => ?_⟩,
    fun _ => ?_⟩, fun _ => ?_⟩
  all_goals exact ⟨Fault.error_ne_panic, _, _, _, rfl⟩

theorem observeWidth_ends {width : Fin widthSlots} (hroom : HasRoom c observation) :
    (CorrectableController.observeWidth observation width).Ends c
      (fun _ c' => c' = { c with stats := { c.stats with
        controllerDuration := c.stats.controllerDuration + observation.controllerDuration
        widthRounds := Function.update c.stats.widthRounds width
          (c.stats.widthRounds width + 1) } })
      (fun _ _ => False) := by
  have hfits : ¬ maximumDuration < c.stats.controllerDuration + observation.controllerDuration :=
    not_lt.mpr hroom.duration
  simp only [CorrectableController.observeWidth, ends_bind, ends_get, hfits, if_false,
    ends_modifyStats]
  rw [ends_countRound (hroom.width width)]

/-- The controller counts rounds as they were observed. -/
structure Counted (config : CorrectableControllerConfig F) (c : CorrectableController F)
    (observed : List (Option CorrectablePlan)) : Prop where
  config : c.config = config
  plain : c.plain.rounds = observed.count none
  plainRounds : c.stats.plainRounds = observed.count none
  plans : ∀ plan : CorrectablePlan, (c.plans plan.index).rounds = observed.count (some plan)
  planRounds : ∀ plan : CorrectablePlan, c.stats.planRounds plan.index = observed.count (some plan)
  speculativeRounds : c.stats.speculativeRounds = observed.countP Option.isSome

theorem count_some_le (observed : List (Option CorrectablePlan)) (plan : CorrectablePlan) :
    observed.count (some plan) ≤ observed.countP Option.isSome := by
  apply List.countP_mono_left
  intro entry _ heq
  rw [beq_iff_eq.mp heq]
  rfl

theorem update_count {n : Nat} (rounds : Fin n → Nat) (slot other : Fin n) :
    Function.update rounds slot (rounds slot + 1) other =
      rounds other + if other = slot then 1 else 0 := by
  by_cases heq : other = slot
  · subst heq
    rw [Function.update_self, if_pos rfl]
  · rw [Function.update_of_ne heq, if_neg heq, Nat.add_zero]

theorem observePlain_ends (value : F) (hplain : c.plain.rounds + 1 < 2 ^ 64)
    (hrounds : c.stats.plainRounds + 1 < 2 ^ 64) :
    (CorrectableController.observePlain ops value).Ends c
      (fun _ c' => c' = { c with
        plain := ⟨c.plain.rounds + 1, (CorrectableController.PlanMeasurement.update ops c.plain value
          c.config.ewmaWeight).nanosecondsPerToken⟩
        stats := { c.stats with plainRounds := c.stats.plainRounds + 1 } })
      (fun _ _ => False) := by
  have hadd : checkedAdd 64 c.stats.plainRounds 1 = some (c.stats.plainRounds + 1) := by
    rw [checkedAdd_eq_some]
    exact ⟨hrounds, rfl⟩
  simp only [CorrectableController.observePlain, ends_bind, ends_modify, ends_get, ends_orErr,
    ends_modifyStats, hadd]
  refine ⟨fun plainRounds heq => ?_, by simp⟩
  obtain rfl := Option.some.inj heq
  rw [← update_rounds ops c.plain value c.config.ewmaWeight hplain]

theorem observeRounds_ends (plan : CorrectablePlan)
    (hrounds : c.stats.speculativeRounds + 1 < 2 ^ 64)
    (hplan : c.stats.planRounds plan.index + 1 < 2 ^ 64) :
    (CorrectableController.observeRounds plan).Ends c
      (fun _ c' => c' = { c with stats := { c.stats with
        speculativeRounds := c.stats.speculativeRounds + 1
        planRounds := Function.update c.stats.planRounds plan.index
          (c.stats.planRounds plan.index + 1) } })
      (fun _ _ => False) := by
  have hadd : checkedAdd 64 c.stats.speculativeRounds 1 = some (c.stats.speculativeRounds + 1) := by
    rw [checkedAdd_eq_some]
    exact ⟨hrounds, rfl⟩
  simp only [CorrectableController.observeRounds, ends_bind, ends_get, ends_orErr,
    ends_modifyStats, hadd]
  refine ⟨fun speculativeRounds heq => ?_, by simp⟩
  obtain rfl := Option.some.inj heq
  rw [ends_countRound hplan]

/-- The tokens and the regret of an observation leave the round counters. -/
theorem observeTokens_regret_ends (c : CorrectableController F)
    (observation : CorrectableObservation F) (durationNs : F) :
    Ends (do
      CorrectableController.observeTokens ops observation
      CorrectableController.observeRegret ops observation durationNs) c
      (fun _ c' => SameRounds c c') (fun fault c' => fault ≠ .panic ∧ SameRounds c c') := by
  simp only [ends_bind]
  apply (observeTokens_ends ops c observation).mono
  · intro _ c' hc'
    obtain ⟨_, _, _, _, rfl⟩ := hc'
    exact ⟨rfl, rfl, rfl, rfl, rfl, rfl, fun _ => rfl⟩
  · intro fault c' hc'
    obtain ⟨hpanic, _, _, _, rfl⟩ := hc'
    exact ⟨hpanic, ⟨rfl, rfl, rfl, rfl, rfl, rfl, fun _ => rfl⟩⟩

theorem observePlan_ends (plan : CorrectablePlan) (durationNs value : F)
    (hrounds : c.stats.speculativeRounds + 1 < 2 ^ 64)
    (hplan : c.stats.planRounds plan.index + 1 < 2 ^ 64)
    (hplans : (c.plans plan.index).rounds + 1 < 2 ^ 64) :
    (CorrectableController.observePlan ops observation plan durationNs value).Ends c
      (fun _ c' => RoundCounted (some plan) c c')
      (fun fault c' => fault ≠ .panic ∧ RoundCounted (some plan) c c') := by
  rw [CorrectableController.observePlan, ends_bind, ends_modify, ends_bind]
  refine (observeRounds_ends plan (by exact hrounds) (by exact hplan)).mono ?_
    fun _ _ hf => hf.elim
  intro _ c₁ hc₁
  have hcounted : RoundCounted (some plan) c c₁ := by
    rw [hc₁]
    refine ⟨rfl, rfl, rfl, rfl, fun other => ?_, rfl, fun other => ?_⟩
    · show Function.update c.stats.planRounds _ _ _ = _
      rw [update_count]
      exact congrArg _ (if_congr (by rw [index_inj, Option.some.injEq, eq_comm]) rfl rfl)
    · show (Function.update c.plans _ _ _).rounds = _
      by_cases heq : other = plan
      · subst heq
        rw [Function.update_self, update_rounds _ _ _ _ hplans, if_pos rfl]
      · rw [Function.update_of_ne (mt index_inj.mp heq), if_neg (by simpa [eq_comm] using heq),
          Nat.add_zero]
  apply (observeTokens_regret_ends ops c₁ observation durationNs).mono
  · intro _ c₂ hsame
    exact hcounted.same hsame
  · intro fault c₂ hfault
    exact ⟨hfault.1, hcounted.same hfault.2⟩

theorem observe_ends {config : CorrectableControllerConfig F}
    {observed : List (Option CorrectablePlan)} (hcounted : Counted config c observed)
    (hroom : HasRoom c observation) :
    (CorrectableController.observe ops observation).Ends c
      (fun _ c' => observation.Accepted ops ∧ Recorded c observation c')
      (fun fault c' => fault ≠ .panic ∧ (observation.Accepted ops ∧ Recorded c observation c' ∨
        ¬ observation.Accepted ops ∧ c' = c)) := by
  by_cases hwidth : observation.verifierPositions.get < widthSlots
  · by_cases hfinite : ops.isFinite observation.overlapSum = true
    · have haccepted : observation.Accepted ops := ⟨hwidth, hfinite⟩
      rw [CorrectableController.observe, dif_pos hwidth, if_pos hfinite]
      dsimp only
      rw [ends_bind]
      refine (observeWidth_ends hroom).mono ?_ fun _ _ hf => hf.elim
      intro _ c₁ hc₁
      -- The width slot is counted; what is left counts under the plan.
      have hrecorded : ∀ c', RoundCounted observation.plan c₁ c' → Recorded c observation c' := by
        intro c' hc'
        rw [hc₁] at hc'
        exact ⟨⟨_, hwidth⟩, _, rfl, hc'⟩
      have hplain : c₁.plain.rounds = c₁.stats.plainRounds := by
        rw [hc₁]
        exact hcounted.plain.trans hcounted.plainRounds.symm
      have hplainRounds : c₁.stats.plainRounds + 1 < 2 ^ 64 := by
        rw [hc₁]
        exact hroom.plainRounds
      have hspeculative : c₁.stats.speculativeRounds + 1 < 2 ^ 64 := by
        rw [hc₁]
        exact hroom.speculativeRounds
      cases hplan : observation.plan with
      | none =>
        refine (observePlain_ends ops _ (hplain ▸ hplainRounds) hplainRounds).mono ?_
          fun _ _ hf => hf.elim
        intro _ c' hc'
        refine ⟨haccepted, hrecorded c' ?_⟩
        rw [hplan, hc']
        exact ⟨rfl, rfl, rfl, rfl, fun _ => rfl, rfl, fun _ => rfl⟩
      | some plan =>
        have hle := count_some_le observed plan
        rw [← hcounted.speculativeRounds] at hle
        have hplanRounds : c₁.stats.planRounds plan.index ≤ c₁.stats.speculativeRounds := by
          rw [hc₁]
          exact (hcounted.planRounds plan).trans_le hle
        have hplans : (c₁.plans plan.index).rounds ≤ c₁.stats.speculativeRounds := by
          rw [hc₁]
          exact (hcounted.plans plan).trans_le hle
        refine (observePlan_ends ops plan _ _ hspeculative (by omega) (by omega)).mono ?_ ?_
        · intro _ c' hc'
          exact ⟨haccepted, hrecorded c' (hplan ▸ hc')⟩
        · intro fault c' hc'
          exact ⟨hc'.1, .inl ⟨haccepted, hrecorded c' (hplan ▸ hc'.2)⟩⟩
    · rw [CorrectableController.observe, dif_pos hwidth, if_neg hfinite, ends_raise]
      exact ⟨nofun, .inr ⟨fun haccepted => hfinite haccepted.2, rfl⟩⟩
  · rw [CorrectableController.observe, dif_neg hwidth, ends_raise]
    exact ⟨nofun, .inr ⟨fun haccepted => hwidth haccepted.1, rfl⟩⟩

end Observe

/-! ## What a decision rests on -/

/-- A decision that the observations so far, the available plans and the maximum width allow. -/
structure Allowed (config : CorrectableControllerConfig F) (observed : List (Option CorrectablePlan))
    (available : CorrectablePlan → Bool) (maximumPositions : Nat)
    (decision : CorrectableDecision) : Prop where
  /-- Speculation is warmed up, uses an available plan and keeps to the width. -/
  speculate : ∀ plan positions reason, decision = .speculate plan positions reason →
    available plan = true ∧ config.plainWarmupRounds.get ≤ observed.count none ∧
      2 ≤ positions ∧ positions ≤ max maximumPositions 2
  /-- After the warm-up a plan that was never observed comes first. -/
  probe : config.plainWarmupRounds.get ≤ observed.count none →
    (∃ plan, available plan = true ∧ observed.count (some plan) = 0) →
    ∃ plan positions, decision = .speculate plan positions .planProbe ∧
      observed.count (some plan) = 0

theorem mem_all (plan : CorrectablePlan) : plan ∈ CorrectablePlan.all := by
  cases plan <;> decide

theorem foldl_greatest_mem {α : Type} (compare : α → α → Ordering) (item : α) (items : List α) :
    items.foldl (fun greatest item => if compare greatest item = .gt then greatest else item) item ∈
      item :: items := by
  induction items generalizing item with
  | nil => exact List.mem_singleton_self _
  | cons head items ih =>
    rw [List.foldl_cons]
    by_cases hgreater : compare item head = .gt
    · rw [if_pos hgreater]
      rcases List.mem_cons.mp (ih item) with heq | hmem
      · exact List.mem_cons.mpr (.inl heq)
      · exact List.mem_cons_of_mem _ (List.mem_cons_of_mem _ hmem)
    · rw [if_neg hgreater]
      exact List.mem_cons_of_mem _ (ih head)

theorem maxBy_mem {α : Type} {compare : α → α → Ordering} {items : List α} {item : α}
    (h : CorrectableController.maxBy compare items = some item) : item ∈ items := by
  cases items with
  | nil => simp [CorrectableController.maxBy] at h
  | cons head items =>
    obtain rfl := Option.some.inj h
    exact foldl_greatest_mem compare head items

theorem speculate_positions (plan : CorrectablePlan) (maximumPositions : Nat) :
    2 ≤ max (min plan.preferredPositions maximumPositions) 2 ∧
      max (min plan.preferredPositions maximumPositions) 2 ≤ max maximumPositions 2 := by
  omega

section Decide

variable {c : CorrectableController F} {config : CorrectableControllerConfig F}
  {observed : List (Option CorrectablePlan)} {available : CorrectablePlan → Bool}
  {maximumPositions : Nat}

theorem bestMeasuredPlan_available {best : CorrectablePlan × F}
    (h : c.bestMeasuredPlan ops available = some best) : available best.1 = true := by
  obtain ⟨plan, hplan, rfl⟩ := List.mem_map.mp (maxBy_mem h)
  have hpassed := (List.mem_filter.mp hplan).2
  rw [Bool.and_eq_true] at hpassed
  exact hpassed.1

/-- A plan to probe is the first available one without a round. -/
theorem probePlan_eq_none (hcounted : Counted config c observed) :
    c.probePlan available = none ↔
      ∀ plan, available plan = true → observed.count (some plan) ≠ 0 := by
  rw [CorrectableController.probePlan, List.find?_eq_none]
  constructor
  · intro h plan havailable
    have hrounds := h plan (mem_all plan)
    rw [havailable, Bool.true_and, beq_iff_eq, hcounted.plans] at hrounds
    exact hrounds
  · intro h plan _ hprobed
    rw [Bool.and_eq_true, beq_iff_eq, hcounted.plans] at hprobed
    exact h plan hprobed.1 hprobed.2

theorem probePlan_eq_some (hcounted : Counted config c observed) {plan : CorrectablePlan}
    (h : c.probePlan available = some plan) :
    available plan = true ∧ observed.count (some plan) = 0 := by
  have hprobed := List.find?_some h
  rw [Bool.and_eq_true, beq_iff_eq, hcounted.plans] at hprobed
  exact hprobed

theorem allowed_speculate (hwarm : config.plainWarmupRounds.get ≤ observed.count none)
    {plan : CorrectablePlan} {reason : CorrectableReason} (havailable : available plan = true)
    (hprobe : (∃ plan, available plan = true ∧ observed.count (some plan) = 0) →
      reason = .planProbe ∧ observed.count (some plan) = 0) :
    Allowed config observed available maximumPositions
      (CorrectableController.speculate plan maximumPositions reason) := by
  have hpositions := speculate_positions plan maximumPositions
  constructor
  · intro plan' positions reason' heq
    obtain ⟨rfl, rfl, -⟩ := CorrectableDecision.speculate.inj heq
    exact ⟨havailable, hwarm, hpositions⟩
  · intro _ hunobserved
    obtain ⟨rfl, hcount⟩ := hprobe hunobserved
    exact ⟨plan, _, rfl, hcount⟩

theorem allowed_plain {reason : CorrectableReason}
    (h : config.plainWarmupRounds.get ≤ observed.count none →
      ∀ plan, available plan = true → observed.count (some plan) ≠ 0) :
    Allowed config observed available maximumPositions (.plain reason) := by
  constructor
  · nofun
  · intro hwarm hunobserved
    obtain ⟨plan, havailable, hcount⟩ := hunobserved
    exact absurd hcount (h hwarm plan havailable)

/-- Counting a plain decision leaves the rounds, or fails without a write. -/
theorem ends_plainDecision {count : Nat} {reason : CorrectableReason}
    {set : Nat → CorrectableControllerStats F → CorrectableControllerStats F}
    (hset : ∀ count, SameRounds c { c with stats := set count c.stats })
    (hallowed : Allowed config observed available maximumPositions (.plain reason)) :
    Ends (do
      let count ← orErr (checkedAdd 64 count 1) ControllerError.countOverflow
      CorrectableController.modifyStats (set count)
      return CorrectableDecision.plain reason) c
      (fun decision c' => SameRounds c c' ∧
        Allowed config observed available maximumPositions decision)
      (fun fault c' => fault ≠ .panic ∧ c' = c) := by
  simp only [ends_bind, ends_orErr, ends_modifyStats, ends_pure]
  exact ⟨fun count _ => ⟨hset count, hallowed⟩, fun _ => ⟨Fault.error_ne_panic, trivial⟩⟩

theorem lateDecision_ends (hcounted : Counted config c observed)
    (hwarm : config.plainWarmupRounds.get ≤ observed.count none) :
    (CorrectableController.lateDecision ops available maximumPositions).Ends c
      (fun decision c' => SameRounds c c' ∧
        Allowed config observed available maximumPositions decision)
      (fun fault c' => fault ≠ .panic ∧ c' = c) := by
  have hsame : SameRounds c c := ⟨rfl, rfl, rfl, rfl, rfl, rfl, fun _ => rfl⟩
  rw [CorrectableController.lateDecision, ends_bind, ends_get]
  cases hprobe : c.probePlan available with
  | some plan =>
    obtain ⟨havailable, hcount⟩ := probePlan_eq_some hcounted hprobe
    exact ⟨hsame, allowed_speculate hwarm havailable fun _ => ⟨rfl, hcount⟩⟩
  | none =>
    have hobserved := (probePlan_eq_none hcounted).mp hprobe
    have hplain : ∀ reason, Allowed config observed available maximumPositions (.plain reason) :=
      fun reason => allowed_plain fun _ => hobserved
    dsimp only
    by_cases hregret : c.regretLimited = true
    · rw [if_pos hregret]
      exact ends_plainDecision (fun _ => ⟨rfl, rfl, rfl, rfl, rfl, rfl, fun _ => rfl⟩)
        (hplain .regretLimit)
    · rw [if_neg hregret, CorrectableController.measuredDecision, ends_bind, ends_get]
      cases hbest : (c.bestMeasuredPlan ops available).filter fun best =>
          ops.le c.config.minimumSpeedup best.2 with
      | some best =>
        have havailable := bestMeasuredPlan_available ops (Option.filter_eq_some_iff.mp hbest).1
        refine ⟨hsame, allowed_speculate hwarm havailable ?_⟩
        intro hunobserved
        obtain ⟨plan, hplan, hcount⟩ := hunobserved
        exact absurd hcount (hobserved plan hplan)
      | none =>
        exact ends_plainDecision (fun _ => ⟨rfl, rfl, rfl, rfl, rfl, rfl, fun _ => rfl⟩)
          (hplain .belowSpeedupGate)

theorem decide_ends (hcounted : Counted config c observed) :
    (CorrectableController.decide ops available maximumPositions).Ends c
      (fun decision c' => SameRounds c c' ∧
        Allowed config observed available maximumPositions decision)
      (fun fault c' => fault ≠ .panic ∧ c' = c) := by
  simp only [CorrectableController.decide, ends_bind, ends_ensure, ends_get]
  refine ⟨fun _ => ?_, fun _ => ⟨Fault.error_ne_panic, trivial⟩⟩
  have hsame : SameRounds c c := ⟨rfl, rfl, rfl, rfl, rfl, rfl, fun _ => rfl⟩
  by_cases hany : CorrectablePlan.all.any available = false
  · have hearly : c.earlyPlainDecision available = some (.plain .noProposal) := if_pos hany
    rw [hearly]
    refine ⟨hsame, allowed_plain fun _ plan havailable => ?_⟩
    have hnone := List.any_eq_false.mp hany plan (mem_all plan)
    exact absurd havailable hnone
  · by_cases hwarm : c.plain.rounds < c.config.plainWarmupRounds.get
    · have hearly : c.earlyPlainDecision available = some (.plain .plainWarmup) := by
        rw [CorrectableController.earlyPlainDecision, if_neg hany, if_pos hwarm]
      rw [hearly]
      rw [hcounted.plain, hcounted.config] at hwarm
      exact ⟨hsame, allowed_plain fun h => absurd h (not_le.mpr hwarm)⟩
    · have hearly : c.earlyPlainDecision available = none := by
        rw [CorrectableController.earlyPlainDecision, if_neg hany, if_neg hwarm]
      rw [hearly]
      rw [hcounted.plain, hcounted.config, not_lt] at hwarm
      exact lateDecision_ends ops hcounted hwarm

end Decide

end Leone.Drafting.Measured

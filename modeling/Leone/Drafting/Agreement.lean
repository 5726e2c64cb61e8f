import Leone.Drafting.Counts

/-!
# When the record of a call is valid

Every round that drafts is counted once by the call and once by the controller of its mode. So
the record of a call is valid exactly when the controller starts without speculative rounds and
the overlaps of the compared rows add up to a number in range.
-/

namespace Leone.Drafting

open Framework

section Agreement

variable {F : Type} {ops : Float64 F}

/-! ## The compared rows -/

/-- The overlap of one round. -/
def roundOverlap (ops : Float64 F) (rows : List (List F × List F)) : F :=
  rows.foldl (fun sum row => ops.add sum (ops.sub ops.one (totalVariation ops row.1 row.2))) ops.zero

/-- The overlap of the rounds of a call. -/
def callOverlap (ops : Float64 F) (compared : List (List (List F × List F))) : F :=
  compared.foldl (fun sum rows => ops.add sum (roundOverlap ops rows)) ops.zero

def comparedRows (compared : List (List (List F × List F))) : Nat := (compared.map List.length).sum

theorem roundOverlap_append (rows : List (List F × List F)) (target draft : List F) :
    roundOverlap ops (rows ++ [(target, draft)]) =
      ops.add (roundOverlap ops rows) (ops.sub ops.one (totalVariation ops target draft)) := by
  rw [roundOverlap, List.foldl_append]
  rfl

theorem callOverlap_append (compared : List (List (List F × List F)))
    (rows : List (List F × List F)) :
    callOverlap ops (compared ++ [rows]) = ops.add (callOverlap ops compared) (roundOverlap ops rows) := by
  rw [callOverlap, List.foldl_append]
  rfl

theorem comparedRows_append (compared : List (List (List F × List F)))
    (rows : List (List F × List F)) :
    comparedRows (compared ++ [rows]) = comparedRows compared + rows.length := by
  simp [comparedRows]

variable (ops) in
/-- Rounds that compare no rows have no overlap. -/
theorem callOverlap_of_nil {compared : List (List (List F × List F))}
    (h : ∀ rows ∈ compared, rows = []) :
    callOverlap ops compared = ops.zero ∧ comparedRows compared = 0 := by
  induction compared using List.reverseRecOn with
  | nil => exact ⟨rfl, rfl⟩
  | append_singleton compared rows ih =>
    obtain ⟨hsum, hcount⟩ := ih fun rows' hrows' => h rows' (List.mem_append_left _ hrows')
    have hrows : rows = [] := h rows (List.mem_append_right _ List.mem_cons_self)
    rw [callOverlap_append, comparedRows_append, hsum, hcount, hrows]
    exact ⟨ops.add_zero, rfl⟩

/-- What the loop over the proposals has counted. -/
structure Examined.Counted (ops : Float64 F) (e : Examined F) : Prop where
  overlapSum : e.overlapSum = roundOverlap ops e.rows
  overlapProposals : e.overlapProposals = e.rows.length

theorem overlap_counted {e : Examined F} (h : e.Counted ops) (target : List F)
    (draft : Option (List F)) :
    (e.overlap ops target draft).Counted ops ∧ (e.overlap ops target draft).accepted = e.accepted ∧
      (e.overlap ops target draft).rows.length ≤ e.rows.length + 1 ∧
      (draft = none → (e.overlap ops target draft).rows = e.rows) := by
  cases draft with
  | none => exact ⟨h, rfl, Nat.le_succ _, fun _ => rfl⟩
  | some draft =>
    refine ⟨⟨?_, ?_⟩, rfl, ?_, by simp⟩
    · simp only [Examined.overlap]
      rw [roundOverlap_append, h.overlapSum]
    · simp [Examined.overlap, h.overlapProposals]
    · simp [Examined.overlap]

variable (ops) in
theorem verifyProposals_ok (drafts : List (Option (List F))) (verdicts : List (Bool × List F))
    {e : Examined F} (h : e.Counted ops) :
    (verifyProposals ops drafts verdicts e).Counted ops ∧
      (verifyProposals ops drafts verdicts e).accepted ≤ e.accepted + drafts.length ∧
      (verifyProposals ops drafts verdicts e).rows.length ≤ e.rows.length + drafts.length ∧
      ((∀ draft ∈ drafts, draft = none) →
        (verifyProposals ops drafts verdicts e).rows = e.rows) := by
  induction drafts generalizing verdicts e with
  | nil => exact ⟨h, Nat.le_refl _, Nat.le_refl _, fun _ => rfl⟩
  | cons draft drafts ih =>
    obtain ⟨hcounted, haccepted, hrows, hnone⟩ :=
      overlap_counted h (verdicts.headD (false, [])).2 draft
    rw [verifyProposals]
    simp only [List.length_cons, List.forall_mem_cons]
    split
    · -- an accepted proposal goes on to the next one
      obtain ⟨hcounted', haccepted', hrows', hnone'⟩ := ih verdicts.tail (e :=
        { e.overlap ops (verdicts.headD (false, [])).2 draft with
          accepted := (e.overlap ops (verdicts.headD (false, [])).2 draft).accepted + 1 })
        ⟨hcounted.overlapSum, hcounted.overlapProposals⟩
      refine ⟨hcounted', ?_, ?_, fun hall => ?_⟩
      · apply haccepted'.trans
        change (e.overlap ops _ draft).accepted + 1 + drafts.length ≤ _
        rw [haccepted]
        omega
      · apply hrows'.trans
        change (e.overlap ops _ draft).rows.length + drafts.length ≤ _
        omega
      · exact (hnone' hall.2).trans (hnone hall.1)
    · refine ⟨⟨hcounted.overlapSum, hcounted.overlapProposals⟩, ?_, ?_, fun hall => hnone hall.1⟩
      · simp only [haccepted]
        omega
      · simp only
        omega

variable (ops) in
/-- What one drafted round counts. -/
theorem speculativeRound_ok (draft : GenerationDraft F) (verdicts : List (Bool × List F))
    (batched : Bool) (hlength : draft.rows.length = draft.drafted.length) :
    let outcome := speculativeRound ops draft verdicts batched
    outcome.accepted ≤ outcome.proposed ∧ outcome.proposed = draft.drafted.length ∧
      outcome.overlapSum = roundOverlap ops outcome.rows ∧
      outcome.overlapProposals = outcome.rows.length ∧
      outcome.rows.length ≤ outcome.proposed ∧
      (draft.correctableDistributions = none → outcome.rows = []) := by
  obtain ⟨hcounted, haccepted, hrows, hnone⟩ := verifyProposals_ok ops draft.rows verdicts
    (e := ⟨0, ops.zero, 0, false, []⟩) ⟨rfl, rfl⟩
  rw [hlength] at haccepted hrows
  simp only [List.length_nil, Nat.zero_add] at haccepted hrows
  refine ⟨haccepted, rfl, hcounted.overlapSum, hcounted.overlapProposals, hrows, fun hplain => ?_⟩
  apply hnone
  intro row hrow
  rw [GenerationDraft.rows, hplain] at hrow
  obtain ⟨token, -, rfl⟩ := List.mem_map.mp hrow
  rfl

/-! ## Drafts -/

/-- The positions of a round agree with its draft. -/
structure GenerationDraft.Agrees (draft : GenerationDraft F) : Prop where
  length : draft.rows.length = draft.drafted.length
  adaptive : ∀ positions, draft.adaptiveRound = some positions →
    0 < positions ∧ (positions = 1 ↔ draft.drafted = [])
  correctable : ∀ plan positions, draft.correctableRound = some (plan, positions) →
    draft.drafted = [] ∧ plan = none ∧ positions = 1 ∨
      draft.drafted ≠ [] ∧ plan.isSome ∧ 2 ≤ positions

theorem plain_agrees : (⟨[], some 1, none, none⟩ : GenerationDraft F).Agrees :=
  ⟨rfl, fun positions h => by cases h; simp, nofun⟩

theorem recordProposal_ok {c c' : AdaptiveController}
    {proposal : Option (ProposalSource × List Token)} (h : recordProposal c proposal = .ok c') :
    c.SameRounds c' := by
  unfold recordProposal at h
  split at h
  · cases h
    exact ⟨rfl, rfl, rfl⟩
  · exact AdaptiveController.recordSource_ok h

theorem onController_eq_ok {α : Type} {r : Except ControllerError α} {a : α} :
    onController r = .ok a ↔ r = .ok a := by
  cases r with
  | ok b => simp [onController, Except.mapError]
  | error e => simp [onController, Except.mapError]

theorem adaptiveGenerationDraft_ok {input : RoundInput F} {maxTokens tokens : Nat}
    {c c' : AdaptiveController} {draft : GenerationDraft F}
    (h : adaptiveGenerationDraft input maxTokens tokens c = .ok (draft, c')) :
    c.SameRounds c' ∧ draft.Agrees ∧ draft.adaptiveRound.isSome ∧ draft.correctableRound = none ∧
      draft.correctableDistributions = none := by
  unfold adaptiveGenerationDraft at h
  obtain ⟨recorded, hrecord, h⟩ := bind_eq_ok.mp h
  have hsame := recordProposal_ok (onController_eq_ok.mp hrecord)
  obtain ⟨hdecide, hwidth⟩ := recorded.decide_ok
    (proposedTokens (truncateProposal input.proposal (availableProposals maxTokens tokens))).length
    input.adaptiveTiming
  split at h
  · next c₁ heq =>
    cases h
    rw [heq] at hdecide
    exact ⟨⟨hdecide.1.trans hsame.1, hdecide.2.1.trans hsame.2.1, hdecide.2.2.trans hsame.2.2⟩,
      plain_agrees, rfl, rfl, rfl⟩
  · next width c₁ heq =>
    cases h
    rw [heq] at hdecide hwidth
    obtain ⟨htwo, hle⟩ := hwidth width rfl
    refine ⟨⟨hdecide.1.trans hsame.1, hdecide.2.1.trans hsame.2.1, hdecide.2.2.trans hsame.2.2⟩,
      ⟨by simp [GenerationDraft.rows], fun positions hpositions => ?_, nofun⟩, rfl, rfl, rfl⟩
    cases hpositions
    refine ⟨by omega, fun hone => by omega, fun hnil => ?_⟩
    have := congrArg List.length hnil
    simp only [List.length_take, List.length_nil] at this
    omega

theorem correctableGenerationDraft_ok {maximumProposalTokens : Nat} {input : RoundInput F}
    {maxTokens tokens : Nat} {c c' : CorrectableController F} {draft : GenerationDraft F}
    (h : correctableGenerationDraft maximumProposalTokens input maxTokens tokens c =
      .ok (draft, c')) :
    c.SameRounds c' ∧ draft.Agrees ∧ draft.adaptiveRound = none ∧ draft.correctableRound.isSome := by
  unfold correctableGenerationDraft at h
  obtain ⟨⟨decision, c₁⟩, hdecide, h⟩ := bind_eq_ok.mp h
  obtain ⟨hsame, hpositions⟩ := CorrectableController.decide_ok (onController_eq_ok.mp hdecide)
  have hplain : (⟨[], none, some (none, 1), none⟩ : GenerationDraft F).Agrees :=
    ⟨rfl, nofun, fun plan positions h => by cases h; simp⟩
  cases decision with
  | none =>
    cases h
    exact ⟨hsame, hplain, rfl, rfl⟩
  | some decision =>
    obtain ⟨plan, positions⟩ := decision
    simp only at h
    split at h
    · cases h
      exact ⟨hsame, hplain, rfl, rfl⟩
    · next steps hsteps =>
      cases h
      have hne : steps ≠ [] := by
        unfold propose at hsteps
        simp only at hsteps
        split at hsteps
        · cases hsteps
        · next hempty =>
          cases hsteps
          simpa using hempty
      refine ⟨hsame, ⟨by simp [GenerationDraft.rows], nofun, fun plan' positions' h => ?_⟩, rfl, rfl⟩
      cases h
      refine .inr ⟨by simpa using hne, rfl, ?_⟩
      have := List.length_pos_of_ne_nil hne
      omega

/-! ## The emitted tokens of a round -/

theorem emitGenerationTokens_pos {maxTokens committed tokens : Nat} (h : 0 < committed)
    (ends : List Bool) : tokens < emitGenerationTokens maxTokens committed tokens ends := by
  induction committed generalizing tokens ends with
  | zero => exact absurd h (Nat.lt_irrefl 0)
  | succ committed ih =>
    rw [emitGenerationTokens]
    split
    · exact Nat.lt_succ_self _
    · cases committed with
      | zero => exact Nat.lt_succ_self _
      | succ committed => exact (Nat.lt_succ_self _).trans (ih (Nat.succ_pos _) _)

/-! ## One call -/

/-- The statistics of a call agree with the rows that it compared. -/
structure StatsAgree (ops : Float64 F) (s : SpeculationStats F)
    (compared : List (List (List F × List F))) : Prop where
  accepted : s.accepted ≤ s.proposed
  rounds : s.rounds = 0 → s.proposed = 0
  width : s.draftWidth = 0 → s.proposed = 0
  passes : s.verifyPasses ≤ s.rounds
  verified : s.verifyPasses = 0 → s.verifiedPositions = 0
  adaptive : s.adaptive = AdaptiveController.new.stats
  correctable : s.correctable = { (CorrectableController.new ops).stats with
    overlapSum := callOverlap ops compared, overlapProposals := comparedRows compared }
  compared : comparedRows compared ≤ s.proposed

theorem StatsAgree.record {s : SpeculationStats F} {compared : List (List (List F × List F))}
    {outcome : SpeculationOutcome F} (h : StatsAgree ops s compared)
    (haccepted : outcome.accepted ≤ outcome.proposed) (hpos : 0 < outcome.proposed)
    (hsum : outcome.overlapSum = roundOverlap ops outcome.rows)
    (hcount : outcome.overlapProposals = outcome.rows.length)
    (hrows : outcome.rows.length ≤ outcome.proposed) :
    StatsAgree ops (recordGenerationOutcome ops outcome s) (compared ++ [outcome.rows]) := by
  have hrounds := h.rounds
  have hpasses := h.passes
  have hverified := h.verified
  refine ⟨Nat.add_le_add h.accepted haccepted, nofun, ?_, ?_, ?_, h.adaptive, ?_, ?_⟩
  · simp only [recordGenerationOutcome]
    omega
  · simp only [recordGenerationOutcome]
    split <;> omega
  · simp only [recordGenerationOutcome]
    split
    · nofun
    · intro hnone
      rw [hverified hnone]
      omega
  · simp only [recordGenerationOutcome]
    rw [h.correctable, callOverlap_append, comparedRows_append, hsum, hcount]
  · rw [comparedRows_append]
    exact Nat.add_le_add h.compared hrows

/-- The speculative rounds that the controller of a mode has observed before a call. -/
def priorRounds (session : SessionControllers F) : Speculation → Nat
  | .adaptive => (session.adaptive.map (·.stats.speculativeRounds)).getD 0
  | .correctable _ => (session.correctable.map (·.stats.speculativeRounds)).getD 0
  | _ => 0

/-- The controller of a call agrees with what the call has counted. -/
def ControllersAgree (ops : Float64 F) (mode : Speculation) (session : SessionControllers F)
    (s : DecodeState F) : Prop :=
  match mode with
  | .adaptive => (∀ rows ∈ s.compared, rows = []) ∧ ∃ c, s.controllers = ⟨some c, none⟩ ∧ c.Counted ∧
      c.stats.speculativeRounds = priorRounds session .adaptive + s.stats.rounds
  | .correctable n => ∃ c, s.controllers = ⟨none, some c⟩ ∧ c.Counted ops ∧
      c.stats.speculativeRounds = priorRounds session (.correctable n) + s.stats.rounds ∧
      (priorRounds session (.correctable n) = 0 →
        c.stats.overlapSum = callOverlap ops s.compared ∧
          c.stats.overlapProposals = comparedRows s.compared)
  | _ => (∀ rows ∈ s.compared, rows = []) ∧ s.controllers = ⟨none, none⟩

/-- The outcome of a round that drafts. -/
structure Drafted (ops : Float64 F) (draft : GenerationDraft F) (outcome : SpeculationOutcome F) :
    Prop where
  accepted : outcome.accepted ≤ outcome.proposed
  proposed : 0 < outcome.proposed
  overlapSum : outcome.overlapSum = roundOverlap ops outcome.rows
  overlapProposals : outcome.overlapProposals = outcome.rows.length
  rows : outcome.rows.length ≤ outcome.proposed
  plain : draft.correctableDistributions = none → outcome.rows = []

variable (ops) in
/-- A round has an outcome exactly when it drafts. -/
theorem runGenerationStep_ok {draft : GenerationDraft F} (input : RoundInput F)
    (h : draft.rows.length = draft.drafted.length) :
    draft.drafted = [] ∧ runGenerationStep ops draft input = none ∨
      draft.drafted ≠ [] ∧ ∃ outcome, runGenerationStep ops draft input = some outcome ∧
        Drafted ops draft outcome := by
  unfold runGenerationStep
  by_cases hempty : draft.drafted = []
  · rw [if_pos hempty]
    exact .inl ⟨hempty, rfl⟩
  · rw [if_neg hempty]
    obtain ⟨haccepted, hproposed, hsum, hcount, hrows, hplain⟩ :=
      speculativeRound_ok ops draft input.verdicts input.batched h
    refine .inr ⟨hempty, _, rfl, haccepted, ?_, hsum, hcount, hrows, hplain⟩
    rw [hproposed]
    exact List.length_pos_of_ne_nil hempty

/-- The statistics, the compared rows and the committed tokens after an outcome. -/
def statsAfter (ops : Float64 F) (outcome : Option (SpeculationOutcome F)) (s : SpeculationStats F) :
    SpeculationStats F :=
  match outcome with
  | none => s
  | some outcome => recordGenerationOutcome ops outcome s

/-- The parts of a round. -/
theorem runGenerationRound_ok {mode : Speculation} {maxTokens : Nat} {input : RoundInput F}
    {s s' : DecodeState F} (h : runGenerationRound ops mode maxTokens input s = .ok s') :
    ∃ draft controllers controllers' committed, committed ≠ 0 ∧
      chooseGenerationDraft mode input maxTokens s.tokens s.controllers = .ok (draft, controllers) ∧
      observeAdaptive draft.adaptiveRound committed controllers = .ok controllers' ∧
      observeCorrectable ops draft.correctableRound committed (runGenerationStep ops draft input)
        controllers' = .ok s'.controllers ∧
      s'.stats = statsAfter ops (runGenerationStep ops draft input) s.stats ∧
      s'.compared = s.compared ++ ((runGenerationStep ops draft input).map (·.rows)).toList := by
  unfold runGenerationRound at h
  obtain ⟨⟨draft, controllers⟩, hdraft, h⟩ := bind_eq_ok.mp h
  obtain ⟨controllers', hadaptive, h⟩ := bind_eq_ok.mp h
  obtain ⟨controllers'', hcorrectable, h⟩ := bind_eq_ok.mp h
  cases h
  refine ⟨draft, controllers, controllers', _, ?_, hdraft, hadaptive, hcorrectable, rfl, rfl⟩
  apply Nat.sub_ne_zero_of_lt
  apply emitGenerationTokens_pos
  split
  · exact Nat.one_pos
  · exact Nat.succ_pos _

theorem observeAdaptive_some {positions committed : Nat} {c : AdaptiveController}
    {controllers : Controllers F} (hcommitted : committed ≠ 0)
    (h : observeAdaptive (some positions) committed (⟨some c, none⟩ : Controllers F) =
      .ok controllers) :
    ∃ c', c.observe positions = .ok c' ∧ controllers = ⟨some c', none⟩ := by
  simp only [observeAdaptive, if_neg hcommitted] at h
  obtain ⟨c', hobserve, h⟩ := bind_eq_ok.mp h
  exact ⟨c', onController_eq_ok.mp hobserve, (Except.ok.inj h).symm⟩

theorem observeCorrectable_some {plan : Option CorrectablePlan} {positions committed : Nat}
    {outcome : Option (SpeculationOutcome F)} {c : CorrectableController F}
    {controllers : Controllers F} (hcommitted : committed ≠ 0)
    (h : observeCorrectable ops (some (plan, positions)) committed outcome
      (⟨none, some c⟩ : Controllers F) = .ok controllers) :
    ∃ c', c.observe ops ⟨plan, positions, (outcome.map (·.proposed)).getD 0,
        (outcome.map (·.accepted)).getD 0, (outcome.map (·.overlapSum)).getD ops.zero,
        (outcome.map (·.overlapProposals)).getD 0⟩ = .ok c' ∧ controllers = ⟨none, some c'⟩ := by
  simp only [observeCorrectable, if_neg hcommitted] at h
  obtain ⟨c', hobserve, h⟩ := bind_eq_ok.mp h
  exact ⟨c', onController_eq_ok.mp hobserve, (Except.ok.inj h).symm⟩

/-- The statistics after a round. -/
theorem statsAgree_step {s : SpeculationStats F} {compared : List (List (List F × List F))}
    {draft : GenerationDraft F} (input : RoundInput F) (h : StatsAgree ops s compared)
    (hlength : draft.rows.length = draft.drafted.length) :
    StatsAgree ops (statsAfter ops (runGenerationStep ops draft input) s)
      (compared ++ ((runGenerationStep ops draft input).map (·.rows)).toList) := by
  rcases runGenerationStep_ok ops input hlength with
    ⟨-, hnone⟩ | ⟨-, outcome, hsome, hdrafted⟩
  · rw [hnone]
    simpa [statsAfter] using h
  · rw [hsome]
    exact h.record hdrafted.accepted hdrafted.proposed hdrafted.overlapSum
      hdrafted.overlapProposals hdrafted.rows

theorem compared_nil {compared : List (List (List F × List F))} {draft : GenerationDraft F}
    (input : RoundInput F) (h : ∀ rows ∈ compared, rows = [])
    (hlength : draft.rows.length = draft.drafted.length)
    (hplain : draft.correctableDistributions = none) :
    ∀ rows ∈ compared ++ ((runGenerationStep ops draft input).map (·.rows)).toList, rows = [] := by
  intro rows hrows
  rcases List.mem_append.mp hrows with hrows | hrows
  · exact h rows hrows
  · rcases runGenerationStep_ok ops input hlength with
      ⟨-, hnone⟩ | ⟨-, outcome, hsome, hdrafted⟩
    · rw [hnone] at hrows
      cases hrows
    · rw [hsome] at hrows
      obtain rfl : rows = outcome.rows := by simpa using hrows
      exact hdrafted.plain hplain

/-- A round keeps the statistics and the controller in step. -/
theorem round_agree {mode : Speculation} {session : SessionControllers F} {maxTokens : Nat}
    {input : RoundInput F} {s s' : DecodeState F}
    (h : StatsAgree ops s.stats s.compared ∧ ControllersAgree ops mode session s)
    (hround : runGenerationRound ops mode maxTokens input s = .ok s') :
    StatsAgree ops s'.stats s'.compared ∧ ControllersAgree ops mode session s' := by
  obtain ⟨hstats, hcontrollers⟩ := h
  obtain ⟨draft, controllers, controllers', committed, hcommitted, hdraft, hadaptive, hcorrectable,
    hstats', hcompared'⟩ := runGenerationRound_ok hround
  cases mode with
  | disabled =>
    obtain ⟨hnil, hnone⟩ := hcontrollers
    cases hdraft
    rw [hnone] at hadaptive
    cases hadaptive
    have hlength : (plainGenerationDraft : GenerationDraft F).rows.length = 0 := rfl
    show _ ∧ (∀ rows ∈ s'.compared, rows = []) ∧ s'.controllers = ⟨none, none⟩
    rw [hstats', hcompared', ← Except.ok.inj hcorrectable]
    exact ⟨statsAgree_step input hstats hlength, compared_nil input hnil hlength rfl, rfl⟩
  | suffix =>
    obtain ⟨hnil, hnone⟩ := hcontrollers
    cases hdraft
    rw [hnone] at hadaptive
    cases hadaptive
    show _ ∧ (∀ rows ∈ s'.compared, rows = []) ∧ s'.controllers = ⟨none, none⟩
    rw [hstats', hcompared', ← Except.ok.inj hcorrectable]
    exact ⟨statsAgree_step input hstats (by simp [GenerationDraft.rows]),
      compared_nil input hnil (by simp [GenerationDraft.rows]) rfl, rfl⟩
  | adaptive =>
    obtain ⟨hnil, c, hsome, hcounted, hspeculative⟩ := hcontrollers
    rw [hsome] at hdraft
    obtain ⟨⟨draft', c₁⟩, hchosen, hok⟩ := bind_eq_ok.mp hdraft
    cases hok
    obtain ⟨hsame, hagrees, hround, hother, hplain⟩ := adaptiveGenerationDraft_ok hchosen
    obtain ⟨positions, hpositions⟩ := Option.isSome_iff_exists.mp hround
    obtain ⟨hpos, hone⟩ := hagrees.adaptive positions hpositions
    rw [hpositions] at hadaptive
    obtain ⟨c₂, hobserve, rfl⟩ := observeAdaptive_some hcommitted hadaptive
    obtain ⟨hcounted', hrounds⟩ := AdaptiveController.observe_ok (hcounted.same hsame) hpos hobserve
    rw [hother] at hcorrectable
    rw [ControllersAgree, hstats', hcompared', ← Except.ok.inj hcorrectable]
    refine ⟨statsAgree_step input hstats hagrees.length,
      compared_nil input hnil hagrees.length hplain, c₂, rfl, hcounted', ?_⟩
    rw [hrounds, hsame.2.2, hspeculative]
    rcases runGenerationStep_ok ops input hagrees.length with
      ⟨hempty, hnone⟩ | ⟨hne, outcome, hsome', -⟩
    · rw [if_pos (hone.mpr hempty), hnone]
      rfl
    · rw [if_neg (fun heq => hne (hone.mp heq)), hsome']
      rfl
  | correctable n =>
    obtain ⟨c, hsome, hcounted, hspeculative, hoverlap⟩ := hcontrollers
    rw [hsome] at hdraft
    obtain ⟨⟨draft', c₁⟩, hchosen, hok⟩ := bind_eq_ok.mp hdraft
    cases hok
    obtain ⟨hsame, hagrees, hother, hround⟩ := correctableGenerationDraft_ok hchosen
    obtain ⟨⟨plan, positions⟩, hpositions⟩ := Option.isSome_iff_exists.mp hround
    rw [hother] at hadaptive
    cases hadaptive
    rw [hpositions] at hcorrectable
    obtain ⟨c₂, hobserve, hkept⟩ := observeCorrectable_some hcommitted hcorrectable
    rw [ControllersAgree, hstats', hcompared', hkept]
    refine ⟨statsAgree_step input hstats hagrees.length, c₂, rfl, ?_⟩
    obtain ⟨hwidths, hplain, hsame₁, hplans, hsum₁, hproposals₁⟩ := hsame
    have hcounted₁ := hcounted.same ⟨hwidths, hplain, hsame₁, hplans, hsum₁, hproposals₁⟩
    rcases hagrees.correctable plan positions hpositions with
      ⟨hempty, rfl, rfl⟩ | ⟨hne, hplan, htwo⟩
    · obtain ⟨hcounted₂, hkeep⟩ := CorrectableController.observe_ok hcounted₁ (.inl ⟨rfl, rfl⟩) hobserve
      obtain ⟨hrounds, hsum, hproposals⟩ := hkeep
      rcases runGenerationStep_ok ops input hagrees.length with
        ⟨-, hnone⟩ | ⟨hne, -⟩
      · rw [hnone]
        refine ⟨hcounted₂, ?_, ?_⟩
        · rw [hrounds, hsame₁, hspeculative]
          rfl
        · rw [hsum, hproposals, hsum₁, hproposals₁]
          simpa using hoverlap
      · exact absurd hempty hne
    · obtain ⟨hcounted₂, hmore⟩ := CorrectableController.observe_ok hcounted₁ (.inr ⟨hplan, htwo⟩) hobserve
      rw [if_pos hplan] at hmore
      obtain ⟨hrounds, hsum, hproposals⟩ := hmore
      rcases runGenerationStep_ok ops input hagrees.length with
        ⟨hempty, -⟩ | ⟨-, outcome, hsome', hdrafted⟩
      · exact absurd hempty hne
      · rw [hsome'] at hsum hproposals ⊢
        refine ⟨hcounted₂, ?_, fun hprior => ?_⟩
        · rw [hrounds, hsame₁, hspeculative]
          rfl
        · obtain ⟨hcallSum, hcallCount⟩ := hoverlap hprior
          simp only [Option.map_some, Option.getD_some, Option.toList_some] at hsum hproposals ⊢
          rw [hsum, hproposals, hsum₁, hproposals₁, hcallSum, hcallCount, callOverlap_append,
            comparedRows_append, hdrafted.overlapSum, hdrafted.overlapProposals]
          exact ⟨rfl, rfl⟩

theorem iterations_agree {mode : Speculation} {session : SessionControllers F} {maxTokens : Nat}
    {inputs : List (RoundInput F)} {s s' : DecodeState F}
    (h : StatsAgree ops s.stats s.compared ∧ ControllersAgree ops mode session s)
    (hrun : runGenerationIterations ops mode maxTokens inputs s = .ok s') :
    StatsAgree ops s'.stats s'.compared ∧ ControllersAgree ops mode session s' := by
  induction inputs generalizing s with
  | nil =>
    cases hrun
    exact h
  | cons input inputs ih =>
    rw [runGenerationIterations] at hrun
    split at hrun
    · obtain ⟨s₁, hround, hrun⟩ := bind_eq_ok.mp hrun
      exact ih (round_agree h hround) hrun
    · cases hrun
      exact h

end Agreement

end Leone.Drafting

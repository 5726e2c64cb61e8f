import Leone.Session.Segment

/-!
# Advances of a pending prefill

A pending prefill determines the evaluator that its remaining segments lead to. An advance moves
towards it by at least one prompt position and at most the budget, and does not change it.
-/

namespace Leone.Session

open Framework Kv

/-! ## Ranges of the prompt -/

/-- The tokens of a prompt range. -/
def promptRange (prompt : List Token) (offset stop : Nat) : List Token := (prompt.take stop).drop offset

theorem length_promptRange {prompt : List Token} {stop : Nat} (h : stop ≤ prompt.length) (offset : Nat) :
    (promptRange prompt offset stop).length = stop - offset := by
  rw [promptRange, List.length_drop, List.length_take_of_le h]

theorem promptRange_split {prompt now later : List Token} {offset stop : Nat}
    (h : promptRange prompt offset stop = now ++ later) :
    promptRange prompt (offset + now.length) stop = later ∧
      (offset ≤ stop → prompt.take offset ++ now = prompt.take (offset + now.length)) := by
  constructor
  · rw [promptRange, ← List.drop_drop]
    rw [promptRange] at h
    rw [h, List.drop_left]
  · intro hle
    have hnow : now = ((prompt.drop offset).take (stop - offset)).take now.length := by
      rw [← List.drop_take]
      rw [promptRange] at h
      rw [h, List.take_left]
    have hlen : now.length ≤ stop - offset := by
      rw [hnow]
      simp only [List.length_take]
      omega
    rw [List.take_take, Nat.min_eq_left hlen] at hnow
    rw [List.take_add, ← hnow]

/-- A prefill that has evaluated the prompt up to an offset of a segment. -/
structure Reached (prompt : List Token) (e : Evaluator) (offset stop : Nat)
    (prepared : PreparedPrefill) : Prop where
  tokens : e.cache.tokens = prompt.take offset
  offset_le : offset ≤ stop
  stop_le : stop ≤ prompt.length
  fits : prepared.Fits (stop - offset)

section Range

variable {prompt : List Token} {e : Evaluator} {offset stop : Nat} {prepared : PreparedPrefill}

theorem position_eq_length (c : KvCache) : c.position = c.tokens.length := by
  rw [KvCache.tokens, List.length_map]
  rfl

theorem Reached.position (h : Reached prompt e offset stop prepared) :
    e.cache.position = offset := by
  rw [position_eq_length, h.tokens, List.length_take_of_le (h.offset_le.trans h.stop_le)]

theorem advancePrefillRange_ok {start processed budget : Nat} (initial : Bool)
    (h : Reached prompt e (start + processed) stop prepared)
    (hroom : prompt.length ≤ e.cache.shape.maxContext) (hsize : prompt.length < 2 ^ 64)
    (hbudget : minimumCount (some prepared) (stop - start - processed) ≤ budget) :
    ∃ count e', advancePrefillRange prompt e start stop processed prepared initial budget =
        .ok (⟨count, decide (start + processed + count = stop)⟩, processed + count, e') ∧
      count ≤ budget ∧ (start + processed < stop → 0 < count) ∧
      start + processed + count ≤ stop ∧
      (stop - (start + processed) ≤ budget → start + processed + count = stop) ∧
      (start + processed + count < stop →
        Reached prompt e' (start + processed + count) stop prepared) ∧
      e'.cache.tokens = prompt.take (start + processed + count) ∧
      e'.cache.shape = e.cache.shape ∧
      e'.finish prepared initial (promptRange prompt (start + processed + count) stop) =
        e.finish prepared initial (promptRange prompt (start + processed) stop) := by
  have hlen := length_promptRange h.stop_le (start + processed)
  have hposition := h.position
  have hle := h.offset_le
  have hstop := h.stop_le
  obtain ⟨now, later, e', hsplit, hsplits, hcount, hstep, hall, hrun, hfinish, htokens, hshape⟩ :=
    @runPromptPrefillBounded_ok prepared initial (promptRange prompt (start + processed) stop) budget e
      (by rw [hlen]; exact h.fits) (by omega) (by rw [hlen, ← Nat.sub_sub]; exact hbudget)
  obtain ⟨hlater, hfront⟩ := promptRange_split hsplit
  rw [hsplit, List.length_append] at hlen
  have hdone : (later = []) = (start + processed + now.length = stop) := by
    rw [← List.length_eq_zero_iff]
    apply propext
    omega
  have hreached : e'.cache.tokens = prompt.take (start + processed + now.length) := by
    rw [htokens, h.tokens, hfront hle]
  refine ⟨now.length, e', ?_, hcount, ?_, by omega, ?_, ?_, hreached, hshape, ?_⟩
  · rw [advancePrefillRange, checkedAdd, if_pos (by omega)]
    simp only
    rw [if_neg (by omega)]
    rw [promptRange] at hrun
    simp only [hrun, hdone, bind, Except.bind]
    rw [checkedAdd, if_pos (by omega)]
    rfl
  · intro hlt
    apply List.length_pos_of_ne_nil
    apply hstep
    intro hnil
    rw [hsplit] at hnil
    have := congrArg List.length hnil
    rw [List.length_append, List.length_nil] at this
    omega
  · intro hfit
    have := hall (by rw [hsplit, List.length_append]; omega)
    rwa [hdone] at this
  · intro hlt
    have hne : later ≠ [] := by
      intro hnil
      rw [hnil, List.length_nil] at hlen
      omega
    refine ⟨hreached, by omega, hstop, ?_⟩
    have hfits := fits_later (by rw [List.length_append, hlen]; exact h.fits) hsplits hne
    rwa [show later.length = stop - (start + processed + now.length) by omega] at hfits
  · rw [hlater, hfinish]

end Range

/-! ## Pending prefills -/

/-- A stage that agrees with what has been evaluated. Only a single stage can have nothing left. -/
def PendingPrefillStage.WellFormed (stage : PendingPrefillStage) (prompt : List Token)
    (e : Evaluator) : Prop :=
  match stage with
  | .single start stop processed prepared =>
    stop = prompt.length ∧ Reached prompt e (start + processed) stop prepared
  | .continuation start stop processed prepared =>
    stop = prompt.length ∧ start + processed < stop ∧
      Reached prompt e (start + processed) stop prepared
  | .replay boundary processed prepared =>
    processed < boundary ∧ Reached prompt e (0 + processed) boundary prepared
  | .done => e.cache.tokens = prompt

structure PendingPrefill.WellFormed (p : PendingPrefill) : Prop where
  room : p.promptTokens.length ≤ p.evaluator.cache.shape.maxContext
  size : p.promptTokens.length < 2 ^ 64
  stage : p.stage.WellFormed p.promptTokens p.evaluator

/-- The evaluator that the remaining segments lead to. -/
def PendingPrefill.target (p : PendingPrefill) : Evaluator :=
  match p.stage with
  | .single start stop processed prepared =>
    p.evaluator.finish prepared (start == 0) (promptRange p.promptTokens (start + processed) stop)
  | .continuation start stop processed prepared =>
    p.evaluator.finish prepared false (promptRange p.promptTokens (start + processed) stop)
  | .replay boundary processed prepared =>
    (p.evaluator.finish prepared true (promptRange p.promptTokens (0 + processed) boundary)).finish
      .sequential false (p.promptTokens.drop boundary)
  | .done => p.evaluator

def PendingPrefill.position (p : PendingPrefill) : Nat := p.evaluator.cache.position

/-- What an advance keeps. -/
structure Moved (p p' : PendingPrefill) (count : Nat) : Prop where
  prompt : p'.promptTokens = p.promptTokens
  reuse : p'.reuse = p.reuse
  wellFormed : p'.WellFormed
  target : p'.target = p.target
  position : p'.position = p.position + count

theorem Moved.trans {p p' p'' : PendingPrefill} {count count' : Nat} (h : Moved p p' count)
    (h' : Moved p' p'' count') : Moved p p'' (count + count') :=
  ⟨h'.prompt.trans h.prompt, h'.reuse.trans h.reuse, h'.wellFormed, h'.target.trans h.target, by
    rw [h'.position, h.position, Nat.add_assoc]⟩

theorem position_le {p : PendingPrefill} (h : p.WellFormed) :
    p.position ≤ p.promptTokens.length := by
  have hstage := h.stage
  rw [PendingPrefill.position]
  cases hcase : p.stage with
  | single start stop processed prepared =>
    rw [hcase] at hstage
    rw [hstage.2.position, ← hstage.1]
    exact hstage.2.offset_le
  | continuation start stop processed prepared =>
    rw [hcase] at hstage
    rw [hstage.2.2.position, ← hstage.1]
    exact hstage.2.2.offset_le
  | replay boundary processed prepared =>
    rw [hcase] at hstage
    rw [hstage.2.position]
    exact hstage.2.offset_le.trans hstage.2.stop_le
  | done =>
    rw [hcase] at hstage
    rw [position_eq_length, hstage]

/-- The stages that an advance still goes through. -/
def PendingPrefillStage.left : PendingPrefillStage → Nat
  | .replay _ _ _ => 2
  | .single _ _ _ _ => 1
  | .continuation _ _ _ _ => 1
  | .done => 0

theorem left_pos {stage : PendingPrefillStage} (h : stage ≠ .done) : 0 < stage.left := by
  cases stage with
  | done => exact absurd rfl h
  | _ => simp [PendingPrefillStage.left]

/-- What a part of a stage leaves, before the advance goes on. -/
structure Part (p p' : PendingPrefill) (budget : Nat) (execution : PrefillExecution) : Prop where
  prompt : p'.promptTokens = p.promptTokens
  reuse : p'.reuse = p.reuse
  shape : p'.evaluator.cache.shape = p.evaluator.cache.shape
  processed_le : execution.processedTokens ≤ budget
  position : p'.position = p.position + execution.processedTokens
  incomplete : execution.complete = false → 0 < execution.processedTokens ∧ p'.stage ≠ .done ∧
    p'.stage.WellFormed p'.promptTokens p'.evaluator ∧ p'.target = p.target ∧
    budget < p.promptTokens.length - p.position
  complete : execution.complete = true →
    (transitionPendingPrefillStage p').stage.WellFormed p'.promptTokens p'.evaluator ∧
    (transitionPendingPrefillStage p').target = p.target ∧
    ((transitionPendingPrefillStage p').stage = .done ∨
      p'.position < p.promptTokens.length ∧ 0 < execution.processedTokens ∧
        (transitionPendingPrefillStage p').stage ≠ .done ∧
        (transitionPendingPrefillStage p').stage.left < p.stage.left ∧
        (transitionPendingPrefillStage p').minimumBudget = 1)

theorem transition_fields (p : PendingPrefill) :
    (transitionPendingPrefillStage p).promptTokens = p.promptTokens ∧
    (transitionPendingPrefillStage p).reuse = p.reuse ∧
    (transitionPendingPrefillStage p).evaluator = p.evaluator := by
  unfold transitionPendingPrefillStage
  split
  · split <;> exact ⟨rfl, rfl, rfl⟩
  · exact ⟨rfl, rfl, rfl⟩

theorem minimumCount_le {budget count : Nat} (h : (if count = 0 then 1 else count) ≤ budget) :
    count ≤ budget ∧ 0 < budget := by
  split at h <;> omega

theorem promptRange_self (prompt : List Token) (offset : Nat) :
    promptRange prompt offset offset = [] := by
  rw [promptRange, List.drop_eq_nil_iff]
  exact List.length_take_le _ _

theorem promptRange_all (prompt : List Token) (offset : Nat) :
    promptRange prompt offset prompt.length = prompt.drop offset := by
  rw [promptRange, List.take_length]

/-- Each stage is evaluated in part. -/
theorem advancePendingPrefillStage_ok {p : PendingPrefill} {budget : Nat} (h : p.WellFormed)
    (hstage : p.stage ≠ .done) (hbudget : p.minimumBudget ≤ budget) :
    ∃ execution p', advancePendingPrefillStage p budget = .ok (execution, p') ∧
      Part p p' budget execution := by
  obtain ⟨prompt, e, stage, reuse⟩ := p
  obtain ⟨hroom, hsize, hwf⟩ := h
  simp only at hroom hsize hwf hstage
  cases stage with
  | single start stop processed prepared =>
    obtain ⟨rfl, hreached⟩ := hwf
    obtain ⟨count, e', hrun, hcount, hpos, hle, hall, hrest, htokens, hshape, hfinish⟩ :=
      advancePrefillRange_ok (start == 0) hreached hroom hsize (minimumCount_le hbudget).1
    refine ⟨_, ⟨prompt, e', .single start prompt.length (processed + count) prepared, reuse⟩,
      by rw [advancePendingPrefillStage]; simp only [hrun]; rfl, rfl, rfl, hshape, hcount, ?_, ?_, ?_⟩
    · rw [PendingPrefill.position, PendingPrefill.position, hreached.position, position_eq_length,
        htokens, List.length_take_of_le hle]
    · intro hincomplete
      have hlt : start + processed + count < prompt.length :=
        Nat.lt_of_le_of_ne hle (by simpa using hincomplete)
      refine ⟨hpos (by omega), by simp, ⟨rfl, by rw [← Nat.add_assoc]; exact hrest hlt⟩, ?_, ?_⟩
      · simpa [PendingPrefill.target, ← Nat.add_assoc] using hfinish
      · rw [PendingPrefill.position, hreached.position]
        by_contra hfit
        exact hlt.ne (hall (by simpa using hfit))
    · intro hcomplete
      have hend : start + processed + count = prompt.length := by simpa using hcomplete
      rw [hend, List.take_length] at htokens
      rw [hend, promptRange_self, finish_nil] at hfinish
      exact ⟨htokens, hfinish, .inl rfl⟩
  | continuation start stop processed prepared =>
    obtain ⟨rfl, hlt, hreached⟩ := hwf
    obtain ⟨count, e', hrun, hcount, hpos, hle, hall, hrest, htokens, hshape, hfinish⟩ :=
      advancePrefillRange_ok false hreached hroom hsize (minimumCount_le hbudget).1
    refine ⟨_, ⟨prompt, e', .continuation start prompt.length (processed + count) prepared, reuse⟩,
      by rw [advancePendingPrefillStage]; simp only [hrun]; rfl, rfl, rfl, hshape, hcount, ?_, ?_, ?_⟩
    · rw [PendingPrefill.position, PendingPrefill.position, hreached.position, position_eq_length,
        htokens, List.length_take_of_le hle]
    · intro hincomplete
      have hlt' : start + processed + count < prompt.length :=
        Nat.lt_of_le_of_ne hle (by simpa using hincomplete)
      refine ⟨hpos hlt, by simp, ⟨rfl, by omega, by rw [← Nat.add_assoc]; exact hrest hlt'⟩, ?_, ?_⟩
      · simpa [PendingPrefill.target, ← Nat.add_assoc] using hfinish
      · rw [PendingPrefill.position, hreached.position]
        by_contra hfit
        exact hlt'.ne (hall (by simpa using hfit))
    · intro hcomplete
      have hend : start + processed + count = prompt.length := by simpa using hcomplete
      rw [hend, List.take_length] at htokens
      rw [hend, promptRange_self, finish_nil] at hfinish
      exact ⟨htokens, hfinish, .inl rfl⟩
  | replay boundary processed prepared =>
    obtain ⟨hlt, hreached⟩ := hwf
    have hboundary := hreached.stop_le
    obtain ⟨count, e', hrun, hcount, hpos, hle, hall, hrest, htokens, hshape, hfinish⟩ :=
      advancePrefillRange_ok true hreached hroom hsize (minimumCount_le hbudget).1
    have hposition : e'.cache.position = processed + count := by
      rw [position_eq_length, htokens, List.length_take_of_le (hle.trans hboundary), Nat.zero_add]
    refine ⟨_, ⟨prompt, e', .replay boundary (processed + count) prepared, reuse⟩,
      by rw [advancePendingPrefillStage]; simp only [hrun]; rfl, rfl, rfl, hshape, hcount, ?_, ?_, ?_⟩
    · rw [PendingPrefill.position, PendingPrefill.position, hreached.position, Nat.zero_add]
      exact hposition
    · intro hincomplete
      have hlt' : 0 + processed + count < boundary :=
        Nat.lt_of_le_of_ne hle (by simpa using hincomplete)
      refine ⟨hpos (by omega), by simp, ⟨by omega, by rw [← Nat.add_assoc]; exact hrest hlt'⟩, ?_, ?_⟩
      · simp only [PendingPrefill.target, ← Nat.add_assoc]
        rw [hfinish]
      · rw [PendingPrefill.position, hreached.position]
        by_contra hfit
        simp only [not_lt] at hfit
        exact hlt'.ne (hall (by omega))
    · intro hcomplete
      have hend : 0 + processed + count = boundary := by simpa using hcomplete
      rw [hend, promptRange_self, finish_nil] at hfinish
      simp only [transitionPendingPrefillStage]
      by_cases hlast : boundary < prompt.length
      · rw [if_pos hlast]
        refine ⟨⟨rfl, hlast, ?_, hlast.le, Nat.le_refl _, trivial⟩, ?_, .inr ⟨?_, ?_, by simp, Nat.lt_succ_self 1, rfl⟩⟩
        · rw [htokens, hend]
          rfl
        · simp only [PendingPrefill.target]
          rw [hfinish, Nat.add_zero, promptRange_all]
        · rw [PendingPrefill.position]
          simp only
          omega
        · exact hpos (by omega)
      · rw [if_neg hlast]
        obtain rfl : boundary = prompt.length := by omega
        refine ⟨?_, ?_, .inl rfl⟩
        · change e'.cache.tokens = prompt
          rw [htokens, hend, List.take_length]
        · simp only [PendingPrefill.target]
          rw [List.drop_length, finish_nil, hfinish]
  | done => exact absurd rfl hstage

/-- Where an advance goes after a part of its stage. -/
theorem finishPrefillStep_ok {p p' : PendingPrefill} {budget : Nat} {execution : PrefillExecution}
    (h : p.WellFormed) (hpart : Part p p' budget execution) :
    ∃ step p'', finishPrefillStep p' (budget - execution.processedTokens) execution = (step, p'') ∧
      Moved p p'' execution.processedTokens ∧
      (step = .ready ∧ p''.stage = .done ∨
        p''.stage ≠ .done ∧ 0 < execution.processedTokens ∧
          (step = .pending ∧ budget < p.promptTokens.length - p.position ∨
            step = .continue ∧ p''.stage.left < p.stage.left ∧
              p''.minimumBudget ≤ budget - execution.processedTokens)) := by
  have hroom : p'.promptTokens.length ≤ p'.evaluator.cache.shape.maxContext := by
    rw [hpart.prompt, hpart.shape]
    exact h.room
  have hsize : p'.promptTokens.length < 2 ^ 64 := by
    rw [hpart.prompt]
    exact h.size
  have hposition := hpart.position
  have hle := hpart.processed_le
  unfold finishPrefillStep
  by_cases hcomplete : execution.complete = true
  · rw [if_pos hcomplete]
    obtain ⟨hstage, htarget, hend⟩ := hpart.complete hcomplete
    obtain ⟨hprompt, hreuse, hevaluator⟩ := transition_fields p'
    have hmoved : Moved p (transitionPendingPrefillStage p') execution.processedTokens :=
      ⟨hprompt.trans hpart.prompt, hreuse.trans hpart.reuse,
        ⟨by rw [hprompt, hevaluator]; exact hroom, by rw [hprompt]; exact hsize,
          by rw [hprompt, hevaluator]; exact hstage⟩, htarget,
        by rw [PendingPrefill.position, hevaluator]; exact hposition⟩
    rcases hend with hdone | ⟨hlt, hpos, hne, hleft, hminimum⟩
    · exact ⟨_, _, if_pos hdone, hmoved, .inl ⟨rfl, hdone⟩⟩
    · simp only [if_neg hne]
      by_cases hspent : budget - execution.processedTokens = 0
      · exact ⟨_, _, if_pos hspent, hmoved, .inr ⟨hne, hpos, .inl ⟨rfl, by omega⟩⟩⟩
      · exact ⟨_, _, if_neg hspent, hmoved, .inr ⟨hne, hpos, .inr ⟨rfl, hleft, by omega⟩⟩⟩
  · rw [if_neg hcomplete]
    obtain ⟨hpos, hne, hstage, htarget, hbudget⟩ := hpart.incomplete (by simpa using hcomplete)
    have hmoved : Moved p p' execution.processedTokens :=
      ⟨hpart.prompt, hpart.reuse, ⟨hroom, hsize, hstage⟩, htarget, hposition⟩
    refine ⟨.pending, p', ?_, hmoved, .inr ⟨hne, hpos, .inl ⟨rfl, hbudget⟩⟩⟩
    by_cases hspent : budget - execution.processedTokens = 0
    · rw [if_neg (by omega), if_pos hspent]
    · rw [if_pos ⟨hpos, by omega⟩]

/-- What an advance does: it becomes ready, or it moves and stays pending. -/
def Advanced (p : PendingPrefill) (budget : Nat) (r : Option (Except RuntimeError PrefillProgress)) :
    Prop :=
  ∃ count p', Moved p p' count ∧ count ≤ budget ∧
    (r = some (.ok (.ready p'.intoReady)) ∧ p'.stage = .done ∨
      r = some (.ok (.pending p')) ∧ p'.stage ≠ .done ∧ 0 < count ∧
        budget < p.promptTokens.length - p.position)

/-- The turns of an advance are at most its stages. -/
theorem advanceLoop_ok {p : PendingPrefill} {budget turns : Nat} (h : p.WellFormed)
    (hstage : p.stage ≠ .done) (hturns : p.stage.left ≤ turns) (hbudget : p.minimumBudget ≤ budget) :
    Advanced p budget (advanceLoop turns p budget) := by
  induction turns generalizing p budget with
  | zero => exact absurd hturns (Nat.not_le.mpr (left_pos hstage))
  | succ turns ih =>
    obtain ⟨execution, p₁, hrun, hpart⟩ := advancePendingPrefillStage_ok h hstage hbudget
    obtain ⟨step, p₂, hfinish, hmoved, hstep⟩ := finishPrefillStep_ok h hpart
    have hle := hpart.processed_le
    rw [advanceLoop, if_neg hstage, hrun]
    simp only [hfinish]
    rcases hstep with ⟨rfl, hdone⟩ | ⟨hne, hpos, ⟨rfl, hlt⟩ | ⟨rfl, hleft, hminimum⟩⟩
    · exact ⟨_, p₂, hmoved, hle, .inl ⟨rfl, hdone⟩⟩
    · exact ⟨_, p₂, hmoved, hle, .inr ⟨rfl, hne, hpos, hlt⟩⟩
    · obtain ⟨count, p₃, hmoved', hle', hresult⟩ :=
        ih hmoved.wellFormed hne (by omega) hminimum
      refine ⟨execution.processedTokens + count, p₃, hmoved.trans hmoved', by omega, ?_⟩
      rcases hresult with hready | ⟨hpending, hne', hpos', hlt⟩
      · exact .inl hready
      · rw [hmoved.prompt, hmoved.position] at hlt
        exact .inr ⟨hpending, hne', by omega, by omega⟩

/-- An advance with the minimum budget moves, and it becomes ready if the budget is enough. -/
theorem advancePrefill_ok {p : PendingPrefill} {budget : Nat} (h : p.WellFormed)
    (hbudget : p.minimumBudget ≤ budget) : Advanced p budget (advancePrefill p budget) := by
  rw [advancePrefill]
  by_cases hstage : p.stage = .done
  · exact ⟨0, p, ⟨rfl, rfl, h, rfl, rfl⟩, Nat.zero_le _, .inl ⟨by rw [advanceLoop, if_pos hstage], hstage⟩⟩
  · apply advanceLoop_ok h hstage _ hbudget
    unfold PendingPrefillStage.left
    split <;> omega

theorem target_done {p : PendingPrefill} (h : p.stage = .done) : p.target = p.evaluator := by
  rw [PendingPrefill.target, h]

/-- The prefill is ready with the target, or it is pending with a prompt position left. -/
theorem Advanced.cases {p : PendingPrefill} {budget : Nat}
    {r : Option (Except RuntimeError PrefillProgress)} (h : Advanced p budget r) :
    r = some (.ok (.ready ⟨p.promptTokens, p.target, p.reuse⟩)) ∨
      ∃ p', r = some (.ok (.pending p')) ∧ p'.WellFormed ∧ p'.promptTokens = p.promptTokens ∧
        p'.reuse = p.reuse ∧ p'.target = p.target ∧ p.position < p'.position ∧
        p'.position ≤ p.position + budget ∧ budget < p.promptTokens.length - p.position := by
  obtain ⟨count, p', hmoved, hle, ⟨hready, hdone⟩ | ⟨hpending, -, hpos, hlt⟩⟩ := h
  · left
    rw [hready, PendingPrefill.intoReady, hmoved.prompt, hmoved.reuse, ← hmoved.target,
      target_done hdone]
  · have hposition := hmoved.position
    exact .inr ⟨p', hpending, hmoved.wellFormed, hmoved.prompt, hmoved.reuse, hmoved.target,
      by omega, by omega, hlt⟩

/-! ## Any sequence of budgets -/

/-- Advance by each budget until the prefill is ready. -/
def advances : List Nat → PendingPrefill → Option (Except RuntimeError PrefillProgress)
  | [], p => some (.ok (.pending p))
  | budget :: budgets, p =>
    match advancePrefill p budget with
    | some (.ok (.pending p')) => advances budgets p'
    | r => r

/-- Each budget is at least the minimum when it is used. -/
def Admissible : List Nat → PendingPrefill → Prop
  | [], _ => True
  | budget :: budgets, p => p.minimumBudget ≤ budget ∧
      ∀ p', advancePrefill p budget = some (.ok (.pending p')) → Admissible budgets p'

/-- A run of advances is ready with the target, or each advance has moved. -/
theorem advances_ok {budgets : List Nat} {p : PendingPrefill} (h : p.WellFormed)
    (hbudgets : Admissible budgets p) :
    advances budgets p = some (.ok (.ready ⟨p.promptTokens, p.target, p.reuse⟩)) ∨
      ∃ p', advances budgets p = some (.ok (.pending p')) ∧ p'.WellFormed ∧
        p'.promptTokens = p.promptTokens ∧ p'.reuse = p.reuse ∧ p'.target = p.target ∧
        p.position + budgets.length ≤ p'.position := by
  induction budgets generalizing p with
  | nil => exact .inr ⟨p, rfl, h, rfl, rfl, rfl, Nat.le_refl _⟩
  | cons budget budgets ih =>
    obtain ⟨hminimum, hrest⟩ := hbudgets
    rcases (advancePrefill_ok h hminimum).cases with
      hready | ⟨p', hpending, hwf, hprompt, hreuse, htarget, hlt, -, -⟩
    · left
      rw [advances, hready]
    · rw [advances, hpending, List.length_cons]
      simp only
      rcases ih hwf (hrest p' hpending) with hready | ⟨p'', hrun, hwf', hprompt', hreuse', htarget', hle⟩
      · left
        rw [hready, hprompt, hreuse, htarget]
      · exact .inr ⟨p'', hrun, hwf', hprompt'.trans hprompt, hreuse'.trans hreuse,
          htarget'.trans htarget, by omega⟩

/-- One advance with a budget for the whole rest is ready. -/
theorem advancePrefill_whole {p : PendingPrefill} {budget : Nat} (h : p.WellFormed)
    (hminimum : p.minimumBudget ≤ budget) (hbudget : p.promptTokens.length ≤ budget) :
    advancePrefill p budget = some (.ok (.ready ⟨p.promptTokens, p.target, p.reuse⟩)) := by
  rcases (advancePrefill_ok h hminimum).cases with hready | ⟨p', -, -, -, -, -, -, -, hlt⟩
  · exact hready
  · omega

end Leone.Session

import Leone.Session.Run

/-!
# Prefill in budgets

A prefill that is split into budgets makes the calls of an unsplit one, and ends with the same
rows. It ends with the logit row of the prompt too, unless the session retains exactly the prompt
with an older row: nothing is evaluated then, and the older row is the one that is sampled.
-/

namespace Leone.Session

open Framework Kv

/-! ## The retained row -/

theorem commonPrefix_self (tokens : List Token) : commonPrefix tokens tokens = tokens.length := by
  induction tokens with
  | nil => rfl
  | cons token tokens ih => rw [commonPrefix, if_pos rfl, ih, List.length_cons]

/-- The session retains exactly the prompt in a cache that the request takes. -/
def retainsPrompt (session : GenerationSession) (prompt : List Token) (options : GenerateOptions)
    (shape : AttentionShape) : Bool :=
  sessionCompatible session prompt options shape && session.evaluatedTokens == prompt

/-- A request evaluates nothing exactly when the session retains its prompt. -/
theorem reused_eq_length {rt : Runtime} {session : GenerationSession} {prompt : List Token}
    {options : GenerateOptions} {shape : AttentionShape} {reuse : GenerationReuse}
    {prepared : PreparedPrefill} {e : Evaluator}
    (h : Planned rt session prompt options shape reuse prepared e) :
    ¬ reuse.reusedTokens < prompt.length ↔ retainsPrompt session prompt options shape = true := by
  have hpos : 0 < prompt.length := List.length_pos_of_ne_nil (validateGenerationRequest_ok h.request).1
  have hle := commonPrefix_le_left prompt session.evaluatedTokens
  rw [h.plan, retainsPrompt, Bool.and_eq_true, beq_iff_eq]
  simp only [generationReuse, reusedTokens]
  constructor
  · intro hall
    by_cases hcompatible : sessionCompatible session prompt options shape = true
    · refine ⟨hcompatible, ?_⟩
      simp only [hcompatible, true_and, if_true] at hall
      split at hall
      · omega
      · next hcached =>
        have hcommon : commonPrefix prompt session.evaluatedTokens = prompt.length := by omega
        have htake := take_eq_take hcommon.ge
        rwa [List.take_length, List.take_of_length_le (by omega)] at htake
    · rw [if_neg (fun hcases => hcompatible hcases.1), if_neg hcompatible] at hall
      exact absurd hpos hall
  · intro hretains
    obtain ⟨hcompatible, rfl⟩ := hretains
    rw [commonPrefix_self]
    simp [hcompatible]

/-! ## Transparent splits -/

/-- What a prefill is expected to be under any budgets that are each at least the minimum. -/
structure SplitTransparent (rt : Runtime) (session : GenerationSession) (prompt : List Token)
    (options : GenerateOptions) (p : PendingPrefill) : Prop where
  /-- An advance is ready, or it moves by at least one position and at most the budget. -/
  advance : ∀ budgets p' budget, Admissible budgets p →
    advances budgets p = some (.ok (.pending p')) → p'.minimumBudget ≤ budget →
    (∃ ready, advancePrefill p' budget = some (.ok (.ready ready))) ∨
      ∃ p'', advancePrefill p' budget = some (.ok (.pending p'')) ∧
        p'.position < p''.position ∧ p''.position ≤ p'.position + budget
  ends : ∀ budgets, Admissible budgets p → prompt.length < budgets.length →
    ∃ ready, advances budgets p = some (.ok (.ready ready))
  position : ∀ budgets ready, Admissible budgets p →
    advances budgets p = some (.ok (.ready ready)) →
    ready.evaluator.cache.position = prompt.length
  logits : ∀ budgets ready, Admissible budgets p →
    advances budgets p = some (.ok (.ready ready)) →
    ready.evaluator.activations.logits = some prompt
  /-- One advance without a bound is ready with the same rows and calls. -/
  whole : ∀ budgets ready, Admissible budgets p →
    advances budgets p = some (.ok (.ready ready)) →
    advancePrefill p unlimited = some (.ok (.ready ready))
  generated : ∀ budgets ready, Admissible budgets p →
    advances budgets p = some (.ok (.ready ready)) →
    ∃ reuse prepared e e', prepareGeneration rt session prompt options = .ok (reuse, prepared, e) ∧
      runGenerationPrefill prompt reuse prepared e = .ok e' ∧
      e'.calls = ready.evaluator.calls ∧ e'.cache = ready.evaluator.cache

theorem minimumBudget_le {p : PendingPrefill} (h : p.WellFormed) : p.minimumBudget ≤ unlimited := by
  have hsize := h.size
  have hstage := h.stage
  have hcount : ∀ (prepared : Option PreparedPrefill) (remaining : Nat),
      minimumCount prepared remaining ≤ max 1 remaining := by
    intro prepared remaining
    unfold minimumCount
    split <;> omega
  rw [unlimited]
  unfold PendingPrefill.minimumBudget
  cases hcase : p.stage with
  | single start stop processed prepared =>
    rw [hcase] at hstage
    have := hcount (some prepared) (stop - start - processed)
    have := hstage.1
    simp only
    split <;> omega
  | continuation start stop processed prepared =>
    rw [hcase] at hstage
    have := hcount (some prepared) (stop - start - processed)
    have := hstage.1
    simp only
    split <;> omega
  | replay boundary processed prepared =>
    rw [hcase] at hstage
    have := hcount (some prepared) (boundary - processed)
    have := hstage.2.stop_le
    simp only
    split <;> omega
  | done =>
    have := hcount none 0
    simp only
    split <;> omega

section Splits

variable {p : PendingPrefill} {budgets : List Nat} {ready : ReadyPrefill}

theorem ready_eq_target (h : p.WellFormed) (hbudgets : Admissible budgets p)
    (hready : advances budgets p = some (.ok (.ready ready))) :
    ready = ⟨p.promptTokens, p.target, p.reuse⟩ := by
  rcases advances_ok h hbudgets with heq | ⟨p', heq, -⟩
  · rw [heq] at hready
    cases hready
    rfl
  · rw [heq] at hready
    cases hready

theorem advances_unlimited (h : p.WellFormed) :
    Admissible [unlimited] p ∧
      advances [unlimited] p = some (.ok (.ready ⟨p.promptTokens, p.target, p.reuse⟩)) ∧
      advancePrefill p unlimited = some (.ok (.ready ⟨p.promptTokens, p.target, p.reuse⟩)) := by
  have hwhole := advancePrefill_whole h (minimumBudget_le h) (Nat.le_sub_one_of_lt h.size)
  refine ⟨⟨minimumBudget_le h, fun _ _ => trivial⟩, ?_, hwhole⟩
  rw [advances, hwhole]

end Splits

/-- Splitting is transparent exactly when a session that retains the whole prompt retains its
logit row. -/
theorem splitTransparent_iff (rt : Runtime) (ops : List SessionOp) {prompt : List Token}
    {options : GenerateOptions} {p : PendingPrefill}
    (h : beginPrefill rt (sessionAfter rt ops) prompt options = .ok p) :
    SplitTransparent rt (sessionAfter rt ops) prompt options p ↔
      ∀ shape, validateGenerationRequest rt prompt options = .ok shape →
        retainsPrompt (sessionAfter rt ops) prompt options shape = true →
        (sessionAfter rt ops).activations.bind Activations.logits = some prompt := by
  have hsession := sessionAfter_consistent rt ops
  obtain ⟨shape, prepared, e, hplan, hprepare, hprompt, -, hwf, htarget⟩ := beginPrefill_ok hsession h
  have htokens := hplan.target_tokens hsession
  have hactivations := hplan.target_activations hsession
  rw [← htarget] at htokens hactivations
  -- the row at the end is the prompt's, unless the retained one is left in its place
  have hlogits : p.target.activations.logits = some prompt ↔
      (retainsPrompt (sessionAfter rt ops) prompt options shape = true →
        (sessionAfter rt ops).activations.bind Activations.logits = some prompt) := by
    rw [hactivations]
    by_cases hlt : p.reuse.reusedTokens < prompt.length
    · rw [if_pos hlt]
      exact iff_of_true rfl fun hretains => absurd hlt ((reused_eq_length hplan).mpr hretains)
    · have hretains := (reused_eq_length hplan).mp hlt
      have hstate := hplan.state
      rw [retainsPrompt, Bool.and_eq_true] at hretains
      rw [if_pos (by rw [hplan.plan]; exact hretains.1)] at hstate
      obtain ⟨cache, -, hsome, -⟩ := hstate
      rw [if_neg hlt, hsome, retainsPrompt, Bool.and_eq_true]
      exact ⟨fun hrow _ => hrow, fun hrow => hrow hretains⟩
  constructor
  · intro hsplit shape' hrequest hretains
    obtain rfl : shape' = shape := Except.ok.inj (hrequest.symm.trans hplan.request)
    obtain ⟨hadmissible, hready, -⟩ := advances_unlimited hwf
    exact hlogits.mp (hsplit.logits _ _ hadmissible hready) hretains
  · intro hretained
    refine ⟨?_, ?_, ?_, ?_, ?_, ?_⟩
    · intro budgets p' budget hbudgets hpending hminimum
      rcases advances_ok hwf hbudgets with heq | ⟨p'', heq, hwf', -⟩
      · rw [heq] at hpending
        cases hpending
      · rw [heq] at hpending
        cases hpending
        rcases (advancePrefill_ok hwf' hminimum).cases with
          hready | ⟨p'', hpending, -, -, -, -, hlt, hle, -⟩
        · exact .inl ⟨_, hready⟩
        · exact .inr ⟨p'', hpending, hlt, hle⟩
    · intro budgets hbudgets hlength
      rcases advances_ok hwf hbudgets with heq | ⟨p', -, hwf', hprompt', -, -, hle⟩
      · exact ⟨_, heq⟩
      · have := position_le hwf'
        rw [hprompt', hprompt] at this
        omega
    · intro budgets ready hbudgets hready
      rw [ready_eq_target hwf hbudgets hready, position_eq_length]
      exact congrArg List.length htokens
    · intro budgets ready hbudgets hready
      rw [ready_eq_target hwf hbudgets hready]
      exact hlogits.mpr (hretained shape hplan.request)
    · intro budgets ready hbudgets hready
      rw [ready_eq_target hwf hbudgets hready]
      exact (advances_unlimited hwf).2.2
    · intro budgets ready hbudgets hready
      rw [ready_eq_target hwf hbudgets hready]
      exact ⟨p.reuse, prepared, e, _, hprepare, hplan.runGenerationPrefill hsession,
        by rw [htarget], by rw [htarget]⟩

/-! ## A fork of a prefix -/

def miniature : Runtime :=
  { nHead := 1
    nHeadKv := 1
    headDim := 32
    contextLength := 64
    vocabSize := 16
    decodeGraphSupported := false
    prefillMethod := .chunkedGpu
    q8PrefillSupported := false
    decodeEquivalentPrefillSupported := true }

def eagerOptions : GenerateOptions := ⟨4, .f16, 2, true, false, false⟩

/-- A session that has evaluated three tokens, and its fork with two of them. -/
def prefixFork : List SessionOp := [.generate [1, 2, 3] eagerOptions [4], .forkPrefix 2]

/-- The fork begins a prefill of its own tokens, and the condition decides it. -/
theorem prefixFork_begins :
    ∃ p, beginPrefill miniature (sessionAfter miniature prefixFork) [1, 2] eagerOptions = .ok p ∧
      (SplitTransparent miniature (sessionAfter miniature prefixFork) [1, 2] eagerOptions p ↔
        ∀ shape, validateGenerationRequest miniature [1, 2] eagerOptions = .ok shape →
          retainsPrompt (sessionAfter miniature prefixFork) [1, 2] eagerOptions shape = true →
          (sessionAfter miniature prefixFork).activations.bind Activations.logits = some [1, 2]) := by
  obtain ⟨p, hp⟩ := exists_of_isOk (r := beginPrefill miniature (sessionAfter miniature prefixFork)
    [1, 2] eagerOptions) (by decide +kernel)
  exact ⟨p, hp, splitTransparent_iff miniature prefixFork hp⟩

/-- The logit row that one advance is ready with. -/
def readyLogits (p : PendingPrefill) : Option (List Token) :=
  match advances [1] p with
  | some (.ok (.ready ready)) => ready.evaluator.activations.logits
  | _ => none

/-- The fork keeps the logit row of the third token, and a request for the other two samples it. -/
theorem prefixFork_not_transparent :
    ∃ p, beginPrefill miniature (sessionAfter miniature prefixFork) [1, 2] eagerOptions = .ok p ∧
      readyLogits p = some [1, 2, 3] ∧
      ¬ SplitTransparent miniature (sessionAfter miniature prefixFork) [1, 2] eagerOptions p := by
  obtain ⟨p, hp⟩ := exists_of_isOk (r := beginPrefill miniature (sessionAfter miniature prefixFork)
    [1, 2] eagerOptions) (by decide +kernel)
  have hrow : (beginPrefill miniature (sessionAfter miniature prefixFork) [1, 2]
      eagerOptions).map readyLogits = .ok (some [1, 2, 3]) := by decide +kernel
  have hminimum : (beginPrefill miniature (sessionAfter miniature prefixFork) [1, 2]
      eagerOptions).map PendingPrefill.minimumBudget = .ok 1 := by decide +kernel
  rw [hp] at hrow hminimum
  replace hrow : readyLogits p = some [1, 2, 3] := Except.ok.inj hrow
  replace hminimum : p.minimumBudget = 1 := Except.ok.inj hminimum
  refine ⟨p, hp, hrow, fun hsplit => ?_⟩
  unfold readyLogits at hrow
  split at hrow
  · next ready hready =>
    have hlogits := hsplit.logits [1] ready ⟨hminimum.le, fun _ _ => trivial⟩ hready
    rw [hrow] at hlogits
    cases hlogits
  · cases hrow

end Leone.Session

import Leone.Session.Transparent

/-!
# The prefill boundary

A session records how many of its leading rows a prefill from an empty cache has evaluated, so
that a restored checkpoint can evaluate each row the way the live session did. The record is cut
to the length of the next prompt, and the rows to what the prompt has in common with them, so
the two agree only while no request cuts the rows below the recorded boundary.
-/

namespace Leone.Session

open Framework Kv

/-! ## Rows on both sides of a boundary -/

/-- A row of a backend-preferred prefill that started from an empty cache. -/
def KvRow.Preferred (row : KvRow) : Prop :=
  row.initial = true ∧ row.evaluation ≠ .batched .decodeEquivalent

/-- A row of a decode, a sequential or a decode-equivalent evaluation. -/
def KvRow.Continued (row : KvRow) : Prop :=
  row.initial = false ∧ row.evaluation ≠ .batched .backendPreferred

/-- The boundary is the number of leading rows of a backend-preferred prefill. -/
structure SplitAt (rows : List KvRow) (boundary : Nat) : Prop where
  le : boundary ≤ rows.length
  preferred : ∀ row ∈ rows.take boundary, row.Preferred
  continued : ∀ row ∈ rows.drop boundary, row.Continued

theorem SplitAt.append {rows later : List KvRow} {boundary : Nat} (h : SplitAt rows boundary)
    (hlater : ∀ row ∈ later, row.Continued) : SplitAt (rows ++ later) boundary := by
  refine ⟨?_, ?_, ?_⟩
  · rw [List.length_append]
    exact h.le.trans (Nat.le_add_right _ _)
  · rw [List.take_append_of_le_length h.le]
    exact h.preferred
  · intro row hrow
    rw [List.drop_append_of_le_length h.le, List.mem_append] at hrow
    exact hrow.elim (h.continued row) (hlater row)

theorem SplitAt.take {rows : List KvRow} {boundary : Nat} (h : SplitAt rows boundary) (n : Nat) :
    SplitAt (rows.take n) (min boundary n) := by
  have hle := h.le
  refine ⟨?_, ?_, ?_⟩
  · rw [List.length_take]
    omega
  · intro row hrow
    rw [List.take_take] at hrow
    exact h.preferred row (List.take_subset_take_left _ (by omega) hrow)
  · intro row hrow
    rw [List.drop_take] at hrow
    by_cases hle : boundary ≤ n
    · rw [Nat.min_eq_left hle] at hrow
      exact h.continued row (List.mem_of_mem_take hrow)
    · rw [Nat.min_eq_right (Nat.le_of_not_le hle), Nat.sub_self, List.take_zero] at hrow
      cases hrow

/-- Rows of one evaluation that all are preferred, before rows that all are not. -/
theorem splitAt_append {front later : List KvRow} (hfront : ∀ row ∈ front, row.Preferred)
    (hlater : ∀ row ∈ later, row.Continued) : SplitAt (front ++ later) front.length := by
  refine ⟨?_, ?_, ?_⟩
  · rw [List.length_append]
    exact Nat.le_add_right _ _
  · rw [List.take_left]
    exact hfront
  · rw [List.drop_left]
    exact hlater

theorem SplitAt.row {rows : List KvRow} {boundary : Nat} (h : SplitAt rows boundary) {i : Nat}
    (hi : i < rows.length) : if i < boundary then rows[i].Preferred else rows[i].Continued := by
  split
  · next hlt =>
    exact h.preferred _ (List.mem_take_iff_getElem.mpr ⟨i, by omega, rfl⟩)
  · next hge =>
    exact h.continued _ (List.mem_drop_iff_getElem.mpr ⟨i - boundary, by omega, by congr 1; omega⟩)

/-- Two rows of one token, both of a preferred prefill or both after it. -/
def SameEvaluation (live replayed : KvRow) : Prop :=
  live.token = replayed.token ∧
    (live.Preferred ∧ replayed.Preferred ∨ live.Continued ∧ replayed.Continued)

/-- Rows of the same tokens that are split at one boundary are evaluated in the same way. -/
theorem SplitAt.same {live replayed : List KvRow} {boundary : Nat} (h : SplitAt live boundary)
    (h' : SplitAt replayed boundary)
    (htokens : live.map KvRow.token = replayed.map KvRow.token) :
    List.Forall₂ SameEvaluation live replayed := by
  have hlength : live.length = replayed.length := by simpa using congrArg List.length htokens
  refine List.forall₂_iff_get.mpr ⟨hlength, fun i hi hi' => ⟨?_, ?_⟩⟩
  · have htoken := congrArg (·[i]?) htokens
    simpa [List.getElem?_map, List.getElem?_eq_getElem hi, List.getElem?_eq_getElem hi'] using htoken
  · have hlive := h.row hi
    have hreplayed := h'.row hi'
    split at hlive
    · next hlt =>
      rw [if_pos hlt] at hreplayed
      exact .inl ⟨hlive, hreplayed⟩
    · next hge =>
      rw [if_neg hge] at hreplayed
      exact .inr ⟨hlive, hreplayed⟩

theorem preferred_rowsOf {evaluation : Evaluation} (h : evaluation ≠ .batched .decodeEquivalent)
    (tokens : List Token) : ∀ row ∈ rowsOf evaluation true tokens, row.Preferred := by
  intro row hrow
  obtain ⟨token, -, rfl⟩ := List.mem_map.mp hrow
  exact ⟨rfl, h⟩

theorem continued_rowsOf {evaluation : Evaluation} (h : evaluation ≠ .batched .backendPreferred)
    (tokens : List Token) : ∀ row ∈ rowsOf evaluation false tokens, row.Continued := by
  intro row hrow
  obtain ⟨token, -, rfl⟩ := List.mem_map.mp hrow
  exact ⟨rfl, h⟩

/-! ## How each segment is evaluated -/

theorem preparePromptPrefillWithNumerics_evaluation {rt : Runtime} {prefillTokens chunkTokens : Nat}
    {numerics : PrefillNumerics} {prepared : PreparedPrefill}
    (h : preparePromptPrefillWithNumerics rt prefillTokens chunkTokens numerics = .ok prepared) :
    prepared.evaluation = .sequential ∨ prepared.evaluation = .batched numerics := by
  unfold preparePromptPrefillWithNumerics at h
  split_ifs at h
  · cases h
    exact .inl rfl
  · cases h
    exact .inl rfl
  · cases h
    exact .inr rfl

theorem prepareReplayPrefill_evaluation {rt : Runtime} {replayTokens : Nat}
    {options : GenerateOptions} {prepared : PreparedPrefill}
    (h : prepareReplayPrefill rt replayTokens options = .ok prepared) :
    prepared.evaluation ≠ .batched .decodeEquivalent := by
  unfold prepareReplayPrefill at h
  split at h
  · cases h
    simp [PreparedPrefill.evaluation]
  · rcases preparePromptPrefillWithNumerics_evaluation h with heq | heq <;> simp [heq]

theorem prepareGenerationPrefill_evaluation {rt : Runtime} {prefillTokens reusedTokens : Nat}
    {options : GenerateOptions} {prepared : PreparedPrefill}
    (h : prepareGenerationPrefill rt prefillTokens options reusedTokens = .ok prepared) :
    if reusedTokens = 0 then prepared.evaluation ≠ .batched .decodeEquivalent
    else prepared.evaluation ≠ .batched .backendPreferred := by
  unfold prepareGenerationPrefill at h
  split at h
  · cases h
    simp [PreparedPrefill.evaluation]
  · next numerics hnumerics =>
    have heq := preparePromptPrefillWithNumerics_evaluation h
    unfold generationPrefillNumerics at hnumerics
    split_ifs at hnumerics with hq8 hzero hwarm
    · cases hnumerics
      rw [if_pos hzero]
      rcases heq with heq | heq <;> simp [heq]
    · cases hnumerics
      rw [if_neg hzero]
      rcases heq with heq | heq <;> simp [heq]

/-! ## The boundary of a committed session -/

/-- The rows of a live session are split at its boundary. -/
def GenerationSession.Bounded (session : GenerationSession) : Prop :=
  ∀ cache, session.state = some cache →
    0 < session.prefillBoundary ∧ SplitAt cache.rows session.prefillBoundary

/-- The rows that a request keeps are cut where its boundary is: all of them are kept below it or
none is evaluated after a cut, and a prompt without kept rows is at most as long. -/
def KeepsBoundary (session : GenerationSession) (prompt : List Token) (options : GenerateOptions)
    (shape : AttentionShape) : Prop :=
  let reuse := generationReuse session prompt options shape
  reuse.compatible = true →
    if reuse.reusedTokens = 0 then prompt.length ≤ session.prefillBoundary
    else session.prefillBoundary ≤ reuse.reusedTokens ∨ reuse.reusedTokens = prompt.length

theorem reuseClass_compatible {session : GenerationSession} {prompt : List Token}
    {options : GenerateOptions} {shape : AttentionShape}
    (h : (generationReuse session prompt options shape).compatible = true) :
    (generationReuse session prompt options shape).reuseClass ≠ .restoreReplay ∧
      (generationReuse session prompt options shape).reuseClass ≠ .cold := by
  simp only [generationReuse] at h ⊢
  rw [h]
  simp only [overrideReuseClass, baseReuseClass, compatibleReuseClass, if_true]
  split_ifs <;> simp

theorem reuseClass_incompatible {session : GenerationSession} {prompt : List Token}
    {options : GenerateOptions} {shape : AttentionShape}
    (h : (generationReuse session prompt options shape).compatible ≠ true) :
    (generationReuse session prompt options shape).reuseClass = .restoreReplay ∨
      (generationReuse session prompt options shape).reuseClass = .cold := by
  simp only [generationReuse, Bool.not_eq_true] at h ⊢
  rw [h]
  simp only [overrideReuseClass, baseReuseClass, restoredOrColdReuseClass, Bool.false_eq_true,
    false_and, if_false]
  split_ifs <;> simp

def recordedBoundary (prompt : List Token) (reuse : GenerationReuse) : Nat :=
  if reuse.reuseClass = .cold ∨ reuse.replayPrefillBoundary = 0 then prompt.length
  else reuse.replayPrefillBoundary

section Planned

variable {rt : Runtime} {session : GenerationSession} {prompt : List Token}
  {options : GenerateOptions} {shape : AttentionShape} {reuse : GenerationReuse}
  {prepared : PreparedPrefill} {e : Evaluator}

theorem finish_cache_rows (e : Evaluator) (prepared : PreparedPrefill) (initial : Bool)
    (tokens : List Token) : (e.finish prepared initial tokens).cache.rows =
      e.cache.rows ++ rowsOf prepared.evaluation initial tokens := rfl

theorem Planned.prompt_pos (h : Planned rt session prompt options shape reuse prepared e) :
    0 < prompt.length := List.length_pos_of_ne_nil (validateGenerationRequest_ok h.request).1

theorem Planned.replayPrefillBoundary (h : Planned rt session prompt options shape reuse prepared e) :
    reuse.replayPrefillBoundary = min session.prefillBoundary prompt.length := by
  rw [h.plan]
  rfl

theorem length_rowsOf (evaluation : Evaluation) (initial : Bool) (tokens : List Token) :
    (rowsOf evaluation initial tokens).length = tokens.length := by
  rw [rowsOf, List.length_map]

/-- A prefill from an empty cache that is not split evaluates preferred rows only. -/
theorem Planned.splitAt_whole (h : Planned rt session prompt options shape reuse prepared e)
    (hsplit : ¬ reuse.splitReplay prompt.length = true) (hzero : reuse.reusedTokens = 0)
    (hempty : e.cache.rows = []) :
    SplitAt (reuse.target prompt prepared e).cache.rows prompt.length := by
  have hprefill := h.prefill
  rw [preparePrefillForGeneration, if_neg hsplit] at hprefill
  have hevaluation := prepareGenerationPrefill_evaluation hprefill
  rw [if_pos hzero] at hevaluation
  rw [GenerationReuse.target, if_neg hsplit, finish_cache_rows, hempty, List.nil_append, hzero,
    List.drop_zero]
  have hnone : ∀ row ∈ ([] : List KvRow), row.Continued := by simp
  have hrows := splitAt_append (preferred_rowsOf hevaluation prompt) hnone
  rwa [List.append_nil, length_rowsOf] at hrows

theorem Planned.splitAt_incompatible (h : Planned rt session prompt options shape reuse prepared e)
    (hcompatible : reuse.compatible ≠ true) :
    0 < recordedBoundary prompt reuse ∧
      SplitAt (reuse.target prompt prepared e).cache.rows (recordedBoundary prompt reuse) := by
  have hpos := h.prompt_pos
  have hzero := h.reused_incompatible hcompatible
  have hstate := h.state
  rw [if_neg hcompatible] at hstate
  have hclass := h.plan ▸ reuseClass_incompatible (h.plan ▸ hcompatible)
  have hreplay := h.replayPrefillBoundary
  by_cases hsplit : reuse.splitReplay prompt.length = true
  · obtain ⟨hrestore, -, hreplayed, hlt⟩ := (splitReplay_eq _ _).mp hsplit
    have hprefill := h.prefill
    rw [preparePrefillForGeneration, if_pos hsplit] at hprefill
    have hrecorded : recordedBoundary prompt reuse = reuse.replayPrefillBoundary := by
      rw [recordedBoundary, if_neg (by simp [hrestore, hreplayed.ne'])]
    refine ⟨by omega, ?_⟩
    have hlater : ∀ row ∈ rowsOf .sequential false (prompt.drop reuse.replayPrefillBoundary),
        row.Continued := continued_rowsOf (by simp) _
    have hrows := splitAt_append (preferred_rowsOf (prepareReplayPrefill_evaluation hprefill)
      (prompt.take reuse.replayPrefillBoundary)) hlater
    rw [length_rowsOf, List.length_take_of_le hlt.le] at hrows
    rw [hrecorded, GenerationReuse.target, if_pos hsplit, finish_cache_rows, finish_cache_rows,
      hstate.1]
    exact hrows
  · have hrecorded : recordedBoundary prompt reuse = prompt.length := by
      rw [recordedBoundary]
      rcases hclass with hrestore | hcold
      · by_cases hnone : reuse.replayPrefillBoundary = 0
        · rw [if_pos (.inr hnone)]
        · rw [if_neg (by simp [hrestore, hnone])]
          rw [splitReplay_eq] at hsplit
          by_contra hne
          exact hsplit ⟨hrestore, hzero, by omega, by omega⟩
      · rw [if_pos (.inl hcold)]
    rw [hrecorded]
    exact ⟨hpos, h.splitAt_whole hsplit hzero hstate.1⟩

theorem Planned.splitAt_compatible (h : Planned rt session prompt options shape reuse prepared e)
    (hbounded : session.Bounded) (hkeeps : KeepsBoundary session prompt options shape)
    (hcompatible : reuse.compatible = true) :
    0 < recordedBoundary prompt reuse ∧
      SplitAt (reuse.target prompt prepared e).cache.rows (recordedBoundary prompt reuse) := by
  have hpos := h.prompt_pos
  have hle := h.reused_le_length
  have hstate := h.state
  rw [if_pos hcompatible] at hstate
  obtain ⟨cache, hcache, -, hrows⟩ := hstate
  obtain ⟨hboundary, hsplitAt⟩ := hbounded cache hcache
  obtain ⟨hrestore, hcold⟩ := h.plan ▸ reuseClass_compatible (h.plan ▸ hcompatible)
  have hreplay := h.replayPrefillBoundary
  have hsplit : ¬ reuse.splitReplay prompt.length = true := by
    rw [splitReplay_eq]
    exact fun hcases => hrestore hcases.1
  have hrecorded : recordedBoundary prompt reuse = min session.prefillBoundary prompt.length := by
    rw [recordedBoundary, if_neg (by rw [hreplay]; simp only [hcold, false_or]; omega), hreplay]
  replace hkeeps := hkeeps (h.plan ▸ hcompatible)
  rw [← h.plan] at hkeeps
  rw [hrecorded]
  refine ⟨by omega, ?_⟩
  by_cases hzero : reuse.reusedTokens = 0
  · rw [if_pos hzero] at hkeeps
    rw [Nat.min_eq_right hkeeps]
    rw [hzero, List.take_zero] at hrows
    exact h.splitAt_whole hsplit hzero hrows
  · rw [if_neg hzero] at hkeeps
    have hprefill := h.prefill
    rw [preparePrefillForGeneration, if_neg hsplit] at hprefill
    have hevaluation := prepareGenerationPrefill_evaluation hprefill
    rw [if_neg hzero] at hevaluation
    rw [GenerationReuse.target, if_neg hsplit, finish_cache_rows, hrows, beq_false_of_ne hzero]
    -- the kept rows are cut where the boundary is
    have hkept : SplitAt (cache.rows.take reuse.reusedTokens)
        (min session.prefillBoundary prompt.length) := by
      have hmin : min session.prefillBoundary prompt.length =
          min session.prefillBoundary reuse.reusedTokens := by omega
      rw [hmin]
      exact hsplitAt.take _
    exact hkept.append (continued_rowsOf hevaluation _)

/-- The rows of a prefill are split at the boundary that its commit records. -/
theorem Planned.target_splitAt (h : Planned rt session prompt options shape reuse prepared e)
    (hbounded : session.Bounded) (hkeeps : KeepsBoundary session prompt options shape) :
    0 < recordedBoundary prompt reuse ∧
      SplitAt (reuse.target prompt prepared e).cache.rows (recordedBoundary prompt reuse) := by
  by_cases hcompatible : reuse.compatible = true
  · exact h.splitAt_compatible hbounded hkeeps hcompatible
  · exact h.splitAt_incompatible hcompatible

end Planned

/-! ## Runs -/

/-- A request of the operation keeps the boundary. The other operations always do. -/
def SessionOp.KeepsBoundary (rt : Runtime) (session : GenerationSession) : SessionOp → Prop
  | .generate prompt options _ => ∀ shape ∈ (validateGenerationRequest rt prompt options).toOption,
      Session.KeepsBoundary session prompt options shape
  | .prefill prompt options _ => ∀ shape ∈ (validateGenerationRequest rt prompt options).toOption,
      Session.KeepsBoundary session prompt options shape
  | _ => True

instance (session : GenerationSession) (prompt : List Token) (options : GenerateOptions)
    (shape : AttentionShape) : Decidable (KeepsBoundary session prompt options shape) :=
  inferInstanceAs (Decidable (_ → _))

instance (rt : Runtime) (session : GenerationSession) :
    ∀ op : SessionOp, Decidable (op.KeepsBoundary rt session)
  | .generate _ _ _ => inferInstanceAs (Decidable (∀ _ ∈ _, _))
  | .prefill _ _ _ => inferInstanceAs (Decidable (∀ _ ∈ _, _))
  | .decode _ => .isTrue trivial
  | .fork => .isTrue trivial
  | .forkPrefix _ => .isTrue trivial
  | .reusePrefix => .isTrue trivial
  | .hibernate => .isTrue trivial
  | .restore => .isTrue trivial
  | .restoreTokens _ => .isTrue trivial
  | .discard => .isTrue trivial

theorem Planned.shape_mem {rt : Runtime} {session : GenerationSession} {prompt : List Token}
    {options : GenerateOptions} {shape : AttentionShape} {reuse : GenerationReuse}
    {prepared : PreparedPrefill} {e : Evaluator}
    (h : Planned rt session prompt options shape reuse prepared e) :
    shape ∈ (validateGenerationRequest rt prompt options).toOption := by
  rw [h.request]
  rfl

theorem GenerationSession.Bounded.copy {session session' : GenerationSession} (h : session.Bounded)
    (hstate : session'.state = session.state)
    (hboundary : session'.prefillBoundary = session.prefillBoundary) : session'.Bounded := by
  intro cache hcache
  rw [hboundary]
  exact h cache (hstate ▸ hcache)

theorem bounded_of_none {session : GenerationSession} (h : session.state = none) :
    session.Bounded := by
  intro cache hcache
  rw [h] at hcache
  cases hcache

theorem apply_bounded {rt : Runtime} {session session' : GenerationSession} {op : SessionOp}
    (hsession : session.Consistent) (hbounded : session.Bounded)
    (hkeeps : op.KeepsBoundary rt session) (h : op.apply rt session = .ok session') :
    session'.Bounded := by
  cases op with
  | generate prompt options emitted =>
    obtain ⟨shape, reuse, prepared, e, decoded, hplan, hdecode, rfl⟩ :=
      generateSessionTokens_ok hsession h
    obtain ⟨hpos, hsplitAt⟩ := hplan.target_splitAt hbounded (hkeeps shape hplan.shape_mem)
    intro cache hcache
    cases hcache
    refine ⟨hpos, ?_⟩
    rw [(decodeTokens_ok hdecode).1]
    exact hsplitAt.append (continued_rowsOf (by simp) _)
  | prefill prompt options extras =>
    rcases prefillSession_ok hsession h with rfl | ⟨shape, reuse, prepared, e, hplan, rfl⟩
    · exact bounded_of_none rfl
    · intro cache hcache
      cases hcache
      exact hplan.target_splitAt hbounded (hkeeps shape hplan.shape_mem)
  | decode token =>
    obtain ⟨cache, hcache, -, hboundary, hstate, -⟩ := decodeSession_ok h
    intro cache' hcache'
    rw [hstate] at hcache'
    cases hcache'
    rw [hboundary]
    obtain ⟨hpos, hsplitAt⟩ := hbounded cache hcache
    exact ⟨hpos, hsplitAt.append (continued_rowsOf (by simp) _)⟩
  | fork =>
    obtain ⟨-, -, -, rfl⟩ := forkSession_ok h
    exact hbounded.copy rfl rfl
  | forkPrefix prefixTokens =>
    obtain ⟨hkept, cache, hcache, -, rfl⟩ := forkSessionPrefix_ok h
    intro cache' hcache'
    cases hcache'
    obtain ⟨hpos, hsplitAt⟩ := hbounded cache hcache
    exact ⟨Nat.lt_min.mpr ⟨hpos, hkept⟩, hsplitAt.take _⟩
  | reusePrefix =>
    obtain ⟨-, -, -, rfl⟩ := forkSession_ok h
    exact hbounded.copy rfl rfl
  | hibernate =>
    rw [hibernateAndWake_ok h]
    exact hbounded.copy rfl rfl
  | restore =>
    cases h
    exact bounded_of_none rfl
  | restoreTokens tokens =>
    cases h
    exact bounded_of_none rfl
  | discard =>
    cases h
    exact bounded_of_none rfl

theorem step_bounded {rt : Runtime} {session : GenerationSession} {op : SessionOp}
    (h : session.Consistent ∧ session.Bounded) (hkeeps : op.KeepsBoundary rt session) :
    (SessionOp.step rt session op).Consistent ∧ (SessionOp.step rt session op).Bounded := by
  refine ⟨step_consistent op h.1, ?_⟩
  rw [SessionOp.step]
  split
  · next session' happly => exact apply_bounded h.1 h.2 hkeeps happly
  · exact h.2

/-! ## Replay -/

theorem restoredOrCold_of_restored {commonTokens cachedTokens restoredCommon : Nat}
    (h : 0 < restoredCommon) :
    restoredOrColdReuseClass commonTokens cachedTokens restoredCommon = .restoreReplay :=
  if_pos (.inr h)

/-- A request on a restored session takes no retained state. -/
theorem restore_reuse {session : GenerationSession} {prompt : List Token} {options : GenerateOptions}
    {shape : AttentionShape} (hne : session.evaluatedTokens ≠ [])
    (hprompt : session.evaluatedTokens <+: prompt) :
    (generationReuse session.restore prompt options shape).compatible = false ∧
      (generationReuse session.restore prompt options shape).reuseClass = .restoreReplay := by
  have hcommon : 0 < commonPrefix prompt session.evaluatedTokens := by
    obtain ⟨rest, rfl⟩ := hprompt
    cases htokens : session.evaluatedTokens with
    | nil => exact absurd htokens hne
    | cons token tokens => simp [commonPrefix]
  refine ⟨rfl, ?_⟩
  exact restoredOrCold_of_restored hcommon

/-- The boundary of a session is exact, and a restored checkpoint of it evaluates every row again
the way the live session did. -/
structure ReplayExact (rt : Runtime) (session : GenerationSession) : Prop where
  boundary : ∀ cache, session.state = some cache → SplitAt cache.rows session.prefillBoundary
  replay : ∀ cache, session.state = some cache → ∀ prompt options reuse prepared e e',
    session.evaluatedTokens <+: prompt →
    prepareGeneration rt session.restore prompt options = .ok (reuse, prepared, e) →
    runGenerationPrefill prompt reuse prepared e = .ok e' →
    List.Forall₂ SameEvaluation cache.rows (e'.cache.rows.take cache.position)

theorem restore_consistent (session : GenerationSession) : session.restore.Consistent :=
  ⟨nofun, fun _ => rfl⟩

theorem replayExact_of_bounded {rt : Runtime} {session : GenerationSession}
    (hsession : session.Consistent) (hbounded : session.Bounded) : ReplayExact rt session := by
  refine ⟨fun cache hcache => (hbounded cache hcache).2, ?_⟩
  intro cache hcache prompt options reuse prepared e e' hprompt hprepare hrun
  obtain ⟨hpos, hsplitAt⟩ := hbounded cache hcache
  have htokens := hsession.tokens cache hcache
  have hlength : session.evaluatedTokens.length = cache.rows.length := by
    rw [← htokens, ← position_eq_length]
    rfl
  obtain ⟨shape, hplan⟩ := prepareGeneration_ok hprepare
  rw [hplan.runGenerationPrefill (restore_consistent session)] at hrun
  obtain rfl := Except.ok.inj hrun
  have hne : session.evaluatedTokens ≠ [] := by
    apply List.ne_nil_of_length_pos
    rw [hlength]
    exact hpos.trans_le hsplitAt.le
  obtain ⟨hcompatible, hclass⟩ := @restore_reuse _ _ options shape hne hprompt
  rw [← hplan.plan] at hcompatible hclass
  obtain ⟨-, hreplayed⟩ := hplan.splitAt_incompatible (by simp [hcompatible])
  have hle := hprompt.length_le
  have hrecorded : recordedBoundary prompt reuse = session.prefillBoundary := by
    have hreplay := hplan.replayPrefillBoundary
    have hboundary : session.restore.prefillBoundary = session.prefillBoundary := rfl
    have := hsplitAt.le
    rw [recordedBoundary, if_neg (by rw [hclass]; simp; omega)]
    omega
  rw [hrecorded] at hreplayed
  have hcut := hreplayed.take cache.position
  have hmin : min session.prefillBoundary cache.position = session.prefillBoundary :=
    Nat.min_eq_left hsplitAt.le
  rw [hmin] at hcut
  apply hsplitAt.same hcut
  change cache.tokens = _
  rw [List.map_take]
  change _ = (reuse.target prompt prepared e).cache.tokens.take cache.position
  rw [hplan.target_tokens (restore_consistent session), htokens, position_eq_length, htokens]
  exact List.prefix_iff_eq_take.mp hprompt

/-- A prompt that branches below the boundary. -/
def belowBoundary : List SessionOp :=
  [.generate [1, 2, 3] eagerOptions [4], .generate [1, 5] eagerOptions [6]]

end Leone.Session

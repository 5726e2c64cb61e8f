import Leone.Session.Advance

/-!
# The plan of a request

What a request reuses of a session, how it prepares its prefill, and the evaluator that the
prefill leads to, in one call or in advances.
-/

namespace Leone.Session

open Framework Kv

/-! ## What a request starts from -/

theorem commonPrefix_le_left (prompt tokens : List Token) :
    commonPrefix prompt tokens ≤ prompt.length := by
  induction prompt generalizing tokens with
  | nil => exact Nat.zero_le _
  | cons left lefts ih =>
    cases tokens with
    | nil => exact Nat.zero_le _
    | cons right rights =>
      rw [commonPrefix, List.length_cons]
      split
      · exact Nat.succ_le_succ (ih rights)
      · exact Nat.zero_le _

/-- Two lists agree on their common prefix. -/
theorem take_eq_take {prompt tokens : List Token} {n : Nat} (h : n ≤ commonPrefix prompt tokens) :
    tokens.take n = prompt.take n := by
  induction prompt generalizing tokens n with
  | nil => simp [Nat.le_zero.mp h]
  | cons left lefts ih =>
    cases tokens with
    | nil => simp [Nat.le_zero.mp h]
    | cons right rights =>
      rw [commonPrefix] at h
      cases n with
      | zero => rfl
      | succ n =>
        split at h
        · next heq => rw [List.take_succ_cons, List.take_succ_cons, heq, ih (Nat.le_of_succ_le_succ h)]
        · omega

/-- The KV rows of a session are those of its evaluated tokens. -/
structure GenerationSession.Consistent (session : GenerationSession) : Prop where
  tokens : ∀ cache, session.state = some cache → cache.tokens = session.evaluatedTokens
  empty : session.state = none → session.evaluatedTokens = []

theorem reusedTokens_le (compatible : Bool) (commonTokens promptTokens cachedTokens : Nat) :
    reusedTokens compatible commonTokens promptTokens cachedTokens ≤ commonTokens := by
  unfold reusedTokens
  split
  · exact Nat.sub_le _ _
  · split
    · exact Nat.le_refl _
    · exact Nat.zero_le _

theorem onBackend_eq_ok {α : Type} {r : Except BackendError α} {a : α} :
    onBackend r = .ok a ↔ r = .ok a := by
  cases r with
  | ok b => simp [onBackend, Except.mapError]
  | error e => simp [onBackend, Except.mapError]

theorem attentionShape_maxContext {nHead nHeadKv headDim maxContext : Nat} {shape : AttentionShape}
    (h : AttentionShape.new nHead nHeadKv headDim maxContext = .ok shape) :
    shape.maxContext = maxContext := by
  rw [AttentionShape.new] at h
  obtain ⟨_, -, h⟩ := bind_eq_ok.mp h
  split_ifs at h
  cases h
  rfl

/-- The context bucket of a request holds its prompt. -/
theorem generationContextBucket_ok {rt : Runtime} {promptTokens maxTokens bucket : Nat}
    (h : generationContextBucket rt promptTokens maxTokens = .ok bucket) : promptTokens ≤ bucket := by
  unfold generationContextBucket at h
  split at h
  · cases h
  · next requested hrequested =>
    split at h
    · cases h
    · rw [onBackend_eq_ok, decodeGraphBucket, sized_eq_ok, checkedNextPowerOfTwo] at h
      obtain ⟨decoded, -, hsum⟩ := Option.bind_eq_some_iff.mp hrequested
      have hle : promptTokens ≤ requested := (checkedAdd_eq_some.mp hsum).2 ▸ Nat.le_add_right _ _
      split at h
      · cases h
        exact (hle.trans (Nat.le_max_left _ _)).trans (Nat.le_pow_clog Nat.one_lt_two _)
      · cases h

theorem validateGenerationOptions_ok {rt : Runtime} {prompt : List Token} {options : GenerateOptions}
    (h : validateGenerationOptions rt options prompt = .ok ()) : prompt ≠ [] := by
  intro hnil
  unfold validateGenerationOptions at h
  split_ifs at h

theorem validateGenerationRequest_ok {rt : Runtime} {prompt : List Token} {options : GenerateOptions}
    {shape : AttentionShape} (h : validateGenerationRequest rt prompt options = .ok shape) :
    prompt ≠ [] ∧ prompt.length ≤ shape.maxContext := by
  rw [validateGenerationRequest] at h
  obtain ⟨_, hoptions, h⟩ := bind_eq_ok.mp h
  obtain ⟨_, -, h⟩ := bind_eq_ok.mp h
  obtain ⟨contextBucket, hbucket, hshape⟩ := bind_eq_ok.mp h
  rw [attentionShape_maxContext (onBackend_eq_ok.mp hshape)]
  exact ⟨validateGenerationOptions_ok hoptions, generationContextBucket_ok hbucket⟩

/-! ## The plan of a request -/

theorem preparePromptPrefillWithNumerics_fits {rt : Runtime} {prefillTokens chunkTokens : Nat}
    {numerics : PrefillNumerics} {prepared : PreparedPrefill}
    (h : preparePromptPrefillWithNumerics rt prefillTokens chunkTokens numerics = .ok prepared) :
    prepared.Fits prefillTokens := by
  unfold preparePromptPrefillWithNumerics at h
  split_ifs at h with hzero hmethod hchunk
  · cases h
    exact hzero
  · cases h
    trivial
  · cases h
    refine ⟨by omega, Nat.pos_of_ne_zero hzero, fun hmod => ?_⟩
    rw [if_neg hmod]

theorem prepareReplayPrefill_fits {rt : Runtime} {replayTokens : Nat} {options : GenerateOptions}
    {prepared : PreparedPrefill} (h : prepareReplayPrefill rt replayTokens options = .ok prepared) :
    prepared.Fits replayTokens := by
  unfold prepareReplayPrefill at h
  split at h
  · cases h
    trivial
  · exact preparePromptPrefillWithNumerics_fits h

theorem prepareGenerationPrefill_fits {rt : Runtime} {prefillTokens reusedTokens : Nat}
    {options : GenerateOptions} {prepared : PreparedPrefill}
    (h : prepareGenerationPrefill rt prefillTokens options reusedTokens = .ok prepared) :
    prepared.Fits prefillTokens := by
  unfold prepareGenerationPrefill at h
  split at h
  · cases h
    trivial
  · exact preparePromptPrefillWithNumerics_fits h

theorem truncate_eq_ok {c c' : KvCache} {position : Nat} :
    c.truncate position = .ok c' ↔
      position ≤ c.position ∧ c' = { c with rows := c.rows.take position } := by
  rw [KvCache.truncate]
  split
  · next h => simp only [reduceCtorEq, false_iff]; omega
  · next h => simp only [Except.ok.injEq, eq_comm, and_iff_right (Nat.not_lt.mp h)]

theorem prepareFirstAppend_eq {c c' : KvCache} {position : Nat} {firstAppend : Option Nat}
    (h : c.prepareFirstAppend position firstAppend = .ok c') :
    c' = { c with rows := c.rows.take position } := by
  rw [KvCache.prepareFirstAppend] at h
  obtain ⟨cut, hcut, h⟩ := bind_eq_ok.mp h
  rw [← (truncate_eq_ok.mp hcut).2]
  cases firstAppend with
  | none => exact (Except.ok.inj h).symm
  | some tokens =>
    obtain ⟨_, -, h⟩ := bind_eq_ok.mp h
    exact (Except.ok.inj h).symm

/-- The cache that a compatible request takes has its rows cut and room for its shape. -/
theorem prepareCompatibleState_ok {c c' : KvCache} {shape : AttentionShape} {reused : Nat}
    {firstAppend : Option Nat} {dtype : KvCacheDtype} {cachedTokens commonTokens : Nat}
    (hcompatible : retainedStateCompatible c shape dtype cachedTokens commonTokens = true)
    (h : prepareCompatibleState c shape reused firstAppend = .ok c') :
    c'.rows = c.rows.take reused ∧ shape.maxContext ≤ c'.shape.maxContext := by
  unfold prepareCompatibleState at h
  split at h
  · rw [prepareFirstAppend_eq h]
    exact ⟨rfl, Nat.le_refl _⟩
  · next hgrowth =>
    rw [prepareFirstAppend_eq h]
    refine ⟨rfl, ?_⟩
    simp only
    by_contra hlt
    apply hgrowth
    unfold retainedStateCompatible at hcompatible
    split at hcompatible
    · cases hcompatible
    · simp only [Bool.or_eq_true, Bool.and_eq_true, decide_eq_true_eq, KvCache.canRetainAt] at hcompatible
      rcases hcompatible with heq | ⟨-, hlayout, -⟩
      · rw [heq] at hlt
        exact absurd (Nat.le_refl _) hlt
      · simp only [needsShapeGrowth, KvCache.canGrowTo, hlayout, Bool.and_eq_true,
          decide_eq_true_eq, true_and]
        omega

/-- What a prefill starts from. -/
structure Planned (rt : Runtime) (session : GenerationSession) (prompt : List Token)
    (options : GenerateOptions) (shape : AttentionShape) (reuse : GenerationReuse)
    (prepared : PreparedPrefill) (e : Evaluator) : Prop where
  request : validateGenerationRequest rt prompt options = .ok shape
  plan : reuse = generationReuse session prompt options shape
  prefill : preparePrefillForGeneration rt prompt options reuse = .ok prepared
  calls : e.calls = []
  room : prompt.length ≤ e.cache.shape.maxContext
  state : if reuse.compatible = true then
      ∃ cache, session.state = some cache ∧ session.activations = some e.activations ∧
        e.cache.rows = cache.rows.take reuse.reusedTokens
    else e.cache.rows = [] ∧ e.activations = .new

theorem prepareGeneration_ok {rt : Runtime} {session : GenerationSession} {prompt : List Token}
    {options : GenerateOptions} {reuse : GenerationReuse} {prepared : PreparedPrefill} {e : Evaluator}
    (h : prepareGeneration rt session prompt options = .ok (reuse, prepared, e)) :
    ∃ shape, Planned rt session prompt options shape reuse prepared e := by
  rw [prepareGeneration] at h
  obtain ⟨shape, hrequest, h⟩ := bind_eq_ok.mp h
  obtain ⟨prepared', hprepared, h⟩ := bind_eq_ok.mp h
  obtain ⟨⟨cache, activations⟩, hstate, h⟩ := bind_eq_ok.mp h
  cases h
  have hfits := (validateGenerationRequest_ok hrequest).2
  unfold takeGenerationState at hstate
  split at hstate
  · next hcompatible =>
    split at hstate
    · next c a hsome ha =>
      obtain ⟨c', hc, h⟩ := bind_eq_ok.mp hstate
      cases h
      have hretained : sessionCompatible session prompt options shape = true := hcompatible
      simp only [sessionCompatible, hsome, Bool.and_eq_true] at hretained
      obtain ⟨hrows, hroom⟩ := prepareCompatibleState_ok hretained.1 (onBackend_eq_ok.mp hc)
      refine ⟨shape, hrequest, rfl, hprepared, rfl, hfits.trans hroom, ?_⟩
      rw [if_pos hcompatible]
      exact ⟨c, hsome, ha, hrows⟩
    · cases hstate
  · next hcompatible =>
    obtain ⟨c', hc, h⟩ := bind_eq_ok.mp hstate
    cases h
    have hcache := prepareFirstAppend_eq (onBackend_eq_ok.mp hc)
    refine ⟨shape, hrequest, rfl, hprepared, rfl, ?_, ?_⟩
    · rw [hcache]
      exact hfits
    · rw [if_neg hcompatible, hcache]
      exact ⟨rfl, rfl⟩

section Planned

variable {rt : Runtime} {session : GenerationSession} {prompt : List Token}
  {options : GenerateOptions} {shape : AttentionShape} {reuse : GenerationReuse}
  {prepared : PreparedPrefill} {e : Evaluator}

theorem Planned.reused_le (h : Planned rt session prompt options shape reuse prepared e) :
    reuse.reusedTokens ≤ commonPrefix prompt session.evaluatedTokens := by
  rw [h.plan]
  exact reusedTokens_le _ _ _ _

theorem Planned.reused_le_length (h : Planned rt session prompt options shape reuse prepared e) :
    reuse.reusedTokens ≤ prompt.length := h.reused_le.trans (commonPrefix_le_left _ _)

theorem Planned.reused_incompatible (h : Planned rt session prompt options shape reuse prepared e)
    (hcompatible : reuse.compatible ≠ true) : reuse.reusedTokens = 0 := by
  rw [h.plan] at hcompatible ⊢
  simp only [generationReuse] at hcompatible ⊢
  simp [reusedTokens, hcompatible]

/-- The rows that stay are those of the prompt. -/
theorem Planned.tokens (h : Planned rt session prompt options shape reuse prepared e)
    (hsession : session.Consistent) : e.cache.tokens = prompt.take reuse.reusedTokens := by
  have hstate := h.state
  split at hstate
  · obtain ⟨cache, hsome, -, hrows⟩ := hstate
    rw [← take_eq_take h.reused_le, ← hsession.tokens cache hsome, KvCache.tokens, hrows, List.map_take]
    rfl
  · next hcompatible =>
    rw [KvCache.tokens, hstate.1, h.reused_incompatible hcompatible]
    rfl

theorem Planned.size (h : Planned rt session prompt options shape reuse prepared e) :
    prompt.length < 2 ^ 64 := h.room.trans_lt e.cache.shape.maxContext_lt

theorem splitReplay_eq (reuse : GenerationReuse) (promptTokens : Nat) :
    reuse.splitReplay promptTokens = true ↔ reuse.reuseClass = .restoreReplay ∧
      reuse.reusedTokens = 0 ∧ 0 < reuse.replayPrefillBoundary ∧
      reuse.replayPrefillBoundary < promptTokens := by
  rw [GenerationReuse.splitReplay, decide_eq_true_iff]

/-- The evaluator that the prefill of a request leads to. -/
def GenerationReuse.target (reuse : GenerationReuse) (prompt : List Token)
    (prepared : PreparedPrefill) (e : Evaluator) : Evaluator :=
  if reuse.splitReplay prompt.length then
    (e.finish prepared true (prompt.take reuse.replayPrefillBoundary)).finish .sequential false
      (prompt.drop reuse.replayPrefillBoundary)
  else e.finish prepared (reuse.reusedTokens == 0) (prompt.drop reuse.reusedTokens)

/-- The prefill of a generation call leads to its target. -/
theorem Planned.runGenerationPrefill (h : Planned rt session prompt options shape reuse prepared e)
    (hsession : session.Consistent) :
    runGenerationPrefill prompt reuse prepared e = .ok (reuse.target prompt prepared e) := by
  have hsize : prompt.length ≤ unlimited := Nat.le_sub_one_of_lt h.size
  have hroom := h.room
  have hreused := h.reused_le_length
  have hposition : e.cache.position = reuse.reusedTokens := by
    rw [position_eq_length, h.tokens hsession, List.length_take_of_le hreused]
  have hprefill := h.prefill
  rw [preparePrefillForGeneration] at hprefill
  rw [Session.runGenerationPrefill, GenerationReuse.target]
  split
  · next hsplit =>
    obtain ⟨-, hzero, -, hlt⟩ := (splitReplay_eq _ _).mp hsplit
    rw [if_pos hsplit] at hprefill
    have htake : (prompt.take reuse.replayPrefillBoundary).length = reuse.replayPrefillBoundary :=
      List.length_take_of_le hlt.le
    rw [runPromptPrefill_ok true (by rw [htake]; exact prepareReplayPrefill_fits hprefill)
      (by omega) (by omega)]
    have hfits : PreparedPrefill.sequential.Fits
        (prompt.drop reuse.replayPrefillBoundary).length := trivial
    simp only [bind, Except.bind]
    rw [runPromptPrefill_ok false hfits (by
      rw [finish_cache_position, htake, List.length_drop]
      change _ ≤ e.cache.shape.maxContext
      omega) (by rw [List.length_drop]; omega)]
    rfl
  · next hsplit =>
    rw [if_neg hsplit] at hprefill
    rw [runPromptPrefill_ok _ (by
      rw [List.length_drop]
      exact prepareGenerationPrefill_fits hprefill)
      (by rw [List.length_drop]; omega) (by rw [List.length_drop]; omega)]
    rfl

end Planned

/-- A begun prefill is well formed and leads to the target of its plan. -/
theorem beginPrefill_ok {rt : Runtime} {session : GenerationSession} {prompt : List Token}
    {options : GenerateOptions} {p : PendingPrefill} (hsession : session.Consistent)
    (h : beginPrefill rt session prompt options = .ok p) :
    ∃ shape prepared e, Planned rt session prompt options shape p.reuse prepared e ∧
      prepareGeneration rt session prompt options = .ok (p.reuse, prepared, e) ∧
      p.promptTokens = prompt ∧ p.evaluator = e ∧ p.WellFormed ∧
      p.target = p.reuse.target prompt prepared e := by
  rw [beginPrefill] at h
  obtain ⟨⟨reuse, prepared, e⟩, hprepare, h⟩ := bind_eq_ok.mp h
  obtain ⟨shape, hplan⟩ := prepareGeneration_ok hprepare
  cases h
  have htokens := hplan.tokens hsession
  have hreused := hplan.reused_le_length
  have hprefill := hplan.prefill
  rw [preparePrefillForGeneration] at hprefill
  refine ⟨shape, prepared, e, hplan, hprepare, rfl, rfl, ⟨hplan.room, hplan.size, ?_⟩, ?_⟩
  · simp only
    split
    · next hsplit =>
      obtain ⟨-, hzero, hpos, hlt⟩ := (splitReplay_eq _ _).mp hsplit
      rw [if_pos hsplit] at hprefill
      rw [hzero] at htokens
      exact ⟨hpos, htokens, Nat.zero_le _, hlt.le, prepareReplayPrefill_fits hprefill⟩
    · next hsplit =>
      rw [if_neg hsplit] at hprefill
      exact ⟨rfl, htokens, hreused, Nat.le_refl _, prepareGenerationPrefill_fits hprefill⟩
  · rw [GenerationReuse.target]
    split
    · simp [PendingPrefill.target, promptRange]
    · simp [PendingPrefill.target, promptRange]

/-! ## Where a prefill leads -/

section Planned

variable {rt : Runtime} {session : GenerationSession} {prompt : List Token}
  {options : GenerateOptions} {shape : AttentionShape} {reuse : GenerationReuse}
  {prepared : PreparedPrefill} {e : Evaluator}

theorem Planned.target_tokens (h : Planned rt session prompt options shape reuse prepared e)
    (hsession : session.Consistent) : (reuse.target prompt prepared e).cache.tokens = prompt := by
  have htokens := h.tokens hsession
  rw [GenerationReuse.target]
  split
  · next hsplit =>
    obtain ⟨-, hzero, -, -⟩ := (splitReplay_eq _ _).mp hsplit
    rw [finish_cache_tokens, finish_cache_tokens, htokens, hzero, List.take_zero, List.nil_append,
      List.take_append_drop]
  · rw [finish_cache_tokens, htokens, List.take_append_drop]

theorem finish_activations (e : Evaluator) (prepared : PreparedPrefill) (initial : Bool)
    (tokens : List Token) :
    (e.finish prepared initial tokens).activations = e.activations.after e.cache.tokens tokens := rfl

/-- The activations that a prefill leads to are those of the whole prompt, if it evaluates any
of it. -/
theorem Planned.target_activations (h : Planned rt session prompt options shape reuse prepared e)
    (hsession : session.Consistent) :
    (reuse.target prompt prepared e).activations =
      if reuse.reusedTokens < prompt.length then .full prompt else e.activations := by
  have htokens := h.tokens hsession
  rw [GenerationReuse.target]
  split
  · next hsplit =>
    obtain ⟨-, hzero, hpos, hlt⟩ := (splitReplay_eq _ _).mp hsplit
    rw [hzero, List.take_zero] at htokens
    rw [finish_activations, finish_cache_tokens, htokens, List.nil_append, Activations.after,
      if_neg (by rw [List.drop_eq_nil_iff]; omega), List.take_append_drop, if_pos (by omega)]
  · rw [finish_activations, htokens, Activations.after, List.take_append_drop]
    simp only [List.drop_eq_nil_iff]
    by_cases hlt : reuse.reusedTokens < prompt.length
    · rw [if_neg (Nat.not_le.mpr hlt), if_pos hlt]
    · rw [if_pos (Nat.not_lt.mp hlt), if_neg hlt]

end Planned

end Leone.Session

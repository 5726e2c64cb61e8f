import Leone.Session.Plan
import Leone.Framework.Machine

/-!
# Runs of a session

The operations that commit, copy, cut, restore or discard a session. A failed operation is a step
that changes nothing. A session that is reached this way holds the KV rows of its evaluated
tokens.
-/

namespace Leone.Session

open Framework Kv

/-! ## Operations -/

def commitGenerationSession (prompt tokens : List Token) (cache : KvCache)
    (activations : Activations) (reuse : GenerationReuse) : GenerationSession :=
  { state := some cache
    activations := some activations
    evaluatedTokens := (prompt ++ tokens).take (min cache.position (prompt ++ tokens).length)
    restoredTokens := []
    retainedLogitsPosition := some cache.position
    prefillBoundary :=
      if reuse.reuseClass = .cold ∨ reuse.replayPrefillBoundary = 0 then prompt.length
      else reuse.replayPrefillBoundary
    pendingFork := false
    pendingWake := false }

/-- The decode rows that a generation keeps. A round may evaluate more positions and cut them. -/
def decodeTokens : List Token → Evaluator → Except RuntimeError Evaluator
  | [], e => .ok e
  | token :: tokens, e => do
    let e ← forwardToken false token .logits e
    decodeTokens tokens e

/-- A completed or stopped generation. The last emitted token is not evaluated. -/
def generateSessionTokens (rt : Runtime) (session : GenerationSession) (prompt : List Token)
    (options : GenerateOptions) (emitted : List Token) : Except RuntimeError GenerationSession := do
  let (reuse, prepared, e) ← prepareGeneration rt session prompt options
  let e ← runGenerationPrefill prompt reuse prepared e
  let e ← decodeTokens emitted.dropLast e
  return commitGenerationSession prompt emitted e.cache e.activations reuse

/-- Commits ready prompt state to a generation session. -/
def finishPrefill (ready : ReadyPrefill) : GenerationSession :=
  commitGenerationSession ready.promptTokens [] ready.evaluator.cache ready.evaluator.activations
    ready.reuse

/-- The budgets that exceed the minimum by the given tokens. -/
def budgetsFrom : List Nat → PendingPrefill → List Nat
  | [], _ => []
  | extra :: extras, p => (p.minimumBudget + extra) ::
      match advancePrefill p (p.minimumBudget + extra) with
      | some (.ok (.pending p')) => budgetsFrom extras p'
      | _ => []

/-- A prefill that becomes ready is committed. One that does not is dropped. An advance below the
minimum budget, which fails or does nothing, is left out. -/
def prefillSession (rt : Runtime) (session : GenerationSession) (prompt : List Token)
    (options : GenerateOptions) (extras : List Nat) : Except RuntimeError GenerationSession := do
  let p ← beginPrefill rt session prompt options
  match advances (budgetsFrom extras p) p with
  | some (.ok (.ready ready)) => return finishPrefill ready
  | _ => return .new

/-- The part of a shared decode pass that is one session's: its staged token is evaluated. -/
def decodeSession (session : GenerationSession) (token : Token) :
    Except RuntimeError GenerationSession :=
  match session.state, session.activations with
  | some cache, some activations => do
    let e ← forwardToken false token .logits ⟨cache, activations, []⟩
    return { session with
      state := some e.cache
      activations := some e.activations
      evaluatedTokens := session.evaluatedTokens ++ [token]
      retainedLogitsPosition := some (session.evaluatedTokens.length + 1) }
  | _, _ => .error .sessionForkUnavailable

def reusableSessionBuffers (source : GenerationSession) :
    Except RuntimeError (KvCache × Activations) :=
  if source.evaluatedTokens = [] then .error .sessionForkUnavailable
  else
    match source.state, source.activations with
    | some state, some activations => .ok (state, activations)
    | _, _ => .error .sessionForkUnavailable

def forkSession (source : GenerationSession) : Except RuntimeError GenerationSession := do
  let (state, activations) ← reusableSessionBuffers source
  return { source with
    state := some state, activations := some activations, pendingFork := true, pendingWake := false }

/-- Copies a live session and retains only its requested prefix. -/
def forkSessionPrefix (source : GenerationSession) (prefixTokens : Nat) :
    Except RuntimeError GenerationSession :=
  if prefixTokens = 0 then .error .emptyPrompt
  else if source.evaluatedTokens.length < prefixTokens then
    .error (.contextCapacity prefixTokens source.evaluatedTokens.length)
  else do
    let child ← forkSession source
    match child.state with
    | none => .error .sessionForkUnavailable
    | some state => do
      let state ← onBackend (state.truncate prefixTokens)
      return { child with
        state := some state
        evaluatedTokens := child.evaluatedTokens.take prefixTokens
        restoredTokens := child.restoredTokens.take prefixTokens
        retainedLogitsPosition := none
        prefillBoundary := min child.prefillBoundary prefixTokens }

/-- A session moved to host buffers and back. -/
def hibernateAndWake (source : GenerationSession) : Except RuntimeError GenerationSession := do
  let (state, activations) ← reusableSessionBuffers source
  return { source with
    state := some state, activations := some activations, pendingFork := false, pendingWake := true }

/-- Restores one host checkpoint for exact replay on the next request. -/
def GenerationSession.restore (source : GenerationSession) : GenerationSession :=
  { GenerationSession.new with
    restoredTokens := source.evaluatedTokens, prefillBoundary := source.prefillBoundary }

/-- Restores a token checkpoint for exact replay on the next request. -/
def GenerationSession.restoreTokens (tokens : List Token) : GenerationSession :=
  { GenerationSession.new with restoredTokens := tokens, prefillBoundary := tokens.length }

inductive SessionOp
  | generate (prompt : List Token) (options : GenerateOptions) (emitted : List Token)
  | prefill (prompt : List Token) (options : GenerateOptions) (extras : List Nat)
  | decode (token : Token)
  | fork
  | forkPrefix (prefixTokens : Nat)
  | reusePrefix
  | hibernate
  | restore
  | restoreTokens (tokens : List Token)
  | discard
  deriving DecidableEq

def SessionOp.apply (rt : Runtime) (session : GenerationSession) :
    SessionOp → Except RuntimeError GenerationSession
  | .generate prompt options emitted => generateSessionTokens rt session prompt options emitted
  | .prefill prompt options extras => prefillSession rt session prompt options extras
  | .decode token => decodeSession session token
  | .fork => forkSession session
  | .forkPrefix prefixTokens => forkSessionPrefix session prefixTokens
  -- a fork that only clears the controllers of the request
  | .reusePrefix => forkSession session
  | .hibernate => hibernateAndWake session
  | .restore => .ok session.restore
  | .restoreTokens tokens => .ok (GenerationSession.restoreTokens tokens)
  | .discard => .ok session.invalidate

/-- The session that an operation leaves. -/
def SessionOp.step (rt : Runtime) (session : GenerationSession) (op : SessionOp) :
    GenerationSession :=
  match op.apply rt session with
  | .ok session' => session'
  | .error _ => session

def sessionAfter (rt : Runtime) (ops : List SessionOp) : GenerationSession :=
  run (SessionOp.step rt) .new ops

/-! ## The invariant -/

theorem budgetsFrom_admissible (extras : List Nat) (p : PendingPrefill) :
    Admissible (budgetsFrom extras p) p := by
  induction extras generalizing p with
  | nil => trivial
  | cons extra extras ih =>
    refine ⟨Nat.le_add_right _ _, fun p' hpending => ?_⟩
    simp only [hpending]
    exact ih p'

theorem decodeTokens_ok {tokens : List Token} {e e' : Evaluator}
    (h : decodeTokens tokens e = .ok e') :
    e'.cache.rows = e.cache.rows ++ rowsOf .sequential false tokens ∧
      e'.activations = e.activations.after e.cache.tokens tokens := by
  induction tokens generalizing e with
  | nil =>
    cases h
    exact ⟨(List.append_nil _).symm, rfl⟩
  | cons token tokens ih =>
    rw [decodeTokens] at h
    obtain ⟨e₁, hforward, h⟩ := bind_eq_ok.mp h
    rw [forwardToken] at hforward
    obtain ⟨_, -, hforward⟩ := bind_eq_ok.mp hforward
    cases hforward
    obtain ⟨hrows, hactivations⟩ := ih h
    constructor
    · rw [hrows]
      simp [Evaluator.append, rowsOf]
    · rw [hactivations]
      by_cases hempty : tokens = []
      · simp [Activations.after, hempty, Evaluator.append, KvCache.tokens, Activations.full]
      · simp [Activations.after, hempty, Evaluator.append, KvCache.tokens]

theorem tokens_rowsOf (evaluation : Evaluation) (initial : Bool) (tokens : List Token) :
    (rowsOf evaluation initial tokens).map KvRow.token = tokens := by
  rw [rowsOf, List.map_map]
  exact List.map_id _

/-- A committed session holds the rows of its evaluated tokens. -/
theorem commit_consistent {prompt tokens : List Token} {cache : KvCache} {activations : Activations}
    {reuse : GenerationReuse} (h : cache.tokens = prompt ++ tokens.dropLast) :
    (commitGenerationSession prompt tokens cache activations reuse).Consistent := by
  refine ⟨fun cache' hcache => ?_, fun hnone => by cases hnone⟩
  cases hcache
  simp only [commitGenerationSession]
  rw [position_eq_length, h, List.length_append, List.length_append, List.length_dropLast,
    Nat.min_eq_left (by omega), List.take_length_add_append, List.dropLast_eq_take]

theorem beginPrefill_ready {rt : Runtime} {session : GenerationSession} {prompt : List Token}
    {options : GenerateOptions} {p : PendingPrefill} {ready : ReadyPrefill} {extras : List Nat}
    (hsession : session.Consistent) (h : beginPrefill rt session prompt options = .ok p)
    (hready : advances (budgetsFrom extras p) p = some (.ok (.ready ready))) :
    ∃ shape prepared e, Planned rt session prompt options shape ready.reuse prepared e ∧
      ready = ⟨prompt, ready.reuse.target prompt prepared e, ready.reuse⟩ := by
  obtain ⟨shape, prepared, e, hplan, -, hprompt, -, hwf, htarget⟩ := beginPrefill_ok hsession h
  rcases advances_ok hwf (budgetsFrom_admissible extras p) with heq | ⟨p', heq, -⟩
  · rw [heq] at hready
    cases hready
    rw [hprompt, htarget]
    exact ⟨shape, prepared, e, hplan, rfl⟩
  · rw [heq] at hready
    cases hready

theorem reusableSessionBuffers_ok {source : GenerationSession} {state : KvCache}
    {activations : Activations} (h : reusableSessionBuffers source = .ok (state, activations)) :
    source.evaluatedTokens ≠ [] ∧ source.state = some state ∧
      source.activations = some activations := by
  unfold reusableSessionBuffers at h
  split at h
  · cases h
  · next hne =>
    split at h
    · next hstate hactivations =>
      cases h
      exact ⟨hne, hstate, hactivations⟩
    · cases h

theorem GenerationSession.Consistent.copy {session session' : GenerationSession} (h : session.Consistent)
    (hstate : session'.state = session.state)
    (htokens : session'.evaluatedTokens = session.evaluatedTokens) : session'.Consistent :=
  ⟨fun cache hcache => by rw [htokens]; exact h.tokens cache (hstate ▸ hcache),
    fun hnone => by rw [htokens]; exact h.empty (hstate ▸ hnone)⟩

theorem forkSession_ok {source child : GenerationSession} (h : forkSession source = .ok child) :
    source.evaluatedTokens ≠ [] ∧ source.activations.isSome ∧ source.state.isSome ∧
      child = { source with pendingFork := true, pendingWake := false } := by
  rw [forkSession] at h
  obtain ⟨⟨state, activations⟩, hbuffers, h⟩ := bind_eq_ok.mp h
  obtain ⟨hne, hstate, hactivations⟩ := reusableSessionBuffers_ok hbuffers
  refine ⟨hne, by simp [hactivations], by simp [hstate], ?_⟩
  simp only [← hstate, ← hactivations] at h
  exact (Except.ok.inj h).symm

theorem hibernateAndWake_ok {source child : GenerationSession}
    (h : hibernateAndWake source = .ok child) :
    child = { source with pendingFork := false, pendingWake := true } := by
  rw [hibernateAndWake] at h
  obtain ⟨⟨state, activations⟩, hbuffers, h⟩ := bind_eq_ok.mp h
  obtain ⟨-, hstate, hactivations⟩ := reusableSessionBuffers_ok hbuffers
  simp only [← hstate, ← hactivations] at h
  exact (Except.ok.inj h).symm

theorem forkSessionPrefix_ok {source child : GenerationSession} {prefixTokens : Nat}
    (h : forkSessionPrefix source prefixTokens = .ok child) :
    0 < prefixTokens ∧ ∃ cache, source.state = some cache ∧ prefixTokens ≤ cache.position ∧
      child = { source with
        state := some { cache with rows := cache.rows.take prefixTokens }
        evaluatedTokens := source.evaluatedTokens.take prefixTokens
        restoredTokens := source.restoredTokens.take prefixTokens
        retainedLogitsPosition := none
        prefillBoundary := min source.prefillBoundary prefixTokens
        pendingFork := true
        pendingWake := false } := by
  unfold forkSessionPrefix at h
  split at h
  · cases h
  · next hpos =>
    split at h
    · cases h
    · obtain ⟨whole, hfork, h⟩ := bind_eq_ok.mp h
      obtain ⟨-, -, -, rfl⟩ := forkSession_ok hfork
      simp only at h
      split at h
      · cases h
      · next cache hcache =>
        obtain ⟨cut, hcut, h⟩ := bind_eq_ok.mp h
        obtain ⟨hle, rfl⟩ := truncate_eq_ok.mp (onBackend_eq_ok.mp hcut)
        exact ⟨Nat.pos_of_ne_zero hpos, cache, hcache, hle, (Except.ok.inj h).symm⟩

theorem decodeSession_ok {session session' : GenerationSession} {token : Token}
    (h : decodeSession session token = .ok session') :
    ∃ cache, session.state = some cache ∧ session'.activations.isSome ∧
      session'.prefillBoundary = session.prefillBoundary ∧
      session'.state = some { cache with
        rows := cache.rows ++ rowsOf .sequential false [token] } ∧
      session'.evaluatedTokens = session.evaluatedTokens ++ [token] := by
  unfold decodeSession at h
  split at h
  · next cache activations hstate hactivations =>
    obtain ⟨e, hforward, h⟩ := bind_eq_ok.mp h
    rw [forwardToken] at hforward
    obtain ⟨_, -, hforward⟩ := bind_eq_ok.mp hforward
    cases hforward
    cases h
    exact ⟨cache, hstate, rfl, rfl, rfl, rfl⟩
  · cases h

/-- What each operation that commits a prompt leaves. -/
theorem generateSessionTokens_ok {rt : Runtime} {session session' : GenerationSession}
    {prompt emitted : List Token} {options : GenerateOptions} (hsession : session.Consistent)
    (h : generateSessionTokens rt session prompt options emitted = .ok session') :
    ∃ shape reuse prepared e decoded, Planned rt session prompt options shape reuse prepared e ∧
      decodeTokens emitted.dropLast (reuse.target prompt prepared e) = .ok decoded ∧
      session' = commitGenerationSession prompt emitted decoded.cache decoded.activations reuse := by
  rw [generateSessionTokens] at h
  obtain ⟨⟨reuse, prepared, e⟩, hprepare, h⟩ := bind_eq_ok.mp h
  obtain ⟨shape, hplan⟩ := prepareGeneration_ok hprepare
  obtain ⟨target, htarget, h⟩ := bind_eq_ok.mp h
  rw [hplan.runGenerationPrefill hsession] at htarget
  obtain rfl := Except.ok.inj htarget
  obtain ⟨decoded, hdecode, h⟩ := bind_eq_ok.mp h
  exact ⟨shape, reuse, prepared, e, decoded, hplan, hdecode, (Except.ok.inj h).symm⟩

theorem prefillSession_ok {rt : Runtime} {session session' : GenerationSession}
    {prompt : List Token} {options : GenerateOptions} {extras : List Nat}
    (hsession : session.Consistent)
    (h : prefillSession rt session prompt options extras = .ok session') :
    session' = .new ∨ ∃ shape reuse prepared e,
      Planned rt session prompt options shape reuse prepared e ∧
      session' = commitGenerationSession prompt [] (reuse.target prompt prepared e).cache
        (reuse.target prompt prepared e).activations reuse := by
  rw [prefillSession] at h
  obtain ⟨p, hbegin, h⟩ := bind_eq_ok.mp h
  split at h
  · next ready hready =>
    obtain ⟨shape, prepared, e, hplan, heq⟩ := beginPrefill_ready hsession hbegin hready
    right
    refine ⟨shape, ready.reuse, prepared, e, hplan, ?_⟩
    rw [← Except.ok.inj h, finishPrefill, heq]
  · exact .inl (Except.ok.inj h).symm

theorem new_consistent : GenerationSession.new.Consistent :=
  ⟨nofun, fun _ => rfl⟩

theorem apply_consistent {rt : Runtime} {session session' : GenerationSession} {op : SessionOp}
    (hsession : session.Consistent) (h : op.apply rt session = .ok session') :
    session'.Consistent := by
  cases op with
  | generate prompt options emitted =>
    obtain ⟨shape, reuse, prepared, e, decoded, hplan, hdecode, rfl⟩ :=
      generateSessionTokens_ok hsession h
    apply commit_consistent
    rw [KvCache.tokens, (decodeTokens_ok hdecode).1, List.map_append, tokens_rowsOf]
    exact congrArg (· ++ emitted.dropLast) (hplan.target_tokens hsession)
  | prefill prompt options extras =>
    rcases prefillSession_ok hsession h with rfl | ⟨shape, reuse, prepared, e, hplan, rfl⟩
    · exact new_consistent
    · apply commit_consistent
      rw [hplan.target_tokens hsession, List.dropLast_nil, List.append_nil]
  | decode token =>
    obtain ⟨cache, hcache, -, -, hstate, htokens⟩ := decodeSession_ok h
    refine ⟨fun cache' hcache' => ?_, fun hnone => ?_⟩
    · rw [hstate] at hcache'
      cases hcache'
      rw [KvCache.tokens, List.map_append, tokens_rowsOf, htokens, ← hsession.tokens cache hcache]
      rfl
    · rw [hstate] at hnone
      cases hnone
  | fork =>
    obtain ⟨-, -, -, rfl⟩ := forkSession_ok h
    exact hsession.copy rfl rfl
  | forkPrefix prefixTokens =>
    obtain ⟨-, cache, hcache, hle, rfl⟩ := forkSessionPrefix_ok h
    refine ⟨fun cache' hcache' => ?_, fun hnone => by cases hnone⟩
    cases hcache'
    rw [← hsession.tokens cache hcache, KvCache.tokens, KvCache.tokens, List.map_take]
  | reusePrefix =>
    obtain ⟨-, -, -, rfl⟩ := forkSession_ok h
    exact hsession.copy rfl rfl
  | hibernate =>
    rw [hibernateAndWake_ok h]
    exact hsession.copy rfl rfl
  | restore =>
    cases h
    exact ⟨fun _ hnone => (by cases hnone), fun _ => rfl⟩
  | restoreTokens tokens =>
    cases h
    exact ⟨fun _ hnone => (by cases hnone), fun _ => rfl⟩
  | discard =>
    cases h
    exact new_consistent

theorem step_consistent {rt : Runtime} {session : GenerationSession} (op : SessionOp)
    (h : session.Consistent) : (SessionOp.step rt session op).Consistent := by
  rw [SessionOp.step]
  split
  · next session' happly => exact apply_consistent h happly
  · exact h

/-- Every reachable session holds the rows of its evaluated tokens. -/
theorem sessionAfter_consistent (rt : Runtime) (ops : List SessionOp) :
    (sessionAfter rt ops).Consistent := by
  rw [sessionAfter, run]
  exact List.foldlRecOn ops _ new_consistent fun session h op _ => step_consistent op h

end Leone.Session

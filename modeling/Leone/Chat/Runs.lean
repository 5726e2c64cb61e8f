import Leone.Chat.Task
import Leone.Chat.Matching

/-!
# The tokens that a request records

Without a match a request records the run of its model up to the end of the text or its budget,
whatever its quanta are. A stream records the beginning of that run that completes the first match.
-/

namespace Leone.Chat

open Framework Utf8

section Runs

variable (engine : Engine)

/-- The run of the model up to the end of the text or the budget. -/
def modelRun : Nat → List Token → List Token
  | 0, _ => []
  | budget + 1, transcript =>
    let token := engine.next transcript
    if some token = engine.eosToken then [token] else token :: modelRun budget (transcript ++ [token])

/-- The text has ended. -/
def EndsText (tokens : List Token) : Prop := tokens ≠ [] ∧ tokens.getLast? = engine.eosToken

instance (tokens : List Token) : Decidable (EndsText engine tokens) :=
  inferInstanceAs (Decidable (_ ∧ _))

theorem endsText_append (tokens : List Token) (token : Token) :
    EndsText engine (tokens ++ [token]) ↔ some token = engine.eosToken := by
  simp [EndsText]

theorem textBytes_append (tokens : List Token) (token : Token) :
    textBytes engine (tokens ++ [token]) = textBytes engine tokens ++ engine.tokenBytes token := by
  simp [textBytes]

/-- A request as it was accepted. -/
structure Accepted where
  promptTokens : List Token
  maxTokens : Nat
  stop : Option StopValue
  sequences : List (List UInt8)
  accepted : requestStopSequences stop = .ok sequences
  positive : 0 < maxTokens

theorem validateStopBytes_ok {total : Nat} {values : List Text}
    (h : validateStopBytes total values = .ok ()) : ∀ value ∈ values, value.val ≠ [] := by
  induction values generalizing total with
  | nil => exact nofun
  | cons value values ih =>
    rw [validateStopBytes] at h
    split at h
    · cases h
    · next hne =>
      split at h
      · cases h
      · exact List.forall_mem_cons.mpr ⟨hne, ih h⟩

/-- An accepted stop list holds nonempty strings. -/
theorem requestStopSequences_ok {stop : Option StopValue} {sequences : List (List UInt8)}
    (h : requestStopSequences stop = .ok sequences) :
    ∀ sequence ∈ sequences, sequence ≠ [] ∧ fromUtf8 sequence = .ok () := by
  cases stop with
  | none =>
    cases h
    exact nofun
  | some value =>
    obtain ⟨values, hvalues, h⟩ := bind_eq_ok.mp h
    obtain ⟨parsed, -, hvalues⟩ := bind_eq_ok.mp hvalues
    obtain ⟨_, hbytes, hvalues⟩ := bind_eq_ok.mp hvalues
    cases hvalues
    split at h
    · cases h
    · cases h
      intro sequence hmem
      obtain ⟨text, htext, rfl⟩ := List.mem_map.mp hmem
      exact ⟨validateStopBytes_ok hbytes text htext, text.property⟩

theorem Accepted.nonempty (request : Accepted) : ∀ sequence ∈ request.sequences, sequence ≠ [] :=
  fun sequence hmem => (requestStopSequences_ok request.accepted sequence hmem).1

def Accepted.run (request : Accepted) : List Token :=
  modelRun engine request.maxTokens request.promptTokens

variable (request : Accepted)

/-- What a stream has matched and sent, of the bytes of its tokens. -/
structure Streamed (task : ChatTask) (tokens : List Token) : Prop where
  stopHit : task.stopHit = task.stop.matched
  fed : ∃ safe, Fed request.sequences task.stop safe (textBytes engine tokens) ∧
    drain safe = (task.sent.flatten, task.streamed.pending)

/-- A request after some of its tokens. -/
structure Progress (task : ChatTask) (tokens : List Token) : Prop where
  bounded : tokens.length ≤ request.maxTokens
  run : request.run engine = tokens ++ if EndsText engine tokens then [] else
    modelRun engine (request.maxTokens - tokens.length) (request.promptTokens ++ tokens)
  plain : task.stream = false → task.stopHit = false
  streamed : task.stream = true → Streamed engine request task tokens
  unmatched : task.stream = true → ∀ count < tokens.length,
    findStopPosition (textBytes engine (tokens.take count)) request.sequences = none

/-- The fields that a token leaves alone. -/
def SameRequest (task task' : ChatTask) : Prop :=
  task'.stream = task.stream ∧ task'.transcript = task.transcript ∧
    task'.remainingTokens = task.remainingTokens ∧ task'.tokens = task.tokens

variable {engine} {request}

theorem streamQuantumToken_same (task : ChatTask) (bytes : List UInt8) :
    SameRequest task (streamQuantumToken task bytes) := by
  unfold streamQuantumToken
  split
  · exact ⟨rfl, rfl, rfl, rfl⟩
  · exact ⟨rfl, rfl, rfl, rfl⟩

/-- Bytes that are sent are decoded after those that were sent before. -/
theorem emitStreamBytes_drain (task : ChatTask) {safe : List UInt8}
    (h : drain safe = (task.sent.flatten, task.streamed.pending)) (bytes : List UInt8) :
    drain (safe ++ bytes) = ((emitStreamBytes task bytes).sent.flatten,
      (emitStreamBytes task bytes).streamed.pending) := by
  have hpush := takeUtf8_drain (task.streamed.pending ++ bytes)
  rw [drain_append, h, ← hpush]
  simp only [emitStreamBytes, Utf8Stream.push, List.flatten_append]

theorem Streamed.push {task : ChatTask} {tokens : List Token}
    (h : Streamed engine request task tokens) (hstream : task.stream = true)
    (hmatched : task.stopHit = false) (token : Token) :
    Streamed engine request (streamQuantumToken task (engine.tokenBytes token))
      (tokens ++ [token]) := by
  obtain ⟨safe, hfed, hdrain⟩ := h.fed
  rw [h.stopHit] at hmatched
  rw [streamQuantumToken, if_pos hstream]
  refine ⟨rfl, safe ++ (task.stop.push (engine.tokenBytes token)).1, ?_, ?_⟩
  · rw [textBytes_append]
    exact push_fed request.nonempty hfed hmatched _
  · exact emitStreamBytes_drain { task with
      stop := (task.stop.push (engine.tokenBytes token)).2
      stopHit := (task.stop.push (engine.tokenBytes token)).2.matched } hdrain _

/-- A stream has hit a stop exactly when its tokens contain one. -/
theorem Streamed.hit_iff {task : ChatTask} {tokens : List Token}
    (h : Streamed engine request task tokens) :
    task.stopHit = (findStopPosition (textBytes engine tokens) request.sequences).isSome := by
  obtain ⟨safe, hfed, -⟩ := h.fed
  rw [h.stopHit, hfed.matched_iff request.nonempty]

theorem progress_new (request : Accepted) (stream : Bool) :
    Progress engine request
      (.new stream request.promptTokens request.maxTokens request.sequences) [] where
  bounded := Nat.zero_le _
  run := by
    rw [if_neg (fun h => h.1 rfl)]
    simp [Accepted.run]
  plain := fun _ => rfl
  streamed := fun _ => ⟨rfl, [], fed_new request.nonempty, by rw [drain]; rfl⟩
  unmatched := by
    intro _ count hcount
    exact absurd hcount (Nat.not_lt_zero _)

/-- One more token. -/
theorem Progress.token {task : ChatTask} {tokens : List Token}
    (h : Progress engine request task tokens) (hmore : tokens.length < request.maxTokens)
    (hends : ¬ EndsText engine tokens) (hhit : task.stopHit = false) :
    let token := engine.next (request.promptTokens ++ tokens)
    Progress engine request (streamQuantumToken task (engine.tokenBytes token)) (tokens ++ [token]) := by
  intro token
  obtain ⟨hstream, -⟩ := streamQuantumToken_same task (engine.tokenBytes token)
  refine ⟨?_, ?_, ?_, ?_, ?_⟩
  · rw [List.length_append, List.length_singleton]
    omega
  · have hrun := h.run
    obtain ⟨budget, hbudget⟩ := Nat.exists_eq_add_of_lt hmore
    have hleft : request.maxTokens - tokens.length = budget + 1 := by omega
    have hrest : request.maxTokens - (tokens ++ [token]).length = budget := by
      rw [List.length_append, List.length_singleton]
      omega
    rw [if_neg hends, hleft, modelRun] at hrun
    rw [hrun, hrest]
    by_cases heos : some token = engine.eosToken
    · rw [if_pos heos, if_pos ((endsText_append engine tokens token).mpr heos), List.append_nil]
    · rw [if_neg heos, if_neg (fun hends' => heos ((endsText_append engine tokens token).mp hends')),
        List.append_assoc, List.append_assoc]
      rfl
  · intro hplain
    rw [hstream] at hplain
    rw [streamQuantumToken, if_neg (by simp [hplain])]
    exact hhit
  · intro hstreams
    rw [hstream] at hstreams
    exact (h.streamed hstreams).push hstreams hhit token
  · intro hstreams count hcount
    rw [hstream] at hstreams
    rw [List.length_append, List.length_singleton] at hcount
    rw [List.take_append_of_le_length (by omega)]
    by_cases hlast : count = tokens.length
    · have hnone := (h.streamed hstreams).hit_iff
      rw [hhit] at hnone
      rw [hlast, List.take_length]
      exact Option.not_isSome_iff_eq_none.mp (by simp [← hnone])
    · exact h.unmatched hstreams count (by omega)

theorem SameRequest.trans {task task' task'' : ChatTask} (h : SameRequest task task')
    (h' : SameRequest task' task'') : SameRequest task task'' :=
  ⟨h'.1.trans h.1, h'.2.1.trans h.2.1, h'.2.2.1.trans h.2.2.1, h'.2.2.2.trans h.2.2.2⟩

variable (engine) in
/-- A call generates its budget, or stops early at a match or at the end of the text. -/
structure Generated (budget : Nat) (task task' : ChatTask) (tokens tokens' : List Token) : Prop where
  same : SameRequest task task'
  begins : tokens <+: tokens'
  bounded : tokens'.length ≤ tokens.length + budget
  more : 0 < budget → tokens.length < tokens'.length
  early : tokens'.length < tokens.length + budget → task'.stopHit = true ∨
    (tokens' ≠ [] ∧ tokens'.getLast? = engine.eosToken)

theorem generateSessionTokens_ok (budget : Nat) {task : ChatTask} {before tokens : List Token}
    (htranscript : task.transcript = request.promptTokens ++ before)
    (h : Progress engine request task (before ++ tokens))
    (hbudget : (before ++ tokens).length + budget ≤ request.maxTokens)
    (hends : ¬ EndsText engine (before ++ tokens)) (hhit : task.stopHit = false) :
    Progress engine request (generateSessionTokens engine budget task tokens).2
        (before ++ (generateSessionTokens engine budget task tokens).1) ∧
      Generated engine budget task (generateSessionTokens engine budget task tokens).2 tokens
        (generateSessionTokens engine budget task tokens).1 := by
  induction budget generalizing task tokens with
  | zero =>
    exact ⟨h, ⟨rfl, rfl, rfl, rfl⟩, List.prefix_rfl, Nat.le_refl _,
      fun hpos => absurd hpos (Nat.lt_irrefl 0), fun hlt => absurd hlt (Nat.lt_irrefl _)⟩
  | succ budget ih =>
    have hprogress := h.token (by omega) hends hhit
    rw [← List.append_assoc, ← htranscript] at hprogress
    simp only [List.append_assoc] at hprogress
    have hsame := streamQuantumToken_same task
      (engine.tokenBytes (engine.next (task.transcript ++ tokens)))
    have hlen : (tokens ++ [engine.next (task.transcript ++ tokens)]).length = tokens.length + 1 := by
      rw [List.length_append, List.length_singleton]
    have hlast : (tokens ++ [engine.next (task.transcript ++ tokens)]).getLast? =
        some (engine.next (task.transcript ++ tokens)) := List.getLast?_concat
    unfold generateSessionTokens
    simp only
    split
    · next hstop =>
      exact ⟨hprogress, hsame, List.prefix_append _ _, by simp only [hlen]; omega,
        fun _ => by simp only [hlen]; omega, fun _ => .inl hstop⟩
    · next hstop =>
      split
      · next heos =>
        exact ⟨hprogress, hsame, List.prefix_append _ _, by simp only [hlen]; omega,
          fun _ => by simp only [hlen]; omega, fun _ => .inr ⟨by simp, by rw [hlast, heos]⟩⟩
      · next heos =>
        have hends' : ¬ EndsText engine
            (before ++ (tokens ++ [engine.next (task.transcript ++ tokens)])) := by
          rw [← List.append_assoc, endsText_append]
          exact heos
        have hbudget' :
            (before ++ (tokens ++ [engine.next (task.transcript ++ tokens)])).length + budget ≤
              request.maxTokens := by
          rw [List.length_append, hlen]
          rw [List.length_append] at hbudget
          omega
        obtain ⟨hrest, hgenerated⟩ := ih (hsame.2.1.trans htranscript) hprogress hbudget' hends'
          (by simpa using hstop)
        refine ⟨hrest, hsame.trans hgenerated.same,
          (List.prefix_append _ _).trans hgenerated.begins, ?_, ?_, ?_⟩
        · have := hgenerated.bounded
          omega
        · intro _
          have := hgenerated.begins.length_le
          omega
        · intro hlt
          exact hgenerated.early (by omega)

/-! ## Quanta -/

variable (engine request) in
/-- A request between two quanta. -/
structure Reached (stream : Bool) (task : ChatTask) : Prop where
  progress : Progress engine request task task.tokens
  stream : task.stream = stream
  transcript : task.transcript = request.promptTokens ++ task.tokens
  remaining : task.tokens.length + task.remainingTokens = request.maxTokens
  ended : task.eos = true ↔ task.stopHit = true ∨ EndsText engine task.tokens

theorem reached_new (request : Accepted) (stream : Bool) : Reached engine request stream
    (.new stream request.promptTokens request.maxTokens request.sequences) where
  progress := progress_new request stream
  stream := rfl
  transcript := (List.append_nil _).symm
  remaining := Nat.zero_add _
  ended := by simp [ChatTask.new, EndsText]

/-- What a task that is still dispatched has left to do. -/
theorem Reached.unfinished {stream : Bool} {task : ChatTask} (h : Reached engine request stream task)
    (hfinished : task.finished = false) :
    task.stopHit = false ∧ ¬ EndsText engine task.tokens ∧ 0 < task.remainingTokens := by
  simp only [ChatTask.finished, Bool.or_eq_false_iff, beq_eq_false_iff_ne] at hfinished
  have hended := mt h.ended.mpr (by simp [hfinished.1])
  obtain ⟨hhit, hends⟩ := not_or.mp hended
  exact ⟨by simpa using hhit, hends, Nat.pos_of_ne_zero hfinished.2⟩

theorem endsText_append_iff {before tokens : List Token} (h : tokens ≠ []) :
    EndsText engine (before ++ tokens) ↔ tokens.getLast? = engine.eosToken := by
  obtain ⟨rest, token, rfl⟩ := (List.eq_nil_or_concat tokens).resolve_left h
  rw [List.concat_eq_append, ← List.append_assoc, endsText_append, List.getLast?_concat]

/-- A serial quantum. -/
theorem execute_reached {stream : Bool} {task : ChatTask} (h : Reached engine request stream task)
    (hfinished : task.finished = false) (more : Nat) :
    Reached engine request stream (execute engine task (more + 1)) ∧
      task.tokens.length < (execute engine task (more + 1)).tokens.length := by
  obtain ⟨hhit, hends, hpos⟩ := h.unfinished hfinished
  have hremaining := h.remaining
  have hstart : Progress engine request task (task.tokens ++ []) := by
    rw [List.append_nil]
    exact h.progress
  obtain ⟨hprogress, hgenerated⟩ := generateSessionTokens_ok
    (min (more + 1) task.remainingTokens) h.transcript hstart
    (by rw [List.append_nil]; omega) (by rwa [List.append_nil]) hhit
  obtain ⟨hstream, htranscript, hleft, htokens⟩ := hgenerated.same
  have hmore := hgenerated.more (by omega)
  have hbounded := hgenerated.bounded
  have hearly := hgenerated.early
  rw [List.length_nil] at hmore hbounded hearly
  have hne := List.ne_nil_of_length_pos hmore
  simp only [execute, recordSerialTokens]
  generalize generateSessionTokens engine (min (more + 1) task.remainingTokens) task [] = result at *
  obtain ⟨tokens, task'⟩ := result
  simp only at *
  refine ⟨⟨⟨?_, ?_, ?_, ?_, ?_⟩, hstream.trans h.stream, ?_, ?_, ?_⟩, ?_⟩
  · rw [htokens]
    exact hprogress.bounded
  · rw [htokens]
    exact hprogress.run
  · exact hprogress.plain
  · rw [htokens]
    intro hstreams
    obtain ⟨hhit', hfed⟩ := hprogress.streamed hstreams
    exact ⟨hhit', hfed⟩
  · rw [htokens]
    exact hprogress.unmatched
  · rw [htranscript, htokens, h.transcript, List.append_assoc]
  · show (task'.tokens ++ tokens).length + (task'.remainingTokens - tokens.length) = _
    rw [htokens, hleft, List.length_append]
    omega
  · rw [htokens, endsText_append_iff hne, quantumReachedEos]
    simp only [Bool.or_eq_true, beq_iff_eq, decide_eq_true_eq]
    constructor
    · rintro ((hstop | heos) | hlt)
      · exact .inl hstop
      · exact .inr heos
      · exact (hearly (by omega)).imp_right And.right
    · rintro (hstop | heos)
      · exact .inl (.inl hstop)
      · exact .inl (.inr heos)
  · rw [htokens, List.length_append]
    omega

/-- One token of a ready batch. -/
theorem recordReadyBatchToken_reached {stream : Bool} {task : ChatTask}
    (h : Reached engine request stream task) (hfinished : task.finished = false) :
    Reached engine request stream (recordReadyBatchToken engine task) ∧
      task.tokens.length < (recordReadyBatchToken engine task).tokens.length := by
  obtain ⟨hhit, hends, hpos⟩ := h.unfinished hfinished
  have hremaining := h.remaining
  have hprogress := h.progress.token (by omega) hends hhit
  rw [← h.transcript] at hprogress
  obtain ⟨hstream, htranscript, hleft, htokens⟩ :=
    streamQuantumToken_same task (engine.tokenBytes (engine.next task.transcript))
  simp only at hprogress
  simp only [recordReadyBatchToken]
  generalize streamQuantumToken task (engine.tokenBytes (engine.next task.transcript)) = task' at *
  refine ⟨⟨⟨?_, ?_, ?_, ?_, ?_⟩, hstream.trans h.stream, ?_, ?_, ?_⟩, ?_⟩
  · rw [htokens]
    exact hprogress.bounded
  · rw [htokens]
    exact hprogress.run
  · exact hprogress.plain
  · rw [htokens]
    intro hstreams
    obtain ⟨hhit', hfed⟩ := hprogress.streamed hstreams
    exact ⟨hhit', hfed⟩
  · rw [htokens]
    exact hprogress.unmatched
  · rw [htranscript, htokens, h.transcript, List.append_assoc]
  · show (task'.tokens ++ [_]).length + (task'.remainingTokens - 1) = _
    rw [htokens, hleft, List.length_append, List.length_singleton]
    omega
  · rw [htokens, endsText_append]
    simp
  · rw [htokens, List.length_append, List.length_singleton]
    omega

theorem runQuantum_reached {stream : Bool} {task : ChatTask} (h : Reached engine request stream task)
    (hfinished : task.finished = false) (quantum : Quantum) :
    Reached engine request stream (runQuantum engine task quantum) ∧
      task.tokens.length < (runQuantum engine task quantum).tokens.length := by
  cases quantum with
  | serial more => exact execute_reached h hfinished more
  | readyTask => exact execute_reached h hfinished 0
  | readyBatch => exact recordReadyBatchToken_reached h hfinished

/-- Quanta keep a request between two quanta, and enough of them finish it. -/
theorem runQuanta_reached {stream : Bool} {task : ChatTask} (h : Reached engine request stream task)
    (quanta : List Quantum) :
    Reached engine request stream (runQuanta engine task quanta) ∧
      (task.remainingTokens ≤ quanta.length → (runQuanta engine task quanta).finished = true) := by
  induction quanta generalizing task with
  | nil =>
    refine ⟨h, fun hnone => ?_⟩
    have hzero : task.remainingTokens = 0 := Nat.le_zero.mp hnone
    simp [runQuanta, ChatTask.finished, hzero]
  | cons quantum quanta ih =>
    rw [runQuanta, List.foldl_cons]
    by_cases hfinished : task.finished = true
    · rw [if_pos hfinished]
      refine ⟨(ih h).1, fun _ => ?_⟩
      have hstays : ∀ rest : List Quantum, (runQuanta engine task rest).finished = true := by
        intro rest
        induction rest with
        | nil => exact hfinished
        | cons quantum rest ih' =>
          rw [runQuanta, List.foldl_cons, if_pos hfinished]
          exact ih'
      exact hstays quanta
    · have hunfinished : task.finished = false := by simpa using hfinished
      rw [if_neg hfinished]
      obtain ⟨hreached, hmore⟩ := runQuantum_reached h hunfinished quantum
      refine ⟨(ih hreached).1, fun hlength => (ih hreached).2 ?_⟩
      have hbefore := h.remaining
      have hafter := hreached.remaining
      rw [List.length_cons] at hlength
      omega

end Runs

end Leone.Chat

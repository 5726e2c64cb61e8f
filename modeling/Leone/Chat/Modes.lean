import Leone.Chat.Runs

/-!
# The two response modes

A stream ends at the first match. The other mode generates on and cuts the decoded text, so the
two agree exactly when the run of the model ends where its first match does.
-/

namespace Leone.Chat

open Framework Utf8

/-! ## Content -/

theorem findStopPosition_lt {sequences : List (List UInt8)}
    (hne : ∀ sequence ∈ sequences, sequence ≠ []) {bytes : List UInt8} {position : Nat}
    (h : findStopPosition bytes sequences = some position) : position < bytes.length := by
  obtain ⟨⟨sequence, hmem, hstarts⟩, -⟩ := (findStopPosition_eq_some hne).mp h
  have hle := hstarts.length_le
  have hpos := List.length_pos_of_ne_nil (hne sequence hmem)
  rw [List.length_drop] at hle
  omega

/-- Decoding keeps a match of the bytes. -/
theorem occursAt_lossy {sequences : List (List UInt8)}
    (hvalid : ∀ sequence ∈ sequences, sequence ≠ [] ∧ fromUtf8 sequence = .ok ())
    {bytes : List UInt8} {position : Nat} (h : OccursAt sequences bytes position) :
    OccursAt sequences (fromUtf8Lossy bytes) (fromUtf8Lossy (bytes.take position)).length ∧
      fromUtf8Lossy (bytes.take position) <+: fromUtf8Lossy bytes := by
  obtain ⟨sequence, hmem, rest, hrest⟩ := h
  obtain ⟨hne, htext⟩ := hvalid sequence hmem
  have hsplit : fromUtf8Lossy bytes =
      fromUtf8Lossy (bytes.take position) ++ (sequence ++ fromUtf8Lossy rest) := by
    rw [← fromUtf8Lossy_valid htext, hrest]
    cases sequence with
    | nil => exact absurd rfl hne
    | cons first sequence =>
      -- a sequence begins with the first byte of a character
      rw [List.cons_append] at hrest
      rw [← hrest, ← fromUtf8Lossy_append _ (not_isContinuation_of_fromUtf8 htext), hrest,
        List.take_append_drop]
  refine ⟨⟨sequence, hmem, ?_⟩, ?_⟩
  · rw [hsplit, List.drop_left]
    exact List.prefix_append _ _
  · rw [hsplit]
    exact List.prefix_append _ _

/-- The cut of a decoded text is the decoding of the cut text exactly when the first matches are at
the same place. -/
theorem truncateAtStop_lossy {sequences : List (List UInt8)}
    (hvalid : ∀ sequence ∈ sequences, sequence ≠ [] ∧ fromUtf8 sequence = .ok ())
    (bytes : List UInt8) :
    (truncateAtStop (fromUtf8Lossy bytes) sequences).1 =
        fromUtf8Lossy (truncateAtStop bytes sequences).1 ↔
      findStopPosition (fromUtf8Lossy bytes) sequences =
        (findStopPosition bytes sequences).map fun position =>
          (fromUtf8Lossy (bytes.take position)).length := by
  have hne := fun sequence hmem => (hvalid sequence hmem).1
  unfold truncateAtStop
  cases hraw : findStopPosition bytes sequences with
  | none =>
    cases hdecoded : findStopPosition (fromUtf8Lossy bytes) sequences with
    | none => simp
    | some position =>
      have hlt := findStopPosition_lt hne hdecoded
      simp only [Option.map_none, reduceCtorEq, iff_false]
      intro heq
      have := congrArg List.length heq
      rw [List.length_take] at this
      omega
  | some position =>
    obtain ⟨hoccurs, hbegins⟩ := occursAt_lossy hvalid ((findStopPosition_eq_some hne).mp hraw).1
    cases hdecoded : findStopPosition (fromUtf8Lossy bytes) sequences with
    | none => exact absurd hoccurs ((findStopPosition_eq_none hne).mp hdecoded _)
    | some decoded =>
      have hlt := findStopPosition_lt hne hdecoded
      have hle := hbegins.length_le
      simp only [Option.map_some, Option.some.injEq]
      rw [List.prefix_iff_eq_take.mp hbegins]
      simp only [List.length_take, Nat.min_eq_left hle]
      constructor
      · intro heq
        have := congrArg List.length heq
        rw [List.length_take, List.length_take] at this
        omega
      · intro heq
        rw [heq]

section Modes

variable {engine : Engine} {request : Accepted}

/-- What a stream has sent at its end. -/
theorem streamed_content {task : ChatTask} {tokens : List Token} (hstream : task.stream = true)
    (h : Streamed engine request task tokens) :
    ((flushTaskPending task).sent ++ (flushTaskPending task).streamed.finish.1).flatten =
      fromUtf8Lossy (truncateAtStop (textBytes engine tokens) request.sequences).1 := by
  obtain ⟨safe, hfed, hdrain⟩ := h.fed
  rw [← finish_fed request.nonempty hfed]
  have hflushed := emitStreamBytes_drain { task with stop := task.stop.finish.2 } hdrain
    task.stop.finish.1
  rw [flushTaskPending]
  simp only [hstream, if_true]
  rw [List.flatten_append, fromUtf8Lossy_eq_drain (safe ++ task.stop.finish.1), hflushed]
  congr 1
  exact takeUtf8_final _

theorem flushTaskPending_same (task : ChatTask) :
    (flushTaskPending task).stream = task.stream ∧ (flushTaskPending task).tokens = task.tokens ∧
      (flushTaskPending task).stopHit = task.stopHit ∧ (flushTaskPending task).eos = task.eos := by
  unfold flushTaskPending
  simp only
  split
  · exact ⟨rfl, rfl, rfl, rfl⟩
  · exact ⟨rfl, rfl, rfl, rfl⟩

/-- The response of a stream. -/
theorem finishGeneratedTask_stream {task : ChatTask} (h : Reached engine request true task) :
    finishGeneratedTask engine request.sequences task = .ok
      { tokens := task.tokens
        finishReason := if task.stopHit || task.eos then .stop else .length
        content :=
          fromUtf8Lossy (truncateAtStop (textBytes engine task.tokens) request.sequences).1 } := by
  obtain ⟨hstream, htokens, hhit, heos⟩ := flushTaskPending_same task
  rw [finishGeneratedTask]
  simp only [hstream, htokens, hhit, heos, h.stream, decodedChatContent, if_true]
  show Except.ok _ = _
  rw [streamed_content h.stream (h.progress.streamed h.stream)]
  simp [chatFinishReason]

/-- The response that is not streamed. -/
theorem finishGeneratedTask_plain {task : ChatTask} (h : Reached engine request false task) :
    finishGeneratedTask engine request.sequences task =
      (parseGeneratedToolCalls
        (truncateAtStop (fromUtf8Lossy (textBytes engine task.tokens)) request.sequences).1).map
        fun _ =>
          { tokens := task.tokens
            finishReason := if task.stopHit || task.eos then .stop else .length
            content :=
              (truncateAtStop (fromUtf8Lossy (textBytes engine task.tokens)) request.sequences).1 } := by
  obtain ⟨hstream, htokens, hhit, heos⟩ := flushTaskPending_same task
  rw [finishGeneratedTask]
  simp only [hstream, htokens, hhit, heos, h.stream, decodedChatContent, Bool.false_eq_true, if_false]
  unfold parseGeneratedToolCalls
  split
  · rfl
  · simp [chatFinishReason, Except.map, bind, Except.bind, pure, Except.pure]

/-! ## Tokens -/

/-- A finished request records its run, or the beginning of it that completes the first match. -/
theorem Reached.tokens_of_finished {stream : Bool} {task : ChatTask}
    (h : Reached engine request stream task) (hfinished : task.finished = true)
    (hhit : task.stopHit = false) : task.tokens = request.run engine := by
  rw [h.progress.run]
  by_cases hends : EndsText engine task.tokens
  · rw [if_pos hends, List.append_nil]
  · rw [if_neg hends]
    have heos : task.eos = false := by
      have hended := mt h.ended.mp (not_or.mpr ⟨by simp [hhit], hends⟩)
      simpa using hended
    simp only [ChatTask.finished, heos, Bool.false_or, beq_iff_eq] at hfinished
    have hremaining := h.remaining
    rw [show request.maxTokens - task.tokens.length = 0 by omega, modelRun, List.append_nil]

theorem Reached.tokens_of_hit {task : ChatTask} (h : Reached engine request true task)
    (hhit : task.stopHit = true) :
    task.tokens <+: request.run engine ∧
      (findStopPosition (textBytes engine task.tokens) request.sequences).isSome ∧
      ∀ count < task.tokens.length,
        findStopPosition (textBytes engine (task.tokens.take count)) request.sequences = none := by
  refine ⟨⟨_, h.progress.run.symm⟩, ?_, h.progress.unmatched h.stream⟩
  rw [← (h.progress.streamed h.stream).hit_iff]
  exact hhit

/-! ## Agreement -/

variable (engine request) in
/-- The run of the model ends where its first match does, and its text reads the same in both
modes. -/
structure EndsAtStop : Prop where
  cut : ∀ count < (request.run engine).length,
    findStopPosition (textBytes engine ((request.run engine).take count)) request.sequences = none
  ended : (findStopPosition (textBytes engine (request.run engine)) request.sequences).isSome →
    (request.run engine).getLast? = engine.eosToken
  decoded : findStopPosition (fromUtf8Lossy (textBytes engine (request.run engine)))
      request.sequences =
    (findStopPosition (textBytes engine (request.run engine)) request.sequences).map fun position =>
      (fromUtf8Lossy ((textBytes engine (request.run engine)).take position)).length
  untagged : toolCallTag.isPrefixOf (trimStart (truncateAtStop
    (fromUtf8Lossy (textBytes engine (request.run engine))) request.sequences).1) = false

theorem Accepted.run_ne_nil (request : Accepted) : request.run engine ≠ [] := by
  obtain ⟨budget, hbudget⟩ := Nat.exists_eq_succ_of_ne_zero request.positive.ne'
  rw [Accepted.run, hbudget, modelRun]
  split
  · exact List.cons_ne_nil _ _
  · exact List.cons_ne_nil _ _

/-- A stream that has not hit a stop before the end of the run records all of it. -/
theorem Reached.tokens_of_cut {task : ChatTask} (h : Reached engine request true task)
    (hfinished : task.finished = true)
    (hcut : ∀ count < (request.run engine).length,
      findStopPosition (textBytes engine ((request.run engine).take count)) request.sequences =
        none) : task.tokens = request.run engine := by
  by_cases hhit : task.stopHit = true
  · obtain ⟨hbegins, hmatch, -⟩ := h.tokens_of_hit hhit
    by_contra hne
    have hlt : task.tokens.length < (request.run engine).length := by
      have hle := hbegins.length_le
      have : task.tokens.length ≠ (request.run engine).length :=
        fun heq => hne (hbegins.eq_of_length heq)
      omega
    have hnone := hcut task.tokens.length hlt
    rw [← List.prefix_iff_eq_take.mp hbegins] at hnone
    rw [hnone] at hmatch
    cases hmatch
  · exact h.tokens_of_finished hfinished (by simpa using hhit)

/-- A response that is not streamed agrees with the stream exactly when the run of the model ends
where its first match does. -/
theorem responses_agree_iff (engine : Engine) (request : Accepted) (quanta quanta' : List Quantum)
    (hfinished : (runQuanta engine (.new false request.promptTokens request.maxTokens
      request.sequences) quanta).finished = true)
    (hfinished' : (runQuanta engine (.new true request.promptTokens request.maxTokens
      request.sequences) quanta').finished = true) :
    finishGeneratedTask engine request.sequences (runQuanta engine (.new false request.promptTokens
        request.maxTokens request.sequences) quanta) =
      finishGeneratedTask engine request.sequences (runQuanta engine (.new true request.promptTokens
        request.maxTokens request.sequences) quanta') ↔
      EndsAtStop engine request := by
  have hplain := (@runQuanta_reached engine _ _ _ (reached_new request false) quanta).1
  have hstream := (@runQuanta_reached engine _ _ _ (reached_new request true) quanta').1
  generalize runQuanta engine (.new false request.promptTokens request.maxTokens
    request.sequences) quanta = plain at *
  generalize runQuanta engine (.new true request.promptTokens request.maxTokens
    request.sequences) quanta' = stream at *
  have hplainHit := hplain.progress.plain hplain.stream
  have hplainTokens := hplain.tokens_of_finished hfinished hplainHit
  have hplainEos : plain.eos = true ↔ (request.run engine).getLast? = engine.eosToken := by
    rw [hplain.ended, hplainHit, hplainTokens]
    simp [EndsText, request.run_ne_nil]
  have hstreamHit := (hstream.progress.streamed hstream.stream).hit_iff
  rw [finishGeneratedTask_plain hplain, finishGeneratedTask_stream hstream, hplainTokens, hplainHit,
    Bool.false_or, parseGeneratedToolCalls]
  by_cases htag : toolCallTag.isPrefixOf (trimStart (truncateAtStop
      (fromUtf8Lossy (textBytes engine (request.run engine))) request.sequences).1) = true
  · rw [if_pos htag]
    refine ⟨by simp [Except.map], fun hagree => ?_⟩
    rw [hagree.untagged] at htag
    cases htag
  rw [if_neg htag]
  simp only [Except.map, Except.ok.injEq, ChatResponse.mk.injEq]
  constructor
  · intro h
    obtain ⟨htokens, hreason, hcontent⟩ := h
    rw [← htokens] at hcontent hstreamHit
    refine ⟨?_, fun hmatch => ?_, ?_, Bool.eq_false_iff.mpr htag⟩
    · have hunmatched := hstream.progress.unmatched hstream.stream
      rwa [← htokens] at hunmatched
    · rw [hstreamHit, hmatch, Bool.true_or, if_pos rfl] at hreason
      apply hplainEos.mp
      by_contra heos
      rw [if_neg heos] at hreason
      cases hreason
    · exact (truncateAtStop_lossy (requestStopSequences_ok request.accepted) _).mp hcontent
  · intro hagree
    have htokens := hstream.tokens_of_cut hfinished' hagree.cut
    rw [htokens] at hstreamHit ⊢
    refine ⟨rfl, ?_,
      (truncateAtStop_lossy (requestStopSequences_ok request.accepted) _).mpr hagree.decoded⟩
    have hends : stream.stopHit = true ∨ stream.eos = true ↔ plain.eos = true := by
      rw [hstream.ended, htokens, hplainEos]
      constructor
      · rintro (hhit | hhit | hends)
        · exact hagree.ended (hstreamHit ▸ hhit)
        · exact hagree.ended (hstreamHit ▸ hhit)
        · exact hends.2
      · exact fun hlast => .inr (.inr ⟨request.run_ne_nil, hlast⟩)
    simp only [Bool.or_eq_true, hends]

end Modes

/-! ## One letter -/

/-- The stop sequence of one letter. -/
def letterStop : StopValue := .string ⟨[0x61], by decide +kernel⟩

/-- A model that writes one letter, and then another one up to its end. -/
def letterEngine (eosToken : Option Token) : Engine :=
  { next := fun transcript => transcript.length
    tokenBytes := fun token => if token = 0 then [0x62] else [0x61]
    eosToken }

def letterRequest (maxTokens : Nat) (positive : 0 < maxTokens) : Accepted :=
  { promptTokens := []
    maxTokens
    stop := some letterStop
    sequences := [[0x61]]
    accepted := rfl
    positive }

theorem letter_agrees :
    finishGeneratedTask (letterEngine (some 1)) [[0x61]]
        (runQuanta (letterEngine (some 1)) (.new false [] 3 [[0x61]]) [.serial 3]) =
      finishGeneratedTask (letterEngine (some 1)) [[0x61]]
        (runQuanta (letterEngine (some 1)) (.new true [] 3 [[0x61]]) [.readyTask, .readyBatch]) := by
  apply (responses_agree_iff (letterEngine (some 1)) (letterRequest 3 (by decide)) [.serial 3]
    [.readyTask, .readyBatch] (by decide +kernel) (by decide +kernel)).mpr
  exact ⟨by decide +kernel, by decide +kernel, by decide +kernel, by decide +kernel⟩

/-- The stream ends with the first letter. The other mode goes on to its budget and reports its
length. -/
theorem letter_not_agrees :
    requestStopSequences (some letterStop) = .ok [[0x61]] ∧
      (runQuanta (letterEngine none) (.new false [] 3 [[0x61]]) [.serial 3]).finished = true ∧
      (runQuanta (letterEngine none) (.new true [] 3 [[0x61]]) [.serial 3]).finished = true ∧
      finishGeneratedTask (letterEngine none) [[0x61]]
          (runQuanta (letterEngine none) (.new false [] 3 [[0x61]]) [.serial 3]) =
        .ok ⟨[0, 1, 2], .length, [0x62]⟩ ∧
      finishGeneratedTask (letterEngine none) [[0x61]]
          (runQuanta (letterEngine none) (.new true [] 3 [[0x61]]) [.serial 3]) =
        .ok ⟨[0, 1], .stop, [0x62]⟩ := by
  exact ⟨rfl, by decide +kernel, by decide +kernel, by decide +kernel, by decide +kernel⟩

end Leone.Chat

import Leone.Session.Evaluate
import Leone.Session.Plan

/-!
# Scored positions

The windows score every position after the first once, in order, and each with the logits of the
tokens before it in its window.
-/

namespace Leone.Session

open Framework Kv

section Spec

variable {F : Type} (backend : EvalBackend F)

/-- The first token of the window that scores a position. -/
def coveringStart (windowTokens position : Nat) : Nat :=
  (position - 1) / (windowTokens - 1) * (windowTokens - 1)

/-- A position with the logits of the tokens before it in its window. -/
def scoredRow (evaluation : Evaluation) (tokens : List Token) (windowTokens position : Nat) :
    Nat × List F :=
  (position, (backend.logits (rowsOf evaluation true
    ((tokens.take position).drop (coveringStart windowTokens position)))).val)

/-- The positions from the first that has a token before it, each with its row. -/
def scoredRows (evaluation : Evaluation) (tokens : List Token) (windowTokens count : Nat) :
    List (Nat × List F) :=
  (List.range' 1 count).map (scoredRow backend evaluation tokens windowTokens)

/-- Both paths score every next-token position once, in increasing order. -/
structure Scores (tokens : List Token) (windowTokens chunkTokens : Nat) (dtype : KvCacheDtype) :
    Prop where
  oneByOne : evaluateLogits backend tokens windowTokens dtype =
    .ok ⟨scoredRows backend .sequential tokens windowTokens (tokens.length - 1), tokens.length - 1⟩
  inBlocks : evaluateLogitsChunked backend tokens windowTokens chunkTokens dtype =
    .ok ⟨scoredRows backend (.batched .backendPreferred) tokens windowTokens (tokens.length - 1),
      tokens.length - 1⟩

/-- What the backend does for an evaluation succeeds. -/
structure EvalBackend.Succeeds (windowTokens chunkTokens : Nat) : Prop where
  shape : ∃ shape, evalAttentionShape backend windowTokens = .ok shape
  newState : backend.newState = .ok ()
  blocks : ∀ length, 0 < length → length ≤ windowTokens →
    ∃ activations, prepareChunkedEvalWindow backend length (min chunkTokens length) = .ok activations
  synchronize : backend.synchronize = .ok ()

end Spec

section Window

variable {F : Type} (backend : EvalBackend F) (evaluation : Evaluation) (window : List Token)
  (start : Nat)

/-- The position after an offset in a window, with its row. -/
def windowRow (offset : Nat) : Nat × List F :=
  (start + offset + 1, (backend.logits (rowsOf evaluation true (window.take (offset + 1)))).val)

def windowRows (offset count : Nat) : List (Nat × List F) :=
  (List.range' offset count).map (windowRow backend evaluation window start)

theorem windowRows_zero (offset : Nat) :
    windowRows backend evaluation window start offset 0 = [] := rfl

theorem length_windowRows (offset count : Nat) :
    (windowRows backend evaluation window start offset count).length = count := by
  rw [windowRows, List.length_map, List.length_range']

theorem windowRows_succ (offset count : Nat) :
    windowRows backend evaluation window start offset (count + 1) =
      windowRow backend evaluation window start offset ::
        windowRows backend evaluation window start (offset + 1) count := by
  rw [windowRows, List.range'_succ, List.map_cons, windowRows]

theorem windowRows_append (offset count more : Nat) :
    windowRows backend evaluation window start offset count ++
        windowRows backend evaluation window start (offset + count) more =
      windowRows backend evaluation window start offset (count + more) := by
  rw [windowRows, windowRows, windowRows, ← List.map_append, List.range'_append_1]

end Window

/-- A run after more rows. -/
def EvalRun.after {F : Type} (run : EvalRun F) (rows : List (Nat × List F)) : EvalRun F :=
  ⟨run.calls ++ rows, run.scored + rows.length⟩

theorem EvalRun.after_nil {F : Type} (run : EvalRun F) : run.after [] = run := by
  rw [EvalRun.after, List.append_nil, List.length_nil, Nat.add_zero]

theorem EvalRun.after_after {F : Type} (run : EvalRun F) (rows more : List (Nat × List F)) :
    (run.after rows).after more = run.after (rows ++ more) := by
  simp only [EvalRun.after, List.append_assoc, List.length_append, Nat.add_assoc]

theorem emit_ok {F : Type} {run : EvalRun F} (hrun : run.scored + 1 < 2 ^ 64) (position : Nat)
    (row : List F) : run.emit position row = .ok (run.after [(position, row)]) := by
  rw [EvalRun.emit, checkedAdd, if_pos hrun]
  rfl

/-! ## One token at a time -/

section OneByOne

variable {F : Type} {backend : EvalBackend F} {window : List Token}

/-- The rest of a window, one token at a time. -/
theorem evaluateWindowTokens_ok (start : Nat) {rest : List Token} {offset : Nat} {e : Evaluator}
    {run : EvalRun F} (hrest : rest = window.drop offset)
    (hrows : e.cache.rows = rowsOf .sequential true (window.take offset))
    (hfit : window.length ≤ e.cache.shape.maxContext)
    (hrun : run.scored + (window.length - 1 - offset) < 2 ^ 64) :
    evaluateWindowTokens backend window.length start rest offset e run =
      .ok (run.after (windowRows backend .sequential window start offset
        (window.length - 1 - offset))) := by
  induction rest generalizing offset e run with
  | nil =>
    have hlength := congrArg List.length hrest
    rw [List.length_nil, List.length_drop] at hlength
    rw [evaluateWindowTokens, show window.length - 1 - offset = 0 by omega, windowRows_zero,
      EvalRun.after_nil]
  | cons token rest ih =>
    have hlength := congrArg List.length hrest
    rw [List.length_cons, List.length_drop] at hlength
    have htail : rest = window.drop (offset + 1) := by
      rw [← List.drop_drop, ← hrest, List.drop_succ_cons, List.drop_zero]
    have htake : window.take (offset + 1) = window.take offset ++ [token] := by
      rw [List.take_add, ← hrest, List.take_succ_cons, List.take_zero]
    have hposition : e.cache.position = offset := by
      rw [KvCache.position, hrows, rowsOf, List.length_map, List.length_take]
      omega
    rcases forwardToken_ok (show e.cache.position + 1 ≤ e.cache.shape.maxContext by omega) true token
      .logits with ⟨activations, hforward, -⟩
    rw [evaluateWindowTokens, hforward]
    show emitBefore backend window.length start offset (e.cache.rows ++ _) run >>= _ = _
    have hnext : e.cache.rows ++ rowsOf .sequential true [token] =
        rowsOf .sequential true (window.take (offset + 1)) := by
      rw [hrows, htake, rowsOf, rowsOf, rowsOf, List.map_append]
    have hafter := fun run => @ih (offset + 1) (e.wrote (rowsOf .sequential true [token])
      [⟨e.cache.position, [token], .sequential⟩] activations) run htail hnext hfit
    rw [hnext, emitBefore]
    by_cases hlast : offset + 1 < window.length
    · rw [if_pos hlast, emit_ok (by omega)]
      show evaluateWindowTokens _ _ _ _ _ _ _ = _
      rw [hafter _ (show run.scored + 1 + _ < _ by omega), EvalRun.after_after,
        show window.length - 1 - offset = window.length - 1 - (offset + 1) + 1 by omega,
        windowRows_succ, windowRow, List.singleton_append]
    · rw [if_neg hlast]
      show evaluateWindowTokens _ _ _ _ _ _ _ = _
      rw [hafter _ (by omega), show window.length - 1 - (offset + 1) = 0 by omega,
        show window.length - 1 - offset = 0 by omega, windowRows_zero, windowRows_zero]

theorem evaluateLogitsWindow_ok (start : Nat) {shape : AttentionShape}
    (hfit : window.length ≤ shape.maxContext) (hlength : window.length < 2 ^ 64)
    (hstate : backend.newState = .ok ()) (dtype : KvCacheDtype) (calls : List (Nat × List F)) :
    evaluateLogitsWindow backend window start shape dtype calls =
      .ok (EvalRun.after ⟨calls, 0⟩
        (windowRows backend .sequential window start 0 (window.length - 1))) := by
  rw [evaluateLogitsWindow, hstate]
  show evaluateWindowTokens _ _ _ _ _ _ _ = _
  rw [evaluateWindowTokens_ok start List.drop_zero.symm rfl hfit
    (show 0 + (window.length - 1 - 0) < 2 ^ 64 by omega), Nat.sub_zero]

end OneByOne

/-! ## In blocks -/

section InBlocks

variable {F : Type} {backend : EvalBackend F}

/-- The runtime's bounds cut the rows of the buffer. -/
theorem logitRow_ok {size index : Nat} (hsize : size * backend.vocabSize < 2 ^ 64)
    (hindex : index < size) (rows : List KvRow) (offset : Nat) :
    logitRow backend (hostLogits backend rows offset size) index =
      .ok (backend.logits (rows.take (offset + index + 1))).val := by
  have hrow : ∀ k < size, (backend.logits (rows.take (offset + k + 1))).val.length =
      backend.vocabSize := fun k _ => (backend.logits _).property
  have hlast : (index + 1) * backend.vocabSize ≤ size * backend.vocabSize :=
    Nat.mul_le_mul_right _ hindex
  have hsucc : (index + 1) * backend.vocabSize = index * backend.vocabSize + backend.vocabSize :=
    Nat.succ_mul index backend.vocabSize
  rw [logitRow, checkedMul, if_pos (by omega), Option.bind_some, checkedAdd, if_pos (by omega)]
  simp only [Option.map_some]
  rw [← hsucc, hostLogits, length_flatMap_range hrow, if_pos hlast, slice_flatMap_range hrow hindex]

variable {window : List Token}

theorem emitChunkedEvalRows_ok {evaluation : Evaluation} (start : Nat) {offset size stop : Nat}
    (hsize : size * backend.vocabSize < 2 ^ 64) (hstop : stop ≤ window.length)
    {index count : Nat} (hindex : index + count ≤ size) (hcount : offset + index + count ≤ stop)
    {run : EvalRun F} (hrun : run.scored + count < 2 ^ 64) :
    emitChunkedEvalRows backend window.length start offset
        (hostLogits backend (rowsOf evaluation true (window.take stop)) offset size)
        (List.range' index count) run =
      .ok (run.after (windowRows backend evaluation window start (offset + index)
        (min count (window.length - 1 - (offset + index))))) := by
  induction count generalizing index run with
  | zero =>
    rw [List.range'_zero, emitChunkedEvalRows, Nat.zero_min, windowRows_zero, EvalRun.after_nil]
  | succ count ih =>
    rw [List.range'_succ, emitChunkedEvalRows]
    by_cases hlast : window.length ≤ offset + index + 1
    · rw [if_pos hlast, show min (count + 1) (window.length - 1 - (offset + index)) = 0 by omega,
        windowRows_zero, EvalRun.after_nil]
    · have hrows : (rowsOf evaluation true (window.take stop)).take (offset + index + 1) =
          rowsOf evaluation true (window.take (offset + index + 1)) := by
        rw [rowsOf, ← List.map_take, List.take_take, Nat.min_eq_left (by omega), rowsOf]
      rw [if_neg hlast, logitRow_ok hsize (by omega), hrows]
      show (run.emit _ _ >>= fun run => _) = _
      rw [emit_ok (by omega)]
      show emitChunkedEvalRows _ _ _ _ _ _ _ = _
      rw [ih (by omega) (by omega) (show run.scored + 1 + count < 2 ^ 64 by omega),
        EvalRun.after_after,
        show min (count + 1) (window.length - 1 - (offset + index)) =
          min count (window.length - 1 - (offset + (index + 1))) + 1 by omega, windowRows_succ]
      rfl

/-- The storage of the blocks of a window, as it is prepared. -/
theorem prepareChunkedEvalWindow_ok {windowTokens blockTokens : Nat}
    {activations : Nat × Option Nat}
    (h : prepareChunkedEvalWindow backend windowTokens blockTokens = .ok activations) :
    activations.1 = blockTokens ∧ blockTokens * backend.vocabSize < 2 ^ 64 ∧
      (windowTokens % blockTokens ≠ 0 → activations.2 = some (windowTokens % blockTokens) ∧
        windowTokens % blockTokens * backend.vocabSize < 2 ^ 64) := by
  have hsize : ∀ {tokens size : Nat}, prefillEvalActivations backend tokens = .ok size →
      size = tokens ∧ tokens * backend.vocabSize < 2 ^ 64 := by
    intro tokens size h
    rw [prefillEvalActivations] at h
    split at h
    · cases h
    · next value hvalue =>
      cases h
      exact ⟨rfl, (checkedMul_eq_some.mp hvalue).1⟩
  rw [prepareChunkedEvalWindow] at h
  rcases bind_eq_ok.mp h with ⟨_, -, h⟩
  rcases bind_eq_ok.mp h with ⟨full, hfull, h⟩
  split at h
  · next hzero =>
    cases h
    exact ⟨(hsize hfull).1, (hsize hfull).2, fun hne => absurd hzero hne⟩
  · rcases bind_eq_ok.mp h with ⟨tail, htail, h⟩
    cases h
    exact ⟨(hsize hfull).1, (hsize hfull).2, fun _ => ⟨congrArg some (hsize htail).1, (hsize htail).2⟩⟩

variable (backend) in
/-- What holds before each block of a window. -/
structure BlockInvariant (window : List Token) (start : Nat) (shape : AttentionShape)
    (run : EvalRun F) (offset : Nat) (progress : Evaluator × EvalRun F) : Prop where
  rows : progress.1.cache.rows = rowsOf (.batched .backendPreferred) true (window.take offset)
  shape : progress.1.cache.shape = shape
  run : progress.2 = run.after (windowRows backend (.batched .backendPreferred) window start 0
    (min offset (window.length - 1)))

theorem processChunkedEvalBlock_ok {start blockTokens : Nat} (hblock : 0 < blockTokens)
    {activations : Nat × Option Nat}
    (hactivations : prepareChunkedEvalWindow backend window.length blockTokens = .ok activations)
    {shape : AttentionShape} (hfit : window.length ≤ shape.maxContext) {run : EvalRun F}
    (hrun : run.scored + window.length < 2 ^ 64) {offset : Nat}
    {progress : Evaluator × EvalRun F} (hdvd : blockTokens ∣ offset) (hoffset : offset < window.length)
    (h : BlockInvariant backend window start shape run offset progress) :
    ∃ progress', processChunkedEvalBlock backend window start blockTokens activations progress offset =
        .ok progress' ∧
      BlockInvariant backend window start shape run
        (min (offset + blockTokens) window.length) progress' := by
  rcases prepareChunkedEvalWindow_ok hactivations with ⟨hfull, hfullSize, htail⟩
  obtain ⟨stop, hstop⟩ : ∃ stop, stop = min (offset + blockTokens) window.length := ⟨_, rfl⟩
  have hlength : ((window.take stop).drop offset).length = stop - offset := by
    rw [List.length_drop, List.length_take]
    omega
  -- only the last block can be shorter than the others, and its storage has its own size
  have hsize : blockActivations activations blockTokens (stop - offset) = .ok (stop - offset) ∧
      (stop - offset) * backend.vocabSize < 2 ^ 64 := by
    by_cases hwhole : offset + blockTokens ≤ window.length
    · rw [show stop - offset = blockTokens by omega, blockActivations, if_pos rfl, hfull]
      exact ⟨rfl, hfullSize⟩
    · have hmod : window.length % blockTokens = stop - offset := by
        rcases hdvd with ⟨blocks, rfl⟩
        rw [show window.length = blockTokens * blocks + (stop - blockTokens * blocks) by omega,
          Nat.mul_add_mod, Nat.mod_eq_of_lt (by omega)]
      rw [hmod] at htail
      rcases htail (by omega) with ⟨htail, htailSize⟩
      rw [blockActivations, if_neg (by omega), htail]
      exact ⟨rfl, htailSize⟩
  have hposition : progress.1.cache.position = offset := by
    rw [KvCache.position, h.rows, rowsOf, List.length_map, List.length_take]
    omega
  have hne : (window.take stop).drop offset ≠ [] := by
    intro hnil
    rw [hnil, List.length_nil] at hlength
    omega
  obtain ⟨e, hforward, hrows, hshape⟩ : ∃ e, forwardPrefillChunk .backendPreferred true
      ((window.take stop).drop offset) offset progress.1 = .ok e ∧
      e.cache.rows = rowsOf (.batched .backendPreferred) true (window.take stop) ∧
      e.cache.shape = shape := by
    have hforward := forwardPrefillChunk_ok (e := progress.1) hne
      (by rw [hposition, h.shape, hlength]; omega) .backendPreferred true
    rw [hposition] at hforward
    refine ⟨_, hforward, ?_, h.shape⟩
    show progress.1.cache.rows ++ rowsOf _ _ _ = _
    rw [h.rows, rowsOf, rowsOf, rowsOf, ← List.map_append]
    congr 1
    rw [show window.take offset = (window.take stop).take offset by
      rw [List.take_take, Nat.min_eq_left (by omega)], List.take_append_drop]
  have hscored : progress.2.scored + (stop - offset) < 2 ^ 64 := by
    rw [h.run]
    show run.scored + (windowRows _ _ _ _ _ _).length + _ < _
    rw [length_windowRows]
    omega
  have hemit : emitChunkedEvalRows backend window.length start offset
      (hostLogits backend (rowsOf (.batched .backendPreferred) true (window.take stop)) offset
        (stop - offset)) (List.range' 0 (stop - offset)) progress.2 =
      .ok (progress.2.after (windowRows backend (.batched .backendPreferred) window start offset
        (min (stop - offset) (window.length - 1 - offset)))) :=
    emitChunkedEvalRows_ok start hsize.2 (by omega) (by omega) (by omega) hscored
  have hjoin := windowRows_append backend (.batched .backendPreferred) window start 0 offset
    (min (stop - offset) (window.length - 1 - offset))
  rw [Nat.zero_add] at hjoin
  rw [processChunkedEvalBlock, ← hstop, hlength, hsize.1, hforward]
  refine ⟨(e, progress.2.after (windowRows backend (.batched .backendPreferred) window start offset
    (min (stop - offset) (window.length - 1 - offset)))), ?_, hrows, hshape, ?_⟩
  · show (emitChunkedEvalRows _ _ _ _ (hostLogits _ e.cache.rows _ _) _ _ >>= _) = _
    rw [hrows, List.range_eq_range', hemit]
    rfl
  · have hcount : offset + min (stop - offset) (window.length - 1 - offset) =
        min stop (window.length - 1) := by omega
    rw [h.run, EvalRun.after_after, Nat.min_eq_left (by omega : offset ≤ window.length - 1), hjoin,
      hcount]

theorem processChunkedEvalWindow_ok (start : Nat) {blockTokens : Nat} (hblock : 0 < blockTokens)
    {activations : Nat × Option Nat}
    (hactivations : prepareChunkedEvalWindow backend window.length blockTokens = .ok activations)
    {shape : AttentionShape} (hfit : window.length ≤ shape.maxContext) (dtype : KvCacheDtype)
    {run : EvalRun F} (hrun : run.scored + window.length < 2 ^ 64) :
    processChunkedEvalWindow backend window start blockTokens activations shape dtype run =
      .ok (run.after (windowRows backend (.batched .backendPreferred) window start 0
        (window.length - 1))) := by
  have hstart : BlockInvariant backend window start shape run 0 (.start shape dtype, run) :=
    ⟨rfl, rfl, by rw [Nat.zero_min, windowRows_zero, EvalRun.after_nil]⟩
  rcases foldlM_stepBy hblock hstart fun offset progress hdvd hoffset h =>
    processChunkedEvalBlock_ok hblock hactivations hfit hrun hdvd hoffset h with
    ⟨progress, hfold, hend⟩
  rw [processChunkedEvalWindow, hfold]
  show Except.ok progress.2 = _
  rw [hend.run, Nat.min_eq_right (Nat.sub_le _ _)]

end InBlocks

/-! ## The windows -/

section Windows

variable {F : Type} {backend : EvalBackend F} {tokens : List Token} {windowTokens : Nat}

/-- The rows of a window are the rows of its positions. -/
theorem windowRows_eq (evaluation : Evaluation) {start stop : Nat} (hwindow : 2 ≤ windowTokens)
    (hdvd : windowTokens - 1 ∣ start) (hstop : stop ≤ start + windowTokens) {count : Nat}
    (hcount : start + count < stop) :
    windowRows backend evaluation ((tokens.take stop).drop start) start 0 count =
      (List.range' (start + 1) count).map (scoredRow backend evaluation tokens windowTokens) := by
  rw [windowRows, List.range'_eq_map_range, List.range'_eq_map_range, List.map_map, List.map_map]
  apply List.map_congr_left
  intro offset hoffset
  rw [List.mem_range] at hoffset
  have hcovering : coveringStart windowTokens (start + 1 + offset) = start := by
    rcases hdvd with ⟨windows, rfl⟩
    rw [coveringStart, show (windowTokens - 1) * windows + 1 + offset - 1 =
      offset + (windowTokens - 1) * windows by omega, Nat.add_mul_div_left _ _ (by omega),
      Nat.div_eq_of_lt (by omega), Nat.zero_add, Nat.mul_comm]
  have htokens : ((tokens.take stop).drop start).take (0 + offset + 1) =
      (tokens.take (start + 1 + offset)).drop start := by
    rw [List.take_drop, List.take_take, Nat.min_eq_left (by omega),
      show start + (0 + offset + 1) = start + 1 + offset by omega]
  simp only [Function.comp_apply, windowRow, scoredRow]
  rw [hcovering, htokens, show start + (0 + offset) + 1 = start + 1 + offset by omega]

theorem scoredRows_append (evaluation : Evaluation) (count more : Nat) :
    scoredRows backend evaluation tokens windowTokens count ++
        (List.range' (count + 1) more).map (scoredRow backend evaluation tokens windowTokens) =
      scoredRows backend evaluation tokens windowTokens (count + more) := by
  rw [scoredRows, scoredRows, ← List.map_append, Nat.add_comm count 1, List.range'_append_1]

theorem length_scoredRows (evaluation : Evaluation) (count : Nat) :
    (scoredRows backend evaluation tokens windowTokens count).length = count := by
  rw [scoredRows, List.length_map, List.length_range']

theorem evalAttentionShape_ok {shape : AttentionShape}
    (h : evalAttentionShape backend windowTokens = .ok shape) :
    windowTokens ≤ shape.maxContext ∧ windowTokens ≤ 2 ^ 63 := by
  rcases bind_eq_ok.mp h with ⟨bucket, hbucket, hshape⟩
  rw [onBackend_eq_ok, decodeGraphBucket, sized_eq_ok, checkedNextPowerOfTwo] at hbucket
  rw [attentionShape_maxContext (onBackend_eq_ok.mp hshape)]
  split at hbucket
  · next hlt =>
    cases hbucket
    have hle : windowTokens ≤ 2 ^ Nat.clog 2 (max windowTokens 512) :=
      (Nat.le_max_left _ _).trans (Nat.le_pow_clog Nat.one_lt_two _)
    have hexponent := (Nat.pow_lt_pow_iff_right Nat.one_lt_two).mp hlt
    exact ⟨hle, hle.trans (Nat.pow_le_pow_right Nat.two_pos (Nat.le_of_lt_succ hexponent))⟩
  · cases hbucket

/-- The tokens of the window that starts at a token. -/
def windowAt (tokens : List Token) (windowTokens start : Nat) : List Token :=
  (tokens.take (min (start + windowTokens) tokens.length)).drop start

theorem length_windowAt (start : Nat) :
    (windowAt tokens windowTokens start).length = min (start + windowTokens) tokens.length - start := by
  rw [windowAt, List.length_drop, List.length_take, Nat.min_assoc, Nat.min_self]

section Start

variable {start : Nat} (hstart : start < tokens.length - 1)

include hstart

theorem evalWindow_ok (htokens : tokens.length * 4 < 2 ^ 63) (hmax : windowTokens ≤ 2 ^ 63) :
    evalWindow tokens windowTokens start = .ok (windowAt tokens windowTokens start) := by
  rw [evalWindow, checkedAdd, if_pos (by omega), windowAt]

/-- A window takes the scored positions to its end. -/
theorem scoredRows_window (evaluation : Evaluation) (hwindow : 2 ≤ windowTokens)
    (hdvd : windowTokens - 1 ∣ start) :
    scoredRows backend evaluation tokens windowTokens start ++
        windowRows backend evaluation (windowAt tokens windowTokens start) start 0
          ((windowAt tokens windowTokens start).length - 1) =
      scoredRows backend evaluation tokens windowTokens
        (min (start + (windowTokens - 1)) (tokens.length - 1)) := by
  rw [length_windowAt, windowAt, windowRows_eq evaluation hwindow hdvd (Nat.min_le_left _ _) (by omega),
    scoredRows_append]
  congr 1
  omega

end Start

/-- A run that has handed out the rows of the first positions. -/
def scoredRun (backend : EvalBackend F) (evaluation : Evaluation) (tokens : List Token)
    (windowTokens count : Nat) : EvalRun F :=
  ⟨scoredRows backend evaluation tokens windowTokens count, count⟩

theorem after_scoredRun (evaluation : Evaluation) {count more : Nat} {rows : List (Nat × List F)}
    (h : scoredRows backend evaluation tokens windowTokens count ++ rows =
      scoredRows backend evaluation tokens windowTokens more) :
    (scoredRun backend evaluation tokens windowTokens count).after rows =
      scoredRun backend evaluation tokens windowTokens more := by
  have hlength := congrArg List.length h
  rw [List.length_append, length_scoredRows, length_scoredRows] at hlength
  rw [scoredRun, EvalRun.after, h, hlength, scoredRun]

section Turn

variable {shape : AttentionShape} {start : Nat} (htokens : tokens.length * 4 < 2 ^ 63)
  (hwindow : 2 ≤ windowTokens) (hmax : windowTokens ≤ 2 ^ 63)
  (hfit : windowTokens ≤ shape.maxContext) (dtype : KvCacheDtype)
  (hdvd : windowTokens - 1 ∣ start) (hstart : start < tokens.length - 1)

include htokens hwindow hmax hfit hdvd hstart

/-- One window, one token at a time. -/
theorem evaluateLogitsFrom_ok (hstate : backend.newState = .ok ()) :
    evaluateLogitsFrom backend tokens windowTokens shape dtype
        (scoredRun backend .sequential tokens windowTokens start) start =
      .ok (scoredRun backend .sequential tokens windowTokens
        (min (start + (windowTokens - 1)) (tokens.length - 1))) := by
  have hlength : (windowAt tokens windowTokens start).length =
      min (start + windowTokens) tokens.length - start := length_windowAt start
  have hrows : scoredRows backend .sequential tokens windowTokens start ++ _ = _ :=
    scoredRows_window hstart .sequential hwindow hdvd
  have hend := after_scoredRun _ hrows
  rw [evaluateLogitsFrom, evalWindow_ok hstart htokens hmax]
  show (evaluateLogitsWindow _ _ _ _ _ _ >>= _) = _
  rw [evaluateLogitsWindow_ok start (by omega) (by omega) hstate]
  have hscored : checkedAdd 64 start ((windowAt tokens windowTokens start).length - 1) =
      some (start + ((windowAt tokens windowTokens start).length - 1)) := if_pos (by omega)
  rw [← hend]
  simp only [bind, Except.bind, EvalRun.after, scoredRun, length_windowRows, Nat.zero_add, hscored]

/-- One window, in blocks. -/
theorem evaluateChunkedFrom_ok {chunkTokens : Nat} (hchunk : 1 ≤ chunkTokens)
    (hblocks : ∀ length, 0 < length → length ≤ windowTokens → ∃ activations,
      prepareChunkedEvalWindow backend length (min chunkTokens length) = .ok activations) :
    evaluateChunkedFrom backend tokens windowTokens chunkTokens shape dtype
        (scoredRun backend (.batched .backendPreferred) tokens windowTokens start) start =
      .ok (scoredRun backend (.batched .backendPreferred) tokens windowTokens
        (min (start + (windowTokens - 1)) (tokens.length - 1))) := by
  have hlength : (windowAt tokens windowTokens start).length =
      min (start + windowTokens) tokens.length - start := length_windowAt start
  have hrows : scoredRows backend (.batched .backendPreferred) tokens windowTokens start ++ _ = _ :=
    scoredRows_window hstart (.batched .backendPreferred) hwindow hdvd
  rcases hblocks (windowAt tokens windowTokens start).length (by omega) (by omega) with
    ⟨activations, hactivations⟩
  rw [evaluateChunkedFrom, evalWindow_ok hstart htokens hmax]
  show (prepareChunkedEvalWindow _ _ _ >>= _) = _
  rw [hactivations]
  show processChunkedEvalWindow _ _ _ _ _ _ _ _ = _
  rw [processChunkedEvalWindow_ok start (by omega) hactivations (by omega) dtype
    (show start + _ < 2 ^ 64 by omega), after_scoredRun _ hrows]

end Turn

theorem validateGenerationTokens_ok {rt : Runtime} (h : ∀ token ∈ tokens, token < rt.vocabSize) :
    validateGenerationTokens rt tokens = .ok () := by
  have hfind : (tokens.zipIdx.find? fun token => rt.vocabSize ≤ token.1) = none := by
    rw [List.find?_eq_none]
    intro entry hentry
    have hlt := h entry.1 (List.fst_mem_of_mem_zipIdx hentry)
    rw [decide_eq_true_eq]
    exact Nat.not_le.mpr hlt
  rw [validateGenerationTokens, hfind]

end Windows

/-- A backend that never fails, over five tokens. -/
def fiveTokens : EvalBackend Unit where
  nHead := 2
  nHeadKv := 1
  headDim := 4
  contextLength := 512
  vocabSize := 5
  decodeGraphSupported := false
  prefillMethod := .chunkedGpu
  q8PrefillSupported := false
  decodeEquivalentPrefillSupported := false
  logits := fun _ => ⟨List.replicate 5 (), rfl⟩
  newState := .ok ()
  prepareBlocks := fun _ _ => .ok ()
  synchronize := .ok ()

theorem fiveTokens_succeeds : fiveTokens.Succeeds 3 2 where
  shape := ⟨⟨2, 1, 4, 512, by decide, by decide, by decide, by decide⟩, by decide +kernel⟩
  newState := rfl
  blocks := by
    intro length hpos hle
    rcases (by omega : length = 1 ∨ length = 2 ∨ length = 3) with rfl | rfl | rfl
    · exact ⟨(1, none), rfl⟩
    · exact ⟨(2, none), rfl⟩
    · exact ⟨(2, some 1), rfl⟩
  synchronize := rfl

end Leone.Session

import Leone.Session.Prefill

/-!
# Bounded segments

A bounded part of a segment makes the first forward calls of the whole segment and leaves a
segment that makes the others. So the calls of a segment do not depend on how it was split.
-/

namespace Leone.Session

open Framework Kv

/-! ## What a segment does -/

/-- An evaluator after more rows and calls, with the given activations. -/
def Evaluator.wrote (e : Evaluator) (rows : List KvRow) (calls : List ForwardCall)
    (activations : Activations) : Evaluator :=
  ⟨{ e.cache with rows := e.cache.rows ++ rows }, activations, e.calls ++ calls⟩

def rowsOf (evaluation : Evaluation) (initial : Bool) (tokens : List Token) : List KvRow :=
  tokens.map fun token => ⟨token, evaluation, initial⟩

/-- The activations after the last of the given tokens. -/
def Activations.full (tokens : List Token) : Activations := ⟨some tokens, some tokens⟩

@[simp] theorem wrote_cache_tokens (e : Evaluator) (evaluation : Evaluation) (initial : Bool)
    (tokens : List Token) (calls : List ForwardCall) (a : Activations) :
    (e.wrote (rowsOf evaluation initial tokens) calls a).cache.tokens = e.cache.tokens ++ tokens := by
  simp only [Evaluator.wrote, KvCache.tokens, rowsOf, List.map_append, List.map_map]
  exact congrArg _ (List.map_id _)

@[simp] theorem wrote_cache_position (e : Evaluator) (evaluation : Evaluation) (initial : Bool)
    (tokens : List Token) (calls : List ForwardCall) (a : Activations) :
    (e.wrote (rowsOf evaluation initial tokens) calls a).cache.position =
      e.cache.position + tokens.length := by
  simp [Evaluator.wrote, KvCache.position, rowsOf]

@[simp] theorem wrote_shape (e : Evaluator) (rows : List KvRow) (calls : List ForwardCall)
    (a : Activations) : (e.wrote rows calls a).cache.shape = e.cache.shape := rfl

theorem wrote_wrote (e : Evaluator) (evaluation : Evaluation) (initial : Bool)
    (tokens tokens' : List Token) (calls calls' : List ForwardCall) (a a' : Activations) :
    (e.wrote (rowsOf evaluation initial tokens) calls a).wrote
        (rowsOf evaluation initial tokens') calls' a' =
      e.wrote (rowsOf evaluation initial (tokens ++ tokens')) (calls ++ calls') a' := by
  simp [Evaluator.wrote, rowsOf]

theorem wrote_nil (e : Evaluator) (evaluation : Evaluation) (initial : Bool) :
    e.wrote (rowsOf evaluation initial []) [] e.activations = e := by
  simp [Evaluator.wrote, rowsOf]

/-- The calls that evaluate tokens one by one. -/
def sequentialCalls : Nat → List Token → List ForwardCall
  | _, [] => []
  | start, token :: tokens => ⟨start, [token], .sequential⟩ :: sequentialCalls (start + 1) tokens

theorem sequentialCalls_append (start : Nat) (tokens tokens' : List Token) :
    sequentialCalls start (tokens ++ tokens') =
      sequentialCalls start tokens ++ sequentialCalls (start + tokens.length) tokens' := by
  induction tokens generalizing start with
  | nil => rfl
  | cons token tokens ih =>
    rw [List.cons_append, sequentialCalls, ih, sequentialCalls, List.cons_append, List.length_cons]
    congr 3
    omega

/-- The calls that evaluate tokens in chunks. -/
def chunkCalls (chunkTokens : Nat) (numerics : PrefillNumerics) (start : Nat) (tokens : List Token) :
    List ForwardCall :=
  if _h : 0 < chunkTokens ∧ tokens ≠ [] then
    ⟨start, tokens.take chunkTokens, .batched numerics⟩ ::
      chunkCalls chunkTokens numerics (start + chunkTokens) (tokens.drop chunkTokens)
  else []
termination_by tokens.length
decreasing_by
  have := List.length_pos_of_ne_nil _h.2
  rw [List.length_drop]
  omega

theorem chunkCalls_nil (chunkTokens : Nat) (numerics : PrefillNumerics) (start : Nat) :
    chunkCalls chunkTokens numerics start [] = [] := by
  rw [chunkCalls]
  simp

/-- One chunk and the others. -/
theorem chunkCalls_append_chunk {chunkTokens : Nat} (hpos : 0 < chunkTokens)
    (numerics : PrefillNumerics) (start : Nat) {chunk : List Token} (tokens : List Token)
    (hne : chunk ≠ [])
    (hlen : chunk.length = chunkTokens ∨ chunk.length ≤ chunkTokens ∧ tokens = []) :
    chunkCalls chunkTokens numerics start (chunk ++ tokens) =
      ⟨start, chunk, .batched numerics⟩ ::
        chunkCalls chunkTokens numerics (start + chunk.length) tokens := by
  rw [chunkCalls, dif_pos ⟨hpos, by simp [hne]⟩]
  rcases hlen with hfull | ⟨hle, rfl⟩
  · rw [← hfull, List.take_left, List.drop_left]
  · rw [List.append_nil, List.take_of_length_le hle, List.drop_of_length_le hle, chunkCalls_nil,
      chunkCalls_nil]

/-- Whole chunks come before the rest. -/
theorem chunkCalls_append {chunkTokens : Nat} (hpos : 0 < chunkTokens) (numerics : PrefillNumerics)
    (start : Nat) {tokens : List Token} (rest : List Token) (hdvd : chunkTokens ∣ tokens.length) :
    chunkCalls chunkTokens numerics start (tokens ++ rest) =
      chunkCalls chunkTokens numerics start tokens ++
        chunkCalls chunkTokens numerics (start + tokens.length) rest := by
  obtain ⟨n, hn⟩ := hdvd
  induction n generalizing start tokens with
  | zero =>
    obtain rfl := List.length_eq_zero_iff.mp hn
    rw [chunkCalls_nil]
    rfl
  | succ n ih =>
    rw [Nat.mul_succ] at hn
    obtain ⟨chunk, others, rfl, hchunk⟩ : ∃ chunk others, tokens = chunk ++ others ∧
        chunk.length = chunkTokens :=
      ⟨tokens.take chunkTokens, tokens.drop chunkTokens, (List.take_append_drop _ _).symm,
        List.length_take_of_le (by omega)⟩
    have hne : chunk ≠ [] := by
      intro hnil
      rw [hnil] at hchunk
      exact hpos.ne hchunk
    rw [List.length_append] at hn
    rw [List.append_assoc, chunkCalls_append_chunk hpos _ _ _ hne (.inl hchunk),
      chunkCalls_append_chunk hpos _ _ _ hne (.inl hchunk), ih _ (by omega), List.cons_append,
      List.length_append, Nat.add_assoc]

def PreparedPrefill.evaluation : PreparedPrefill → Evaluation
  | .chunked _ _ numerics => .batched numerics
  | _ => .sequential

/-- The forward calls of a segment. -/
def PreparedPrefill.calls (prepared : PreparedPrefill) (start : Nat) (tokens : List Token) :
    List ForwardCall :=
  match prepared with
  | .reused => []
  | .sequential => sequentialCalls start tokens
  | .chunked chunkTokens _ numerics => chunkCalls chunkTokens numerics start tokens

/-- The storage of the chunks is there for so many tokens. -/
def PreparedPrefill.Fits (prepared : PreparedPrefill) (tokens : Nat) : Prop :=
  match prepared with
  | .reused => tokens = 0
  | .sequential => True
  | .chunked chunkTokens tail _ => 0 < chunkTokens ∧ 0 < tokens ∧
      (tokens % chunkTokens ≠ 0 → tail = some (tokens % chunkTokens))

/-- The activations after a segment: those of its last token, if it has one. -/
def Activations.after (a : Activations) (before tokens : List Token) : Activations :=
  if tokens = [] then a else .full (before ++ tokens)

/-- An evaluator after a whole segment. -/
def Evaluator.finish (e : Evaluator) (prepared : PreparedPrefill) (initial : Bool)
    (tokens : List Token) : Evaluator :=
  e.wrote (rowsOf prepared.evaluation initial tokens) (prepared.calls e.cache.position tokens)
    (e.activations.after e.cache.tokens tokens)

/-! ## Sequential segments -/

theorem prepareAppend_ok {c : KvCache} {tokens : Nat} (hpos : 0 < tokens)
    (hfit : c.position + tokens ≤ c.shape.maxContext) : c.prepareAppend tokens = .ok () := by
  rw [KvCache.prepareAppend, if_neg (by omega), if_neg (by omega)]

theorem forwardToken_ok {e : Evaluator} (hfit : e.cache.position + 1 ≤ e.cache.shape.maxContext)
    (initial : Bool) (token : Token) (output : SequentialPrefillOutput) :
    ∃ a, forwardToken initial token output e =
      .ok (e.wrote (rowsOf .sequential initial [token]) [⟨e.cache.position, [token], .sequential⟩] a) ∧
      (output = .logits → a = .full (e.cache.tokens ++ [token])) := by
  rw [forwardToken, prepareAppend_ok Nat.one_pos hfit]
  cases output with
  | hidden => exact ⟨_, rfl, by simp⟩
  | logits =>
    refine ⟨_, rfl, ?_⟩
    simp [Evaluator.append, KvCache.tokens, Activations.full]

theorem runSequentialTokens_ok (initial : Bool) (lastQuantumPosition : Nat) (tokens : List Token)
    {e : Evaluator} (hfit : e.cache.position + tokens.length ≤ e.cache.shape.maxContext)
    (processed : Nat) :
    ∃ a, runSequentialTokens initial lastQuantumPosition processed tokens e =
      .ok (e.wrote (rowsOf .sequential initial tokens) (sequentialCalls e.cache.position tokens) a) ∧
      (tokens = [] → a = e.activations) ∧
      (tokens ≠ [] → processed + tokens.length = lastQuantumPosition + 1 →
        a = .full (e.cache.tokens ++ tokens)) := by
  induction tokens generalizing e processed with
  | nil => exact ⟨e.activations, by rw [sequentialCalls, wrote_nil]; rfl, fun _ => rfl, by simp⟩
  | cons token tokens ih =>
    rw [List.length_cons] at hfit
    obtain ⟨a, hforward, hlogits⟩ := forwardToken_ok (e := e) (by omega) initial token
      (.forPosition processed lastQuantumPosition)
    obtain ⟨a', hrest, hnil, hfull⟩ := ih (e := e.wrote (rowsOf .sequential initial [token])
      [⟨e.cache.position, [token], .sequential⟩] a) (by
        rw [wrote_cache_position, wrote_shape, List.length_singleton]
        omega) (processed + 1)
    refine ⟨a', ?_, by simp, ?_⟩
    · rw [runSequentialTokens, hforward]
      refine hrest.trans ?_
      rw [wrote_wrote, wrote_cache_position]
      rfl
    · intro _ hlast
      rw [List.length_cons] at hlast
      by_cases hempty : tokens = []
      · subst hempty
        rw [hnil rfl]
        have hposition : SequentialPrefillOutput.forPosition processed lastQuantumPosition = .logits := by
          rw [SequentialPrefillOutput.forPosition, if_pos (by simpa using hlast)]
        exact hlogits hposition
      · rw [hfull hempty (by omega), wrote_cache_tokens, List.append_assoc]
        rfl

/-! ## Chunked segments -/

theorem selectPrefillBatch_ok {chunkTokens : Nat} {tail : Option Nat} {done remaining : Nat}
    (hdvd : chunkTokens ∣ done) (hremaining : 0 < remaining)
    (htail : (done + remaining) % chunkTokens ≠ 0 → tail = some ((done + remaining) % chunkTokens)) :
    selectPrefillBatch (min chunkTokens remaining) chunkTokens tail = .ok () := by
  unfold selectPrefillBatch
  by_cases hfull : chunkTokens ≤ remaining
  · rw [if_pos (Nat.min_eq_left hfull)]
  · -- the last chunk is what the whole chunks leave of the segment
    have hmod : (done + remaining) % chunkTokens = remaining := by
      rw [Nat.add_mod, Nat.mod_eq_zero_of_dvd hdvd, Nat.zero_add, Nat.mod_mod,
        Nat.mod_eq_of_lt (by omega)]
    rw [hmod] at htail
    rw [Nat.min_eq_right (by omega), if_neg (by omega), htail (by omega)]
    simp

theorem forwardPrefillChunk_ok {e : Evaluator} {tokens : List Token} (hne : tokens ≠ [])
    (hfit : e.cache.position + tokens.length ≤ e.cache.shape.maxContext)
    (numerics : PrefillNumerics) (initial : Bool) :
    forwardPrefillChunk numerics initial tokens e.cache.position e =
      .ok (e.wrote (rowsOf (.batched numerics) initial tokens)
        [⟨e.cache.position, tokens, .batched numerics⟩] e.activations) := by
  rw [forwardPrefillChunk, if_neg (by simp),
    prepareAppend_ok (List.length_pos_of_ne_nil hne) hfit]
  rfl

/-- The loop over the chunks evaluates whole chunks of the rest, or all of it. -/
theorem runPrefillChunks_ok {chunkTokens : Nat} (hpos : 0 < chunkTokens) {tail : Option Nat}
    (numerics : PrefillNumerics) (initial : Bool) {budget : Nat} (base turns : Nat)
    (front rest : List Token) {e : Evaluator} (hturns : rest.length ≤ turns)
    (hdvd : chunkTokens ∣ front.length ∨ rest = [])
    (htail : (front ++ rest).length % chunkTokens ≠ 0 →
      tail = some ((front ++ rest).length % chunkTokens))
    (hbase : base + front.length = e.cache.position)
    (hroom : e.cache.position + rest.length ≤ e.cache.shape.maxContext)
    (hbudget : front.length ≤ budget)
    (hmin : front = [] → min chunkTokens rest.length ≤ budget) :
    ∃ now later, rest = now ++ later ∧ (chunkTokens ∣ now.length ∨ later = []) ∧
      front.length + now.length ≤ budget ∧ (front = [] → rest ≠ [] → now ≠ []) ∧
      ((front ++ rest).length ≤ budget → later = []) ∧
      runPrefillChunks chunkTokens tail numerics initial (front ++ rest) budget base turns
          front.length e =
        .ok (front.length + now.length, e.wrote (rowsOf (.batched numerics) initial now)
          (chunkCalls chunkTokens numerics e.cache.position now) e.activations) := by
  induction turns generalizing front rest e with
  | zero =>
    obtain rfl := List.length_eq_zero_iff.mp (Nat.le_zero.mp hturns)
    refine ⟨[], [], rfl, .inr rfl, by simpa using hbudget, fun _ h => absurd rfl h, fun _ => rfl, ?_⟩
    rw [chunkCalls_nil, wrote_nil]
    rfl
  | succ turns ih =>
    by_cases hrest : rest = []
    · subst hrest
      refine ⟨[], [], rfl, .inr rfl, by simpa using hbudget, fun _ h => absurd rfl h, fun _ => rfl, ?_⟩
      rw [chunkCalls_nil, wrote_nil, runPrefillChunks, if_neg (by simp)]
      rfl
    replace hdvd := hdvd.resolve_right hrest
    have hlen := List.length_pos_of_ne_nil hrest
    have hremaining : (front ++ rest).length - front.length = rest.length := by
      rw [List.length_append]
      omega
    rw [runPrefillChunks, if_pos (by rw [List.length_append]; omega), hremaining,
      boundedPrefillChunk]
    by_cases hnext : min chunkTokens rest.length ≤ budget - front.length
    · obtain ⟨chunk, others, rfl, hchunk⟩ : ∃ chunk others, rest = chunk ++ others ∧
          chunk.length = min chunkTokens rest.length :=
        ⟨rest.take (min chunkTokens rest.length), rest.drop (min chunkTokens rest.length),
          (List.take_append_drop _ _).symm, List.length_take_of_le (Nat.min_le_right _ _)⟩
      rw [← hchunk] at hnext ⊢
      rw [List.length_append] at hchunk hturns hroom hlen
      have hne : chunk ≠ [] := List.ne_nil_of_length_pos (by omega)
      have hwhole : chunk.length = chunkTokens ∨ chunk.length ≤ chunkTokens ∧ others = [] := by
        by_cases hfull : chunkTokens ≤ chunk.length + others.length
        · exact .inl (by omega)
        · exact .inr ⟨by omega, List.eq_nil_of_length_eq_zero (by omega)⟩
      obtain ⟨now, later, rfl, hnow, hle, -, hall, hrun⟩ := ih (front ++ chunk)
        others (e := e.wrote (rowsOf (.batched numerics) initial chunk)
          [⟨e.cache.position, chunk, .batched numerics⟩] e.activations) (by omega)
        (by
          rw [List.length_append]
          rcases hwhole with hfull | ⟨-, hnil⟩
          · exact .inl (Nat.dvd_add hdvd (by rw [hfull]))
          · exact .inr hnil)
        (by simpa using htail)
        (by rw [wrote_cache_position, List.length_append]; omega)
        (by rw [wrote_cache_position, wrote_shape]; omega)
        (by rw [List.length_append]; omega) (by simp [hne])
      refine ⟨chunk ++ now, later, by simp, ?_, ?_, by simp [hne], by simpa using hall, ?_⟩
      · rcases hwhole with hfull | ⟨-, hnil⟩
        · rw [List.length_append]
          exact hnow.imp_left fun h => Nat.dvd_add (by rw [hfull]) h
        · exact .inr (List.append_eq_nil_iff.mp hnil).2
      · simp only [List.length_append] at hle ⊢
        omega
      · rw [if_pos hnext]
        have hbatch : selectPrefillBatch chunk.length chunkTokens tail = .ok () := by
          rw [hchunk]
          apply selectPrefillBatch_ok hdvd hlen
          simpa using htail
        have hslice : ((front ++ (chunk ++ (now ++ later))).drop front.length).take chunk.length =
            chunk := by
          rw [List.drop_left, List.take_left]
        simp only [bind, Except.bind, hbatch, hslice, hbase]
        rw [forwardPrefillChunk_ok hne (by omega)]
        simp only [List.length_append, List.append_assoc] at hrun ⊢
        rw [hrun, wrote_wrote, wrote_cache_position, ← Nat.add_assoc,
          chunkCalls_append_chunk hpos _ _ _ hne
            (hwhole.imp_right (And.imp_right fun h => (List.append_eq_nil_iff.mp h).1))]
        rfl
    · have hfront : front ≠ [] := by
        intro hnil
        have := hmin hnil
        rw [hnil, List.length_nil] at hnext
        omega
      refine ⟨[], rest, rfl, .inl (by simp), by simpa using hbudget, fun h => absurd h hfront, ?_, ?_⟩
      · intro hall
        rw [List.length_append] at hall
        omega
      · rw [if_neg hnext, if_neg (by simpa using hfront), chunkCalls_nil, wrote_nil]
        rfl

/-! ## Any segment -/

theorem calls_nil (prepared : PreparedPrefill) (start : Nat) : prepared.calls start [] = [] := by
  cases prepared with
  | reused => rfl
  | sequential => rfl
  | chunked => exact chunkCalls_nil _ _ _

/-- A part of a segment that ends where a chunk does, or where the segment does. -/
def PreparedPrefill.Splits (prepared : PreparedPrefill) (now later : List Token) : Prop :=
  match prepared with
  | .reused => now = []
  | .sequential => True
  | .chunked chunkTokens _ _ => chunkTokens ∣ now.length ∨ later = []

theorem calls_append {prepared : PreparedPrefill} {now later : List Token}
    (hfits : prepared.Fits (now ++ later).length) (hsplits : prepared.Splits now later) (start : Nat) :
    prepared.calls start (now ++ later) =
      prepared.calls start now ++ prepared.calls (start + now.length) later := by
  cases prepared with
  | reused => rfl
  | sequential => exact sequentialCalls_append _ _ _
  | chunked chunkTokens tail numerics =>
    rcases hsplits with hdvd | rfl
    · exact chunkCalls_append hfits.1 _ _ _ hdvd
    · simp only [PreparedPrefill.calls, List.append_nil, chunkCalls_nil]

theorem fits_later {prepared : PreparedPrefill} {now later : List Token}
    (hfits : prepared.Fits (now ++ later).length) (hsplits : prepared.Splits now later)
    (hlater : later ≠ []) : prepared.Fits later.length := by
  rw [List.length_append] at hfits
  cases prepared with
  | reused => exact (Nat.add_eq_zero_iff.mp hfits).2
  | sequential => trivial
  | chunked chunkTokens tail numerics =>
    refine ⟨hfits.1, List.length_pos_of_ne_nil hlater, ?_⟩
    have htail := hfits.2.2
    rwa [Nat.add_mod, Nat.mod_eq_zero_of_dvd (hsplits.resolve_right hlater), Nat.zero_add,
      Nat.mod_mod] at htail

/-- A segment does all of its tokens, whatever part of it was done before. -/
theorem finish_later {prepared : PreparedPrefill} {initial : Bool} {now later : List Token}
    {e : Evaluator} {a : Activations} (hfits : prepared.Fits (now ++ later).length)
    (hsplits : prepared.Splits now later)
    (ha : later = [] → a = e.activations.after e.cache.tokens now) :
    (e.wrote (rowsOf prepared.evaluation initial now) (prepared.calls e.cache.position now) a).finish
      prepared initial later = e.finish prepared initial (now ++ later) := by
  rw [Evaluator.finish, wrote_wrote, wrote_cache_position, ← calls_append hfits hsplits,
    wrote_cache_tokens]
  by_cases hlater : later = []
  · subst hlater
    simp only [Evaluator.finish, Evaluator.wrote, Activations.after, if_true, List.append_nil, ha rfl]
  · simp [Evaluator.finish, Evaluator.wrote, Activations.after, hlater, List.append_assoc]

@[simp] theorem finish_cache_tokens (e : Evaluator) (prepared : PreparedPrefill) (initial : Bool)
    (tokens : List Token) :
    (e.finish prepared initial tokens).cache.tokens = e.cache.tokens ++ tokens :=
  wrote_cache_tokens _ _ _ _ _ _

@[simp] theorem finish_cache_position (e : Evaluator) (prepared : PreparedPrefill) (initial : Bool)
    (tokens : List Token) :
    (e.finish prepared initial tokens).cache.position = e.cache.position + tokens.length :=
  wrote_cache_position _ _ _ _ _ _

/-- A bounded part of a segment that the budget lets make a step. -/
theorem runPromptPrefillBounded_ok {prepared : PreparedPrefill} (initial : Bool)
    {tokens : List Token} {budget : Nat} {e : Evaluator} (hfits : prepared.Fits tokens.length)
    (hroom : e.cache.position + tokens.length ≤ e.cache.shape.maxContext)
    (hbudget : minimumCount (some prepared) tokens.length ≤ budget) :
    ∃ now later e', tokens = now ++ later ∧ prepared.Splits now later ∧ now.length ≤ budget ∧
      (tokens ≠ [] → now ≠ []) ∧ (tokens.length ≤ budget → later = []) ∧
      runPromptPrefillBounded prepared initial tokens budget e =
        .ok (⟨now.length, decide (later = [])⟩, e') ∧
      e'.finish prepared initial later = e.finish prepared initial tokens ∧
      e'.cache.tokens = e.cache.tokens ++ now ∧ e'.cache.shape = e.cache.shape := by
  cases prepared with
  | reused =>
    obtain rfl := List.length_eq_zero_iff.mp hfits
    refine ⟨[], [], e, rfl, rfl, Nat.zero_le _, fun h => h, fun _ => rfl, rfl, rfl, by simp, rfl⟩
  | sequential =>
    change 1 ≤ budget at hbudget
    obtain ⟨a, hrun, hnil, hfull⟩ := runSequentialTokens_ok initial (min budget tokens.length - 1)
      (tokens.take budget) (e := e) (by rw [List.length_take]; omega) 0
    refine ⟨tokens.take budget, tokens.drop budget, _, (List.take_append_drop _ _).symm, trivial,
      List.length_take_le _ _, ?_, List.drop_of_length_le, ?_,
      (@finish_later .sequential _ _ _ _ _ trivial trivial ?_).trans ?_,
      wrote_cache_tokens e .sequential initial (tokens.take budget) _ a, rfl⟩
    · intro hne hnow
      rcases List.take_eq_nil_iff.mp hnow with hzero | hnil
      · omega
      · exact hne hnil
    · rw [runPromptPrefillBounded, runSequentialPrefillBounded, hrun]
      have hcomplete : ((tokens.take budget).length = tokens.length) =
          (tokens.drop budget = []) := by
        rw [List.drop_eq_nil_iff, List.length_take, min_eq_right_iff]
      simp only [bind, Except.bind, pure, Except.pure, hcomplete]
      rfl
    · intro hlater
      have hall : tokens.take budget = tokens :=
        List.take_of_length_le (List.drop_eq_nil_iff.mp hlater)
      rw [Activations.after]
      split
      · next hempty => exact hnil hempty
      · next hne =>
        apply hfull hne
        have := List.length_pos_of_ne_nil hne
        rw [List.length_take] at this ⊢
        omega
    · rw [List.take_append_drop]
  | chunked chunkTokens tail numerics =>
    obtain ⟨hpos, hsome, htail⟩ := hfits
    obtain ⟨now, later, rfl, hsplits, hle, hne, hall, hrun⟩ := runPrefillChunks_ok hpos numerics
      initial e.cache.position tokens.length [] tokens
      (Nat.le_refl _) (.inl (by simp)) htail (by simp) hroom (by simp) (fun _ => hbudget)
    rw [List.length_nil, Nat.zero_add] at hle
    simp only [List.nil_append, List.length_nil, Nat.zero_add] at hrun hall
    rw [runPromptPrefillBounded, runChunkedPrefillBounded, hrun]
    by_cases hlater : later = []
    · subst hlater
      rw [List.append_nil] at hsome htail
      have hnow : now ≠ [] := List.ne_nil_of_length_pos hsome
      refine ⟨now, [], e.wrote (rowsOf (.batched numerics) initial now)
        (chunkCalls chunkTokens numerics e.cache.position now) (.full (e.cache.tokens ++ now)),
        rfl, hsplits, hle, hne rfl, fun _ => rfl, ?_,
        @finish_later (.chunked chunkTokens tail numerics) _ _ _ _ _ ?_ hsplits fun _ => ?_, wrote_cache_tokens _ _ _ _ _ _, rfl⟩
      · simp only [bind, Except.bind, List.append_nil, if_true, pure, Except.pure, decide_true,
          finishPrefillLogits, wrote_cache_tokens]
        rfl
      · rw [List.append_nil]
        exact ⟨hpos, hsome, htail⟩
      · rw [Activations.after, if_neg hnow]
    · refine ⟨now, later, e.wrote (rowsOf (.batched numerics) initial now)
        (chunkCalls chunkTokens numerics e.cache.position now) e.activations,
        rfl, hsplits, hle, hne rfl, hall, ?_, ?_, wrote_cache_tokens _ _ _ _ _ _, rfl⟩
      · simp only [bind, Except.bind, List.length_append]
        rw [if_neg (by have := List.length_pos_of_ne_nil hlater; omega), decide_eq_false hlater]
        rfl
      · exact @finish_later (.chunked chunkTokens tail numerics) _ _ _ _ _ ⟨hpos, hsome, htail⟩
          hsplits fun h => absurd h hlater

theorem finish_nil (e : Evaluator) (prepared : PreparedPrefill) (initial : Bool) :
    e.finish prepared initial [] = e := by
  simp [Evaluator.finish, Evaluator.wrote, Activations.after, rowsOf, calls_nil]

/-- A whole segment in one part. -/
theorem runPromptPrefill_ok {prepared : PreparedPrefill} (initial : Bool) {tokens : List Token}
    {e : Evaluator} (hfits : prepared.Fits tokens.length)
    (hroom : e.cache.position + tokens.length ≤ e.cache.shape.maxContext)
    (hsize : tokens.length ≤ unlimited) :
    runPromptPrefill prepared initial tokens e =
      .ok (⟨tokens.length, true⟩, e.finish prepared initial tokens) := by
  have hbudget : minimumCount (some prepared) tokens.length ≤ unlimited := by
    cases prepared with
    | chunked => exact (Nat.min_le_right _ _).trans hsize
    | reused => exact Nat.le_sub_one_of_lt (by simp [minimumCount])
    | sequential => exact Nat.le_sub_one_of_lt (by simp [minimumCount])
  obtain ⟨now, later, e', rfl, -, -, -, hall, hrun, hfinish, -, -⟩ :=
    runPromptPrefillBounded_ok initial hfits hroom hbudget
  obtain rfl := hall hsize
  rw [runPromptPrefill, hrun, ← hfinish, finish_nil, List.append_nil, decide_eq_true rfl]

end Leone.Session

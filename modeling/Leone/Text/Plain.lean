import Leone.Text.Greedy
import Leone.Text.RoundTrip

/-!
# Plain text and control tokens

Encoding looks every symbol of a text up by its string, and finds the last entry of the vocabulary
with it. A control token is therefore out of reach of a text exactly when no word of the text is
merged into its string.
-/

namespace Leone.Text

open Framework Gguf

/-! ## The last entry of a string -/

/-- The last place of a string in a vocabulary. -/
def LastEntry (tokens : List String) (token : String) (id : Nat) : Prop :=
  tokens[id]? = some token ∧ ∀ later, id < later → tokens[later]? ≠ some token

theorem lastEntry_cons {head token : String} {tokens : List String} {id : Nat} :
    LastEntry (head :: tokens) token id ↔
      (∃ before, id = before + 1 ∧ LastEntry tokens token before) ∨
        id = 0 ∧ head = token ∧ token ∉ tokens := by
  cases id with
  | zero =>
    simp only [LastEntry, List.getElem?_cons_zero, Option.some.injEq]
    constructor
    · intro h
      refine .inr ⟨trivial, h.1, fun hmem => ?_⟩
      obtain ⟨later, hlater⟩ := List.mem_iff_getElem?.mp hmem
      exact h.2 (later + 1) (Nat.succ_pos later) hlater
    · intro h
      rcases h with ⟨before, hzero, -⟩ | ⟨-, heq, hnot⟩
      · cases hzero
      · refine ⟨heq, fun later hlater hget => hnot ?_⟩
        obtain ⟨later, rfl⟩ := Nat.exists_eq_succ_of_ne_zero hlater.ne'
        exact List.mem_of_getElem? hget
  | succ id =>
    simp only [LastEntry, List.getElem?_cons_succ, Nat.succ_ne_zero, false_and, or_false,
      Nat.add_right_cancel_iff, exists_eq_left']
    apply and_congr_right
    intro _
    constructor
    · intro h later hlater
      exact h (later + 1) (Nat.succ_lt_succ hlater)
    · intro h later hlater
      obtain ⟨later, rfl⟩ := Nat.exists_eq_succ_of_ne_zero (Nat.ne_zero_of_lt hlater)
      exact h later (Nat.lt_of_succ_lt_succ hlater)

theorem exists_lastEntry {tokens : List String} {token : String} (h : token ∈ tokens) :
    ∃ id, LastEntry tokens token id := by
  induction tokens with
  | nil => cases h
  | cons head tokens ih =>
    by_cases hmem : token ∈ tokens
    · obtain ⟨id, hid⟩ := ih hmem
      exact ⟨id + 1, lastEntry_cons.mpr (.inl ⟨id, rfl, hid⟩)⟩
    · have heq := (List.mem_cons.mp h).resolve_right hmem
      exact ⟨0, lastEntry_cons.mpr (.inr ⟨rfl, heq.symm, hmem⟩)⟩

theorem LastEntry.mem {tokens : List String} {token : String} {id : Nat}
    (h : LastEntry tokens token id) : token ∈ tokens := List.mem_of_getElem? h.1

/-- Loading stores the last entry of each string, behind the entries of an earlier table. -/
theorem loadTokenIds_from {tokens : List String} {start : Nat} {table table' : HashMap String Nat}
    (h : (tokens.zipIdx start).foldlM (fun tokenToId entry =>
      match tryFrom 32 entry.2 with
      | some id => Except.ok (HashMap.insert tokenToId entry.1 id)
      | none => Except.error TokenizerError.tooManyTokens) table = .ok table')
    (token : String) (id : Nat) :
    table' token = some id ↔ (∃ place, id = start + place ∧ LastEntry tokens token place) ∨
      token ∉ tokens ∧ table token = some id := by
  induction tokens generalizing start table with
  | nil =>
    cases h
    simp [LastEntry]
  | cons head tokens ih =>
    rw [List.zipIdx_cons, List.foldlM_cons] at h
    obtain ⟨next, hnext, h⟩ := bind_eq_ok.mp h
    dsimp only at hnext
    split at hnext
    · next place hplace =>
      obtain ⟨-, rfl⟩ := tryFrom_eq_some.mp hplace
      cases hnext
      rw [ih h]
      constructor
      · intro hentry
        rcases hentry with ⟨later, hid, hlast⟩ | ⟨hnot, hid⟩
        · exact .inl ⟨later + 1, by omega, lastEntry_cons.mpr (.inl ⟨later, rfl, hlast⟩)⟩
        · rw [HashMap.insert, Function.update_apply] at hid
          split_ifs at hid with heq
          · obtain rfl := Option.some.inj hid
            exact .inl ⟨0, rfl, lastEntry_cons.mpr (.inr ⟨rfl, heq.symm, hnot⟩)⟩
          · exact .inr ⟨fun hmem => (List.mem_cons.mp hmem).elim heq hnot, hid⟩
      · intro hentry
        rcases hentry with ⟨later, hid, hlast⟩ | ⟨hnot, hid⟩
        · rcases lastEntry_cons.mp hlast with ⟨before, rfl, hbefore⟩ | ⟨rfl, heq, hnot⟩
          · exact .inl ⟨before, by omega, hbefore⟩
          · refine .inr ⟨hnot, ?_⟩
            rw [HashMap.insert, Function.update_apply, if_pos heq.symm, hid]
            rfl
        · rw [List.mem_cons, not_or] at hnot
          refine .inr ⟨hnot.2, ?_⟩
          rw [HashMap.insert, Function.update_apply, if_neg hnot.1]
          exact hid
    · cases hnext

theorem loadTokenIds_eq_some {tokens : List String} {tokenToId : HashMap String Nat}
    (h : loadTokenIds tokens = .ok tokenToId) (token : String) (id : Nat) :
    tokenToId token = some id ↔ LastEntry tokens token id := by
  rw [loadTokenIds_from h]
  simp

theorem Tokenizer.fromMetadata_lastEntry {metadata : Metadata} {t : Tokenizer}
    (h : Tokenizer.fromMetadata metadata = .ok t) (token : String) (id : Nat) :
    t.tokenToId token = some id ↔ LastEntry t.tokens token id := by
  unfold Tokenizer.fromMetadata at h
  generalize byteMaps = maps at h
  obtain ⟨preTokenizer, -, h⟩ := bind_eq_ok.mp h
  obtain ⟨vocabulary, hvocabulary, h⟩ := bind_eq_ok.mp h
  obtain ⟨merges, -, h⟩ := bind_eq_ok.mp h
  obtain ⟨special, -, h⟩ := bind_eq_ok.mp h
  obtain rfl := Except.ok.inj h
  obtain ⟨tokens, -, hvocabulary⟩ := bind_eq_ok.mp hvocabulary
  obtain ⟨typeCodes, -, hvocabulary⟩ := bind_eq_ok.mp hvocabulary
  dsimp only at hvocabulary
  split_ifs at hvocabulary
  · cases hvocabulary
  · cases hvocabulary
  · cases hvocabulary
  · obtain ⟨tokenTypes, -, hvocabulary⟩ := bind_eq_ok.mp hvocabulary
    obtain ⟨tokenToId, hids, hvocabulary⟩ := bind_eq_ok.mp hvocabulary
    cases hvocabulary
    exact loadTokenIds_eq_some hids token id

/-! ## The symbols of a text -/

namespace Tokenizer

variable (category : Char → GeneralCategory) (t : Tokenizer)

/-- The symbols that the merge table builds from the bytes of a word. -/
def builtSymbols (word : String) : List String :=
  greedyMerge t.merges
    (((utf8Bytes word).map fun byte => t.byteEncoder.get byte.toFin).map String.singleton)

/-- The symbols of a text, word by word. -/
def textSymbols (text : String) : List String :=
  (bpeSplit category text t.digitLimit).flatMap t.builtSymbols

/-- A control token holds the last entry of the string. -/
def IsControl (symbol : String) : Prop :=
  ∃ id, LastEntry t.tokens symbol id ∧ t.tokenTypes[id]? = some .control

/-- A symbol of the text is not in the vocabulary, or none of them is a control token. -/
def StaysPlain (text : String) : Prop :=
  (∃ symbol ∈ t.textSymbols category text, symbol ∉ t.tokens) ∨
    ∀ symbol ∈ t.textSymbols category text, ¬ t.IsControl symbol

variable {category t}

theorem encodeWord_eq_ok {word : String} {ids : List Nat} :
    t.encodeWord word = .ok ids ↔
      List.Forall₂ (fun symbol id => t.tokenToId symbol = some id) (t.builtSymbols word) ids := by
  rw [encodeWord, mapM_eq_ok, (mergeWord_greedy t.merges _).1, String.toList_ofList, builtSymbols]
  constructor
  · intro h
    refine h.imp fun symbol id hid => ?_
    split at hid
    · next found hfound =>
      rw [hfound, Except.ok.inj hid]
    · cases hid
  · intro h
    refine h.imp fun symbol id hid => ?_
    rw [hid]

theorem encodePiece_symbols {text : String} {ids : List Nat}
    (h : t.encodePiece category text = .ok ids) :
    List.Forall₂ (fun symbol id => t.tokenToId symbol = some id)
      (t.textSymbols category text) ids := by
  obtain ⟨words, hwords, heq⟩ := bind_eq_ok.mp h
  obtain rfl := Except.ok.inj heq
  rw [mapM_eq_ok] at hwords
  rw [textSymbols]
  clear h heq
  generalize bpeSplit category text t.digitLimit = pieces at hwords ⊢
  induction hwords with
  | nil => exact .nil
  | cons hword _ ih =>
    rw [List.flatMap_cons, List.flatten_cons]
    exact List.rel_append (encodeWord_eq_ok.mp hword) ih

theorem exists_forall₂ {α β : Type*} {R : α → β → Prop} {items : List α}
    (h : ∀ item ∈ items, ∃ value, R item value) : ∃ values, List.Forall₂ R items values := by
  induction items with
  | nil => exact ⟨[], .nil⟩
  | cons item items ih =>
    obtain ⟨value, hvalue⟩ := h item List.mem_cons_self
    obtain ⟨values, hvalues⟩ := ih fun other hmem => h other (List.mem_cons_of_mem item hmem)
    exact ⟨value :: values, .cons hvalue hvalues⟩

/-- A text whose symbols are all in the vocabulary is encoded. -/
theorem encodePiece_ok {text : String}
    (h : ∀ symbol ∈ t.textSymbols category text, ∃ id, t.tokenToId symbol = some id) :
    ∃ ids, t.encodePiece category text = .ok ids := by
  obtain ⟨words, hwords⟩ : ∃ words, List.Forall₂ (fun word ids => t.encodeWord word = .ok ids)
      (bpeSplit category text t.digitLimit) words := by
    apply exists_forall₂
    intro word hword
    obtain ⟨ids, hids⟩ := exists_forall₂ fun symbol hsymbol =>
      h symbol (List.mem_flatMap.mpr ⟨word, hword, hsymbol⟩)
    exact ⟨ids, encodeWord_eq_ok.mpr hids⟩
  refine ⟨words.flatten, ?_⟩
  rw [encodePiece, bind_eq_ok]
  exact ⟨words, mapM_eq_ok.mpr hwords, rfl⟩

end Tokenizer

theorem forall₂_right {α β : Type*} {R : α → β → Prop} {items : List α} {values : List β}
    (h : List.Forall₂ R items values) {value : β} (hmem : value ∈ values) :
    ∃ item ∈ items, R item value := by
  induction h with
  | nil => cases hmem
  | @cons item other items values hrel _ ih =>
    rcases List.mem_cons.mp hmem with rfl | hmem
    · exact ⟨item, List.mem_cons_self, hrel⟩
    · obtain ⟨found, hfound, hvalue⟩ := ih hmem
      exact ⟨found, List.mem_cons_of_mem item hfound, hvalue⟩

theorem forall₂_left {α β : Type*} {R : α → β → Prop} {items : List α} {values : List β}
    (h : List.Forall₂ R items values) {item : α} (hmem : item ∈ items) :
    ∃ value ∈ values, R item value := by
  induction h with
  | nil => cases hmem
  | @cons other value items values hrel _ ih =>
    rcases List.mem_cons.mp hmem with rfl | hmem
    · exact ⟨value, List.mem_cons_self, hrel⟩
    · obtain ⟨found, hfound, hvalue⟩ := ih hmem
      exact ⟨found, List.mem_cons_of_mem value hfound, hvalue⟩

/-- No identifier of a text belongs to a control token exactly when its symbols stay plain. -/
theorem no_control_iff (category : Char → GeneralCategory) (metadata : Metadata) (t : Tokenizer)
    (text : String) (hload : Tokenizer.fromMetadata metadata = .ok t) :
    (∀ ids, t.encodePiece category text = .ok ids →
      ∀ id ∈ ids, t.tokenTypes[id]? ≠ some .control) ↔ t.StaysPlain category text := by
  have hlast := Tokenizer.fromMetadata_lastEntry hload
  constructor
  · intro hplain
    by_cases hmissing : ∃ symbol ∈ t.textSymbols category text, symbol ∉ t.tokens
    · exact .inl hmissing
    · refine .inr fun symbol hsymbol hcontrol => ?_
      obtain ⟨id, hentry, htype⟩ := hcontrol
      have hknown : ∀ other ∈ t.textSymbols category text, ∃ place,
          t.tokenToId other = some place := by
        intro other hother
        have hmem : other ∈ t.tokens := by
          by_contra hnot
          exact hmissing ⟨other, hother, hnot⟩
        obtain ⟨place, hplace⟩ := exists_lastEntry hmem
        exact ⟨place, (hlast other place).mpr hplace⟩
      obtain ⟨ids, hids⟩ := Tokenizer.encodePiece_ok hknown
      obtain ⟨found, hfound, hid⟩ := forall₂_left (Tokenizer.encodePiece_symbols hids) hsymbol
      rw [(hlast symbol id).mpr hentry] at hid
      rw [← Option.some.inj hid] at hfound
      exact hplain ids hids id hfound htype
  · intro hstays ids hids id hid htype
    have hsymbols := Tokenizer.encodePiece_symbols hids
    rcases hstays with ⟨symbol, hsymbol, hnot⟩ | hstays
    · obtain ⟨place, -, hplace⟩ := forall₂_left hsymbols hsymbol
      exact hnot ((hlast symbol place).mp hplace).mem
    · obtain ⟨symbol, hsymbol, hplace⟩ := forall₂_right hsymbols hid
      exact hstays symbol hsymbol ⟨id, (hlast symbol id).mp hplace, htype⟩

/-- A vocabulary whose merges build a control token from two punctuation marks. -/
def markedMetadata : Metadata :=
  ((((∅ : Metadata).insert "tokenizer.ggml.model" (.string "gpt2")).insert
    "tokenizer.ggml.pre" (.string "qwen2")).insert
    "tokenizer.ggml.tokens" (.array (.string ["<", "|", "<|"]))).insert
    "tokenizer.ggml.token_type" (.array (.int32 [1, 1, 3])) |>.insert
    "tokenizer.ggml.merges" (.array (.string ["< |"]))

theorem encodePiece_marked : ∃ t, Tokenizer.fromMetadata markedMetadata = .ok t ∧
    t.encodePiece asciiCategory "<|" = .ok [2] ∧ t.tokenTypes[2]? = some .control := by
  have htables : (Tokenizer.fromMetadata markedMetadata).toOption.any (fun t =>
      t.digitLimit = 1 ∧ mergeWord t.merges "<|" = ["<|"] ∧ t.tokenToId "<|" = some 2 ∧
        t.tokenTypes[2]? = some .control) := by decide +kernel
  cases hload : Tokenizer.fromMetadata markedMetadata with
  | error e => simp [hload, Except.toOption] at htables
  | ok t =>
    simp only [hload, Except.toOption, Option.any_some, decide_eq_true_eq] at htables
    obtain ⟨hlimit, hmerge, hid, htype⟩ := htables
    refine ⟨t, rfl, ?_, htype⟩
    have hsplit : bpeSplit asciiCategory "<|" 1 = ["<|"] := by decide +kernel
    have hbytes : utf8Bytes "<|" = [60, 124] := by decide +kernel
    have hencoded : String.ofList ((utf8Bytes "<|").map fun byte => t.byteEncoder.get byte.toFin) =
        "<|" := by
      rw [(Tokenizer.fromMetadata_sound hload).encoder, hbytes, List.map_cons, List.map_cons,
        byteMaps_printable (by decide +kernel), byteMaps_printable (by decide +kernel)]
      rfl
    have hword : t.encodeWord "<|" = .ok [2] := by
      rw [Tokenizer.encodeWord, hencoded, hmerge, mapM_eq_ok]
      exact .cons (by rw [hid]) .nil
    rw [Tokenizer.encodePiece, hlimit, hsplit, bind_eq_ok]
    exact ⟨[[2]], mapM_eq_ok.mpr (.cons hword .nil), rfl⟩

/-- Text that spells a special token becomes the special token. -/
theorem control_from_text : ¬ ∀ (category : Char → GeneralCategory) (metadata : Metadata)
    (t : Tokenizer) (text : String) (ids : List Nat), Tokenizer.fromMetadata metadata = .ok t →
    t.encodePiece category text = .ok ids → ∀ id ∈ ids, t.tokenTypes[id]? ≠ some .control := by
  intro hall
  obtain ⟨t, hload, hids, htype⟩ := encodePiece_marked
  exact hall asciiCategory markedMetadata t "<|" [2] hload hids 2 List.mem_cons_self htype

theorem no_control_iff_marked : ∃ t, Tokenizer.fromMetadata markedMetadata = .ok t ∧
    ¬ t.StaysPlain asciiCategory "<|" := by
  obtain ⟨t, hload, hids, htype⟩ := encodePiece_marked
  refine ⟨t, hload, fun hstays => ?_⟩
  exact (no_control_iff asciiCategory markedMetadata t "<|" hload).mpr hstays [2] hids 2
    List.mem_cons_self htype

/-! ## What merges can build -/

section Segments

variable {merges : HashMap (String × String) Nat} {symbols : List String}

theorem bestPair_none (h : bestPair merges symbols = none) {front back : List String}
    {first second : String} (hsplit : symbols = front ++ first :: second :: back) :
    merges (first, second) = none := by
  induction symbols generalizing front with
  | nil => simp at hsplit
  | cons head symbols ih =>
    cases symbols with
    | nil =>
      have hlength := congrArg List.length hsplit
      simp at hlength
      omega
    | cons next rest =>
      rw [bestPair] at h
      cases hfirst : merges (head, next) with
      | none =>
        rw [hfirst] at h
        cases front with
        | nil =>
          simp only [List.nil_append, List.cons.injEq] at hsplit
          rw [← hsplit.1, ← hsplit.2.1, hfirst]
        | cons x front =>
          simp only [List.cons_append, List.cons.injEq] at hsplit
          exact ih (Option.map_eq_none_iff.mp h) hsplit.2
      | some rank =>
        cases hbest : bestPair merges (next :: rest) with
        | none => simp [hfirst, hbest] at h
        | some best =>
          simp only [hfirst, hbest] at h
          split_ifs at h

/-- The best pair has the least rank, and stands before every other pair of its rank. -/
theorem bestPair_least {best : Nat × Nat} (h : bestPair merges symbols = some best)
    {front back : List String} {first second : String} {rank : Nat}
    (hsplit : symbols = front ++ first :: second :: back)
    (hrank : merges (first, second) = some rank) :
    best.1 ≤ rank ∧ (front.length < best.2 → best.1 < rank) := by
  induction symbols generalizing best front with
  | nil => simp at hsplit
  | cons head symbols ih =>
    cases symbols with
    | nil => cases h
    | cons next rest =>
      rw [bestPair] at h
      cases front with
      | nil =>
        simp only [List.nil_append, List.cons.injEq] at hsplit
        rw [hsplit.1, hsplit.2.1, hrank] at h
        cases hbest : bestPair merges (second :: rest) with
        | none =>
          simp only [hbest, Option.some.injEq] at h
          rw [← h]
          exact ⟨le_rfl, fun hlt => absurd hlt (Nat.not_lt_zero _)⟩
        | some later =>
          simp only [hbest] at h
          split_ifs at h with hle
          · rw [← Option.some.inj h]
            exact ⟨le_rfl, fun hlt => absurd hlt (Nat.not_lt_zero _)⟩
          · rw [← Option.some.inj h]
            exact ⟨(not_le.mp hle).le, fun _ => not_le.mp hle⟩
      | cons x front =>
        simp only [List.cons_append, List.cons.injEq] at hsplit
        cases hbest : bestPair merges (next :: rest) with
        | none =>
          rw [bestPair_none hbest hsplit.2] at hrank
          cases hrank
        | some later =>
          have hlater := ih hbest hsplit.2
          rw [hbest] at h
          cases hfirst : merges (head, next) with
          | none =>
            simp only [hfirst, Option.map_some, Option.some.injEq] at h
            rw [← h]
            refine ⟨hlater.1, fun hlt => hlater.2 ?_⟩
            simpa using hlt
          | some rank' =>
            simp only [hfirst] at h
            split_ifs at h with hle
            · rw [← Option.some.inj h]
              exact ⟨hle.trans hlater.1, fun hlt => absurd hlt (Nat.not_lt_zero _)⟩
            · rw [← Option.some.inj h]
              refine ⟨hlater.1, fun hlt => hlater.2 ?_⟩
              simpa using hlt

theorem append_cons_eq_append {α : Type*} {front back left right : List α} {middle : α}
    (h : front ++ middle :: back = left ++ right) :
    (∃ rest, left = front ++ middle :: rest ∧ back = rest ++ right) ∨
      ∃ rest, front = left ++ rest ∧ right = rest ++ middle :: back := by
  rcases List.append_eq_append_iff.mp h with ⟨rest, hleft, hright⟩ | ⟨rest, hfront, hright⟩
  · cases rest with
    | nil => exact .inr ⟨[], by simpa using hleft.symm, hright.symm⟩
    | cons head rest =>
      simp only [List.cons_append, List.cons.injEq] at hright
      exact .inl ⟨rest, by rw [hleft, hright.1], hright.2⟩
  · exact .inr ⟨rest, hfront, hright⟩

/-- A pair that is best in a list is best in every part that holds it. -/
theorem bestPair_part {before segment tail after : List String} {first second : String} {rank : Nat}
    (h : bestPair merges (before ++ (segment ++ first :: second :: tail) ++ after) =
      some (rank, (before ++ segment).length)) (hrank : merges (first, second) = some rank) :
    bestPair merges (segment ++ first :: second :: tail) = some (rank, segment.length) := by
  apply bestPair_split hrank
  · intro front a b back rank' hsplit hrank'
    have hlength := congrArg List.length hsplit
    simp only [List.length_append, List.length_cons, List.length_nil] at hlength
    have hwhole : before ++ (segment ++ first :: second :: tail) ++ after =
        (before ++ front) ++ a :: b :: (back ++ second :: tail ++ after) := by
      have hjoined : segment ++ first :: second :: tail =
          front ++ a :: b :: (back ++ second :: tail) := by
        rw [← List.singleton_append, ← List.append_assoc, hsplit]
        simp
      rw [hjoined]
      simp
    refine (bestPair_least h hwhole hrank').2 ?_
    simp only [List.length_append]
    omega
  · intro front a b back rank' hsplit hrank'
    have hwhole : before ++ (segment ++ first :: second :: tail) ++ after =
        (before ++ segment ++ first :: front) ++ a :: b :: (back ++ after) := by
      rw [hsplit]
      simp
    exact (bestPair_least h hwhole hrank').1

/-- Each symbol of a merge comes from a part of the list that merges into it alone. -/
theorem mem_greedyMerge {symbol : String} (h : symbol ∈ greedyMerge merges symbols) :
    ∃ before segment after, symbols = before ++ segment ++ after ∧
      greedyMerge merges segment = [symbol] := by
  fun_induction greedyMerge merges symbols with
  | case1 symbols hnone =>
    obtain ⟨before, after, rfl⟩ := List.append_of_mem h
    exact ⟨before, [symbol], after, by simp, greedyMerge_none rfl⟩
  | case2 symbols best hbest ih =>
    obtain ⟨before, segment, after, hsplit, hsegment⟩ := ih h
    obtain ⟨front, first, second, back, rfl, hlength, hrank⟩ := bestPair_mem hbest
    rw [← hlength, mergeAt_split] at hsplit
    rw [List.append_assoc] at hsplit
    rcases append_cons_eq_append hsplit with ⟨rest, rfl, rfl⟩ | ⟨rest, rfl, hrest⟩
    · exact ⟨front ++ first :: second :: rest, segment, after, by simp, hsegment⟩
    rcases append_cons_eq_append hrest.symm with ⟨tail, rfl, rfl⟩ | ⟨rest', rfl, rfl⟩
    · -- The merge happened inside the part: undo it there.
      refine ⟨before, rest ++ first :: second :: tail, after, by simp, ?_⟩
      have hpart : bestPair merges (rest ++ first :: second :: tail) = some (best.1, rest.length) := by
        have hwhole : bestPair merges (before ++ (rest ++ first :: second :: tail) ++ after) =
            some (best.1, (before ++ rest).length) := by
          rw [hlength, ← hbest]
          simp
        exact bestPair_part hwhole hrank
      rw [greedyMerge_some hpart, mergeAt_split, hsegment]
    · exact ⟨before, segment, rest' ++ first :: second :: back, by simp, hsegment⟩

end Segments

/-- A symbol that a word is merged into is also what its own characters are merged into. -/
theorem Tokenizer.builtSymbols_self {t : Tokenizer} {word symbol : String}
    (h : symbol ∈ t.builtSymbols word) :
    greedyMerge t.merges (symbol.toList.map String.singleton) = [symbol] := by
  obtain ⟨before, segment, after, hsplit, hsegment⟩ := mem_greedyMerge h
  obtain ⟨front, tail, -, hfront, -⟩ := List.map_eq_append_iff.mp hsplit
  obtain ⟨-, characters, -, -, rfl⟩ := List.map_eq_append_iff.mp hfront
  have hword := mergeWord_greedy t.merges (String.ofList characters)
  rw [String.toList_ofList] at hword
  have hjoin := hword.2.2.2
  rw [hword.1, hsegment] at hjoin
  have hself : symbol = String.ofList characters := by simpa using hjoin
  rw [hself, String.toList_ofList, hsegment, hself]

/-- Where the merges never build a control token out of its own characters, all text stays plain. -/
theorem Tokenizer.staysPlain_of_unbuilt {t : Tokenizer} (category : Char → GeneralCategory)
    (text : String) (h : ∀ symbol, t.IsControl symbol →
      greedyMerge t.merges (symbol.toList.map String.singleton) ≠ [symbol]) :
    t.StaysPlain category text := by
  refine .inr fun symbol hsymbol hcontrol => ?_
  obtain ⟨word, -, hbuilt⟩ := List.mem_flatMap.mp hsymbol
  exact h symbol hcontrol (builtSymbols_self hbuilt)

end Leone.Text

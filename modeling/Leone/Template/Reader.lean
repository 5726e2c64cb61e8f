import Leone.Template.Formats

/-!
# A reader of JSON texts

A recursive descent reader and the compact printer beside it. The reader reads every layout of a
value, whatever its white space and the order of its fields.
-/

namespace Leone.Template

open Text

/-! ## Printing -/

mutual

def compact : Value → List Char
  | .null => "null".toList
  | .bool value => (if value then "true" else "false").toList
  | .number value => value.toList
  | .string value => literal value
  | .array values => '[' :: (commas (compactValues values) ++ [']'])
  | .object entries => '\x7b' :: (commas (compactFields entries) ++ ['\x7d'])

def compactValues : List Value → List (List Char)
  | [] => []
  | value :: values => compact value :: compactValues values

def compactFields : List (String × Value) → List (List Char)
  | [] => []
  | (key, value) :: entries => (literal key ++ ':' :: compact value) :: compactFields entries

end

/-! ## Reading -/

def isGap (c : Char) : Bool := c == ' ' || c == '\n' || c == '\t' || c == '\r'

def skip (text : List Char) : List Char := text.dropWhile isGap

def hexValue (c : Char) : Nat :=
  if c.toNat < 0x3A then c.toNat - 0x30
  else if c.toNat < 0x47 then c.toNat - 0x41 + 10
  else c.toNat - 0x61 + 10

/-- The character of an escape with one letter. -/
def unescape (c : Char) : Option Char :=
  if c = quote ∨ c = backslash ∨ c = '/' then some c
  else if c = 'b' then some (Char.ofNat 0x08)
  else if c = 't' then some (Char.ofNat 0x09)
  else if c = 'n' then some (Char.ofNat 0x0A)
  else if c = 'f' then some (Char.ofNat 0x0C)
  else if c = 'r' then some (Char.ofNat 0x0D)
  else none

/-- A place in a string: in front of a character, behind a backslash, or in front of the last hex
digits of an escape. -/
inductive ReadPlace
  | plain
  | escape
  | hex (more value : Nat)

/-- The rest of a string and the text behind its closing quote. -/
def readLiteral : ReadPlace → List Char → Option (List Char × List Char)
  | _, [] => none
  | .plain, c :: rest =>
    if c = quote then some ([], rest)
    else if c = backslash then readLiteral .escape rest
    else (readLiteral .plain rest).map fun read => (c :: read.1, read.2)
  | .escape, c :: rest =>
    if c = 'u' then readLiteral (.hex 3 0) rest
    else (unescape c).bind fun d => (readLiteral .plain rest).map fun read => (d :: read.1, read.2)
  | .hex 0 value, c :: rest => (readLiteral .plain rest).map fun read =>
    (Char.ofNat (value * 16 + hexValue c) :: read.1, read.2)
  | .hex (more + 1) value, c :: rest => readLiteral (.hex more (value * 16 + hexValue c)) rest

section Parts

variable {α : Type} (read : List Char → Option (α × List Char)) (closing : Char)

/-- Items up to the closing bracket. -/
def readItems : Nat → List Char → Option (List α × List Char)
  | 0, _ => none
  | turns + 1, text =>
    (read (skip text)).bind fun item =>
      match skip item.2 with
      | [] => none
      | c :: rest =>
        if c = ',' then (readItems turns rest).map fun items => (item.1 :: items.1, items.2)
        else if c = closing then some ([item.1], rest)
        else none

def readBracket (text : List Char) : Option (List α × List Char) :=
  match skip text with
  | [] => none
  | c :: rest => if c = closing then some ([], rest) else readItems read closing text.length text

end Parts

def readField (read : List Char → Option (Value × List Char)) :
    List Char → Option ((String × Value) × List Char)
  | [] => none
  | c :: rest =>
    if c = quote then
      (readLiteral .plain rest).bind fun key =>
        match skip key.2 with
        | [] => none
        | c :: rest =>
          if c = ':' then (read (skip rest)).map fun value => ((String.ofList key.1, value.1), value.2)
          else none
    else none

def readWord (word : List Char) (value : Value) (text : List Char) : Option (Value × List Char) :=
  if word.isPrefixOf text then some (value, text.drop word.length) else none

def readNumber (text : List Char) : Option (Value × List Char) :=
  if text.takeWhile isNumberChar = [] then none
  else some (.number (String.ofList (text.takeWhile isNumberChar)), text.dropWhile isNumberChar)

def readValue : Nat → List Char → Option (Value × List Char)
  | 0, _ => none
  | _ + 1, [] => none
  | fuel + 1, c :: rest =>
    if c = quote then (readLiteral .plain rest).map fun text => (.string (String.ofList text.1), text.2)
    else if c = '[' then
      (readBracket (readValue fuel) ']' rest).map fun values => (.array values.1, values.2)
    else if c = '\x7b' then
      (readBracket (readField (readValue fuel)) '\x7d' rest).map fun entries =>
        (.object (sortEntries entries.1), entries.2)
    else if c = 'n' then readWord "null".toList .null (c :: rest)
    else if c = 't' then readWord "true".toList (.bool true) (c :: rest)
    else if c = 'f' then readWord "false".toList (.bool false) (c :: rest)
    else readNumber (c :: rest)

def readText (text : List Char) : Option Value :=
  (readValue (text.length + 1) (skip text)).bind fun value =>
    if skip value.2 = [] then some value.1 else none

/-! ## Reading a layout -/

theorem readLiteral_escape {c e : Char} (hletter : e ≠ 'u') (hescape : unescape e = some c)
    (rest : List Char) :
    readLiteral .plain (backslash :: e :: rest) =
      (readLiteral .plain rest).map fun read => (c :: read.1, read.2) := by
  rw [readLiteral, if_neg (by decide), if_pos rfl, readLiteral, if_neg hletter, hescape,
    Option.bind_some]

theorem hexValue_hexDigit : ∀ n < 16, hexValue (hexDigit n) = n := by decide

theorem ofNat_of_toNat {c : Char} {n : Nat} (h : c.toNat = n) : Char.ofNat n = c := by
  rw [← h, Char.ofNat_toNat]

theorem readLiteral_escapeChar (c : Char) (rest : List Char) :
    readLiteral .plain (escapeChar c ++ rest) =
      (readLiteral .plain rest).map fun read => (c :: read.1, read.2) := by
  have hunescape : ∀ (e : Char) (n : Nat), unescape e = some (Char.ofNat n) → c.toNat = n →
      unescape e = some c := fun e n he hc => ofNat_of_toNat hc ▸ he
  unfold escapeChar
  split_ifs with h₁ h₂ h₃ h₄ h₅ h₆ h₇ h₈
  · exact readLiteral_escape (by decide) (by rw [h₁]; rfl : unescape quote = some c) rest
  · exact readLiteral_escape (by decide) (by rw [h₂]; rfl : unescape backslash = some c) rest
  · exact readLiteral_escape (by decide) (hunescape 'b' _ rfl h₃) rest
  · exact readLiteral_escape (by decide) (hunescape 't' _ rfl h₄) rest
  · exact readLiteral_escape (by decide) (hunescape 'n' _ rfl h₅) rest
  · exact readLiteral_escape (by decide) (hunescape 'f' _ rfl h₆) rest
  · exact readLiteral_escape (by decide) (hunescape 'r' _ rfl h₇) rest
  · have hchar : Char.ofNat (((((0 * 16 + hexValue '0') * 16 + hexValue '0') * 16 +
        hexValue (hexDigit (c.toNat / 16))) * 16) + hexValue (hexDigit (c.toNat % 16))) = c := by
      apply ofNat_of_toNat
      rw [hexValue_hexDigit _ (by omega), hexValue_hexDigit _ (by omega),
        show hexValue '0' = 0 from rfl]
      omega
    show readLiteral .plain (backslash :: 'u' :: '0' :: '0' :: hexDigit (c.toNat / 16) ::
      hexDigit (c.toNat % 16) :: rest) = _
    rw [readLiteral, if_neg (by decide), if_pos rfl, readLiteral, if_pos rfl, readLiteral, readLiteral,
      readLiteral, readLiteral, hchar]
  · rw [List.singleton_append, readLiteral, if_neg h₁, if_neg h₂]

theorem readLiteral_literal (chars rest : List Char) :
    readLiteral .plain (chars.flatMap escapeChar ++ quote :: rest) = some (chars, rest) := by
  induction chars with
  | nil => rw [List.flatMap_nil, List.nil_append, readLiteral, if_pos rfl]
  | cons c chars ih =>
    rw [List.flatMap_cons, List.append_assoc, readLiteral_escapeChar, ih]
    rfl

/-! ## Reading between the items -/

theorem skip_blank {gap : List Char} (h : Blank gap) (rest : List Char) :
    skip (gap ++ rest) = skip rest := by
  induction gap with
  | nil => rfl
  | cons c gap ih =>
    have hc : isGap c = true := by
      rcases h c List.mem_cons_self with rfl | rfl <;> rfl
    rw [List.cons_append, skip, List.dropWhile_cons_of_pos hc]
    exact ih fun d hd => h d (List.mem_cons_of_mem c hd)

theorem skip_cons {c : Char} (hc : isGap c = false) (rest : List Char) :
    skip (c :: rest) = c :: rest := by
  rw [skip, List.dropWhile_cons_of_neg (by rw [hc]; exact Bool.false_ne_true)]

section Items

variable {α : Type} {read : List Char → Option (α × List Char)} {closing : Char}
  {R : α → List Char → Prop}

/-- What a reader of items must do: it reads each item in front of a comma or a bracket. -/
def ReadsItems (read : List Char → Option (α × List Char)) (closing : Char) (x : α)
    (item : List Char) : Prop :=
  (∀ tail, ∃ c rest, skip (item ++ tail) = c :: rest ∧ c ≠ closing) ∧
    ∀ c tail, c = ',' ∨ c = closing → ∃ rest, read (skip (item ++ c :: tail)) = some (x, rest) ∧
      skip rest = c :: tail

theorem readItems_commas (hclosing : closing ≠ ',') {xs : List α} {items : List (List Char)}
    (h : List.Forall₂ (ReadsItems read closing) xs items) (hne : xs ≠ []) {turns : Nat}
    (hturns : xs.length ≤ turns) (rest : List Char) :
    readItems read closing turns (commas items ++ closing :: rest) = some (xs, rest) := by
  induction h generalizing turns with
  | nil => exact absurd rfl hne
  | cons hx hxs ih =>
    cases turns with
    | zero => simp at hturns
    | succ turns =>
      cases hxs with
      | nil =>
        rcases hx.2 closing rest (.inr rfl) with ⟨after, hread, hskip⟩
        rw [commas_singleton, readItems, hread, Option.bind_some, hskip]
        simp only [if_neg hclosing, if_true]
      | cons hy hys =>
        rcases hx.2 ',' _ (.inl rfl) with ⟨after, hread, hskip⟩
        rw [commas_cons_cons, List.append_assoc, List.cons_append, readItems, hread,
          Option.bind_some, hskip]
        simp only [if_true]
        rw [ih (List.cons_ne_nil _ _) (by simpa using hturns)]
        rfl

theorem readBracket_commas (hclosing : closing ≠ ',') (hgap : isGap closing = false) {xs : List α}
    {items : List (List Char)} (h : List.Forall₂ (ReadsItems read closing) xs items)
    (hlength : xs.length ≤ (commas items).length + 1) (rest : List Char) :
    readBracket read closing (commas items ++ closing :: rest) = some (xs, rest) := by
  cases h with
  | nil =>
    show readBracket read closing (closing :: rest) = _
    rw [readBracket, skip_cons hgap]
    simp only [if_true]
  | @cons x item xs items hx hxs =>
    have hhead : ∃ c after, skip (commas (item :: items) ++ closing :: rest) = c :: after ∧
        c ≠ closing := by
      cases items with
      | nil =>
        rw [commas_singleton]
        exact hx.1 _
      | cons other items =>
        rw [commas_cons_cons, List.append_assoc]
        exact hx.1 _
    rcases hhead with ⟨c, after, hskip, hne⟩
    rw [readBracket, hskip]
    simp only [if_neg hne]
    apply readItems_commas hclosing (.cons hx hxs) (List.cons_ne_nil _ _)
    rw [List.length_append, List.length_cons (a := closing)]
    omega

end Items

/-! ## Values -/

/-- Behind a value there is nothing that goes on with a number. -/
def Stops (rest : List Char) : Prop := ∀ c ∈ rest.head?, isNumberChar c = false

section Layout

variable {json : SerdeJson}

/-- The first character of a layout. -/
theorem layout_head {gaps : List Char → Prop} {depth : Nat} {value : Value} {text : List Char}
    (hvalid : value.Valid json) (h : Layout gaps depth value text) :
    ∃ c rest, text = c :: rest ∧ isGap c = false ∧ c ≠ ']' ∧ c ≠ '\x7d' := by
  cases depth with
  | zero => exact h.elim
  | succ depth =>
    cases value with
    | null => exact ⟨'n', _, h, by decide⟩
    | bool value =>
      cases value with
      | true => exact ⟨'t', _, h, by decide⟩
      | false => exact ⟨'f', _, h, by decide⟩
    | number value =>
      rcases hvalid with ⟨hchars, hne, -⟩
      have hlist : value.toList ≠ [] := fun hnil => hne (String.toList_eq_nil_iff.mp hnil)
      rcases List.exists_cons_of_ne_nil hlist with ⟨c, rest, hcons⟩
      have hc := hchars c (hcons ▸ List.mem_cons_self)
      have hne : ∀ d, isNumberChar d = false → c ≠ d := by
        intro d hd heq
        rw [heq, hd] at hc
        cases hc
      refine ⟨c, rest, (show text = value.toList from h).trans hcons, ?_, hne ']' rfl, hne '\x7d' rfl⟩
      simp only [isGap, Bool.or_eq_false_iff, beq_eq_false_iff_ne]
      exact ⟨⟨⟨hne ' ' rfl, hne '\n' rfl⟩, hne '\t' rfl⟩, hne '\r' rfl⟩
    | string value => exact ⟨quote, _, h, by decide⟩
    | array values =>
      rcases h with ⟨items, -, rfl⟩
      exact ⟨'[', _, rfl, by decide⟩
    | object entries =>
      rcases h with ⟨fields, items, -, -, rfl⟩
      exact ⟨'\x7b', _, rfl, by decide⟩

theorem blank_stops {gap : List Char} (h : Blank gap) {c : Char} (hc : isNumberChar c = false)
    (rest : List Char) : Stops (gap ++ c :: rest) := by
  cases gap with
  | nil =>
    intro d hd
    cases hd
    exact hc
  | cons d gap =>
    intro e he
    cases he
    rcases h d List.mem_cons_self with rfl | rfl <;> rfl

theorem takeWhile_number {digits rest : List Char} (hdigits : ∀ c ∈ digits, isNumberChar c)
    (hrest : Stops rest) :
    (digits ++ rest).takeWhile isNumberChar = digits ∧
      (digits ++ rest).dropWhile isNumberChar = rest := by
  have hstop : rest.takeWhile isNumberChar = [] ∧ rest.dropWhile isNumberChar = rest := by
    cases rest with
    | nil => exact ⟨rfl, rfl⟩
    | cons c rest =>
      have hc : ¬ isNumberChar c = true := by
        rw [hrest c rfl]
        exact Bool.false_ne_true
      exact ⟨List.takeWhile_cons_of_neg hc, List.dropWhile_cons_of_neg hc⟩
  rw [List.takeWhile_append_of_pos hdigits, List.dropWhile_append_of_pos hdigits, hstop.1, hstop.2,
    List.append_nil]
  exact ⟨rfl, rfl⟩

theorem skip_layout {depth : Nat} {value : Value} {text : List Char} (hvalid : value.Valid json)
    (h : Layout Blank depth value text) (rest : List Char) : skip (text ++ rest) = text ++ rest := by
  rcases layout_head hvalid h with ⟨c, tail, rfl, hgap, -⟩
  exact skip_cons hgap (tail ++ rest)

theorem delimiter_stops {closing c : Char} (hclosing : isNumberChar closing = false)
    (hc : c = ',' ∨ c = closing) : isNumberChar c = false := by
  rcases hc with rfl | rfl
  · rfl
  · exact hclosing

theorem skip_delimiter {closing c : Char} (hclosing : isGap closing = false)
    (hc : c = ',' ∨ c = closing) {behind : List Char} (hbehind : Blank behind) (tail : List Char) :
    skip (behind ++ c :: tail) = c :: tail := by
  rw [skip_blank hbehind, skip_cons]
  rcases hc with rfl | rfl
  · rfl
  · exact hclosing

section Item

variable {read : List Char → Option (Value × List Char)} {depth : Nat} {item : List Char}

theorem readsItem {value : Value} (hvalid : value.Valid json)
    (hread : ∀ inner, Layout Blank depth value inner → inner.length ≤ item.length → ∀ rest, Stops rest →
      read (inner ++ rest) = some (value, rest))
    (h : ItemLayout Blank (Layout Blank depth) value item) : ReadsItems read ']' value item := by
  rcases h with ⟨before, inner, behind, hbefore, hbehind, hinner, rfl⟩
  constructor
  · intro tail
    rw [List.append_assoc, List.append_assoc, skip_blank hbefore]
    rcases layout_head hvalid hinner with ⟨c, rest, rfl, hgap, hne, -⟩
    exact ⟨c, _, skip_cons hgap _, hne⟩
  · intro c tail hc
    refine ⟨behind ++ c :: tail, ?_, skip_delimiter rfl hc hbehind tail⟩
    rw [List.append_assoc, List.append_assoc, skip_blank hbefore, skip_layout hvalid hinner]
    exact hread inner hinner (by simp; omega) _ (blank_stops hbehind (delimiter_stops rfl hc) tail)

theorem readsField {entry : String × Value} (hvalid : entry.2.Valid json)
    (hread : ∀ inner, Layout Blank depth entry.2 inner → inner.length ≤ item.length →
      ∀ rest, Stops rest → read (inner ++ rest) = some (entry.2, rest))
    (h : FieldLayout Blank (Layout Blank depth) entry item) :
    ReadsItems (readField read) '\x7d' entry item := by
  rcases h with ⟨before, gap, inner, behind, hbefore, hgap, hbehind, hinner, rfl⟩
  have hskip : ∀ rest, skip (before ++ literal entry.1 ++ rest) = literal entry.1 ++ rest := by
    intro rest
    rw [List.append_assoc, skip_blank hbefore]
    exact skip_cons rfl _
  constructor
  · intro tail
    rw [List.append_assoc, hskip]
    exact ⟨quote, _, rfl, by decide⟩
  · intro c tail hc
    refine ⟨behind ++ c :: tail, ?_, skip_delimiter rfl hc hbehind tail⟩
    have hvalue := hread inner hinner (by simp; omega) _
      (blank_stops hbehind (delimiter_stops rfl hc) tail)
    rw [List.append_assoc, hskip, literal, List.cons_append, readField, if_pos rfl, List.append_assoc,
      List.singleton_append, readLiteral_literal, Option.bind_some]
    show (match skip (':' :: (gap ++ inner ++ behind ++ c :: tail)) with
      | [] => none
      | c :: rest =>
        if c = ':' then
          (read (skip rest)).map fun value : Value × List Char =>
            ((String.ofList entry.1.toList, value.1), value.2)
        else none) = _
    rw [skip_cons rfl]
    simp only [if_true, List.append_assoc]
    rw [skip_blank hgap, skip_layout hvalid hinner, hvalue, Option.map_some, String.ofList_toList]

end Item

theorem length_le_commas {items : List (List Char)} {item : List Char} (h : item ∈ items) :
    item.length ≤ (commas items).length := by
  induction items with
  | nil => cases h
  | cons first items ih =>
    cases items with
    | nil =>
      rw [List.mem_singleton.mp h, commas_singleton]
    | cons second items =>
      rw [commas_cons_cons, List.length_append, List.length_cons]
      rcases List.mem_cons.mp h with rfl | h
      · omega
      · have := ih h
        omega

theorem length_le_commas_length (items : List (List Char)) :
    items.length ≤ (commas items).length + 1 := by
  induction items with
  | nil => exact Nat.zero_le _
  | cons first items ih =>
    cases items with
    | nil => exact Nat.le_add_left _ _
    | cons second items =>
      simp only [commas_cons_cons, List.length_append, List.length_cons] at ih ⊢
      omega

theorem forall₂_mem {α β : Type} {R S : α → β → Prop} {xs : List α} {ys : List β}
    (h : List.Forall₂ R xs ys) (himp : ∀ x ∈ xs, ∀ y ∈ ys, R x y → S x y) : List.Forall₂ S xs ys := by
  induction h with
  | nil => exact .nil
  | cons hxy _ ih =>
    exact .cons (himp _ List.mem_cons_self _ List.mem_cons_self hxy)
      (ih fun x hx y hy => himp x (List.mem_cons_of_mem _ hx) y (List.mem_cons_of_mem _ hy))

/-- The reader reads every layout of a value, whatever follows it. -/
theorem readValue_layout {depth : Nat} {value : Value} {text : List Char}
    (hvalid : value.Valid json) (h : Layout Blank depth value text) {fuel : Nat}
    (hfuel : text.length < fuel) {rest : List Char} (hrest : Stops rest) :
    readValue fuel (text ++ rest) = some (value, rest) := by
  induction depth generalizing value text fuel rest with
  | zero => exact h.elim
  | succ depth ih =>
    cases fuel with
    | zero => omega
    | succ fuel =>
      cases value with
      | null =>
        rw [show text = "null".toList from h]
        rfl
      | bool value =>
        rw [show text = (if value then "true" else "false").toList from h]
        cases value <;> rfl
      | number value =>
        rcases layout_head hvalid h with ⟨c, tail, hcons, -⟩
        have htext : text = value.toList := h
        have hc : isNumberChar c := hvalid.1 c (htext ▸ hcons ▸ List.mem_cons_self)
        have hne : ∀ d, isNumberChar d = false → c ≠ d := by
          intro d hd heq
          rw [heq, hd] at hc
          cases hc
        have hnumber := takeWhile_number (htext ▸ hvalid.1 : ∀ c ∈ text, isNumberChar c) hrest
        have hread : readNumber (text ++ rest) = some (.number value, rest) := by
          rw [readNumber, hnumber.1, hnumber.2, if_neg (hcons ▸ List.cons_ne_nil c tail), htext,
            String.ofList_toList]
        rw [hcons] at hread ⊢
        rw [List.cons_append] at hread ⊢
        rw [readValue, if_neg (hne quote rfl), if_neg (hne '[' rfl), if_neg (hne '\x7b' rfl),
          if_neg (hne 'n' rfl), if_neg (hne 't' rfl), if_neg (hne 'f' rfl), hread]
      | string value =>
        rw [show text = literal value from h, literal, List.cons_append, readValue, if_pos rfl,
          List.append_assoc, List.singleton_append, readLiteral_literal, Option.map_some,
          String.ofList_toList]
      | array values =>
        rcases h with ⟨items, hitems, rfl⟩
        rw [List.length_cons, List.length_append] at hfuel
        have hreads : List.Forall₂ (ReadsItems (readValue fuel) ']') values items := by
          apply forall₂_mem hitems
          intro value hvalue item hitem
          apply readsItem (validValues_iff.mp hvalid value hvalue)
          intro inner hinner hlength rest hrest
          have := length_le_commas hitem
          exact ih (validValues_iff.mp hvalid value hvalue) hinner (by omega) hrest
        have hlength : values.length ≤ (commas items).length + 1 := by
          rw [hitems.length_eq]
          exact length_le_commas_length items
        rw [List.cons_append, readValue, if_neg (by decide), if_pos rfl, List.append_assoc,
          List.singleton_append, readBracket_commas (by decide) rfl hreads hlength, Option.map_some]
      | object entries =>
        rcases h with ⟨fields, items, hperm, hitems, rfl⟩
        rw [List.length_cons, List.length_append] at hfuel
        have hentries := validFields_iff.mp hvalid.2
        have hreads : List.Forall₂ (ReadsItems (readField (readValue fuel)) '\x7d') fields items := by
          apply forall₂_mem hitems
          intro entry hentry item hitem
          apply readsField (hentries entry (hperm.mem_iff.mp hentry))
          intro inner hinner hlength rest hrest
          have := length_le_commas hitem
          exact ih (hentries entry (hperm.mem_iff.mp hentry)) hinner (by omega) hrest
        have hlength : fields.length ≤ (commas items).length + 1 := by
          rw [hitems.length_eq]
          exact length_le_commas_length items
        rw [List.cons_append, readValue, if_neg (by decide), if_neg (by decide), if_pos rfl,
          List.append_assoc, List.singleton_append, readBracket_commas (by decide) rfl hreads hlength,
          Option.map_some, sortEntries_eq hvalid.1 hperm]

end Layout

end Leone.Template

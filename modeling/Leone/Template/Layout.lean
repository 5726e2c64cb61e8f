import Mathlib
import Leone.Template.Json

/-!
# Layouts of a JSON value

The texts of a value differ in their white space and in the order of their fields. Literals are
written in one way only.
-/

namespace Leone.Template

open Text

/-! ## Literals -/

def quote : Char := '"'
def backslash : Char := '\\'

def hexDigit (n : Nat) : Char := Char.ofNat (if n < 10 then 0x30 + n else 0x61 + (n - 10))

/-- How `serde_json` writes a character of a string. -/
def escapeChar (c : Char) : List Char :=
  if c = quote then [backslash, quote]
  else if c = backslash then [backslash, backslash]
  else if c.toNat = 0x08 then [backslash, 'b']
  else if c.toNat = 0x09 then [backslash, 't']
  else if c.toNat = 0x0A then [backslash, 'n']
  else if c.toNat = 0x0C then [backslash, 'f']
  else if c.toNat = 0x0D then [backslash, 'r']
  else if c.toNat < 0x20 then
    [backslash, 'u', '0', '0', hexDigit (c.toNat / 16), hexDigit (c.toNat % 16)]
  else [c]

def literal (text : String) : List Char := quote :: (text.toList.flatMap escapeChar ++ [quote])

def isNumberChar (c : Char) : Bool :=
  c.isDigit || c == '-' || c == '+' || c == '.' || c == 'e' || c == 'E'

/-- A check of each character of a word. -/
theorem forall_chars {p : Char → Prop} [DecidablePred p] {word : List Char}
    (h : word.all fun c => decide (p c)) : ∀ c ∈ word, p c :=
  fun c hc => of_decide_eq_true (List.all_eq_true.mp h c hc)

theorem isNumberChar_ascii {c : Char} (h : isNumberChar c) : c.toNat < 128 := by
  simp only [isNumberChar, Bool.or_eq_true, beq_iff_eq, Char.isDigit, Bool.and_eq_true,
    decide_eq_true_eq] at h
  rcases h with ((((⟨_, hle⟩ | rfl) | rfl) | rfl) | rfl) | rfl
  · exact Nat.lt_of_le_of_lt (UInt32.le_iff_toNat_le.mp hle) (by decide)
  all_goals decide

theorem hexDigit_ascii : ∀ n < 16, (hexDigit n).toNat < 128 := by decide

theorem escapeChar_ascii {c : Char} (hc : c.toNat < 128) : ∀ d ∈ escapeChar c, d.toNat < 128 := by
  have hquote : quote.toNat < 128 := by decide
  have hbackslash : backslash.toNat < 128 := by decide
  have hletters : ∀ d ∈ ['b', 'f', 'n', 'r', 't', 'u', '0'], d.toNat < 128 := forall_chars (by decide)
  have hhigh := hexDigit_ascii (c.toNat / 16)
  have hlow := hexDigit_ascii (c.toNat % 16) (Nat.mod_lt _ (by decide))
  simp only [List.forall_mem_cons] at hletters
  unfold escapeChar
  split_ifs <;>
    simp only [List.forall_mem_cons, List.not_mem_nil, false_imp_iff, implies_true, and_true] <;>
    grind

theorem escapeChar_wide {c : Char} (hc : 128 ≤ c.toNat) : escapeChar c = [c] := by
  have hne : ∀ d : Char, d.toNat < 128 → c ≠ d := by
    intro d hd heq
    rw [heq] at hc
    omega
  rw [escapeChar, if_neg (hne quote (by decide)), if_neg (hne backslash (by decide)),
    if_neg (by omega), if_neg (by omega), if_neg (by omega), if_neg (by omega), if_neg (by omega),
    if_neg (by omega)]

/-! ## Values -/

/-- Induction over the parts of a value. -/
@[elab_as_elim]
theorem Value.nested {motive : Value → Prop} (null : motive .null)
    (bool : ∀ value, motive (.bool value)) (number : ∀ text, motive (.number text))
    (string : ∀ text, motive (.string text))
    (array : ∀ values, (∀ value ∈ values, motive value) → motive (.array values))
    (object : ∀ entries, (∀ entry ∈ entries, motive entry.2) → motive (.object entries))
    (value : Value) : motive value := by
  have hbound : ∀ bound, ∀ value : Value, sizeOf value ≤ bound → motive value := by
    intro bound
    induction bound with
    | zero => intro value hsize; cases value <;> simp at hsize
    | succ bound ih =>
      intro value hsize
      cases value with
      | null => exact null
      | bool value => exact bool value
      | number text => exact number text
      | string text => exact string text
      | array values =>
        simp only [Value.array.sizeOf_spec] at hsize
        apply array
        intro value hvalue
        have hlt := List.sizeOf_lt_of_mem hvalue
        exact ih value (by omega)
      | object entries =>
        simp only [Value.object.sizeOf_spec] at hsize
        apply object
        intro entry hentry
        have hlt := List.sizeOf_lt_of_mem hentry
        have hvalue : sizeOf entry.2 < sizeOf entry := by
          cases entry
          simp
        exact ih entry.2 (by omega)
  exact hbound (sizeOf value) value le_rfl

mutual

/-- The keys and the strings in a value. -/
def Value.strings : Value → List String
  | .string text => [text]
  | .array values => stringsOfValues values
  | .object entries => stringsOfFields entries
  | _ => []

def stringsOfValues : List Value → List String
  | [] => []
  | value :: values => value.strings ++ stringsOfValues values

def stringsOfFields : List (String × Value) → List String
  | [] => []
  | (key, value) :: entries => key :: (value.strings ++ stringsOfFields entries)

end

mutual

/-- A value that `serde_json` can hold: the keys of an object are in strictly increasing order, and
a number is read back as it is written. -/
def Value.Valid (json : SerdeJson) : Value → Prop
  | .number text => (∀ c ∈ text.toList, isNumberChar c) ∧ text ≠ "" ∧
    json.fromStr text = some (.number text)
  | .array values => ValidValues json values
  | .object entries => (entries.map Prod.fst).Pairwise (· < ·) ∧ ValidFields json entries
  | _ => True

def ValidValues (json : SerdeJson) : List Value → Prop
  | [] => True
  | value :: values => value.Valid json ∧ ValidValues json values

def ValidFields (json : SerdeJson) : List (String × Value) → Prop
  | [] => True
  | (_, value) :: entries => value.Valid json ∧ ValidFields json entries

end

theorem stringsOfValues_eq (values : List Value) :
    stringsOfValues values = values.flatMap Value.strings := by
  induction values with
  | nil => rfl
  | cons value values ih => rw [stringsOfValues, ih, List.flatMap_cons]

theorem stringsOfFields_eq (entries : List (String × Value)) :
    stringsOfFields entries = entries.flatMap fun entry => entry.1 :: entry.2.strings := by
  induction entries with
  | nil => rfl
  | cons entry entries ih => rw [stringsOfFields, ih, List.flatMap_cons, List.cons_append]

theorem validValues_iff {json : SerdeJson} {values : List Value} :
    ValidValues json values ↔ ∀ value ∈ values, value.Valid json := by
  induction values with
  | nil => simp [ValidValues]
  | cons value values ih => simp only [ValidValues, ih, List.forall_mem_cons]

theorem validFields_iff {json : SerdeJson} {entries : List (String × Value)} :
    ValidFields json entries ↔ ∀ entry ∈ entries, entry.2.Valid json := by
  induction entries with
  | nil => simp [ValidFields]
  | cons entry entries ih => simp only [ValidFields, ih, List.forall_mem_cons]

/-- The entries of an object in the order of their keys. -/
def sortEntries (entries : List (String × Value)) : List (String × Value) :=
  entries.mergeSort fun left right => decide (left.1 ≤ right.1)

theorem sortEntries_perm (entries : List (String × Value)) : (sortEntries entries).Perm entries :=
  List.mergeSort_perm _ _

theorem sortEntries_sorted {entries : List (String × Value)}
    (h : entries.Pairwise fun left right => left.1 ≠ right.1) :
    (sortEntries entries).Pairwise fun left right => left.1 < right.1 := by
  have hle : (sortEntries entries).Pairwise fun left right => left.1 ≤ right.1 := by
    apply (List.pairwise_mergeSort _ _ entries).imp
    · intro left right h
      exact of_decide_eq_true h
    · intro a b c hab hbc
      exact decide_eq_true ((of_decide_eq_true hab).trans (of_decide_eq_true hbc))
    · intro a b
      rw [Bool.or_eq_true, decide_eq_true_eq, decide_eq_true_eq]
      exact le_total a.1 b.1
  have hne : (sortEntries entries).Pairwise fun left right => left.1 ≠ right.1 :=
    ((sortEntries_perm entries).pairwise_iff fun h => h.symm).mpr h
  exact (hle.and hne).imp fun h => lt_of_le_of_ne h.1 h.2

/-- Entries in the order of their keys come back from any order. -/
theorem sortEntries_eq {fields entries : List (String × Value)}
    (hsorted : (entries.map Prod.fst).Pairwise (· < ·)) (hperm : fields.Perm entries) :
    sortEntries fields = entries := by
  have hentries : entries.Pairwise fun left right => left.1 < right.1 := List.pairwise_map.mp hsorted
  have hne : fields.Pairwise fun left right => left.1 ≠ right.1 :=
    (hperm.pairwise_iff fun h => h.symm).mpr (hentries.imp ne_of_lt)
  apply ((sortEntries_perm fields).trans hperm).eq_of_pairwise _ (sortEntries_sorted hne) hentries
  intro left right _ _ hlr hrl
  exact absurd hrl hlr.asymm

/-! ## Layouts -/

/-- White space between the tokens of a text. -/
def Blank (gap : List Char) : Prop := ∀ c ∈ gap, c = ' ' ∨ c = '\n'

/-- No white space. -/
def NoGap (gap : List Char) : Prop := gap = []

theorem NoGap.blank {gap : List Char} (h : NoGap gap) : Blank gap := by
  intro c hc
  rw [h] at hc
  cases hc

def commas (texts : List (List Char)) : List Char := [','].intercalate texts

theorem commas_singleton (text : List Char) : commas [text] = text := List.intercalate_singleton

theorem commas_cons_cons (text other : List Char) (texts : List (List Char)) :
    commas (text :: other :: texts) = text ++ ',' :: commas (other :: texts) := by
  rw [commas, List.intercalate_cons_cons, List.append_assoc]
  rfl

section Layout

variable (gaps : List Char → Prop) (layout : Value → List Char → Prop)

/-- An item of an array. -/
def ItemLayout (value : Value) (text : List Char) : Prop :=
  ∃ before inner behind, gaps before ∧ gaps behind ∧ layout value inner ∧
    text = before ++ inner ++ behind

/-- A field of an object. -/
def FieldLayout (entry : String × Value) (text : List Char) : Prop :=
  ∃ before gap inner behind, gaps before ∧ gaps gap ∧ gaps behind ∧ layout entry.2 inner ∧
    text = before ++ literal entry.1 ++ ':' :: (gap ++ inner ++ behind)

end Layout

/-- A text of a value that is nested less deep than a bound. Its literals are those of
`serde_json`, its fields are in any order and its white space is between the tokens. -/
def Layout (gaps : List Char → Prop) : Nat → Value → List Char → Prop
  | 0, _, _ => False
  | depth + 1, .array values, text => ∃ items,
    List.Forall₂ (ItemLayout gaps (Layout gaps depth)) values items ∧
      text = '[' :: (commas items ++ [']'])
  | depth + 1, .object entries, text => ∃ fields items, fields.Perm entries ∧
    List.Forall₂ (FieldLayout gaps (Layout gaps depth)) fields items ∧
      text = '\x7b' :: (commas items ++ ['\x7d'])
  | _ + 1, .string value, text => text = literal value
  | _ + 1, .number value, text => text = value.toList
  | _ + 1, .bool value, text => text = (if value then "true" else "false").toList
  | _ + 1, .null, text => text = "null".toList

theorem layout_mono {gaps gaps' : List Char → Prop} (hgaps : ∀ gap, gaps gap → gaps' gap)
    {depth : Nat} {value : Value} {text : List Char} (h : Layout gaps depth value text) :
    Layout gaps' depth value text := by
  induction depth generalizing value text with
  | zero => exact h.elim
  | succ depth ih =>
    cases value with
    | null => exact h
    | bool value => exact h
    | number text => exact h
    | string text => exact h
    | array values =>
      rcases h with ⟨items, hitems, heq⟩
      refine ⟨items, hitems.imp ?_, heq⟩
      intro value item hitem
      rcases hitem with ⟨before, inner, behind, hbefore, hbehind, hinner, hitem⟩
      exact ⟨before, inner, behind, hgaps _ hbefore, hgaps _ hbehind, ih hinner, hitem⟩
    | object entries =>
      rcases h with ⟨fields, items, hperm, hitems, heq⟩
      refine ⟨fields, items, hperm, hitems.imp ?_, heq⟩
      intro entry item hitem
      rcases hitem with ⟨before, gap, inner, behind, hbefore, hgap, hbehind, hinner, hitem⟩
      exact ⟨before, gap, inner, behind, hgaps _ hbefore, hgaps _ hgap, hgaps _ hbehind, ih hinner,
        hitem⟩

/-- A text that is a layout of a value. -/
def Lays (gaps : List Char → Prop) (value : Value) (text : String) : Prop :=
  ∃ depth, Layout gaps depth value text.toList

theorem Lays.blank {value : Value} {text : String} (h : Lays NoGap value text) :
    Lays Blank value text := by
  rcases h with ⟨depth, hlayout⟩
  exact ⟨depth, layout_mono (fun _ hgap => hgap.blank) hlayout⟩

/-- `serde_json` writes a value without white space and reads every layout of it. -/
structure SerdeJson.Faithful (json : SerdeJson) : Prop where
  prints : ∀ value : Value, value.Valid json → Lays NoGap value (json.toString value)
  parses : ∀ (value : Value) (text : String), value.Valid json → Lays Blank value text →
    json.fromStr text = some value

end Leone.Template

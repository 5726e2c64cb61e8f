import Mathlib
import Leone.Template.Layout
import Leone.Text.RoundTrip

/-!
# Spaced and indented layouts

The spacing pass copies the bytes of a text one character each, so it keeps the strings of a value
only where they are ASCII. The printers that place their own white space keep all of them.
-/

namespace Leone.Template

open Text

/-! ## Bytes outside ASCII -/

/-- The bytes of a text that is given as its characters. -/
def bytesOf (text : List Char) : List UInt8 := text.flatMap String.utf8EncodeChar

theorem bytesOf_append (text other : List Char) :
    bytesOf (text ++ other) = bytesOf text ++ bytesOf other := by
  rw [bytesOf, List.flatMap_append, bytesOf, bytesOf]

theorem bytesOf_cons (c : Char) (text : List Char) :
    bytesOf (c :: text) = String.utf8EncodeChar c ++ bytesOf text := by
  rw [bytesOf, List.flatMap_cons, bytesOf]

theorem utf8EncodeChar_ascii {c : Char} (hc : c.toNat < 128) :
    String.utf8EncodeChar c = [UInt8.ofNat c.toNat] := by
  have hle : c.val.toNat ≤ 0x7f := Nat.le_of_lt_succ hc
  simp only [String.utf8EncodeChar, hle, if_true]
  rfl

/-- A character outside ASCII has at least two bytes, none of them ASCII. -/
theorem utf8EncodeChar_wide {c : Char} (hc : 128 ≤ c.toNat) :
    2 ≤ (String.utf8EncodeChar c).length ∧ ∀ byte ∈ String.utf8EncodeChar c, 128 ≤ byte.toNat := by
  have hlt : ¬ c.val.toNat ≤ 0x7f := Nat.not_le.mpr hc
  simp only [String.utf8EncodeChar, hlt, if_false]
  split_ifs
  all_goals
    simp only [List.length_cons, List.length_nil, List.forall_mem_cons, List.not_mem_nil,
      false_imp_iff, implies_true, and_true, UInt8.toNat_ofNat']
    omega

/-! ## The characters of the bytes -/

/-- The character that the pass adds for a byte. -/
def byteChar (byte : UInt8) : Char := Char.ofNat byte.toNat

/-- A text whose bytes have become one character each. -/
def latin (text : String) : String := String.ofList ((utf8Bytes text).map byteChar)

theorem toNat_byteChar (byte : UInt8) : (byteChar byte).toNat = byte.toNat := by
  have hbyte := byte.toNat_lt
  rw [byteChar, Char.ofNat, dif_pos (show byte.toNat.isValidChar from .inl (by omega))]
  simp [Char.ofNatAux, Char.toNat]

theorem byteChar_injective : Function.Injective byteChar := by
  intro byte other heq
  apply UInt8.toNat_inj.mp
  rw [← toNat_byteChar, heq, toNat_byteChar]

theorem latin_injective : Function.Injective latin := by
  intro text other heq
  apply utf8Bytes_injective
  exact List.map_injective_iff.mpr byteChar_injective (String.ofList_injective heq)

theorem ofNat_toUInt8 {c : Char} (hc : c.toNat < 128) :
    byteChar (UInt8.ofNat c.toNat) = c := by
  rw [byteChar, UInt8.toNat_ofNat', Nat.mod_eq_of_lt (by omega), Char.ofNat_toNat]

theorem map_byteChar_ascii {c : Char} (hc : c.toNat < 128) :
    (String.utf8EncodeChar c).map byteChar = [c] := by
  rw [utf8EncodeChar_ascii hc, List.map_singleton, ofNat_toUInt8 hc]

/-- The characters of a text, each as those of its bytes. -/
theorem toList_latin (text : String) :
    (latin text).toList = text.toList.flatMap fun c => (String.utf8EncodeChar c).map byteChar := by
  rw [latin, String.toList_ofList, utf8Bytes, List.map_flatMap]

theorem latin_of_ascii {text : String} (h : ∀ c ∈ text.toList, c.toNat < 128) :
    latin text = text := by
  apply String.toList_injective
  rw [toList_latin, List.flatMap_congr fun c hc => map_byteChar_ascii (h c hc),
    List.flatMap_singleton' (l := text.toList)]

/-- A text is never longer than its bytes, and as long only if all its characters are ASCII. -/
theorem length_latin (text : String) :
    text.toList.length ≤ (latin text).toList.length ∧
      ((latin text).toList.length = text.toList.length → ∀ c ∈ text.toList, c.toNat < 128) := by
  rw [toList_latin]
  induction text.toList with
  | nil => simp
  | cons c chars ih =>
    rw [List.flatMap_cons, List.length_append, List.length_map, List.length_cons]
    rcases ih with ⟨hle, hascii⟩
    by_cases hc : c.toNat < 128
    · rw [utf8EncodeChar_ascii hc, List.length_singleton]
      constructor
      · omega
      · intro heq
        exact List.forall_mem_cons.mpr ⟨hc, hascii (by omega)⟩
    · have hwide := (utf8EncodeChar_wide (Nat.not_lt.mp hc)).1
      constructor
      · omega
      · intro heq
        omega

/-! ## The spacing pass -/

/-- Outside a string. -/
def outside : JsonPlace := ⟨false, false⟩

/-- Inside a string. -/
def inside : JsonPlace := ⟨true, false⟩

/-- An ASCII character that neither closes a string nor begins an escape. -/
structure Plain (c : Char) : Prop where
  ascii : c.toNat < 128
  quote : c ≠ quote
  backslash : c ≠ backslash

theorem toUInt8_ne {c d : Char} (hc : c.toNat < 128) (hd : d.toNat < 128) (hne : c ≠ d) :
    UInt8.ofNat c.toNat ≠ UInt8.ofNat d.toNat := by
  intro heq
  have hnat := congrArg UInt8.toNat heq
  rw [UInt8.toNat_ofNat', UInt8.toNat_ofNat', Nat.mod_eq_of_lt (by omega),
    Nat.mod_eq_of_lt (by omega)] at hnat
  exact hne (Char.toNat_inj.mp hnat)

/-- Inside a string each ASCII character is copied. -/
theorem spaced_copy {c : Char} (hc : c.toNat < 128) (escaped : Bool) (rest : List UInt8) :
    spacedJsonBytes ⟨true, escaped⟩ (String.utf8EncodeChar c ++ rest) =
      c :: spacedJsonBytes (updateJsonStringState ⟨true, escaped⟩ (UInt8.ofNat c.toNat)) rest := by
  rw [utf8EncodeChar_ascii hc, List.singleton_append, spacedJsonBytes, appendSpacedJsonByte,
    if_pos rfl, ← byteChar, ofNat_toUInt8 hc]
  rfl

theorem spaced_inside {c : Char} (hc : Plain c) (rest : List UInt8) :
    spacedJsonBytes inside (String.utf8EncodeChar c ++ rest) = c :: spacedJsonBytes inside rest := by
  have hquote : UInt8.ofNat c.toNat ≠ 0x22 := toUInt8_ne hc.ascii (by decide) hc.quote
  have hbackslash : UInt8.ofNat c.toNat ≠ 0x5c := toUInt8_ne hc.ascii (by decide) hc.backslash
  rw [inside, spaced_copy hc.ascii, updateJsonStringState, if_neg Bool.false_ne_true,
    if_neg hbackslash, if_neg hquote]

/-- A backslash takes the next character with it. -/
theorem spaced_escape {c : Char} (hc : c.toNat < 128) (rest : List UInt8) :
    spacedJsonBytes inside
        (String.utf8EncodeChar backslash ++ (String.utf8EncodeChar c ++ rest)) =
      backslash :: c :: spacedJsonBytes inside rest := by
  have hupdate : updateJsonStringState ⟨true, false⟩ (UInt8.ofNat backslash.toNat) = ⟨true, true⟩ := rfl
  rw [inside, spaced_copy (by decide), hupdate, spaced_copy hc]
  rfl

theorem spaced_outside {c : Char} (hc : c.toNat < 128) (hquote : c ≠ quote) (hcolon : c ≠ ':')
    (hcomma : c ≠ ',') (rest : List UInt8) :
    spacedJsonBytes outside (String.utf8EncodeChar c ++ rest) =
      c :: spacedJsonBytes outside rest := by
  have hbyte : UInt8.ofNat c.toNat ≠ 0x22 := toUInt8_ne hc (by decide) hquote
  have hbyte' : UInt8.ofNat c.toNat ≠ 0x3a := toUInt8_ne hc (by decide) hcolon
  have hbyte'' : UInt8.ofNat c.toNat ≠ 0x2c := toUInt8_ne hc (by decide) hcomma
  rw [utf8EncodeChar_ascii hc, List.singleton_append, spacedJsonBytes, appendSpacedJsonByte, outside,
    if_neg Bool.false_ne_true, if_neg hbyte, if_neg hbyte', if_neg hbyte'', ← byteChar,
    ofNat_toUInt8 hc]
  rfl

theorem spaced_word {word : List Char}
    (hword : ∀ c ∈ word, c.toNat < 128 ∧ c ≠ quote ∧ c ≠ ':' ∧ c ≠ ',') (rest : List UInt8) :
    spacedJsonBytes outside (bytesOf word ++ rest) = word ++ spacedJsonBytes outside rest := by
  induction word with
  | nil => rfl
  | cons c word ih =>
    rcases hword c List.mem_cons_self with ⟨hc, hquote, hcolon, hcomma⟩
    rw [bytesOf_cons, List.append_assoc, spaced_outside hc hquote hcolon hcomma,
      ih fun d hd => hword d (List.mem_cons_of_mem c hd), List.cons_append]

theorem spaced_plain {word : List Char} (hword : ∀ c ∈ word, Plain c) (rest : List UInt8) :
    spacedJsonBytes inside (bytesOf word ++ rest) = word ++ spacedJsonBytes inside rest := by
  induction word with
  | nil => rfl
  | cons c word ih =>
    rw [bytesOf_cons, List.append_assoc, spaced_inside (hword c List.mem_cons_self),
      ih fun d hd => hword d (List.mem_cons_of_mem c hd), List.cons_append]

theorem spaced_escapeChar {c : Char} (hc : c.toNat < 128) (rest : List UInt8) :
    spacedJsonBytes inside (bytesOf (escapeChar c) ++ rest) =
      escapeChar c ++ spacedJsonBytes inside rest := by
  have hescape : ∀ (d : Char) (word : List Char), d.toNat < 128 → (∀ c ∈ word, Plain c) →
      spacedJsonBytes inside (bytesOf (backslash :: d :: word) ++ rest) =
        backslash :: d :: word ++ spacedJsonBytes inside rest := by
    intro d word hd hword
    rw [bytesOf_cons, bytesOf_cons, List.append_assoc, List.append_assoc, spaced_escape hd,
      spaced_plain hword, List.cons_append, List.cons_append]
  have hnone : ∀ c ∈ ([] : List Char), Plain c := fun c hmem => by cases hmem
  have hdigits : ∀ n < 16, (hexDigit n).toNat < 128 ∧ hexDigit n ≠ quote ∧ hexDigit n ≠ backslash := by
    decide
  have hdigit : ∀ n < 16, Plain (hexDigit n) :=
    fun n hn => ⟨(hdigits n hn).1, (hdigits n hn).2.1, (hdigits n hn).2.2⟩
  unfold escapeChar
  split_ifs with h₁ h₂ h₃ h₄ h₅ h₆ h₇ h₈
  · exact hescape quote [] (by decide) hnone
  · exact hescape backslash [] (by decide) hnone
  · exact hescape 'b' [] (by decide) hnone
  · exact hescape 't' [] (by decide) hnone
  · exact hescape 'n' [] (by decide) hnone
  · exact hescape 'f' [] (by decide) hnone
  · exact hescape 'r' [] (by decide) hnone
  · have hzero : Plain '0' := ⟨by decide, by decide, by decide⟩
    apply hescape 'u' _ (by decide)
    simp only [List.forall_mem_cons]
    exact ⟨hzero, hzero, hdigit _ (by omega), hdigit _ (by omega), hnone⟩
  · apply spaced_plain
    simp only [List.forall_mem_cons]
    exact ⟨⟨hc, h₁, h₂⟩, hnone⟩

theorem spaced_wide {bytes : List UInt8} (hbytes : ∀ byte ∈ bytes, 128 ≤ byte.toNat)
    (rest : List UInt8) :
    spacedJsonBytes inside (bytes ++ rest) = bytes.map byteChar ++ spacedJsonBytes inside rest := by
  induction bytes with
  | nil => rfl
  | cons byte bytes ih =>
    have hwide := hbytes byte List.mem_cons_self
    have hne : ∀ other : UInt8, other.toNat < 128 → byte ≠ other := by
      intro other hother heq
      rw [heq] at hwide
      omega
    have hupdate : updateJsonStringState inside byte = inside := by
      rw [inside, updateJsonStringState, if_neg Bool.false_ne_true, if_neg (hne 0x5c (by decide)),
        if_neg (hne 0x22 (by decide))]
    have hstep : appendSpacedJsonByte inside byte = ([byteChar byte], inside) := by
      show ([byteChar byte], updateJsonStringState inside byte) = _
      rw [hupdate]
    rw [List.cons_append, spacedJsonBytes, hstep]
    show byteChar byte :: spacedJsonBytes inside (bytes ++ rest) = _
    rw [ih fun other hother => hbytes other (List.mem_cons_of_mem byte hother), List.map_cons,
      List.cons_append]

/-- Inside a string the pass writes the characters of the bytes. -/
theorem spaced_char (c : Char) (rest : List UInt8) :
    spacedJsonBytes inside (bytesOf (escapeChar c) ++ rest) =
      ((String.utf8EncodeChar c).map byteChar).flatMap escapeChar ++ spacedJsonBytes inside rest := by
  by_cases hc : c.toNat < 128
  · rw [spaced_escapeChar hc, map_byteChar_ascii hc, List.flatMap_singleton]
  · have hwide := (utf8EncodeChar_wide (Nat.not_lt.mp hc)).2
    have hescape : ((String.utf8EncodeChar c).map byteChar).flatMap escapeChar =
        (String.utf8EncodeChar c).map byteChar := by
      rw [List.flatMap_map]
      apply (List.flatMap_congr _).trans (List.flatMap_pure_eq_map byteChar _)
      intro byte hbyte
      exact escapeChar_wide (toNat_byteChar byte ▸ hwide byte hbyte)
    rw [escapeChar_wide (Nat.not_lt.mp hc), bytesOf_cons, hescape, List.append_assoc,
      spaced_wide hwide]
    rfl

/-- The pass turns a literal into that of the characters of its bytes. -/
theorem spaced_literal (text : String) (rest : List UInt8) :
    spacedJsonBytes outside (bytesOf (literal text) ++ rest) =
      literal (latin text) ++ spacedJsonBytes outside rest := by
  have hchars : ∀ (chars : List Char) (rest : List UInt8),
      spacedJsonBytes inside (bytesOf (chars.flatMap escapeChar) ++ rest) =
        (chars.flatMap fun c => (String.utf8EncodeChar c).map byteChar).flatMap escapeChar ++
          spacedJsonBytes inside rest := by
    intro chars rest
    induction chars with
    | nil => rfl
    | cons c chars ih =>
      rw [List.flatMap_cons, bytesOf_append, List.append_assoc, spaced_char, ih, List.flatMap_cons,
        List.flatMap_append, List.append_assoc]
  have hopen : ∀ rest, spacedJsonBytes outside (String.utf8EncodeChar quote ++ rest) =
      quote :: spacedJsonBytes inside rest := fun _ => rfl
  have hclose : ∀ rest, spacedJsonBytes inside (String.utf8EncodeChar quote ++ rest) =
      quote :: spacedJsonBytes outside rest := fun _ => rfl
  rw [literal, bytesOf_cons, List.append_assoc, hopen, bytesOf_append, List.append_assoc, hchars,
    ← toList_latin, bytesOf_cons, List.append_assoc, hclose, literal]
  simp [bytesOf]

/-! ## What the pass leaves of a layout -/

theorem spaced_commas {α : Type} {R S : α → List Char → Prop} {xs : List α} {texts : List (List Char)}
    (hspace : ∀ x text, S x text → S x (' ' :: text))
    (hstep : ∀ x ∈ xs, ∀ text, R x text → ∃ out, S x out ∧ ∀ rest,
      spacedJsonBytes outside (bytesOf text ++ rest) = out ++ spacedJsonBytes outside rest)
    (h : List.Forall₂ R xs texts) :
    ∃ outs, List.Forall₂ S xs outs ∧ ∀ rest,
      spacedJsonBytes outside (bytesOf (commas texts) ++ rest) =
        commas outs ++ spacedJsonBytes outside rest := by
  induction h with
  | nil => exact ⟨[], .nil, fun _ => rfl⟩
  | @cons x text xs texts hx hrest ih =>
    rcases hstep x List.mem_cons_self text hx with ⟨out, hout, hpass⟩
    rcases ih fun y hy => hstep y (List.mem_cons_of_mem x hy) with ⟨outs, houts, hpasses⟩
    cases hrest with
    | nil =>
      cases houts
      refine ⟨[out], .cons hout .nil, ?_⟩
      intro rest
      rw [commas_singleton, commas_singleton, hpass]
    | cons _ _ =>
      cases houts with
      | @cons _ first _ others hfirst hothers =>
        refine ⟨out :: (' ' :: first) :: others, .cons hout (.cons (hspace _ _ hfirst) hothers), ?_⟩
        intro rest
        have hcomma : ∀ rest, spacedJsonBytes outside (String.utf8EncodeChar ',' ++ rest) =
            ',' :: ' ' :: spacedJsonBytes outside rest := fun _ => rfl
        have hhead : commas ((' ' :: first) :: others) = ' ' :: commas (first :: others) := by
          cases others with
          | nil => rw [commas_singleton, commas_singleton]
          | cons next others => rw [commas_cons_cons, commas_cons_cons, List.cons_append]
        rw [commas_cons_cons, bytesOf_append, List.append_assoc, hpass, bytesOf_cons,
          List.append_assoc, hcomma, hpasses, commas_cons_cons, hhead, List.append_assoc,
          List.cons_append, List.cons_append]

theorem itemLayout_space {layout : Value → List Char → Prop} (value : Value) (text : List Char)
    (h : ItemLayout Blank layout value text) : ItemLayout Blank layout value (' ' :: text) := by
  rcases h with ⟨before, inner, behind, hbefore, hbehind, hinner, rfl⟩
  refine ⟨' ' :: before, inner, behind, ?_, hbehind, hinner, rfl⟩
  exact List.forall_mem_cons.mpr ⟨.inl rfl, hbefore⟩

theorem fieldLayout_space {layout : Value → List Char → Prop} (entry : String × Value)
    (text : List Char) (h : FieldLayout Blank layout entry text) :
    FieldLayout Blank layout entry (' ' :: text) := by
  rcases h with ⟨before, gap, inner, behind, hbefore, hgap, hbehind, hinner, rfl⟩
  refine ⟨' ' :: before, gap, inner, behind, ?_, hgap, hbehind, hinner, rfl⟩
  exact List.forall_mem_cons.mpr ⟨.inl rfl, hbefore⟩

mutual

/-- A value whose strings have become the characters of their bytes. -/
def Value.recode : Value → Value
  | .null => .null
  | .bool value => .bool value
  | .number text => .number text
  | .string text => .string (latin text)
  | .array values => .array (recodeValues values)
  | .object entries => .object (sortEntries (recodeFields entries))

def recodeValues : List Value → List Value
  | [] => []
  | value :: values => value.recode :: recodeValues values

def recodeFields : List (String × Value) → List (String × Value)
  | [] => []
  | (key, value) :: entries => (latin key, value.recode) :: recodeFields entries

end

theorem recodeValues_eq (values : List Value) : recodeValues values = values.map Value.recode := by
  induction values with
  | nil => rfl
  | cons value values ih => rw [recodeValues, ih, List.map_cons]

def recodeField (entry : String × Value) : String × Value := (latin entry.1, entry.2.recode)

theorem recodeFields_eq (entries : List (String × Value)) :
    recodeFields entries = entries.map recodeField := by
  induction entries with
  | nil => rfl
  | cons entry entries ih => rw [recodeFields, ih, List.map_cons, recodeField]

/-- The pass turns a text without white space into a layout of the recoded value. -/
theorem spaced_layout {json : SerdeJson} {depth : Nat} {value : Value} {text : List Char}
    (hvalid : value.Valid json) (h : Layout NoGap depth value text) :
    ∃ out, Layout Blank depth value.recode out ∧ ∀ rest,
      spacedJsonBytes outside (bytesOf text ++ rest) = out ++ spacedJsonBytes outside rest := by
  have hnone : Blank [] := fun c hc => by cases hc
  have hsign : ∀ c : Char, c.toNat < 128 → c ≠ quote → c ≠ ':' → c ≠ ',' → ∀ rest,
      spacedJsonBytes outside (String.utf8EncodeChar c ++ rest) =
        c :: spacedJsonBytes outside rest :=
    fun c hc hquote hcolon hcomma => spaced_outside hc hquote hcolon hcomma
  induction depth generalizing value text with
  | zero => exact h.elim
  | succ depth ih =>
    cases value with
    | null =>
      rw [show text = "null".toList from h]
      exact ⟨_, rfl, spaced_word (forall_chars (by decide))⟩
    | bool value =>
      rw [show text = (if value then "true" else "false").toList from h]
      refine ⟨_, rfl, ?_⟩
      cases value with
      | true => exact spaced_word (forall_chars (by decide))
      | false => exact spaced_word (forall_chars (by decide))
    | number value =>
      rw [show text = value.toList from h]
      refine ⟨_, rfl, spaced_word ?_⟩
      intro c hc
      have hnumber := hvalid.1 c hc
      refine ⟨isNumberChar_ascii hnumber, ?_, ?_, ?_⟩ <;>
      · rintro rfl
        exact absurd hnumber (by decide)
    | string value =>
      rw [show text = literal value from h]
      exact ⟨_, rfl, spaced_literal value⟩
    | array values =>
      rcases h with ⟨items, hitems, rfl⟩
      have hstep : ∀ value ∈ values, ∀ item, ItemLayout NoGap (Layout NoGap depth) value item →
          ∃ out, ItemLayout Blank (Layout Blank depth) value.recode out ∧ ∀ rest,
            spacedJsonBytes outside (bytesOf item ++ rest) = out ++ spacedJsonBytes outside rest := by
        intro value hvalue item hitem
        rcases hitem with ⟨before, inner, behind, hbefore, hbehind, hinner, rfl⟩
        rcases ih (validValues_iff.mp hvalid value hvalue) hinner with ⟨out, hout, hpass⟩
        refine ⟨out, ⟨[], out, [], hnone, hnone, hout, by simp⟩, ?_⟩
        rw [hbefore, hbehind, List.nil_append, List.append_nil]
        exact hpass
      rcases spaced_commas (fun value => itemLayout_space value.recode) hstep hitems with
        ⟨outs, houts, hpass⟩
      refine ⟨'[' :: (commas outs ++ [']']), ?_, ?_⟩
      · rw [Value.recode, recodeValues_eq]
        exact ⟨outs, List.forall₂_map_left_iff.mpr houts, rfl⟩
      · intro rest
        rw [bytesOf_cons, List.append_assoc,
          hsign '[' (by decide) (by decide) (by decide) (by decide), bytesOf_append,
          List.append_assoc, hpass, bytesOf_cons, List.append_assoc,
          hsign ']' (by decide) (by decide) (by decide) (by decide)]
        simp [bytesOf]
    | object entries =>
      rcases h with ⟨fields, items, hperm, hitems, rfl⟩
      have hstep : ∀ entry ∈ fields, ∀ item, FieldLayout NoGap (Layout NoGap depth) entry item →
          ∃ out, FieldLayout Blank (Layout Blank depth) (recodeField entry) out ∧ ∀ rest,
            spacedJsonBytes outside (bytesOf item ++ rest) = out ++ spacedJsonBytes outside rest := by
        intro entry hentry item hitem
        have hmem := hperm.mem_iff.mp hentry
        rcases hitem with ⟨before, gap, inner, behind, hbefore, hgap, hbehind, hinner, rfl⟩
        rcases ih (validFields_iff.mp hvalid.2 entry hmem) hinner with ⟨out, hout, hpass⟩
        refine ⟨literal (latin entry.1) ++ ':' :: ([' '] ++ out ++ []),
          ⟨[], [' '], out, [], hnone, by simp [Blank], hnone, hout, by simp [recodeField]⟩, ?_⟩
        intro rest
        have hcolon : ∀ rest, spacedJsonBytes outside (String.utf8EncodeChar ':' ++ rest) =
            ':' :: ' ' :: spacedJsonBytes outside rest := fun _ => rfl
        rw [hbefore, hgap, hbehind, List.nil_append, List.nil_append, List.append_nil,
          bytesOf_append, List.append_assoc, spaced_literal, bytesOf_cons, List.append_assoc, hcolon,
          hpass]
        simp
      rcases spaced_commas (fun entry => fieldLayout_space (recodeField entry)) hstep hitems with
        ⟨outs, houts, hpass⟩
      refine ⟨'\x7b' :: (commas outs ++ ['\x7d']), ?_, ?_⟩
      · rw [Value.recode, recodeFields_eq]
        exact ⟨fields.map recodeField, outs,
          (hperm.map recodeField).trans (sortEntries_perm _).symm,
          List.forall₂_map_left_iff.mpr houts, rfl⟩
      · intro rest
        rw [bytesOf_cons, List.append_assoc,
          hsign '\x7b' (by decide) (by decide) (by decide) (by decide), bytesOf_append,
          List.append_assoc, hpass, bytesOf_cons, List.append_assoc,
          hsign '\x7d' (by decide) (by decide) (by decide) (by decide)]
        simp [bytesOf]

/-! ## Recoded values -/

theorem recode_valid {json : SerdeJson} {value : Value} (hvalid : value.Valid json) :
    value.recode.Valid json := by
  induction value using Value.nested with
  | null => exact hvalid
  | bool value => exact hvalid
  | number text => exact hvalid
  | string text => trivial
  | array values ih =>
    rw [Value.recode, recodeValues_eq]
    apply validValues_iff.mpr
    rw [List.forall_mem_map]
    intro value hvalue
    exact ih value hvalue (validValues_iff.mp hvalid value hvalue)
  | object entries ih =>
    rw [Value.recode, recodeFields_eq]
    constructor
    · apply List.pairwise_map.mpr
      apply sortEntries_sorted
      apply List.pairwise_map.mpr
      apply (List.pairwise_map.mp hvalid.1).imp
      intro left right hlt heq
      exact hlt.ne (latin_injective heq)
    · apply validFields_iff.mpr
      intro entry hentry
      rw [(sortEntries_perm _).mem_iff, List.mem_map] at hentry
      rcases hentry with ⟨entry, hentry, rfl⟩
      exact ih entry hentry (validFields_iff.mp hvalid.2 entry hentry)

/-- The strings of a recoded value are those of the value, each with the characters of its bytes. -/
theorem strings_recode (value : Value) : value.recode.strings.Perm (value.strings.map latin) := by
  induction value using Value.nested with
  | null => exact .refl []
  | bool value => exact .refl []
  | number text => exact .refl []
  | string text => exact .refl [latin text]
  | array values ih =>
    rw [Value.recode, recodeValues_eq, Value.strings, stringsOfValues_eq, Value.strings,
      stringsOfValues_eq, List.flatMap_map, List.map_flatMap]
    exact List.Perm.flatMap_left values ih
  | object entries ih =>
    rw [Value.recode, recodeFields_eq, Value.strings, stringsOfFields_eq, Value.strings,
      stringsOfFields_eq, List.map_flatMap]
    apply ((sortEntries_perm _).flatMap_right _).trans
    rw [List.flatMap_map]
    apply List.Perm.flatMap_left
    intro entry hentry
    exact (ih entry hentry).cons (latin entry.1)

/-- Every string in a value is ASCII. -/
def Value.Ascii (value : Value) : Prop :=
  ∀ text ∈ value.strings, ∀ c ∈ text.toList, c.toNat < 128

theorem ascii_of_recode {value : Value} (h : value.recode = value) : value.Ascii := by
  have hlength : ((value.strings.map latin).map fun text => text.toList.length).sum =
      (value.strings.map fun text => text.toList.length).sum := by
    rw [← ((strings_recode value).map _).sum_eq, h]
  rw [List.map_map] at hlength
  by_contra hascii
  rw [Value.Ascii] at hascii
  push Not at hascii
  rcases hascii with ⟨text, htext, c, hc, hwide⟩
  have hlt : (value.strings.map fun text => text.toList.length).sum <
      (value.strings.map fun text => (latin text).toList.length).sum := by
    apply List.sum_lt_sum
    · intro text _
      exact (length_latin text).1
    · refine ⟨text, htext, lt_of_le_of_ne (length_latin text).1 ?_⟩
      intro heq
      exact absurd ((length_latin text).2 heq.symm c hc) (Nat.not_lt.mpr hwide)
  exact hlt.ne' hlength

theorem recode_of_ascii {json : SerdeJson} {value : Value} (hvalid : value.Valid json)
    (h : value.Ascii) : value.recode = value := by
  induction value using Value.nested with
  | null => rfl
  | bool value => rfl
  | number text => rfl
  | string text =>
    rw [Value.recode, latin_of_ascii (h text (by simp [Value.strings]))]
  | array values ih =>
    rw [Value.recode, recodeValues_eq]
    congr 1
    apply (List.map_congr_left _).trans (List.map_id values)
    intro value hvalue
    apply ih value hvalue (validValues_iff.mp hvalid value hvalue)
    intro text htext
    apply h
    rw [Value.strings, stringsOfValues_eq, List.mem_flatMap]
    exact ⟨value, hvalue, htext⟩
  | object entries ih =>
    have hmem : ∀ entry ∈ entries, ∀ text ∈ entry.1 :: entry.2.strings,
        text ∈ (Value.object entries).strings := by
      intro entry hentry text htext
      rw [Value.strings, stringsOfFields_eq, List.mem_flatMap]
      exact ⟨entry, hentry, htext⟩
    have hfields : entries.map recodeField = entries := by
      apply (List.map_congr_left _).trans (List.map_id entries)
      intro entry hentry
      have hvalue : entry.2.recode = entry.2 :=
        ih entry hentry (validFields_iff.mp hvalid.2 entry hentry) fun text htext =>
          h text (hmem entry hentry text (List.mem_cons_of_mem _ htext))
      rw [recodeField, hvalue, latin_of_ascii (h _ (hmem entry hentry _ List.mem_cons_self))]
      rfl
    rw [Value.recode, recodeFields_eq, hfields, sortEntries_eq hvalid.1 (.refl entries)]

/-- Recoding keeps a value if and only if its strings are ASCII. -/
theorem recode_eq_iff {json : SerdeJson} {value : Value} (hvalid : value.Valid json) :
    value.recode = value ↔ value.Ascii :=
  ⟨ascii_of_recode, recode_of_ascii hvalid⟩

end Leone.Template

import Leone.Framework.Method
import Mathlib

/-!
# Hexadecimal text

Bytes are written as two digits each. A receipt reads them back with the integer parser, which also
takes a sign in the place of the first digit.
-/

namespace Leone.Receipt

open Framework

/-- An error of a receipt operation. The JSON library reports its own. -/
inductive Error (ε : Type)
  | json (error : ε)
  | validation (message : String)
  deriving Repr

/-! ## Digits -/

def isAsciiHexdigit (c : Char) : Bool :=
  ('0' ≤ c && c ≤ '9') || ('a' ≤ c && c ≤ 'f') || ('A' ≤ c && c ≤ 'F')

def digit16 (c : Char) : Option Nat :=
  if '0' ≤ c ∧ c ≤ '9' then some (c.toNat - 48)
  else if 'a' ≤ c ∧ c ≤ 'f' then some (c.toNat - 87)
  else if 'A' ≤ c ∧ c ≤ 'F' then some (c.toNat - 55)
  else none

/-- Parses a `u8` in base 16. A leading plus sign is taken if digits follow. -/
def fromStrRadix16 (source : List Char) : Option UInt8 :=
  match source with
  | [] => none
  | first :: rest =>
    if (first = '+' ∨ first = '-') ∧ rest = [] then none
    else
      let digits := if first = '+' then rest else source
      (digits.foldlM (fun value c => (digit16 c).bind fun digit =>
        if value * 16 + digit < 256 then some (value * 16 + digit) else none) 0).map UInt8.ofNat

def hexDigits : List Char :=
  ['0', '1', '2', '3', '4', '5', '6', '7', '8', '9', 'a', 'b', 'c', 'd', 'e', 'f']

def hexDigit (value : UInt8) : Char := hexDigits.getD value.toNat '0'

def encodeByte (byte : UInt8) : List Char := [hexDigit (byte >>> 4), hexDigit (byte &&& 15)]

def encodeHex (bytes : List UInt8) : String := String.ofList (bytes.flatMap encodeByte)

/-- Reads the bytes of an array from two characters each. -/
def decodeArray {ε : Type} (n : Nat) (value field : String) : Except (Error ε) (List UInt8) :=
  if value.utf8ByteSize ≠ n * 2 then
    .error (.validation ("response " ++ field ++ " length is invalid"))
  else if ¬ value.toList.all (fun c => decide (c.toNat < 128)) then
    .error (.validation ("response " ++ field ++ " is not hexadecimal"))
  else (List.range n).mapM fun index =>
    match fromStrRadix16 ((value.toList.drop (index * 2)).take 2) with
    | some byte => .ok byte
    | none => .error (.validation ("response " ++ field ++ " is not hexadecimal"))

/-! ## One character -/

/-- The digits of both cases with their values. -/
def hexTable : List (Char × Nat) :=
  [('0', 0), ('1', 1), ('2', 2), ('3', 3), ('4', 4), ('5', 5), ('6', 6), ('7', 7), ('8', 8), ('9', 9),
    ('a', 10), ('b', 11), ('c', 12), ('d', 13), ('e', 14), ('f', 15), ('A', 10), ('B', 11), ('C', 12),
    ('D', 13), ('E', 14), ('F', 15)]

theorem char_range {c : Char} {low high : Char} (h : low ≤ c ∧ c ≤ high) :
    low.toNat ≤ c.toNat ∧ c.toNat ≤ high.toNat := h

theorem digit16_mem {c : Char} {digit : Nat} (h : digit16 c = some digit) : (c, digit) ∈ hexTable := by
  have hc := Char.ofNat_toNat c
  unfold digit16 at h
  split_ifs at h with hdigit hlower hupper
  · rcases char_range hdigit with ⟨hlow, hhigh⟩
    cases h
    change 48 ≤ c.toNat at hlow
    change c.toNat ≤ 57 at hhigh
    generalize c.toNat = value at hc hlow hhigh ⊢
    subst hc
    interval_cases value <;> decide
  · rcases char_range hlower with ⟨hlow, hhigh⟩
    cases h
    change 97 ≤ c.toNat at hlow
    change c.toNat ≤ 102 at hhigh
    generalize c.toNat = value at hc hlow hhigh ⊢
    subst hc
    interval_cases value <;> decide
  · rcases char_range hupper with ⟨hlow, hhigh⟩
    cases h
    change 65 ≤ c.toNat at hlow
    change c.toNat ≤ 70 at hhigh
    generalize c.toNat = value at hc hlow hhigh ⊢
    subst hc
    interval_cases value <;> decide

/-- A check of every digit is a fact about every digit. -/
theorem of_hexTable (check : Char → Nat → Bool) (h : hexTable.all (fun entry => check entry.1 entry.2))
    {c : Char} {digit : Nat} (hdigit : digit16 c = some digit) : check c digit = true :=
  List.all_eq_true.mp h _ (digit16_mem hdigit)

theorem digit16_lt {c : Char} {digit : Nat} (h : digit16 c = some digit) : digit < 16 := by
  have hcheck := of_hexTable (fun _ digit => decide (digit < 16)) (by decide) h
  exact of_decide_eq_true hcheck

theorem digit16_ascii {c : Char} {digit : Nat} (h : digit16 c = some digit) : c.toNat < 128 := by
  have hcheck := of_hexTable (fun c _ => decide (c.toNat < 128)) (by decide) h
  exact of_decide_eq_true hcheck

/-- The lower case of a digit is the digit that is written. -/
theorem toLower_digit {c : Char} {digit : Nat} (h : digit16 c = some digit) :
    c.toLower = hexDigits.getD digit '0' := by
  have hcheck := of_hexTable (fun c digit => decide (c.toLower = hexDigits.getD digit '0'))
    (by decide) h
  exact of_decide_eq_true hcheck

theorem digit16_hexDigits {digit : Nat} (h : digit < 16) :
    digit16 (hexDigits.getD digit '0') = some digit := by
  interval_cases digit <;> rfl

theorem digit16_isSome (c : Char) : (digit16 c).isSome = isAsciiHexdigit c := by
  unfold digit16 isAsciiHexdigit
  by_cases hdigit : '0' ≤ c ∧ c ≤ '9'
  · simp [hdigit]
  · by_cases hlower : 'a' ≤ c ∧ c ≤ 'f'
    · simp [hdigit, hlower]
    · by_cases hupper : 'A' ≤ c ∧ c ≤ 'F'
      · simp [hdigit, hlower, hupper]
      · simp only [if_neg hdigit, if_neg hlower, if_neg hupper, Option.isSome_none]
        simp only [← Bool.decide_and, decide_eq_false hdigit, decide_eq_false hlower,
          decide_eq_false hupper, Bool.or_self]

theorem exists_digit {c : Char} : isAsciiHexdigit c = true ↔ ∃ digit, digit16 c = some digit := by
  rw [← digit16_isSome, Option.isSome_iff_exists]

theorem plus_not_digit : digit16 '+' = none := by decide

theorem toLower_plus {c : Char} : c.toLower = '+' ↔ c = '+' := by
  by_cases hupper : 'A' ≤ c ∧ c ≤ 'Z'
  · have hc := Char.ofNat_toNat c
    rcases char_range hupper with ⟨hlow, hhigh⟩
    change 65 ≤ c.toNat at hlow
    change c.toNat ≤ 90 at hhigh
    generalize c.toNat = value at hc hlow hhigh ⊢
    subst hc
    clear hupper
    interval_cases value <;> decide
  · have hsame : ¬ (c.val ≥ 'A'.val ∧ c.val ≤ 'Z'.val) := hupper
    rw [Char.toLower, dif_neg hsame]

/-! ## Pairs of characters -/

/-- The value of a first character: that of its digit, or zero for a sign. -/
def High (c : Char) (digit : Nat) : Prop := digit16 c = some digit ∨ c = '+' ∧ digit = 0

theorem High.lt {c : Char} {digit : Nat} (h : High c digit) : digit < 16 := by
  rcases h with h | ⟨_, rfl⟩
  · exact digit16_lt h
  · decide

theorem High.ascii {c : Char} {digit : Nat} (h : High c digit) : c.toNat < 128 := by
  rcases h with h | ⟨rfl, _⟩
  · exact digit16_ascii h
  · decide

theorem fromStrRadix16_pair {a b : Char} {byte : UInt8} : fromStrRadix16 [a, b] = some byte ↔
    ∃ high low, High a high ∧ digit16 b = some low ∧ byte = UInt8.ofNat (high * 16 + low) := by
  have hnotAlone : ¬ ((a = '+' ∨ a = '-') ∧ [b] = []) := fun h => by cases h.2
  rw [fromStrRadix16, if_neg hnotAlone]
  by_cases hplus : a = '+'
  · rw [if_pos hplus]
    cases hlow : digit16 b with
    | none => simp [hlow]
    | some low =>
      have hlt := digit16_lt hlow
      simp [hlow, High, hplus, plus_not_digit, show low < 256 by omega, eq_comm]
  · rw [if_neg hplus]
    cases hhigh : digit16 a with
    | none => simp [hhigh, High, hplus]
    | some high =>
      have hlt := digit16_lt hhigh
      cases hlow : digit16 b with
      | none => simp [hhigh, hlow, show high < 256 by omega]
      | some low =>
        have hlt' := digit16_lt hlow
        simp [hhigh, hlow, High, hplus, show high < 256 by omega,
          show high * 16 + low < 256 by omega, eq_comm]

/-- Characters that are read as bytes, two for each. -/
inductive Reads : List Char → List UInt8 → Prop
  | nil : Reads [] []
  | pair {a b : Char} {high low : Nat} {cs : List Char} {bytes : List UInt8} (hhigh : High a high)
      (hlow : digit16 b = some low) (rest : Reads cs bytes) :
      Reads (a :: b :: cs) (UInt8.ofNat (high * 16 + low) :: bytes)

theorem Reads.length {cs : List Char} {bytes : List UInt8} (h : Reads cs bytes) :
    cs.length = bytes.length * 2 := by
  induction h with
  | nil => rfl
  | pair _ _ _ ih =>
    rw [List.length_cons, List.length_cons, List.length_cons, ih]
    omega

theorem Reads.ascii {cs : List Char} {bytes : List UInt8} (h : Reads cs bytes) :
    ∀ c ∈ cs, c.toNat < 128 := by
  induction h with
  | nil => nofun
  | pair hhigh hlow _ ih =>
    rw [List.forall_mem_cons, List.forall_mem_cons]
    exact ⟨hhigh.ascii, digit16_ascii hlow, ih⟩

/-! ## Arrays -/

/-- A string of ASCII characters has a byte for each. -/
theorem utf8ByteSize_ascii (cs : List Char) (h : ∀ c ∈ cs, c.toNat < 128) :
    (String.ofList cs).utf8ByteSize = cs.length := by
  induction cs with
  | nil => rfl
  | cons c cs ih =>
    rw [List.forall_mem_cons] at h
    have hcons : String.ofList (c :: cs) = String.singleton c ++ String.ofList cs := by
      rw [← String.toList_inj]
      simp
    have hone : c.utf8Size = 1 := if_pos (Nat.le_of_lt_succ h.1)
    rw [hcons, String.utf8ByteSize_append, String.utf8ByteSize_singleton, hone, ih h.2,
      List.length_cons, Nat.add_comm]

theorem mapM_pairs {ε : Type} (error : ε) {cs : List Char} {n : Nat} {bytes : List UInt8}
    (hlength : cs.length = n * 2) :
    ((List.range n).mapM fun index =>
      match fromStrRadix16 ((cs.drop (index * 2)).take 2) with
      | some byte => Except.ok byte
      | none => Except.error error) = .ok bytes ↔ Reads cs bytes := by
  induction n generalizing cs bytes with
  | zero =>
    obtain rfl := List.eq_nil_of_length_eq_zero hlength
    constructor
    · intro h
      cases h
      exact .nil
    · intro h
      cases h
      rfl
  | succ n ih =>
    match cs, hlength with
    | [_], hlength => simp [Nat.succ_mul] at hlength
    | a :: b :: rest, hlength =>
      have hrest : rest.length = n * 2 := by
        rw [List.length_cons, List.length_cons] at hlength
        omega
      have hnext : ∀ index, (a :: b :: rest).drop ((index + 1) * 2) = rest.drop (index * 2) := by
        intro index
        rw [Nat.succ_mul]
        rfl
      rw [List.range_succ_eq_map, List.mapM_cons, List.mapM_map]
      simp only [Function.comp_def, hnext, Nat.zero_mul, List.drop_zero, List.take_succ_cons,
        List.take_zero, bind_eq_ok, Nat.succ_eq_add_one]
      constructor
      · intro h
        rcases h with ⟨byte, hbyte, bytes', htail, heq⟩
        cases heq
        cases hpair : fromStrRadix16 [a, b] with
        | none =>
          rw [hpair] at hbyte
          cases hbyte
        | some byte' =>
          rw [hpair] at hbyte
          cases hbyte
          rcases fromStrRadix16_pair.mp hpair with ⟨high, low, hhigh, hlow, rfl⟩
          exact .pair hhigh hlow ((ih hrest).mp htail)
      · intro h
        cases h with
        | @pair _ _ high low _ bytes' hhigh hlow htail =>
          have hpair := fromStrRadix16_pair.mpr ⟨high, low, hhigh, hlow, rfl⟩
          rw [hpair]
          exact ⟨_, rfl, bytes', (ih hrest).mpr htail, rfl⟩

/-- An array is read from the characters of its bytes. -/
theorem decodeArray_eq_ok {ε : Type} {n : Nat} {value field : String} {bytes : List UInt8} :
    (decodeArray n value field : Except (Error ε) (List UInt8)) = .ok bytes ↔
      Reads value.toList bytes ∧ bytes.length = n := by
  have hvalue := String.ofList_toList (s := value)
  unfold decodeArray
  constructor
  · intro h
    split_ifs at h with hsize hascii
    rw [not_not] at hsize
    have hchars : ∀ c ∈ value.toList, c.toNat < 128 := by
      intro c hc
      exact of_decide_eq_true (List.all_eq_true.mp hascii c hc)
    have hlength := utf8ByteSize_ascii value.toList hchars
    rw [hvalue, hsize] at hlength
    have hreads := (mapM_pairs _ hlength.symm).mp h
    refine ⟨hreads, ?_⟩
    have htwo := hreads.length
    omega
  · intro h
    rcases h with ⟨hreads, hcount⟩
    have hlength := utf8ByteSize_ascii value.toList hreads.ascii
    have htwo := hreads.length
    rw [hvalue, htwo, hcount] at hlength
    have hall : value.toList.all (fun c => decide (c.toNat < 128)) = true :=
      List.all_eq_true.mpr fun c hc => decide_eq_true (hreads.ascii c hc)
    rw [if_neg (not_not.mpr hlength), if_neg (not_not.mpr hall)]
    exact (mapM_pairs _ (hcount ▸ htwo)).mpr hreads

/-! ## Written bytes -/

theorem toNat_pair {high low : Nat} (hhigh : high < 16) (hlow : low < 16) :
    (UInt8.ofNat (high * 16 + low)).toNat = high * 16 + low :=
  UInt8.toNat_ofNat_of_lt' (show high * 16 + low < 256 by omega)

theorem encodeByte_eq {high low : Nat} (hhigh : high < 16) (hlow : low < 16) :
    encodeByte (UInt8.ofNat (high * 16 + low)) =
      [hexDigits.getD high '0', hexDigits.getD low '0'] := by
  have hbyte := toNat_pair hhigh hlow
  have htop : (UInt8.ofNat (high * 16 + low) >>> 4).toNat = high := by
    rw [UInt8.toNat_shiftRight, hbyte, Nat.shiftRight_eq_div_pow]
    show (high * 16 + low) / 2 ^ 4 = high
    omega
  have hrest : (UInt8.ofNat (high * 16 + low) &&& 15).toNat = low := by
    rw [UInt8.toNat_and, hbyte]
    show (high * 16 + low) &&& 2 ^ 4 - 1 = low
    rw [Nat.and_two_pow_sub_one_eq_mod]
    omega
  rw [encodeByte, hexDigit, hexDigit, htop, hrest]

theorem Reads.encoded (bytes : List UInt8) : Reads (bytes.flatMap encodeByte) bytes := by
  induction bytes with
  | nil => exact .nil
  | cons byte bytes ih =>
    have hlt := byte.toNat_lt
    have hbyte : UInt8.ofNat (byte.toNat / 16 * 16 + byte.toNat % 16) = byte := by
      rw [Nat.div_add_mod' byte.toNat 16, UInt8.ofNat_toNat]
    have hhigh : byte.toNat / 16 < 16 := by omega
    have hlow : byte.toNat % 16 < 16 := by omega
    have hpair := encodeByte_eq hhigh hlow
    rw [hbyte] at hpair
    rw [List.flatMap_cons, hpair]
    have hreads := Reads.pair (.inl (digit16_hexDigits hhigh)) (digit16_hexDigits hlow) ih
    rw [hbyte] at hreads
    exact hreads

theorem High.digit {c : Char} {digit : Nat} (h : High c digit) (hne : c ≠ '+') :
    digit16 c = some digit :=
  h.resolve_right fun hplus => hne hplus.1

/-- Bytes that are read without a sign are written in lower case. -/
theorem Reads.lower {cs : List Char} {bytes : List UInt8} (h : Reads cs bytes) (hplus : '+' ∉ cs) :
    bytes.flatMap encodeByte = cs.map Char.toLower := by
  induction h with
  | nil => rfl
  | @pair a b high low cs bytes hhigh hlow _ ih =>
    rw [List.mem_cons, List.mem_cons, not_or, not_or] at hplus
    have hdigit := hhigh.digit (Ne.symm hplus.1)
    rw [List.flatMap_cons, encodeByte_eq hhigh.lt (digit16_lt hlow), ih hplus.2.2, List.map_cons,
      List.map_cons, toLower_digit hdigit, toLower_digit hlow]
    rfl

/-- The characters that are read: digits, and signs at even offsets. -/
def Readable (cs : List Char) : Prop :=
  ∀ i c, cs[i]? = some c → isAsciiHexdigit c = true ∨ c = '+' ∧ i % 2 = 0

theorem readable_pair {a b : Char} {cs : List Char} : Readable (a :: b :: cs) ↔
    (isAsciiHexdigit a = true ∨ a = '+') ∧ isAsciiHexdigit b = true ∧ Readable cs := by
  constructor
  · intro h
    refine ⟨?_, ?_, ?_⟩
    · exact (h 0 a rfl).imp_right And.left
    · exact (h 1 b rfl).resolve_right fun hodd => absurd hodd.2 (by decide)
    · intro i c hc
      have hnext := h (i + 2) c hc
      rwa [Nat.add_mod_right] at hnext
  · intro h i c hc
    match i with
    | 0 =>
      cases hc
      exact h.1.imp_right fun hplus => ⟨hplus, rfl⟩
    | 1 =>
      cases hc
      exact .inl h.2.1
    | i + 2 =>
      rw [Nat.add_mod_right]
      exact h.2.2 i c hc

theorem reads_iff {n : Nat} {cs : List Char} :
    (∃ bytes, Reads cs bytes ∧ bytes.length = n) ↔ cs.length = n * 2 ∧ Readable cs := by
  constructor
  · intro h
    rcases h with ⟨bytes, hreads, rfl⟩
    refine ⟨hreads.length, ?_⟩
    induction hreads with
    | nil => exact fun _ _ h => by cases h
    | pair hhigh hlow _ ih =>
      apply readable_pair.mpr
      exact ⟨hhigh.imp (fun h => exists_digit.mpr ⟨_, h⟩) And.left, exists_digit.mpr ⟨_, hlow⟩, ih⟩
  · intro h
    rcases h with ⟨hlength, hreadable⟩
    induction n generalizing cs with
    | zero =>
      obtain rfl := List.eq_nil_of_length_eq_zero hlength
      exact ⟨[], .nil, rfl⟩
    | succ n ih =>
      match cs, hlength with
      | [_], hlength => simp [Nat.succ_mul] at hlength
      | a :: b :: rest, hlength =>
        have hrest : rest.length = n * 2 := by
          rw [List.length_cons, List.length_cons] at hlength
          omega
        rcases readable_pair.mp hreadable with ⟨ha, hb, htail⟩
        rcases ih hrest htail with ⟨bytes, hreads, hcount⟩
        rcases exists_digit.mp hb with ⟨low, hlow⟩
        have hhigh : ∃ high, High a high := by
          rcases ha with ha | ha
          · rcases exists_digit.mp ha with ⟨high, hhigh⟩
            exact ⟨high, .inl hhigh⟩
          · exact ⟨0, .inr ⟨ha, rfl⟩⟩
        rcases hhigh with ⟨high, hhigh⟩
        exact ⟨_, .pair hhigh hlow hreads, by rw [List.length_cons, hcount]⟩

/-- Characters read as the same bytes agree up to case exactly when they have signs at the same
places. -/
theorem Reads.lower_eq_iff {cs cs' : List Char} {bytes : List UInt8} (h : Reads cs bytes)
    (h' : Reads cs' bytes) :
    cs.map Char.toLower = cs'.map Char.toLower ↔ ∀ i : Nat, cs[i]? = some '+' ↔ cs'[i]? = some '+' := by
  constructor
  · intro heq i
    have hsign : ∀ cs : List Char, cs[i]? = some '+' ↔ (cs.map Char.toLower)[i]? = some '+' := by
      intro cs
      rw [List.getElem?_map]
      cases cs[i]? with
      | none => simp
      | some c => simp [toLower_plus]
    rw [hsign cs, hsign cs', heq]
  · intro hsigns
    induction h generalizing cs' with
    | nil =>
      cases h'
      rfl
    | @pair a b high low cs bytes hhigh hlow _ ih =>
      generalize hbytes : UInt8.ofNat (high * 16 + low) :: bytes = all at h'
      cases h' with
      | nil => cases hbytes
      | @pair a' b' high' low' cs' bytes' hhigh' hlow' htail =>
        injection hbytes with hbyte hrest
        subst hrest
        have hlt := hhigh.lt
        have hlt' := hhigh'.lt
        have hllt := digit16_lt hlow
        have hllt' := digit16_lt hlow'
        have hnat := congrArg UInt8.toNat hbyte
        rw [toNat_pair hlt hllt, toNat_pair hlt' hllt'] at hnat
        have hhighs : high = high' := by omega
        have hlows : low = low' := by omega
        have hfirst : a.toLower = a'.toLower := by
          have hplus := hsigns 0
          simp only [List.getElem?_cons_zero, Option.some.injEq] at hplus
          by_cases ha : a = '+'
          · rw [ha, hplus.mp ha]
          · have ha' : a' ≠ '+' := fun h => ha (hplus.mpr h)
            rw [toLower_digit (hhigh.digit ha), toLower_digit (hhigh'.digit ha'), hhighs]
        rw [List.map_cons, List.map_cons, List.map_cons, List.map_cons, hfirst, toLower_digit hlow,
          toLower_digit hlow', hlows, ih htail fun i => hsigns (i + 2)]

end Leone.Receipt

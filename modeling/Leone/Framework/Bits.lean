import Mathlib

/-!
# Bits of bytes

Bytes are read bit by bit, the lowest bit first. A list of bytes is a row of bits, eight to a byte.
-/

namespace Framework

/-! ## One byte -/

def bitOf (byte : UInt8) (i : ℕ) : Bool := byte.toBitVec.getLsbD i

theorem bitOf_ext {a b : UInt8} (h : ∀ i < 8, bitOf a i = bitOf b i) : a = b := by
  apply UInt8.eq_of_toBitVec_eq
  apply BitVec.eq_of_getLsbD_eq
  exact h

theorem bitOf_of_le {byte : UInt8} {i : ℕ} (h : 8 ≤ i) : bitOf byte i = false :=
  BitVec.getLsbD_of_ge _ _ h

theorem bitOf_zero (i : ℕ) : bitOf 0 i = false := BitVec.getLsbD_zero

theorem bitOf_or (a b : UInt8) (i : ℕ) : bitOf (a ||| b) i = (bitOf a i || bitOf b i) := by
  rw [bitOf, UInt8.toBitVec_or, BitVec.getLsbD_or]
  rfl

theorem bitOf_and (a b : UInt8) (i : ℕ) : bitOf (a &&& b) i = (bitOf a i && bitOf b i) := by
  rw [bitOf, UInt8.toBitVec_and, BitVec.getLsbD_and]
  rfl

theorem toBitVec_ofNat_mod {k : ℕ} (h : k < 8) : ((UInt8.ofNat k).toBitVec % 8).toNat = k := by
  interval_cases k <;> rfl

theorem bitOf_shiftLeft (byte : UInt8) {k i : ℕ} (hk : k < 8) (hi : i < 8) :
    bitOf (byte <<< UInt8.ofNat k) i = (decide (k ≤ i) && bitOf byte (i - k)) := by
  rw [bitOf, UInt8.toBitVec_shiftLeft, BitVec.shiftLeft_eq', toBitVec_ofNat_mod hk,
    BitVec.getLsbD_shiftLeft, decide_eq_true hi, Bool.true_and]
  by_cases hle : k ≤ i
  · rw [decide_eq_true hle, decide_eq_false (by omega), Bool.not_false]
    rfl
  · rw [decide_eq_false hle, decide_eq_true (by omega), Bool.not_true, Bool.false_and, Bool.false_and]

theorem bitOf_shiftRight (byte : UInt8) {k : ℕ} (hk : k < 8) (i : ℕ) :
    bitOf (byte >>> UInt8.ofNat k) i = bitOf byte (k + i) := by
  rw [bitOf, UInt8.toBitVec_shiftRight, BitVec.ushiftRight_eq', toBitVec_ofNat_mod hk,
    BitVec.getLsbD_ushiftRight]
  rfl

theorem bitOf_one (i : ℕ) : bitOf 1 i = decide (i = 0) := by
  rw [bitOf]
  show (1#8).getLsbD i = _
  rw [BitVec.getLsbD_one]
  rfl

/-- The byte with one bit. -/
theorem bitOf_mask {k i : ℕ} (hk : k < 8) (hi : i < 8) :
    bitOf ((1 : UInt8) <<< UInt8.ofNat k) i = decide (i = k) := by
  rw [bitOf_shiftLeft 1 hk hi, bitOf_one]
  by_cases h : i = k
  · rw [h, Nat.sub_self]
    simp
  · by_cases hle : k ≤ i
    · rw [decide_eq_false (by omega : ¬ i - k = 0), Bool.and_false, decide_eq_false h]
    · rw [decide_eq_false hle, Bool.false_and, decide_eq_false h]

/-- Testing a byte against a mask reads a bit. -/
theorem and_mask_ne_zero (byte : UInt8) {k : ℕ} (hk : k < 8) :
    byte &&& (1 : UInt8) <<< UInt8.ofNat k ≠ 0 ↔ bitOf byte k = true := by
  constructor
  · intro hne
    by_contra hbit
    apply hne
    apply bitOf_ext
    intro i hi
    rw [bitOf_and, bitOf_mask hk hi, bitOf_zero]
    by_cases hik : i = k
    · rw [hik, Bool.not_eq_true] at *
      rw [hbit, Bool.false_and]
    · rw [decide_eq_false hik, Bool.and_false]
  · intro hbit hzero
    have h := bitOf_and byte ((1 : UInt8) <<< UInt8.ofNat k) k
    rw [hzero, bitOf_zero, hbit, bitOf_mask hk hk] at h
    simp at h

/-- A byte below a power of two has no bit from it on. -/
theorem bitOf_of_lt {byte : UInt8} {n i : ℕ} (h : byte.toNat < 2 ^ n) (hi : n ≤ i) :
    bitOf byte i = false := by
  rw [bitOf, ← BitVec.testBit_toNat]
  exact Nat.testBit_lt_two_pow (h.trans_le (Nat.pow_le_pow_right (by decide) hi))

/-- A byte from its high bits and its low bits. -/
theorem shifted_or_mask (byte mask : UInt8) {k : ℕ} (hk : k < 8)
    (hmask : ∀ i < 8, bitOf mask i = decide (i < k)) :
    (byte >>> UInt8.ofNat k) <<< UInt8.ofNat k ||| byte &&& mask = byte := by
  apply bitOf_ext
  intro i hi
  rw [bitOf_or, bitOf_shiftLeft _ hk hi, bitOf_shiftRight _ hk, bitOf_and, hmask i hi]
  by_cases hle : k ≤ i
  · rw [decide_eq_true hle, decide_eq_false (by omega), Bool.true_and, Bool.and_false, Bool.or_false]
    congr 1
    omega
  · rw [decide_eq_false hle, decide_eq_true (by omega), Bool.false_and, Bool.and_true, Bool.false_or]

/-! ## Rows of bytes -/

def bitAt (bytes : List UInt8) (position : ℕ) : Bool :=
  bitOf (bytes.getD (position / 8) 0) (position % 8)

theorem bitAt_replicate (n position : ℕ) : bitAt (List.replicate n 0) position = false := by
  rw [bitAt, List.getD_eq_getElem?_getD, List.getElem?_replicate]
  split_ifs <;> exact bitOf_zero _

/-- Sets one bit. A position behind the bytes has none. -/
def setBit (bytes : List UInt8) (position : ℕ) : Option (List UInt8) :=
  if position / 8 < bytes.length then
    some (bytes.modify (position / 8) fun byte => byte ||| (1 : UInt8) <<< UInt8.ofNat (position % 8))
  else none

theorem setBit_eq {bytes : List UInt8} {position : ℕ} (h : position / 8 < bytes.length) :
    ∃ bytes', setBit bytes position = some bytes' ∧ bytes'.length = bytes.length ∧
      ∀ other, bitAt bytes' other = (bitAt bytes other || decide (other = position)) := by
  refine ⟨_, if_pos h, List.length_modify .., ?_⟩
  intro other
  have hmod : other % 8 < 8 := Nat.mod_lt _ (by decide)
  have hmod' : position % 8 < 8 := Nat.mod_lt _ (by decide)
  rw [bitAt, bitAt, List.getD_eq_getElem?_getD, List.getD_eq_getElem?_getD, List.getElem?_modify]
  by_cases hbyte : position / 8 = other / 8
  · have hhere := List.getElem?_eq_getElem (hbyte ▸ h)
    simp only [if_pos hbyte, hhere]
    show bitOf (_ ||| _) _ = (bitOf _ _ || _)
    rw [bitOf_or, bitOf_mask hmod' hmod]
    congr 1
    apply decide_eq_decide.mpr
    omega
  · have hne : other ≠ position := fun heq => hbyte (by rw [heq])
    simp only [if_neg hbyte, id_map', decide_eq_false hne, Bool.or_false]

end Framework

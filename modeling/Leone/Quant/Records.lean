import Mathlib
import Leone.Quant.Repack

/-!
# The records of a block

A 24-bit record holds two scales and two minima of six bits, and the twelve packed bytes of a block
hold eight of each.
-/

namespace Leone.Quant

open Framework

section Records

theorem toNat_and_63 (a : UInt8) : (a &&& 63).toNat = a.toNat % 64 := by
  rw [UInt8.toNat_and]
  exact Nat.and_two_pow_sub_one_eq_mod a.toNat 6

theorem toNat_and_15 (a : UInt8) : (a &&& 15).toNat = a.toNat % 16 := by
  rw [UInt8.toNat_and]
  exact Nat.and_two_pow_sub_one_eq_mod a.toNat 4

theorem toNat_shiftRight_6 (a : UInt8) : (a >>> 6).toNat = a.toNat / 64 := by
  rw [UInt8.toNat_shiftRight]
  exact Nat.shiftRight_eq_div_pow a.toNat 6

theorem toNat_shiftRight_4 (a : UInt8) : (a >>> 4).toNat = a.toNat / 16 := by
  rw [UInt8.toNat_shiftRight]
  exact Nat.shiftRight_eq_div_pow a.toNat 4

/-- A nibble below two bits. -/
theorem toNat_or_shiftLeft_4 {low high : UInt8} (hlow : low.toNat < 16) (hhigh : high.toNat < 4) :
    (low ||| (high <<< 4)).toNat = low.toNat + 16 * high.toNat := by
  rw [UInt8.toNat_or, UInt8.toNat_shiftLeft]
  change low.toNat ||| high.toNat <<< 4 % 256 = _
  have hsmall : high.toNat <<< 4 % 256 = high.toNat <<< 4 := by
    rw [Nat.shiftLeft_eq]
    omega
  rw [hsmall, Nat.or_comm, ← Nat.shiftLeft_add_eq_or_of_lt (by exact hlow), Nat.shiftLeft_eq]
  omega

/-- The scale and the minimum of an index of the packed bytes, as numbers. -/
theorem toNat_scaleMin (index : Nat) (packed : List UInt8) :
    ((scaleMin index packed).1.toNat, (scaleMin index packed).2.toNat) =
      if index < 4 then
        ((byteAt packed index).toNat % 64, (byteAt packed (index + 4)).toNat % 64)
      else
        ((byteAt packed (index + 4)).toNat % 16 + 16 * ((byteAt packed (index - 4)).toNat / 64),
          (byteAt packed (index + 4)).toNat / 16 + 16 * ((byteAt packed index).toNat / 64)) := by
  unfold scaleMin
  have hbyte := fun i => (byteAt packed i).toNat_lt
  split_ifs with h
  · rw [toNat_and_63, toNat_and_63]
  · have hlow := hbyte (index + 4)
    have hhigh := hbyte (index - 4)
    have hhigh' := hbyte index
    rw [toNat_or_shiftLeft_4 (by rw [toNat_and_15]; omega) (by rw [toNat_shiftRight_6]; omega),
      toNat_or_shiftLeft_4 (by rw [toNat_shiftRight_4]; omega) (by rw [toNat_shiftRight_6]; omega),
      toNat_and_15, toNat_shiftRight_6, toNat_shiftRight_4, toNat_shiftRight_6]

theorem scaleMin_lt (index : Nat) (packed : List UInt8) :
    (scaleMin index packed).1.toNat < 64 ∧ (scaleMin index packed).2.toNat < 64 := by
  have h := toNat_scaleMin index packed
  have hbyte := fun i => (byteAt packed i).toNat_lt
  have hlow := hbyte (index + 4)
  have hhigh := hbyte (index - 4)
  have hhigh' := hbyte index
  split_ifs at h
  all_goals
    rw [Prod.mk.injEq] at h
    omega

/-- A field above a lower field of `k` bits. -/
theorem toNat_or_shiftLeft {low high : UInt32} (k : UInt32) (hk : k.toNat < 32)
    (hlow : low.toNat < 2 ^ k.toNat) (hhigh : high.toNat * 2 ^ k.toNat < 2 ^ 32) :
    (low ||| (high <<< k)).toNat = low.toNat + 2 ^ k.toNat * high.toNat := by
  rw [UInt32.toNat_or, UInt32.toNat_shiftLeft, Nat.mod_eq_of_lt hk, Nat.shiftLeft_eq,
    Nat.mod_eq_of_lt hhigh, ← Nat.shiftLeft_eq, Nat.or_comm,
    ← Nat.shiftLeft_add_eq_or_of_lt hlow, Nat.shiftLeft_eq]
  ring

variable {scale0 scale1 minimum0 minimum1 : UInt8}

theorem toNat_parametersOf (h0 : scale0.toNat < 64) (h1 : scale1.toNat < 64)
    (hm0 : minimum0.toNat < 64) (hm1 : minimum1.toNat < 64) :
    (parametersOf scale0 scale1 minimum0 minimum1).toNat =
      scale0.toNat + 64 * scale1.toNat + 4096 * minimum0.toNat + 262144 * minimum1.toNat := by
  have hfirst : (scale0.toUInt32 ||| (scale1.toUInt32 <<< 6)).toNat
      = scale0.toNat + 64 * scale1.toNat :=
    toNat_or_shiftLeft 6 (by decide) h0 (by simp; omega)
  have hsecond : (scale0.toUInt32 ||| (scale1.toUInt32 <<< 6) |||
      (minimum0.toUInt32 <<< 12)).toNat
      = scale0.toNat + 64 * scale1.toNat + 4096 * minimum0.toNat := by
    rw [toNat_or_shiftLeft 12 (by decide) (by rw [hfirst]; simp; omega) (by simp; omega), hfirst]
    rfl
  rw [parametersOf, toNat_or_shiftLeft 18 (by decide) (by rw [hsecond]; simp; omega)
    (by simp; omega), hsecond]
  rfl

theorem toNat_groupParameters (metadata : List UInt8) (group : Nat) :
    (groupParameters metadata group).toNat = (byteAt metadata (4 + group)).toNat +
      256 * (byteAt metadata (8 + group)).toNat + 65536 * (byteAt metadata (12 + group)).toNat := by
  have h0 := (byteAt metadata (4 + group)).toNat_lt
  have h1 := (byteAt metadata (8 + group)).toNat_lt
  have h2 := (byteAt metadata (12 + group)).toNat_lt
  have hfirst : ((byteAt metadata (4 + group)).toUInt32 |||
      ((byteAt metadata (8 + group)).toUInt32 <<< 8)).toNat
      = (byteAt metadata (4 + group)).toNat + 256 * (byteAt metadata (8 + group)).toNat :=
    toNat_or_shiftLeft 8 (by decide) h0 (by simp; omega)
  rw [groupParameters, toNat_or_shiftLeft 16 (by decide) (by rw [hfirst]; simp; omega)
    (by simp; omega), hfirst]
  rfl

theorem toNat_field (parameters k : UInt32) (hk : k.toNat < 32) :
    ((parameters >>> k) &&& 63).toUInt8.toNat = parameters.toNat / 2 ^ k.toNat % 64 := by
  rw [UInt32.toNat_toUInt8, UInt32.toNat_and, UInt32.toNat_shiftRight, Nat.mod_eq_of_lt hk,
    Nat.shiftRight_eq_div_pow]
  have hmask := Nat.and_two_pow_sub_one_eq_mod (parameters.toNat / 2 ^ k.toNat) 6
  change (_ &&& 63) % 256 = _
  rw [show (63 : Nat) = 2 ^ 6 - 1 from rfl, hmask]
  omega

/-- The three bytes of a record. -/
def RecordAt (metadata : List UInt8) (group : Nat) (parameters : UInt32) : Prop :=
  byteAt metadata (4 + group) = parameters.toUInt8 ∧
    byteAt metadata (8 + group) = (parameters >>> 8).toUInt8 ∧
    byteAt metadata (12 + group) = (parameters >>> 16).toUInt8

theorem groupParameters_eq {metadata : List UInt8} {group : Nat} {parameters : UInt32}
    (hbits : parameters.toNat < 2 ^ 24) (h : RecordAt metadata group parameters) :
    groupParameters metadata group = parameters := by
  apply UInt32.toNat_inj.mp
  obtain ⟨h0, h1, h2⟩ := h
  rw [toNat_groupParameters, h0, h1, h2, UInt32.toNat_toUInt8, UInt32.toNat_toUInt8,
    UInt32.toNat_toUInt8, UInt32.toNat_shiftRight, UInt32.toNat_shiftRight,
    Nat.shiftRight_eq_div_pow, Nat.shiftRight_eq_div_pow]
  change parameters.toNat % 256 + 256 * (parameters.toNat / 256 % 256)
    + 65536 * (parameters.toNat / 65536 % 256) = parameters.toNat
  omega

/-- The fields of a record are the scales and minima it was made from. -/
theorem fields_parametersOf (h0 : scale0.toNat < 64) (h1 : scale1.toNat < 64)
    (hm0 : minimum0.toNat < 64) (hm1 : minimum1.toNat < 64) :
    (parametersOf scale0 scale1 minimum0 minimum1 &&& (63 : UInt32)).toUInt8 = scale0 ∧
    ((parametersOf scale0 scale1 minimum0 minimum1 >>> 6) &&& 63).toUInt8 = scale1 ∧
    ((parametersOf scale0 scale1 minimum0 minimum1 >>> 12) &&& 63).toUInt8 = minimum0 ∧
    ((parametersOf scale0 scale1 minimum0 minimum1 >>> 18) &&& 63).toUInt8 = minimum1 := by
  have hvalue := toNat_parametersOf h0 h1 hm0 hm1
  generalize parametersOf scale0 scale1 minimum0 minimum1 = parameters at hvalue
  have hzero : parameters &&& (63 : UInt32) = (parameters >>> 0) &&& 63 := by
    rw [UInt32.shiftRight_zero]
  refine ⟨?_, ?_, ?_, ?_⟩
  all_goals
    apply UInt8.toNat_inj.mp
  · rw [hzero, toNat_field parameters 0 (by decide), hvalue]
    change _ / 1 % 64 = _
    omega
  · rw [toNat_field parameters 6 (by decide), hvalue]
    change _ / 64 % 64 = _
    omega
  · rw [toNat_field parameters 12 (by decide), hvalue]
    change _ / 4096 % 64 = _
    omega
  · rw [toNat_field parameters 18 (by decide), hvalue]
    change _ / 262144 % 64 = _
    omega

theorem parametersOf_lt (h0 : scale0.toNat < 64) (h1 : scale1.toNat < 64)
    (hm0 : minimum0.toNat < 64) (hm1 : minimum1.toNat < 64) :
    (parametersOf scale0 scale1 minimum0 minimum1).toNat < 2 ^ 24 := by
  rw [toNat_parametersOf h0 h1 hm0 hm1]
  omega

/-- The packed bytes are determined by the scales and minima they hold. -/
theorem packed_determined {packed packed' : List UInt8} (hlen : packed.length = 12)
    (hlen' : packed'.length = 12) (h : ∀ index < 8, scaleMin index packed = scaleMin index packed') :
    packed = packed' := by
  have hbyte : ∀ index < 4, byteAt packed index = byteAt packed' index ∧
      byteAt packed (index + 4) = byteAt packed' (index + 4) ∧
      byteAt packed (index + 8) = byteAt packed' (index + 8) := by
    intro index hindex
    have hlow := toNat_scaleMin index packed
    have hhigh := toNat_scaleMin (index + 4) packed
    rw [h index (by omega), toNat_scaleMin, if_pos hindex, if_pos hindex, Prod.mk.injEq] at hlow
    rw [h (index + 4) (by omega), toNat_scaleMin, if_neg (by omega), if_neg (by omega),
      Prod.mk.injEq] at hhigh
    rw [show index + 4 - 4 = index by omega, show index + 4 + 4 = index + 8 by omega] at hhigh
    have hlt := fun i => (byteAt packed i).toNat_lt
    have hlt' := fun i => (byteAt packed' i).toNat_lt
    have hlow8 := hlt (index + 8)
    have hlow8' := hlt' (index + 8)
    refine ⟨?_, ?_, ?_⟩
    all_goals
      apply UInt8.toNat_inj.mp
      omega
  apply List.ext_getElem (hlen.trans hlen'.symm)
  intro i hi hi'
  have hget : byteAt packed i = byteAt packed' i := by
    obtain ⟨index, hindex, hcases⟩ : ∃ index < 4, i = index ∨ i = index + 4 ∨ i = index + 8 :=
      ⟨i % 4, Nat.mod_lt _ (by decide), by omega⟩
    obtain ⟨hfirst, hsecond, hthird⟩ := hbyte index hindex
    rcases hcases with rfl | rfl | rfl
    · exact hfirst
    · exact hsecond
    · exact hthird
  simpa only [byteAt, List.getD_eq_getElem?_getD, List.getElem?_eq_getElem hi,
    List.getElem?_eq_getElem hi', Option.getD_some] using hget

end Records

end Leone.Quant

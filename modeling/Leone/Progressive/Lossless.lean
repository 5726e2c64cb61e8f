import Leone.Progressive.Codes

/-!
# Planes keep their codes

A packed plane has the bits of each value in its field, so reading the fields gives the values back.
-/

namespace Leone.Progressive

open Framework

theorem foldlM_range_succ {ε α : Type} (f : α → Nat → Except ε α) (a : α) (n : Nat) :
    (List.range (n + 1)).foldlM f a = (List.range n).foldlM f a >>= fun b => f b n := by
  rw [List.range_succ, List.foldlM_append]
  simp only [List.foldlM_cons, List.foldlM_nil, bind_pure]

/-! ## Packing -/

/-- A packed field has the bits of its value, and the other bits are as they were. -/
theorem packField_ok {bits start : Nat} (value : UInt8) {output : List UInt8} (hbits : bits ≤ 8)
    (hfits : start + bits ≤ 8 * output.length) :
    ∃ output', packField bits start value output = .ok output' ∧ output'.length = output.length ∧
      ∀ p, bitAt output' p =
        (bitAt output p || (decide (start ≤ p ∧ p < start + bits) && bitOf value (p - start))) := by
  induction bits with
  | zero =>
    refine ⟨output, rfl, rfl, ?_⟩
    intro p
    rw [decide_eq_false (by omega), Bool.false_and, Bool.or_false]
  | succ bits ih =>
    rcases ih (by omega) (by omega) with ⟨before, hrun, hlength, hbefore⟩
    have hstep : packField (bits + 1) start value output =
        if value &&& 1 <<< UInt8.ofNat bits ≠ 0 then orPanic (setBit before (start + bits))
        else .ok before := by
      unfold packField at hrun ⊢
      rw [foldlM_range_succ, hrun]
      rfl
    rw [hstep]
    by_cases hbit : bitOf value bits = true
    · have hroom : (start + bits) / 8 < before.length := by omega
      rcases setBit_eq hroom with ⟨after, hset, hlength', hafter⟩
      refine ⟨after, ?_, hlength'.trans hlength, ?_⟩
      · rw [if_pos ((and_mask_ne_zero value (by omega)).mpr hbit), hset]
        rfl
      · intro p
        rw [hafter, hbefore, Bool.or_assoc]
        congr 1
        by_cases hp : p = start + bits
        · simp [hp, hbit]
        · rw [decide_eq_false hp, Bool.or_false]
          congr 1
          apply decide_eq_decide.mpr
          omega
    · refine ⟨before, ?_, hlength, ?_⟩
      · rw [if_neg fun h => hbit ((and_mask_ne_zero value (by omega)).mp h)]
      · intro p
        rw [hbefore]
        congr 1
        by_cases hp : p = start + bits
        · simp [hp, hbit]
        · congr 1
          apply decide_eq_decide.mpr
          omega

/-- Packed fields follow each other. -/
theorem packFields_ok {bits : Nat} (hpos : 0 < bits) (hbits : bits ≤ 8) {values output : List UInt8}
    {k : Nat} (hfits : (k + values.length) * bits ≤ 8 * output.length) :
    ∃ output', (values.zipIdx k).foldlM (fun output entry =>
        packField bits (entry.2 * bits) entry.1 output) output = .ok output' ∧
      output'.length = output.length ∧ ∀ p, bitAt output' p = (bitAt output p ||
        (decide (k ≤ p / bits ∧ p / bits < k + values.length) &&
          bitOf (values.getD (p / bits - k) 0) (p % bits))) := by
  induction values generalizing k output with
  | nil =>
    refine ⟨output, rfl, rfl, ?_⟩
    intro p
    rw [decide_eq_false (by rw [List.length_nil]; omega), Bool.false_and, Bool.or_false]
  | cons value values ih =>
    rw [List.length_cons] at hfits
    have hfield : k * bits + bits ≤ 8 * output.length := by
      have h := Nat.mul_le_mul_right bits (show k + 1 ≤ k + (values.length + 1) by omega)
      rw [Nat.succ_mul] at h
      omega
    rcases packField_ok value hbits hfield with ⟨first, hrun, hlength, hfirst⟩
    have hrest : (k + 1 + values.length) * bits ≤ 8 * first.length := by
      rw [hlength, Nat.add_assoc, Nat.add_comm 1]
      exact hfits
    rcases ih hrest with ⟨output', hfold, hlength', hafter⟩
    refine ⟨output', ?_, hlength'.trans hlength, ?_⟩
    · rw [List.zipIdx_cons, List.foldlM_cons, hrun]
      exact hfold
    · intro p
      rw [hafter, hfirst, Bool.or_assoc, List.length_cons]
      congr 1
      have hmod := Nat.div_add_mod p bits
      have hlt := Nat.mod_lt p hpos
      rw [Nat.mul_comm] at hmod
      by_cases hhere : p / bits = k
      · rw [hhere] at hmod
        have hoffset : p - k * bits = p % bits := by omega
        rw [hhere, Nat.sub_self, List.getD_cons_zero, hoffset,
          decide_eq_true (show k * bits ≤ p ∧ p < k * bits + bits by omega),
          decide_eq_false (show ¬ (k + 1 ≤ k ∧ k < k + 1 + values.length) by omega),
          decide_eq_true (show k ≤ k ∧ k < k + (values.length + 1) by omega), Bool.false_and,
          Bool.or_false]
      · have houtside : ¬ (k * bits ≤ p ∧ p < k * bits + bits) := by
          intro hin
          apply hhere
          apply Nat.div_eq_of_lt_le
          · exact hin.1
          · rw [Nat.succ_mul]
            exact hin.2
        rw [decide_eq_false houtside, Bool.false_and, Bool.false_or]
        by_cases hlater : k + 1 ≤ p / bits
        · have hindex : p / bits - k = p / bits - (k + 1) + 1 := by omega
          rw [hindex, List.getD_cons_succ]
          congr 1
          apply decide_eq_decide.mpr
          omega
        · rw [decide_eq_false (by omega), decide_eq_false (by omega), Bool.false_and, Bool.false_and]

/-! ## Unpacking -/

theorem unpackField_ok {bytes : List UInt8} {bits start : Nat} (hbits : bits ≤ 8)
    (hfits : start + bits ≤ 8 * bytes.length) :
    ∃ value, unpackField bytes bits start = .ok value ∧
      ∀ i < 8, bitOf value i = (decide (i < bits) && bitAt bytes (start + i)) := by
  induction bits with
  | zero =>
    refine ⟨0, rfl, ?_⟩
    intro i _
    rw [bitOf_zero, decide_eq_false (Nat.not_lt_zero i), Bool.false_and]
  | succ bits ih =>
    rcases ih (by omega) (by omega) with ⟨value, hrun, hvalue⟩
    have hbyte : (start + bits) / 8 < bytes.length := by omega
    have hmod : (start + bits) % 8 < 8 := Nat.mod_lt _ (by decide)
    refine ⟨value ||| (bytes.getD ((start + bits) / 8) 0 >>> UInt8.ofNat ((start + bits) % 8) &&& 1)
      <<< UInt8.ofNat bits, ?_, ?_⟩
    · unfold unpackField at hrun ⊢
      rw [foldlM_range_succ, hrun, List.getD_eq_getElem?_getD]
      show (orPanic bytes[(start + bits) / 8]? >>= _) = _
      rw [List.getElem?_eq_getElem hbyte]
      rfl
    · intro i hi
      rw [bitOf_or, hvalue i hi, bitOf_shiftLeft _ (by omega) hi, bitOf_and, bitOf_one,
        bitOf_shiftRight _ hmod]
      by_cases hhere : i = bits
      · rw [hhere, Nat.sub_self, decide_eq_false (Nat.lt_irrefl bits),
          decide_eq_true (Nat.le_refl bits), decide_eq_true (Nat.lt_succ_self bits)]
        simp [bitAt]
      · rw [decide_eq_decide.mpr (show i < bits ↔ i < bits + 1 by omega)]
        by_cases hle : bits ≤ i
        · rw [decide_eq_false (show ¬ i - bits = 0 by omega), Bool.and_false, Bool.and_false,
            Bool.or_false]
        · rw [decide_eq_false hle, Bool.false_and, Bool.or_false]

theorem mapM_ok {ε α β : Type} {f : α → Except ε β} {xs : List α} {g : α → β}
    (h : ∀ x ∈ xs, f x = .ok (g x)) : xs.mapM f = .ok (xs.map g) := by
  induction xs with
  | nil => rfl
  | cons x xs ih =>
    rw [List.forall_mem_cons] at h
    rw [List.mapM_cons, h.1, ih h.2]
    rfl

/-! ## Planes -/

/-- Values that fit their fields. -/
def Fits (bits : Nat) (values : List UInt8) : Prop := ∀ value ∈ values, value.toNat < 2 ^ bits

theorem packedLen_ok {values bits : Nat} (h : values * bits + 7 < 2 ^ 64) :
    packedLen values bits = .ok ((values * bits + 7) / 8) := by
  have hmul : checkedMul 64 values bits = some (values * bits) :=
    checkedMul_eq_some.mpr ⟨by omega, rfl⟩
  have hadd : checkedAdd 64 (values * bits) 7 = some (values * bits + 7) :=
    checkedAdd_eq_some.mpr ⟨h, rfl⟩
  rw [packedLen, hmul, Option.bind_some, hadd]

/-- A plane is packed into its length, and its values are read back. -/
theorem unpack_pack {bits : Nat} (hpos : 0 < bits) (hbits : bits ≤ 8) {values : List UInt8}
    (hsize : values.length * bits + 7 < 2 ^ 64) (hvalues : Fits bits values) :
    ∃ bytes, pack values bits = .ok bytes ∧ bytes.length = (values.length * bits + 7) / 8 ∧
      unpack bytes bits values.length = .ok values := by
  have hlength : (List.replicate ((values.length * bits + 7) / 8) (0 : UInt8)).length =
    (values.length * bits + 7) / 8 := List.length_replicate
  have hroom : (0 + values.length) * bits ≤
      8 * (List.replicate ((values.length * bits + 7) / 8) (0 : UInt8)).length := by
    rw [hlength, Nat.zero_add]
    omega
  rcases packFields_ok hpos hbits hroom with ⟨bytes, hfold, hsame, hbytes⟩
  rw [hlength] at hsame
  refine ⟨bytes, ?_, hsame, ?_⟩
  · rw [pack, packedLen_ok hsize]
    exact hfold
  · have hfield : ∀ index ∈ List.range values.length,
        unpackField bytes bits (index * bits) = .ok (values.getD index 0) := by
      intro index hindex
      rw [List.mem_range] at hindex
      have hend := Nat.mul_le_mul_right bits hindex
      rw [Nat.succ_mul] at hend
      have hinside : index * bits + bits ≤ 8 * bytes.length := by omega
      rcases unpackField_ok hbits hinside with ⟨value, hvalue, hread⟩
      rw [hvalue]
      congr 1
      apply bitOf_ext
      intro i hi
      rw [hread i hi]
      by_cases hlow : i < bits
      · have hdiv : (index * bits + i) / bits = index := by
          apply Nat.div_eq_of_lt_le
          · omega
          · rw [Nat.succ_mul]
            omega
        have hmod : (index * bits + i) % bits = i := by
          rw [Nat.mul_comm, Nat.mul_add_mod, Nat.mod_eq_of_lt hlow]
        rw [decide_eq_true hlow, hbytes, bitAt_replicate, hdiv, hmod, decide_eq_true (by omega)]
        simp
      · have hmem : values.getD index 0 ∈ values := by
          rw [List.getD_eq_getElem?_getD, List.getElem?_eq_getElem hindex, Option.getD_some]
          exact List.getElem_mem hindex
        rw [decide_eq_false hlow, Bool.false_and, bitOf_of_lt (hvalues _ hmem) (by omega)]
    rw [unpack, mapM_ok hfield]
    congr 1
    apply List.ext_getElem
    · rw [List.length_map, List.length_range]
    · intro index h h'
      rw [List.getElem_map, List.getElem_range, List.getD_eq_getElem?_getD,
        List.getElem?_eq_getElem h', Option.getD_some]

/-! ## Codes -/

namespace ProgressiveWidth

theorem refinementBits_pos (width : ProgressiveWidth) : 0 < width.refinementBits := by
  cases width <;> decide

theorem refinementBits_lt (width : ProgressiveWidth) : width.refinementBits < 8 := by
  cases width <;> decide

/-- A code in range has a base of two bits. -/
theorem base_lt (width : ProgressiveWidth) {code : UInt8} (h : code ≤ width.maximumCode) :
    (code >>> UInt8.ofNat width.refinementBits).toNat < 2 ^ baseBits := by
  have hle := UInt8.le_iff_toNat_le.mp h
  rw [UInt8.toNat_shiftRight, Nat.shiftRight_eq_div_pow]
  cases width with
  | q4 =>
    replace hle : code.toNat ≤ 15 := hle
    show code.toNat / 2 ^ 2 < 2 ^ 2
    omega
  | q6 =>
    replace hle : code.toNat ≤ 63 := hle
    show code.toNat / 2 ^ 4 < 2 ^ 2
    omega

def refinementMask (width : ProgressiveWidth) : UInt8 := (1 <<< UInt8.ofNat width.refinementBits) - 1

theorem bitOf_refinementMask (width : ProgressiveWidth) {i : Nat} (hi : i < 8) :
    bitOf width.refinementMask i = decide (i < width.refinementBits) := by
  cases width <;> interval_cases i <;> rfl

theorem refinement_lt (width : ProgressiveWidth) (code : UInt8) :
    (code &&& width.refinementMask).toNat < 2 ^ width.refinementBits := by
  rw [UInt8.toNat_and]
  cases width with
  | q4 => exact Nat.and_lt_two_pow _ (show 3 < 2 ^ 2 by decide)
  | q6 => exact Nat.and_lt_two_pow _ (show 15 < 2 ^ 4 by decide)

end ProgressiveWidth

namespace ProgressiveCodes

variable {width : ProgressiveWidth} {codes : List UInt8}

theorem checkCodes_ok (h : ∀ code ∈ codes, code ≤ width.maximumCode) :
    checkCodes width codes = .ok () := by
  have hall : ∀ k, (codes.zipIdx k).forM (fun entry =>
      if width.maximumCode < entry.1 then
        .error (.error (.codeOutOfRange entry.2 entry.1 width.targetBits))
      else .ok () : UInt8 × Nat → Except (Fault ProgressiveError) Unit) = .ok () := by
    induction codes with
    | nil => exact fun k => rfl
    | cons code codes ih =>
      intro k
      rw [List.forall_mem_cons] at h
      rw [List.zipIdx_cons, List.forM_eq_forM, List.forM_cons, if_neg (UInt8.not_lt.mpr h.1)]
      exact ih h.2 (k + 1)
  exact hall 0

theorem checkCodes_error (h : ∃ code ∈ codes, width.maximumCode < code) :
    ∃ fault, checkCodes width codes = .error fault := by
  have hsome : ∀ k, ∃ fault, (codes.zipIdx k).forM (fun entry =>
      if width.maximumCode < entry.1 then
        .error (.error (.codeOutOfRange entry.2 entry.1 width.targetBits))
      else .ok () : UInt8 × Nat → Except (Fault ProgressiveError) Unit) = .error fault := by
    induction codes with
    | nil =>
      rcases h with ⟨_, hmem, _⟩
      cases hmem
    | cons code codes ih =>
      intro k
      by_cases hcode : width.maximumCode < code
      · refine ⟨.error (.codeOutOfRange k code width.targetBits), ?_⟩
        rw [List.zipIdx_cons, List.forM_eq_forM, List.forM_cons, if_pos hcode]
        rfl
      · rcases h with ⟨other, hmem, hother⟩
        rcases List.mem_cons.mp hmem with rfl | hmem
        · exact (hcode hother).elim
        · rw [List.zipIdx_cons, List.forM_eq_forM, List.forM_cons, if_neg hcode]
          exact ih ⟨other, hmem, hother⟩ (k + 1)
  exact hsome 0

/-- Codes in range are split into planes that hold them. -/
theorem encode_ok (h : ∀ code ∈ codes, code ≤ width.maximumCode)
    (hsize : codes.length * width.refinementBits + 7 < 2 ^ 64) :
    ∃ encoded, encode width codes = .ok encoded ∧ decodeComplete encoded = .ok codes ∧
      decodeBase encoded = .ok (codes.map (· >>> UInt8.ofNat width.refinementBits)) := by
  have hbase : Fits baseBits (codes.map (· >>> UInt8.ofNat width.refinementBits)) := by
    intro value hvalue
    rcases List.mem_map.mp hvalue with ⟨code, hcode, rfl⟩
    exact width.base_lt (h code hcode)
  have hrefinement : Fits width.refinementBits (codes.map (· &&& width.refinementMask)) := by
    intro value hvalue
    rcases List.mem_map.mp hvalue with ⟨code, _, rfl⟩
    exact width.refinement_lt code
  have hbits : baseBits ≤ width.refinementBits := by cases width <;> decide
  have hsize' : codes.length * baseBits + 7 < 2 ^ 64 := by
    have hle := Nat.mul_le_mul_left codes.length hbits
    omega
  rcases unpack_pack (show 0 < baseBits by decide) (by decide)
    (by rw [List.length_map]; exact hsize') hbase with ⟨base, hpack, hlength, hunpack⟩
  rcases unpack_pack width.refinementBits_pos width.refinementBits_lt.le
    (by rw [List.length_map]; exact hsize) hrefinement with ⟨refinement, hpack', hlength', hunpack'⟩
  rw [List.length_map] at hlength hunpack hlength' hunpack'
  have hvalid : validatePlaneSizes ⟨width, codes.length, base, refinement⟩ = .ok () := by
    simp [validatePlaneSizes, packedLen_ok hsize', packedLen_ok hsize, hlength, hlength', bind,
      Except.bind, pure, Except.pure]
  refine ⟨⟨width, codes.length, base, refinement⟩, ?_, ?_, ?_⟩
  · rw [encode, checkCodes_ok h]
    show (pack _ baseBits >>= fun base => pack (codes.map (· &&& width.refinementMask)) _ >>= fun _ => _) = _
    rw [hpack]
    show (pack _ _ >>= _) = _
    rw [hpack']
    rfl
  · rw [decodeComplete, hvalid]
    show (unpack base baseBits codes.length >>= _) = _
    rw [hunpack]
    show (unpack refinement width.refinementBits codes.length >>= _) = _
    rw [hunpack']
    show Except.ok (List.zipWith _ _ _) = _
    rw [List.zipWith_map, List.zipWith_self]
    congr 1
    apply List.map_id''
    intro code
    exact shifted_or_mask code _ width.refinementBits_lt fun i hi => width.bitOf_refinementMask hi
  · rw [decodeBase, hvalid]
    exact hunpack

/-- A list of codes is refused exactly when one is out of range. Otherwise its planes hold it. -/
theorem encode_lossless (width : ProgressiveWidth) (codes : List UInt8)
    (hsize : codes.length * width.refinementBits + 7 < 2 ^ 64) :
    ((∃ fault, encode width codes = .error fault) ↔ ∃ code ∈ codes, width.maximumCode < code) ∧
      ((∀ code ∈ codes, code ≤ width.maximumCode) → ∃ encoded, encode width codes = .ok encoded ∧
        decodeComplete encoded = .ok codes ∧
        decodeBase encoded = .ok (codes.map (· >>> UInt8.ofNat width.refinementBits))) := by
  refine ⟨⟨?_, ?_⟩, fun h => encode_ok h hsize⟩
  · intro hfault
    rcases hfault with ⟨fault, hfault⟩
    by_contra hnone
    have hrange : ∀ code ∈ codes, code ≤ width.maximumCode := by
      intro code hcode
      exact UInt8.not_lt.mp fun hlt => hnone ⟨code, hcode, hlt⟩
    rcases encode_ok hrange hsize with ⟨encoded, hencoded, _⟩
    rw [hfault] at hencoded
    cases hencoded
  · intro hcode
    rcases checkCodes_error hcode with ⟨fault, hfault⟩
    refine ⟨fault, ?_⟩
    rw [encode, hfault]
    rfl

/-- Five codes leave both planes inside a byte. -/
theorem encode_lossless_five :
    ((∃ fault, encode .q4 [0, 15, 3, 12, 7] = .error fault) ↔
        ∃ code ∈ ([0, 15, 3, 12, 7] : List UInt8), ProgressiveWidth.q4.maximumCode < code) ∧
      ((∀ code ∈ ([0, 15, 3, 12, 7] : List UInt8), code ≤ ProgressiveWidth.q4.maximumCode) →
        ∃ encoded, encode .q4 [0, 15, 3, 12, 7] = .ok encoded ∧
          decodeComplete encoded = .ok [0, 15, 3, 12, 7] ∧
          decodeBase encoded =
            .ok (([0, 15, 3, 12, 7] : List UInt8).map (· >>> UInt8.ofNat 2))) :=
  encode_lossless .q4 [0, 15, 3, 12, 7] (by decide)

end ProgressiveCodes

end Leone.Progressive

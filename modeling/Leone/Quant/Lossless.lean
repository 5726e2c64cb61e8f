import Mathlib
import Leone.Quant.Records
import Leone.Quant.Layout

/-!
# The repack is lossless

A block and its two regions determine each other, and both decoders apply the same arithmetic to the
same scales, minima and codes.
-/

namespace Leone.Quant

open Framework

section Blocks

variable {source : List UInt8}

theorem byteAt_slice (bytes : List UInt8) {start stop i : Nat} (hi : i < stop - start) :
    byteAt (slice bytes start stop) i = byteAt bytes (start + i) :=
  getD_slice bytes hi 0

theorem byteAt_drop (bytes : List UInt8) (start i : Nat) :
    byteAt (bytes.drop start) i = byteAt bytes (start + i) := by
  simp only [byteAt, List.getD_eq_getElem?_getD, List.getElem?_drop]

theorem byteAt_append_left {left right : List UInt8} {i : Nat} (h : i < left.length) :
    byteAt (left ++ right) i = byteAt left i := by
  simp only [byteAt, List.getD_eq_getElem?_getD, List.getElem?_append_left h]

theorem byteAt_append_right {left right : List UInt8} {n i : Nat} (h : left.length = n) :
    byteAt (left ++ right) (n + i) = byteAt right i := by
  simp only [byteAt, List.getD_eq_getElem?_getD, ← h,
    List.getElem?_append_right (Nat.le_add_right left.length i), Nat.add_sub_cancel_left]

/-- A striped index finds the byte of the original index. -/
theorem byteAt_stripes (h : 32 ≤ source.length) {i : Nat} (hi : i < 32) :
    byteAt (stripes source) (stripedIndex i) = byteAt source i := by
  have hlane : i % 16 / 4 < 4 := by omega
  have hwithin : i / 16 * 4 + i % 16 % 4 < (i % 16 / 4 + 1) * 8 - i % 16 / 4 * 8 := by omega
  have hslice := slice_flatMap_range (fun _ hl => length_lane h hl) hlane
  have hindex : stripedIndex i = i % 16 / 4 * 8 + (i / 16 * 4 + i % 16 % 4) := by
    simp only [stripedIndex]
    omega
  have hlow : (slice source (i % 16 / 4 * 4) (i % 16 / 4 * 4 + 4)).length = 4 := by
    rw [length_slice _ (by omega)]
    omega
  rw [hindex, ← byteAt_slice _ hwithin, stripes, hslice, lane]
  by_cases hhalf : i < 16
  · have hzero : i / 16 * 4 + i % 16 % 4 = i % 16 % 4 := by omega
    rw [hzero, byteAt_append_left (by omega), byteAt_slice _ (by omega)]
    congr 1
    omega
  · have hone : i / 16 * 4 + i % 16 % 4 = 4 + i % 16 % 4 := by omega
    rw [hone, byteAt_append_right hlow, byteAt_slice _ (by omega)]
    congr 1
    omega

/-- The codes of a group of a block, in file order. -/
def groupQuants (source : List UInt8) (group : Nat) : List UInt8 :=
  (List.range 32).map fun i => byteAt source (16 + group * 32 + i)

theorem striped_quants (h : source.length = 144) {group : Nat} (hgroup : group < 4) :
    (List.range 32).map (fun i =>
      byteAt (slice (codesOf source) (group * 32) (group * 32 + 32)) (stripedIndex i)) =
      groupQuants source group := by
  have hslice : slice (codesOf source) (group * 32) (group * 32 + 32) =
      stripes (source.drop (q4kMetadataBytes + group * 32)) := by
    have hregion := slice_flatMap_range
      (fun _ hl => length_stripes (le_length_drop h hl)) hgroup
    rwa [Nat.succ_mul] at hregion
  apply List.map_congr_left
  intro i hi
  rw [hslice, byteAt_stripes (le_length_drop h hgroup) (List.mem_range.mp hi), byteAt_drop]
  rfl

/-- A list of bytes is the list of its bytes by index. -/
theorem map_byteAt {bytes : List UInt8} {n : Nat} (h : bytes.length = n) :
    (List.range n).map (byteAt bytes) = bytes := by
  apply List.ext_getElem
  · rw [List.length_map, List.length_range, h]
  · intro i _ hi
    simp [byteAt, hi]

theorem chunk_quants (h : source.length = 144) {group : Nat} (hgroup : group < 4) :
    slice (slice source 16 144) (group * 32) ((group + 1) * 32) = groupQuants source group := by
  have hlen : (slice source 16 144).length = 128 := length_slice _ (by omega)
  have hchunk : (slice (slice source 16 144) (group * 32) ((group + 1) * 32)).length = 32 := by
    rw [length_slice _ (by omega)]
    omega
  rw [← map_byteAt hchunk]
  apply List.map_congr_left
  intro i hi
  have hlt := List.mem_range.mp hi
  rw [byteAt_slice _ (by omega), byteAt_slice _ (by omega), Nat.add_assoc]

theorem byteAt_metadataOf_head (h : source.length = 144) {i : Nat} (hi : i < 4) :
    byteAt (metadataOf source) i = byteAt source i := by
  have hlen : (source.take 4).length = 4 := by
    rw [List.length_take, h]
    rfl
  rw [metadataOf, byteAt_append_left (by omega)]
  simp only [byteAt, List.getD_eq_getElem?_getD, List.getElem?_take_of_lt hi]

theorem byteAt_map_range (f : Nat → UInt8) {n i : Nat} (hi : i < n) :
    byteAt ((List.range n).map f) i = f i := by
  simp [byteAt, hi]

theorem recordAt_metadataOf (h : source.length = 144) {group : Nat} (hgroup : group < 4) :
    RecordAt (metadataOf source) group (recordOf source group) := by
  have hlen : (source.take 4).length = 4 := by
    rw [List.length_take, h]
    rfl
  have hfour : ∀ f : Nat → UInt8, ((List.range 4).map f).length = 4 := fun f => by simp
  have h8 : 8 + group = 4 + (4 + group) := by omega
  have h12 : 12 + group = 4 + (4 + (4 + group)) := by omega
  refine ⟨?_, ?_, ?_⟩
  · rw [metadataOf, byteAt_append_right hlen, byteAt_append_left (by rw [hfour]; exact hgroup),
      byteAt_map_range _ hgroup]
  · rw [metadataOf, h8, byteAt_append_right hlen, byteAt_append_right (hfour _),
      byteAt_append_left (by rw [hfour]; exact hgroup), byteAt_map_range _ hgroup]
  · rw [metadataOf, h12, byteAt_append_right hlen, byteAt_append_right (hfour _),
      byteAt_append_right (hfour _), byteAt_map_range _ hgroup]

theorem recordOf_lt (source : List UInt8) (group : Nat) : (recordOf source group).toNat < 2 ^ 24 :=
  parametersOf_lt (scaleMin_lt _ _).1 (scaleMin_lt _ _).1 (scaleMin_lt _ _).2 (scaleMin_lt _ _).2

theorem fields_recordOf (source : List UInt8) (group : Nat) :
    (recordOf source group &&& (63 : UInt32)).toUInt8
      = (scaleMin (group * 2) (slice source 4 16)).1 ∧
    ((recordOf source group >>> 6) &&& 63).toUInt8
      = (scaleMin (group * 2 + 1) (slice source 4 16)).1 ∧
    ((recordOf source group >>> 12) &&& 63).toUInt8
      = (scaleMin (group * 2) (slice source 4 16)).2 ∧
    ((recordOf source group >>> 18) &&& 63).toUInt8
      = (scaleMin (group * 2 + 1) (slice source 4 16)).2 :=
  fields_parametersOf (scaleMin_lt _ _).1 (scaleMin_lt _ _).1 (scaleMin_lt _ _).2
    (scaleMin_lt _ _).2

theorem scaleMin_of_recordOf {source' : List UInt8} {group : Nat}
    (h : recordOf source group = recordOf source' group) :
    scaleMin (group * 2) (slice source 4 16) = scaleMin (group * 2) (slice source' 4 16) ∧
      scaleMin (group * 2 + 1) (slice source 4 16)
        = scaleMin (group * 2 + 1) (slice source' 4 16) := by
  obtain ⟨h0, h1, h2, h3⟩ := fields_recordOf source group
  obtain ⟨h0', h1', h2', h3'⟩ := fields_recordOf source' group
  rw [h] at h0 h1 h2 h3
  exact ⟨Prod.ext (h0.symm.trans h0') (h2.symm.trans h2'),
    Prod.ext (h1.symm.trans h1') (h3.symm.trans h3')⟩

theorem groupParameters_metadataOf (h : source.length = 144) {group : Nat} (hgroup : group < 4) :
    groupParameters (metadataOf source) group = recordOf source group :=
  groupParameters_eq (recordOf_lt source group) (recordAt_metadataOf h hgroup)

variable {F : Type} (A : Arithmetic F)

/-- A group of a block as both decoders compute it. -/
def decodedGroup (source : List UInt8) (group : Nat) : List F :=
  let packed := slice source 4 16
  let d := half A source 0
  let dmin := half A source 2
  let d0 := A.mul d (A.ofByte (scaleMin (group * 2) packed).1)
  let d1 := A.mul d (A.ofByte (scaleMin (group * 2 + 1) packed).1)
  let m0 := A.mul dmin (A.ofByte (scaleMin (group * 2) packed).2)
  let m1 := A.mul dmin (A.ofByte (scaleMin (group * 2 + 1) packed).2)
  ((groupQuants source group).map fun (quant : UInt8) =>
    A.sub (A.mul d0 (A.ofByte (quant &&& 0x0f))) m0) ++
  (groupQuants source group).map fun (quant : UInt8) =>
    A.sub (A.mul d1 (A.ofByte (quant >>> 4))) m1

theorem length_decodedGroup (source : List UInt8) (group : Nat) :
    (decodedGroup A source group).length = 64 := by
  simp [decodedGroup, groupQuants]

theorem half_metadataOf (h : source.length = 144) :
    half A (metadataOf source) 0 = half A source 0 ∧
      half A (metadataOf source) 2 = half A source 2 := by
  constructor
  · rw [half, half, byteAt_metadataOf_head h (by decide), byteAt_metadataOf_head h (by decide)]
  · rw [half, half, byteAt_metadataOf_head h (by decide), byteAt_metadataOf_head h (by decide)]

theorem dequantizeBlock_eq (h : source.length = 144) :
    dequantizeBlock A (codesOf source) (metadataOf source) =
      (List.range 4).flatMap (decodedGroup A source) := by
  obtain ⟨hd, hdmin⟩ := half_metadataOf A h
  unfold dequantizeBlock
  rw [hd, hdmin]
  apply List.flatMap_congr
  intro group hmem
  have hgroup := List.mem_range.mp hmem
  obtain ⟨h0, h1, h2, h3⟩ := fields_recordOf source group
  dsimp only
  rw [groupParameters_metadataOf h hgroup, h0, h1, h2, h3, decodedGroup,
    ← striped_quants h hgroup, List.map_map, List.map_map]
  rfl

theorem dequantBlock_eq (h : source.length = 144) :
    dequantBlock A source = (List.range 4).flatMap (decodedGroup A source) := by
  have hchunks : chunksExact (slice source 16 144) 32 =
      (List.range 4).map (groupQuants source) := by
    have hlen : (slice source 16 144).length = 128 := length_slice _ (by omega)
    rw [chunksExact, hlen]
    apply List.map_congr_left
    intro group hmem
    exact chunk_quants h (List.mem_range.mp hmem)
  have hrange : List.range 4 = [0, 1, 2, 3] := by decide
  rw [dequantBlock, hchunks, hrange]
  simp only [List.map_cons, List.map_nil, dequantChunks, List.flatMap_cons, List.flatMap_nil,
    decodedGroup, List.append_assoc]

/-- A block is determined by its two regions. -/
theorem block_determined {source' : List UInt8} (h : source.length = 144)
    (h' : source'.length = 144) (hcodes : codesOf source = codesOf source')
    (hmetadata : metadataOf source = metadataOf source') : source = source' := by
  have hhead : ∀ i < 4, byteAt source i = byteAt source' i := by
    intro i hi
    rw [← byteAt_metadataOf_head h hi, hmetadata, byteAt_metadataOf_head h' hi]
  have hpacked : slice source 4 16 = slice source' 4 16 := by
    apply packed_determined (length_slice _ (by omega)) (length_slice _ (by omega))
    intro index hindex
    have hscales : ∀ group < 4, scaleMin (group * 2) (slice source 4 16)
          = scaleMin (group * 2) (slice source' 4 16) ∧
        scaleMin (group * 2 + 1) (slice source 4 16)
          = scaleMin (group * 2 + 1) (slice source' 4 16) := by
      intro group hgroup
      apply scaleMin_of_recordOf
      rw [← groupParameters_metadataOf h hgroup, hmetadata, groupParameters_metadataOf h' hgroup]
    obtain ⟨group, hgroup, hcases⟩ : ∃ group < 4, index = group * 2 ∨ index = group * 2 + 1 :=
      ⟨index / 2, by omega, by omega⟩
    rcases hcases with rfl | rfl
    · exact (hscales group hgroup).1
    · exact (hscales group hgroup).2
  have hquants : ∀ group < 4, groupQuants source group = groupQuants source' group := by
    intro group hgroup
    rw [← striped_quants h hgroup, hcodes, striped_quants h' hgroup]
  have hbyte : ∀ i < 144, byteAt source i = byteAt source' i := by
    intro i hi
    by_cases hlow : i < 4
    · exact hhead i hlow
    · by_cases hmid : i < 16
      · have hshift : i = 4 + (i - 4) := by omega
        rw [hshift, ← byteAt_slice source (show i - 4 < 16 - 4 by omega), hpacked,
          byteAt_slice source' (show i - 4 < 16 - 4 by omega)]
      · have hshift : i = 16 + (i - 16) / 32 * 32 + (i - 16) % 32 := by omega
        have hgroup := hquants ((i - 16) / 32) (by omega)
        have hget := congrArg (fun l => byteAt l ((i - 16) % 32)) hgroup
        dsimp only [groupQuants] at hget
        rw [byteAt_map_range _ (Nat.mod_lt _ (by decide)),
          byteAt_map_range _ (Nat.mod_lt _ (by decide)), ← hshift] at hget
        exact hget
  rw [← map_byteAt h, ← map_byteAt h']
  exact List.map_congr_left fun i hi => hbyte i (List.mem_range.mp hi)

end Blocks

section Files

variable {bytes : List UInt8} {blocks : Nat}

theorem checkedMul_eq {left right : Nat} (h : left * right ≤ usizeMax) :
    checkedMul left right = some (left * right) := if_pos h

theorem tryVec_ok {len size : Nat} (h : len * size ≤ isizeMax) (field : String) :
    tryVec len size field = .ok () := by
  have husize : len * size ≤ usizeMax := le_trans h (by decide)
  rw [tryVec, checkedMul_eq husize]
  exact if_pos h

theorem length_layoutOf (h : bytes.length = blocks * 144) :
    (layoutOf bytes blocks).length = bytes.length := by
  rw [layoutOf, List.length_append,
    length_flatMap_range fun k hk => length_codesOf (length_blockAt h hk),
    length_flatMap_range fun k hk => length_metadataOf (length_blockAt h hk), h]
  omega

/-- Whole blocks that fit in memory are repacked into their layout. -/
theorem repackQ4k_eq (hne : bytes ≠ []) (h : bytes.length = blocks * 144)
    (hsize : bytes.length ≤ isizeMax) : repackQ4k bytes = .ok (layoutOf bytes blocks) := by
  have hempty : bytes.isEmpty = false := by
    cases bytes with
    | nil => exact absurd rfl hne
    | cons _ _ => rfl
  have hmod : bytes.length % 144 = 0 := by rw [h, Nat.mul_mod_left]
  have hdiv : bytes.length / 144 = blocks := by rw [h, Nat.mul_div_cancel _ (by decide)]
  have hcodes : blocks * 128 ≤ usizeMax := by
    have hbound : isizeMax ≤ usizeMax := by decide
    omega
  have hone : bytes.length * 1 ≤ isizeMax := by rwa [Nat.mul_one]
  have hvec := tryVec_ok hone "Q4_K repack output"
  simp only [repackQ4k, hempty, q4kGgufBlockBytes, q4kCodeBytes, hmod, hdiv, checkedMul_eq hcodes,
    hvec, ne_eq, not_true, if_false, Bool.false_eq_true, bind, Except.bind, pure,
    Except.pure, foldl_repackBlock h]

/-- A successful repack is of whole blocks. -/
theorem repackQ4k_ok {out : List UInt8} (h : repackQ4k bytes = .ok out) :
    bytes.length = bytes.length / 144 * 144 ∧ out = layoutOf bytes (bytes.length / 144) := by
  simp only [repackQ4k, bind, Except.bind, pure, Except.pure] at h
  split_ifs at h with hempty hmod
  have hwhole : bytes.length = bytes.length / 144 * 144 := by
    have hzero : bytes.length % 144 = 0 := not_not.mp hmod
    omega
  refine ⟨hwhole, ?_⟩
  split at h
  · rename_i codesBytes hcodes
    have hcount : codesBytes = bytes.length / 144 * 128 := by
      unfold checkedMul at hcodes
      split_ifs at hcodes
      exact (Option.some.inj hcodes).symm
    split at h
    · cases h
    · rw [← Except.ok.inj h, hcount]
      exact foldl_repackBlock hwhole
  · cases h

variable {F : Type} (A : Arithmetic F)

/-- Every element of a file, decoded. -/
def decoded (bytes : List UInt8) (blocks : Nat) : List F :=
  (List.range blocks).flatMap fun k => (List.range 4).flatMap (decodedGroup A (blockAt bytes k))

theorem length_decoded (bytes : List UInt8) (blocks : Nat) :
    (decoded A bytes blocks).length = blocks * 256 :=
  length_flatMap_range fun _ _ =>
    length_flatMap_range fun group _ => length_decodedGroup A _ group

theorem dequantizeQ4k_eq (h : bytes.length = blocks * 144)
    (hfits : blocks * 256 * 4 ≤ isizeMax) :
    dequantizeQ4k A (layoutOf bytes blocks) (blocks * 256) = .ok (decoded A bytes blocks) := by
  have hbound : isizeMax ≤ usizeMax := by decide
  have hmod : blocks * 256 % 256 = 0 := Nat.mul_mod_left _ _
  have hdiv : blocks * 256 / 256 = blocks := Nat.mul_div_cancel _ (by decide)
  have hbytes : blocks * 144 ≤ usizeMax := by omega
  have hcodes : blocks * 128 ≤ usizeMax := by omega
  have hvec := tryVec_ok hfits "Q4_K dequantized output"
  have hlen : (layoutOf bytes blocks).length = blocks * 144 := (length_layoutOf h).trans h
  have hfirst : ((List.range blocks).flatMap fun k => codesOf (blockAt bytes k)).length
      = blocks * 128 := length_flatMap_range fun k hk => length_codesOf (length_blockAt h hk)
  have hblocks : (List.range blocks).flatMap (fun block => dequantizeBlock A
      (slice ((layoutOf bytes blocks).take (blocks * 128)) (block * 128) ((block + 1) * 128))
      (slice ((layoutOf bytes blocks).drop (blocks * 128)) (block * 16) ((block + 1) * 16)))
      = decoded A bytes blocks := by
    apply List.flatMap_congr
    intro block hmem
    have hblock := List.mem_range.mp hmem
    rw [layoutOf, List.take_left' hfirst, List.drop_left' hfirst,
      slice_flatMap_range (fun k hk => length_codesOf (length_blockAt h hk)) hblock,
      slice_flatMap_range (fun k hk => length_metadataOf (length_blockAt h hk)) hblock,
      dequantizeBlock_eq A (length_blockAt h hblock)]
  simp only [dequantizeQ4k, q4kBlockElements, q4kGgufBlockBytes, q4kCodeBytes, q4kMetadataBytes,
    hmod, hdiv, checkedMul_eq hbytes, checkedMul_eq hcodes, hlen, hvec, ne_eq, not_true, if_false,
    bind, Except.bind, pure, Except.pure, hblocks]

theorem dequantQ4k_eq (h : bytes.length = blocks * 144) (hfits : blocks * 144 ≤ usizeMax) :
    dequantQ4k A bytes (blocks * 256) = .ok (decoded A bytes blocks) := by
  have hmod : blocks * 256 % 256 = 0 := Nat.mul_mod_left _ _
  have hdiv : blocks * 256 / 256 = blocks := Nat.mul_div_cancel _ (by decide)
  have hblocks : (chunksExact bytes 144).flatMap (dequantBlock A) = decoded A bytes blocks := by
    rw [chunksExact, List.flatMap_map, h, Nat.mul_div_cancel _ (by decide)]
    apply List.flatMap_congr
    intro k hmem
    exact dequantBlock_eq A (length_blockAt h (List.mem_range.mp hmem))
  simp only [dequantQ4k, validate, hmod, hdiv, checkedMul_eq hfits, h, ne_eq, not_true, if_false,
    bind, Except.bind, pure, Except.pure, hblocks]

/-- Two files of whole blocks with the same layout are equal. -/
theorem layout_determined {other : List UInt8} (h : bytes.length = blocks * 144)
    (h' : other.length = blocks * 144) (hlayout : layoutOf other blocks = layoutOf bytes blocks) :
    other = bytes := by
  have hfront : ∀ {file : List UInt8}, file.length = blocks * 144 →
      ((List.range blocks).flatMap fun k => codesOf (blockAt file k)).length = blocks * 128 :=
    fun hfile => length_flatMap_range fun k hk => length_codesOf (length_blockAt hfile hk)
  obtain ⟨hcodes, hmetadata⟩ := List.append_inj hlayout ((hfront h').trans (hfront h).symm)
  have hblock : ∀ k < blocks, blockAt other k = blockAt bytes k := by
    intro k hk
    apply block_determined (length_blockAt h' hk) (length_blockAt h hk)
    · rw [← slice_flatMap_range (fun j hj => length_codesOf (length_blockAt h' hj)) hk, hcodes,
        slice_flatMap_range (fun j hj => length_codesOf (length_blockAt h hj)) hk]
    · rw [← slice_flatMap_range (fun j hj => length_metadataOf (length_blockAt h' hj)) hk,
        hmetadata, slice_flatMap_range (fun j hj => length_metadataOf (length_blockAt h hj)) hk]
  rw [← map_byteAt h, ← map_byteAt h']
  apply List.map_congr_left
  intro i hmem
  have hi := List.mem_range.mp hmem
  have hindex : i = i / 144 * 144 + i % 144 := by omega
  have hwithin : i % 144 < (i / 144 + 1) * 144 - i / 144 * 144 := by omega
  have hsame := congrArg (fun l => byteAt l (i % 144)) (hblock (i / 144) (by omega))
  dsimp only [blockAt] at hsame
  rw [byteAt_slice _ hwithin, byteAt_slice _ hwithin, ← hindex] at hsame
  exact hsame

/-- The repack of whole blocks decodes to what the reference decodes, and no other file has it. -/
theorem repack_lossless (hne : bytes ≠ []) (hwhole : bytes.length = blocks * 144)
    (hfits : blocks * 256 * 4 ≤ isizeMax) :
    ∃ out, repackQ4k bytes = .ok out ∧
      (∀ (F : Type) (A : Arithmetic F), ∃ values : List F, values.length = blocks * 256 ∧
        dequantQ4k A bytes (blocks * 256) = .ok values ∧
        dequantizeQ4k A out (blocks * 256) = .ok values) ∧
      ∀ other, repackQ4k other = .ok out → other = bytes := by
  have hbound : isizeMax ≤ usizeMax := by decide
  refine ⟨layoutOf bytes blocks, repackQ4k_eq hne hwhole (by omega), ?_, ?_⟩
  · intro F A
    exact ⟨decoded A bytes blocks, length_decoded A bytes blocks,
      dequantQ4k_eq A hwhole (by omega), dequantizeQ4k_eq A hwhole hfits⟩
  · intro other hother
    obtain ⟨hwhole', hout⟩ := repackQ4k_ok hother
    have hlen : bytes.length = other.length := by
      rw [← length_layoutOf hwhole, hout, length_layoutOf hwhole']
    have hblocks : other.length / 144 = blocks := by omega
    rw [hblocks] at hout
    exact layout_determined hwhole (hlen ▸ hwhole) hout.symm

/-- Decoding over the integers. -/
def integerArithmetic : Arithmetic ℤ where
  ofHalf bits := bits.toNat
  ofByte byte := byte.toNat
  mul left right := left * right
  sub left right := left - right

theorem repack_lossless_one : ∃ out, repackQ4k (List.replicate 144 7) = .ok out ∧
    ∃ values, dequantQ4k integerArithmetic (List.replicate 144 7) 256 = .ok values ∧
      dequantizeQ4k integerArithmetic out 256 = .ok values := by
  obtain ⟨out, hout, hdecode, _⟩ := @repack_lossless (List.replicate 144 7) 1 (by decide)
    List.length_replicate (by decide)
  obtain ⟨values, _, hreference, hrepacked⟩ := hdecode ℤ integerArithmetic
  exact ⟨out, hout, values, hreference, hrepacked⟩

/-- An output that no allocation holds is refused. -/
theorem dequantizeQ4k_refused (h : bytes.length = blocks * 144)
    (hbig : isizeMax < blocks * 256 * 4) (hsize : blocks * 256 * 4 ≤ usizeMax) :
    dequantizeQ4k A (layoutOf bytes blocks) (blocks * 256) =
      .error (.allocation "Q4_K dequantized output" (blocks * 256 * 4)) := by
  have hmod : blocks * 256 % 256 = 0 := Nat.mul_mod_left _ _
  have hdiv : blocks * 256 / 256 = blocks := Nat.mul_div_cancel _ (by decide)
  have hbytes : blocks * 144 ≤ usizeMax := by omega
  have hcodes : blocks * 128 ≤ usizeMax := by omega
  have hlen : (layoutOf bytes blocks).length = blocks * 144 := (length_layoutOf h).trans h
  have hvec : tryVec (blocks * 256) 4 "Q4_K dequantized output" =
      .error (.allocation "Q4_K dequantized output" (blocks * 256 * 4)) := by
    rw [tryVec, checkedMul_eq hsize]
    exact if_neg (Nat.not_le.mpr hbig)
  simp only [dequantizeQ4k, q4kBlockElements, q4kGgufBlockBytes, q4kCodeBytes,
    hmod, hdiv, checkedMul_eq hbytes, checkedMul_eq hcodes, hlen, hvec, ne_eq, not_true, if_false,
    bind, Except.bind]

theorem repack_refused (hpos : 0 < blocks) (hbig : isizeMax < blocks * 256 * 4)
    (hsize : blocks * 256 * 4 ≤ usizeMax) :
    ∃ out, repackQ4k (List.replicate (blocks * 144) 0) = .ok out ∧
      dequantizeQ4k A out (blocks * 256) =
        .error (.allocation "Q4_K dequantized output" (blocks * 256 * 4)) := by
  have hlen : (List.replicate (blocks * 144) (0 : UInt8)).length = blocks * 144 :=
    List.length_replicate
  have hne : List.replicate (blocks * 144) (0 : UInt8) ≠ [] := by
    intro hnil
    rw [hnil] at hlen
    simp only [List.length_nil] at hlen
    omega
  have hvec : blocks * 144 ≤ isizeMax := by
    have hbound : usizeMax < 4 * isizeMax := by decide
    omega
  exact ⟨_, repackQ4k_eq hne hlen (by rwa [hlen]), dequantizeQ4k_refused A hlen hbig hsize⟩

/-- The repack of `2 ^ 53` blocks does not decode: its elements fill more bytes than an allocation
holds. -/
theorem repack_not_decoded :
    ∃ out, repackQ4k (List.replicate (9007199254740992 * 144) 0) = .ok out ∧
      dequantizeQ4k integerArithmetic out (9007199254740992 * 256) =
        .error (.allocation "Q4_K dequantized output" (9007199254740992 * 256 * 4)) :=
  repack_refused integerArithmetic (by decide) (by decide) (by decide)

end Files

end Leone.Quant

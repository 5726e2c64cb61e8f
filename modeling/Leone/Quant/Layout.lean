import Leone.Quant.Repack

/-!
# The regions of the decode layout

The loops of the repack fill disjoint slices, so the output is the codes of every block followed by
the metadata of every block.
-/

namespace Leone.Quant

open Framework

section Regions

/-- The eight bytes of one lane of a group. -/
def lane (sourceGroup : List UInt8) (laneItem : Nat) : List UInt8 :=
  slice sourceGroup (laneItem * 4) (laneItem * 4 + 4) ++
    slice sourceGroup (laneItem * 4 + 16) (laneItem * 4 + 20)

def stripes (sourceGroup : List UInt8) : List UInt8 := (List.range 4).flatMap (lane sourceGroup)

def codesOf (source : List UInt8) : List UInt8 :=
  (List.range 4).flatMap fun group => stripes (source.drop (q4kMetadataBytes + group * 32))

/-- The record of a group. -/
def recordOf (source : List UInt8) (group : Nat) : UInt32 :=
  parametersOf (scaleMin (group * 2) (slice source 4 16)).1
    (scaleMin (group * 2 + 1) (slice source 4 16)).1
    (scaleMin (group * 2) (slice source 4 16)).2
    (scaleMin (group * 2 + 1) (slice source 4 16)).2

def metadataOf (source : List UInt8) : List UInt8 :=
  source.take 4 ++ ((List.range 4).map (fun group => (recordOf source group).toUInt8) ++
    ((List.range 4).map (fun group => (recordOf source group >>> 8).toUInt8) ++
      (List.range 4).map fun group => (recordOf source group >>> 16).toUInt8))

variable {source target rest : List UInt8}

theorem length_lane (h : 32 ≤ source.length) {laneItem : Nat} (hlane : laneItem < 4) :
    (lane source laneItem).length = 8 := by
  rw [lane, List.length_append, length_slice _ (by omega), length_slice _ (by omega)]
  omega

theorem length_stripes (h : 32 ≤ source.length) : (stripes source).length = 32 :=
  length_flatMap_range fun _ hlane => length_lane h hlane

theorem le_length_drop (h : source.length = 144) {group : Nat} (hgroup : group < 4) :
    32 ≤ (source.drop (q4kMetadataBytes + group * 32)).length := by
  rw [List.length_drop, q4kMetadataBytes]
  omega

theorem length_codesOf (h : source.length = 144) : (codesOf source).length = 128 :=
  length_flatMap_range fun _ hgroup => length_stripes (le_length_drop h hgroup)

theorem length_metadataOf (h : source.length = 144) : (metadataOf source).length = 16 := by
  simp [metadataOf, h]

theorem stripeGroup_eq (h : 32 ≤ source.length) (htarget : target.length = 32) :
    stripeGroup source (target ++ rest) = stripes source ++ rest := by
  apply foldl_fill 8 (fun _ hlane => length_lane h hlane) _ rest htarget
  intro laneItem hlane before region after hbefore hregion
  obtain ⟨low, high, rfl, hlow, hhigh⟩ := split_at region (n := 4) (m := 4) hregion
  have hfirst : low.length = (slice source (laneItem * 4) (laneItem * 4 + 4)).length := by
    rw [hlow, length_slice _ (by omega)]
    omega
  have hsecond : high.length = (slice source (laneItem * 4 + 16) (laneItem * 4 + 20)).length := by
    rw [hhigh, length_slice _ (by omega)]
    omega
  dsimp only
  rw [List.append_assoc, copyFromSlice_append hbefore hfirst, ← List.append_assoc,
    copyFromSlice_append (by rw [List.length_append, hbefore, ← hfirst, hlow]) hsecond,
    List.append_assoc, lane, List.append_assoc]

theorem repackCodes_eq (h : source.length = 144) (htarget : target.length = 128) :
    repackCodes source target = codesOf source := by
  have hfill : repackCodes source (target ++ []) = codesOf source ++ [] := by
    apply foldl_fill 32 (fun group hgroup => length_stripes (le_length_drop h hgroup)) _ [] htarget
    intro group hgroup before region after hbefore hregion
    have hlen : group * 32 + (region ++ after).length = (before ++ (region ++ after)).length := by
      rw [← hbefore, ← List.length_append]
    have hwhole : modifySlice (before ++ ((region ++ after) ++ [])) (group * 32)
        (before ++ (region ++ after)).length
        (stripeGroup (source.drop (q4kMetadataBytes + group * 32))) = _ :=
      modifySlice_append hbefore hlen
    rw [List.append_nil, List.append_nil] at hwhole
    rw [hwhole, stripeGroup_eq (le_length_drop h hgroup) hregion]
  rwa [List.append_nil, List.append_nil] at hfill

/-- One group of the metadata loop. -/
def setRecord (target : List UInt8) (group : Nat) (parameters : UInt32) : List UInt8 :=
  ((target.set (4 + group) parameters.toUInt8).set (8 + group) (parameters >>> 8).toUInt8).set
    (12 + group) (parameters >>> 16).toUInt8

theorem repackMetadata_eq (h : source.length = 144) (htarget : target.length = 16) :
    repackMetadata source target = metadataOf source := by
  have hcopy : copyFromSlice target 0 (source.take 4) = source.take 4 ++ target.drop 4 := by
    obtain ⟨first, second, rfl, hfirst, _⟩ := split_at target (n := 4) (m := 12) htarget
    have htake : first.length = (source.take 4).length := by
      rw [hfirst, List.length_take, h]
      rfl
    have hwrite : copyFromSlice ([] ++ (first ++ second)) 0 (source.take 4) = _ :=
      copyFromSlice_append rfl htake
    rw [List.drop_left' hfirst]
    exact hwrite
  have hfold : repackMetadata source target = (List.range 4).foldl
      (fun target group => setRecord target group (recordOf source group))
      (copyFromSlice target 0 (source.take 4)) := rfl
  obtain ⟨a, b, c, d, hhead⟩ : ∃ a b c d, source.take 4 = [a, b, c, d] := by
    match source, h with
    | a :: b :: c :: d :: _, _ => exact ⟨a, b, c, d, rfl⟩
  rw [hfold, hcopy, metadataOf, hhead]
  generalize recordOf source = record
  match target, htarget with
  | [_, _, _, _, _, _, _, _, _, _, _, _, _, _, _, _], _ => rfl

theorem repackBlock_eq {bytes before region between region' after : List UInt8}
    {blocks blockIndex : Nat}
    (hsource : (slice bytes (blockIndex * 144) ((blockIndex + 1) * 144)).length = 144)
    (hbefore : before.length = blockIndex * 128) (hregion : region.length = 128)
    (hbetween : (before ++ (region ++ between)).length = blocks * 128 + blockIndex * 16)
    (hregion' : region'.length = 16) :
    repackBlock bytes (blocks * 128) (before ++ (region ++ (between ++ (region' ++ after))))
        blockIndex =
      before ++ (codesOf (slice bytes (blockIndex * 144) ((blockIndex + 1) * 144)) ++ (between ++
        (metadataOf (slice bytes (blockIndex * 144) ((blockIndex + 1) * 144)) ++ after))) := by
  unfold repackBlock
  dsimp only [q4kGgufBlockBytes, q4kCodeBytes, q4kMetadataBytes]
  generalize slice bytes (blockIndex * 144) ((blockIndex + 1) * 144) = source at hsource ⊢
  rw [modifySlice_append hbefore (by rw [hregion, Nat.succ_mul]), repackCodes_eq hsource hregion]
  have hfront : (before ++ (codesOf source ++ between)).length = blocks * 128 + blockIndex * 16 := by
    rw [← hbetween]
    simp only [List.length_append, length_codesOf hsource, hregion]
  have hshift : before ++ (codesOf source ++ (between ++ (region' ++ after))) =
      before ++ (codesOf source ++ between) ++ (region' ++ after) := by
    simp only [List.append_assoc]
  rw [hshift, modifySlice_append hfront (by rw [hregion']), repackMetadata_eq hsource hregion']
  simp only [List.append_assoc]

/-- The block of an index. -/
def blockAt (bytes : List UInt8) (blockIndex : Nat) : List UInt8 :=
  slice bytes (blockIndex * 144) ((blockIndex + 1) * 144)

theorem length_blockAt {bytes : List UInt8} {blocks blockIndex : Nat}
    (hbytes : bytes.length = blocks * 144) (h : blockIndex < blocks) :
    (blockAt bytes blockIndex).length = 144 := by
  rw [blockAt, length_slice _ (by omega)]
  omega

/-- The codes of every block, then the metadata of every block. -/
def layoutOf (bytes : List UInt8) (blocks : Nat) : List UInt8 :=
  (List.range blocks).flatMap (fun k => codesOf (blockAt bytes k)) ++
    (List.range blocks).flatMap fun k => metadataOf (blockAt bytes k)

theorem foldl_repackBlock {bytes : List UInt8} {blocks : Nat} (hbytes : bytes.length = blocks * 144) :
    (List.range blocks).foldl (repackBlock bytes (blocks * 128)) (List.replicate bytes.length 0) =
      layoutOf bytes blocks := by
  have hsplit : List.replicate bytes.length (0 : UInt8) =
      List.replicate (blocks * 128) 0 ++ List.replicate (blocks * 16) 0 := by
    rw [List.replicate_append_replicate, hbytes]
    congr 1
    omega
  have hcodes : ∀ k < blocks, (codesOf (blockAt bytes k)).length = 128 :=
    fun k hk => length_codesOf (length_blockAt hbytes hk)
  have hmetadata : ∀ k < blocks, (metadataOf (blockAt bytes k)).length = 16 :=
    fun k hk => length_metadataOf (length_blockAt hbytes hk)
  have hfill := foldl_fill_two (Nat.le_refl blocks) hcodes hmetadata
    (fun k hk before region between region' after hbefore hregion hbetween hregion' =>
      repackBlock_eq (length_blockAt hbytes hk) hbefore hregion hbetween hregion')
    (List.length_replicate (a := (0 : UInt8))) (List.length_replicate (a := (0 : UInt8)))
  rw [List.drop_of_length_le (Nat.le_of_eq List.length_replicate),
    List.drop_of_length_le (Nat.le_of_eq List.length_replicate), List.nil_append,
    List.append_nil] at hfill
  rw [hsplit, hfill, layoutOf]

end Regions

end Leone.Quant

import Mathlib
import Leone.Cpu.Append

/-!
# Rows in a cache

A written row is found in the stored form of its values, and no other cell of the cache changes. For
Q8 caches this needs rows of whole blocks.
-/

namespace Leone.Cpu

open Framework Framework.Method Kv

/-! ## Stored values -/

/-- What a cell of a cache holds: a value, the bits of a rounded value, or the bits of the scale of
its block and its code. -/
inductive Stored (F : Type)
  | f32 (value : F)
  | f16 (bits : UInt16)
  | q8 (scale : UInt16) (code : UInt8)

section Stored

variable {F : Type} (arith : Arithmetic F)

def q8Cell (cells : List UInt8) (index : Nat) : Option (Stored F) :=
  cells[index / 32 * 34]?.bind fun low =>
    cells[index / 32 * 34 + 1]?.bind fun high =>
      cells[index / 32 * 34 + 2 + index % 32]?.map fun code => .q8 (ofLeBytes low high) code

def CpuStorage.stored : CpuStorage F → Nat → Option (Stored F)
  | .f32 values, index => values[index]?.map .f32
  | .f16 values, index => values[index]?.map .f16
  | .bytes values, index => q8Cell values index
  | .u32 _, _ => none

/-- The scale of a block and the code of a value of a row. -/
def q8Form (row : List F) (dimension : Nat) : Option (Stored F) :=
  let bits := arith.half (q8Scale arith ((row.drop (dimension / 32 * 32)).take 32))
  row[dimension]?.map fun value => .q8 bits (q8Code arith (arith.ofHalf bits) value).toUInt8

/-- The stored form of a value of a row. -/
def CpuStorage.form : CpuStorage F → List F → Nat → Option (Stored F)
  | .f32 _, row, dimension => row[dimension]?.map .f32
  | .f16 _, row, dimension => row[dimension]?.map fun value => .f16 (arith.half value)
  | .bytes _, row, dimension => q8Form arith row dimension
  | .u32 _, _, _ => none

/-- A format writes a row in its stored form and leaves the other cells as they are. -/
structure CacheFormat.Stores {α : Type} (format : CacheFormat F α) (headDim cached : Nat) : Prop where
  cells : ∀ buffer cells, format.cells buffer = .ok cells → buffer.storage = format.wrap cells
  form : ∀ cells cells', (format.wrap cells).form arith = (format.wrap cells').form arith
  found : ∀ cells row dimension, dimension < row.length →
    ∃ cell, (format.wrap cells).form arith row dimension = some cell
  value : ∀ layout cells cells' index operation,
    (format.wrap cells).stored index = (format.wrap cells').stored index →
      cacheValue arith ⟨layout, format.wrap cells⟩ index operation =
        cacheValue arith ⟨layout, format.wrap cells'⟩ index operation
  store : ∀ cells target row, cells.length = format.size cached → row.length = headDim →
    headDim ∣ target → target + headDim ≤ cached →
      ∃ cells', format.store cells target row = some cells' ∧ cells'.length = cells.length ∧
        ∀ index, (format.wrap cells').stored index =
          if target ≤ index ∧ index < target + headDim then
            (format.wrap cells).form arith row (index - target)
          else (format.wrap cells).stored index

theorem storeAt_eq {α : Type} {cells source : List α} {start : Nat}
    (h : start + source.length ≤ cells.length) :
    storeAt cells start source = some (copyFromSlice cells start source) := if_pos h

theorem f32Format_stores (headDim cached : Nat) : (f32Format (F := F)).Stores arith headDim cached where
  cells := fun _ _ h => CpuBuffer.f32Mut_eq_ok.mp h
  form := fun _ _ => rfl
  found := fun _ _ _ h => ⟨_, Option.map_eq_some_iff.mpr ⟨_, List.getElem?_eq_getElem h, rfl⟩⟩
  value := by
    intro layout cells cells' index operation h
    have hcell : cells[index]? = cells'[index]? :=
      Option.map_injective (fun a b hab => Stored.f32.inj hab) h
    show cacheValue arith ⟨layout, .f32 cells⟩ index operation =
      cacheValue arith ⟨layout, .f32 cells'⟩ index operation
    unfold cacheValue
    simp only [hcell]
  store := by
    intro cells target row hcells hrow _ hfits
    have hle : target + row.length ≤ cells.length := by
      rw [hcells, hrow]
      exact hfits
    refine ⟨copyFromSlice cells target row, storeAt_eq hle, length_copyFromSlice hle, ?_⟩
    intro index
    show ((copyFromSlice cells target row)[index]?).map Stored.f32 = _
    rw [getElem?_copyFromSlice hle, hrow]
    split_ifs <;> rfl

theorem f16Format_stores (headDim cached : Nat) : (f16Format arith).Stores arith headDim cached where
  cells := fun _ _ h => CpuBuffer.f16Mut_eq_ok.mp h
  form := fun _ _ => rfl
  found := fun _ _ _ h => ⟨_, Option.map_eq_some_iff.mpr ⟨_, List.getElem?_eq_getElem h, rfl⟩⟩
  value := by
    intro layout cells cells' index operation h
    have hcell : cells[index]? = cells'[index]? :=
      Option.map_injective (fun a b hab => Stored.f16.inj hab) h
    show cacheValue arith ⟨layout, .f16 cells⟩ index operation =
      cacheValue arith ⟨layout, .f16 cells'⟩ index operation
    unfold cacheValue
    simp only [hcell]
  store := by
    intro cells target row hcells hrow _ hfits
    have hle : target + (row.map arith.half).length ≤ cells.length := by
      rw [List.length_map, hcells, hrow]
      exact hfits
    refine ⟨copyFromSlice cells target (row.map arith.half), storeAt_eq hle,
      length_copyFromSlice hle, ?_⟩
    intro index
    show ((copyFromSlice cells target (row.map arith.half))[index]?).map Stored.f16 = _
    rw [getElem?_copyFromSlice hle, List.length_map, hrow]
    split_ifs
    · rw [List.getElem?_map, Option.map_map]
      rfl
    · rfl

/-! ## Blocks -/

theorem ofLeBytes_leBytes (bits : UInt16) :
    ofLeBytes (UInt8.ofNat bits.toNat) (UInt8.ofNat (bits.toNat / 256)) = bits := by
  have hlt := bits.toNat_lt
  apply UInt16.toNat_inj.mp
  rw [ofLeBytes, UInt16.toNat_ofNat', UInt8.toNat_ofNat', UInt8.toNat_ofNat']
  omega

theorem length_q8Block {block : List F} (h : block.length = 32) : (q8Block arith block).length = 34 := by
  rw [q8Block, List.length_append, List.length_map, h]
  rfl

theorem q8Block_low (block : List F) : (q8Block arith block)[0]? =
    some (UInt8.ofNat (arith.half (q8Scale arith block)).toNat) := rfl

theorem q8Block_high (block : List F) : (q8Block arith block)[1]? =
    some (UInt8.ofNat ((arith.half (q8Scale arith block)).toNat / 256)) := rfl

theorem q8Block_code (block : List F) (k : Nat) : (q8Block arith block)[2 + k]? =
    block[k]?.map fun value =>
      (q8Code arith (arith.ofHalf (arith.half (q8Scale arith block))) value).toUInt8 := by
  rw [q8Block, List.getElem?_append_right (Nat.le_add_right 2 k), ← List.getElem?_map]
  congr 1
  exact Nat.add_sub_cancel_left 2 k

theorem length_chunksExact (values : List F) : (chunksExact values).length = values.length / 32 := by
  rw [chunksExact, List.length_map, List.length_range]

theorem getElem?_chunksExact {values : List F} {k : Nat} (h : k < values.length / 32) :
    (chunksExact values)[k]? = some ((values.drop (k * 32)).take 32) := by
  rw [chunksExact, List.getElem?_map, List.getElem?_range h, Option.map_some]

theorem length_of_mem_chunksExact {values block : List F} (h : block ∈ chunksExact values) :
    block.length = 32 := by
  rw [chunksExact, List.mem_map] at h
  rcases h with ⟨k, hk, rfl⟩
  rw [List.mem_range] at hk
  rw [List.length_take, List.length_drop]
  omega

/-- Stored blocks are found where they were stored, and the others are as they were. -/
theorem foldlM_storeAt {blocks : List (List F)} (hblocks : ∀ block ∈ blocks, block.length = 32)
    {base k : Nat} {cells : List UInt8} (hle : (base + k + blocks.length) * 34 ≤ cells.length) :
    ∃ cells', (blocks.zipIdx k).foldlM (fun cache block =>
        storeAt cache ((base + block.2) * 34) (q8Block arith block.1)) cells = some cells' ∧
      cells'.length = cells.length ∧ ∀ b j, j < 34 → cells'[b * 34 + j]? =
        if base + k ≤ b ∧ b < base + k + blocks.length then
          blocks[b - (base + k)]?.bind fun block => (q8Block arith block)[j]?
        else cells[b * 34 + j]? := by
  induction blocks generalizing k cells with
  | nil =>
    refine ⟨cells, rfl, rfl, ?_⟩
    intro b j _
    rw [if_neg]
    rw [List.length_nil]
    omega
  | cons block blocks ih =>
    rw [List.forall_mem_cons] at hblocks
    have hlength := length_q8Block arith hblocks.1
    rw [List.length_cons] at hle
    have hfits : (base + k) * 34 + (q8Block arith block).length ≤ cells.length := by
      rw [hlength]
      omega
    have hfirst := length_copyFromSlice hfits
    have hroom : (base + (k + 1) + blocks.length) * 34 ≤
        (copyFromSlice cells ((base + k) * 34) (q8Block arith block)).length := by
      rw [hfirst]
      omega
    rcases ih hblocks.2 hroom with ⟨cells', hfold, hlength', hcells⟩
    refine ⟨cells', ?_, hlength'.trans hfirst, ?_⟩
    · rw [List.zipIdx_cons, List.foldlM_cons, storeAt_eq hfits]
      exact hfold
    · intro b j hj
      rw [hcells b j hj, getElem?_copyFromSlice hfits, hlength, List.length_cons]
      by_cases hhere : b = base + k
      · rw [if_neg (by omega), if_pos (by omega), if_pos (by omega), hhere, Nat.sub_self,
          List.getElem?_cons_zero, Option.bind_some]
        congr 1
        omega
      · have hbefore : ¬ ((base + k) * 34 ≤ b * 34 + j ∧ b * 34 + j < (base + k) * 34 + 34) := by omega
        rw [if_neg hbefore]
        by_cases hlater : base + (k + 1) ≤ b ∧ b < base + (k + 1) + blocks.length
        · have hindex : b - (base + k) = b - (base + (k + 1)) + 1 := by omega
          rw [if_pos hlater, if_pos (by omega), hindex, List.getElem?_cons_succ]
        · rw [if_neg hlater, if_neg (by omega)]

/-- A stored row fills the blocks from its start on. -/
theorem q8KvStore_cell {cells : List UInt8} {target : Nat} {row : List F}
    (hle : (target / 32 + row.length / 32) * 34 ≤ cells.length) :
    ∃ cells', q8KvStore arith cells target row = some cells' ∧ cells'.length = cells.length ∧
      ∀ index, (q8Cell cells' index : Option (Stored F)) =
        if target / 32 ≤ index / 32 ∧ index / 32 < target / 32 + row.length / 32 then
          q8Form arith row ((index / 32 - target / 32) * 32 + index % 32)
        else q8Cell cells index := by
  have hroom : (target / 32 + 0 + (chunksExact row).length) * 34 ≤ cells.length := by
    rw [length_chunksExact]
    exact hle
  rcases foldlM_storeAt arith (fun _ => length_of_mem_chunksExact) hroom with
    ⟨cells', hfold, hlength, hcells⟩
  refine ⟨cells', hfold, hlength, ?_⟩
  intro index
  have hmod := Nat.mod_lt index (show 0 < 32 by decide)
  have hlow := hcells (index / 32) 0 (by decide)
  have hhigh := hcells (index / 32) 1 (by decide)
  have hcode := hcells (index / 32) (2 + index % 32) (by omega)
  simp only [length_chunksExact, Nat.add_zero] at hlow hhigh hcode
  rw [q8Cell, q8Cell, Nat.add_assoc, hlow, hhigh, hcode]
  by_cases hinside : target / 32 ≤ index / 32 ∧ index / 32 < target / 32 + row.length / 32
  · have hdimension : ((index / 32 - target / 32) * 32 + index % 32) / 32 = index / 32 - target / 32 := by
      omega
    have hrow : ((row.drop ((index / 32 - target / 32) * 32)).take 32)[index % 32]? =
        row[(index / 32 - target / 32) * 32 + index % 32]? := by
      rw [List.getElem?_take_of_lt hmod, List.getElem?_drop]
    have hblock := getElem?_chunksExact (show index / 32 - target / 32 < row.length / 32 by omega)
    simp only [if_pos hinside, hblock, Option.bind_some, q8Block_low, q8Block_high, q8Block_code,
      ofLeBytes_leBytes, q8Form, hdimension, hrow, Option.map_map]
    rfl
  · simp only [if_neg hinside]

theorem q8Format_stores {headDim : Nat} (hdim : headDim % 32 = 0) (cached : Nat) :
    (q8Format arith).Stores arith headDim cached where
  cells := fun _ _ h => CpuBuffer.bytesMut_eq_ok.mp h
  form := fun _ _ => rfl
  found := fun _ _ _ h => ⟨_, Option.map_eq_some_iff.mpr ⟨_, List.getElem?_eq_getElem h, rfl⟩⟩
  value := by
    intro layout cells cells' index operation h
    have hload : ∀ cells : List UInt8, q8KvLoad arith cells index =
        (q8Cell cells index : Option (Stored F)).bind fun stored =>
          match stored with
          | .q8 scale code => some (arith.mul (arith.ofCode code.toInt8) (arith.ofHalf scale))
          | _ => none := by
      intro cells
      unfold q8KvLoad q8Cell
      cases cells[index / 32 * 34]? with
      | none => rfl
      | some low =>
        cases cells[index / 32 * 34 + 1]? with
        | none => rfl
        | some high => cases cells[index / 32 * 34 + 2 + index % 32]? <;> rfl
    have hsame : q8KvLoad arith cells index = q8KvLoad arith cells' index := by
      rw [hload, hload]
      exact congrArg (Option.bind · _) h
    unfold cacheValue q8Format
    simp only [hsame]
  store := by
    intro cells target row hcells hrow hdvd hfits
    have htarget : target % 32 = 0 :=
      Nat.mod_eq_zero_of_dvd ((Nat.dvd_of_mod_eq_zero hdim).trans hdvd)
    have hle : (target / 32 + row.length / 32) * 34 ≤ cells.length := by
      rw [hcells, hrow]
      show _ ≤ cached / 32 * 34
      omega
    rcases q8KvStore_cell arith hle with ⟨cells', hstore, hlength, hcell⟩
    refine ⟨cells', hstore, hlength, ?_⟩
    intro index
    show (q8Cell cells' index : Option (Stored F)) = _
    rw [hcell index, hrow]
    by_cases hinside : target ≤ index ∧ index < target + headDim
    · have hindex : (index / 32 - target / 32) * 32 + index % 32 = index - target := by omega
      rw [if_pos (by omega), if_pos hinside, hindex]
      rfl
    · rw [if_neg (by omega), if_neg hinside]
      rfl

end Stored

end Leone.Cpu

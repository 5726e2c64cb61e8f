import Leone.Cpu.Frame

/-!
# Rows that straddle blocks

When the rows of a Q8 cache are no whole blocks, the rest of a row is not stored. The last block that
the last row reaches is not written by any row, so what a cache holds there does not depend on the
appended values.
-/

namespace Leone.Cpu

open Framework Framework.Method Kv

/-! ## Layouts -/

theorem f32_layout {elements : Nat} {layout : BufferLayout}
    (h : BufferLayout.f32 elements = .ok layout) :
    layout.elements = elements ∧ 0 < elements ∧ elements < 2 ^ 64 := by
  unfold BufferLayout.f32 dense nonzero at h
  by_cases hzero : elements = 0
  · rw [if_pos hzero] at h
    cases h
  · rw [if_neg hzero] at h
    cases hmul : checkedMul 64 elements 4 with
    | none =>
      rw [hmul] at h
      cases h
    | some bytes =>
      rw [hmul] at h
      cases h
      have hlt := (checkedMul_eq_some.mp hmul).1
      exact ⟨rfl, by omega, by omega⟩

theorem q8Kv_layout {elements : Nat} {layout : BufferLayout}
    (h : BufferLayout.q8Kv elements = .ok layout) :
    layout.storage = .q8Kv ∧ layout.bytes = elements / 32 * 34 ∧ elements % 32 = 0 := by
  unfold BufferLayout.q8Kv Kv.q8Kv nonzero divisible at h
  by_cases hzero : elements = 0
  · rw [if_pos hzero] at h
    cases h
  · rw [if_neg hzero] at h
    by_cases hmod : elements % q8KvBlockElements = 0
    · rw [if_pos hmod] at h
      cases hmul : checkedMul 64 (elements / q8KvBlockElements) q8KvBlockBytes with
      | none =>
        rw [hmul] at h
        cases h
      | some bytes =>
        rw [hmul] at h
        cases h
        exact ⟨rfl, (checkedMul_eq_some.mp hmul).2.symm, hmod⟩
    · rw [if_neg hmod] at h
      cases h

section Straddle

variable {F : Type} {arith : Arithmetic F} {shape : AttentionShape} {start tokens : Nat}

/-- Rows and a Q8 cache of the sizes that an append asks for can be allocated. -/
def Allocatable (shape : AttentionShape) (tokens : Nat) : Prop :=
  (∃ layout, BufferLayout.f32 (shape.nHeadKv * shape.headDim * tokens) = .ok layout) ∧
    ∃ layout, BufferLayout.q8Kv (shape.nHeadKv * shape.maxContext * shape.headDim / 32 * 32) =
      .ok layout

theorem quantized_storage {elements blockBytes : Nat} {storage : BufferStorage}
    {layout : BufferLayout} (h : BufferLayout.quantized elements storage blockBytes = .ok layout) :
    layout.storage = storage := by
  simp only [BufferLayout.quantized, bind_eq_ok] at h
  rcases h with ⟨_, _, _, _, _, _, h⟩
  cases h
  rfl

/-- An allocated Q8 cache has the elements of its whole blocks. -/
theorem Allocated.q8Kv_elements {buffer : CpuBuffer F} (h : Allocated buffer)
    (hstorage : buffer.layout.storage = .q8Kv) {cells : List UInt8}
    (hcells : buffer.storage = .bytes cells) {cached : Nat} (hlength : cells.length = cached / 32 * 34) :
    BufferLayout.q8Kv (cached / 32 * 32) = .ok buffer.layout := by
  cases h with
  | f16 | f32 | u32 => cases hcells
  | @q8Kv elements layout values hlayout hvalues =>
    cases hcells
    rcases q8Kv_layout hlayout with ⟨_, hbytes, hmod⟩
    have helements : cached / 32 * 32 = elements := by
      rw [hbytes] at hvalues
      omega
    rw [helements]
    exact hlayout
  | q4K hlayout =>
    rw [quantized_storage hlayout] at hstorage
    cases hstorage
  | q6K hlayout =>
    rw [quantized_storage hlayout] at hstorage
    cases hstorage

theorem Allocated.f32_elements {buffer : CpuBuffer F} (h : Allocated buffer) {values : List F}
    (hvalues : buffer.storage = .f32 values) : BufferLayout.f32 values.length = .ok buffer.layout := by
  cases h with
  | f16 | u32 | q8Kv | q4K | q6K => cases hvalues
  | f32 hlayout hlength =>
    cases hvalues
    rw [hlength, (f32_layout hlayout).1]
    exact hlayout

/-! ## The last cell -/

/-- The last dimension of the last row. -/
def lastCell (shape : AttentionShape) (start tokens : Nat) : Nat :=
  cellOf shape (shape.nHeadKv - 1) (start + (tokens - 1)) + (shape.headDim - 1)

/-- No row has a whole block that reaches the last cell. -/
theorem chunkRows_behind (hdim : shape.headDim % 32 ≠ 0) {row : Nat × Nat}
    (h : row ∈ chunkRows shape start tokens) :
    row.2 / 32 + shape.headDim / 32 ≤ lastCell shape start tokens / 32 := by
  rcases mem_chunkRows.mp h with ⟨token, htoken, head, hhead, rfl⟩
  have hhead' := Nat.mul_le_mul_right shape.maxContext (Nat.le_sub_one_of_lt hhead)
  have hplace : head * shape.maxContext + start + token ≤
      (shape.nHeadKv - 1) * shape.maxContext + (start + (tokens - 1)) := by omega
  have hcell := Nat.mul_le_mul_right shape.headDim hplace
  rw [lastCell, cellOf]
  dsimp only
  omega

/-- An append to Q8 caches leaves the last cell as it was when its rows are no whole blocks. -/
theorem appendKvChunkByStorage_last (operation : String) {caches : Caches F}
    (hdim : shape.headDim % 32 ≠ 0) (hend : start + tokens ≤ shape.maxContext)
    {key value : CpuBuffer F} {k v : List F} {cached : Nat}
    (hgiven : RowsGiven key value shape tokens (k, v, cached)) {cells cells' : List UInt8}
    (hstorage : caches.key.layout.storage = .q8Kv) (hkey : caches.key.storage = .bytes cells)
    (hvalue : caches.value.storage = .bytes cells') (hlength : cells.length = cached / 32 * 34)
    (hlength' : cells'.length = cached / 32 * 34) :
    (appendKvChunkByStorage arith operation k v ⟨cached, shape, start, tokens⟩).Ends caches
      (fun _ after => after.key.storage.stored (lastCell shape start tokens) =
        (q8Cell cells (lastCell shape start tokens) : Option (Stored F))) (fun _ _ => False) := by
  rcases foldlM_storeRow_behind (fun _ hrow => (hgiven.rowFits hend hrow).1)
    (fun _ hrow => chunkRows_behind hdim hrow) hlength with
    ⟨k', hkrun, hkept⟩
  rcases foldlM_storeRow_behind (fun _ hrow => (hgiven.rowFits hend hrow).2)
    (fun _ hrow => chunkRows_behind hdim hrow) hlength' with
    ⟨v', hvrun, _⟩
  unfold appendKvChunkByStorage
  rw [ends_bind, ends_get, hstorage]
  apply (run_appendRows (CpuBuffer.bytesMut_eq_ok.mpr hkey) (CpuBuffer.bytesMut_eq_ok.mpr hvalue)
    hlength hlength' hkrun hvrun).mono
  · intro _ after hafter
    rw [hafter]
    exact hkept
  · exact fun _ _ h => h

theorem code_of_replicate {length index : Nat} {byte : UInt8} {cell : Stored F}
    (h : q8Cell (List.replicate length byte) index = some cell) : ∃ scale, cell = .q8 scale byte := by
  simp only [q8Cell, Option.bind_eq_some_iff, Option.map_eq_some_iff] at h
  rcases h with ⟨low, _, high, _, code, hcode, hcell⟩
  have hbyte := List.eq_of_mem_replicate (List.mem_of_getElem? hcode)
  exact ⟨ofLeBytes low high, by rw [← hcell, hbyte]⟩

/-- Two caches that differ in the last cell cannot both get the stored form of a row there. -/
theorem not_writesRows {place : Except BackendError (AttentionShape × Nat)} {key value : CpuBuffer F}
    (append : AppendM F Unit) (cachesOf : UInt8 → Caches F) {length : Nat}
    (hplace : place = .ok (shape, start)) (htokens : 0 < tokens)
    (hcaches : ∀ byte, (cachesOf byte).key.storage = .bytes (List.replicate length byte))
    (hrun : ∀ byte, append.Ends (cachesOf byte) (fun _ after =>
      after.key.storage.stored (lastCell shape start tokens) =
        (q8Cell (List.replicate length byte) (lastCell shape start tokens) : Option (Stored F)))
      (fun _ _ => False)) :
    ¬ ∀ byte, WritesRows arith place tokens key value (cachesOf byte) append := by
  intro hwrites
  have hhead : shape.nHeadKv - 1 < shape.nHeadKv := Nat.sub_one_lt_of_lt shape.nHeadKv_pos
  have hdimension : shape.headDim - 1 < shape.headDim := Nat.sub_one_lt_of_lt shape.headDim_pos
  have hform : ∀ byte, ∃ scale, q8Form arith
      (rowOf shape key (tokens - 1) (shape.nHeadKv - 1)) (shape.headDim - 1) =
        some (.q8 scale byte) := by
    intro byte
    have hboth := ((hrun byte).and (hwrites byte)).mono (fun _ _ h => h) (fun _ _ h => h.1)
    rcases hboth.run_ok with ⟨_, after, _, hkept, shape', start', hplace', hkey, _⟩
    rw [hplace] at hplace'
    cases hplace'
    rcases hkey.stored _ hhead (tokens - 1) (by omega) _ hdimension with ⟨cell, hcell, hafter⟩
    rw [hcaches] at hcell
    have hsame := hkept.symm.trans hafter
    rcases code_of_replicate hsame with ⟨scale, rfl⟩
    exact ⟨scale, hcell⟩
  rcases hform 0 with ⟨scale, hzero⟩
  rcases hform 1 with ⟨scale', hone⟩
  have hsame := hzero.symm.trans hone
  cases hsame

/-! ## When appends write their rows -/

/-- Every append to allocated caches of a storage writes exactly its rows. -/
def AppendWrites (arith : Arithmetic F) (storage : BufferStorage)
    (place : Except BackendError (AttentionShape × Nat)) (tokens : Nat)
    (append : CpuBuffer F → CpuBuffer F → AppendM F Unit) : Prop :=
  ∀ key value caches, Allocated key → Allocated value → Allocated caches.key →
    Allocated caches.value → caches.key.layout.storage = storage →
      WritesRows arith place tokens key value caches (append key value)

/-- A Q8 cache is refused when no cache of the size can be allocated. -/
theorem appendKvChunkByStorage_refused (operation : String) {caches : Caches F}
    {place : Except BackendError (AttentionShape × Nat)} {key value : CpuBuffer F} {k v : List F}
    {cached : Nat} (hgiven : RowsGiven key value shape tokens (k, v, cached)) (hrows : Allocated key)
    (hcache : Allocated caches.key) (hstorage : caches.key.layout.storage = .q8Kv)
    (hnone : ¬ Allocatable shape tokens) : WritesRows arith place tokens key value caches
      (appendKvChunkByStorage arith operation k v ⟨cached, shape, start, tokens⟩) := by
  apply WritesRows.get
  rw [hstorage]
  apply WritesRows.get
  apply WritesRows.check
  intro cells hcells
  apply WritesRows.check
  intro _ _
  apply WritesRows.check
  intro _ hlength
  have hlayout := hcache.q8Kv_elements hstorage (CpuBuffer.bytesMut_eq_ok.mp hcells)
    (exactLen_eq_ok.mp hlength).symm
  have hrow := hrows.f32_elements hgiven.key
  have hcached := hgiven.cached
  dsimp only at hcached hlayout
  rw [hgiven.keyLength] at hrow
  rw [hcached] at hlayout
  exact (hnone ⟨⟨_, hrow⟩, _, hlayout⟩).elim

/-- An append that writes to Q8 caches misses the rest of a row that is no whole blocks. -/
theorem not_appendWrites {place : Except BackendError (AttentionShape × Nat)}
    {append : CpuBuffer F → CpuBuffer F → AppendM F Unit} (operation : String)
    (hplace : place = .ok (shape, start)) (hdim : shape.headDim % 32 ≠ 0)
    (hend : start + tokens ≤ shape.maxContext) (hsized : Allocatable shape tokens)
    (hstep : ∀ key value rows, RowsGiven key value shape tokens rows → append key value =
      appendKvChunkByStorage arith operation rows.1 rows.2.1 ⟨rows.2.2, shape, start, tokens⟩) :
    ¬ AppendWrites arith .q8Kv place tokens append := by
  intro hwrites
  rcases hsized with ⟨⟨rowLayout, hrow⟩, cacheLayout, hcache⟩
  rcases f32_layout hrow with ⟨helements, hpos, hfits⟩
  rcases q8Kv_layout hcache with ⟨hstorage, hbytes, _⟩
  have htokens : 0 < tokens := Nat.pos_of_mul_pos_left hpos
  have hlength : cacheLayout.bytes =
      shape.nHeadKv * shape.maxContext * shape.headDim / 32 * 34 := by
    rw [hbytes, Nat.mul_div_cancel _ (by decide)]
  let values := List.replicate (shape.nHeadKv * shape.headDim * tokens) arith.zero
  let rows : CpuBuffer F := ⟨rowLayout, .f32 values⟩
  let cacheOf : UInt8 → CpuBuffer F := fun byte =>
    ⟨cacheLayout, .bytes (List.replicate cacheLayout.bytes byte)⟩
  have hrows : Allocated rows := .f32 hrow (by rw [List.length_replicate, helements])
  have hcaches : ∀ byte, Allocated (cacheOf byte) := fun byte => .q8Kv hcache List.length_replicate
  have hgiven : RowsGiven rows rows shape tokens
      (values, values, shape.nHeadKv * shape.maxContext * shape.headDim) :=
    ⟨rfl, rfl, hfits, List.length_replicate, List.length_replicate, rfl⟩
  have hfull : ∀ byte : UInt8, (List.replicate cacheLayout.bytes byte).length =
      shape.nHeadKv * shape.maxContext * shape.headDim / 32 * 34 := by
    intro byte
    rw [List.length_replicate, hlength]
  apply not_writesRows (append rows rows) (fun byte => ⟨cacheOf byte, cacheOf byte⟩) hplace htokens
    (fun _ => rfl)
  · intro byte
    rw [hstep rows rows _ hgiven]
    exact appendKvChunkByStorage_last operation hdim hend hgiven hstorage rfl rfl (hfull byte)
      (hfull byte)
  · intro byte
    exact hwrites rows rows _ hrows hrows (hcaches byte) (hcaches byte) hstorage

theorem ofExcept_ok_bind {σ ε α β : Type} (a : α) (f : α → Method σ ε β) :
    (Method.ofExcept (.ok a) >>= f : Method σ ε β) = f a := rfl

theorem kvAppend_iff (arith : Arithmetic F) (shape : AttentionShape) (position : Position F)
    (storage : BufferStorage) :
    AppendWrites arith storage ((resolvePosition position).map fun position => (shape, position)) 1
        (fun key value => kvAppend arith key value shape position) ↔
      (storage = .q8Kv → shape.headDim % 32 = 0 ∨
        ¬ ((∃ place, resolvePosition position = .ok place ∧ place < shape.maxContext) ∧
          Allocatable shape 1)) := by
  constructor
  · intro hwrites hstorage
    by_contra hnone
    rw [not_or, not_not] at hnone
    rcases hnone with ⟨hdim, ⟨place, hplace, hlt⟩, hsized⟩
    rw [hstorage] at hwrites
    apply not_appendWrites "write KV cache" (by rw [hplace]; rfl) hdim hlt hsized _ hwrites
    intro key value rows hgiven
    have hchecked : validateKvPosition place shape = .ok () := validateKvPosition_eq_ok.mpr hlt
    rw [kvAppend, hplace, ofExcept_ok_bind, hchecked, ofExcept_ok_bind,
      kvAppendBuffers_eq_ok.mpr hgiven, ofExcept_ok_bind, appendKvByStorage_eq]
  · intro hcondition key value caches hkey _ hcache _ hstorage
    by_cases hblocks : caches.key.layout.storage = .q8Kv → shape.headDim % 32 = 0
    · exact kvAppend_writes hblocks
    · rw [Classical.not_imp] at hblocks
      have hnone := (hcondition (hstorage.symm.trans hblocks.1)).resolve_left hblocks.2
      apply WritesRows.check
      intro place hplace
      apply WritesRows.check
      intro _ hlt
      apply WritesRows.check
      intro rows hrows
      rw [appendKvByStorage_eq]
      apply appendKvChunkByStorage_refused _ (kvAppendBuffers_eq_ok.mp hrows) hkey hcache hblocks.1
      exact fun hsized => hnone ⟨⟨place, hplace, validateKvPosition_eq_ok.mp hlt⟩, hsized⟩

theorem kvAppendChunk_iff (arith : Arithmetic F) (shape : AttentionShape) (start tokens : Nat)
    (storage : BufferStorage) :
    AppendWrites arith storage (.ok (shape, start)) tokens
        (fun key value => kvAppendChunk arith key value shape start tokens) ↔
      (storage = .q8Kv → shape.headDim % 32 = 0 ∨
        ¬ (start + tokens ≤ shape.maxContext ∧ Allocatable shape tokens)) := by
  constructor
  · intro hwrites hstorage
    by_contra hnone
    rw [not_or, not_not] at hnone
    rcases hnone with ⟨hdim, hend, hsized⟩
    rw [hstorage] at hwrites
    apply not_appendWrites "write prefill KV cache" rfl hdim hend hsized _ hwrites
    intro key value rows hgiven
    have hchecked : validateKvChunkPosition start tokens shape = .ok () :=
      validateKvChunkPosition_eq_ok.mpr hend
    rw [kvAppendChunk, hchecked, ofExcept_ok_bind, kvAppendChunkBuffers_eq_ok.mpr hgiven,
      ofExcept_ok_bind]
  · intro hcondition key value caches hkey _ hcache _ hstorage
    by_cases hblocks : caches.key.layout.storage = .q8Kv → shape.headDim % 32 = 0
    · exact kvAppendChunk_writes hblocks
    · rw [Classical.not_imp] at hblocks
      have hnone := (hcondition (hstorage.symm.trans hblocks.1)).resolve_left hblocks.2
      apply WritesRows.check
      intro _ hend
      apply WritesRows.check
      intro rows hrows
      apply appendKvChunkByStorage_refused _ (kvAppendChunkBuffers_eq_ok.mp hrows) hkey hcache
        hblocks.1
      exact fun hsized => hnone ⟨validateKvChunkPosition_eq_ok.mp hend, hsized⟩

/-- Appends to spans write exactly their rows. Appends to a whole cache do so unless it is a Q8 cache
whose rows are no whole blocks. -/
theorem appends_write_iff (arith : Arithmetic F) (shape : AttentionShape) (storage : BufferStorage) :
    (∀ position, AppendWrites arith storage
        ((resolvePosition position).map fun position => (shape, position)) 1
        (fun key value => kvAppend arith key value shape position) ↔
      (storage = .q8Kv → shape.headDim % 32 = 0 ∨
        ¬ ((∃ place, resolvePosition position = .ok place ∧ place < shape.maxContext) ∧
          Allocatable shape 1))) ∧
    (∀ start tokens, AppendWrites arith storage (.ok (shape, start)) tokens
        (fun key value => kvAppendChunk arith key value shape start tokens) ↔
      (storage = .q8Kv → shape.headDim % 32 = 0 ∨
        ¬ (start + tokens ≤ shape.maxContext ∧ Allocatable shape tokens))) ∧
    (∀ target position, AppendWrites arith storage (spanPlace target shape position) 1
      (fun key value => kvAppendSpan arith key value target shape position)) ∧
    ∀ target start tokens, AppendWrites arith storage
      (prepareKvChunkSpan target shape start tokens) tokens
      (fun key value => kvAppendChunkSpan arith key value target shape start tokens) := by
  refine ⟨?_, ?_, ?_, ?_⟩
  · intro position
    exact kvAppend_iff arith shape position storage
  · intro start tokens
    exact kvAppendChunk_iff arith shape start tokens storage
  · intro target position key value caches _ _ _ _ _
    exact kvAppendSpan_writes key value caches target shape position
  · intro target start tokens key value caches _ _ _ _ _
    exact kvAppendChunkSpan_writes key value caches target shape start tokens

end Straddle

/-! ## A lost row -/

/-- Integers as far as the quotients are exact. One `f16` is given: the one of the value 1. -/
def integers : Arithmetic Int where
  zero := 0
  abs value := value.natAbs
  max := max
  isZero value := decide (value = 0)
  div := (· / ·)
  mul := (· * ·)
  limit := 127
  code value := Int8.ofInt value
  ofCode code := code.toInt
  half value := if value = 1 then 0x3c00 else 0
  ofHalf bits := if bits = 0x3c00 then 1 else 0

def halfBlockShape : AttentionShape :=
  ⟨1, 1, 16, 2, Nat.one_pos, Nat.succ_pos 15, Nat.two_pos, by decide⟩

def halfBlockRows : CpuBuffer Int := ⟨⟨.f32, 16, 64⟩, .f32 (List.replicate 16 127)⟩

def emptyBlock : CpuBuffer Int := ⟨⟨.q8Kv, 32, 34⟩, .bytes (List.replicate 34 0)⟩

/-- A row of half a block is not stored at all. -/
theorem kvAppend_loses_row :
    (kvAppend integers halfBlockRows halfBlockRows halfBlockShape (.host 0)).run
      ⟨emptyBlock, emptyBlock⟩ = .ok () ⟨emptyBlock, emptyBlock⟩ := by
  rfl

theorem not_appends_write : Allocated halfBlockRows ∧ Allocated emptyBlock ∧
    ¬ WritesRows integers (.ok (halfBlockShape, 0)) 1 halfBlockRows halfBlockRows
      ⟨emptyBlock, emptyBlock⟩
      (kvAppend integers halfBlockRows halfBlockRows halfBlockShape (.host 0)) := by
  have hrows : BufferLayout.f32 16 = .ok ⟨.f32, 16, 64⟩ := by decide
  have hcache : BufferLayout.q8Kv 32 = .ok ⟨.q8Kv, 32, 34⟩ := by decide
  refine ⟨.f32 hrows rfl, .q8Kv hcache rfl, ?_⟩
  intro hwrites
  rcases hwrites.of_ok kvAppend_loses_row with ⟨shape, start, hplace, hkey, _⟩
  cases hplace
  rcases hkey.stored 0 (by decide) 0 (by decide) 0 (by decide) with ⟨cell, hform, hstored⟩
  have hcell : some cell = some (Stored.q8 0x3c00 127) := hform.symm
  have hcell' : some cell = some (Stored.q8 0 0) := hstored.symm
  have hsame := hcell.symm.trans hcell'
  cases hsame

end Leone.Cpu

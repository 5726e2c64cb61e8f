import Leone.Cpu.Attention
import Leone.Cpu.Frame

/-!
# Caches filled row by row

Appends with rows of the size of a cache succeed on a cache of the layout of its shape. The cache then
loads the stored form of each row that was appended, and what it held at the other places.
-/

namespace Leone.Cpu

open Framework Framework.Method Kv

section Fill

variable {F : Type} (arith : Arithmetic F)

/-! ## Caches of a shape -/

/-- Two caches that were allocated for a shape in a storage. -/
structure CachesFor (storage : BufferStorage) (shape : AttentionShape) (caches : Caches F) : Prop where
  layout : expectedKvSpanLayout storage shape = .ok caches.key.layout
  same : caches.value.layout = caches.key.layout
  key : Allocated caches.key
  value : Allocated caches.value

/-- The storages of KV caches. -/
def IsKv (storage : BufferStorage) : Prop := storage = .f32 ∨ storage = .f16 ∨ storage = .q8Kv

theorem map_eq_ok {ε α β : Type} {x : Except ε α} {f : α → β} {b : β} :
    x.map f = .ok b ↔ ∃ a, x = .ok a ∧ f a = b := by
  cases x <;> simp [Except.map]

theorem expectedKvSpanLayout_eq_ok {storage : BufferStorage} {shape : AttentionShape}
    {layout : BufferLayout} (h : expectedKvSpanLayout storage shape = .ok layout) :
    IsKv storage ∧ layout.storage = storage ∧
      layout.elements = shape.nHeadKv * shape.maxContext * shape.headDim ∧
      (storage = .q8Kv → shape.headDim % 32 = 0 ∧ layout.bytes = layout.elements / 32 * 34) := by
  rw [expectedKvSpanLayout, cacheElements_eq] at h
  cases storage with
  | u32 | q4K | q6K => cases h
  | f32 =>
    rcases map_eq_ok.mp h with ⟨bytes, _, rfl⟩
    exact ⟨.inl rfl, rfl, rfl, by simp⟩
  | f16 =>
    rcases map_eq_ok.mp h with ⟨bytes, _, rfl⟩
    exact ⟨.inr (.inl rfl), rfl, rfl, by simp⟩
  | q8Kv =>
    rw [bind_eq_ok] at h
    rcases h with ⟨elements, helements, h⟩
    cases helements
    by_cases hdim : shape.headDim % 32 = 0
    · rw [if_neg (not_not.mpr hdim)] at h
      rcases map_eq_ok.mp h with ⟨bytes, hbytes, rfl⟩
      simp only [Kv.q8Kv, bind_eq_ok, sized_eq_ok, checkedMul_eq_some] at hbytes
      rcases hbytes with ⟨_, _, _, _, _, heq⟩
      exact ⟨.inr (.inr rfl), rfl, rfl, fun _ => ⟨hdim, heq.symm⟩⟩
    · rw [if_pos hdim] at h
      cases h

/-- Storage of one kind and one size. -/
def CpuStorage.Resembles : CpuStorage F → CpuStorage F → Prop
  | .bytes cells, .bytes cells' => cells'.length = cells.length
  | .f16 values, .f16 values' => values'.length = values.length
  | .f32 values, .f32 values' => values'.length = values.length
  | .u32 values, .u32 values' => values'.length = values.length
  | _, _ => False

theorem Allocated.refill {layout : BufferLayout} {storage storage' : CpuStorage F}
    (h : Allocated ⟨layout, storage⟩) (hsame : storage.Resembles storage') :
    Allocated ⟨layout, storage'⟩ := by
  cases h with
  | f16 hlayout hlength =>
    cases storage' with
    | f16 values => exact .f16 hlayout (hsame.trans hlength)
    | bytes | f32 | u32 => exact hsame.elim
  | f32 hlayout hlength =>
    cases storage' with
    | f32 values => exact .f32 hlayout (hsame.trans hlength)
    | bytes | f16 | u32 => exact hsame.elim
  | u32 hlayout hlength =>
    cases storage' with
    | u32 values => exact .u32 hlayout (hsame.trans hlength)
    | bytes | f16 | f32 => exact hsame.elim
  | q8Kv hlayout hlength =>
    cases storage' with
    | bytes cells => exact .q8Kv hlayout (hsame.trans hlength)
    | f16 | f32 | u32 => exact hsame.elim
  | q4K hlayout hlength =>
    cases storage' with
    | bytes cells => exact .q4K hlayout (hsame.trans hlength)
    | f16 | f32 | u32 => exact hsame.elim
  | q6K hlayout hlength =>
    cases storage' with
    | bytes cells => exact .q6K hlayout (hsame.trans hlength)
    | f16 | f32 | u32 => exact hsame.elim

/-- The cells of allocated storage. -/
theorem Allocated.cells {buffer : CpuBuffer F} (h : Allocated buffer) :
    match buffer.storage with
    | .f32 values => buffer.layout.storage = .f32 ∧ values.length = buffer.layout.elements
    | .f16 values => buffer.layout.storage = .f16 ∧ values.length = buffer.layout.elements
    | .u32 values => buffer.layout.storage = .u32 ∧ values.length = buffer.layout.elements
    | .bytes cells => (buffer.layout.storage = .q8Kv ∨ buffer.layout.storage = .q4K ∨
        buffer.layout.storage = .q6K) ∧ cells.length = buffer.layout.bytes := by
  cases h with
  | f16 hlayout hlength =>
    rcases map_eq_ok.mp hlayout with ⟨_, _, rfl⟩
    exact ⟨rfl, hlength⟩
  | f32 hlayout hlength =>
    rcases map_eq_ok.mp hlayout with ⟨_, _, rfl⟩
    exact ⟨rfl, hlength⟩
  | u32 hlayout hlength =>
    rcases map_eq_ok.mp hlayout with ⟨_, _, rfl⟩
    exact ⟨rfl, hlength⟩
  | q8Kv hlayout hlength =>
    rcases map_eq_ok.mp hlayout with ⟨_, _, rfl⟩
    exact ⟨.inl rfl, hlength⟩
  | q4K hlayout hlength =>
    simp only [BufferLayout.quantized, bind_eq_ok] at hlayout
    rcases hlayout with ⟨_, _, _, _, _, _, hlayout⟩
    cases hlayout
    exact ⟨.inr (.inl rfl), hlength⟩
  | q6K hlayout hlength =>
    simp only [BufferLayout.quantized, bind_eq_ok] at hlayout
    rcases hlayout with ⟨_, _, _, _, _, _, hlayout⟩
    cases hlayout
    exact ⟨.inr (.inr rfl), hlength⟩

/-- The cells of a cache of a shape, by its storage. -/
inductive Cells (storage : BufferStorage) (cached : Nat) (buffer : CpuBuffer F) : Prop
  | f32 (values : List F) (hstorage : storage = .f32) (hvalues : buffer.storage = .f32 values)
      (hlength : values.length = cached)
  | f16 (values : List UInt16) (hstorage : storage = .f16) (hvalues : buffer.storage = .f16 values)
      (hlength : values.length = cached)
  | q8Kv (cells : List UInt8) (hstorage : storage = .q8Kv) (hcells : buffer.storage = .bytes cells)
      (hlength : cells.length = cached / 32 * 34)

theorem Allocated.kvCells {storage : BufferStorage} {shape : AttentionShape} {buffer : CpuBuffer F}
    (h : Allocated buffer) (hlayout : expectedKvSpanLayout storage shape = .ok buffer.layout) :
    Cells storage (shape.nHeadKv * shape.maxContext * shape.headDim) buffer := by
  rcases expectedKvSpanLayout_eq_ok hlayout with ⟨hkv, hstorage, helements, hblocks⟩
  have hcells := h.cells
  rw [hstorage] at hcells
  rcases hkv with rfl | rfl | rfl
  · cases hbuffer : buffer.storage with
    | f32 values =>
      rw [hbuffer] at hcells
      exact .f32 values rfl hbuffer (hcells.2.trans helements)
    | bytes | f16 | u32 => simp [hbuffer] at hcells
  · cases hbuffer : buffer.storage with
    | f16 values =>
      rw [hbuffer] at hcells
      exact .f16 values rfl hbuffer (hcells.2.trans helements)
    | bytes | f32 | u32 => simp [hbuffer] at hcells
  · cases hbuffer : buffer.storage with
    | bytes cells =>
      rw [hbuffer] at hcells
      refine .q8Kv cells rfl hbuffer ?_
      rw [hcells.2, (hblocks rfl).2, helements]
    | f16 | f32 | u32 => simp [hbuffer] at hcells

/-! ## Appends that succeed -/

/-- A cache whose rows were written, in the storage that it had. -/
structure Appended (shape : AttentionShape) (start tokens : Nat) (rows before after : CpuBuffer F) :
    Prop where
  layout : after.layout = before.layout
  resembles : before.storage.Resembles after.storage
  wrote : Wrote arith shape start tokens rows before after

/-- An append that succeeds and writes its rows in both caches. -/
def Succeeds (shape : AttentionShape) (start tokens : Nat) (key value : CpuBuffer F)
    (caches : Caches F) (append : AppendM F Unit) : Prop :=
  append.Ends caches
    (fun _ after => Appended arith shape start tokens key caches.key after.key ∧
      Appended arith shape start tokens value caches.value after.value)
    (fun _ _ => False)

variable {arith} {shape : AttentionShape} {start tokens : Nat}

theorem appendRows_succeeds {α : Type} {format : CacheFormat F α}
    (hstores : format.Stores arith shape.headDim (shape.nHeadKv * shape.maxContext * shape.headDim))
    (hsame : ∀ cells cells' : List α, cells'.length = cells.length →
      (format.wrap cells).Resembles (format.wrap cells'))
    (hend : start + tokens ≤ shape.maxContext) {key value : CpuBuffer F}
    {rows : List F × List F × Nat} (hgiven : RowsGiven key value shape tokens rows)
    {caches : Caches F} {k v : List α} (hkey : format.cells caches.key = .ok k)
    (hvalue : format.cells caches.value = .ok v)
    (hklen : k.length = format.size (shape.nHeadKv * shape.maxContext * shape.headDim))
    (hvlen : v.length = format.size (shape.nHeadKv * shape.maxContext * shape.headDim)) :
    Succeeds arith shape start tokens key value caches
      (appendRows format rows.1 rows.2.1 rows.2.2 shape.headDim (chunkRows shape start tokens)) := by
  have hkrows := hgiven.rows.1
  have hvrows := hgiven.rows.2
  have hunique : ∀ row ∈ chunkRows shape start tokens, ∀ row' ∈ chunkRows shape start tokens,
      row.2 = row'.2 → row = row' := fun _ h _ h' => chunkRows_unique hend h h'
  rw [← hgiven.cached] at hstores hklen hvlen
  rcases foldlM_storeRow hstores (fun _ hrow => (hgiven.rowFits hend hrow).1) hunique hklen with
    ⟨k', hkrun, hkwritten⟩
  rcases foldlM_storeRow hstores (fun _ hrow => (hgiven.rowFits hend hrow).2) hunique hvlen with
    ⟨v', hvrun, hvwritten⟩
  apply (run_appendRows hkey hvalue hklen hvlen hkrun hvrun).mono
  · intro _ after hafter
    subst hafter
    rw [← hkrows] at hkwritten
    rw [← hvrows] at hvwritten
    have hkstorage := hstores.cells _ _ hkey
    have hvstorage := hstores.cells _ _ hvalue
    refine ⟨⟨rfl, ?_, ?_⟩, rfl, ?_, ?_⟩
    · rw [hkstorage]
      exact hsame k k' hkwritten.length
    · apply wrote_of_rowsWritten hstores hend _ hkstorage hkwritten
      rw [hkrows, hgiven.keyLength]
    · rw [hvstorage]
      exact hsame v v' hvwritten.length
    · apply wrote_of_rowsWritten hstores hend _ hvstorage hvwritten
      rw [hvrows, hgiven.valueLength]
  · exact fun _ _ h => h

theorem appendKvChunkByStorage_succeeds (operation : String) {storage : BufferStorage}
    {caches : Caches F} (hcaches : CachesFor storage shape caches)
    (hend : start + tokens ≤ shape.maxContext) {key value : CpuBuffer F} {k v : List F} {cached : Nat}
    (hgiven : RowsGiven key value shape tokens (k, v, cached)) :
    Succeeds arith shape start tokens key value caches
      (appendKvChunkByStorage arith operation k v ⟨cached, shape, start, tokens⟩) := by
  have hlayout := expectedKvSpanLayout_eq_ok hcaches.layout
  have hkey := hcaches.key.kvCells hcaches.layout
  have hvalue := hcaches.value.kvCells (hcaches.same ▸ hcaches.layout)
  unfold Succeeds appendKvChunkByStorage
  rw [ends_bind, ends_get, hlayout.2.1]
  cases hkey with
  | f32 values hstorage hvalues hlength =>
    subst hstorage
    cases hvalue with
    | f16 | q8Kv => contradiction
    | f32 values' _ hvalues' hlength' =>
      exact appendRows_succeeds (f32Format_stores arith _ _) (fun _ _ h => h) hend hgiven
        (CpuBuffer.f32Mut_eq_ok.mpr hvalues) (CpuBuffer.f32Mut_eq_ok.mpr hvalues') hlength hlength'
  | f16 values hstorage hvalues hlength =>
    subst hstorage
    cases hvalue with
    | f32 | q8Kv => contradiction
    | f16 values' _ hvalues' hlength' =>
      exact appendRows_succeeds (f16Format_stores arith _ _) (fun _ _ h => h) hend hgiven
        (CpuBuffer.f16Mut_eq_ok.mpr hvalues) (CpuBuffer.f16Mut_eq_ok.mpr hvalues') hlength hlength'
  | q8Kv cells hstorage hcells hlength =>
    subst hstorage
    cases hvalue with
    | f32 | f16 => contradiction
    | q8Kv cells' _ hcells' hlength' =>
      exact appendRows_succeeds (q8Format_stores arith (hlayout.2.2.2 rfl).1 _) (fun _ _ h => h) hend
        hgiven (CpuBuffer.bytesMut_eq_ok.mpr hcells) (CpuBuffer.bytesMut_eq_ok.mpr hcells') hlength
        hlength'

/-- Appends leave caches of the shape. -/
theorem CachesFor.appended {storage : BufferStorage} {before after : Caches F}
    (h : CachesFor storage shape before) {key value : CpuBuffer F}
    (hkey : Appended arith shape start tokens key before.key after.key)
    (hvalue : Appended arith shape start tokens value before.value after.value) :
    CachesFor storage shape after := by
  rcases before with ⟨⟨keyLayout, keyStorage⟩, ⟨valueLayout, valueStorage⟩⟩
  rcases after with ⟨⟨keyLayout', keyStorage'⟩, ⟨valueLayout', valueStorage'⟩⟩
  cases hkey.layout
  cases hvalue.layout
  exact ⟨h.layout, h.same, h.key.refill hkey.resembles, h.value.refill hvalue.resembles⟩

end Fill

end Leone.Cpu

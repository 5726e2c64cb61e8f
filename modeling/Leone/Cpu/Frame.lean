import Leone.Cpu.Runs

/-!
# What an append writes

An append writes the rows of its positions and nothing else, and a refused append writes nothing.
Spans check that the rows of a Q8 cache are whole blocks. The appends to a whole cache do not.
-/

namespace Leone.Cpu

open Framework Framework.Method Kv

section Frame

variable {F : Type} (arith : Arithmetic F)

def CpuBuffer.rows (buffer : CpuBuffer F) : List F :=
  match buffer.storage with
  | .f32 values => values
  | _ => []

/-- Where the values of a head at a position begin. -/
def cellOf (shape : AttentionShape) (head position : Nat) : Nat :=
  (head * shape.maxContext + position) * shape.headDim

/-- The given values of a head for a token. -/
def rowOf (shape : AttentionShape) (rows : CpuBuffer F) (token head : Nat) : List F :=
  let source := (token * shape.nHeadKv + head) * shape.headDim
  slice rows.rows source (source + shape.headDim)

/-- A cache holds the stored form of the rows at the appended positions, and every other position
loads the value it had. -/
structure Wrote (shape : AttentionShape) (start tokens : Nat) (rows before after : CpuBuffer F) :
    Prop where
  stored : ∀ head < shape.nHeadKv, ∀ token < tokens, ∀ dimension < shape.headDim, ∃ cell,
    before.storage.form arith (rowOf shape rows token head) dimension = some cell ∧
      after.storage.stored (cellOf shape head (start + token) + dimension) = some cell
  kept : ∀ head < shape.nHeadKv, ∀ position < shape.maxContext,
    ¬ (start ≤ position ∧ position < start + tokens) → ∀ dimension < shape.headDim, ∀ operation,
      cacheValue arith after (cellOf shape head position + dimension) operation =
        cacheValue arith before (cellOf shape head position + dimension) operation

/-- An append either writes its rows in both caches at its place, or returns an error and writes
nothing. -/
def WritesRows (place : Except BackendError (AttentionShape × Nat)) (tokens : Nat)
    (key value : CpuBuffer F) (caches : Caches F) (append : AppendM F Unit) : Prop :=
  append.Ends caches
    (fun _ after => ∃ shape start, place = .ok (shape, start) ∧
      Wrote arith shape start tokens key caches.key after.key ∧
      Wrote arith shape start tokens value caches.value after.value)
    (fun fault after => fault ≠ .panic ∧ after = caches)

/-! ## Checks -/

theorem cacheElements_eq (shape : AttentionShape) :
    cacheElements shape = .ok (shape.nHeadKv * shape.maxContext * shape.headDim) := by
  have hlt := shape.kvElements_lt
  have hle := Nat.le_mul_of_pos_right (shape.nHeadKv * shape.maxContext) shape.headDim_pos
  rw [cacheElements, sized_eq_ok, Option.bind_eq_some_iff]
  exact ⟨_, checkedMul_eq_some.mpr ⟨by omega, rfl⟩, checkedMul_eq_some.mpr ⟨hlt, rfl⟩⟩

theorem projectedKvElements_eq (shape : AttentionShape) :
    projectedKvElements shape = .ok (shape.nHeadKv * shape.headDim) := by
  have hlt := shape.kvElements_lt
  have hle := Nat.mul_le_mul_right shape.headDim
    (Nat.le_mul_of_pos_right shape.nHeadKv shape.maxContext_pos)
  rw [projectedKvElements, sized_eq_ok, checkedMul_eq_some]
  exact ⟨by omega, rfl⟩

theorem exactLen_eq_ok {name : String} {expected actual : Nat} {u : Unit} :
    exactLen name expected actual = .ok u ↔ expected = actual := by
  unfold exactLen
  split <;> simp_all

/-- The rows of an append that passes its checks. -/
structure RowsGiven (key value : CpuBuffer F) (shape : AttentionShape) (tokens : Nat)
    (rows : List F × List F × Nat) : Prop where
  key : key.storage = .f32 rows.1
  value : value.storage = .f32 rows.2.1
  fits : shape.nHeadKv * shape.headDim * tokens < 2 ^ 64
  keyLength : rows.1.length = shape.nHeadKv * shape.headDim * tokens
  valueLength : rows.2.1.length = shape.nHeadKv * shape.headDim * tokens
  cached : rows.2.2 = shape.nHeadKv * shape.maxContext * shape.headDim

theorem kvAppendChunkBuffers_eq_ok {key value : CpuBuffer F} {shape : AttentionShape} {tokens : Nat}
    {rows : List F × List F × Nat} :
    kvAppendChunkBuffers key value shape tokens = .ok rows ↔ RowsGiven key value shape tokens rows := by
  simp only [kvAppendChunkBuffers, bind_eq_ok, projectedKvElements_eq, cacheElements_eq,
    sized_eq_ok, checkedMul_eq_some, CpuBuffer.f32_eq_ok, exactLen_eq_ok]
  constructor
  · rintro ⟨k, hk, v, hv, _, ⟨⟩, _, ⟨hfits, rfl⟩, _, hklen, _, hvlen, _, ⟨⟩, ⟨⟩⟩
    exact ⟨hk, hv, hfits, hklen.symm, hvlen.symm, rfl⟩
  · intro h
    rcases rows with ⟨k, v, c⟩
    refine ⟨k, h.key, v, h.value, _, rfl, _, ⟨h.fits, rfl⟩, (), h.keyLength.symm, (),
      h.valueLength.symm, _, rfl, ?_⟩
    rw [← h.cached]
    rfl

theorem kvAppendBuffers_eq_ok {key value : CpuBuffer F} {shape : AttentionShape}
    {rows : List F × List F × Nat} :
    kvAppendBuffers key value shape = .ok rows ↔ RowsGiven key value shape 1 rows := by
  simp only [kvAppendBuffers, bind_eq_ok, projectedKvElements_eq, cacheElements_eq,
    CpuBuffer.f32_eq_ok, exactLen_eq_ok]
  constructor
  · rintro ⟨k, hk, v, hv, _, ⟨⟩, _, ⟨⟩, _, hklen, _, hvlen, ⟨⟩⟩
    refine ⟨hk, hv, ?_, ?_, ?_, rfl⟩ <;> rw [Nat.mul_one]
    · exact (checkedMul_eq_some.mp (sized_eq_ok.mp (projectedKvElements_eq shape))).1
    · exact hklen.symm
    · exact hvlen.symm
  · intro h
    rcases rows with ⟨k, v, c⟩
    have hk := h.keyLength
    have hv := h.valueLength
    rw [Nat.mul_one] at hk hv
    refine ⟨k, h.key, v, h.value, _, rfl, _, rfl, (), hk.symm, (), hv.symm, ?_⟩
    rw [← h.cached]
    rfl

theorem RowsGiven.rows {key value : CpuBuffer F} {shape : AttentionShape} {tokens : Nat}
    {rows : List F × List F × Nat} (h : RowsGiven key value shape tokens rows) :
    key.rows = rows.1 ∧ value.rows = rows.2.1 := by
  unfold CpuBuffer.rows
  rw [h.key, h.value]
  exact ⟨rfl, rfl⟩

/-- The rows of a chunk in the context lie in the given rows and in the cache. -/
theorem RowsGiven.rowFits {key value : CpuBuffer F} {shape : AttentionShape} {start tokens : Nat}
    {rows : List F × List F × Nat} (h : RowsGiven key value shape tokens rows)
    (hend : start + tokens ≤ shape.maxContext) {row : Nat × Nat}
    (hrow : row ∈ chunkRows shape start tokens) :
    RowFits shape.headDim rows.2.2 rows.1.length row ∧
      RowFits shape.headDim rows.2.2 rows.2.1.length row := by
  rw [h.cached, h.keyLength, h.valueLength]
  exact ⟨chunkRows_fits hend hrow, chunkRows_fits hend hrow⟩

theorem appendKvByStorage_eq (key value : List F) (cached : Nat) (shape : AttentionShape)
    (position : Nat) : appendKvByStorage arith key value cached shape position =
      appendKvChunkByStorage arith "write KV cache" key value ⟨cached, shape, position, 1⟩ := by
  unfold appendKvByStorage appendKvChunkByStorage appendKvF32 appendKvF16 appendKvQ8
    appendKvChunkF32 appendKvChunkF16 appendKvChunkQ8 KvChunkSpec.rows
  simp only [positionRows_eq]

/-! ## Appends that write whole rows -/

variable {arith} {α : Type} {format : CacheFormat F α} {shape : AttentionShape} {start tokens : Nat}

theorem wrote_of_rowsWritten {cached : Nat} (hstores : format.Stores arith shape.headDim cached)
    (hend : start + tokens ≤ shape.maxContext) {rows before : CpuBuffer F} {cells cells' : List α}
    (hlength : rows.rows.length = shape.nHeadKv * shape.headDim * tokens)
    (hbefore : before.storage = format.wrap cells)
    (hwritten : RowsWritten arith format shape.headDim rows.rows (chunkRows shape start tokens)
      cells cells') :
    Wrote arith shape start tokens rows before { before with storage := format.wrap cells' } := by
  constructor
  · intro head hhead token htoken dimension hdimension
    have hrow : ((token * shape.nHeadKv + head) * shape.headDim,
        (head * shape.maxContext + start + token) * shape.headDim) ∈ chunkRows shape start tokens :=
      mem_chunkRows.mpr ⟨token, htoken, head, hhead, rfl⟩
    have hfits := chunkRows_fits hend hrow
    rw [← hlength] at hfits
    have hlt : dimension < (rowOf shape rows token head).length := by
      rw [rowOf, length_row hfits.source]
      exact hdimension
    rcases hstores.found cells _ dimension hlt with ⟨cell, hcell⟩
    refine ⟨cell, ?_, ?_⟩
    · rw [hbefore]
      exact hcell
    · rw [← hcell, cellOf, ← Nat.add_assoc]
      exact hwritten.stored _ hrow dimension hdimension
  · intro head hhead position hposition houtside dimension hdimension operation
    rw [← show (⟨before.layout, format.wrap cells⟩ : CpuBuffer F) = before by rw [← hbefore]]
    apply hstores.value
    apply hwritten.kept
    intro row hrow hinside
    rcases mem_chunkRows.mp hrow with ⟨token, htoken, head', hhead', rfl⟩
    have hsame := aligned_apart (Nat.dvd_mul_left _ _) (Nat.dvd_mul_left _ _) hinside
      ⟨Nat.le_add_right (cellOf shape head position) _, Nat.add_lt_add_left hdimension _⟩
    have hplace := Nat.eq_of_mul_eq_mul_right shape.headDim_pos hsame
    rw [Nat.add_assoc] at hplace
    have h := (place_unique (by omega) hposition hplace).2
    omega

/-- Whole rows are written in both caches. -/
theorem appendRows_writes
    (hstores : format.Stores arith shape.headDim (shape.nHeadKv * shape.maxContext * shape.headDim))
    (hend : start + tokens ≤ shape.maxContext) {key value : CpuBuffer F}
    {rows : List F × List F × Nat} (hgiven : RowsGiven key value shape tokens rows)
    (caches : Caches F) : WritesRows arith (.ok (shape, start)) tokens key value caches
      (appendRows format rows.1 rows.2.1 rows.2.2 shape.headDim (chunkRows shape start tokens)) := by
  unfold WritesRows appendRows
  rw [ends_bind, ends_get, ends_bind, ends_ofExcept]
  refine ⟨?_, fun e _ => ⟨nofun, rfl⟩⟩
  intro k hk
  rw [ends_bind, ends_ofExcept]
  refine ⟨?_, fun e _ => ⟨nofun, rfl⟩⟩
  intro v hv
  rw [ends_bind, ends_ofExcept]
  refine ⟨?_, fun e _ => ⟨nofun, rfl⟩⟩
  intro _ hklen
  rw [ends_bind, ends_ofExcept]
  refine ⟨?_, fun e _ => ⟨nofun, rfl⟩⟩
  intro _ hvlen
  have hkrows := hgiven.rows.1
  have hvrows := hgiven.rows.2
  have hunique : ∀ row ∈ chunkRows shape start tokens, ∀ row' ∈ chunkRows shape start tokens,
      row.2 = row'.2 → row = row' := fun _ h _ h' => chunkRows_unique hend h h'
  rw [← hgiven.cached] at hstores
  rcases foldlM_storeRow hstores (fun _ hrow => (hgiven.rowFits hend hrow).1) hunique (exactLen_eq_ok.mp hklen).symm with
    ⟨k', hkrun, hkwritten⟩
  rcases foldlM_storeRow hstores (fun _ hrow => (hgiven.rowFits hend hrow).2) hunique (exactLen_eq_ok.mp hvlen).symm with
    ⟨v', hvrun, hvwritten⟩
  rw [ends_zoom, Ends, run_rows hkrun hvrun]
  rw [← hkrows] at hkwritten
  rw [← hvrows] at hvwritten
  refine ⟨shape, start, rfl, ?_, ?_⟩
  · apply wrote_of_rowsWritten hstores hend _ (hstores.cells _ _ hk) hkwritten
    rw [hkrows, hgiven.keyLength]
  · apply wrote_of_rowsWritten hstores hend _ (hstores.cells _ _ hv) hvwritten
    rw [hvrows, hgiven.valueLength]

/-- Appends write whole rows when the rows of a Q8 cache are whole blocks. -/
theorem appendKvChunkByStorage_writes (operation : String) {caches : Caches F}
    (hblocks : caches.key.layout.storage = .q8Kv → shape.headDim % 32 = 0)
    (hend : start + tokens ≤ shape.maxContext) {key value : CpuBuffer F} {k v : List F} {cached : Nat}
    (hgiven : RowsGiven key value shape tokens (k, v, cached)) :
    WritesRows arith (.ok (shape, start)) tokens key value caches
      (appendKvChunkByStorage arith operation k v ⟨cached, shape, start, tokens⟩) := by
  unfold WritesRows appendKvChunkByStorage
  rw [ends_bind, ends_get]
  split
  · exact appendRows_writes (f32Format_stores arith _ _) hend hgiven caches
  · exact appendRows_writes (f16Format_stores arith _ _) hend hgiven caches
  · rename_i hstorage
    exact appendRows_writes (q8Format_stores arith (hblocks hstorage) _) hend hgiven caches
  · exact ⟨nofun, rfl⟩

/-! ## The operations -/

theorem WritesRows.of_eq {place place' : Except BackendError (AttentionShape × Nat)}
    {key value : CpuBuffer F} {caches : Caches F} {append : AppendM F Unit}
    (h : WritesRows arith place tokens key value caches append)
    (hplace : ∀ shape start, place = .ok (shape, start) → place' = .ok (shape, start)) :
    WritesRows arith place' tokens key value caches append := by
  apply Ends.mono h
  · intro _ after hafter
    rcases hafter with ⟨shape, start, heq, hwrote⟩
    exact ⟨shape, start, hplace shape start heq, hwrote⟩
  · exact fun _ _ herr => herr

theorem WritesRows.get {place : Except BackendError (AttentionShape × Nat)}
    {key value : CpuBuffer F} {caches : Caches F} {append : Caches F → AppendM F Unit}
    (h : WritesRows arith place tokens key value caches (append caches)) :
    WritesRows arith place tokens key value caches (get >>= append) := by
  unfold WritesRows at *
  rw [ends_bind, ends_get]
  exact h

/-- A check before an append either refuses it or leaves it to go on. -/
theorem WritesRows.check {β : Type} {place : Except BackendError (AttentionShape × Nat)}
    {key value : CpuBuffer F} {caches : Caches F} {check : Except BackendError β}
    {append : β → AppendM F Unit}
    (h : ∀ b, check = .ok b → WritesRows arith place tokens key value caches (append b)) :
    WritesRows arith place tokens key value caches (ofExcept check >>= append) := by
  unfold WritesRows at *
  rw [ends_bind, ends_ofExcept]
  exact ⟨h, fun e _ => ⟨nofun, rfl⟩⟩

theorem validateKvPosition_eq_ok {position : Nat} {u : Unit} :
    validateKvPosition position shape = .ok u ↔ position < shape.maxContext := by
  unfold validateKvPosition
  split <;> simp_all

theorem validateKvChunkPosition_eq_ok {u : Unit} :
    validateKvChunkPosition start tokens shape = .ok u ↔ start + tokens ≤ shape.maxContext := by
  have hlt := shape.maxContext_lt
  rw [validateKvChunkPosition, bind_eq_ok]
  simp only [sized_eq_ok, checkedAdd_eq_some]
  constructor
  · rintro ⟨_, ⟨_, rfl⟩, h⟩
    split at h
    · cases h
    · omega
  · intro h
    exact ⟨_, ⟨by omega, rfl⟩, if_neg (by omega)⟩

theorem kvAppend_writes {key value : CpuBuffer F} {caches : Caches F} {position : Position F}
    (hblocks : caches.key.layout.storage = .q8Kv → shape.headDim % 32 = 0) :
    WritesRows arith ((resolvePosition position).map fun position => (shape, position)) 1 key value
      caches (kvAppend arith key value shape position) := by
  apply WritesRows.check
  intro position hposition
  apply WritesRows.check
  intro _ hlt
  apply WritesRows.check
  intro rows hrows
  rw [appendKvByStorage_eq, hposition]
  exact appendKvChunkByStorage_writes _ hblocks (validateKvPosition_eq_ok.mp hlt)
    (kvAppendBuffers_eq_ok.mp hrows)

theorem kvAppendChunk_writes {key value : CpuBuffer F} {caches : Caches F}
    (hblocks : caches.key.layout.storage = .q8Kv → shape.headDim % 32 = 0) :
    WritesRows arith (.ok (shape, start)) tokens key value caches
      (kvAppendChunk arith key value shape start tokens) := by
  apply WritesRows.check
  intro _ hend
  apply WritesRows.check
  intro rows hrows
  exact appendKvChunkByStorage_writes _ hblocks (validateKvChunkPosition_eq_ok.mp hend)
    (kvAppendChunkBuffers_eq_ok.mp hrows)

/-! ## Spans -/

theorem physicalAttentionShape_eq_ok {capacityTokens : Nat} {physical : AttentionShape}
    (h : physicalAttentionShape shape capacityTokens = .ok physical) :
    physical.nHeadKv = shape.nHeadKv ∧ physical.headDim = shape.headDim ∧
      physical.maxContext = capacityTokens := by
  unfold physicalAttentionShape AttentionShape.new at h
  rw [bind_eq_ok] at h
  rcases h with ⟨_, _, h⟩
  split_ifs at h
  cases h
  exact ⟨rfl, rfl, rfl⟩

theorem localPosition_lt {span : KvWriteSpan} {absolute position : Nat}
    (h : span.localPosition absolute = .ok position) : position < span.capacityTokens := by
  unfold KvWriteSpan.localPosition at h
  split at h
  · cases h
  · split at h
    · cases h
    · cases h
      omega

theorem localRange_le {span : KvWriteSpan} {absolute position : Nat}
    (h : span.localRange absolute tokens = .ok position) :
    position + tokens ≤ span.capacityTokens := by
  unfold KvWriteSpan.localRange at h
  split at h
  · cases h
  · rw [bind_eq_ok] at h
    rcases h with ⟨stop, hstop, h⟩
    have hsum := (checkedAdd_eq_some.mp (sized_eq_ok.mp hstop)).2
    split at h
    · cases h
    · cases h
      omega

/-- The caches of a span hold rows of whole blocks. -/
theorem validateKvSpanBuffers_blocks {caches : Caches F} {u : Unit}
    (h : validateKvSpanBuffers caches shape = .ok u)
    (hstorage : caches.key.layout.storage = .q8Kv) : shape.headDim % 32 = 0 := by
  unfold validateKvSpanBuffers at h
  split at h
  · cases h
  · rw [bind_eq_ok] at h
    rcases h with ⟨layout, hlayout, _⟩
    rw [expectedKvSpanLayout, bind_eq_ok, hstorage] at hlayout
    rcases hlayout with ⟨_, _, hlayout⟩
    by_contra hdim
    rw [if_pos hdim] at hlayout
    cases hlayout

theorem RowsGiven.physical {key value : CpuBuffer F} {rows : List F × List F × Nat}
    (h : RowsGiven key value shape tokens rows) {physical : AttentionShape}
    (hheads : physical.nHeadKv = shape.nHeadKv) (hdim : physical.headDim = shape.headDim) :
    RowsGiven key value physical tokens
      (rows.1, rows.2.1, physical.nHeadKv * physical.maxContext * physical.headDim) := by
  constructor
  · exact h.key
  · exact h.value
  · rw [hheads, hdim]
    exact h.fits
  · rw [hheads, hdim]
    exact h.keyLength
  · rw [hheads, hdim]
    exact h.valueLength
  · rfl

/-- The shape of a span and the place of a position in it. -/
def spanPlace (target : KvWriteSpan) (shape : AttentionShape) (position : Position F) :
    Except BackendError (AttentionShape × Nat) := do
  let position ← resolvePosition position
  let localPosition ← target.localPosition position
  let physicalShape ← physicalAttentionShape shape target.capacityTokens
  return (physicalShape, localPosition)

theorem kvAppendSpan_writes (key value : CpuBuffer F) (caches : Caches F) (target : KvWriteSpan)
    (shape : AttentionShape) (position : Position F) :
    WritesRows arith (spanPlace target shape position) 1 key value caches
      (kvAppendSpan arith key value target shape position) := by
  apply WritesRows.check
  intro absolute habsolute
  apply WritesRows.check
  intro _ _
  apply WritesRows.check
  intro place hplace
  apply WritesRows.check
  intro physical hphysical
  apply WritesRows.check
  intro rows hrows
  apply WritesRows.get
  apply WritesRows.check
  intro _ hspan
  apply WritesRows.check
  intro cached hcached
  rcases physicalAttentionShape_eq_ok hphysical with ⟨hheads, hdim, hcontext⟩
  rw [cacheElements_eq] at hcached
  cases hcached
  have hend : place + 1 ≤ physical.maxContext := by
    rw [hcontext]
    exact localPosition_lt hplace
  have hspanPlace : spanPlace target shape position = .ok (physical, place) := by
    simp only [spanPlace, bind_eq_ok]
    exact ⟨_, habsolute, _, hplace, _, hphysical, rfl⟩
  rw [appendKvByStorage_eq, hspanPlace]
  exact appendKvChunkByStorage_writes _ (validateKvSpanBuffers_blocks hspan) hend
    ((kvAppendBuffers_eq_ok.mp hrows).physical hheads hdim)

theorem kvAppendChunkSpan_writes (key value : CpuBuffer F) (caches : Caches F)
    (target : KvWriteSpan) (shape : AttentionShape) (start tokens : Nat) :
    WritesRows arith (prepareKvChunkSpan target shape start tokens) tokens key value caches
      (kvAppendChunkSpan arith key value target shape start tokens) := by
  unfold WritesRows kvAppendChunkSpan
  rw [ends_bind, ends_ensure]
  refine ⟨fun _ => ?_, fun _ => ⟨nofun, rfl⟩⟩
  apply WritesRows.check
  intro place hplace
  apply WritesRows.check
  intro rows hrows
  apply WritesRows.get
  apply WritesRows.check
  intro _ hspan
  apply WritesRows.check
  intro cached hcached
  rw [cacheElements_eq] at hcached
  cases hcached
  have hprepared := hplace
  simp only [prepareKvChunkSpan, bind_eq_ok] at hprepared
  rcases hprepared with ⟨_, _, localStart, hlocal, physical, hphysical, hpair⟩
  cases hpair
  rcases physicalAttentionShape_eq_ok hphysical with ⟨hheads, hdim, hcontext⟩
  have hend : localStart + tokens ≤ physical.maxContext := by
    rw [hcontext]
    exact localRange_le hlocal
  rw [hplace]
  exact appendKvChunkByStorage_writes _ (validateKvSpanBuffers_blocks hspan) hend
    ((kvAppendChunkBuffers_eq_ok.mp hrows).physical hheads hdim)

end Frame

end Leone.Cpu

import Leone.Cpu.Fill
import Leone.Cpu.Straddle

/-!
# A segmented table beside a whole cache

A table keeps its positions in segments that each have their own caches. Beside it stands a cache of
the whole context that gets the same rows. Any run of appends, allocations and cuts leaves the two
with the same values at every position of the table.
-/

namespace Leone.Cpu

open Framework Framework.Method Kv

section Segments

variable {F : Type} (arith : Arithmetic F)

/-! ## Loads -/

/-- The value that a cell is loaded as. -/
def Stored.loaded : Stored F → F
  | .f32 value => value
  | .f16 bits => arith.ofHalf bits
  | .q8 scale code => arith.mul (arith.ofCode code.toInt8) (arith.ofHalf scale)

theorem q8KvLoad_eq {cells : List UInt8} {index : Nat} {cell : Stored F}
    (h : q8Cell cells index = some cell) : q8KvLoad arith cells index = some (cell.loaded arith) := by
  simp only [q8Cell, Option.bind_eq_some_iff, Option.map_eq_some_iff] at h
  obtain ⟨low, hlow, high, hhigh, code, hcode, rfl⟩ := h
  simp only [q8KvLoad, hlow, hhigh, hcode, Option.bind_some, Option.map_some]
  rfl

theorem Cells.load {storage : BufferStorage} {cached index : Nat} {buffer : CpuBuffer F}
    {cell : Stored F} (h : Cells storage cached buffer) (hlayout : buffer.layout.storage = storage)
    (hcell : buffer.storage.stored index = some cell) (operation : String) :
    cacheValue arith buffer index operation = .ok (cell.loaded arith) := by
  cases h with
  | f32 values hstorage hvalues =>
    rw [hvalues] at hcell
    obtain ⟨value, hvalue, rfl⟩ := Option.map_eq_some_iff.mp hcell
    simp [cacheValue, hvalues, hvalue, Stored.loaded]
  | f16 values hstorage hvalues =>
    rw [hvalues] at hcell
    obtain ⟨bits, hbits, rfl⟩ := Option.map_eq_some_iff.mp hcell
    simp [cacheValue, hvalues, hbits, Stored.loaded]
  | q8Kv cells hstorage hcells =>
    rw [hcells] at hcell
    simp [cacheValue, hcells, hlayout, hstorage, q8KvLoad_eq arith hcell]

/-- Caches of one storage keep a row in one form. -/
theorem Cells.form_eq {storage : BufferStorage} {cached cached' : Nat} {buffer buffer' : CpuBuffer F}
    (h : Cells storage cached buffer) (h' : Cells storage cached' buffer') :
    buffer.storage.form arith = buffer'.storage.form arith := by
  cases h with
  | f32 values hstorage hvalues =>
    subst hstorage
    cases h' with
    | f32 _ _ hvalues' => rw [hvalues, hvalues']; rfl
    | f16 | q8Kv => contradiction
  | f16 values hstorage hvalues =>
    subst hstorage
    cases h' with
    | f16 _ _ hvalues' => rw [hvalues, hvalues']; rfl
    | f32 | q8Kv => contradiction
  | q8Kv cells hstorage hcells =>
    subst hstorage
    cases h' with
    | q8Kv _ _ hcells' => rw [hcells, hcells']; rfl
    | f32 | f16 => contradiction

/-! ## Sides -/

/-- The key cache or the value cache. -/
def Caches.side (caches : Caches F) (key : Bool) : CpuBuffer F :=
  if key then caches.key else caches.value

theorem CachesFor.cells {storage : BufferStorage} {shape : AttentionShape} {caches : Caches F}
    (h : CachesFor storage shape caches) (key : Bool) :
    Cells storage (shape.nHeadKv * shape.maxContext * shape.headDim) (caches.side key) ∧
      (caches.side key).layout.storage = storage := by
  have hstorage := (expectedKvSpanLayout_eq_ok h.layout).2.1
  cases key with
  | true => exact ⟨h.key.kvCells h.layout, hstorage⟩
  | false => exact ⟨h.value.kvCells (h.same ▸ h.layout), (congrArg _ h.same).trans hstorage⟩

/-- Both caches got their rows. -/
def Filled (shape : AttentionShape) (start tokens : Nat) (key value : CpuBuffer F)
    (before after : Caches F) : Prop :=
  Appended arith shape start tokens key before.key after.key ∧
    Appended arith shape start tokens value before.value after.value

variable {arith}

theorem Filled.wrote {shape : AttentionShape} {start tokens : Nat} {key value : CpuBuffer F}
    {before after : Caches F} (h : Filled arith shape start tokens key value before after)
    (side : Bool) : Wrote arith shape start tokens (if side then key else value)
      (before.side side) (after.side side) := by
  cases side with
  | true => exact h.1.wrote
  | false => exact h.2.wrote

/-! ## Appends on either side -/

variable {storage : BufferStorage} {shape : AttentionShape} {start tokens : Nat}
  {key value : CpuBuffer F} {caches : Caches F}

/-- A chunk that the whole cache takes is written there, and its rows have the size of the shape. -/
theorem kvAppendChunk_fills (hcaches : CachesFor storage shape caches) {after : Caches F}
    (h : (kvAppendChunk arith key value shape start tokens).run caches = .ok () after) :
    start + tokens ≤ shape.maxContext ∧ (∃ rows, RowsGiven key value shape tokens rows) ∧
      Filled arith shape start tokens key value caches after := by
  have hends : (kvAppendChunk arith key value shape start tokens).Ends caches
      (fun _ after => start + tokens ≤ shape.maxContext ∧
        (∃ rows, RowsGiven key value shape tokens rows) ∧
        Filled arith shape start tokens key value caches after) (fun _ _ => True) := by
    unfold kvAppendChunk
    rw [ends_bind, ends_ofExcept]
    refine ⟨?_, fun _ _ => trivial⟩
    intro _ hposition
    rw [ends_bind, ends_ofExcept]
    refine ⟨?_, fun _ _ => trivial⟩
    intro rows hrows
    have hend := validateKvChunkPosition_eq_ok.mp hposition
    have hgiven := kvAppendChunkBuffers_eq_ok.mp hrows
    apply (appendKvChunkByStorage_succeeds _ hcaches hend hgiven).mono
    · exact fun _ _ hfilled => ⟨hend, ⟨rows, hgiven⟩, hfilled⟩
    · exact fun _ _ hfalse => hfalse.elim
  exact hends.of_ok h

theorem kvAppend_fills (hcaches : CachesFor storage shape caches) {position : Position F}
    {after : Caches F} (hposition : resolvePosition position = .ok start)
    (h : (kvAppend arith key value shape position).run caches = .ok () after) :
    start + 1 ≤ shape.maxContext ∧ (∃ rows, RowsGiven key value shape 1 rows) ∧
      Filled arith shape start 1 key value caches after := by
  have hends : (kvAppend arith key value shape position).Ends caches
      (fun _ after => start + 1 ≤ shape.maxContext ∧
        (∃ rows, RowsGiven key value shape 1 rows) ∧
        Filled arith shape start 1 key value caches after) (fun _ _ => True) := by
    unfold kvAppend
    rw [ends_bind, ends_ofExcept, hposition]
    refine ⟨?_, fun _ _ => trivial⟩
    intro place hplace
    cases hplace
    rw [ends_bind, ends_ofExcept]
    refine ⟨?_, fun _ _ => trivial⟩
    intro _ hvalid
    rw [ends_bind, ends_ofExcept]
    refine ⟨?_, fun _ _ => trivial⟩
    intro rows hrows
    have hend := validateKvPosition_eq_ok.mp hvalid
    have hgiven := kvAppendBuffers_eq_ok.mp hrows
    rw [appendKvByStorage_eq]
    apply (appendKvChunkByStorage_succeeds _ hcaches hend hgiven).mono
    · exact fun _ _ hfilled => ⟨hend, ⟨rows, hgiven⟩, hfilled⟩
    · exact fun _ _ hfalse => hfalse.elim
  exact hends.of_ok h

theorem validateKvSpanBuffers_caches (hcaches : CachesFor storage shape caches) :
    validateKvSpanBuffers caches shape = .ok () := by
  have hstorage := (expectedKvSpanLayout_eq_ok hcaches.layout).2.1
  have hexpected := hcaches.layout
  rw [← hstorage] at hexpected
  unfold validateKvSpanBuffers
  rw [hcaches.same, if_neg (not_not.mpr rfl), hexpected]
  simp [bind, Except.bind, checkLayout]

variable {target : KvWriteSpan} {physical : AttentionShape} {rows : List F × List F × Nat}

theorem localRange_eq_ok (hstart : target.logicalStart ≤ start)
    (hend : start + tokens ≤ target.logicalStart + target.capacityTokens) :
    target.localRange start tokens = .ok (start - target.logicalStart) := by
  have hstop := target.stop_lt
  have hsized : sized (checkedAdd 64 (start - target.logicalStart) tokens)
      "KV write span range end" = .ok (start - target.logicalStart + tokens) :=
    sized_eq_ok.mpr (checkedAdd_eq_some.mpr ⟨by omega, rfl⟩)
  unfold KvWriteSpan.localRange
  rw [checkedSub, if_pos (by omega)]
  simp only [hsized, bind, Except.bind]
  rw [if_neg (by omega)]

theorem localPosition_eq_ok (hstart : target.logicalStart ≤ start)
    (hend : start + 1 ≤ target.logicalStart + target.capacityTokens) :
    target.localPosition start = .ok (start - target.logicalStart) := by
  unfold KvWriteSpan.localPosition
  rw [checkedSub, if_pos (by omega)]
  simp only
  rw [if_neg (by omega)]

/-- A segment takes a chunk that has room in it. -/
theorem kvAppendChunkSpan_succeeds
    (hphysical : physicalAttentionShape shape target.capacityTokens = .ok physical)
    (hcaches : CachesFor storage physical caches) (hgiven : RowsGiven key value shape tokens rows)
    (htokens : tokens ≠ 0) (hcontext : start + tokens ≤ shape.maxContext)
    (hstart : target.logicalStart ≤ start)
    (hend : start + tokens ≤ target.logicalStart + target.capacityTokens) :
    Succeeds arith physical (start - target.logicalStart) tokens key value caches
      (kvAppendChunkSpan arith key value target shape start tokens) := by
  obtain ⟨hheads, hdim, hcapacity⟩ := physicalAttentionShape_eq_ok hphysical
  have hprepared : prepareKvChunkSpan target shape start tokens =
      .ok (physical, start - target.logicalStart) := by
    simp only [prepareKvChunkSpan, bind_eq_ok]
    exact ⟨(), validateKvChunkPosition_eq_ok.mpr hcontext, _, localRange_eq_ok hstart hend, _,
      hphysical, rfl⟩
  have hrows := hgiven.physical hheads hdim
  unfold Succeeds kvAppendChunkSpan
  rw [ends_bind, ends_ensure]
  refine ⟨fun _ => ?_, fun hzero => absurd htokens hzero⟩
  rw [hprepared, kvAppendChunkBuffers_eq_ok.mpr hgiven, ofExcept_ok_bind, ofExcept_ok_bind, ends_bind,
    ends_get, validateKvSpanBuffers_caches hcaches, ofExcept_ok_bind, cacheElements_eq,
    ofExcept_ok_bind]
  apply appendKvChunkByStorage_succeeds _ hcaches _ hrows
  simp only [hcapacity]
  omega

theorem kvAppendSpan_succeeds
    (hphysical : physicalAttentionShape shape target.capacityTokens = .ok physical)
    (hcaches : CachesFor storage physical caches) (hgiven : RowsGiven key value shape 1 rows)
    {position : Position F} (hposition : resolvePosition position = .ok start)
    (hcontext : start + 1 ≤ shape.maxContext) (hstart : target.logicalStart ≤ start)
    (hend : start + 1 ≤ target.logicalStart + target.capacityTokens) :
    Succeeds arith physical (start - target.logicalStart) 1 key value caches
      (kvAppendSpan arith key value target shape position) := by
  obtain ⟨hheads, hdim, hcapacity⟩ := physicalAttentionShape_eq_ok hphysical
  have hrows := hgiven.physical hheads hdim
  have hvalid : validateKvPosition start shape = .ok () := validateKvPosition_eq_ok.mpr hcontext
  unfold Succeeds kvAppendSpan
  rw [hposition, ofExcept_ok_bind, hvalid, ofExcept_ok_bind,
    localPosition_eq_ok hstart hend, ofExcept_ok_bind, hphysical, ofExcept_ok_bind,
    kvAppendBuffers_eq_ok.mpr hgiven, ofExcept_ok_bind, ends_bind, ends_get,
    validateKvSpanBuffers_caches hcaches, ofExcept_ok_bind, cacheElements_eq, ofExcept_ok_bind,
    appendKvByStorage_eq]
  apply appendKvChunkByStorage_succeeds _ hcaches _ hrows
  simp only [hcapacity]
  omega

/-! ## The table -/

/-- One segment of a table: where it may be written, its committed positions and its caches. -/
structure Segment (F : Type) where
  target : KvWriteSpan
  committedTokens : Nat
  caches : Caches F

/-- A table of segments and a cache of the whole context. -/
structure Twin (F : Type) where
  whole : Caches F
  segments : List (Segment F)
  position : Nat

/-- The segments before a position, the last of them shortened to it. -/
def cut (position : Nat) : List (Segment F) → List (Segment F)
  | [] => []
  | segment :: segments =>
    if position ≤ segment.target.logicalStart then []
    else { segment with
      committedTokens := min segment.committedTokens (position - segment.target.logicalStart) } ::
        cut position segments

/-- The segments continue one another from one position to another. -/
def Gapless : Nat → List (Segment F) → Nat → Prop
  | first, [], last => first = last
  | first, segment :: segments, last => segment.target.logicalStart = first ∧
      segment.committedTokens ≤ segment.target.capacityTokens ∧
      Gapless (first + segment.committedTokens) segments last

theorem Gapless.le {first last : Nat} {segments : List (Segment F)}
    (h : Gapless first segments last) : first ≤ last := by
  induction segments generalizing first with
  | nil => exact Nat.le_of_eq h
  | cons segment segments ih => exact (Nat.le_add_right _ _).trans (ih h.2.2)

theorem gapless_append {first last : Nat} {front back : List (Segment F)} :
    Gapless first (front ++ back) last ↔
      ∃ middle, Gapless first front middle ∧ Gapless middle back last := by
  induction front generalizing first with
  | nil => simp [Gapless]
  | cons segment front ih =>
    simp only [List.cons_append, Gapless, ih]
    tauto

theorem cut_eq_nil {first last position : Nat} {segments : List (Segment F)}
    (h : Gapless first segments last) (hle : position ≤ first) : cut position segments = [] := by
  cases segments with
  | nil => rfl
  | cons segment segments => exact if_pos (hle.trans h.1.ge)

theorem Gapless.cut {first last position : Nat} {segments : List (Segment F)}
    (h : Gapless first segments last) (hfirst : first ≤ position) (hlast : position ≤ last) :
    Gapless first (cut position segments) position := by
  induction segments generalizing first with
  | nil =>
    have heq : first = last := h
    exact Nat.le_antisymm hfirst (heq ▸ hlast)
  | cons segment segments ih =>
    obtain ⟨hstart, hcapacity, hrest⟩ := h
    unfold Cpu.cut
    split
    · exact Nat.le_antisymm hfirst (hstart ▸ by assumption)
    · refine ⟨hstart, (Nat.min_le_left _ _).trans hcapacity, ?_⟩
      by_cases hinside : first + segment.committedTokens ≤ position
      · rw [Nat.min_eq_left (by omega)]
        exact ih hrest hinside
      · rw [Nat.min_eq_right (by omega), cut_eq_nil hrest (by omega)]
        show first + (position - segment.target.logicalStart) = position
        omega

/-- The segment and the whole cache load the same value for each committed position. -/
def Loads (arith : Arithmetic F) (shape : AttentionShape) (whole : Caches F) (segment : Segment F) :
    Prop :=
  ∀ side, ∀ head < shape.nHeadKv, ∀ place < segment.committedTokens, ∀ dimension < shape.headDim,
    ∃ loaded, ∀ operation,
      cacheValue arith (whole.side side)
        (cellOf shape head (segment.target.logicalStart + place) + dimension) operation = .ok loaded ∧
      cacheValue arith (segment.caches.side side)
        ((head * segment.target.capacityTokens + place) * shape.headDim + dimension) operation =
          .ok loaded

/-- A table whose positions the whole cache holds as well. -/
structure Mirrors (arith : Arithmetic F) (storage : BufferStorage) (shape : AttentionShape)
    (twin : Twin F) : Prop where
  whole : CachesFor storage shape twin.whole
  gapless : Gapless 0 twin.segments twin.position
  bound : twin.position ≤ shape.maxContext
  caches : ∀ segment ∈ twin.segments, ∃ physical,
    physicalAttentionShape shape segment.target.capacityTokens = .ok physical ∧
      CachesFor storage physical segment.caches
  loads : ∀ segment ∈ twin.segments, Loads arith shape twin.whole segment

/-- A step of the table, with the same rows for the whole cache. A segment is allocated with any
content. -/
inductive TwinStep (arith : Arithmetic F) (storage : BufferStorage) (shape : AttentionShape) :
    Twin F → Twin F → Prop
  | allocate (twin : Twin F) (target : KvWriteSpan) (caches : Caches F) (physical : AttentionShape)
      (hphysical : physicalAttentionShape shape target.capacityTokens = .ok physical)
      (hcaches : CachesFor storage physical caches) (hstart : target.logicalStart = twin.position) :
      TwinStep arith storage shape twin { twin with segments := twin.segments ++ [⟨target, 0, caches⟩] }
  | chunk (twin : Twin F) (front : List (Segment F)) (segment : Segment F) (key value : CpuBuffer F)
      (tokens : Nat) (whole : Caches F) (htail : twin.segments = front ++ [segment])
      (htokens : tokens ≠ 0)
      (hroom : segment.committedTokens + tokens ≤ segment.target.capacityTokens)
      (hwhole : (kvAppendChunk arith key value shape twin.position tokens).run twin.whole =
        .ok () whole) :
      TwinStep arith storage shape twin
        ⟨whole, front ++ [⟨segment.target, segment.committedTokens + tokens,
          (kvAppendChunkSpan arith key value segment.target shape twin.position tokens).after
            segment.caches⟩], twin.position + tokens⟩
  | one (twin : Twin F) (front : List (Segment F)) (segment : Segment F) (key value : CpuBuffer F)
      (position : Position F) (whole : Caches F) (htail : twin.segments = front ++ [segment])
      (hposition : resolvePosition position = .ok twin.position)
      (hroom : segment.committedTokens + 1 ≤ segment.target.capacityTokens)
      (hwhole : (kvAppend arith key value shape position).run twin.whole = .ok () whole) :
      TwinStep arith storage shape twin
        ⟨whole, front ++ [⟨segment.target, segment.committedTokens + 1,
          (kvAppendSpan arith key value segment.target shape position).after segment.caches⟩],
          twin.position + 1⟩
  | truncate (twin : Twin F) (position : Nat) (hle : position ≤ twin.position) :
      TwinStep arith storage shape twin ⟨twin.whole, cut position twin.segments, position⟩

/-! ## Steps -/

theorem mem_cut {position : Nat} {segments : List (Segment F)} {segment : Segment F}
    (h : segment ∈ cut position segments) : ∃ longer ∈ segments,
      segment.target = longer.target ∧ segment.caches = longer.caches ∧
        segment.committedTokens ≤ longer.committedTokens := by
  induction segments with
  | nil => cases h
  | cons first segments ih =>
    unfold cut at h
    split at h
    · cases h
    · rcases List.mem_cons.mp h with rfl | hmem
      · exact ⟨first, List.mem_cons_self, rfl, rfl, Nat.min_le_left _ _⟩
      · obtain ⟨longer, hlonger, hsame⟩ := ih hmem
        exact ⟨longer, List.mem_cons_of_mem _ hlonger, hsame⟩

theorem Gapless.bounds {first last : Nat} {segments : List (Segment F)}
    (h : Gapless first segments last) {segment : Segment F} (hmem : segment ∈ segments) :
    segment.target.logicalStart + segment.committedTokens ≤ last ∧
      segment.committedTokens ≤ segment.target.capacityTokens := by
  induction segments generalizing first with
  | nil => cases hmem
  | cons other segments ih =>
    rcases List.mem_cons.mp hmem with rfl | hmem
    · rw [h.1]
      exact ⟨h.2.2.le, h.2.1⟩
    · exact ih h.2.2 hmem

/-- Appended rows leave what the whole cache loads for the positions before them. -/
theorem Loads.appended {whole whole' : Caches F} {segment : Segment F}
    (h : Loads arith shape whole segment) (hfilled : Filled arith shape start tokens key value whole whole')
    (hbefore : segment.target.logicalStart + segment.committedTokens ≤ start)
    (hend : start + tokens ≤ shape.maxContext) : Loads arith shape whole' segment := by
  intro side head hhead place hplace dimension hdimension
  obtain ⟨loaded, hloaded⟩ := h side head hhead place hplace dimension hdimension
  refine ⟨loaded, fun operation => ⟨?_, (hloaded operation).2⟩⟩
  rw [(hfilled.wrote side).kept head hhead _ (by omega) (by omega) dimension hdimension]
  exact (hloaded operation).1

/-- The tail loads its rows after the same rows were appended on both sides. -/
theorem Loads.grown {whole whole' caches' : Caches F} {segment : Segment F}
    (h : Loads arith shape whole segment) (hwhole : CachesFor storage shape whole)
    (hphysical : physicalAttentionShape shape segment.target.capacityTokens = .ok physical)
    (hcaches : CachesFor storage physical segment.caches)
    (hfilled : Filled arith shape (segment.target.logicalStart + segment.committedTokens) tokens key
      value whole whole')
    (hfilled' : Filled arith physical segment.committedTokens tokens key value segment.caches caches')
    (hend : segment.target.logicalStart + segment.committedTokens + tokens ≤ shape.maxContext)
    (hroom : segment.committedTokens + tokens ≤ segment.target.capacityTokens) :
    Loads arith shape whole' ⟨segment.target, segment.committedTokens + tokens, caches'⟩ := by
  obtain ⟨hheads, hdim, hcapacity⟩ := physicalAttentionShape_eq_ok hphysical
  intro side head hhead place hplace dimension hdimension
  dsimp only at hplace ⊢
  have hcell : (head * segment.target.capacityTokens + place) * shape.headDim =
      cellOf physical head place := by rw [cellOf, hcapacity, hdim]
  rw [hcell]
  by_cases hold : place < segment.committedTokens
  · obtain ⟨loaded, hloaded⟩ := h side head hhead place hold dimension hdimension
    rw [hcell] at hloaded
    refine ⟨loaded, fun operation => ⟨?_, ?_⟩⟩
    · rw [(hfilled.wrote side).kept head hhead _ (by omega) (by omega) dimension hdimension]
      exact (hloaded operation).1
    · rw [(hfilled'.wrote side).kept head (hheads ▸ hhead) place (by omega) (by omega) dimension
        (hdim ▸ hdimension)]
      exact (hloaded operation).2
  · obtain ⟨token, rfl⟩ := Nat.exists_eq_add_of_le (not_lt.mp hold)
    have htoken : token < tokens := by omega
    obtain ⟨cell, hform, hstored⟩ := (hfilled.wrote side).stored head hhead token htoken dimension
      hdimension
    obtain ⟨cell', hform', hstored'⟩ := (hfilled'.wrote side).stored head (hheads ▸ hhead) token htoken
      dimension (hdim ▸ hdimension)
    have hrow : rowOf physical (if side then key else value) token head =
        rowOf shape (if side then key else value) token head := by
      simp only [rowOf, hheads, hdim]
    have hcells := (hwhole.cells side).1
    have hcells' := (hcaches.cells side).1
    rw [hrow, ← hcells.form_eq arith hcells', hform] at hform'
    cases hform'
    have hafter := (hwhole.appended hfilled.1 hfilled.2).cells side
    have hafter' := (hcaches.appended hfilled'.1 hfilled'.2).cells side
    refine ⟨cell.loaded arith, fun operation => ⟨?_, ?_⟩⟩
    · rw [← Nat.add_assoc]
      exact hafter.1.load arith hafter.2 hstored operation
    · exact hafter'.1.load arith hafter'.2 hstored' operation

/-- Appending the same rows to the tail and to the whole cache keeps the mirror. -/
theorem Mirrors.appended {twin : Twin F} (h : Mirrors arith storage shape twin)
    {front : List (Segment F)} {segment : Segment F} (htail : twin.segments = front ++ [segment])
    {append : AppendM F Unit} {whole : Caches F} (hend : twin.position + tokens ≤ shape.maxContext)
    (hroom : segment.committedTokens + tokens ≤ segment.target.capacityTokens)
    (hfilled : Filled arith shape twin.position tokens key value twin.whole whole)
    (happend : ∀ physical,
      physicalAttentionShape shape segment.target.capacityTokens = .ok physical →
      CachesFor storage physical segment.caches →
      segment.target.logicalStart + segment.committedTokens = twin.position →
      Succeeds arith physical segment.committedTokens tokens key value segment.caches append) :
    Mirrors arith storage shape
      ⟨whole, front ++ [⟨segment.target, segment.committedTokens + tokens,
        append.after segment.caches⟩], twin.position + tokens⟩ := by
  have hgapless := h.gapless
  rw [htail, gapless_append] at hgapless
  obtain ⟨middle, hfront, hstart, -, hlast⟩ := hgapless
  have hplace : segment.target.logicalStart + segment.committedTokens = twin.position := hstart ▸ hlast
  have hmem : ∀ other ∈ front, other ∈ twin.segments := by
    intro other hother
    rw [htail]
    exact List.mem_append_left _ hother
  have hsegment : segment ∈ twin.segments := by
    rw [htail]
    exact List.mem_append_right _ List.mem_cons_self
  obtain ⟨physical, hphysical, hcaches⟩ := h.caches segment hsegment
  obtain ⟨_, caches', hrun, hfilled'⟩ := (happend physical hphysical hcaches hplace).run_ok
  rw [after_of_ok hrun]
  constructor
  · exact h.whole.appended hfilled.1 hfilled.2
  · refine gapless_append.mpr ⟨middle, hfront, hstart, hroom, ?_⟩
    show middle + (segment.committedTokens + tokens) = twin.position + tokens
    rw [← hplace, hstart, Nat.add_assoc]
  · exact hend
  · intro other hother
    rcases List.mem_append.mp hother with hother | hother
    · exact h.caches other (hmem other hother)
    · rw [List.mem_singleton.mp hother]
      exact ⟨physical, hphysical, hcaches.appended hfilled'.1 hfilled'.2⟩
  · intro other hother
    rcases List.mem_append.mp hother with hother | hother
    · apply (h.loads other (hmem other hother)).appended hfilled
        (h.gapless.bounds (hmem other hother)).1
      exact hend
    · rw [List.mem_singleton.mp hother]
      rw [← hplace] at hfilled hend
      exact (h.loads segment hsegment).grown h.whole hphysical hcaches hfilled hfilled' hend hroom

theorem TwinStep.mirrors {twin twin' : Twin F} (hstep : TwinStep arith storage shape twin twin')
    (h : Mirrors arith storage shape twin) : Mirrors arith storage shape twin' := by
  cases hstep with
  | allocate target caches physical hphysical hcaches hstart =>
    constructor
    · exact h.whole
    · exact gapless_append.mpr ⟨_, h.gapless, hstart, Nat.zero_le _, rfl⟩
    · exact h.bound
    · intro segment hsegment
      rcases List.mem_append.mp hsegment with hsegment | hsegment
      · exact h.caches segment hsegment
      · rw [List.mem_singleton.mp hsegment]
        exact ⟨physical, hphysical, hcaches⟩
    · intro segment hsegment
      rcases List.mem_append.mp hsegment with hsegment | hsegment
      · exact h.loads segment hsegment
      · rw [List.mem_singleton.mp hsegment]
        exact fun _ _ _ place hplace => absurd hplace (Nat.not_lt_zero place)
  | chunk front segment key value tokens whole htail htokens hroom hwhole =>
    obtain ⟨hend, ⟨rows, hgiven⟩, hfilled⟩ := kvAppendChunk_fills h.whole hwhole
    apply h.appended htail hend hroom hfilled
    intro physical hphysical hcaches hplace
    have hlocal : twin.position - segment.target.logicalStart = segment.committedTokens := by omega
    rw [← hlocal]
    exact kvAppendChunkSpan_succeeds hphysical hcaches hgiven htokens hend (by omega) (by omega)
  | one front segment key value position whole htail hposition hroom hwhole =>
    obtain ⟨hend, ⟨rows, hgiven⟩, hfilled⟩ := kvAppend_fills h.whole hposition hwhole
    apply h.appended htail hend hroom hfilled
    intro physical hphysical hcaches hplace
    have hlocal : twin.position - segment.target.logicalStart = segment.committedTokens := by omega
    rw [← hlocal]
    exact kvAppendSpan_succeeds hphysical hcaches hgiven hposition hend (by omega) (by omega)
  | truncate position hle =>
    constructor
    · exact h.whole
    · exact h.gapless.cut (Nat.zero_le _) hle
    · exact hle.trans h.bound
    · intro segment hsegment
      obtain ⟨longer, hlonger, htarget, hcaches, -⟩ := mem_cut hsegment
      rw [htarget, hcaches]
      exact h.caches longer hlonger
    · intro segment hsegment
      obtain ⟨longer, hlonger, htarget, hcaches, hle⟩ := mem_cut hsegment
      intro side head hhead place hplace dimension hdimension
      rw [htarget, hcaches]
      exact h.loads longer hlonger side head hhead place (hplace.trans_le hle) dimension hdimension

/-- The tables that a run makes beside a whole cache of a shape. -/
def Grown (arith : Arithmetic F) (storage : BufferStorage) (shape : AttentionShape) (whole : Caches F)
    (twin : Twin F) : Prop :=
  Relation.ReflTransGen (TwinStep arith storage shape) ⟨whole, [], 0⟩ twin

theorem Grown.mirrors {whole : Caches F} {twin : Twin F} (h : Grown arith storage shape whole twin)
    (hwhole : CachesFor storage shape whole) : Mirrors arith storage shape twin := by
  induction h with
  | refl =>
    constructor
    · exact hwhole
    · rfl
    · exact Nat.zero_le _
    · exact fun _ h => absurd h List.not_mem_nil
    · exact fun _ h => absurd h List.not_mem_nil
  | tail _ hstep ih => exact hstep.mirrors ih

end Segments

end Leone.Cpu

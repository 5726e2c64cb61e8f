import Leone.Cpu.Buffer

/-!
# Appending to KV caches

An append writes the rows of one position, or of a chunk of positions, for every head. The caches of
a span hold a part of the positions, so there the rows have the stride of the span.
-/

namespace Leone.Cpu

open Framework Framework.Method Kv

/-- The caches that an append writes. -/
structure Caches (F : Type) where
  key : CpuBuffer F
  value : CpuBuffer F

/-- Where an operation reads its decode position from. -/
inductive Position (F : Type)
  | host (value : Nat)
  | device (buffer : CpuBuffer F)

abbrev AppendM (F α : Type) := Method (Caches F) BackendError α

section Checks

variable {F : Type}

def resolvePosition : Position F → Except BackendError Nat
  | .host value => .ok value
  | .device buffer => do
    let source ← buffer.u32
    exactLen "u32 read" source.length 1
    return (source[0]?.getD 0).toNat

def validateKvPosition (position : Nat) (shape : AttentionShape) : Except BackendError Unit :=
  if shape.maxContext ≤ position then .error (.positionOutOfBounds position shape.maxContext)
  else .ok ()

def validateKvChunkPosition (startPosition tokens : Nat) (shape : AttentionShape) :
    Except BackendError Unit := do
  let endPosition ← sized (checkedAdd 64 startPosition tokens) "prefill KV end position"
  if shape.maxContext < endPosition then
    .error (.positionOutOfBounds endPosition shape.maxContext)
  else .ok ()

def projectedKvElements (shape : AttentionShape) : Except BackendError Nat :=
  sized (checkedMul 64 shape.nHeadKv shape.headDim) "projected KV elements"

def cacheElements (shape : AttentionShape) : Except BackendError Nat :=
  sized ((checkedMul 64 shape.nHeadKv shape.maxContext).bind fun value =>
    checkedMul 64 value shape.headDim) "KV elements"

/-- The key and value rows of one position and the elements of the cache. -/
def kvAppendBuffers (key value : CpuBuffer F) (shape : AttentionShape) :
    Except BackendError (List F × List F × Nat) := do
  let key ← key.f32
  let value ← value.f32
  let projected ← projectedKvElements shape
  let cached ← cacheElements shape
  exactLen "projected key" projected key.length
  exactLen "projected value" projected value.length
  return (key, value, cached)

def kvAppendChunkBuffers (key value : CpuBuffer F) (shape : AttentionShape) (tokens : Nat) :
    Except BackendError (List F × List F × Nat) := do
  let key ← key.f32
  let value ← value.f32
  let row ← projectedKvElements shape
  let projected ← sized (checkedMul 64 row tokens) "prefill projected KV elements"
  exactLen "prefill projected key" projected key.length
  exactLen "prefill projected value" projected value.length
  let cached ← cacheElements shape
  return (key, value, cached)

end Checks

/-! ## Writing rows -/

/-- How the caches of one storage are written: their cells, the number of cells for the elements of
a cache, and the cells of a row. -/
structure CacheFormat (F α : Type) where
  cells : CpuBuffer F → Except BackendError (List α)
  wrap : List α → CpuStorage F
  size : Nat → Nat
  store : List α → Nat → List F → Option (List α)
  keyName : String
  valueName : String

section Rows

variable {F α : Type}

def rowAt (values : List F) (source headDim : Nat) : Option (List F) :=
  if source + headDim ≤ values.length then some (slice values source (source + headDim)) else none

def appendRow (format : CacheFormat F α) (headDim : Nat) (key value : List F) (row : Nat × Nat) :
    Method (List α × List α) BackendError Unit := do
  let cells ← get
  let keyRow ← orPanic (rowAt key row.1 headDim)
  let keyCells ← orPanic (format.store cells.1 row.2 keyRow)
  set (keyCells, cells.2)
  let valueRow ← orPanic (rowAt value row.1 headDim)
  let valueCells ← orPanic (format.store cells.2 row.2 valueRow)
  set (keyCells, valueCells)

def Caches.withCells (format : CacheFormat F α) (cells : List α × List α) (caches : Caches F) :
    Caches F :=
  { key := { caches.key with storage := format.wrap cells.1 }
    value := { caches.value with storage := format.wrap cells.2 } }

/-- Writes rows, each given by where it starts in its source and in the cache. -/
def appendRows (format : CacheFormat F α) (key value : List F) (cached headDim : Nat)
    (rows : List (Nat × Nat)) : AppendM F Unit := do
  let caches ← get
  let keyCells ← ofExcept (format.cells caches.key)
  let valueCells ← ofExcept (format.cells caches.value)
  ofExcept (exactLen format.keyName (format.size cached) keyCells.length)
  ofExcept (exactLen format.valueName (format.size cached) valueCells.length)
  zoom (fun _ => (keyCells, valueCells)) (Caches.withCells format)
    (forM rows fun row => appendRow format headDim key value row)

/-- The rows of one position. -/
def positionRows (shape : AttentionShape) (position : Nat) : List (Nat × Nat) :=
  (List.range shape.nHeadKv).map fun head =>
    (head * shape.headDim, (head * shape.maxContext + position) * shape.headDim)

/-- The rows of a chunk, one position after the other. -/
def chunkRows (shape : AttentionShape) (startPosition tokens : Nat) : List (Nat × Nat) :=
  (List.range tokens).flatMap fun token =>
    (List.range shape.nHeadKv).map fun head =>
      ((token * shape.nHeadKv + head) * shape.headDim,
        (head * shape.maxContext + startPosition + token) * shape.headDim)

end Rows

section Append

variable {F : Type} (arith : Arithmetic F)

def f32Format : CacheFormat F F where
  cells := CpuBuffer.f32Mut
  wrap := .f32
  size := id
  store := storeAt
  keyName := "key cache"
  valueName := "value cache"

def f16Format : CacheFormat F UInt16 where
  cells := CpuBuffer.f16Mut
  wrap := .f16
  size := id
  store := fun cells target row => storeAt cells target (row.map arith.half)
  keyName := "key cache"
  valueName := "value cache"

def q8Format : CacheFormat F UInt8 where
  cells := CpuBuffer.bytesMut
  wrap := .bytes
  size := fun cached => cached / 32 * 34
  store := q8KvStore arith
  keyName := "Q8 key cache"
  valueName := "Q8 value cache"

def appendKvF32 (key value : List F) (cached : Nat) (shape : AttentionShape) (position : Nat) :
    AppendM F Unit :=
  appendRows f32Format key value cached shape.headDim (positionRows shape position)

def appendKvF16 (key value : List F) (cached : Nat) (shape : AttentionShape) (position : Nat) :
    AppendM F Unit :=
  appendRows (f16Format arith) key value cached shape.headDim (positionRows shape position)

def appendKvQ8 (key value : List F) (cached : Nat) (shape : AttentionShape) (position : Nat) :
    AppendM F Unit :=
  appendRows (q8Format arith) key value cached shape.headDim (positionRows shape position)

/-- Writes one position in the storage of the key cache. -/
def appendKvByStorage (key value : List F) (cached : Nat) (shape : AttentionShape)
    (position : Nat) : AppendM F Unit := do
  let caches ← get
  match caches.key.layout.storage with
  | .f32 => appendKvF32 key value cached shape position
  | .f16 => appendKvF16 arith key value cached shape position
  | .q8Kv => appendKvQ8 arith key value cached shape position
  | storage => raise (storageError "write KV cache" storage)

structure KvChunkSpec where
  cached : Nat
  shape : AttentionShape
  startPosition : Nat
  tokens : Nat

def KvChunkSpec.rows (spec : KvChunkSpec) : List (Nat × Nat) :=
  chunkRows spec.shape spec.startPosition spec.tokens

def appendKvChunkF32 (key value : List F) (spec : KvChunkSpec) : AppendM F Unit :=
  appendRows f32Format key value spec.cached spec.shape.headDim spec.rows

def appendKvChunkF16 (key value : List F) (spec : KvChunkSpec) : AppendM F Unit :=
  appendRows (f16Format arith) key value spec.cached spec.shape.headDim spec.rows

def appendKvChunkQ8 (key value : List F) (spec : KvChunkSpec) : AppendM F Unit :=
  appendRows (q8Format arith) key value spec.cached spec.shape.headDim spec.rows

/-- Writes a chunk in the storage of the key cache, for an operation that names itself in errors. -/
def appendKvChunkByStorage (operation : String) (key value : List F) (spec : KvChunkSpec) :
    AppendM F Unit := do
  let caches ← get
  match caches.key.layout.storage with
  | .f32 => appendKvChunkF32 key value spec
  | .f16 => appendKvChunkF16 arith key value spec
  | .q8Kv => appendKvChunkQ8 arith key value spec
  | storage => raise (storageError operation storage)

/-! ## The operations -/

def kvAppend (key value : CpuBuffer F) (shape : AttentionShape) (position : Position F) :
    AppendM F Unit := do
  let position ← ofExcept (resolvePosition position)
  ofExcept (validateKvPosition position shape)
  let buffers ← ofExcept (kvAppendBuffers key value shape)
  appendKvByStorage arith buffers.1 buffers.2.1 buffers.2.2 shape position

def kvAppendChunk (key value : CpuBuffer F) (shape : AttentionShape) (startPosition tokens : Nat) :
    AppendM F Unit := do
  ofExcept (validateKvChunkPosition startPosition tokens shape)
  let buffers ← ofExcept (kvAppendChunkBuffers key value shape tokens)
  appendKvChunkByStorage arith "write prefill KV cache" buffers.1 buffers.2.1
    { cached := buffers.2.2, shape, startPosition, tokens }

/-- One mutable segment of a KV cache: the positions that its caches hold. -/
structure KvWriteSpan where
  logicalStart : Nat
  capacityTokens : Nat
  capacityTokens_pos : 0 < capacityTokens
  stop_lt : logicalStart + capacityTokens < 2 ^ 64

def KvWriteSpan.localPosition (span : KvWriteSpan) (absolutePosition : Nat) :
    Except BackendError Nat :=
  match checkedSub absolutePosition span.logicalStart with
  | none => .error (.operation "address KV write span" "position precedes span start")
  | some position =>
    if span.capacityTokens ≤ position then
      .error (.operation "address KV write span" "position exceeds span capacity")
    else .ok position

/-- The start of an append range in the span. -/
def KvWriteSpan.localRange (span : KvWriteSpan) (start tokens : Nat) : Except BackendError Nat :=
  match checkedSub start span.logicalStart with
  | none => .error (.operation "address KV write span" "range precedes span start")
  | some localStart => do
    let localEnd ← sized (checkedAdd 64 localStart tokens) "KV write span range end"
    if span.capacityTokens < localEnd then
      .error (.operation "address KV write span" "range exceeds span capacity")
    else .ok localStart

def physicalAttentionShape (shape : AttentionShape) (capacityTokens : Nat) :
    Except BackendError AttentionShape :=
  AttentionShape.new shape.nHead shape.nHeadKv shape.headDim capacityTokens

def expectedKvSpanLayout (storage : BufferStorage) (shape : AttentionShape) :
    Except BackendError BufferLayout := do
  let elements ← cacheElements shape
  match storage with
  | .f32 => BufferLayout.f32 elements
  | .f16 => BufferLayout.f16 elements
  | .q8Kv =>
    if shape.headDim % 32 ≠ 0 then .error (.notDivisible "KV head_dim" shape.headDim 32)
    else BufferLayout.q8Kv elements
  | storage => .error (storageError "write KV span" storage)

def validateKvSpanBuffers (caches : Caches F) (shape : AttentionShape) : Except BackendError Unit :=
  if caches.key.layout.storage ≠ caches.value.layout.storage then
    .error (.operation "write KV span" "key and value storage differ")
  else do
    let expected ← expectedKvSpanLayout caches.key.layout.storage shape
    checkLayout "KV span key" expected caches.key.layout
    checkLayout "KV span value" expected caches.value.layout

def kvAppendSpan (key value : CpuBuffer F) (target : KvWriteSpan) (shape : AttentionShape)
    (position : Position F) : AppendM F Unit := do
  let position ← ofExcept (resolvePosition position)
  ofExcept (validateKvPosition position shape)
  let localPosition ← ofExcept (target.localPosition position)
  let physicalShape ← ofExcept (physicalAttentionShape shape target.capacityTokens)
  let buffers ← ofExcept (kvAppendBuffers key value shape)
  let caches ← get
  ofExcept (validateKvSpanBuffers caches physicalShape)
  let cached ← ofExcept (cacheElements physicalShape)
  appendKvByStorage arith buffers.1 buffers.2.1 cached physicalShape localPosition

/-- The shape of a span and the start of a chunk in it. -/
def prepareKvChunkSpan (target : KvWriteSpan) (shape : AttentionShape) (startPosition tokens : Nat) :
    Except BackendError (AttentionShape × Nat) := do
  validateKvChunkPosition startPosition tokens shape
  let localStart ← target.localRange startPosition tokens
  let physicalShape ← physicalAttentionShape shape target.capacityTokens
  return (physicalShape, localStart)

def kvAppendChunkSpan (key value : CpuBuffer F) (target : KvWriteSpan) (shape : AttentionShape)
    (startPosition tokens : Nat) : AppendM F Unit := do
  ensure (tokens ≠ 0) (.zero "KV append tokens")
  let place ← ofExcept (prepareKvChunkSpan target shape startPosition tokens)
  let buffers ← ofExcept (kvAppendChunkBuffers key value shape tokens)
  let caches ← get
  ofExcept (validateKvSpanBuffers caches place.1)
  let cached ← ofExcept (cacheElements place.1)
  appendKvChunkByStorage arith "write span KV cache" buffers.1 buffers.2.1
    { cached, shape := place.1, startPosition := place.2, tokens }

end Append

end Leone.Cpu

import Leone.Cpu.Append

/-!
# Attention over a KV cache

Attention folds over the positions of its context with a running maximum. The cache is one pair of
buffers with the stride of the context, or a list of spans where each has its own stride.
-/

namespace Leone.Cpu

open Framework Framework.Method Kv

/-- The operations of attention, with the inverse root of a head dimension. -/
structure AttentionArithmetic (F : Type) extends Arithmetic F where
  add : F → F → F
  sub : F → F → F
  mulAdd : F → F → F → F
  exp : F → F
  negInfinity : F
  scale : Nat → F

abbrev AttentionM (F α : Type) := Method (CpuBuffer F) BackendError α

/-! ## Spans -/

/-- One immutable KV cache segment. Its tokens bound the mapped rows. -/
structure KvReadSpan (F : Type) where
  caches : Caches F
  logicalStart : Nat
  tokens : Nat
  capacityTokens : Nat

namespace KvReadSpan

variable {F : Type}

def new (caches : Caches F) (logicalStart tokens capacityTokens : Nat) :
    Except BackendError (KvReadSpan F) := do
  nonzero "KV read span tokens" tokens
  nonzero "KV read span capacity tokens" capacityTokens
  if capacityTokens < tokens then
    .error (.sizeMismatch "KV read span token capacity" capacityTokens tokens)
  else do
    let _ ← sized (checkedAdd 64 logicalStart capacityTokens) "KV read span end"
    return ⟨caches, logicalStart, tokens, capacityTokens⟩

end KvReadSpan

/-- Ordered KV cache segments and the bound of the addresses that they map. -/
structure KvReadView (F : Type) where
  spans : List (KvReadSpan F)
  mappedTokens : Nat

namespace KvReadView

variable {F : Type}

def extend (mappedTokens : Nat) (span : KvReadSpan F) : Except BackendError Nat :=
  if span.logicalStart ≠ mappedTokens then
    .error (.operation "construct KV read view"
      "spans must provide ordered gap-free coverage from zero")
  else sized (checkedAdd 64 span.logicalStart span.tokens) "KV read view mapped end"

def new (spans : List (KvReadSpan F)) : Except BackendError (KvReadView F) := do
  return ⟨spans, ← spans.foldlM extend 0⟩

/-- The mapped segment that contains one logical token address. -/
def spanForPosition (view : KvReadView F) (position : Nat) : Option (KvReadSpan F × Nat) :=
  view.spans.findSome? fun span =>
    match checkedSub position span.logicalStart with
    | none => none
    | some place => if place < span.tokens then some (span, place) else none

end KvReadView

/-! ## Checks -/

section Checks

variable {F : Type}

def queryElements (shape : AttentionShape) : Except BackendError Nat :=
  sized (checkedMul 64 shape.nHead shape.headDim) "query elements"

def validateAttentionBuffers (query output : List F) (keyCache valueCache : CpuBuffer F)
    (shape : AttentionShape) : Except BackendError Unit := do
  let elements ← queryElements shape
  let cached ← cacheElements shape
  exactLen "attention query" elements query.length
  exactLen "attention key cache" cached keyCache.layout.elements
  exactLen "attention value cache" cached valueCache.layout.elements
  exactLen "attention output" elements output.length

def validatePrefillAttentionBuffers (query output : List F) (keyCache valueCache : CpuBuffer F)
    (shape : AttentionShape) (tokens : Nat) : Except BackendError Unit := do
  let elements ← queryElements shape
  let block ← sized (checkedMul 64 tokens elements) "prefill attention block elements"
  exactLen "prefill attention query" block query.length
  exactLen "prefill attention output" block output.length
  let cached ← cacheElements shape
  exactLen "prefill attention key cache" cached keyCache.layout.elements
  exactLen "prefill attention value cache" cached valueCache.layout.elements

/-- The caches of a span have the layout of its capacity. -/
def validateSpan (shape : AttentionShape) (span : KvReadSpan F) : Except BackendError Unit := do
  let physicalShape ← physicalAttentionShape shape span.capacityTokens
  validateKvSpanBuffers span.caches physicalShape

def validateSpanCacheBuffers (cache : KvReadView F) (shape : AttentionShape) :
    Except BackendError Unit :=
  match cache.spans with
  | [] => .error (.operation "read KV spans" "the view has no spans")
  | first :: rest => do
    validateSpan shape first
    rest.forM fun span => do
      if span.caches.key.layout.storage ≠ first.caches.key.layout.storage then
        .error (.operation "read KV spans" "span storage differs")
      else validateSpan shape span

def validateSpanAttentionBuffers (query output : List F) (cache : KvReadView F)
    (shape : AttentionShape) (tokens : Nat) : Except BackendError Unit := do
  let elements ← queryElements shape
  let block ← sized (checkedMul 64 tokens elements) "span attention query elements"
  exactLen "span attention query" block query.length
  exactLen "span attention output" block output.length
  validateSpanCacheBuffers cache shape

end Checks

/-! ## Rows -/

section Rows

variable {F : Type} (arith : AttentionArithmetic F)

/-- Reads a value of the key or value cache of a KV head, by position and dimension. -/
abbrev CacheRead (F : Type) := Bool → Nat → Nat → Nat → Except (Fault BackendError) F

/-- The numerator of each dimension, with the largest score so far and the sum of the weights. -/
structure Softmax (F : Type) where
  numerator : List F
  runningMax : F
  runningSum : F

def indexed (values : List F) (index : Nat) : Except (Fault BackendError) F :=
  match values[index]? with
  | some value => .ok value
  | none => .error .panic

/-- The product of a query and the key at a position. -/
def dotProduct (read : CacheRead F) (query : List F) (queryBase kvHead position headDim : Nat) :
    Except (Fault BackendError) F :=
  (List.range headDim).foldlM (fun dot dimension => do
    let value ← indexed query (queryBase + dimension)
    let key ← read true kvHead position dimension
    return arith.mulAdd value key dot) arith.zero

def attendPosition (read : CacheRead F) (query : List F) (queryBase kvHead headDim : Nat)
    (state : Softmax F) (position : Nat) : Except (Fault BackendError) (Softmax F) := do
  let dot ← dotProduct arith read query queryBase kvHead position headDim
  let score := arith.mul dot (arith.scale headDim)
  let nextMax := arith.max state.runningMax score
  let previousScale := if arith.isZero state.runningSum then arith.zero
    else arith.exp (arith.sub state.runningMax nextMax)
  let scoreScale := arith.exp (arith.sub score nextMax)
  let runningSum := arith.add (arith.mul state.runningSum previousScale) scoreScale
  let numerator ← state.numerator.zipIdx.mapM fun entry => do
    let value ← read false kvHead position entry.2
    return arith.add (arith.mul entry.1 previousScale) (arith.mul scoreScale value)
  return ⟨numerator, nextMax, runningSum⟩

/-- Attends the positions of a context for one head and writes its output. -/
def attendHead (read : CacheRead F) (query : List F) (queryBase kvHead headDim contextLength : Nat) :
    Method (List F) BackendError Unit := fun output =>
  match (List.range contextLength).foldlM (attendPosition arith read query queryBase kvHead headDim)
    ⟨List.replicate headDim arith.zero, arith.negInfinity, arith.zero⟩ with
  | .error fault => .error fault output
  | .ok state =>
    match storeAt output queryBase (state.numerator.map fun value =>
      arith.div value state.runningSum) with
    | none => .error .panic output
    | some output => .ok () output

/-- Attends all heads for one row of queries. -/
def attendRow (read : CacheRead F) (query : List F) (shape : AttentionShape)
    (row contextLength : Nat) : Method (List F) BackendError Unit :=
  forM (List.range shape.nHead) fun queryHead =>
    attendHead arith read query ((row * shape.nHead + queryHead) * shape.headDim)
      (queryHead / (shape.nHead / shape.nHeadKv)) shape.headDim contextLength

/-- Reads one pair of caches with the stride of the context. -/
def cacheRead (keyCache valueCache : CpuBuffer F) (shape : AttentionShape)
    (keyOperation valueOperation : String) : CacheRead F := fun key kvHead position dimension =>
  let index := (kvHead * shape.maxContext + position) * shape.headDim + dimension
  if key then cacheValue arith.toArithmetic keyCache index keyOperation
  else cacheValue arith.toArithmetic valueCache index valueOperation

def spanIndex (kvHead capacityTokens place headDim dimension : Nat) : Except BackendError Nat := do
  let row ← sized ((checkedMul 64 kvHead capacityTokens).bind fun value =>
    checkedAdd 64 value place) "KV span row index"
  sized ((checkedMul 64 row headDim).bind fun value => checkedAdd 64 value dimension)
    "KV span element index"

/-- Reads the span of a position with the stride of its capacity. -/
def spanCacheValue (cache : KvReadView F) (shape : AttentionShape) : CacheRead F :=
  fun key kvHead position dimension =>
    match cache.spanForPosition position with
    | none => .error (.error (.positionOutOfBounds position cache.mappedTokens))
    | some (span, place) =>
      match spanIndex kvHead span.capacityTokens place shape.headDim dimension with
      | .error e => .error (.error e)
      | .ok index =>
        if key then
          cacheValue arith.toArithmetic span.caches.key index "read span attention key cache"
        else cacheValue arith.toArithmetic span.caches.value index "read span attention value cache"

def attentionDecodeRows (query : List F) (keyCache valueCache : CpuBuffer F)
    (shape : AttentionShape) (contextLength : Nat) : Method (List F) BackendError Unit :=
  attendRow arith (cacheRead arith keyCache valueCache shape "read attention key cache"
    "read attention value cache") query shape 0 contextLength

def attentionPrefillRows (query : List F) (keyCache valueCache : CpuBuffer F)
    (shape : AttentionShape) (startPosition tokens : Nat) : Method (List F) BackendError Unit :=
  forM (List.range tokens) fun token =>
    attendRow arith (cacheRead arith keyCache valueCache shape "read prefill attention key cache"
      "read prefill attention value cache") query shape token (startPosition + token + 1)

def attentionDecodeSpanRows (query : List F) (cache : KvReadView F) (shape : AttentionShape)
    (contextLength : Nat) : Method (List F) BackendError Unit :=
  attendRow arith (spanCacheValue arith cache shape) query shape 0 contextLength

def attentionPrefillSpanRows (query : List F) (cache : KvReadView F) (shape : AttentionShape)
    (startPosition tokens : Nat) : Method (List F) BackendError Unit :=
  forM (List.range tokens) fun token =>
    attendRow arith (spanCacheValue arith cache shape) query shape token (startPosition + token + 1)

/-- Writes the values of an output. -/
def CpuBuffer.withF32 (values : List F) (output : CpuBuffer F) : CpuBuffer F :=
  { output with storage := .f32 values }

/-! ## The operations -/

def attentionDecode (query keyCache valueCache : CpuBuffer F) (shape : AttentionShape)
    (position : Position F) : AttentionM F Unit := do
  let position ← ofExcept (resolvePosition position)
  let contextLength ← ofExcept (sized (checkedAdd 64 position 1) "attention context length")
  ensure (1 ≤ contextLength ∧ contextLength ≤ shape.maxContext)
    (.positionOutOfBounds contextLength shape.maxContext)
  let query ← ofExcept query.f32
  let output ← get
  let values ← ofExcept output.f32Mut
  ofExcept (validateAttentionBuffers query values keyCache valueCache shape)
  ensure (keyCache.layout.storage = valueCache.layout.storage)
    (.operation "read KV cache" "key and value storage differ")
  zoom (fun _ => values) CpuBuffer.withF32
    (attentionDecodeRows arith query keyCache valueCache shape contextLength)

def attentionPrefill (query keyCache valueCache : CpuBuffer F) (shape : AttentionShape)
    (startPosition tokens : Nat) : AttentionM F Unit := do
  let endPosition ← ofExcept (sized (checkedAdd 64 startPosition tokens)
    "prefill attention end position")
  ensure (endPosition ≤ shape.maxContext) (.positionOutOfBounds endPosition shape.maxContext)
  let query ← ofExcept query.f32
  let output ← get
  let values ← ofExcept output.f32Mut
  ofExcept (validatePrefillAttentionBuffers query values keyCache valueCache shape tokens)
  ensure (keyCache.layout.storage = valueCache.layout.storage)
    (.operation "read prefill KV cache" "key and value storage differ")
  zoom (fun _ => values) CpuBuffer.withF32
    (attentionPrefillRows arith query keyCache valueCache shape startPosition tokens)

def attentionDecodeSpans (query : CpuBuffer F) (cache : KvReadView F) (shape : AttentionShape)
    (position : Position F) : AttentionM F Unit := do
  let position ← ofExcept (resolvePosition position)
  let contextLength ← ofExcept (sized (checkedAdd 64 position 1) "attention context length")
  ensure (contextLength ≤ shape.maxContext) (.positionOutOfBounds contextLength shape.maxContext)
  ensure (contextLength ≤ cache.mappedTokens)
    (.positionOutOfBounds contextLength cache.mappedTokens)
  let query ← ofExcept query.f32
  let output ← get
  let values ← ofExcept output.f32Mut
  ofExcept (validateSpanAttentionBuffers query values cache shape 1)
  zoom (fun _ => values) CpuBuffer.withF32
    (attentionDecodeSpanRows arith query cache shape contextLength)

/-- Attends a block of rows in spans, for an operation that names itself in errors. -/
def attendBlockSpans (zeroField endField : String) (query : CpuBuffer F) (cache : KvReadView F)
    (shape : AttentionShape) (startPosition tokens : Nat) : AttentionM F Unit := do
  ensure (tokens ≠ 0) (.zero zeroField)
  let endPosition ← ofExcept (sized (checkedAdd 64 startPosition tokens) endField)
  ensure (endPosition ≤ shape.maxContext) (.positionOutOfBounds endPosition shape.maxContext)
  ensure (endPosition ≤ cache.mappedTokens) (.positionOutOfBounds endPosition cache.mappedTokens)
  let query ← ofExcept query.f32
  let output ← get
  let values ← ofExcept output.f32Mut
  ofExcept (validateSpanAttentionBuffers query values cache shape tokens)
  zoom (fun _ => values) CpuBuffer.withF32
    (attentionPrefillSpanRows arith query cache shape startPosition tokens)

def attentionPrefillSpans (query : CpuBuffer F) (cache : KvReadView F) (shape : AttentionShape)
    (startPosition tokens : Nat) : AttentionM F Unit :=
  attendBlockSpans arith "prefill attention tokens" "prefill attention end position" query cache
    shape startPosition tokens

def verifyAttentionSpans (query : CpuBuffer F) (cache : KvReadView F) (shape : AttentionShape)
    (startPosition positions : Nat) : AttentionM F Unit :=
  attendBlockSpans arith "verifier attention positions" "verifier attention end position" query cache
    shape startPosition positions

end Rows

end Leone.Cpu

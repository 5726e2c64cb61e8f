import Leone.Kv.Types

/-!
# Segmented KV tables

A KV table lists segments of reference-counted storage. An append is staged first: it names a
range of the last segment, which is written and then committed. Staging an append may cut the
table, grow its context or allocate a segment, and it undoes all of that when a part of it fails.

A call runs on the table and on the memory of the host and the device. `owned` says which
storage no other holder shares, as `Rc::get_mut` does.
-/

namespace Leone.Kv

open Framework Framework.Method

/-- The buffers of one segment. The identity stands for the reference-counted allocation. -/
structure KvStorage where
  id : Nat
  capacityTokens : Nat
  layers : Nat
  /-- The bytes of a layer's key buffer. -/
  layerBytes : Nat
  deriving DecidableEq, Repr

structure KvSegment where
  logicalStart : Nat
  committedTokens : Nat
  storage : KvStorage
  deriving DecidableEq, Repr

structure KvAppendRange where
  start : Nat
  tokens : Nat
  segmentIndex : Nat
  deriving DecidableEq, Repr

/-- The layout and graph generation that a decode graph was captured at. -/
structure KvGraphRevision where
  layout : Nat
  generation : Nat
  deriving DecidableEq, Repr

structure KvState where
  segments : List KvSegment
  position : Nat
  shape : AttentionShape
  dtype : KvCacheDtype
  revision : Nat
  graphRevision : Option KvGraphRevision
  pending : Option KvAppendRange
  deriving DecidableEq

structure KvAppendRollback where
  originalPosition : Nat
  originalShape : AttentionShape
  originalRevision : Nat
  originalGraphRevision : Option KvGraphRevision
  originalPending : Option KvAppendRange
  originalLen : Nat
  originalCommitted : List Nat
  removed : List KvSegment

/-- How the coming memory calls end. Those that are not listed succeed. -/
structure Memory where
  /-- Host reservations: the allocator's message for one that fails. -/
  reservations : List (Option String)
  /-- Calls that allocate or copy a device buffer: the backend's error for one that fails. -/
  deviceCalls : List (Option BackendError)
  /-- The identity of the next storage. -/
  nextStorage : Nat

/-- What a call on a KV table works on. -/
structure Machine where
  state : KvState
  memory : Memory

abbrev MemoryM (α : Type) := Method Memory BackendError α
abbrev KvM (α : Type) := Method Machine BackendError α

/-! ## Memory -/

/-- Reserve host memory for a vector. -/
def Memory.reserve (operation : String) : MemoryM Unit := fun memory =>
  let rest := { memory with reservations := memory.reservations.tail }
  match memory.reservations.head? with
  | some (some message) => .error (.error (.operation operation message)) rest
  | _ => .ok () rest

/-- Allocate or copy a device buffer. -/
def Memory.deviceCall : MemoryM Unit := fun memory =>
  let rest := { memory with deviceCalls := memory.deviceCalls.tail }
  match memory.deviceCalls.head? with
  | some (some error) => .error (.error error) rest
  | _ => .ok () rest

/-- The identity of a storage whose buffers are allocated. -/
def Memory.freshStorage : MemoryM Nat := do
  let id := (← get).nextStorage
  modify fun memory => { memory with nextStorage := id + 1 }
  return id

/-- A call that leaves the table alone. -/
def onMemory {α : Type} (m : MemoryM α) : KvM α :=
  zoom Machine.memory (fun memory m => { m with memory }) m

def reserveVec (operation : String) : KvM Unit := onMemory (Memory.reserve operation)
def allocateClassified : KvM Unit := onMemory Memory.deviceCall

def setState (f : KvState → KvState) : KvM Unit := modify fun m => { m with state := f m.state }

/-- A table without rows. -/
def KvState.empty (shape : AttentionShape) (dtype : KvCacheDtype) : KvState :=
  ⟨[], 0, shape, dtype, 0, none, none⟩

/-- A table without rows, and its device position. -/
def KvState.new (shape : AttentionShape) (dtype : KvCacheDtype) : MemoryM KvState := do
  Memory.deviceCall
  return KvState.empty shape dtype

/-! ## Growing the context -/

def KvState.hasCompatibleLayout (s : KvState) (shape : AttentionShape) : Bool :=
  s.shape.nHead == shape.nHead && s.shape.nHeadKv == shape.nHeadKv &&
    s.shape.headDim == shape.headDim

/-- Returns whether the segmented cache can keep its prefix at `shape`. -/
def KvState.canGrowTo (s : KvState) (shape : AttentionShape) : Bool :=
  s.hasCompatibleLayout shape && decide (s.shape.maxContext ≤ shape.maxContext)

/-- Returns whether the segmented cache can retain its prefix at `shape`. -/
def KvState.canRetainAt (s : KvState) (shape : AttentionShape) : Bool :=
  s.hasCompatibleLayout shape && decide (s.position ≤ shape.maxContext)

def stageShapeGrowth (shape : AttentionShape) : KvM Unit := do
  let s := (← get).state
  if shape = s.shape then pure ()
  else do
    ensure (s.canGrowTo shape) (.operation "grow KV state"
      "the requested shape changes the KV layout or shrinks its context")
    let revision ← orErr (checkedAdd 64 s.revision 1) (.sizeOverflow "KV layout revision")
    setState fun s => { s with revision, shape, graphRevision := none }

/-! ## Rollback -/

def captureAppendRollback : KvM KvAppendRollback := do
  let s := (← get).state
  reserveVec "allocate KV rollback tokens"
  reserveVec "allocate KV rollback segments"
  return ⟨s.position, s.shape, s.revision, s.graphRevision, s.pending, s.segments.length,
    s.segments.map KvSegment.committedTokens, []⟩

/-- Overwrite the committed counts of the segments that are paired with one. -/
def recommit : List KvSegment → List Nat → List KvSegment
  | segment :: segments, committed :: counts =>
    { segment with committedTokens := committed } :: recommit segments counts
  | segments, _ => segments

def KvState.restoreAppendPosition (s : KvState) (rollback : KvAppendRollback) : KvState :=
  let survivorLen := rollback.originalLen - rollback.removed.length
  { s with
    segments := recommit (s.segments.take survivorLen) rollback.originalCommitted ++
      rollback.removed.reverse
    position := rollback.originalPosition
    shape := rollback.originalShape
    revision := rollback.originalRevision
    graphRevision := rollback.originalGraphRevision
    pending := rollback.originalPending }

/-- A table under change, with the record that undoes the change. -/
structure Staged where
  state : KvState
  rollback : KvAppendRollback

/-- Take the last segment out of the table. -/
def Staged.pop (t : Staged) (segment : KvSegment) : Staged :=
  ⟨{ t.state with segments := t.state.segments.dropLast },
    { t.rollback with removed := t.rollback.removed ++ [segment] }⟩

def Staged.detachPending (t : Staged) : Bool × Staged :=
  match t.state.pending with
  | none => (false, t)
  | some range =>
    let t : Staged := { t with state.pending := none }
    match t.state.segments.getLast? with
    | none => (true, t)
    | some segment =>
      if range.segmentIndex = t.state.segments.length - 1 ∧ segment.committedTokens = 0 then
        (true, t.pop segment)
      else (true, t)

def Staged.removeSegmentsAtOrAfter (position : Nat) (t : Staged) : Bool × Staged :=
  match _h : t.state.segments.getLast? with
  | none => (false, t)
  | some segment =>
    if position ≤ segment.logicalStart then
      (true, (removeSegmentsAtOrAfter position (t.pop segment)).2)
    else (false, t)
termination_by t.state.segments.length
decreasing_by
  rw [Staged.pop, List.length_dropLast]
  have := List.length_pos_of_ne_nil (List.ne_nil_of_mem (List.mem_of_getLast? _h))
  omega

def KvState.shortenTail (s : KvState) (position : Nat) : Bool × KvState :=
  match s.segments.getLast? with
  | none => (false, s)
  | some segment =>
    let visible := position - segment.logicalStart
    if visible < segment.committedTokens then
      (true, { s with
        segments := s.segments.dropLast ++ [{ segment with committedTokens := visible }] })
    else (false, s)

/-- What a cut of the table changed. -/
structure Changes where
  pendingRemoved : Bool
  removedSegments : Bool
  shortenedTail : Bool

def Changes.none : Changes := ⟨false, false, false⟩

def Changes.any (c : Changes) : Bool := c.pendingRemoved || c.removedSegments || c.shortenedTail

/-- Drop the pending append and every row from a position on. -/
def Staged.cut (position : Nat) (t : Staged) : Changes × Staged :=
  let (pendingRemoved, t) := t.detachPending
  let (removedSegments, t) := t.removeSegmentsAtOrAfter position
  let (shortenedTail, state) := t.state.shortenTail position
  (⟨pendingRemoved, removedSegments, shortenedTail⟩, { t with state })

/-- The layout revisions that a cut consumes. -/
def Changes.increments (c : Changes) (originalPosition position : Nat) : Nat :=
  c.pendingRemoved.toNat + (c.any || originalPosition == position).toNat

/-- Advance the revision for a staged change, or undo the change. -/
def finishStagedRevision (rollback : KvAppendRollback) (increments : Nat) :
    KvM KvAppendRollback := do
  if increments = 0 then pure rollback
  else
    match checkedAdd 64 (← get).state.revision increments with
    | none => do
      setState (·.restoreAppendPosition rollback)
      raise (.sizeOverflow "KV layout revision")
    | some revision => do
      setState fun s => { s with revision }
      return rollback

/-- Leave a staged change in place, at its new position. -/
def placeStaged (t : Staged) (position : Nat) : KvM Unit :=
  setState fun _ => { t.state with position }

def truncate (position : Nat) : KvM Unit := do
  let s := (← get).state
  ensure (position ≤ s.position) (.positionOutOfBounds position s.position)
  let rollback ← captureAppendRollback
  let (changes, t) := Staged.cut position ⟨s, rollback⟩
  placeStaged t position
  discard <| finishStagedRevision t.rollback (changes.increments s.position position)

/-! ## Staging an append -/

section Append

variable (owned : Nat → Bool)

def KvState.pendingTargetWritable (s : KvState) (range : KvAppendRange) : Bool :=
  match s.segments[range.segmentIndex]? with
  | none => false
  | some segment =>
    decide (segment.logicalStart ≤ range.start) && owned segment.storage.id &&
      decide (range.start - segment.logicalStart + range.tokens ≤ segment.storage.capacityTokens)

def KvState.pendingReusableAt (s : KvState) (position tokens : Nat) : Bool :=
  match s.pending with
  | none => false
  | some range =>
    position == s.position && range.start == position && range.tokens == tokens &&
      s.pendingTargetWritable owned range

/-- What cutting the table for an append changes, unless the pending append can stay. -/
def cutForAppend (position tokens : Nat) (t : Staged) : Changes × Staged :=
  if t.state.pendingReusableAt owned position tokens then (Changes.none, t) else t.cut position

def stageAppendPosition (position tokens : Nat) : KvM KvAppendRollback := do
  let s := (← get).state
  ensure (position ≤ s.position) (.positionOutOfBounds position s.position)
  let rollback ← captureAppendRollback
  let (changes, t) := cutForAppend owned position tokens ⟨s, rollback⟩
  placeStaged t position
  finishStagedRevision t.rollback (changes.increments s.position position)

def KvState.reusableTail (s : KvState) (tokens : Nat) : Option Nat :=
  match s.segments.getLast? with
  | none => none
  | some segment =>
    if segment.logicalStart + segment.committedTokens = s.position ∧
        owned segment.storage.id = true ∧
        segment.committedTokens ≤ segment.storage.capacityTokens ∧
        tokens ≤ segment.storage.capacityTokens - segment.committedTokens then
      some (s.segments.length - 1)
    else none

def KvState.dtypeCapacity (s : KvState) (requested remaining : Nat) : Except BackendError Nat :=
  if s.dtype = .q8 ∧ s.shape.headDim % 32 ≠ 0 then
    .error (.notDivisible "Q8 KV head dimension" s.shape.headDim 32)
  else if remaining < requested then
    .error (.operation "allocate KV segment"
      "the physical capacity cannot hold complete KV blocks within context")
  else if requested = 0 then .error (.zero "KV segment capacity")
  else .ok requested

/-- The sizes of a segment's storage: the bytes of a layer's buffer and of the segment. -/
def KvState.storageLayout (s : KvState) (layers capacity : Nat) : Except BackendError (Nat × Nat) := do
  let elements ← sized ((checkedMul 64 s.shape.nHeadKv capacity).bind
    (checkedMul 64 · s.shape.headDim)) "KV segment elements"
  let layout ← s.dtype.layout elements
  let bytes ← sized ((checkedMul 64 layout layers).bind (checkedMul 64 · 2)) "KV segment bytes"
  return (layout, bytes)

def allocateLayers (layers : Nat) : KvM Unit := do
  reserveVec "allocate KV layers"
  forM (List.range layers) fun _ => do
    allocateClassified
    allocateClassified

def allocateStorage (layers capacity : Nat) : KvM KvStorage := do
  let (layerBytes, _) ← ofExcept ((← get).state.storageLayout layers capacity)
  allocateLayers layers
  ofExcept (nonzero "KV segment capacity" capacity)
  return ⟨← onMemory Memory.freshStorage, capacity, layers, layerBytes⟩

def allocateAppend (layers tokens growthTokens : Nat) : KvM KvAppendRange := do
  let s := (← get).state
  let revision ← orErr (checkedAdd 64 s.revision 1) (.sizeOverflow "KV layout revision")
  let remaining ← orErr (checkedSub s.shape.maxContext s.position)
    (.sizeOverflow "KV remaining context")
  let requestedCapacity := max (max growthTokens tokens) 1
  let capacity ← ofExcept (s.dtypeCapacity (min requestedCapacity remaining) remaining)
  reserveVec "allocate KV segments"
  let storage ← allocateStorage layers capacity
  let range := ⟨s.position, tokens, s.segments.length⟩
  setState fun s => { s with
    segments := s.segments ++ [⟨s.position, 0, storage⟩], pending := some range, revision }
  return range

/-- An append under preparation: the machine and the record that undoes the preparation. -/
structure Preparation where
  machine : Machine
  rollback : KvAppendRollback

/-- A part of the preparation that leaves the record alone. -/
def onMachine {α : Type} (m : KvM α) : Method Preparation BackendError α :=
  zoom Preparation.machine (fun machine p => { p with machine }) m

/-- Run a preparation and undo it when it fails. -/
def orRestore {α : Type} (prepare : Method Preparation BackendError α)
    (rollback : KvAppendRollback) : KvM α := fun m =>
  match prepare.run ⟨m, rollback⟩ with
  | .ok a p => .ok a p.machine
  | .error e p =>
    .error e { p.machine with state := p.machine.state.restoreAppendPosition p.rollback }

def retargetPending (pending : KvAppendRange) (tokens : Nat) : KvM (Option KvAppendRange) := do
  let s := (← get).state
  let range : KvAppendRange := { pending with tokens }
  if s.pendingTargetWritable owned range then do
    let revision ← orErr (checkedAdd 64 s.revision 1) (.sizeOverflow "KV layout revision")
    setState fun s => { s with pending := some range, revision }
    return some range
  else return none

def discardPendingWithRollback : Method Preparation BackendError Unit := do
  let s := (← get).machine.state
  if s.pending = none then pure ()
  else do
    let revision ← orErr (checkedAdd 64 s.revision 1) (.sizeOverflow "KV layout revision")
    modify fun p =>
      let t := (Staged.detachPending ⟨p.machine.state, p.rollback⟩).2
      ⟨{ p.machine with state := { t.state with pending := none, revision } }, t.rollback⟩

/-- No pending append can be reused: drop the one that starts here. -/
def replacePending (pending : KvAppendRange) :
    Method Preparation BackendError (Option KvAppendRange) := do
  if pending.start = (← get).machine.state.position then discardPendingWithRollback
  else pure ()
  ensure ((← get).machine.state.pending = none)
    (.operation "prepare KV append" "another append target is pending")
  return none

def pendingAppend (tokens : Nat) : Method Preparation BackendError (Option KvAppendRange) := do
  let s := (← get).machine.state
  match s.pending with
  | none => return none
  | some pending =>
    if pending.start = s.position ∧ pending.tokens = tokens ∧
        s.pendingTargetWritable owned pending then
      return some pending
    else if pending.start = s.position ∧ pending.tokens ≠ tokens then
      match ← onMachine (retargetPending owned pending tokens) with
      | some range => return some range
      | none => replacePending pending
    else replacePending pending

/-- Append to the last segment, or to a new one. -/
def appendToTail (layers tokens growthTokens : Nat) : KvM KvAppendRange := do
  let s := (← get).state
  match s.reusableTail owned tokens with
  | some segmentIndex => do
    let range := ⟨s.position, tokens, segmentIndex⟩
    setState fun s => { s with pending := some range }
    return range
  | none => allocateAppend layers tokens growthTokens

def prepareAppendStaged (layers tokens growthTokens : Nat) :
    Method Preparation BackendError KvAppendRange := do
  match ← pendingAppend owned tokens with
  | some range => return range
  | none => onMachine (appendToTail owned layers tokens growthTokens)

def checkAppendEnd (tokens : Nat) : KvM Unit := do
  let s := (← get).state
  let stop ← orErr (checkedAdd 64 s.position tokens) (.sizeOverflow "KV append end")
  ensure (stop ≤ s.shape.maxContext) (.positionOutOfBounds stop s.shape.maxContext)

/-- Stages an append of rows at the position of the table. -/
def prepareAppend (layers tokens growthTokens : Nat) : KvM KvAppendRange := do
  ensure (tokens ≠ 0) (.zero "KV append tokens")
  checkAppendEnd tokens
  orRestore (prepareAppendStaged owned layers tokens growthTokens) (← captureAppendRollback)

/-- Cuts the table at a position and stages an append there. -/
def prepareAppendAt (layers position tokens growthTokens : Nat) : KvM KvAppendRange := do
  orRestore (onMachine (prepareAppend owned layers tokens growthTokens))
    (← stageAppendPosition owned position tokens)

/-- Stage the first append of a grown table, or cut it. -/
def stageFirstAppend (layers position : Nat) (firstAppend : Option (Nat × Nat)) : KvM Unit :=
  match firstAppend with
  | some (tokens, growthTokens) => discard <| prepareAppendAt owned layers position tokens growthTokens
  | none => truncate position

/-- Grows the logical context and stages its first append as one transaction. -/
def prepareShapeTransition (layers : Nat) (shape : AttentionShape) (position : Nat)
    (firstAppend : Option (Nat × Nat)) : KvM Unit := do
  orRestore (onMachine do
      stageShapeGrowth shape
      stageFirstAppend owned layers position firstAppend)
    (← captureAppendRollback)

end Append

/-! ## Ending an append -/

/-- The segment and the committed count that a staged range leads to. -/
def KvState.commitTarget (s : KvState) (range : KvAppendRange) :
    Except BackendError (KvSegment × Nat) := do
  if s.pending ≠ some range then
    .error (.operation "commit KV append" "the append target is not pending")
  else
    match s.segments[range.segmentIndex]? with
    | none => .error (.operation "commit KV append" "segment is missing")
    | some segment => do
      let localStart ← sized (checkedSub range.start segment.logicalStart) "KV local append start"
      if segment.committedTokens ≠ localStart then
        .error (.operation "commit KV append"
          "the append range does not follow the committed prefix")
      else do
        let committed ← sized (checkedAdd 64 localStart range.tokens) "KV committed tokens"
        if segment.storage.capacityTokens < committed then
          .error (.positionOutOfBounds committed segment.storage.capacityTokens)
        else .ok (segment, committed)

def commitAppend (range : KvAppendRange) : KvM Unit := do
  let (segment, committedTokens) ← ofExcept ((← get).state.commitTarget range)
  setState fun s => { s with
    segments := s.segments.set range.segmentIndex { segment with committedTokens } }
  let position ← orErr (checkedAdd 64 range.start range.tokens) (.sizeOverflow "KV position")
  setState fun s => { s with position, pending := none }

/-- The segments that hold rows. -/
def KvState.committedSegments (s : KvState) : List KvSegment :=
  s.segments.filter fun segment => segment.committedTokens ≠ 0

/-- The end of the last segment. -/
def endOf (segments : List KvSegment) : Nat :=
  match segments.getLast? with
  | some last => last.logicalStart + last.committedTokens
  | none => 0

def discardPending : KvM Unit := do
  let s := (← get).state
  if s.pending = none then pure ()
  else do
    let revision ← orErr (checkedAdd 64 s.revision 1) (.sizeOverflow "KV layout revision")
    setState fun s => { s with
      pending := none
      segments := s.committedSegments
      position := endOf s.committedSegments
      revision }

/-! ## Reading and writing rows -/

/-- Describes one immutable KV cache segment: its buffers, its address and its row stride. -/
structure KvReadSpan where
  storage : Nat
  logicalStart : Nat
  tokens : Nat
  capacityTokens : Nat
  deriving DecidableEq, Repr

def KvReadSpan.new (storage logicalStart tokens capacityTokens : Nat) :
    Except BackendError KvReadSpan := do
  nonzero "KV read span tokens" tokens
  nonzero "KV read span capacity tokens" capacityTokens
  if capacityTokens < tokens then
    .error (.sizeMismatch "KV read span token capacity" capacityTokens tokens)
  else do
    let _ ← sized (checkedAdd 64 logicalStart capacityTokens) "KV read span end"
    return ⟨storage, logicalStart, tokens, capacityTokens⟩

/-- The mapped rows of a segment: all of its capacity for the pending target. -/
def KvState.mappedTokens (s : KvState) (index : Nat) (segment : KvSegment) : Nat :=
  if s.pending.map KvAppendRange.segmentIndex = some index then segment.storage.capacityTokens
  else segment.committedTokens

/-- The span of a segment, if it maps any row. -/
def KvState.readSpan (s : KvState) (layer : Nat) (segment : KvSegment × Nat) :
    Except BackendError (List KvReadSpan) := do
  if segment.1.storage.layers ≤ layer then
    .error (.operation "read KV spans" "layer is missing")
  else if s.mappedTokens segment.2 segment.1 = 0 then return []
  else do
    let span ← KvReadSpan.new segment.1.storage.id segment.1.logicalStart
      (s.mappedTokens segment.2 segment.1) segment.1.storage.capacityTokens
    return [span]

def KvState.readSpans (s : KvState) (layer : Nat) : MemoryM (List KvReadSpan) := do
  Memory.reserve "allocate KV read spans"
  return (← ofExcept (s.segments.zipIdx.mapM (s.readSpan layer))).flatten

/-- Provides ordered immutable KV cache segments for attention. -/
structure KvReadView where
  spans : List KvReadSpan
  mappedTokens : Nat

/-- The next address after a span that starts where the mapped rows end. -/
def KvReadView.extend (mappedTokens : Nat) (span : KvReadSpan) : Except BackendError Nat :=
  if span.logicalStart ≠ mappedTokens then
    .error (.operation "construct KV read view"
      "spans must provide ordered gap-free coverage from zero")
  else sized (checkedAdd 64 span.logicalStart span.tokens) "KV read view mapped end"

/-- Checks ordered, gap-free mapped prefixes and derives their address bound. -/
def KvReadView.new (spans : List KvReadSpan) : Except BackendError KvReadView := do
  return ⟨spans, ← spans.foldlM KvReadView.extend 0⟩

/-- Finds the mapped segment containing one logical token address. -/
def KvReadView.spanForPosition (view : KvReadView) (position : Nat) : Option (KvReadSpan × Nat) :=
  view.spans.findSome? fun span =>
    match checkedSub position span.logicalStart with
    | none => none
    | some row => if row < span.tokens then some (span, row) else none

/-- Describes one mutable KV cache segment append target. -/
structure KvWriteSpan where
  storage : Nat
  logicalStart : Nat
  capacityTokens : Nat
  deriving DecidableEq, Repr

def KvWriteSpan.new (storage logicalStart capacityTokens : Nat) : Except BackendError KvWriteSpan := do
  nonzero "KV write span capacity tokens" capacityTokens
  let _ ← sized (checkedAdd 64 logicalStart capacityTokens) "KV write span end"
  return ⟨storage, logicalStart, capacityTokens⟩

/-- The buffers of a layer that a pending range may be written to. -/
def KvState.writeSpan (owned : Nat → Bool) (s : KvState) (layer : Nat) (range : KvAppendRange) :
    Except BackendError KvWriteSpan :=
  if s.pending ≠ some range then
    .error (.operation "write KV span" "the append target is not pending")
  else
    match s.segments[range.segmentIndex]? with
    | none => .error (.operation "write KV span" "segment is missing")
    | some segment =>
      if owned segment.storage.id = false then
        .error (.operation "write KV span" "the append segment is shared")
      else if segment.storage.layers ≤ layer then
        .error (.operation "write KV span" "layer is missing")
      else KvWriteSpan.new segment.storage.id segment.logicalStart segment.storage.capacityTokens

/-! ## Copies of a table -/

/-- A second table over the committed segments of a table. -/
def KvState.fork (source : KvState) : MemoryM KvState := do
  Memory.deviceCall
  return { source with
    segments := source.committedSegments
    graphRevision := none
    pending := none }

/-- A host copy of a segment and of what its storage contains. -/
structure KvSnapshotSegment (κ : Type) where
  logicalStart : Nat
  committedTokens : Nat
  capacityTokens : Nat
  layers : Nat
  layerBytes : Nat
  contents : κ

structure KvSnapshot (κ : Type) where
  segments : List (KvSnapshotSegment κ)
  position : Nat
  shape : AttentionShape
  dtype : KvCacheDtype

section Snapshot

variable {κ : Type}

/-- Copy the key and the value buffer of every layer. -/
def copyLayers (operation : String) (layers : Nat) : MemoryM Unit := do
  Memory.reserve operation
  forM (List.range layers) fun _ => do
    Memory.deviceCall
    Memory.deviceCall

def snapshotSegment (contents : Nat → κ) (segment : KvSegment) : MemoryM (KvSnapshotSegment κ) := do
  copyLayers "allocate KV snapshot layers" segment.storage.layers
  return ⟨segment.logicalStart, segment.committedTokens, segment.storage.capacityTokens,
    segment.storage.layers, segment.storage.layerBytes, contents segment.storage.id⟩

def KvState.snapshot (contents : Nat → κ) (s : KvState) : MemoryM (KvSnapshot κ) := do
  Memory.reserve "allocate KV snapshot segments"
  let segments ← s.committedSegments.mapM (snapshotSegment contents)
  Memory.deviceCall
  return ⟨segments, s.position, s.shape, s.dtype⟩

/-- The bytes of a segment's copy. -/
def snapshotSegmentBytes (source : KvSnapshotSegment κ) : Except BackendError Nat :=
  sized ((checkedMul 64 (if source.layers = 0 then 0 else source.layerBytes) source.layers).bind
    (checkedMul 64 · 2)) "KV segment bytes"

/-- A segment over new storage, with what that storage contains. -/
def restoreSegment (source : KvSnapshotSegment κ) : MemoryM (KvSegment × κ) := do
  copyLayers "allocate restored KV layers" source.layers
  let _ ← ofExcept (snapshotSegmentBytes source)
  return (⟨source.logicalStart, source.committedTokens, ← Memory.freshStorage, source.capacityTokens,
    source.layers, source.layerBytes⟩, source.contents)

/-- A table over new storage, with what its storages contain. -/
def KvSnapshot.restore (snapshot : KvSnapshot κ) : MemoryM (KvState × List (KvSegment × κ)) := do
  Memory.reserve "allocate restored KV segments"
  let segments ← (snapshot.segments.filter fun source => source.committedTokens ≠ 0).mapM restoreSegment
  Memory.deviceCall
  return ({ KvState.empty snapshot.shape snapshot.dtype with
    segments := segments.map Prod.fst, position := snapshot.position }, segments)

end Snapshot

end Leone.Kv

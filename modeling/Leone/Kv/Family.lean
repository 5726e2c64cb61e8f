import Leone.Kv.Reachable

/-!
# Families of KV tables

Tables that share storage, as one system. The abstract state of a family is one list of rows
for every table and one for every snapshot. Every step of the system, with memory that may run
out anywhere, does to these lists what its operation says, and leaves the other lists alone.
-/

namespace Leone.Kv

open Framework Framework.Method

/-! ## The system -/

/-- What a storage holds: a value for every layer and row. -/
abbrev Contents (ρ : Type) := Nat → Nat → ρ

/-- The values of one token's row, by layer. -/
abbrev Row (ρ : Type) := Nat → ρ

/-- The tables, the snapshots and the storages of a family. Dropped tables leave their handle. -/
structure World (ρ : Type) where
  states : List (Option KvState)
  snapshots : List (KvSnapshot (Contents ρ))
  cells : Nat → Contents ρ
  /-- What was written to the pending range of a table, by layer and offset. -/
  written : Nat → Nat → Nat → Option ρ
  nextStorage : Nat

/-- A step of the system on the tables with the given handles. -/
inductive Step (ρ : Type)
  | new (shape : AttentionShape) (dtype : KvCacheDtype)
  | fork (source : Nat)
  | snapshot (source : Nat)
  | restore (snapshot : Nat)
  | drop (handle : Nat)
  | call (handle : Nat) (c : Call)
  | write (handle layer : Nat) (range : KvAppendRange) (offset : Nat) (value : ρ)

/-- How the memory calls of a step end. -/
structure Outcomes where
  reservations : List (Option String)
  deviceCalls : List (Option BackendError)

variable {ρ : Type}

namespace World

def empty (cells : Nat → Contents ρ) : World ρ := ⟨[], [], cells, fun _ _ _ => none, 0⟩

def table (w : World ρ) (handle : Nat) : Option KvState := (w.states[handle]?).join

/-- The storage references of the live tables. -/
def references (w : World ρ) : List Nat :=
  w.states.flatMap fun s => s.elim [] fun s => s.segments.map fun segment => segment.storage.id

/-- `Rc::get_mut` grants access to a storage with one reference. -/
def owned (w : World ρ) (id : Nat) : Bool := w.references.count id == 1

def memory (w : World ρ) (outcomes : Outcomes) : Memory :=
  ⟨outcomes.reservations, outcomes.deviceCalls, w.nextStorage⟩

/-- Add a table, or only account for the memory that was used. -/
def add (w : World ρ) (r : EStateM.Result (Fault BackendError) Memory KvState) : World ρ × Bool :=
  match r with
  | .ok s memory =>
    ({ w with
      states := w.states ++ [some s]
      written := fun handle => if handle = w.states.length then fun _ _ => none else w.written handle
      nextStorage := memory.nextStorage }, true)
  | .error _ memory => ({ w with nextStorage := memory.nextStorage }, false)

/-- What was written to a pending range stays while the range stays in its storage. -/
def keptWritten (w : World ρ) (handle : Nat) (s s' : KvState) : Nat → Nat → Nat → Option ρ :=
  if s'.pending = s.pending ∧
      s.pending.map s'.rangeSlots = s.pending.map s.rangeSlots then w.written
  else fun other => if other = handle then fun _ _ => none else w.written other

/-- Put a changed table back. -/
def put (w : World ρ) (handle : Nat) (s : KvState) (m : Machine) : World ρ :=
  { w with
    states := w.states.set handle (some m.state)
    written := w.keptWritten handle s m.state
    nextStorage := m.memory.nextStorage }

/-- Write one value of a row. -/
def writeCell (w : World ρ) (handle layer : Nat) (span : KvWriteSpan) (row offset : Nat)
    (value : ρ) : World ρ :=
  { w with
    cells := fun id => if id = span.storage then
        fun l r => if l = layer ∧ r = row then value else w.cells id l r
      else w.cells id
    written := fun other => if other = handle then
        fun l o => if l = layer ∧ o = offset then some value else w.written other l o
      else w.written other }

/-- The storages of a restored table, filled with their contents. -/
def fill (cells : Nat → Contents ρ) (restored : List (KvSegment × Contents ρ)) :
    Nat → Contents ρ :=
  restored.foldl (fun cells r => fun id => if id = r.1.storage.id then r.2 else cells id) cells

end World

/-- One step of the system, and whether its operation succeeded. -/
def World.step (w : World ρ) : Step ρ × Outcomes → World ρ × Bool
  | (.new shape dtype, outcomes) => w.add ((KvState.new shape dtype).run (w.memory outcomes))
  | (.fork source, outcomes) =>
    match w.table source with
    | none => (w, false)
    | some s => w.add (s.fork.run (w.memory outcomes))
  | (.snapshot source, outcomes) =>
    match w.table source with
    | none => (w, false)
    | some s =>
      match (s.snapshot w.cells).run (w.memory outcomes) with
      | .ok snapshot memory =>
        ({ w with snapshots := w.snapshots ++ [snapshot], nextStorage := memory.nextStorage }, true)
      | .error _ memory => ({ w with nextStorage := memory.nextStorage }, false)
  | (.restore snapshot, outcomes) =>
    match w.snapshots[snapshot]? with
    | none => (w, false)
    | some snapshot =>
      match snapshot.restore.run (w.memory outcomes) with
      | .ok (s, restored) memory =>
        { w with cells := World.fill w.cells restored }.add (.ok s memory)
      | .error _ memory => ({ w with nextStorage := memory.nextStorage }, false)
  | (.drop handle, _) => ({ w with states := w.states.set handle none }, true)
  | (.call handle c, outcomes) =>
    match w.table handle with
    | none => (w, false)
    | some s =>
      match (c.run w.owned).run ⟨s, w.memory outcomes⟩ with
      | .ok _ m => (w.put handle s m, true)
      | .error _ m => (w.put handle s m, false)
  | (.write handle layer range offset value, _) =>
    match w.table handle with
    | none => (w, false)
    | some s =>
      match s.writeSpan w.owned layer range with
      | .error _ => (w, false)
      | .ok span =>
        -- the append kernels write the rows of the range and no others
        if offset < range.tokens then
          (w.writeCell handle layer span (range.start - span.logicalStart + offset) offset value, true)
        else (w, false)

/-! ## The abstract family -/

/-- The row lists of the tables and of the snapshots. -/
structure Family (ρ : Type) where
  tables : List (Option (List (Row ρ)))
  snapshots : List (List (Row ρ))

def rowAt (cells : Nat → Contents ρ) (slot : Slot) : Row ρ := fun layer => cells slot.1 layer slot.2

def KvState.rows (cells : Nat → Contents ρ) (s : KvState) : List (Row ρ) := s.slots.map (rowAt cells)

/-- The rows that a snapshot holds a copy of. -/
def KvSnapshot.rows (snapshot : KvSnapshot (Contents ρ)) : List (Row ρ) :=
  snapshot.segments.flatMap fun segment =>
    (List.range segment.committedTokens).map fun row => fun layer => segment.contents layer row

/-- The abstract state of a system. -/
def World.family (w : World ρ) : Family ρ :=
  ⟨w.states.map (Option.map (KvState.rows w.cells)), w.snapshots.map KvSnapshot.rows⟩

def Family.table (f : Family ρ) (handle : Nat) : Option (List (Row ρ)) := (f.tables[handle]?).join

/-- The rows that were written for a pending range. A value that was not written is whatever the
storage holds. -/
def World.writtenRows (w : World ρ) (handle : Nat) (s : KvState) (range : KvAppendRange) :
    List (Row ρ) :=
  (s.rangeSlots range).zipIdx.map fun slot =>
    fun layer => (w.written handle layer slot.2).getD (rowAt w.cells slot.1 layer)

/-- What a call that succeeds does to the rows of its table. -/
def Call.applied (committed : KvAppendRange → List (Row ρ)) (rows : List (Row ρ)) :
    Call → List (Row ρ)
  | .prepareAppend .. => rows
  | .prepareAppendAt _ position .. => rows.take position
  | .prepareShapeTransition _ _ position _ => rows.take position
  | .commitAppend range => rows ++ committed range
  | .discardPending => rows
  | .truncate position => rows.take position

/-- What a step that succeeds does to the family. -/
def Step.applied (w : World ρ) (f : Family ρ) : Step ρ → Family ρ
  | .new .. => { f with tables := f.tables ++ [some []] }
  | .fork source => { f with tables := f.tables ++ [f.table source] }
  | .snapshot source => { f with snapshots := f.snapshots ++ [(f.table source).getD []] }
  | .restore copy => { f with tables := f.tables ++ [f.snapshots[copy]?] }
  | .drop handle => { f with tables := f.tables.set handle none }
  | .call handle c => { f with
      tables := f.tables.modify handle (Option.map fun rows =>
        c.applied (fun range => ((w.table handle).map (w.writtenRows handle · range)).getD []) rows) }
  | .write .. => f

/-- What a step does to the family: nothing when it fails. -/
def Step.expected (w : World ρ) (op : Step ρ) (succeeded : Bool) : Family ρ :=
  if succeeded then op.applied w w.family else w.family

end Leone.Kv

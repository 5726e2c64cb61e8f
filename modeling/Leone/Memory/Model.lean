import Mathlib
import Leone.Framework.Method

/-!
# Memory accounting

Child trackers charge one shared root. A reservation holds bytes until it is committed to an
allocation or dropped, and every method changes both levels while it holds both locks. An
`expect` that would fail panics.
-/

namespace Leone.Memory

open Framework Framework.Method

/-- A physical allocation class. -/
inductive MemoryClass
  | contractBuffer
  | modelWeight
  | repackedWeight
  | activation
  | kvCache
  | backendScratch
  | prefillScratch
  | graphBuffer
  deriving DecidableEq, Repr

/-- Every class that can appear in a snapshot. -/
def MemoryClass.all : List MemoryClass :=
  [.contractBuffer, .modelWeight, .repackedWeight, .activation, .kvCache, .backendScratch,
    .prefillScratch, .graphBuffer]

instance : Fintype MemoryClass where
  elems := ⟨MemoryClass.all, by decide⟩
  complete cls := by cases cls <;> decide

inductive MemoryBudget
  | unlimited
  | bytes (limit : Nat)
  deriving DecidableEq, Repr

inductive MemoryError
  | zeroBytes
  | budgetExceeded (requested budget owned reserved : Nat)
  | budgetBelowOwned (budget owned reserved : Nat)
  | byteOverflow
  | allocationCountOverflow
  | invalidReservation
  deriving DecidableEq, Repr

structure MemoryCounters where
  liveBytes : Nat
  peakLiveBytes : Nat
  liveAllocations : Nat
  peakLiveAllocations : Nat
  allocations : Nat
  frees : Nat
  deriving DecidableEq, Repr

def MemoryCounters.default : MemoryCounters := ⟨0, 0, 0, 0, 0, 0⟩

structure MemoryRootState where
  total : MemoryCounters
  budget : MemoryBudget
  reservedBytes : Nat
  reservedAllocations : Nat
  peakOwnedAndReservedBytes : Nat
  deriving DecidableEq, Repr

/-- A class without an entry has the default counters and no reservations. -/
structure MemoryTrackerState where
  total : MemoryCounters
  classes : MemoryClass → MemoryCounters
  reservedClasses : MemoryClass → Nat
  budget : MemoryBudget
  reservedBytes : Nat
  reservedAllocations : Nat
  peakOwnedAndReservedBytes : Nat
  deriving DecidableEq

def MemoryRootState.new (budget : MemoryBudget) : MemoryRootState :=
  ⟨.default, budget, 0, 0, 0⟩

def MemoryTrackerState.new (budget : MemoryBudget) : MemoryTrackerState :=
  ⟨.default, fun _ => .default, fun _ => 0, budget, 0, 0, 0⟩

/-- The two states that a method locks. -/
structure Locked where
  shared : MemoryRootState
  state : MemoryTrackerState

abbrev MemoryM := Method Locked MemoryError

/-! ## Checks -/

/-- A byte count fits a budget. -/
def MemoryBudget.Allows (budget : MemoryBudget) (accounted : Nat) : Prop :=
  match budget with
  | .unlimited => True
  | .bytes limit => accounted ≤ limit

instance (budget : MemoryBudget) (accounted : Nat) : Decidable (budget.Allows accounted) := by
  unfold MemoryBudget.Allows
  split <;> infer_instance

section Checks

variable {σ : Type}

def checkBudgetChange (budget : MemoryBudget) (owned reserved : Nat) :
    Method σ MemoryError Unit := do
  let accounted ← orErr (checkedAdd 64 owned reserved) .byteOverflow
  match budget with
  | .bytes limit => ensure (accounted ≤ limit) (.budgetBelowOwned limit owned reserved)
  | .unlimited => pure ()

def checkedCounterCapacity (counters : MemoryCounters) (bytes pendingAllocations : Nat) :
    Method σ MemoryError Unit := do
  let _ ← orErr (checkedAdd 64 counters.liveBytes bytes) .byteOverflow
  let _ ← orErr ((checkedAdd 64 counters.liveAllocations pendingAllocations).bind fun value =>
    checkedAdd 64 value 1) .allocationCountOverflow
  let _ ← orErr ((checkedAdd 64 counters.allocations pendingAllocations).bind fun value =>
    checkedAdd 64 value 1) .allocationCountOverflow
  return ()

/-- The bytes that a reservation would account for, within a budget. -/
def checkedAccounted (budget : MemoryBudget) (owned reserved bytes : Nat) :
    Method σ MemoryError Nat := do
  let accounted ← orErr ((checkedAdd 64 owned reserved).bind fun value =>
    checkedAdd 64 value bytes) .byteOverflow
  match budget with
  | .bytes limit => ensure (accounted ≤ limit) (.budgetExceeded bytes limit owned reserved)
  | .unlimited => pure ()
  return accounted

def checkedSharedReservation (state : MemoryRootState) (bytes : Nat) :
    Method σ MemoryError (Nat × Nat × Nat) := do
  let accounted ← checkedAccounted state.budget state.total.liveBytes state.reservedBytes bytes
  checkedCounterCapacity state.total bytes state.reservedAllocations
  let reservedBytes ← orErr (checkedAdd 64 state.reservedBytes bytes) .byteOverflow
  let reservedAllocations ← orErr (checkedAdd 64 state.reservedAllocations 1)
    .allocationCountOverflow
  return (reservedBytes, reservedAllocations, accounted)

def checkedSharedCommit (state : MemoryRootState) (bytes : Nat) : Method σ MemoryError Nat := do
  ensure (bytes ≤ state.reservedBytes ∧ state.reservedAllocations ≠ 0) .invalidReservation
  checkedCounterCapacity state.total bytes (state.reservedAllocations - 1)
  return state.reservedAllocations - 1

def checkedReservation (state : MemoryTrackerState) (budget : MemoryBudget) (cls : MemoryClass)
    (bytes : Nat) : Method σ MemoryError (Nat × Nat × Nat × Nat) := do
  let accounted ← checkedAccounted budget state.total.liveBytes state.reservedBytes bytes
  checkedCounterCapacity state.total bytes state.reservedAllocations
  checkedCounterCapacity (state.classes cls) bytes (state.reservedClasses cls)
  let reservedBytes ← orErr (checkedAdd 64 state.reservedBytes bytes) .byteOverflow
  let reservedAllocations ← orErr (checkedAdd 64 state.reservedAllocations 1)
    .allocationCountOverflow
  let classReservations ← orErr (checkedAdd 64 (state.reservedClasses cls) 1)
    .allocationCountOverflow
  return (reservedBytes, reservedAllocations, classReservations, accounted)

def recordAllocate (counters : MemoryCounters) (bytes : Nat) :
    Method σ MemoryError MemoryCounters := do
  let liveBytes ← orPanic (checkedAdd 64 counters.liveBytes bytes)
  let liveAllocations ← orPanic (checkedAdd 64 counters.liveAllocations 1)
  let allocations ← orPanic (checkedAdd 64 counters.allocations 1)
  return { counters with
    liveBytes, liveAllocations, allocations
    peakLiveBytes := max counters.peakLiveBytes liveBytes
    peakLiveAllocations := max counters.peakLiveAllocations liveAllocations }

def recordFree (counters : MemoryCounters) (bytes : Nat) :
    Method σ MemoryError MemoryCounters := do
  let liveBytes ← orPanic (checkedSub counters.liveBytes bytes)
  let liveAllocations ← orPanic (checkedSub counters.liveAllocations 1)
  let frees ← orPanic (checkedAdd 64 counters.frees 1)
  return { counters with liveBytes, liveAllocations, frees }

/-- Take a live allocation out of its class without counting a free. -/
def recordLeave (counters : MemoryCounters) (bytes : Nat) :
    Method σ MemoryError MemoryCounters := do
  let liveBytes ← orPanic (checkedSub counters.liveBytes bytes)
  let liveAllocations ← orPanic (checkedSub counters.liveAllocations 1)
  let allocations ← orPanic (checkedSub counters.allocations 1)
  return { counters with liveBytes, liveAllocations, allocations }

end Checks

/-! ## Methods of one tracker, with both locks held -/

def modifyShared (f : MemoryRootState → MemoryRootState) : MemoryM Unit :=
  modify fun s => { s with shared := f s.shared }

def modifyState (f : MemoryTrackerState → MemoryTrackerState) : MemoryM Unit :=
  modify fun s => { s with state := f s.state }

def decrementReservedClass (cls : MemoryClass) : MemoryM Unit := do
  let count ← orPanic (checkedSub ((← get).state.reservedClasses cls) 1)
  modifyState fun state => { state with
    reservedClasses := Function.update state.reservedClasses cls count }

def setBudget (rootOwner : Bool) (budget : MemoryBudget) : MemoryM Unit := do
  let s ← get
  checkBudgetChange budget s.state.total.liveBytes s.state.reservedBytes
  if rootOwner then do
    checkBudgetChange budget s.shared.total.liveBytes s.shared.reservedBytes
    modifyShared fun shared => { shared with budget }
  else pure ()
  modifyState fun state => { state with budget }

def reserve (rootOwner : Bool) (cls : MemoryClass) (bytes : Nat) : MemoryM Unit := do
  ensure (bytes ≠ 0) .zeroBytes
  let s ← get
  let sharedNext ← checkedSharedReservation s.shared bytes
  let budget := if rootOwner then s.shared.budget else s.state.budget
  let next ← checkedReservation s.state budget cls bytes
  modifyShared fun shared => { shared with
    reservedBytes := sharedNext.1
    reservedAllocations := sharedNext.2.1
    peakOwnedAndReservedBytes := max shared.peakOwnedAndReservedBytes sharedNext.2.2 }
  modifyState fun state => { state with
    budget
    reservedBytes := next.1
    reservedAllocations := next.2.1
    reservedClasses := Function.update state.reservedClasses cls next.2.2.1
    peakOwnedAndReservedBytes := max state.peakOwnedAndReservedBytes next.2.2.2 }

/-- Turn a reservation into an allocation, and return its identity. -/
def commit (cls : MemoryClass) (bytes : Nat) : MemoryM Nat := do
  let s ← get
  let sharedOthers ← checkedSharedCommit s.shared bytes
  ensure (bytes ≤ s.state.reservedBytes ∧ s.state.reservedAllocations ≠ 0 ∧
    s.state.reservedClasses cls ≠ 0) .invalidReservation
  checkedCounterCapacity s.state.total bytes (s.state.reservedAllocations - 1)
  checkedCounterCapacity (s.state.classes cls) bytes (s.state.reservedClasses cls - 1)
  modifyShared fun shared => { shared with
    reservedBytes := shared.reservedBytes - bytes
    reservedAllocations := sharedOthers }
  let total ← recordAllocate (← get).shared.total bytes
  modifyShared fun shared => { shared with total }
  modifyState fun state => { state with
    reservedBytes := state.reservedBytes - bytes
    reservedAllocations := state.reservedAllocations - 1 }
  decrementReservedClass cls
  let total ← recordAllocate (← get).state.total bytes
  modifyState fun state => { state with total }
  let counters ← recordAllocate ((← get).state.classes cls) bytes
  modifyState fun state => { state with classes := Function.update state.classes cls counters }
  return (← get).state.total.allocations

def dropReservation (cls : MemoryClass) (bytes : Nat) : MemoryM Unit := do
  let reserved ← orPanic (checkedSub (← get).shared.reservedBytes bytes)
  modifyShared fun shared => { shared with reservedBytes := reserved }
  let count ← orPanic (checkedSub (← get).shared.reservedAllocations 1)
  modifyShared fun shared => { shared with reservedAllocations := count }
  let reserved ← orPanic (checkedSub (← get).state.reservedBytes bytes)
  modifyState fun state => { state with reservedBytes := reserved }
  let count ← orPanic (checkedSub (← get).state.reservedAllocations 1)
  modifyState fun state => { state with reservedAllocations := count }
  decrementReservedClass cls

def dropAllocation (cls : MemoryClass) (bytes : Nat) : MemoryM Unit := do
  let total ← recordFree (← get).state.total bytes
  modifyState fun state => { state with total }
  let counters ← recordFree ((← get).state.classes cls) bytes
  modifyState fun state => { state with classes := Function.update state.classes cls counters }
  let total ← recordFree (← get).shared.total bytes
  modifyShared fun shared => { shared with total }

def moveLive (previous next : MemoryClass) (bytes : Nat) : MemoryM Unit := do
  let counters ← recordLeave ((← get).state.classes previous) bytes
  modifyState fun state => { state with
    classes := Function.update state.classes previous counters }
  let counters ← recordAllocate ((← get).state.classes next) bytes
  modifyState fun state => { state with classes := Function.update state.classes next counters }

/-! ## A root with its trackers and their live handles -/

structure MemoryTracker where
  state : MemoryTrackerState
  rootOwner : Bool
  deriving DecidableEq

/-- A live reservation. -/
structure MemoryReservation where
  tracker : Nat
  cls : MemoryClass
  bytes : Nat
  deriving DecidableEq, Repr

/-- A live allocation. -/
structure MemoryAllocation where
  identity : Nat
  tracker : Nat
  cls : MemoryClass
  bytes : Nat
  deriving DecidableEq, Repr

/-- One root, the trackers that charge it, and every handle not yet dropped. -/
structure Ledger where
  shared : MemoryRootState
  trackers : List MemoryTracker
  reservations : List MemoryReservation
  allocations : List MemoryAllocation
  deriving DecidableEq

abbrev LedgerM := Method Ledger MemoryError

/-- A root without trackers. -/
def Ledger.ofRoot (budget : MemoryBudget) : Ledger := ⟨.new budget, [], [], []⟩

/-- An independent tracker, which owns its root. -/
def Ledger.ofTracker (budget : MemoryBudget) : Ledger :=
  ⟨.new budget, [⟨.new budget, true⟩], [], []⟩

/-- The budget that bounds a tracker. -/
def Ledger.budgetOf (s : Ledger) (tracker : MemoryTracker) : MemoryBudget :=
  if tracker.rootOwner then s.shared.budget else tracker.state.budget

namespace Ledger

/-- Lock the root and one tracker. -/
def lockedBy (tracker : MemoryTracker) (s : Ledger) : Locked := ⟨s.shared, tracker.state⟩

def unlock (t : Nat) (tracker : MemoryTracker) (l : Locked) (s : Ledger) : Ledger :=
  { s with shared := l.shared, trackers := s.trackers.set t { tracker with state := l.state } }

/-- Run a method of the tracker `t`. A handle that does not exist does nothing. -/
def withTracker (t : Nat) (m : MemoryTracker → LedgerM Unit) : LedgerM Unit := do
  match (← get).trackers[t]? with
  | some tracker => m tracker
  | none => pure ()

def child (budget : MemoryBudget) : LedgerM Unit :=
  modify fun s => { s with trackers := s.trackers ++ [⟨.new budget, false⟩] }

def setRootBudget (budget : MemoryBudget) : LedgerM Unit := do
  let s ← get
  checkBudgetChange budget s.shared.total.liveBytes s.shared.reservedBytes
  set { s with shared := { s.shared with budget } }

def setBudget (t : Nat) (budget : MemoryBudget) : LedgerM Unit :=
  withTracker t fun tracker =>
    zoom (lockedBy tracker) (unlock t tracker) (Memory.setBudget tracker.rootOwner budget)

def reserve (t : Nat) (cls : MemoryClass) (bytes : Nat) : LedgerM Unit :=
  withTracker t fun tracker => do
    zoom (lockedBy tracker) (unlock t tracker) (Memory.reserve tracker.rootOwner cls bytes)
    modify fun s => { s with reservations := s.reservations ++ [⟨t, cls, bytes⟩] }

def dropReservation (i : Nat) : LedgerM Unit := do
  match (← get).reservations[i]? with
  | none => pure ()
  | some reservation =>
    withTracker reservation.tracker fun tracker => do
      zoom (lockedBy tracker) (unlock reservation.tracker tracker)
        (Memory.dropReservation reservation.cls reservation.bytes)
      modify fun s => { s with reservations := s.reservations.eraseIdx i }

def commit (i : Nat) : LedgerM Unit := do
  match (← get).reservations[i]? with
  | none => pure ()
  | some reservation =>
    withTracker reservation.tracker fun tracker => do
      let result : Except MemoryError _ ← attempt (lockedBy tracker)
        (unlock reservation.tracker tracker) (Memory.commit reservation.cls reservation.bytes)
      match result with
      | .ok identity =>
        modify fun s => { s with
          reservations := s.reservations.eraseIdx i
          allocations := s.allocations ++
            [⟨identity, reservation.tracker, reservation.cls, reservation.bytes⟩] }
      | .error e => do
        -- the reservation is consumed either way, and its drop releases it
        dropReservation i
        raise e

def dropAllocation (i : Nat) : LedgerM Unit := do
  match (← get).allocations[i]? with
  | none => pure ()
  | some allocation =>
    withTracker allocation.tracker fun tracker => do
      zoom (lockedBy tracker) (unlock allocation.tracker tracker)
        (Memory.dropAllocation allocation.cls allocation.bytes)
      modify fun s => { s with allocations := s.allocations.eraseIdx i }

def reclassify (i : Nat) (cls : MemoryClass) : LedgerM Unit := do
  match (← get).allocations[i]? with
  | none => pure ()
  | some allocation =>
    withTracker allocation.tracker fun tracker =>
      if allocation.cls = cls then pure ()
      else do
        modify fun s => { s with allocations := s.allocations.set i { allocation with cls } }
        zoom (lockedBy tracker) (unlock allocation.tracker tracker)
          (moveLive allocation.cls cls allocation.bytes)

/-- Reserve and commit at once. -/
def allocate (t : Nat) (cls : MemoryClass) (bytes : Nat) : LedgerM Unit := do
  reserve t cls bytes
  commit ((← get).reservations.length - 1)

def reserveDuplicate (i : Nat) : LedgerM Unit := do
  match (← get).allocations[i]? with
  | none => pure ()
  | some allocation => reserve allocation.tracker allocation.cls allocation.bytes

def duplicate (i : Nat) : LedgerM Unit := do
  match (← get).allocations[i]? with
  | none => pure ()
  | some allocation => allocate allocation.tracker allocation.cls allocation.bytes

end Ledger

/-- One atomic operation on the trackers of a root. A handle is named by its position among the
live ones. -/
inductive Op
  | child (budget : MemoryBudget)
  | setRootBudget (budget : MemoryBudget)
  | setBudget (t : Nat) (budget : MemoryBudget)
  | reserve (t : Nat) (cls : MemoryClass) (bytes : Nat)
  | commit (i : Nat)
  | dropReservation (i : Nat)
  | dropAllocation (i : Nat)
  | reclassify (i : Nat) (cls : MemoryClass)
  | allocate (t : Nat) (cls : MemoryClass) (bytes : Nat)
  | reserveDuplicate (i : Nat)
  | duplicate (i : Nat)
  deriving DecidableEq

def Op.exec : Op → LedgerM Unit
  | .child budget => Ledger.child budget
  | .setRootBudget budget => Ledger.setRootBudget budget
  | .setBudget t budget => Ledger.setBudget t budget
  | .reserve t cls bytes => Ledger.reserve t cls bytes
  | .commit i => Ledger.commit i
  | .dropReservation i => Ledger.dropReservation i
  | .dropAllocation i => Ledger.dropAllocation i
  | .reclassify i cls => Ledger.reclassify i cls
  | .allocate t cls bytes => Ledger.allocate t cls bytes
  | .reserveDuplicate i => Ledger.reserveDuplicate i
  | .duplicate i => Ledger.duplicate i

def step (s : Ledger) (op : Op) : Ledger := op.exec.after s

end Leone.Memory

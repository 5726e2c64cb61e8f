import Mathlib
import Leone.Framework.SortedMap
import Leone.Framework.Method
import Leone.Framework.Machine

/-!
# The state allocator

An accounting record for each allocation of runtime state, under a byte capacity. An allocation is
committed, or it belongs to a transaction that commits it or rolls it back.
-/

namespace Leone.State

open Framework Framework.Method

/-- The kind of a runtime state allocation. The identifiers of allocations and transactions are
numbers below `2 ^ 64`. -/
inductive StateKind
  | kv
  deriving DecidableEq, Repr

/-- The lifetime rule attached to a state allocation. -/
inductive StateLifetime
  | committed
  | transactional (transaction : Nat)
  deriving DecidableEq, Repr

structure StateAllocation where
  id : Nat
  kind : StateKind
  bytes : Nat
  lifetime : StateLifetime
  deriving DecidableEq, Repr

inductive StateError
  | zeroAllocation
  | capacity (capacityBytes usedBytes requestedBytes : Nat)
  | sizeOverflow
  | unknownAllocation (id : Nat)
  | inactiveTransaction (transaction : Nat)
  | identifierExhausted
  deriving DecidableEq, Repr

/-- State kinds, capacity, and transactional lifetime. -/
structure StateAllocator where
  capacityBytes : Nat
  usedBytes : Nat
  nextAllocation : Nat
  nextTransaction : Nat
  allocations : SortedMap Nat StateAllocation
  activeTransactions : Finset Nat
  deriving DecidableEq

abbrev AllocatorM := Method StateAllocator StateError

namespace StateAllocator

def new (capacityBytes : Nat) : StateAllocator := ⟨capacityBytes, 0, 0, 0, ∅, ∅⟩

def requireActive (transaction : Nat) : AllocatorM Unit := do
  let s ← get
  ensure (transaction ∈ s.activeTransactions) (.inactiveTransaction transaction)

def beginTransaction : AllocatorM Nat := do
  let s ← get
  let id := s.nextTransaction
  let next ← orErr (checkedAdd 64 s.nextTransaction 1) .identifierExhausted
  modify fun s => { s with nextTransaction := next }
  modify fun s => { s with activeTransactions := insert id s.activeTransactions }
  return id

def requireOwner : StateLifetime → AllocatorM Unit
  | .committed => pure ()
  | .transactional transaction => requireActive transaction

def allocate (kind : StateKind) (bytes : Nat) (lifetime : StateLifetime) :
    AllocatorM StateAllocation := do
  ensure (bytes ≠ 0) .zeroAllocation
  requireOwner lifetime
  let s ← get
  let nextUsed ← orErr (checkedAdd 64 s.usedBytes bytes) .sizeOverflow
  ensure (nextUsed ≤ s.capacityBytes) (.capacity s.capacityBytes s.usedBytes bytes)
  let id := s.nextAllocation
  let next ← orErr (checkedAdd 64 s.nextAllocation 1) .identifierExhausted
  modify fun s => { s with nextAllocation := next }
  let allocation : StateAllocation := { id, kind, bytes, lifetime }
  modify fun s => { s with allocations := s.allocations.insert id allocation }
  modify fun s => { s with usedBytes := nextUsed }
  return allocation

def free (id : Nat) : AllocatorM StateAllocation := do
  let s ← get
  let allocation ← orErr (s.allocations.get? id) (.unknownAllocation id)
  modify fun s => { s with allocations := s.allocations.remove id }
  let usedBytes ← orPanic (checkedSub s.usedBytes allocation.bytes)
  modify fun s => { s with usedBytes }
  return allocation

/-- The allocation after its transaction has committed. -/
def settle (transaction : Nat) (allocation : StateAllocation) : StateAllocation :=
  if allocation.lifetime = .transactional transaction then { allocation with lifetime := .committed }
  else allocation

def commit (transaction : Nat) : AllocatorM Unit := do
  requireActive transaction
  modify fun s => { s with allocations := s.allocations.mapValues (settle transaction) }
  modify fun s => { s with activeTransactions := s.activeTransactions.erase transaction }

/-- The allocations that a transaction owns, in the order of their identifiers. -/
def owned (transaction : Nat) (s : StateAllocator) : List StateAllocation :=
  s.allocations.values.filter fun allocation =>
    allocation.lifetime = .transactional transaction

def rollback (transaction : Nat) : AllocatorM (List StateAllocation) := do
  requireActive transaction
  let s ← get
  let removed ← ((owned transaction s).map StateAllocation.id).mapM free
  modify fun s => { s with activeTransactions := s.activeTransactions.erase transaction }
  return removed

/-- Clears all allocations and transactions without changing capacity. -/
def reset : AllocatorM Unit :=
  modify fun s => { s with usedBytes := 0, allocations := ∅, activeTransactions := ∅ }

end StateAllocator

/-! ## Calls -/

inductive Op
  | beginTransaction
  | allocate (kind : StateKind) (bytes : Nat) (lifetime : StateLifetime)
  | free (id : Nat)
  | commit (transaction : Nat)
  | rollback (transaction : Nat)
  | reset
  deriving DecidableEq

/-- What a call that succeeds reports. -/
inductive Effect
  | began (transaction : Nat)
  | allocated (allocation : StateAllocation)
  | freed (allocation : StateAllocation)
  | committed (transaction : Nat)
  | rolledBack (transaction : Nat) (removed : List StateAllocation)
  | cleared
  deriving DecidableEq

def Op.exec : Op → AllocatorM Effect
  | .beginTransaction => Effect.began <$> StateAllocator.beginTransaction
  | .allocate kind bytes lifetime => Effect.allocated <$> StateAllocator.allocate kind bytes lifetime
  | .free id => Effect.freed <$> StateAllocator.free id
  | .commit transaction => do
    StateAllocator.commit transaction
    return .committed transaction
  | .rollback transaction => Effect.rolledBack transaction <$> StateAllocator.rollback transaction
  | .reset => do
    StateAllocator.reset
    return .cleared

def step (s : StateAllocator) (op : Op) : StateAllocator := after op.exec s

end Leone.State

import Leone.Framework.Method
import Leone.Gguf.Types

/-!
# Reading a GGUF file

The reader of the parser with its position, the allocation budget it asks before each allocation,
and the little-endian fields, strings and vectors that it reads. Host allocations that the budget
grants are taken to succeed.
-/

namespace Leone.Gguf

open Framework Framework.Method

/-- A refused allocation request. -/
structure AllocationBudgetError where
  what : String
  bytes : Nat
  deriving DecidableEq, Repr

/-- An error returned while parsing or reading a GGUF file. -/
inductive Error
  | unexpectedEof
  | allocationBudget (source : AllocationBudgetError)
  | invalidMagic (found : List UInt8)
  | unsupportedVersion (version : UInt32)
  | limitExceeded (what : String) (value limit : Nat)
  | integerOverflow (what : String)
  | invalidUtf8 (field : String)
  | invalidValueType (code : UInt32)
  | nestedArray
  | invalidBoolean (value : UInt8)
  | duplicateMetadata (key : String)
  | duplicateTensor (name : String)
  | invalidAlignment (alignment : UInt32)
  | invalidDimensions (tensor : String) (dimensions : UInt32)
  | zeroDimension (tensor : String)
  | unsupportedTensorType (tensor : String) (dtype : UInt32)
  | allocation (what : String) (count : Nat)
  | invalidRowLength (tensor dtype : String) (rowElements blockElements : Nat)
  | misalignedTensor (tensor : String) (offset : UInt64) (alignment : UInt32)
  | tensorOutOfBounds (tensor : String)
  | overlappingTensors (first second : String)
  | tensorNotFound (name : String)
  deriving DecidableEq, Repr

def maxCollectionLen : Nat := 16777216
def maxStringLen : Nat := 1073741824
def minTensorDescriptorBytes : Nat := 32
def parserBufferBytes : Nat := 8 * 1024
def parserReservationCapacity : Nat := 64
def parserMaxRetainedReservationWrappers : Nat := parserReservationCapacity - 1
def hashBucketFactor : Nat := 2
def hashControlAndAlignmentBytes : Nat := 64
def orderedNodeEntryFactor : Nat := 8
def orderedNodeOverheadBytes : Nat := 128

/-- The sizes of the collected types on a 64-bit target. -/
def vecHeaderBytes : Nat := 24
def guardSlotBytes : Nat := 16
def guardedStringBytes : Nat := 40
def metadataEntryBytes : Nat := 56
def tensorInfoBytes : Nat := 72
def tensorRangeBytes : Nat := 32

/-- Checked parser allocation reservations. The state stands for everything the answers depend on,
so any sequence of answers is the behaviour of some budget. -/
structure AllocationBudget (β : Type) where
  guardMetadataBytes : β → U64
  reservationMetadataBytes : β → U64
  reserve : Nat → String → β → Except AllocationBudgetError β
  commit : β → Except AllocationBudgetError β

def unlimitedAllocationBudget : AllocationBudget Unit where
  guardMetadataBytes _ := 0
  reservationMetadataBytes _ := 0
  reserve _ _ _ := .ok ()
  commit _ := .ok ()

/-- The reader and its accounts. Guards and retained reservations are counted. -/
structure Input (β : Type) where
  reader : List UInt8
  position : Nat
  fileLen : Nat
  budget : AllocationBudget β
  budgetState : β
  allocations : Nat
  allocationsCapacity : Nat
  reservations : Nat
  guardMetadataCapacity : Nat
  guardMetadataUsed : Nat

def Input.new {β : Type} (reader : List UInt8) (fileLen : Nat) (budget : AllocationBudget β)
    (budgetState : β) (reservations : Nat) : Input β where
  reader := reader
  position := 0
  fileLen := fileLen
  budget := budget
  budgetState := budgetState
  allocations := 0
  allocationsCapacity := 0
  reservations := reservations
  guardMetadataCapacity := 0
  guardMetadataUsed := 0

/-- The bytes between the position and the end of the file. -/
def Input.remaining {β : Type} (input : Input β) : Nat := input.fileLen - input.position

abbrev Parser (β α : Type) := Method (Input β) Error α

variable {β α γ : Type}

def checkLimit (what : String) (value limit : Nat) : Parser β Unit :=
  ensure (value ≤ limit) (.limitExceeded what value limit)

/-! ## Fields -/

/-- `read_exact`: all the bytes or an end-of-file error. -/
def readExact (n : Nat) : Parser β (List UInt8) := do
  let input ← get
  ensure (n ≤ input.reader.length) .unexpectedEof
  modify fun input => { input with reader := input.reader.drop n }
  return input.reader.take n

def advance (n : Nat) : Parser β Unit := do
  let input ← get
  let position ← orErr (checkedAdd 64 input.position n) (.integerOverflow "parser position")
  modify fun input => { input with position }

def bytes (n : Nat) : Parser β (List UInt8) := do
  let read ← readExact n
  advance n
  return read

/-- The number of little-endian bytes. -/
def fromLeBytes : List UInt8 → Nat
  | [] => 0
  | byte :: rest => byte.toNat + 256 * fromLeBytes rest

def u8 : Parser β UInt8 := do return UInt8.ofNat (fromLeBytes (← bytes 1))
def u16 : Parser β UInt16 := do return UInt16.ofNat (fromLeBytes (← bytes 2))
def u32 : Parser β UInt32 := do return UInt32.ofNat (fromLeBytes (← bytes 4))
def u64 : Parser β UInt64 := do return UInt64.ofNat (fromLeBytes (← bytes 8))

def bool : Parser β Bool := do
  let value ← u8
  if value = 0 then
    return false
  else if value = 1 then
    return true
  else
    raise (.invalidBoolean value)

/-! ## The budget -/

def reserve (bytes : Nat) (what : String) : Parser β Unit := do
  let input ← get
  let budgetState ← ofExcept
    ((input.budget.reserve bytes what input.budgetState).mapError Error.allocationBudget)
  modify fun input => { input with budgetState }

def commit : Parser β Unit := do
  let input ← get
  let budgetState ← ofExcept
    ((input.budget.commit input.budgetState).mapError Error.allocationBudget)
  modify fun input => { input with budgetState }

def retainReservation : Parser β Unit := do
  let input ← get
  ensure (input.reservations < parserMaxRetainedReservationWrappers)
    (.allocation "parser reservation guards" (saturatingAdd 64 input.reservations 1))
  modify fun input => { input with reservations := input.reservations + 1 }

def geometricCapacity (required current : Nat) (what : String) : Parser β Nat :=
  if required ≤ current then
    pure current
  else if current = 0 then
    pure required
  else do
    let doubled ← orErr (checkedMul 64 current 2) (.integerOverflow what)
    return max required doubled

def guardStorageBytes (capacity : Nat) : Parser β Nat :=
  orErr (checkedMul 64 capacity guardSlotBytes)
    (.integerOverflow "parser allocation guard resize bytes")

/-- The reservation of the old storage is dropped once the storage has grown. -/
def reserveGuardResize (oldBytes : Nat) : Parser β Unit :=
  if oldBytes = 0 then pure () else reserve oldBytes "parser allocation guard vector resize"

def ensureGuardStorageCapacity : Parser β Unit := do
  let input ← get
  let required ← orErr (checkedAdd 64 input.allocations 1)
    (.integerOverflow "parser allocation guard count")
  if required ≤ input.allocationsCapacity then
    return
  else
    let target ← geometricCapacity required input.allocationsCapacity
      "parser allocation guard capacity"
    let oldBytes ← guardStorageBytes input.allocationsCapacity
    reserveGuardResize oldBytes
    modify fun input => { input with allocationsCapacity := target }

/-- Reserves the metadata of `additional` guards unless the budget charges nothing for them. -/
def reserveGuards (additional : Nat) : Parser β Unit := do
  let input ← get
  let guardBytes := (input.budget.guardMetadataBytes input.budgetState : Nat)
  if guardBytes = 0 then
    return
  else
    let bytes ← orErr (checkedMul 64 additional guardBytes)
      (.integerOverflow "parser guard metadata bytes")
    reserve bytes "parser allocation guard metadata"
    retainReservation

def growGuardMetadata (required : Nat) (storeInVector : Bool) : Parser β Unit := do
  let input ← get
  let capacity ← geometricCapacity required input.guardMetadataCapacity
    "parser guard metadata count"
  reserveGuards (capacity - input.guardMetadataCapacity)
  if storeInVector then
    ensureGuardStorageCapacity
  modify fun input => { input with guardMetadataCapacity := capacity }

def reserveGuardMetadata (storeInVector : Bool) : Parser β Unit := do
  let input ← get
  let required ← orErr (checkedAdd 64 input.guardMetadataUsed 1)
    (.integerOverflow "parser guard metadata count")
  if required > input.guardMetadataCapacity then
    growGuardMetadata required storeInVector
  else if storeInVector then
    ensureGuardStorageCapacity
  modify fun input => { input with guardMetadataUsed := required }

def commitRetained : Parser β Unit := do
  reserveGuardMetadata true
  commit
  modify fun input => { input with allocations := input.allocations + 1 }

def vectorBytes (elementBytes count : Nat) (what : String) : Parser β Nat := do
  let payload ← orErr (checkedMul 64 count elementBytes) (.integerOverflow what)
  orErr (checkedAdd 64 payload vecHeaderBytes) (.integerOverflow what)

/-- The allocation of an empty vector with room for `count` elements. -/
def allocateVec (elementBytes count : Nat) (what : String) : Parser β Unit :=
  if count = 0 then
    pure ()
  else do
    let bytes ← vectorBytes elementBytes count what
    reserve bytes what
    commitRetained

def hashCollectionBytes (entryBytes count : Nat) (what : String) : Parser β Nat := do
  let minimumBuckets ← orErr (checkedMul 64 (max count 4) hashBucketFactor) (.integerOverflow what)
  let buckets ← orErr (checkedNextPowerOfTwo minimumBuckets) (.integerOverflow what)
  let payload ← orErr (checkedMul 64 buckets (entryBytes + 1)) (.integerOverflow what)
  orErr (checkedAdd 64 payload hashControlAndAlignmentBytes) (.integerOverflow what)

def orderedCollectionBytes (entryBytes count : Nat) (what : String) : Parser β Nat :=
  orErr (checkedMul 64 count (entryBytes * orderedNodeEntryFactor + orderedNodeOverheadBytes))
    (.integerOverflow what)

def reserveHashCollection (entryBytes count : Nat) (what : String) : Parser β Unit :=
  if count = 0 then
    pure ()
  else do
    let bytes ← hashCollectionBytes entryBytes count what
    reserve bytes what

def reserveOrderedCollection (entryBytes count : Nat) (what : String) : Parser β Unit :=
  if count = 0 then
    pure ()
  else do
    let bytes ← orderedCollectionBytes entryBytes count what
    reserve bytes what

/-! ## Strings -/

def stringLength (field : String) : Parser β Nat := do
  let len := (← u64).toNat
  checkLimit field len maxStringLen
  let input ← get
  ensure (len ≤ input.remaining) .unexpectedEof
  return len

def readStringBody (len : Nat) (field : String) : Parser β String := do
  reserve len field
  let read ← readExact len
  advance len
  let value ← orErr (String.fromUTF8? read.toByteArray) (.invalidUtf8 field)
  commitRetained
  return value

def string (field : String) : Parser β String := do
  let len ← stringLength field
  if len = 0 then
    return ""
  else
    readStringBody len field

/-- The copy of a string for an index. The guard of the copy is kept beside it and not in the
vector of guards. -/
def cloneString (value : String) (field : String) : Parser β String :=
  if value.isEmpty then
    pure ""
  else do
    reserve value.utf8ByteSize field
    reserveGuardMetadata false
    commit
    return value

/-- A fixed number of reads in order. -/
def readMany (read : Parser β α) : Nat → Parser β (List α)
  | 0 => pure []
  | count + 1 => do
    let value ← read
    let values ← readMany read count
    return value :: values

def readArrayValuesMapped (elementBytes len : Nat) (read : Parser β α) (map : α → γ) :
    Parser β (List γ) := do
  allocateVec elementBytes len "metadata array"
  readMany (do return map (← read)) len

def readArrayValues (elementBytes len : Nat) (read : Parser β α) : Parser β (List α) :=
  readArrayValuesMapped elementBytes len read id

end Leone.Gguf

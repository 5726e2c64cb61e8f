import Mathlib
import Leone.Gguf.Reader

/-!
# The GGUF parser

Header, metadata, tensor table and the check of the tensor ranges. A sort with neighbour
comparisons decides whether two ranges overlap.
-/

namespace Leone.Gguf

open Framework Framework.Method

def ggufMagic : List UInt8 := [0x47, 0x47, 0x55, 0x46]
def ggufVersion : UInt32 := 3
def defaultAlignment : UInt32 := 32

/-- A ggml tensor storage type from the GGUF tensor table. -/
structure GgmlType where
  code : UInt32
  deriving DecidableEq, Repr

/-- The values and bytes of one storage block, by type code. -/
def blockLayouts : List (Option (Nat × Nat)) :=
  [some (1, 4), some (1, 2), some (32, 18), some (32, 20), none, none, some (32, 22),
    some (32, 24), some (32, 34), some (32, 36), some (256, 84), some (256, 110),
    some (256, 144), some (256, 176), some (256, 210), some (256, 292), some (256, 66),
    some (256, 74), some (256, 98), some (256, 50), some (32, 18), some (256, 110),
    some (256, 82), some (256, 136), some (1, 1), some (1, 2), some (1, 4), some (1, 8),
    some (1, 8), some (256, 56), some (1, 2), none, none, none, some (256, 54), some (256, 66),
    none, none, none, some (32, 17), some (64, 36), some (128, 18), some (64, 18)]

def ggmlTypeNames : List String :=
  ["F32", "F16", "Q4_0", "Q4_1", "REMOVED", "REMOVED", "Q5_0", "Q5_1", "Q8_0", "Q8_1", "Q2_K",
    "Q3_K", "Q4_K", "Q5_K", "Q6_K", "Q8_K", "IQ2_XXS", "IQ2_XS", "IQ3_XXS", "IQ1_S", "IQ4_NL",
    "IQ3_S", "IQ2_S", "IQ4_XS", "I8", "I16", "I32", "I64", "F64", "IQ1_M", "BF16", "REMOVED",
    "REMOVED", "REMOVED", "TQ1_0", "TQ2_0", "REMOVED", "REMOVED", "REMOVED", "MXFP4", "NVFP4",
    "Q1_0", "Q2_0"]

def GgmlType.blockLayout (self : GgmlType) : Option (Nat × Nat) :=
  (blockLayouts[self.code.toNat]?).join

def GgmlType.name (self : GgmlType) : String :=
  (ggmlTypeNames[self.code.toNat]?).getD "UNKNOWN"

/-- One tensor descriptor from a GGUF v3 tensor table. -/
structure TensorInfo where
  name : String
  shape : List UInt64
  dtype : GgmlType
  offset : UInt64
  nBytes : Nat
  deriving DecidableEq

structure Parsed where
  version : UInt32
  alignment : UInt32
  dataOffset : Nat
  metadata : Metadata
  tensors : List TensorInfo

variable {β : Type}

def parseHeader : Parser β (Nat × Nat) := do
  let magic ← bytes 4
  ensure (magic = ggufMagic) (.invalidMagic magic)
  let version ← u32
  ensure (version = ggufVersion) (.unsupportedVersion version)
  let tensorCount := (← u64).toNat
  let metadataCount := (← u64).toNat
  checkLimit "tensor" tensorCount maxCollectionLen
  checkLimit "metadata" metadataCount maxCollectionLen
  return (tensorCount, metadataCount)

/-! ## Metadata -/

def valueTypeOf (code : UInt32) : Parser β ValueType :=
  orErr valueTypes[code.toNat]? (.invalidValueType code)

def arrayElementBytes (elementType : ValueType) : Nat :=
  [1, 1, 2, 2, 4, 4, 4, 1, 8, 0, 8, 8, 8].getD elementType.code 0

/-- The arms of the nested dispatch on the element type. -/
def parseArrayValues (elementType : ValueType) (len : Nat) : Parser β MetadataArray :=
  match elementType with
  | .uint8 => return .uint8 (← readArrayValues 1 len u8)
  | .uint16 => return .uint16 (← readArrayValues 2 len u16)
  | .uint32 => return .uint32 (← readArrayValues 4 len u32)
  | .int8 => return .int8 (← readArrayValuesMapped 1 len u8 UInt8.toInt8)
  | .int16 => return .int16 (← readArrayValuesMapped 2 len u16 UInt16.toInt16)
  | .int32 => return .int32 (← readArrayValuesMapped 4 len u32 UInt32.toInt32)
  | .float32 => return .float32 (← readArrayValuesMapped 4 len u32 id)
  | .bool => return .bool (← readArrayValues 1 len bool)
  | .string => return .string (← readArrayValues 24 len (string "metadata array string"))
  | .uint64 => return .uint64 (← readArrayValues 8 len u64)
  | .int64 => return .int64 (← readArrayValuesMapped 8 len u64 UInt64.toInt64)
  | .float64 => return .float64 (← readArrayValuesMapped 8 len u64 id)
  | .array => raise .nestedArray

def parseArray : Parser β MetadataArray := do
  let code ← u32
  let elementType ← valueTypeOf code
  ensure (elementType ≠ .array) .nestedArray
  let len := (← u64).toNat
  checkLimit "array" len maxCollectionLen
  let required ← orErr (checkedMul 64 len (arrayElementBytes elementType))
    (.integerOverflow "array minimum byte count")
  let input ← get
  ensure (required ≤ input.remaining) .unexpectedEof
  parseArrayValues elementType len

/-- The arms of the nested dispatch on the value type. -/
def parseValue (valueType : ValueType) : Parser β MetadataValue :=
  match valueType with
  | .uint8 => return .uint8 (← u8)
  | .uint16 => return .uint16 (← u16)
  | .uint32 => return .uint32 (← u32)
  | .int8 => return .int8 (← u8).toInt8
  | .int16 => return .int16 (← u16).toInt16
  | .int32 => return .int32 (← u32).toInt32
  | .float32 => return .float32 (← u32)
  | .bool => return .bool (← bool)
  | .string => return .string (← string "metadata string")
  | .array => return .array (← parseArray)
  | .uint64 => return .uint64 (← u64)
  | .int64 => return .int64 (← u64).toInt64
  | .float64 => return .float64 (← u64)

/-- The loop over the metadata entries. -/
def parseEntries : Nat → Metadata → Parser β Metadata
  | 0, metadata => pure metadata
  | count + 1, metadata => do
    let key ← string "metadata key"
    let code ← u32
    let valueType ← valueTypeOf code
    let value ← parseValue valueType
    ensure (¬ metadata.contains key) (.duplicateMetadata key)
    parseEntries count (metadata.insert key value)

def parseMetadata (metadataCount : Nat) : Parser β Metadata := do
  reserveOrderedCollection metadataEntryBytes metadataCount "metadata map"
  let metadata ← parseEntries metadataCount ∅
  if metadataCount = 0 then
    return metadata
  else
    retainReservation
    return metadata

def isPowerOfTwo (value : UInt32) : Bool := (List.range 32).any fun k => value.toNat == 2 ^ k

def parseAlignment (metadata : Metadata) : Except Error UInt32 :=
  match metadata.get? "general.alignment" with
  | none => .ok defaultAlignment
  | some (.uint32 value) => if isPowerOfTwo value then .ok value else .error (.invalidAlignment value)
  | some _ => .error (.invalidAlignment 0)

/-! ## The tensor table -/

def checkedProduct (values : List UInt64) (what : String) : Except Error Nat :=
  values.foldlM (fun product value =>
    match checkedMul 64 product value.toNat with
    | some product => .ok product
    | none => .error (.integerOverflow what)) 1

def overflowOr (value : Option Nat) (what : String) : Except Error Nat :=
  match value with
  | some value => .ok value
  | none => .error (.integerOverflow what)

def tensorBytes (name : String) (shape : List UInt64) (dtype : GgmlType) : Except Error Nat :=
  match dtype.blockLayout with
  | none => .error (.unsupportedTensorType name dtype.code)
  | some (blockElements, blockBytes) =>
    -- A parsed shape has a first dimension.
    let rowElements := (shape.headD 0).toNat
    if rowElements % blockElements ≠ 0 then
      .error (.invalidRowLength name dtype.name rowElements blockElements)
    else do
      let rowBytes ← overflowOr ((checkedDiv rowElements blockElements).bind
        fun blocks => checkedMul 64 blocks blockBytes) "tensor row byte count"
      let rows ← checkedProduct shape.tail "tensor row count"
      overflowOr (checkedMul 64 rowBytes rows) "tensor byte count"

def parseDimension (tensor : String) : Parser β UInt64 := do
  let dimension ← u64
  ensure (dimension ≠ 0) (.zeroDimension tensor)
  return dimension

def parseShape (tensor : String) : Parser β (List UInt64) := do
  let dimensions ← u32
  ensure (1 ≤ dimensions.toNat ∧ dimensions.toNat ≤ 4) (.invalidDimensions tensor dimensions)
  allocateVec 8 dimensions.toNat "tensor shape"
  readMany (parseDimension tensor) dimensions.toNat

/-- One descriptor. The names before it are those of the name index. -/
def parseTensor (tensorNames : List String) (alignment : UInt32) : Parser β TensorInfo := do
  let name ← string "tensor name"
  ensure (name ∉ tensorNames) (.duplicateTensor name)
  let _nameCopy ← cloneString name "tensor name index"
  let shape ← parseShape name
  let dtype : GgmlType := ⟨← u32⟩
  let offset ← u64
  ensure (offset.toNat % alignment.toNat = 0) (.misalignedTensor name offset alignment)
  let nBytes ← ofExcept (tensorBytes name shape dtype)
  return { name, shape, dtype, offset, nBytes }

/-- The loop over the descriptors. The name index holds the names of the tensors before. -/
def parseDescriptors (alignment : UInt32) : Nat → List String → Parser β (List TensorInfo)
  | 0, _ => pure []
  | count + 1, tensorNames => do
    let tensor ← parseTensor tensorNames alignment
    let tensors ← parseDescriptors alignment count (tensor.name :: tensorNames)
    return tensor :: tensors

def ensureTensorDescriptorsFit (tensorCount : Nat) : Parser β Unit := do
  let minimumBytes ← orErr (checkedMul 64 tensorCount minTensorDescriptorBytes)
    (.integerOverflow "tensor descriptor bytes")
  let input ← get
  ensure (minimumBytes ≤ input.remaining) .unexpectedEof

def parseTensors (tensorCount : Nat) (alignment : UInt32) : Parser β (List TensorInfo) := do
  ensureTensorDescriptorsFit tensorCount
  allocateVec tensorInfoBytes tensorCount "tensor descriptors"
  reserveHashCollection guardedStringBytes tensorCount "tensor names"
  parseDescriptors alignment tensorCount []

/-! ## The tensor ranges -/

/-- The bytes of a tensor in the file. -/
structure TensorRange where
  start : Nat
  stop : Nat
  name : String
  deriving DecidableEq

def tensorRangeOf (dataOffset fileLen : Nat) (tensor : TensorInfo) : Except Error TensorRange := do
  let start ← overflowOr (checkedAdd 64 dataOffset tensor.offset.toNat) "tensor absolute offset"
  let stop ← overflowOr (checkedAdd 64 start tensor.nBytes) "tensor end offset"
  if stop > fileLen then
    .error (.tensorOutOfBounds tensor.name)
  else
    .ok { start, stop, name := tensor.name }

def collectTensorRanges (tensors : List TensorInfo) (dataOffset fileLen : Nat) :
    Parser β (List TensorRange) := do
  if tensors.length = 0 then
    pure ()
  else
    let bytes ← vectorBytes tensorRangeBytes tensors.length "tensor ranges"
    reserve bytes "tensor ranges"
  ofExcept (tensors.mapM (tensorRangeOf dataOffset fileLen))

/-- Every range ends before its successor starts. -/
def checkNeighbours : List TensorRange → Except Error Unit
  | first :: second :: rest =>
    if first.stop > second.start then
      .error (.overlappingTensors first.name second.name)
    else
      checkNeighbours (second :: rest)
  | _ => .ok ()

/-- Which of two ranges with one start comes first is not specified, and such ranges overlap. -/
def checkTensorOverlap (ranges : List TensorRange) : Except Error Unit :=
  checkNeighbours (ranges.mergeSort fun first second => first.start ≤ second.start)

def validateTensorRanges (tensors : List TensorInfo) (dataOffset fileLen : Nat) :
    Parser β Unit := do
  let ranges ← collectTensorRanges tensors dataOffset fileLen
  ofExcept (checkTensorOverlap ranges)

def alignUp (value : Nat) (alignment : UInt64) : Except Error Nat :=
  let mask := alignment - 1
  match checkedAdd 64 value mask.toNat with
  | some sum => .ok (UInt64.ofNat sum &&& ~~~mask).toNat
  | none => .error (.integerOverflow "aligned data offset")

/-- The start of the data section. Without tensors it is the position after the table. -/
def dataOffsetOf (tensorCount position : Nat) (alignment : UInt32) : Except Error Nat :=
  if tensorCount = 0 then .ok position else alignUp position alignment.toUInt64

/-- The parser after its input is set up. -/
def parseInput : Parser β Parsed := do
  let (tensorCount, metadataCount) ← parseHeader
  let metadata ← parseMetadata metadataCount
  let alignment ← ofExcept (parseAlignment metadata)
  let tensors ← parseTensors tensorCount alignment
  let input ← get
  let dataOffset ← ofExcept (dataOffsetOf tensorCount input.position alignment)
  validateTensorRanges tensors dataOffset input.fileLen
  return { version := ggufVersion, alignment, dataOffset, metadata, tensors }

/-- Runs the parser on a file. A fault returns no parsed file. -/
def parseWithPreparedBudget (reader : List UInt8) (fileLen : Nat) (budget : AllocationBudget β)
    (budgetState : β) (reservations : Nat) : Except (Fault Error) Parsed :=
  match parseInput.run (Input.new reader fileLen budget budgetState reservations) with
  | .ok parsed _ => .ok parsed
  | .error fault _ => .error fault

/-- The storage of the retained reservations, charged to the budget before it is built. -/
def prepareReservationStorage (budget : AllocationBudget β) (budgetState : β) :
    Except Error (Nat × β) :=
  let wrapperBytes := (budget.reservationMetadataBytes budgetState : Nat)
  if wrapperBytes = 0 then
    .ok (0, budgetState)
  else
    match checkedMul 64 parserReservationCapacity wrapperBytes with
    | none => .error (.integerOverflow "parser reservation metadata bytes")
    | some bytes =>
      match budget.reserve bytes "parser reservation metadata" budgetState with
      | .error source => .error (.allocationBudget source)
      | .ok budgetState => .ok (1, budgetState)

def parseWithBudget (file : List UInt8) (budget : AllocationBudget β) (budgetState : β) :
    Except (Fault Error) Parsed :=
  match prepareReservationStorage budget budgetState with
  | .error error => .error (.error error)
  | .ok (reservations, budgetState) =>
    parseWithPreparedBudget file file.length budget budgetState reservations

def parse (file : List UInt8) : Except (Fault Error) Parsed :=
  parseWithBudget file unlimitedAllocationBudget ()

/-! ## Reading a parsed file -/

/-- Finds a tensor by its exact name. -/
def Parsed.tensor (self : Parsed) (name : String) : Option TensorInfo :=
  self.tensors.find? fun tensor => tensor.name = name

/-- A positional read of a file. -/
def readAt (file : List UInt8) (offset len : Nat) : Except Error (List UInt8) := do
  let stop ← overflowOr (checkedAdd 64 offset len) "tensor range"
  if stop > file.length then
    .error (.tensorOutOfBounds "requested range")
  else
    .ok ((file.drop offset).take len)

/-- Reads a byte range relative to the start of a tensor. -/
def Parsed.tensorRange (self : Parsed) (file : List UInt8) (name : String) (offset len : UInt64) :
    Except Error (List UInt8) :=
  match self.tensor name with
  | none => .error (.tensorNotFound name)
  | some tensor => do
    let stop ← overflowOr (checkedAdd 64 offset.toNat len.toNat) "tensor subrange"
    if stop > tensor.nBytes then
      .error (.tensorOutOfBounds tensor.name)
    else
      let absolute ← overflowOr ((checkedAdd 64 self.dataOffset tensor.offset.toNat).bind
        fun value => checkedAdd 64 value offset.toNat) "tensor subrange offset"
      readAt file absolute len.toNat

end Leone.Gguf

import Leone.Gguf.Decodes
import Leone.Gguf.Ranges

/-!
# The bytes of a document

The layout of a version 3 file, written from its content, and what makes a document well formed.
-/

namespace Leone.Gguf

open Framework

/-- The little-endian bytes of a number. -/
def leBytes : Nat → Nat → List UInt8
  | 0, _ => []
  | width + 1, value => UInt8.ofNat value :: leBytes width (value / 256)

theorem leBytes_length (width value : Nat) : (leBytes width value).length = width := by
  induction width generalizing value with
  | zero => rfl
  | succ width ih => rw [leBytes, List.length_cons, ih]

theorem fromLeBytes_leBytes (width value : Nat) :
    fromLeBytes (leBytes width value) = value % 256 ^ width := by
  induction width generalizing value with
  | zero => rw [leBytes, fromLeBytes, Nat.pow_zero, Nat.mod_one]
  | succ width ih =>
    have hbyte : (UInt8.ofNat value).toNat = value % 256 := UInt8.toNat_ofNat'
    rw [leBytes, fromLeBytes, ih, hbyte, Nat.pow_succ, Nat.mul_comm (256 ^ width), Nat.mod_mul]

def stringBytes (text : String) : List UInt8 := text.toUTF8.data.toList

theorem stringBytes_length (text : String) : (stringBytes text).length = text.utf8ByteSize := rfl

theorem fromUTF8?_stringBytes (text : String) :
    String.fromUTF8? (stringBytes text).toByteArray = some text := by
  have hbytes : (stringBytes text).toByteArray = text.toByteArray := by
    apply ByteArray.ext
    rw [List.data_toByteArray]
    rfl
  rw [hbytes, String.fromUTF8?, dif_pos text.isValidUTF8]
  rfl

def encodeString (text : String) : List UInt8 :=
  leBytes 8 text.utf8ByteSize ++ stringBytes text

def encodeBool (value : Bool) : List UInt8 := [if value then 1 else 0]

/-! ## Metadata -/

def MetadataArray.elementType : MetadataArray → ValueType
  | uint8 _ => .uint8 | int8 _ => .int8 | uint16 _ => .uint16 | int16 _ => .int16
  | uint32 _ => .uint32 | int32 _ => .int32 | float32 _ => .float32 | bool _ => .bool
  | string _ => .string | uint64 _ => .uint64 | int64 _ => .int64 | float64 _ => .float64

def MetadataArray.length : MetadataArray → Nat
  | uint8 values => values.length | int8 values => values.length
  | uint16 values => values.length | int16 values => values.length
  | uint32 values => values.length | int32 values => values.length
  | float32 bits => bits.length | bool values => values.length
  | string values => values.length | uint64 values => values.length
  | int64 values => values.length | float64 bits => bits.length

def MetadataArray.encodeValues : MetadataArray → List UInt8
  | uint8 values => values.flatMap fun value => leBytes 1 value.toNat
  | int8 values => values.flatMap fun value => leBytes 1 value.toUInt8.toNat
  | uint16 values => values.flatMap fun value => leBytes 2 value.toNat
  | int16 values => values.flatMap fun value => leBytes 2 value.toUInt16.toNat
  | uint32 values => values.flatMap fun value => leBytes 4 value.toNat
  | int32 values => values.flatMap fun value => leBytes 4 value.toUInt32.toNat
  | float32 bits => bits.flatMap fun value => leBytes 4 value.toNat
  | bool values => values.flatMap encodeBool
  | string values => values.flatMap encodeString
  | uint64 values => values.flatMap fun value => leBytes 8 value.toNat
  | int64 values => values.flatMap fun value => leBytes 8 value.toUInt64.toNat
  | float64 bits => bits.flatMap fun value => leBytes 8 value.toNat

def MetadataArray.encode (array : MetadataArray) : List UInt8 :=
  leBytes 4 array.elementType.code ++ (leBytes 8 array.length ++ array.encodeValues)

def MetadataValue.valueType : MetadataValue → ValueType
  | uint8 _ => .uint8 | int8 _ => .int8 | uint16 _ => .uint16 | int16 _ => .int16
  | uint32 _ => .uint32 | int32 _ => .int32 | float32 _ => .float32 | bool _ => .bool
  | string _ => .string | array _ => .array | uint64 _ => .uint64 | int64 _ => .int64
  | float64 _ => .float64

def MetadataValue.encode : MetadataValue → List UInt8
  | uint8 value => leBytes 1 value.toNat
  | int8 value => leBytes 1 value.toUInt8.toNat
  | uint16 value => leBytes 2 value.toNat
  | int16 value => leBytes 2 value.toUInt16.toNat
  | uint32 value => leBytes 4 value.toNat
  | int32 value => leBytes 4 value.toUInt32.toNat
  | float32 bits => leBytes 4 bits.toNat
  | bool value => encodeBool value
  | string value => encodeString value
  | array values => values.encode
  | uint64 value => leBytes 8 value.toNat
  | int64 value => leBytes 8 value.toUInt64.toNat
  | float64 bits => leBytes 8 bits.toNat

def encodeEntry (entry : String × MetadataValue) : List UInt8 :=
  encodeString entry.1 ++ (leBytes 4 entry.2.valueType.code ++ entry.2.encode)

def TensorInfo.encode (tensor : TensorInfo) : List UInt8 :=
  encodeString tensor.name ++ (leBytes 4 tensor.shape.length ++
    (tensor.shape.flatMap (fun dimension => leBytes 8 dimension.toNat) ++
      (leBytes 4 tensor.dtype.code.toNat ++ leBytes 8 tensor.offset.toNat)))

/-! ## Documents -/

/-- The content of a file. The data are all bytes behind the tensor table, with their padding. -/
structure Document where
  metadata : List (String × MetadataValue)
  tensors : List TensorInfo
  data : List UInt8

namespace Document

def header (doc : Document) : List UInt8 :=
  ggufMagic ++ (leBytes 4 ggufVersion.toNat ++
    (leBytes 8 doc.tensors.length ++ leBytes 8 doc.metadata.length))

def encode (doc : Document) : List UInt8 :=
  doc.header ++ (doc.metadata.flatMap encodeEntry ++
    (doc.tensors.flatMap TensorInfo.encode ++ doc.data))

/-- The position behind the tensor table. -/
def tableEnd (doc : Document) : Nat := doc.encode.length - doc.data.length

/-- The alignment that a document asks for. -/
def Aligns (doc : Document) (alignment : UInt32) : Prop :=
  ("general.alignment" ∉ doc.metadata.map Prod.fst ∧ alignment = defaultAlignment) ∨
    (("general.alignment", .uint32 alignment) ∈ doc.metadata ∧
      ∃ k < 32, alignment.toNat = 2 ^ k)

/-- The least multiple of the alignment that is not below the position behind the table. -/
def dataStart (doc : Document) (alignment : UInt32) : Nat :=
  (doc.tableEnd + (alignment.toNat - 1)) / alignment.toNat * alignment.toNat

end Document

def StringWithin (text : String) : Prop := text.utf8ByteSize ≤ maxStringLen

def MetadataArray.Within (array : MetadataArray) : Prop :=
  array.length ≤ maxCollectionLen ∧ ∀ values, array = .string values → ∀ text ∈ values, StringWithin text

def MetadataValue.Within : MetadataValue → Prop
  | .string value => StringWithin value
  | .array values => values.Within
  | _ => True

/-- A document within the limits of the format, whose tensors lie aligned and apart in its data. -/
structure Document.WellFormed (doc : Document) (alignment : UInt32) : Prop where
  metadataCount : doc.metadata.length ≤ maxCollectionLen
  tensorCount : doc.tensors.length ≤ maxCollectionLen
  metadataKeys : (doc.metadata.map Prod.fst).Nodup
  tensorNames : (doc.tensors.map TensorInfo.name).Nodup
  entries : ∀ entry ∈ doc.metadata, StringWithin entry.1 ∧ entry.2.Within
  aligns : doc.Aligns alignment
  names : ∀ tensor ∈ doc.tensors, StringWithin tensor.name
  laid : ∀ tensor ∈ doc.tensors, tensor.Laid
  offsets : ∀ tensor ∈ doc.tensors, alignment.toNat ∣ tensor.offset.toNat
  inside : ∀ tensor ∈ doc.tensors, (tensor.range (doc.dataStart alignment)).stop ≤ doc.encode.length
  apart : doc.tensors.Pairwise fun first second =>
    (first.range (doc.dataStart alignment)).Apart (second.range (doc.dataStart alignment))
  length : doc.encode.length < 2 ^ 64

end Leone.Gguf

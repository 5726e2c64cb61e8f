import Mathlib
import Leone.Framework.SortedMap

/-!
# GGUF data

Metadata values, storage types and tensor descriptors of a GGUF file. Floating-point values are
kept as their bits, which is all that the parser looks at.
-/

namespace Leone.Gguf

open Framework

/-- A GGUF metadata value type. -/
inductive ValueType
  | uint8 | int8 | uint16 | int16 | uint32 | int32 | float32 | bool | string | array | uint64
  | int64 | float64
  deriving DecidableEq, Repr

/-- The value types in the order of their codes. -/
def valueTypes : List ValueType :=
  [.uint8, .int8, .uint16, .int16, .uint32, .int32, .float32, .bool, .string, .array, .uint64,
    .int64, .float64]

def ValueType.code : ValueType → Nat
  | uint8 => 0 | int8 => 1 | uint16 => 2 | int16 => 3 | uint32 => 4 | int32 => 5 | float32 => 6
  | bool => 7 | string => 8 | array => 9 | uint64 => 10 | int64 => 11 | float64 => 12

theorem valueTypes_code (t : ValueType) : valueTypes[t.code]? = some t := by
  cases t <;> rfl

/-- A typed GGUF metadata array. -/
inductive MetadataArray
  | uint8 (values : List UInt8)
  | int8 (values : List Int8)
  | uint16 (values : List UInt16)
  | int16 (values : List Int16)
  | uint32 (values : List UInt32)
  | int32 (values : List Int32)
  | float32 (bits : List UInt32)
  | bool (values : List Bool)
  | string (values : List String)
  | uint64 (values : List UInt64)
  | int64 (values : List Int64)
  | float64 (bits : List UInt64)
  deriving DecidableEq

/-- A typed GGUF metadata value. -/
inductive MetadataValue
  | uint8 (value : UInt8)
  | int8 (value : Int8)
  | uint16 (value : UInt16)
  | int16 (value : Int16)
  | uint32 (value : UInt32)
  | int32 (value : Int32)
  | float32 (bits : UInt32)
  | bool (value : Bool)
  | string (value : String)
  | array (values : MetadataArray)
  | uint64 (value : UInt64)
  | int64 (value : Int64)
  | float64 (bits : UInt64)
  deriving DecidableEq

/-- The metadata of a file, by key. -/
abbrev Metadata := SortedMap String MetadataValue

/-- The value as an unsigned integer when its type is unsigned. -/
def MetadataValue.asU64 : MetadataValue → Option Nat
  | uint8 value => some value.toNat
  | uint16 value => some value.toNat
  | uint32 value => some value.toNat
  | uint64 value => some value.toNat
  | _ => none

/-- The string when this is a string value. -/
def MetadataValue.asStr : MetadataValue → Option String
  | string value => some value
  | _ => none

end Leone.Gguf

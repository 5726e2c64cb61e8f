import Leone.Framework.Slice
import Leone.Kv.Types

/-!
# Buffers of the CPU backend

A buffer has a layout and the storage that was allocated for it. A Q8 block has 34 bytes: the bits
of a scale and one code for each of 32 values.
-/

namespace Leone.Cpu

open Framework Kv

/-! ## Layouts -/

inductive BufferStorage
  | f16
  | f32
  | u32
  | q8Kv
  | q4K
  | q6K
  deriving DecidableEq, Repr

def BufferStorage.debug : BufferStorage → String
  | .f16 => "F16"
  | .f32 => "F32"
  | .u32 => "U32"
  | .q8Kv => "Q8Kv"
  | .q4K => "Q4K"
  | .q6K => "Q6K"

/-- A checked buffer layout with logical element and physical byte counts. -/
structure BufferLayout where
  storage : BufferStorage
  elements : Nat
  bytes : Nat
  deriving DecidableEq, Repr

namespace BufferLayout

def debug (layout : BufferLayout) : String :=
  "BufferLayout \x7b storage: " ++ layout.storage.debug ++ ", elements: " ++
    toString layout.elements ++ ", bytes: " ++ toString layout.bytes ++ " \x7d"

def f16 (elements : Nat) : Except BackendError BufferLayout :=
  (dense elements 2).map fun bytes => ⟨.f16, elements, bytes⟩

def f32 (elements : Nat) : Except BackendError BufferLayout :=
  (dense elements 4).map fun bytes => ⟨.f32, elements, bytes⟩

def u32 (elements : Nat) : Except BackendError BufferLayout :=
  (dense elements 4).map fun bytes => ⟨.u32, elements, bytes⟩

def q8Kv (elements : Nat) : Except BackendError BufferLayout :=
  (Kv.q8Kv elements).map fun bytes => ⟨.q8Kv, elements, bytes⟩

/-- A K-quant buffer with blocks of 256 values. -/
def quantized (elements : Nat) (storage : BufferStorage) (blockBytes : Nat) :
    Except BackendError BufferLayout := do
  nonzero "quantized elements" elements
  divisible "quantized elements" elements 256
  let bytes ← sized (checkedMul 64 (elements / 256) blockBytes) "quantized buffer bytes"
  return ⟨storage, elements, bytes⟩

end BufferLayout

/-! ## Storage -/

/-- The storage of a buffer. The values of `f16` are kept as their bits. -/
inductive CpuStorage (F : Type)
  | bytes (values : List UInt8)
  | f16 (values : List UInt16)
  | f32 (values : List F)
  | u32 (values : List UInt32)

structure CpuBuffer (F : Type) where
  layout : BufferLayout
  storage : CpuStorage F

/-- The buffers that are allocated: the layout is checked and the storage has its size. -/
inductive Allocated {F : Type} : CpuBuffer F → Prop
  | f16 {elements : Nat} {layout : BufferLayout} {values : List UInt16}
      (hlayout : BufferLayout.f16 elements = .ok layout) (hlength : values.length = layout.elements) :
      Allocated ⟨layout, .f16 values⟩
  | f32 {elements : Nat} {layout : BufferLayout} {values : List F}
      (hlayout : BufferLayout.f32 elements = .ok layout) (hlength : values.length = layout.elements) :
      Allocated ⟨layout, .f32 values⟩
  | u32 {elements : Nat} {layout : BufferLayout} {values : List UInt32}
      (hlayout : BufferLayout.u32 elements = .ok layout) (hlength : values.length = layout.elements) :
      Allocated ⟨layout, .u32 values⟩
  | q8Kv {elements : Nat} {layout : BufferLayout} {values : List UInt8}
      (hlayout : BufferLayout.q8Kv elements = .ok layout) (hlength : values.length = layout.bytes) :
      Allocated ⟨layout, .bytes values⟩
  | q4K {elements : Nat} {layout : BufferLayout} {values : List UInt8}
      (hlayout : BufferLayout.quantized elements .q4K 144 = .ok layout)
      (hlength : values.length = layout.bytes) : Allocated ⟨layout, .bytes values⟩
  | q6K {elements : Nat} {layout : BufferLayout} {values : List UInt8}
      (hlayout : BufferLayout.quantized elements .q6K 210 = .ok layout)
      (hlength : values.length = layout.bytes) : Allocated ⟨layout, .bytes values⟩

def storageError (operation : String) (storage : BufferStorage) : BackendError :=
  .operation operation ("buffer storage is " ++ storage.debug)

def exactLen (name : String) (expected actual : Nat) : Except BackendError Unit :=
  if expected = actual then .ok () else .error (.sizeMismatch name expected actual)

def checkLayout (name : String) (expected actual : BufferLayout) : Except BackendError Unit :=
  if expected = actual then .ok ()
  else .error (.operation "check buffer layout"
    (name ++ " has " ++ actual.debug ++ ", expected " ++ expected.debug))

namespace CpuBuffer

variable {F : Type}

def f32 (buffer : CpuBuffer F) : Except BackendError (List F) :=
  match buffer.storage with
  | .f32 values => .ok values
  | _ => .error (storageError "read f32" buffer.layout.storage)

def u32 (buffer : CpuBuffer F) : Except BackendError (List UInt32) :=
  match buffer.storage with
  | .u32 values => .ok values
  | _ => .error (storageError "read u32" buffer.layout.storage)

def f32Mut (buffer : CpuBuffer F) : Except BackendError (List F) :=
  match buffer.storage with
  | .f32 values => .ok values
  | _ => .error (storageError "write f32" buffer.layout.storage)

def f16Mut (buffer : CpuBuffer F) : Except BackendError (List UInt16) :=
  match buffer.storage with
  | .f16 values => .ok values
  | _ => .error (storageError "write f16" buffer.layout.storage)

def bytesMut (buffer : CpuBuffer F) : Except BackendError (List UInt8) :=
  match buffer.storage with
  | .bytes values => .ok values
  | _ => .error (storageError "write quantized bytes" buffer.layout.storage)

theorem f32_eq_ok {buffer : CpuBuffer F} {values : List F} :
    buffer.f32 = .ok values ↔ buffer.storage = .f32 values := by
  unfold CpuBuffer.f32
  split <;> simp_all

theorem f32Mut_eq_ok {buffer : CpuBuffer F} {values : List F} :
    buffer.f32Mut = .ok values ↔ buffer.storage = .f32 values := by
  unfold CpuBuffer.f32Mut
  split <;> simp_all

theorem f16Mut_eq_ok {buffer : CpuBuffer F} {values : List UInt16} :
    buffer.f16Mut = .ok values ↔ buffer.storage = .f16 values := by
  unfold CpuBuffer.f16Mut
  split <;> simp_all

theorem bytesMut_eq_ok {buffer : CpuBuffer F} {values : List UInt8} :
    buffer.bytesMut = .ok values ↔ buffer.storage = .bytes values := by
  unfold CpuBuffer.bytesMut
  split <;> simp_all

end CpuBuffer

/-! ## Arithmetic -/

/-- The operations on `f32` that storing and loading use. `half` gives the bits of the nearest `f16`
and `ofHalf` the value of such bits. `code` rounds, clamps to 127 and casts to `i8`. -/
structure Arithmetic (F : Type) where
  zero : F
  abs : F → F
  max : F → F → F
  isZero : F → Bool
  div : F → F → F
  mul : F → F → F
  limit : F
  code : F → Int8
  ofCode : Int8 → F
  half : F → UInt16
  ofHalf : UInt16 → F

section Q8

variable {F : Type} (arith : Arithmetic F)

/-- The scale of a block: its largest magnitude divided by 127. -/
def q8Scale (block : List F) : F :=
  let maximum := block.foldl (fun value next => arith.max value (arith.abs next)) arith.zero
  if arith.isZero maximum then arith.zero else arith.div maximum arith.limit

/-- The code of a value in a block with a stored scale. -/
def q8Code (scale value : F) : Int8 :=
  if arith.isZero scale then 0 else arith.code (arith.div value scale)

def leBytes (bits : UInt16) : List UInt8 := [UInt8.ofNat bits.toNat, UInt8.ofNat (bits.toNat / 256)]

def ofLeBytes (low high : UInt8) : UInt16 := UInt16.ofNat (low.toNat + 256 * high.toNat)

def q8Block (block : List F) : List UInt8 :=
  let bits := arith.half (q8Scale arith block)
  leBytes bits ++ block.map fun value => (q8Code arith (arith.ofHalf bits) value).toUInt8

/-- The blocks of 32 values. A shorter rest is left out. -/
def chunksExact (values : List F) : List (List F) :=
  (List.range (values.length / 32)).map fun k => (values.drop (k * 32)).take 32

/-- Overwrites cells that are in bounds. -/
def storeAt {α : Type} (cells : List α) (start : Nat) (source : List α) : Option (List α) :=
  if start + source.length ≤ cells.length then some (copyFromSlice cells start source) else none

def q8KvStore (cache : List UInt8) (logicalStart : Nat) (values : List F) : Option (List UInt8) :=
  ((chunksExact values).zipIdx).foldlM (fun cache block =>
    storeAt cache ((logicalStart / 32 + block.2) * 34) (q8Block arith block.1)) cache

def q8KvLoad (cache : List UInt8) (index : Nat) : Option F :=
  cache[index / 32 * 34]?.bind fun low =>
    cache[index / 32 * 34 + 1]?.bind fun high =>
      cache[index / 32 * 34 + 2 + index % 32]?.map fun code =>
        arith.mul (arith.ofCode code.toInt8) (arith.ofHalf (ofLeBytes low high))

/-- The value of a cell. An index out of bounds panics. -/
def cacheValue (buffer : CpuBuffer F) (index : Nat) (operation : String) :
    Except (Fault BackendError) F :=
  let orPanic : Option F → Except (Fault BackendError) F := fun value =>
    match value with
    | some value => .ok value
    | none => .error .panic
  match buffer.storage with
  | .f32 values => orPanic values[index]?
  | .f16 values => orPanic (values[index]?.map arith.ofHalf)
  | .bytes values =>
    if buffer.layout.storage = .q8Kv then orPanic (q8KvLoad arith values index)
    else .error (.error (storageError operation buffer.layout.storage))
  | .u32 _ => .error (.error (storageError operation buffer.layout.storage))

end Q8

end Leone.Cpu

import Leone.Framework.Method

/-!
# KV cache layouts

The shapes and buffer layouts that the KV tables are built from, with the checks that their
constructors make. Host sizes have 64 bits.
-/

namespace Leone.Kv

open Framework

/-- Describes a failed backend operation or an invalid operation contract. -/
inductive BackendError
  | operation (operation message : String)
  | memory (message : String)
  | zero (field : String)
  | notDivisible (field : String) (value divisor : Nat)
  | sizeOverflow (field : String)
  | invalidGqa (nHead nHeadKv : Nat)
  | sizeMismatch (name : String) (expected actual : Nat)
  | positionOutOfBounds (position maxContext : Nat)
  deriving DecidableEq, Repr

def nonzero (field : String) (value : Nat) : Except BackendError Unit :=
  if value = 0 then .error (.zero field) else .ok ()

def divisible (field : String) (value divisor : Nat) : Except BackendError Unit :=
  if value % divisor = 0 then .ok () else .error (.notDivisible field value divisor)

/-- The value of a checked size computation. -/
def sized (value : Option Nat) (field : String) : Except BackendError Nat :=
  match value with
  | some value => .ok value
  | none => .error (.sizeOverflow field)

theorem sized_eq_ok {value : Option Nat} {field : String} {n : Nat} :
    sized value field = .ok n ↔ value = some n := by
  cases value <;> simp [sized]

/-- A checked batch-1 GQA attention and KV layout. -/
structure AttentionShape where
  nHead : Nat
  nHeadKv : Nat
  headDim : Nat
  maxContext : Nat
  nHeadKv_pos : 0 < nHeadKv
  headDim_pos : 0 < headDim
  maxContext_pos : 0 < maxContext
  kvElements_lt : nHeadKv * maxContext * headDim < 2 ^ 64
  deriving DecidableEq

/-- Checks Q `[n_head][head_dim]` and KV `[n_head_kv][max_context][head_dim]`. -/
def AttentionShape.new (nHead nHeadKv headDim maxContext : Nat) :
    Except BackendError AttentionShape := do
  nonzero "n_head" nHead
  if hkv : nHeadKv = 0 then .error (.zero "n_head_kv")
  else if hdim : headDim = 0 then .error (.zero "head_dim")
  else if hctx : maxContext = 0 then .error (.zero "max_context")
  else if nHead % nHeadKv ≠ 0 then .error (.invalidGqa nHead nHeadKv)
  else if 2 ^ 64 ≤ nHead * headDim then .error (.sizeOverflow "query elements")
  else if hfit : nHeadKv * maxContext * headDim < 2 ^ 64 then
    .ok ⟨nHead, nHeadKv, headDim, maxContext, Nat.pos_of_ne_zero hkv, Nat.pos_of_ne_zero hdim,
      Nat.pos_of_ne_zero hctx, hfit⟩
  else .error (.sizeOverflow "KV elements")

theorem AttentionShape.maxContext_lt (shape : AttentionShape) : shape.maxContext < 2 ^ 64 := by
  have hkv : shape.maxContext ≤ shape.nHeadKv * shape.maxContext :=
    Nat.le_mul_of_pos_left _ shape.nHeadKv_pos
  have hdim : shape.nHeadKv * shape.maxContext ≤ shape.nHeadKv * shape.maxContext * shape.headDim :=
    Nat.le_mul_of_pos_right _ shape.headDim_pos
  exact (hkv.trans hdim).trans_lt shape.kvElements_lt

/-- The element type of a KV cache. -/
inductive KvCacheDtype
  | q8
  | f16
  | f32
  deriving DecidableEq, Repr

def q8KvBlockElements : Nat := 32
def q8KvBlockBytes : Nat := 34

/-- The bytes of a dense buffer. -/
def dense (elements elementBytes : Nat) : Except BackendError Nat := do
  nonzero "buffer elements" elements
  sized (checkedMul 64 elements elementBytes) "dense buffer bytes"

/-- The bytes of q8_0 KV storage with one FP16 scale per 32 values. -/
def q8Kv (elements : Nat) : Except BackendError Nat := do
  nonzero "Q8 KV elements" elements
  divisible "Q8 KV elements" elements q8KvBlockElements
  sized (checkedMul 64 (elements / q8KvBlockElements) q8KvBlockBytes) "Q8 KV buffer bytes"

/-- The bytes of a KV buffer. -/
def KvCacheDtype.layout (dtype : KvCacheDtype) (elements : Nat) : Except BackendError Nat :=
  match dtype with
  | .q8 => q8Kv elements
  | .f16 => dense elements 2
  | .f32 => dense elements 4

end Leone.Kv

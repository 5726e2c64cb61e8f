import Leone.Framework.Bits
import Leone.Framework.Method

/-!
# Progressive codes

Complete target codes are split into a base plane and a refinement plane. Each plane packs its fields
into bytes, the lowest bit first, and its last byte may be filled in part.
-/

namespace Leone.Progressive

open Framework

def baseBits : Nat := 2

/-- A supported complete target-code width. -/
inductive ProgressiveWidth
  | q4
  | q6
  deriving DecidableEq, Repr

namespace ProgressiveWidth

def targetBits : ProgressiveWidth → Nat
  | .q4 => 4
  | .q6 => 6

def refinementBits (width : ProgressiveWidth) : Nat := width.targetBits - baseBits

def maximumCode (width : ProgressiveWidth) : UInt8 := (1 <<< UInt8.ofNat width.targetBits) - 1

end ProgressiveWidth

inductive ProgressiveError
  | codeOutOfRange (index : Nat) (code : UInt8) (bits : Nat)
  | sizeOverflow
  | planeSize (plane : String) (expected actual : Nat)
  deriving DecidableEq, Repr

structure ProgressiveCodes where
  width : ProgressiveWidth
  codes : Nat
  base : List UInt8
  refinement : List UInt8
  deriving DecidableEq, Repr

/-! ## Planes -/

def packedLen (values bits : Nat) : Except (Fault ProgressiveError) Nat :=
  match (checkedMul 64 values bits).bind fun bits => checkedAdd 64 bits 7 with
  | some bits => .ok (bits / 8)
  | none => .error (.error .sizeOverflow)

/-- The value of an option. An index out of bounds panics. -/
def orPanic {α : Type} (value : Option α) : Except (Fault ProgressiveError) α :=
  match value with
  | some value => .ok value
  | none => .error .panic

/-- Sets the bits of one field. -/
def packField (bits start : Nat) (value : UInt8) (output : List UInt8) :
    Except (Fault ProgressiveError) (List UInt8) :=
  (List.range bits).foldlM (fun output bit =>
    if value &&& 1 <<< UInt8.ofNat bit ≠ 0 then orPanic (setBit output (start + bit))
    else return output) output

def pack (values : List UInt8) (bits : Nat) : Except (Fault ProgressiveError) (List UInt8) := do
  let length ← packedLen values.length bits
  values.zipIdx.foldlM (fun output entry => packField bits (entry.2 * bits) entry.1 output)
    (List.replicate length 0)

/-- Reads the bits of one field. -/
def unpackField (bytes : List UInt8) (bits start : Nat) : Except (Fault ProgressiveError) UInt8 :=
  (List.range bits).foldlM (fun value bit => do
    let byte ← orPanic bytes[(start + bit) / 8]?
    let source := byte >>> UInt8.ofNat ((start + bit) % 8) &&& 1
    return value ||| source <<< UInt8.ofNat bit) 0

def unpack (bytes : List UInt8) (bits values : Nat) : Except (Fault ProgressiveError) (List UInt8) :=
  (List.range values).mapM fun index => unpackField bytes bits (index * bits)

/-! ## Codes -/

namespace ProgressiveCodes

/-- The first code that exceeds the range of a width. -/
def checkCodes (width : ProgressiveWidth) (codes : List UInt8) :
    Except (Fault ProgressiveError) Unit :=
  codes.zipIdx.forM fun entry =>
    if width.maximumCode < entry.1 then
      .error (.error (.codeOutOfRange entry.2 entry.1 width.targetBits))
    else .ok ()

/-- Splits complete unsigned target codes without changing their values. -/
def encode (width : ProgressiveWidth) (codes : List UInt8) :
    Except (Fault ProgressiveError) ProgressiveCodes := do
  checkCodes width codes
  let refinementBits := width.refinementBits
  let refinementMask := (1 <<< UInt8.ofNat refinementBits) - 1
  let baseCodes := codes.map (· >>> UInt8.ofNat refinementBits)
  let refinementCodes := codes.map (· &&& refinementMask)
  let base ← pack baseCodes baseBits
  let refinement ← pack refinementCodes refinementBits
  return ⟨width, codes.length, base, refinement⟩

def validatePlaneSizes (encoded : ProgressiveCodes) : Except (Fault ProgressiveError) Unit := do
  let base ← packedLen encoded.codes baseBits
  if encoded.base.length ≠ base then
    .error (.error (.planeSize "base" base encoded.base.length))
  let refinement ← packedLen encoded.codes encoded.width.refinementBits
  if encoded.refinement.length ≠ refinement then
    .error (.error (.planeSize "refinement" refinement encoded.refinement.length))

/-- Reconstructs every complete target code. -/
def decodeComplete (encoded : ProgressiveCodes) : Except (Fault ProgressiveError) (List UInt8) := do
  validatePlaneSizes encoded
  let base ← unpack encoded.base baseBits encoded.codes
  let refinementBits := encoded.width.refinementBits
  let refinement ← unpack encoded.refinement refinementBits encoded.codes
  return List.zipWith (fun base refinement => base <<< UInt8.ofNat refinementBits ||| refinement)
    base refinement

/-- The two-bit base codes of an approximate view. -/
def decodeBase (encoded : ProgressiveCodes) : Except (Fault ProgressiveError) (List UInt8) := do
  validatePlaneSizes encoded
  unpack encoded.base baseBits encoded.codes

end ProgressiveCodes

end Leone.Progressive

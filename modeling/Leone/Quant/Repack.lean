import Leone.Framework.Slice

/-!
# The CUDA layout of Q4_K blocks

A GGUF superblock is 16 metadata bytes and 128 code bytes. The decode layout stores every code
region first and every metadata region after it, with the codes of a group striped across lanes.
-/

namespace Leone.Quant

open Framework

inductive Error where
  | zero (field : String)
  | notDivisible (field : String) (value divisor : Nat)
  | sizeOverflow (field : String)
  | sizeMismatch (name : String) (expected actual : Nat)
  | allocation (field : String) (bytes : Nat)
  deriving DecidableEq, Repr

inductive DequantError where
  | elementCount (nElems blockElems : Nat)
  | byteLength (actual expected : Nat)
  | lengthOverflow
  deriving DecidableEq, Repr

def q4kBlockElements : Nat := 256
def q4kGgufBlockBytes : Nat := 144
def q4kCodeBytes : Nat := 128
def q4kMetadataBytes : Nat := 16

/-- The arithmetic of the decoders: conversion from `f16` bits and from `u8`, and `f32` multiply and
subtract. -/
structure Arithmetic (F : Type) where
  ofHalf : UInt16 → F
  ofByte : UInt8 → F
  mul : F → F → F
  sub : F → F → F

def usizeMax : Nat := 2 ^ 64 - 1

/-- The most bytes one allocation holds. -/
def isizeMax : Nat := 2 ^ 63 - 1

def checkedMul (left right : Nat) : Option Nat :=
  if left * right ≤ usizeMax then some (left * right) else none

/-- Reserves space for `len` values of `size` bytes. A request that an allocation can hold is
granted. -/
def tryVec (len size : Nat) (field : String) : Except Error Unit :=
  match checkedMul len size with
  | none => .error (.sizeOverflow "Q4_K output bytes")
  | some bytes => if bytes ≤ isizeMax then .ok () else .error (.allocation field bytes)

/-- The byte at an index. Every index of a decoder is in range by its length checks. -/
def byteAt (bytes : List UInt8) (index : Nat) : UInt8 := bytes.getD index 0

def scaleMin (index : Nat) (packed : List UInt8) : UInt8 × UInt8 :=
  if index < 4 then
    (byteAt packed index &&& 63, byteAt packed (index + 4) &&& 63)
  else
    ((byteAt packed (index + 4) &&& (0x0f : UInt8)) ||| ((byteAt packed (index - 4) >>> 6) <<< 4),
      (byteAt packed (index + 4) >>> 4) ||| ((byteAt packed index >>> 6) <<< 4))

/-- The two scales and two minima of a 64-value group in one 24-bit record. -/
def parametersOf (scale0 scale1 minimum0 minimum1 : UInt8) : UInt32 :=
  scale0.toUInt32 ||| (scale1.toUInt32 <<< 6) ||| (minimum0.toUInt32 <<< 12)
    ||| (minimum1.toUInt32 <<< 18)

/-- The lanes of one group: four bytes of the first half beside the matching four of the second. -/
def stripeGroup (sourceGroup targetGroup : List UInt8) : List UInt8 :=
  (List.range 4).foldl (fun targetGroup laneItem =>
    let sourceOffset := laneItem * 4
    let targetOffset := laneItem * 8
    let targetGroup := copyFromSlice targetGroup targetOffset
      (slice sourceGroup sourceOffset (sourceOffset + 4))
    copyFromSlice targetGroup (targetOffset + 4)
      (slice sourceGroup (sourceOffset + 16) (sourceOffset + 20))) targetGroup

def repackCodes (source codeTarget : List UInt8) : List UInt8 :=
  (List.range 4).foldl (fun codeTarget group =>
    modifySlice codeTarget (group * 32) codeTarget.length
      (stripeGroup (source.drop (q4kMetadataBytes + group * 32)))) codeTarget

def repackMetadata (source target : List UInt8) : List UInt8 :=
  (List.range 4).foldl (fun target group =>
    let (scale0, minimum0) := scaleMin (group * 2) (slice source 4 16)
    let (scale1, minimum1) := scaleMin (group * 2 + 1) (slice source 4 16)
    let parameters := parametersOf scale0 scale1 minimum0 minimum1
    let target := target.set (4 + group) parameters.toUInt8
    let target := target.set (8 + group) (parameters >>> 8).toUInt8
    target.set (12 + group) (parameters >>> 16).toUInt8)
    (copyFromSlice target 0 (source.take 4))

/-- One step of the loop over the blocks: fills the code and the metadata region of a block. -/
def repackBlock (bytes : List UInt8) (codesBytes : Nat) (output : List UInt8)
    (blockIndex : Nat) : List UInt8 :=
  let source :=
    slice bytes (blockIndex * q4kGgufBlockBytes) ((blockIndex + 1) * q4kGgufBlockBytes)
  let output := modifySlice output (blockIndex * q4kCodeBytes) ((blockIndex + 1) * q4kCodeBytes)
    (repackCodes source)
  let metadataTarget := codesBytes + blockIndex * q4kMetadataBytes
  modifySlice output metadataTarget (metadataTarget + q4kMetadataBytes) (repackMetadata source)

/-- Reorders complete GGUF Q4_K blocks into the CUDA decode layout. -/
def repackQ4k (bytes : List UInt8) : Except Error (List UInt8) := do
  if bytes.isEmpty then
    throw (.zero "Q4_K repack bytes")
  if bytes.length % q4kGgufBlockBytes ≠ 0 then
    throw (.notDivisible "Q4_K repack bytes" bytes.length q4kGgufBlockBytes)
  let blocks := bytes.length / q4kGgufBlockBytes
  let some codesBytes := checkedMul blocks q4kCodeBytes
    | throw (.sizeOverflow "Q4_K repacked code bytes")
  tryVec bytes.length 1 "Q4_K repack output"
  let output := List.replicate bytes.length 0
  return (List.range blocks).foldl (repackBlock bytes codesBytes) output

def stripedIndex (originalIndex : Nat) : Nat :=
  let half := originalIndex / 16
  let within := originalIndex % 16
  (within / 4) * 8 + half * 4 + within % 4

def groupParameters (metadata : List UInt8) (group : Nat) : UInt32 :=
  (byteAt metadata (4 + group)).toUInt32 ||| ((byteAt metadata (8 + group)).toUInt32 <<< 8)
    ||| ((byteAt metadata (12 + group)).toUInt32 <<< 16)

section Decoders

variable {F : Type} (A : Arithmetic F)

def half (bytes : List UInt8) (offset : Nat) : F :=
  A.ofHalf ((byteAt bytes offset).toUInt16 ||| ((byteAt bytes (offset + 1)).toUInt16 <<< 8))

def dequantizeBlock (codes metadata : List UInt8) : List F :=
  let d := half A metadata 0
  let dmin := half A metadata 2
  (List.range 4).flatMap fun group =>
    let parameters := groupParameters metadata group
    let scale0 := (parameters &&& 63).toUInt8
    let scale1 := ((parameters >>> 6) &&& 63).toUInt8
    let min0 := ((parameters >>> 12) &&& 63).toUInt8
    let min1 := ((parameters >>> 18) &&& 63).toUInt8
    let d0 := A.mul d (A.ofByte scale0)
    let d1 := A.mul d (A.ofByte scale1)
    let m0 := A.mul dmin (A.ofByte min0)
    let m1 := A.mul dmin (A.ofByte min1)
    let groupCodes := slice codes (group * 32) (group * 32 + 32)
    ((List.range 32).map fun originalIndex =>
      let quant := byteAt groupCodes (stripedIndex originalIndex)
      A.sub (A.mul d0 (A.ofByte (quant &&& 0x0f))) m0) ++
    (List.range 32).map fun originalIndex =>
      let quant := byteAt groupCodes (stripedIndex originalIndex)
      A.sub (A.mul d1 (A.ofByte (quant >>> 4))) m1

/-- Dequantizes complete blocks from the CUDA Q4_K decode layout. -/
def dequantizeQ4k (bytes : List UInt8) (nElems : Nat) : Except Error (List F) := do
  if nElems % q4kBlockElements ≠ 0 then
    throw (.notDivisible "Q4_K dequantized elements" nElems q4kBlockElements)
  let blocks := nElems / q4kBlockElements
  let some expected := checkedMul blocks q4kGgufBlockBytes
    | throw (.sizeOverflow "Q4_K repacked bytes")
  if bytes.length ≠ expected then
    throw (.sizeMismatch "Q4_K repacked bytes" expected bytes.length)
  let some codesBytes := checkedMul blocks q4kCodeBytes
    | throw (.sizeOverflow "Q4_K repacked code bytes")
  let codes := bytes.take codesBytes
  let metadata := bytes.drop codesBytes
  tryVec nElems 4 "Q4_K dequantized output"
  return (List.range blocks).flatMap fun block =>
    dequantizeBlock A (slice codes (block * q4kCodeBytes) ((block + 1) * q4kCodeBytes))
      (slice metadata (block * q4kMetadataBytes) ((block + 1) * q4kMetadataBytes))

def validate (bytes : List UInt8) (nElems blockElems blockBytes : Nat) :
    Except DequantError Unit := do
  if nElems % blockElems ≠ 0 then
    throw (.elementCount nElems blockElems)
  let some expected := checkedMul (nElems / blockElems) blockBytes
    | throw .lengthOverflow
  if bytes.length ≠ expected then
    throw (.byteLength bytes.length expected)

/-- The groups of one GGUF block from a scale index on. -/
def dequantChunks (d dmin : F) (scales : List UInt8) : Nat → List (List UInt8) → List F
  | _, [] => []
  | scaleIndex, chunk :: chunks =>
    let (scale0, min0) := scaleMin scaleIndex scales
    let (scale1, min1) := scaleMin (scaleIndex + 1) scales
    let d0 := A.mul d (A.ofByte scale0)
    let d1 := A.mul d (A.ofByte scale1)
    let m0 := A.mul dmin (A.ofByte min0)
    let m1 := A.mul dmin (A.ofByte min1)
    (chunk.map fun (quant : UInt8) => A.sub (A.mul d0 (A.ofByte (quant &&& 0x0f))) m0) ++
      ((chunk.map fun (quant : UInt8) => A.sub (A.mul d1 (A.ofByte (quant >>> 4))) m1) ++
        dequantChunks d dmin scales (scaleIndex + 2) chunks)

/-- The exact chunks of a length, without a shorter rest. -/
def chunksExact (bytes : List UInt8) (size : Nat) : List (List UInt8) :=
  (List.range (bytes.length / size)).map fun k => slice bytes (k * size) ((k + 1) * size)

def dequantBlock (block : List UInt8) : List F :=
  dequantChunks A (half A block 0) (half A block 2) (slice block 4 16) 0
    (chunksExact (slice block 16 144) 32)

/-- The reference dequantizer of the GGUF layout. -/
def dequantQ4k (bytes : List UInt8) (nElems : Nat) : Except DequantError (List F) := do
  validate bytes nElems 256 144
  return (chunksExact bytes 144).flatMap (dequantBlock A)

end Decoders

end Leone.Quant

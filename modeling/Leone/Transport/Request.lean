import Mathlib
import Leone.Framework.SortedMap
import Leone.Framework.Utf8
import Leone.Chat.Task

/-!
# HTTP requests

A request is read from a socket in pieces. Its head ends at the first blank line and its body has
the length that the head gives. Text is the bytes of its UTF-8 encoding.
-/

namespace Leone.Transport

open Framework Utf8

instance linearOrder_u8 : LinearOrder UInt8 where
  le_refl := UInt8.le_refl
  le_trans _ _ _ := UInt8.le_trans
  le_antisymm _ _ := UInt8.le_antisymm
  le_total := UInt8.le_total
  lt_iff_le_not_ge _ _ := by
    rw [UInt8.lt_iff_toNat_lt, UInt8.le_iff_toNat_le, UInt8.le_iff_toNat_le]
    omega
  toDecidableLE := inferInstance
  toDecidableLT := inferInstance
  toDecidableEq := inferInstance

abbrev Bytes := List UInt8

/-! ## Text -/

/-- The pieces of a text between separators. `separator` is the length of one at the start of a
text, `0` if none is there. -/
def splitBy (separator : Bytes → Nat) : Bytes → Bytes → Nat → List Bytes
  | [], piece, _ => [piece.reverse]
  | _ :: rest, piece, skip + 1 => splitBy separator rest piece skip
  | byte :: rest, piece, 0 =>
    match separator (byte :: rest) with
    | 0 => splitBy separator rest (byte :: piece) 0
    | length + 1 => piece.reverse :: splitBy separator rest [] length

/-- `str::split` at a nonempty pattern. -/
def split (pattern text : Bytes) : List Bytes :=
  splitBy (fun rest => if pattern.isPrefixOf rest then pattern.length else 0) text [] 0

/-- `str::split_whitespace`. -/
def splitWhitespace (text : Bytes) : List Bytes :=
  (splitBy Chat.whitespaceLength text [] 0).filter (· ≠ [])

/-- The bytes of the white space character that a text ends with, from its last byte on. -/
def whitespaceEnd : List UInt8 → Nat
  | byte :: 0xC2 :: _ => if byte = 0x85 ∨ byte = 0xA0 then 2 else 0
  | 0x80 :: 0x9A :: 0xE1 :: _ => 3
  | 0x80 :: 0x80 :: 0xE3 :: _ => 3
  | 0x9F :: 0x81 :: 0xE2 :: _ => 3
  | byte :: 0x80 :: 0xE2 :: _ =>
    if (0x80 ≤ byte ∧ byte ≤ 0x8A) ∨ byte = 0xA8 ∨ byte = 0xA9 ∨ byte = 0xAF then 3 else 0
  | byte :: _ => if (0x09 ≤ byte ∧ byte ≤ 0x0D) ∨ byte = 0x20 then 1 else 0
  | [] => 0

/-- `str::trim_end` of a text that is given from its last byte on. -/
def trimReversed (reversed : Bytes) : Bytes :=
  if _h : whitespaceEnd reversed = 0 ∨ reversed = [] then reversed
  else trimReversed (reversed.drop (whitespaceEnd reversed))
termination_by reversed.length
decreasing_by
  obtain ⟨hlength, hne⟩ := not_or.mp _h
  have := List.length_pos_of_ne_nil hne
  rw [List.length_drop]
  omega

def trim (text : Bytes) : Bytes := (trimReversed (Chat.trimStart text).reverse).reverse

/-- `str::split_once` at a byte. -/
def splitOnce (separator : UInt8) : Bytes → Option (Bytes × Bytes)
  | [] => none
  | byte :: rest =>
    if byte = separator then some ([], rest)
    else (splitOnce separator rest).map fun parts => (byte :: parts.1, parts.2)

def toAsciiLowercase (text : Bytes) : Bytes :=
  text.map fun byte => if 0x41 ≤ byte ∧ byte ≤ 0x5A then byte + 0x20 else byte

/-- The digits of `str::parse::<usize>`. -/
def parseDigits : Bytes → Nat → Option Nat
  | [], value => some value
  | byte :: rest, value =>
    if 0x30 ≤ byte ∧ byte ≤ 0x39 then
      if value * 10 + (byte.toNat - 0x30) < 2 ^ 64 then
        parseDigits rest (value * 10 + (byte.toNat - 0x30))
      else none
    else none

/-- `str::parse::<usize>`, which allows one plus sign. -/
def parseUsize (text : Bytes) : Option Nat :=
  let digits := match text with
    | 0x2B :: rest => rest
    | text => text
  if digits = [] then none else parseDigits digits 0

/-- The bytes of an ASCII string. -/
def ascii (text : String) : Bytes := text.toList.map fun c => UInt8.ofNat c.toNat

/-! ## The head -/

inductive IoErrorKind where
  | invalidData
  | invalidInput
  | timedOut
  | unexpectedEof
  | other
  deriving DecidableEq, Repr

structure IoError where
  kind : IoErrorKind
  message : String
  deriving DecidableEq, Repr

def invalidData (message : String) : IoError := ⟨.invalidData, message⟩
def invalidInput (message : String) : IoError := ⟨.invalidInput, message⟩

def maxHeaderBytes : Nat := 64 * 1024
def maxBodyBytes : Nat := 4 * 1024 * 1024

abbrev Headers := SortedMap Bytes Bytes

structure HttpRequest where
  method : Bytes
  path : Bytes
  headers : Headers
  body : Bytes
  deriving DecidableEq

def parseRequestLine (line : Bytes) : Except IoError (Bytes × Bytes) :=
  match splitWhitespace line with
  | [] => .error (invalidData "HTTP method is missing")
  | [_] => .error (invalidData "HTTP path is missing")
  | method :: target :: _ => .ok (method, target.takeWhile (· ≠ 0x3F))

/-- One header line after those before it. A repeated name joins its values with a comma. -/
def parseRequestHeader (headers : Headers) (line : Bytes) : Except IoError Headers :=
  match splitOnce 0x3A line with
  | none => .error (invalidData "HTTP header is malformed")
  | some (name, value) =>
    let name := toAsciiLowercase (trim name)
    let value := trim value
    match headers.get? name with
    | none => .ok (headers.insert name value)
    | some current =>
      if name = ascii "x-leone-session" then
        .error (invalidData "x-leone-session must appear once")
      else .ok (headers.insert name (current ++ 0x2C :: value))

def parseRequestHeaders (lines : List Bytes) : Except IoError Headers :=
  (lines.filter (· ≠ [])).foldlM parseRequestHeader ∅

def parseRequestHead (bytes : Bytes) : Except IoError (Bytes × Bytes × Headers) :=
  match fromUtf8 bytes with
  | .error _ => .error (invalidData "HTTP headers are not UTF-8")
  | .ok () =>
    match split [0x0D, 0x0A] bytes with
    | [] => .error (invalidData "HTTP request line is missing")
    | line :: lines => do
      let (method, path) ← parseRequestLine line
      let headers ← parseRequestHeaders lines
      return (method, path, headers)

def requestContentLength (headers : Headers) : Except IoError Nat :=
  match headers.get? (ascii "content-length") with
  | none => .ok 0
  | some value =>
    match parseUsize value with
    | none => .error (invalidData "Content-Length is invalid")
    | some length => .ok length

/-! ## Reading -/

/-- What one call of `read` brings: some bytes of a buffer, or an error. The end of the stream is the
end of the list of reads. -/
inductive Read where
  | data (bytes : {bytes : Bytes // bytes ≠ [] ∧ bytes.length ≤ 8192})
  | failed (error : IoError)
  | expired

def deadlineExpired : IoError := ⟨.timedOut, "request deadline expired"⟩

def blankLine : Bytes := [0x0D, 0x0A, 0x0D, 0x0A]

/-- The bytes read up to the end of the head, that end, and the reads that are left. -/
def readRequestHeaders : List Read → Bytes → Except IoError (Option (Bytes × Nat × List Read))
  | [], _ => .ok none
  | .failed error :: _, _ => .error error
  | .expired :: _, _ => .error deadlineExpired
  | .data buffer :: reads, bytes =>
    let bytes := bytes ++ buffer.val
    if maxHeaderBytes < bytes.length then .error (invalidData "HTTP headers exceed 64 KiB")
    else
      match Chat.windowPosition bytes blankLine with
      | some position => .ok (some (bytes, position + 4, reads))
      | none => readRequestHeaders reads bytes

/-- The bytes read until the body has its length. -/
def readRequestBody (headerEnd contentLength : Nat) : List Read → Bytes → Except IoError Bytes
  | reads, bytes =>
    if contentLength ≤ bytes.length - headerEnd then .ok bytes
    else
      match reads with
      | [] => .error ⟨.unexpectedEof, "HTTP body ended early"⟩
      | .failed error :: _ => .error error
      | .expired :: _ => .error deadlineExpired
      | .data buffer :: reads =>
        readRequestBody headerEnd contentLength reads (bytes ++ buffer.val)

def readRequest (reads : List Read) : Except IoError (Option HttpRequest) := do
  match ← readRequestHeaders reads [] with
  | none => return none
  | some (bytes, headerEnd, reads) =>
    let (method, path, headers) ← parseRequestHead (bytes.take headerEnd)
    let contentLength ← requestContentLength headers
    if maxBodyBytes < contentLength then throw (invalidInput "HTTP body exceeds 4 MiB")
    let bytes ← readRequestBody headerEnd contentLength reads bytes
    return some { method, path, headers, body := (bytes.drop headerEnd).take contentLength }

end Leone.Transport

import Leone.Framework.Json
import Leone.Text.RoundTrip

/-!
# The JSON-object constraint

A token is admitted when the bytes so far and its own bytes are the beginning of one JSON object
with optional surrounding white space. The JSON parser is a parameter that reads RFC 8259 text with
bounded nesting.
-/

namespace Leone.Text

open Framework

/-- What the constraint sees of a parse: an object, another value, an error at the end of the
input, or another error. -/
inductive JsonOutcome
  | object | other | eof | invalid
  deriving DecidableEq, Repr

/-- An error returned when an output constraint cannot admit a token. -/
inductive ConstraintError
  | tokenizer (error : TokenizerError)
  | noValidToken
  | invalidTransition
  deriving DecidableEq

structure JsonObjectConstraint where
  bytes : List UInt8
  deriving DecidableEq

/-- Space, tab, line feed, form feed and carriage return. -/
def isAsciiWhitespace (byte : UInt8) : Bool :=
  byte == 0x20 || byte == 0x09 || byte == 0x0a || byte == 0x0c || byte == 0x0d

/-- The first byte that opens the value of a text. -/
def firstSignificant (bytes : List UInt8) : Option UInt8 :=
  bytes.find? fun byte => !Json.isWhitespace byte

/-- The parser reads RFC 8259 texts with at most `limit` nested brackets. It reports an end-of-file
error exactly when the input ends inside a text that it could read so far. -/
structure ReadsJson (fromSlice : List UInt8 → JsonOutcome) (limit : Nat) : Prop where
  limit_pos : 0 < limit
  object : ∀ bytes, fromSlice bytes = .object ↔
    Json.Accepts limit bytes ∧ firstSignificant bytes = some 0x7b
  other : ∀ bytes, fromSlice bytes = .other ↔
    Json.Accepts limit bytes ∧ firstSignificant bytes ≠ some 0x7b
  eof : ∀ bytes, fromSlice bytes = .eof ↔ Json.Unfinished limit bytes

namespace JsonObjectConstraint

variable (fromSlice : List UInt8 → JsonOutcome)

def new : JsonObjectConstraint := { bytes := [] }

def validObjectPrefix (bytes : List UInt8) : Bool :=
  match bytes.find? fun byte => !isAsciiWhitespace byte with
  | none => true
  | some first =>
    if first ≠ 0x7b then false
    else match fromSlice bytes with
      | .object => true
      | .other => false
      | .eof => true
      | .invalid => false

def allowsBytes (self : JsonObjectConstraint) (bytes : List UInt8) : Bool :=
  validObjectPrefix fromSlice (self.bytes ++ bytes)

def isComplete (self : JsonObjectConstraint) : Bool := fromSlice self.bytes = .object

variable (tokenizer : Tokenizer)

/-- Whether a token may come next. -/
def admits (self : JsonObjectConstraint) (token : Nat) : Except ConstraintError Bool :=
  if some token = tokenizer.eos then .ok (self.isComplete fromSlice)
  else match tokenizer.tokenBytes token with
    | .error error => .error (.tokenizer error)
    | .ok bytes => .ok (!bytes.isEmpty && self.allowsBytes fromSlice bytes)

section Mask

variable {F : Type} (isFinite : F → Bool) (negInfinity : F)

/-- The loop over the logits from an index on. It returns them masked, with their number of
admitted tokens. -/
def maskFrom (self : JsonObjectConstraint) :
    Nat → List F → Except ConstraintError (List F × Nat)
  | _, [] => .ok ([], 0)
  | index, logit :: rest =>
    match tryFrom 32 index with
    | none => .error .noValidToken
    | some token =>
      match self.admits fromSlice tokenizer token with
      | .error error => .error error
      | .ok admitted =>
        match maskFrom self (index + 1) rest with
        | .error error => .error error
        | .ok (masked, allowed) =>
          if admitted && isFinite logit then .ok (logit :: masked, allowed + 1)
          else .ok (negInfinity :: masked, allowed)

/-- The masked logits. After an error the row is not used. -/
def mask (self : JsonObjectConstraint) (logits : List F) : Except ConstraintError (List F) :=
  match self.maskFrom fromSlice tokenizer isFinite negInfinity 0 logits with
  | .error error => .error error
  | .ok (masked, allowed) => if allowed = 0 then .error .noValidToken else .ok masked

end Mask

def accept (self : JsonObjectConstraint) (token : Nat) :
    Except ConstraintError JsonObjectConstraint :=
  if some token = tokenizer.eos then
    if self.isComplete fromSlice then .ok self else .error .invalidTransition
  else match tokenizer.tokenBytes token with
    | .error error => .error (.tokenizer error)
    | .ok bytes =>
      if bytes.isEmpty || !self.allowsBytes fromSlice bytes then .error .invalidTransition
      else .ok { bytes := self.bytes ++ bytes }

/-- A sequence of tokens, accepted one after the other. -/
def acceptAll (self : JsonObjectConstraint) (tokens : List Nat) :
    Except ConstraintError JsonObjectConstraint :=
  tokens.foldlM (fun constraint token => constraint.accept fromSlice tokenizer token) self

end JsonObjectConstraint

/-- Every byte is a token of its own beside the end-of-sequence token, and the identifiers of the
tokens are 32-bit numbers. -/
structure ByteVocabulary (tokenizer : Tokenizer) : Prop where
  byteToken : ∀ byte, ∃ id, some id ≠ tokenizer.eos ∧ tokenizer.tokenBytes id = .ok [byte]
  eos : ∃ id, tokenizer.eos = some id
  size : tokenizer.tokens.length < 2 ^ 32

end Leone.Text

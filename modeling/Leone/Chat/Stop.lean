import Leone.Framework.Utf8
import Leone.Framework.Method

/-!
# Stop sequences

A stream matches its stop sequences token by token and holds back what may still become a match.
The other mode looks for the first match in the decoded text.
-/

namespace Leone.Chat

open Framework Utf8

/-- A string, as its bytes. -/
abbrev Text := {bytes : List UInt8 // fromUtf8 bytes = .ok ()}

/-! ## The stop list of a request -/

/-- The value of the `stop` field. An entry of an array that is not a string is none. -/
inductive StopValue
  | string (sequence : Text)
  | array (values : List (Option Text))
  | other

def maxStopBytes : Nat := 4096

def parseStopValues : StopValue → Except String (List Text)
  | .string sequence => .ok [sequence]
  | .array values =>
    if 4 < values.length then .error "stop supports at most four sequences"
    else values.mapM fun
      | some value => .ok value
      | none => .error "stop array entries must be strings"
  | .other => .error "stop must be one string or an array of strings"

def validateStopBytes : Nat → List Text → Except String Unit
  | _, [] => .ok ()
  | total, value :: values =>
    if value.val = [] then .error "stop sequences must be nonempty"
    else if maxStopBytes < total + value.val.length then .error "stop sequences exceed 4096 bytes"
    else validateStopBytes (total + value.val.length) values

def stopValues (value : StopValue) : Except String (List Text) := do
  let values ← parseStopValues value
  validateStopBytes 0 values
  return values

def requestStopSequences (stop : Option StopValue) : Except String (List (List UInt8)) :=
  match stop with
  | none => .ok []
  | some value => do
    let values ← stopValues value
    if values.any (fun value => value.val.isEmpty) then .error "stop sequences must not be empty"
    else return values.map Subtype.val

/-! ## Matching -/

/-- The first window that is a sequence. -/
def windowPosition (bytes sequence : List UInt8) : Option Nat :=
  (List.range (bytes.length + 1 - sequence.length)).find? fun position =>
    (bytes.drop position).take sequence.length == sequence

def findStopPosition (bytes : List UInt8) (sequences : List (List UInt8)) : Option Nat :=
  (sequences.filterMap (windowPosition bytes)).min?

def truncateAtStop (content : List UInt8) (sequences : List (List UInt8)) : List UInt8 × Bool :=
  match findStopPosition content sequences with
  | none => (content, false)
  | some position => (content.take position, true)

/-- The longest proper beginning of a sequence that the bytes end with. -/
def suffixPrefixLength (bytes sequence : List UInt8) : Nat :=
  ((List.range' 1 (sequence.length - 1)).reverse.find? fun length =>
    (sequence.take length).isSuffixOf bytes).getD 0

structure StopMatcher where
  sequences : List (List UInt8)
  pending : List UInt8
  matched : Bool
  deriving DecidableEq

def StopMatcher.new (sequences : List (List UInt8)) : StopMatcher := ⟨sequences, [], false⟩

/-- The bytes that can be sent, and the matcher after them. -/
def StopMatcher.push (m : StopMatcher) (bytes : List UInt8) : List UInt8 × StopMatcher :=
  if m.matched then ([], m)
  else
    let pending := m.pending ++ bytes
    match findStopPosition pending m.sequences with
    | some position => (pending.take position, { m with pending := [], matched := true })
    | none =>
      let hold := (m.sequences.map (suffixPrefixLength pending)).max?.getD 0
      (pending.take (pending.length - hold), { m with pending := pending.drop (pending.length - hold) })

def StopMatcher.finish (m : StopMatcher) : List UInt8 × StopMatcher :=
  if m.matched then ([], { m with pending := [] }) else (m.pending, { m with pending := [] })

/-! ## Decoding -/

structure Utf8Stream where
  pending : List UInt8
  deriving DecidableEq

/-- One step of the decoder: whether it goes on, what is still pending, and what it writes. -/
def takeUtf8Piece (pending : List UInt8) (finalChunk : Bool) :
    Bool × List UInt8 × List (List UInt8) :=
  match fromUtf8 pending with
  | .ok () => if pending = [] then (false, pending, []) else (false, [], [pending])
  | .error e =>
    if 0 < e.validUpTo then (true, pending.drop e.validUpTo, [pending.take e.validUpTo])
    else
      match e.errorLen with
      | some count => (true, pending.drop count, [replacement])
      | none => if finalChunk then (false, [], [fromUtf8Lossy pending]) else (false, pending, [])

theorem takeUtf8Piece_lt {pending rest : List UInt8} {finalChunk : Bool} {pieces : List (List UInt8)}
    (h : takeUtf8Piece pending finalChunk = (true, rest, pieces)) : rest.length < pending.length := by
  unfold takeUtf8Piece at h
  split at h
  · split at h <;> cases h
  · next e herror =>
    obtain ⟨hne, hcount⟩ := fromUtf8_error herror
    have hlen := List.length_pos_of_ne_nil hne
    split at h
    · cases h
      rw [List.length_drop]
      omega
    · split at h
      · next count hsome =>
        cases h
        have := hcount count hsome
        rw [List.length_drop]
        omega
      · split at h <;> cases h

/-- The pieces that a text is sent in, and what is held back. -/
def takeUtf8 (pending : List UInt8) (finalChunk : Bool) : List (List UInt8) × List UInt8 :=
  match _h : takeUtf8Piece pending finalChunk with
  | (true, rest, pieces) => (pieces ++ (takeUtf8 rest finalChunk).1, (takeUtf8 rest finalChunk).2)
  | (false, rest, pieces) => (pieces, rest)
termination_by pending.length
decreasing_by all_goals exact takeUtf8Piece_lt _h

def Utf8Stream.push (s : Utf8Stream) (bytes : List UInt8) : List (List UInt8) × Utf8Stream :=
  let (output, pending) := takeUtf8 (s.pending ++ bytes) false
  (output, ⟨pending⟩)

def Utf8Stream.finish (s : Utf8Stream) : List (List UInt8) × Utf8Stream :=
  let (output, pending) := takeUtf8 s.pending true
  (output, ⟨pending⟩)

end Leone.Chat

import Mathlib

/-!
# Reading RFC 8259 JSON byte by byte

A deterministic reader of JSON text with bounded nesting. It holds the brackets that are open and
the place inside the current token, and it refuses a byte that no text can have there. Every
place can still be completed, so a refusal is the only dead end.
-/

namespace Framework.Json

inductive Frame | object | array
  deriving DecidableEq, Repr

/-- What is missing of a UTF-8 sequence: one to three continuation bytes, or the two or three
bytes after a lead byte that restricts the next one. -/
inductive Tail | one | two | three | afterE0 | afterED | afterF0 | afterF4
  deriving DecidableEq, Repr

/-- A place inside a string. `hex n` is in front of the last `n + 1` digits of an escape. -/
inductive StringState
  | plain
  | escape
  | hex (more : Nat)
  | utf8 (tail : Tail)
  deriving DecidableEq, Repr

inductive NumberState | minus | zero | int | dot | frac | exp | expSign | expDigits
  deriving DecidableEq, Repr

/-- A place in a text. `firstElement` and `firstKey` are behind an opening bracket, and `literal` is
in front of the bytes that are missing of a name. -/
inductive Mode
  | value
  | firstElement
  | firstKey
  | key
  | colon
  | after
  | string (isKey : Bool) (inside : StringState)
  | number (inside : NumberState)
  | literal (next : UInt8) (rest : List UInt8)
  deriving DecidableEq, Repr

structure State where
  stack : List Frame
  mode : Mode
  deriving DecidableEq, Repr

def start : State := { stack := [], mode := .value }

/-- `ws` -/
def isWhitespace (byte : UInt8) : Bool :=
  byte == 0x20 || byte == 0x09 || byte == 0x0a || byte == 0x0d

def isDigit (byte : UInt8) : Bool := 0x30 ≤ byte && byte ≤ 0x39

def isHexDigit (byte : UInt8) : Bool :=
  isDigit byte || (0x41 ≤ byte && byte ≤ 0x46) || (0x61 ≤ byte && byte ≤ 0x66)

/-! ## Strings -/

/-- The place behind the lead byte of a sequence of more than one byte. -/
def leadTail (byte : UInt8) : Option Tail :=
  if 0xc2 ≤ byte ∧ byte ≤ 0xdf then some .one
  else if byte = 0xe0 then some .afterE0
  else if byte = 0xed then some .afterED
  else if 0xe1 ≤ byte ∧ byte ≤ 0xef then some .two
  else if byte = 0xf0 then some .afterF0
  else if 0xf1 ≤ byte ∧ byte ≤ 0xf3 then some .three
  else if byte = 0xf4 then some .afterF4
  else none

def between (low high byte : UInt8) (next : StringState) : Option StringState :=
  if low ≤ byte ∧ byte ≤ high then some next else none

def stepTail : Tail → UInt8 → Option StringState
  | .one, byte => between 0x80 0xbf byte .plain
  | .two, byte => between 0x80 0xbf byte (.utf8 .one)
  | .three, byte => between 0x80 0xbf byte (.utf8 .two)
  | .afterE0, byte => between 0xa0 0xbf byte (.utf8 .one)
  | .afterED, byte => between 0x80 0x9f byte (.utf8 .one)
  | .afterF0, byte => between 0x90 0xbf byte (.utf8 .two)
  | .afterF4, byte => between 0x80 0x8f byte (.utf8 .two)

/-- The two-character escapes, in the order `"`, `\`, `/`, `b`, `f`, `n`, `r`, `t`. -/
def isEscape (byte : UInt8) : Bool :=
  byte ∈ ([0x22, 0x5c, 0x2f, 0x62, 0x66, 0x6e, 0x72, 0x74] : List UInt8)

/-- A byte inside a string that does not close it. -/
def stepString : StringState → UInt8 → Option StringState
  | .plain, byte =>
    if byte = 0x5c then some .escape
    else if byte < 0x20 then none
    else if byte < 0x80 then some .plain
    else (leadTail byte).map .utf8
  | .escape, byte =>
    if byte = 0x75 then some (.hex 3)
    else if isEscape byte then some .plain
    else none
  | .hex 0, byte => if isHexDigit byte then some .plain else none
  | .hex (more + 1), byte => if isHexDigit byte then some (.hex more) else none
  | .utf8 tail, byte => stepTail tail byte

/-! ## Numbers -/

def stepNumber : NumberState → UInt8 → Option NumberState
  | .minus, byte => if byte = 0x30 then some .zero else if isDigit byte then some .int else none
  | .zero, byte =>
    if byte = 0x2e then some .dot
    else if byte = 0x65 ∨ byte = 0x45 then some .exp
    else none
  | .int, byte =>
    if isDigit byte then some .int
    else if byte = 0x2e then some .dot
    else if byte = 0x65 ∨ byte = 0x45 then some .exp
    else none
  | .dot, byte => if isDigit byte then some .frac else none
  | .frac, byte =>
    if isDigit byte then some .frac
    else if byte = 0x65 ∨ byte = 0x45 then some .exp
    else none
  | .exp, byte =>
    if byte = 0x2b ∨ byte = 0x2d then some .expSign
    else if isDigit byte then some .expDigits
    else none
  | .expSign, byte => if isDigit byte then some .expDigits else none
  | .expDigits, byte => if isDigit byte then some .expDigits else none

/-- A number may end here. -/
def NumberState.ends : NumberState → Bool
  | .zero | .int | .frac | .expDigits => true
  | .minus | .dot | .exp | .expSign => false

/-! ## Texts -/

/-- The first byte of a value. At most `limit` brackets are open at a time. -/
def openValue (limit : Nat) (stack : List Frame) (byte : UInt8) : Option State :=
  if byte = 0x22 then some { stack, mode := .string false .plain }
  else if byte = 0x7b then
    if stack.length < limit then some { stack := .object :: stack, mode := .firstKey } else none
  else if byte = 0x5b then
    if stack.length < limit then some { stack := .array :: stack, mode := .firstElement } else none
  else if byte = 0x2d then some { stack, mode := .number .minus }
  else if byte = 0x30 then some { stack, mode := .number .zero }
  else if isDigit byte then some { stack, mode := .number .int }
  else if byte = 0x74 then some { stack, mode := .literal 0x72 [0x75, 0x65] }
  else if byte = 0x66 then some { stack, mode := .literal 0x61 [0x6c, 0x73, 0x65] }
  else if byte = 0x6e then some { stack, mode := .literal 0x75 [0x6c, 0x6c] }
  else none

/-- A byte behind a value: white space, a comma, or the bracket that closes. -/
def afterValue (stack : List Frame) (byte : UInt8) : Option State :=
  if isWhitespace byte then some { stack, mode := .after }
  else match stack with
    | [] => none
    | .object :: rest =>
      if byte = 0x2c then some { stack, mode := .key }
      else if byte = 0x7d then some { stack := rest, mode := .after }
      else none
    | .array :: rest =>
      if byte = 0x2c then some { stack, mode := .value }
      else if byte = 0x5d then some { stack := rest, mode := .after }
      else none

def step (limit : Nat) (state : State) (byte : UInt8) : Option State :=
  let stack := state.stack
  match state.mode with
  | .value => if isWhitespace byte then some state else openValue limit stack byte
  | .firstElement =>
    if isWhitespace byte then some state
    else if byte = 0x5d then some { stack := stack.tail, mode := .after }
    else openValue limit stack byte
  | .firstKey =>
    if isWhitespace byte then some state
    else if byte = 0x7d then some { stack := stack.tail, mode := .after }
    else if byte = 0x22 then some { stack, mode := .string true .plain }
    else none
  | .key =>
    if isWhitespace byte then some state
    else if byte = 0x22 then some { stack, mode := .string true .plain }
    else none
  | .colon =>
    if isWhitespace byte then some state
    else if byte = 0x3a then some { stack, mode := .value }
    else none
  | .after => afterValue stack byte
  | .string isKey inside =>
    if inside = .plain ∧ byte = 0x22 then
      some { stack, mode := if isKey then .colon else .after }
    else (stepString inside byte).map fun inside => { stack, mode := .string isKey inside }
  | .number inside =>
    match stepNumber inside byte with
    | some inside => some { stack, mode := .number inside }
    | none => if inside.ends then afterValue stack byte else none
  | .literal next rest =>
    if byte = next then
      match rest with
      | [] => some { stack, mode := .after }
      | next :: rest => some { stack, mode := .literal next rest }
    else none

def run (limit : Nat) (state : State) (bytes : List UInt8) : Option State :=
  bytes.foldlM (step limit) state

/-- A value ends here, if no bracket is open. -/
def Mode.ends : Mode → Bool
  | .after => true
  | .number inside => inside.ends
  | _ => false

def State.final (state : State) : Bool := state.stack.isEmpty && state.mode.ends

/-- The bytes are a JSON text. -/
def Accepts (limit : Nat) (bytes : List UInt8) : Prop :=
  ∃ state, run limit start bytes = some state ∧ state.final

/-- The bytes end inside a JSON text. -/
def Unfinished (limit : Nat) (bytes : List UInt8) : Prop :=
  ∃ state, run limit start bytes = some state ∧ ¬ state.final

section Run

variable {limit : Nat}

@[simp] theorem run_nil (state : State) : run limit state [] = some state := rfl

@[simp] theorem run_cons (state : State) (byte : UInt8) (bytes : List UInt8) :
    run limit state (byte :: bytes) = (step limit state byte).bind fun next => run limit next bytes :=
  rfl

theorem run_append (state : State) (xs ys : List UInt8) :
    run limit state (xs ++ ys) = (run limit state xs).bind fun next => run limit next ys := by
  induction xs generalizing state with
  | nil => rfl
  | cons byte xs ih =>
    rw [List.cons_append, run_cons, run_cons, Option.bind_assoc]
    congr 1
    funext next
    exact ih next

theorem run_of_append {state next : State} {xs ys : List UInt8}
    (h : run limit state (xs ++ ys) = some next) : ∃ middle, run limit state xs = some middle := by
  rw [run_append, Option.bind_eq_some_iff] at h
  obtain ⟨middle, hmiddle, _⟩ := h
  exact ⟨middle, hmiddle⟩

theorem run_whitespace {bytes : List UInt8} (h : ∀ byte ∈ bytes, isWhitespace byte) :
    run limit start bytes = some start := by
  induction bytes with
  | nil => rfl
  | cons byte bytes ih =>
    have hstep : step limit start byte = some start := if_pos (h byte List.mem_cons_self)
    rw [run_cons, hstep]
    exact ih fun b hb => h b (List.mem_cons_of_mem byte hb)

end Run

/-! ## Completing a text -/

def Tail.completion : Tail → List UInt8
  | .one => [0x80]
  | .two => [0x80, 0x80]
  | .three => [0x80, 0x80, 0x80]
  | .afterE0 => [0xa0, 0x80]
  | .afterED => [0x80, 0x80]
  | .afterF0 => [0x90, 0x80, 0x80]
  | .afterF4 => [0x80, 0x80, 0x80]

def StringState.completion : StringState → List UInt8
  | .plain => []
  | .escape => [0x6e]
  | .hex more => List.replicate (more + 1) 0x30
  | .utf8 tail => tail.completion

def NumberState.completion : NumberState → List UInt8
  | .minus | .dot | .exp | .expSign => [0x30]
  | .zero | .int | .frac | .expDigits => []

/-- The shortest string as a value, and as a value behind its key. -/
def emptyString : List UInt8 := [0x22, 0x22]
def keyed (bytes : List UInt8) : List UInt8 := bytes ++ 0x3a :: emptyString

/-- Bytes that end the current value. -/
def Mode.completion : Mode → List UInt8
  | .value | .firstElement => emptyString
  | .firstKey | .key => keyed emptyString
  | .colon => keyed []
  | .after => []
  | .string isKey inside =>
    let closed := inside.completion ++ [0x22]
    if isKey then keyed closed else closed
  | .number inside => inside.completion
  | .literal next rest => next :: rest

def Frame.closing : Frame → UInt8
  | .object => 0x7d
  | .array => 0x5d

def State.completion (state : State) : List UInt8 :=
  state.mode.completion ++ state.stack.map Frame.closing

variable {limit : Nat}

theorem run_stringCompletion (stack : List Frame) (isKey : Bool) (inside : StringState) :
    run limit { stack, mode := .string isKey inside } inside.completion =
      some { stack, mode := .string isKey .plain } := by
  cases inside with
  | plain => rfl
  | escape => rfl
  | hex more =>
    induction more with
    | zero => rfl
    | succ more ih => exact ih
  | utf8 tail => cases tail <;> rfl

theorem run_keyed (stack : List Frame) (bytes : List UInt8) {state : State}
    (h : run limit state bytes = some { stack, mode := .colon }) :
    run limit state (keyed bytes) = some { stack, mode := .after } := by
  rw [keyed, run_append, h]
  rfl

theorem run_literal (stack : List Frame) (next : UInt8) (rest : List UInt8) :
    run limit { stack, mode := .literal next rest } (next :: rest) =
      some { stack, mode := .after } := by
  induction rest generalizing next with
  | nil => simp [step]
  | cons byte rest ih =>
    have hstep : step limit { stack, mode := .literal next (byte :: rest) } next =
        some { stack, mode := .literal byte rest } := by simp [step]
    rw [run_cons, hstep]
    exact ih byte

/-- The completion of a place ends its value with the same brackets open. -/
theorem run_modeCompletion (state : State) : ∃ mode, mode.ends ∧
    run limit state state.mode.completion = some { state with mode } := by
  obtain ⟨stack, mode⟩ := state
  cases mode with
  | value => exact ⟨.after, rfl, rfl⟩
  | firstElement => exact ⟨.after, rfl, rfl⟩
  | firstKey => exact ⟨.after, rfl, run_keyed stack emptyString rfl⟩
  | key => exact ⟨.after, rfl, run_keyed stack emptyString rfl⟩
  | colon => exact ⟨.after, rfl, run_keyed stack [] rfl⟩
  | after => exact ⟨.after, rfl, rfl⟩
  | string isKey inside =>
    have hclosed : run limit { stack, mode := .string isKey inside } (inside.completion ++ [0x22]) =
        some { stack, mode := if isKey then .colon else .after } := by
      rw [run_append, run_stringCompletion]
      rfl
    cases isKey with
    | true => exact ⟨.after, rfl, run_keyed stack _ hclosed⟩
    | false => exact ⟨.after, rfl, hclosed⟩
  | number inside =>
    cases inside with
    | minus => exact ⟨.number .zero, rfl, rfl⟩
    | zero => exact ⟨.number .zero, rfl, rfl⟩
    | int => exact ⟨.number .int, rfl, rfl⟩
    | dot => exact ⟨.number .frac, rfl, rfl⟩
    | frac => exact ⟨.number .frac, rfl, rfl⟩
    | exp => exact ⟨.number .expDigits, rfl, rfl⟩
    | expSign => exact ⟨.number .expDigits, rfl, rfl⟩
    | expDigits => exact ⟨.number .expDigits, rfl, rfl⟩
  | literal next rest => exact ⟨.after, rfl, run_literal stack next rest⟩

theorem step_closing (frame : Frame) (stack : List Frame) {mode : Mode} (h : mode.ends) :
    step limit { stack := frame :: stack, mode } frame.closing =
      some { stack, mode := .after } := by
  cases mode with
  | after => cases frame <;> rfl
  | number inside =>
    cases inside <;> first | exact absurd h Bool.false_ne_true | cases frame <;> rfl
  | _ => exact absurd h Bool.false_ne_true

theorem run_closings (stack : List Frame) {mode : Mode} (h : mode.ends) :
    ∃ state, run limit { stack, mode } (stack.map Frame.closing) = some state ∧ state.final := by
  induction stack generalizing mode with
  | nil => exact ⟨{ stack := [], mode }, rfl, by simp [State.final, h]⟩
  | cons frame stack ih =>
    rw [List.map_cons, run_cons, step_closing frame stack h]
    exact ih rfl

/-- Every place can be completed. -/
theorem run_completion (state : State) :
    ∃ next, run limit state state.completion = some next ∧ next.final := by
  obtain ⟨mode, hends, hrun⟩ := @run_modeCompletion limit state
  rw [State.completion, run_append, hrun]
  exact run_closings state.stack hends

/-- Some byte can always come next. -/
theorem exists_step (state : State) : ∃ byte next, step limit state byte = some next := by
  obtain ⟨stack, mode⟩ := state
  obtain ⟨next, hrun, _⟩ := @run_completion limit { stack, mode }
  cases hbytes : State.completion { stack, mode } with
  | cons byte rest =>
    rw [hbytes, run_cons, Option.bind_eq_some_iff] at hrun
    obtain ⟨middle, hstep, _⟩ := hrun
    exact ⟨byte, middle, hstep⟩
  | nil =>
    have hmode : mode.completion = [] := (List.append_eq_nil_iff.mp hbytes).1
    cases mode with
    | after => exact ⟨0x20, _, rfl⟩
    | number inside =>
      cases inside with
      | zero | int | frac | expDigits => exact ⟨0x20, _, rfl⟩
      | minus | dot | exp | expSign => exact absurd hmode (List.cons_ne_nil _ _)
    | string isKey inside => cases isKey <;> simp [Mode.completion, keyed] at hmode
    | _ => simp [Mode.completion, keyed, emptyString] at hmode

/-- A text that the reader has not refused is the beginning of a JSON text. -/
theorem exists_accepts {bytes : List UInt8} {state : State}
    (h : run limit start bytes = some state) : ∃ rest, Accepts limit (bytes ++ rest) := by
  obtain ⟨next, hrun, hfinal⟩ := @run_completion limit state
  refine ⟨state.completion, next, ?_, hfinal⟩
  rw [run_append, h]
  exact hrun

end Framework.Json

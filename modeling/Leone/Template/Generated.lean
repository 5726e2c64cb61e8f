import Leone.Template.Model

/-!
# Tool calls in the output of a model

A model names its calls as JSON objects between tags, or as one JSON object without them. Reading
them checks the name against the offered tools and takes the arguments out of one of two fields.
-/

namespace Leone.Template

open Framework Text

structure GeneratedToolCallFunction where
  name : String
  arguments : String
  deriving DecidableEq

structure GeneratedToolCall where
  id : String
  kind : String
  function : GeneratedToolCallFunction
  deriving DecidableEq

/-- An error of reading a call. A text that is no JSON has its message, behind a lead, from
`serde_json`. -/
inductive GeneratedError
  | invalidData (message : String)
  | invalidJson (lead : String)
  deriving DecidableEq

def toolCallStart : String := "<tool_call>"
def toolCallEnd : String := "</tool_call>"

/-! ## The names of functions -/

def isNameByte (byte : UInt8) : Bool :=
  (0x30 ≤ byte && byte ≤ 0x39) || (0x41 ≤ byte && byte ≤ 0x5a) || (0x61 ≤ byte && byte ≤ 0x7a) ||
    byte = 0x5f || byte = 0x2d

def validateFunctionName (name : String) : Except GeneratedError Unit :=
  if name = "" || (utf8Bytes name).length > 64 || !(utf8Bytes name).all isNameByte then
    .error (.invalidData
      "tool function names must use 1 to 64 ASCII letters, digits, underscores, or hyphens")
  else .ok ()

section Parse

variable (json : SerdeJson) (newId : Nat → String) (offered : Option (List ToolDefinition))
  (choice : Option Value)

/-! ## The fields of a call -/

def generatedToolNameField (value : Value) : Except GeneratedError String :=
  match value.asObject with
  | none => .error (.invalidData "tool call output must be one JSON object")
  | some entries =>
    match ((entries.lookup "name").bind Value.asStr).filter (· ≠ "") with
    | none => .error (.invalidData "tool call output requires one function name")
    | some name => .ok name

def validateNamedGeneratedToolName (name : String) : Except GeneratedError Unit :=
  match namedToolChoice choice with
  | none => .ok ()
  | some selected =>
    if selected ≠ name then
      .error (.invalidData ("tool call output does not match named tool_choice: " ++ selected))
    else .ok ()

def validateGeneratedToolName (name : String) : Except GeneratedError Unit :=
  if offered.any fun tools => tools.any fun tool => tool.function.name = name then
    validateNamedGeneratedToolName choice name
  else .error (.invalidData ("tool call output names an unoffered function: " ++ name))

def generatedToolName (value : Value) : Except GeneratedError String := do
  let name ← generatedToolNameField value
  validateGeneratedToolName offered choice name
  return name

def isCallField (key : String) : Bool := key = "name" || key = "arguments" || key = "parameters"

def isArgumentsField (key : String) : Bool := key = "arguments" || key = "parameters"

def argumentsOfFields : List (String × Value) → Except GeneratedError Value
  | [] => .error (.invalidData "tool call output requires arguments or parameters")
  | _ :: _ :: _ => .error (.invalidData "tool call output must use one arguments field")
  | [(_, arguments)] =>
    if arguments.asObject.isNone then
      .error (.invalidData "tool call arguments must be one JSON object")
    else .ok arguments

def generatedToolArguments (value : Value) : Except GeneratedError Value :=
  match value.asObject with
  | none => .error (.invalidData "tool call output must be one JSON object")
  | some entries =>
    if entries.any fun entry => !isCallField entry.1 then
      .error (.invalidData "tool call output contains an unknown field")
    else argumentsOfFields (entries.filter fun entry => isArgumentsField entry.1)

/-- A call with a new identifier. -/
def generatedToolCall (id name : String) (arguments : Value) : GeneratedToolCall :=
  { id := "call_" ++ id
    kind := "function"
    function := { name, arguments := json.toString arguments } }

/-! ## Calls between tags -/

def parseGeneratedToolValue (text : String) : Except GeneratedError Value :=
  match json.rejectDuplicateKeys text with
  | .error message => .error (.invalidData message)
  | .ok () =>
    match json.fromStr text with
    | none => .error (.invalidJson "")
    | some value => .ok value

/-- The name and the arguments in a text between tags. -/
def parseGeneratedToolFields (body : String) : Except GeneratedError (String × Value) := do
  let value ← parseGeneratedToolValue json (trim body)
  let name ← generatedToolName offered choice value
  let arguments ← generatedToolArguments value
  return (name, arguments)

/-- The text in front of the first end tag and the trimmed text behind it. -/
def splitToolCall (remaining : String) : Except GeneratedError (String × String) :=
  if toolCallStart.toList.isPrefixOf remaining.toList then
    match findMarker toolCallEnd.toList (remaining.toList.drop toolCallStart.length) with
    | none => .error (.invalidData "tool call output is missing </tool_call>")
    | some stop =>
      let body := remaining.toList.drop toolCallStart.length
      .ok (String.ofList (body.take stop),
        trim (String.ofList (body.drop (stop + toolCallEnd.length))))
  else .error (.invalidData "tool call output contains text outside its tags")

def parseGeneratedToolCall (id remaining : String) :
    Except GeneratedError (GeneratedToolCall × String) := do
  let parts ← splitToolCall remaining
  let fields ← parseGeneratedToolFields json offered choice parts.1
  return (generatedToolCall json id fields.1 fields.2, parts.2)

/-- The calls up to the end of the text. Each of them takes some of the text, so the length of the
text bounds their number. -/
def parseTaggedToolCalls : Nat → Nat → String → Except GeneratedError (List GeneratedToolCall)
  | 0, _, _ => .ok []
  | turns + 1, index, remaining =>
    if remaining = "" then .ok []
    else do
      let parsed ← parseGeneratedToolCall json offered choice (newId index) remaining
      let calls ← parseTaggedToolCalls turns (index + 1) parsed.2
      return parsed.1 :: calls

/-! ## A call without tags -/

def nativeToolMode : Bool :=
  (offered.any fun tools => !tools.isEmpty) && choice.bind Value.asStr != some "none"

def toolChoiceNeedsFunction : Value → Bool
  | .string value => value = "required"
  | .object _ => true
  | _ => false

def parseNativeGeneratedValue (content : String) (forced : Bool) :
    Except GeneratedError (Option Value) :=
  match json.rejectDuplicateKeys content with
  | .error message =>
    if forced then
      .error (.invalidData ("tool call output has invalid JSON: " ++ message))
    else .ok none
  | .ok () =>
    match json.fromStr content with
    | some value => .ok (some value)
    | none => if forced then .error (.invalidJson "tool call output is invalid JSON: ") else .ok none

def rejectNativeToolEnvelope (forced : Bool) (message : String) : Except GeneratedError Bool :=
  if forced then .error (.invalidData message) else .ok false

def nativeToolEnvelopeIsActionable (entries : List (String × Value)) (forced : Bool) :
    Except GeneratedError Bool :=
  let hasName := ((entries.lookup "name").bind Value.asStr).any (· ≠ "")
  let hasArguments := entries.any fun entry => isArgumentsField entry.1
  if !hasName || !hasArguments then
    rejectNativeToolEnvelope forced "forced tool choice requires one name and one arguments object"
  else if entries.any fun entry => !isCallField entry.1 then
    rejectNativeToolEnvelope forced "tool call output contains an unknown field"
  else .ok true

def parseNativeEnvelope (value : Value) (entries : List (String × Value)) (forced : Bool) :
    Except GeneratedError (Option (List GeneratedToolCall)) := do
  let actionable ← nativeToolEnvelopeIsActionable entries forced
  if actionable then
    let name ← generatedToolName offered choice value
    let arguments ← generatedToolArguments value
    return some [generatedToolCall json (newId 0) name arguments]
  else return none

def parseNativeGeneratedToolCall (content : String) :
    Except GeneratedError (Option (List GeneratedToolCall)) := do
  let forced := choice.any toolChoiceNeedsFunction
  match ← parseNativeGeneratedValue json content forced with
  | none => return none
  | some value =>
    match value.asObject with
    | none => return none
    | some entries => parseNativeEnvelope json newId offered choice value entries forced

/-! ## Both forms -/

def parseGeneratedToolCalls (content : String) :
    Except GeneratedError (Option (List GeneratedToolCall)) :=
  let remaining := trim content
  if ['\x7b'].isPrefixOf remaining.toList then
    if nativeToolMode offered choice then
      parseNativeGeneratedToolCall json newId offered choice remaining
    else .ok none
  else if toolCallStart.toList.isPrefixOf remaining.toList then
    (parseTaggedToolCalls json newId offered choice remaining.length 0 remaining).map some
  else .ok none

end Parse

end Leone.Template

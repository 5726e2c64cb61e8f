import Leone.Text.Tokenizer

/-!
# JSON in chat prompts

The JSON texts of tool definitions and tool calls. Writing and parsing single values is
`serde_json`'s; the layouts that differ from it are the server's own.
-/

namespace Leone.Template

open Text

/-- A JSON value. The entries of an object are in the order of their keys, which differ. -/
inductive Value
  | null
  | bool (value : Bool)
  | number (text : String)
  | string (value : String)
  | array (values : List Value)
  | object (entries : List (String × Value))

namespace Value

def asStr : Value → Option String
  | string value => some value
  | _ => none

def asObject : Value → Option (List (String × Value))
  | object entries => some entries
  | _ => none

def isNull : Value → Bool
  | null => true
  | _ => false

/-- The value of a field, for an object that has it. -/
def field (value : Value) (key : String) : Option Value :=
  value.asObject.bind (List.lookup key)

end Value

inductive ImageSource
  | http (url : String)
  | dataUrl (url : String)
  deriving DecidableEq

inductive ImageDetail | auto | low | high
  deriving DecidableEq

inductive ImageInputError | scheme | dataUrl | detail
  deriving DecidableEq

structure ImageInput where
  source : ImageSource
  detail : ImageDetail
  deriving DecidableEq

/-- Whether the text behind the first `;base64,` is there and not empty. -/
def hasPayload : List Char → Bool
  | [] => false
  | c :: rest =>
    if ";base64,".toList.isPrefixOf (c :: rest) then 8 < (c :: rest).length else hasPayload rest

def ImageInput.new (url : String) (detail : Option String) :
    Except ImageInputError ImageInput := do
  let source ←
    if url.startsWith "https://" || url.startsWith "http://" then pure (ImageSource.http url)
    else if url.startsWith "data:image/" then
      if hasPayload url.toList then pure (ImageSource.dataUrl url) else throw .dataUrl
    else throw .scheme
  match detail.getD "auto" with
  | "auto" => return ⟨source, .auto⟩
  | "low" => return ⟨source, .low⟩
  | "high" => return ⟨source, .high⟩
  | _ => throw .detail

inductive ContentPart
  | text (text : String)
  | imageUrl (url : String) (detail : Option String)
  deriving DecidableEq

/-- An error of rendering a chat. An error whose text shows a value holds the value. -/
inductive RuntimeError
  | tokenizer (error : TokenizerError)
  | missingToken (token : String)
  | invalidUtf8 (bytes : List UInt8)
  | tokenCallback (message : String)
  | unsupportedRole (role : String)
  | imageInput (error : ImageInputError)
  | noVisionBackend (input : ImageInput)
  | duplicateKeys (message : String)
  deriving DecidableEq

/-- What the server takes from `serde_json`: the compact text of a value, the value of a text, the
content parts of a value, and the walk over a text that looks for repeated keys. -/
structure SerdeJson where
  toString : Value → String
  fromStr : String → Option Value
  contentParts : Value → Option (List ContentPart)
  rejectDuplicateKeys : String → Except String Unit

variable (json : SerdeJson)

/-! ## Spaced JSON -/

/-- A place in a JSON text: inside a string, and behind a backslash there. -/
structure JsonPlace where
  inString : Bool
  escaped : Bool

def updateJsonStringState (place : JsonPlace) (byte : UInt8) : JsonPlace :=
  if place.escaped then { place with escaped := false }
  else if byte = 0x5c then { place with escaped := true }
  else if byte = 0x22 then { place with inString := false }
  else place

/-- The characters that one byte of a compact text adds. Each byte is one character. -/
def appendSpacedJsonByte (place : JsonPlace) (byte : UInt8) : List Char × JsonPlace :=
  if place.inString then ([Char.ofNat byte.toNat], updateJsonStringState place byte)
  else if byte = 0x22 then (['"'], { place with inString := true })
  else if byte = 0x3a then ([':', ' '], place)
  else if byte = 0x2c then ([',', ' '], place)
  else ([Char.ofNat byte.toNat], place)

def spacedJsonBytes (place : JsonPlace) : List UInt8 → List Char
  | [] => []
  | byte :: rest =>
    let (added, place) := appendSpacedJsonByte place byte
    added ++ spacedJsonBytes place rest

def spacedJsonText (compact : String) : String :=
  String.ofList (spacedJsonBytes ⟨false, false⟩ (utf8Bytes compact))

def spacedJson (value : Value) : String := spacedJsonText (json.toString value)

/-! ## The order of keys in the official templates -/

def officialJsonKeyOrder (key : String) : Nat × String :=
  let rank := match key with
    | "type" => 0
    | "function" => 1
    | "name" => 0
    | "description" => 1
    | "parameters" => 2
    | "properties" => 1
    | "required" => 2
    | _ => 3
  (rank, key)

/-- Whether a key stands in front of another one, or at its place. -/
def officialKeyLe (left right : String) : Bool :=
  let l := officialJsonKeyOrder left
  let r := officialJsonKeyOrder right
  l.1 < r.1 || (l.1 = r.1 && l.2 ≤ r.2)

/-- Fields in the order of the official templates. The sort is stable. -/
def sortFields {α : Type} (fields : List (String × α)) : List (String × α) :=
  fields.mergeSort fun left right => officialKeyLe left.1 right.1

mutual

def officialJson : Value → String
  | .object entries => officialJsonObject entries
  | .array values => officialJsonArray values
  | value => json.toString value

/-- The fields are written before they are sorted, which sorts the same texts. -/
def officialJsonObject (entries : List (String × Value)) : String :=
  let fields := (sortFields (officialFields entries)).map fun field =>
    json.toString (.string field.1) ++ ":" ++ field.2
  "\x7b" ++ ",".intercalate fields ++ "\x7d"

def officialFields : List (String × Value) → List (String × String)
  | [] => []
  | (key, value) :: rest => (key, officialJson value) :: officialFields rest

def officialJsonArray (values : List Value) : String :=
  "[" ++ ",".intercalate (officialJsons values) ++ "]"

def officialJsons : List Value → List String
  | [] => []
  | value :: rest => officialJson value :: officialJsons rest

end

def spacedJsonValue (value : Value) : String := spacedJsonText (officialJson json value)

/-! ## Indented JSON -/

def appendJsonIndent : Nat → String
  | 0 => ""
  | level + 1 => "    " ++ appendJsonIndent level

/-- The lines of a bracket, each with its own indent and all but the last with a comma. -/
def indentedLines (level : Nat) : List String → String
  | [] => ""
  | [line] => appendJsonIndent level ++ line ++ "\n"
  | line :: rest => appendJsonIndent level ++ line ++ ",\n" ++ indentedLines level rest

/-- A bracket around indented lines. An empty one stays on its line. -/
def indentedBracket (opening closing : String) (level : Nat) (lines : List String) : String :=
  match lines with
  | [] => opening ++ closing
  | _ => opening ++ "\n" ++ indentedLines (level + 1) lines ++ appendJsonIndent level ++ closing

mutual

def prettyOfficialJsonAt (level : Nat) : Value → String
  | .object entries => prettyOfficialObject level entries
  | .array values => indentedBracket "[" "]" level (prettyValues (level + 1) values)
  | value => json.toString value

def prettyOfficialObject (level : Nat) (entries : List (String × Value)) : String :=
  indentedBracket "\x7b" "\x7d" level
    ((sortFields (prettyFields (level + 1) entries)).map fun field =>
      json.toString (.string field.1) ++ ": " ++ field.2)

def prettyFields (level : Nat) : List (String × Value) → List (String × String)
  | [] => []
  | (key, value) :: rest => (key, prettyOfficialJsonAt level value) :: prettyFields level rest

def prettyValues (level : Nat) : List Value → List String
  | [] => []
  | value :: rest => prettyOfficialJsonAt level value :: prettyValues level rest

end

def prettyOfficialJson (value : Value) : String := prettyOfficialJsonAt json 0 value

end Leone.Template

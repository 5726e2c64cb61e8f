import Leone.Template.Related

/-!
# The official template as a document

The official mode renders a request, turns the tokens back into text and encodes the text again
with a search for markers. The document of a request is its rendering before any encoding: template
tokens and plain texts in order.
-/

namespace Leone.Template

open Framework Text

/-! ## The chat tokens of a tokenizer -/

section Tokens

variable (category : Char → GeneralCategory) (t : Tokenizer)

def encoderOf : Encoder Nat where
  tokenId name :=
    match t.tokenToId name with
    | some id => .ok id
    | none => .error (.missingToken name)
  encodePiece text :=
    match t.encodePiece category text with
    | .ok ids => .ok ids
    | .error e => .error (.tokenizer e)

/-- The text of one token: the marker it is, or its bytes as UTF-8. -/
def templateTextOfToken (markers : List String) (id : Nat) : Except RuntimeError (List Char) :=
  match markers.find? fun marker => t.tokenToId marker = some id with
  | some marker => .ok marker.toList
  | none =>
    match t.tokenBytes id with
    | .error e => .error (.tokenizer e)
    | .ok bytes =>
      match String.fromUTF8? bytes.toByteArray with
      | some text => .ok text.toList
      | none => .error (.invalidUtf8 bytes)

def templateTextFromTokens (markers : List String) : List Nat → Except RuntimeError (List Char)
  | [] => .ok []
  | id :: rest => do
    let text ← templateTextOfToken t markers id
    let more ← templateTextFromTokens markers rest
    return text ++ more

/-- The first marker of a text, the shorter one where two start at one place. -/
def nextTemplateMarker (markers : List String) (rendered : List Char) :
    Option (Nat × List Char) :=
  (markerHits (markers.map String.toList) rendered).argmin fun hit =>
    toLex (hit.1, hit.2.length)

def encodeTemplateText (markers : List String) (hmarkers : "" ∉ markers) (rendered : List Char) :
    Except RuntimeError (List Nat) :=
  if rendered = [] then .ok []
  else match _hnext : nextTemplateMarker markers rendered with
    | none => piece (encoderOf category t) (String.ofList rendered)
    | some hit => do
      let before ← pieceBefore (encoderOf category t) rendered hit.1
      let marker ← token (encoderOf category t) (String.ofList hit.2)
      let rest ← encodeTemplateText markers hmarkers (rendered.drop (hit.1 + hit.2.length))
      return before ++ marker ++ rest
termination_by rendered.length
decreasing_by exact length_drop_hit hmarkers (List.argmin_mem _hnext)

theorem templateMarkers_ne_empty (architecture : ModelArchitecture) :
    "" ∉ templateMarkers architecture := by
  cases architecture <;> decide

def canonicalizeTemplateTokens (architecture : ModelArchitecture) (tokens : List Nat) :
    Except RuntimeError (List Nat) := do
  let rendered ← templateTextFromTokens t (templateMarkers architecture) tokens
  encodeTemplateText category t (templateMarkers architecture)
    (templateMarkers_ne_empty architecture) rendered

def chatTokensOfficial (json : SerdeJson) (architecture : ModelArchitecture)
    (messages : List Message) (tools : Option (List ToolDefinition)) (toolChoice : Option Value) :
    Except RuntimeError (List Nat) := do
  let rendered ←
    renderOfficial json (encoderOf category t) architecture messages tools toolChoice
  canonicalizeTemplateTokens category t architecture rendered

def validateOfficialLlamaToolHistory (messages : List Message) : Except RuntimeError Unit :=
  if messages.any fun message => message.role = "assistant" &&
      message.toolCalls.any fun calls => calls.length ≠ 1 then
    .error (.tokenCallback "official Llama templates support one tool call per assistant message")
  else .ok ()

def chatTokens (json : SerdeJson) (architecture : ModelArchitecture) (messages : List Message)
    (tools : Option (List ToolDefinition)) (toolChoice : Option Value)
    (template : ChatTemplateMode) : Except RuntimeError (List Nat) := do
  match template with
  | .official =>
    if architecture = .llama then validateOfficialLlamaToolHistory messages
    chatTokensOfficial category t json architecture messages tools toolChoice
  | .legacy =>
    chatTokensLegacy json (encoderOf category t) architecture messages tools toolChoice

end Tokens

/-! ## Turn tokens -/

/-- The tokens that open and close turns. -/
def turnMarkers : List String :=
  [imStart, imEnd, llamaBegin, llamaHeaderStart, llamaHeaderEnd, llamaEot]

/-- The turn marker of an identifier. -/
def turnToken (t : Tokenizer) (id : Nat) : Option String :=
  turnMarkers.find? fun name => t.tokenToId name = some id

def turnTokens (t : Tokenizer) (tokens : List Nat) : List String := tokens.filterMap (turnToken t)

/-- Plain text is encoded without control tokens: each of its tokens has bytes, and none opens or
closes a turn. -/
def PlainPieces (category : Char → GeneralCategory) (t : Tokenizer) : Prop :=
  ∀ text ids, t.encodePiece category text = .ok ids →
    ∀ id ∈ ids, t.Visible id ∧ turnToken t id = none

/-! ## Documents -/

inductive Item
  | marker (name : String)
  | text (plain : String)
  deriving DecidableEq

namespace Item

def characters : Item → List Char
  | marker name => name.toList
  | text plain => plain.toList

/-- The turn marker that the template puts here. -/
def turn : Item → Option String
  | marker name => if name ∈ turnMarkers then some name else none
  | text _ => none

end Item

def itemEncoder : Encoder Item where
  tokenId name := .ok (.marker name)
  encodePiece text := .ok [.text text]

def officialDocument (json : SerdeJson) (architecture : ModelArchitecture)
    (messages : List Message) (tools : Option (List ToolDefinition)) (toolChoice : Option Value) :
    Except RuntimeError (List Item) :=
  renderOfficial json itemEncoder architecture messages tools toolChoice

/-- The characters of a document. -/
def characters (document : List Item) : List Char := document.flatMap Item.characters

/-- The turns of the template itself. -/
def skeleton (document : List Item) : List String := document.filterMap Item.turn

/-- The text in front of the first turn of the template, and behind each of its turns. -/
def runs : List Item → List Char × List (List Char)
  | [] => ([], [])
  | item :: rest =>
    let (first, others) := runs rest
    match item.turn with
    | some _ => ([], first :: others)
    | none => (item.characters ++ first, others)

/-- The turn markers that a text spells. -/
def spelledTurns (architecture : ModelArchitecture) (text : List Char) : List String :=
  ((occurrences ((templateMarkers architecture).map String.toList) text).map
    String.ofList).filter (· ∈ turnMarkers)

/-- The turns of the template, with those that the texts between them spell. -/
def woven (architecture : ModelArchitecture) (document : List Item) : List String :=
  spelledTurns architecture (runs document).1 ++
    ((skeleton document).zip (runs document).2).flatMap fun entry =>
      entry.1 :: spelledTurns architecture entry.2

end Leone.Template

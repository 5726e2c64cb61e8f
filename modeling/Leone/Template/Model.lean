import Mathlib
import Leone.Framework.Markers
import Leone.Template.Json
import Leone.Text.RoundTrip

/-!
# The chat templates

Rendering the messages of a request as prompt tokens, in the legacy and the official mode of both
model families. The renderers ask their tokenizer for the identifier of a token and for the
encoding of a plain text, so they are written for any source of the two.
-/

namespace Leone.Template

open Framework Text

inductive ModelArchitecture | qwen3 | llama
  deriving DecidableEq, Repr

inductive ChatTemplateMode | legacy | official
  deriving DecidableEq, Repr

structure RequestToolCallFunction where
  name : String
  arguments : String
  deriving DecidableEq

structure RequestToolCall where
  id : String
  kind : String
  function : RequestToolCallFunction
  deriving DecidableEq

structure Message where
  role : String
  content : Value
  name : Option String
  toolCalls : Option (List RequestToolCall)
  toolCallId : Option String

structure ToolFunction where
  name : String
  description : Option String
  parameters : Option Value
  strict : Option Bool

structure ToolDefinition where
  kind : String
  function : ToolFunction

/-- The fields of a function as JSON, without those that are missing. -/
def ToolFunction.toValue (function : ToolFunction) : Value :=
  .object ((function.description.map fun text => ("description", Value.string text)).toList ++
    [("name", .string function.name)] ++
    (function.parameters.map fun value => ("parameters", value)).toList ++
    (function.strict.map fun strict => ("strict", Value.bool strict)).toList)

def ToolDefinition.toValue (tool : ToolDefinition) : Value :=
  .object [("function", tool.function.toValue), ("type", .string tool.kind)]

/-! ## Markers -/

def imStart := "<|im_start|>"
def imEnd := "<|im_end|>"
def llamaBegin := "<|begin_of_text|>"
def llamaHeaderStart := "<|start_header_id|>"
def llamaHeaderEnd := "<|end_header_id|>"
def llamaEot := "<|eot_id|>"

def qwenTemplateMarkers : List String :=
  [imStart, imEnd, "<think>", "</think>", "<tool_call>", "</tool_call>", "<tool_response>",
    "</tool_response>"]

def llamaTemplateMarkers : List String := [llamaBegin, llamaHeaderStart, llamaHeaderEnd, llamaEot]

/-- The markers that the content of a Qwen message may hold. -/
def qwenMarkers : List String :=
  ["<think>", "</think>", "<tool_call>", "</tool_call>", "<tool_response>", "</tool_response>"]

def templateMarkers : ModelArchitecture → List String
  | .qwen3 => qwenTemplateMarkers
  | .llama => llamaTemplateMarkers

/-! ## Reading messages -/

/-- Characters without the white space around them. -/
def trim (text : String) : String :=
  String.ofList (((text.toList.dropWhile isWhitespace).reverse.dropWhile isWhitespace).reverse)

def trimStartNewlines (text : String) : String :=
  String.ofList (text.toList.dropWhile (· = '\n'))

def messageRole (message : Message) : Except RuntimeError String :=
  match message.role with
  | "system" | "developer" => .ok "system"
  | "user" => .ok "user"
  | "assistant" => .ok "assistant"
  | "tool" => .ok "tool"
  | role => .error (.unsupportedRole role)

def contentPartsText : List ContentPart → Except RuntimeError String
  | [] => .ok ""
  | .text part :: rest => do
    let more ← contentPartsText rest
    return part ++ more
  | .imageUrl url detail :: _ =>
    match ImageInput.new url detail with
    | .ok input => .error (.noVisionBackend input)
    | .error e => .error (.imageInput e)

section Reading

variable (json : SerdeJson)

def messageText (content : Value) : Except RuntimeError String :=
  match content.asStr with
  | some text => .ok text
  | none =>
    match json.contentParts content with
    | some parts => contentPartsText parts
    | none => .error (.tokenCallback "message content parts are invalid")

def parseRequestToolArguments (arguments : String) : Except RuntimeError Value := do
  match json.rejectDuplicateKeys arguments with
  | .ok () => pure ()
  | .error message => throw (.duplicateKeys message)
  match json.fromStr arguments with
  | none => throw (.tokenCallback "tool call arguments must be JSON")
  | some value =>
    if value.asObject.isNone then
      throw (.tokenCallback "tool call arguments must be a JSON object")
    return value

def namesOneFunction (call : RequestToolCall) : Bool :=
  call.kind = "function" && call.function.name ≠ ""

def renderRequestToolCall (call : RequestToolCall) : Except RuntimeError String := do
  if !namesOneFunction call then
    throw (.tokenCallback "assistant tool calls must name one function")
  let arguments ← parseRequestToolArguments json call.function.arguments
  return "<tool_call>\n\x7b\"name\": " ++ json.toString (.string call.function.name) ++
    ", \"arguments\": " ++ json.toString arguments ++ "\x7d\n</tool_call>"

def renderOfficialToolCall (call : RequestToolCall) : Except RuntimeError String := do
  if !namesOneFunction call then
    throw (.tokenCallback "assistant tool calls must name one function")
  let arguments ← parseRequestToolArguments json call.function.arguments
  return "<tool_call>\n\x7b\"name\": " ++ json.toString (.string call.function.name) ++
    ", \"arguments\": " ++ spacedJson json arguments ++ "\x7d\n</tool_call>"

/-- The calls behind a content, one a line. -/
def renderToolCalls (render : RequestToolCall → Except RuntimeError String) (content : String) :
    List RequestToolCall → Except RuntimeError String
  | [] => .ok content
  | call :: rest => do
    let rendered ← render call
    renderToolCalls render
      ((if content ≠ "" then content ++ "\n" else content) ++ rendered) rest

def renderRequestToolCalls (content : String) (calls : List RequestToolCall) :
    Except RuntimeError String :=
  renderToolCalls (renderRequestToolCall json) content calls

def renderOfficialToolCalls (content : String) (calls : List RequestToolCall) :
    Except RuntimeError String :=
  renderToolCalls (renderOfficialToolCall json) content calls

def renderMessageContent (message : Message) (role : String) : Except RuntimeError String := do
  let content ←
    if role = "assistant" ∧ message.toolCalls.isSome ∧ message.content.isNull then pure ""
    else messageText json message.content
  if role = "tool" then
    if message.toolCallId.getD "" = "" then
      throw (.tokenCallback "a tool message requires tool_call_id")
    return "<tool_response>\n" ++ content ++ "\n</tool_response>"
  if role = "assistant" ∧ message.toolCalls.isSome then
    renderRequestToolCalls json content (message.toolCalls.getD [])
  else return content

/-! ### Tools -/

def appendNamedToolInstruction (choice : Value) : Except RuntimeError String :=
  match ((choice.field "function").bind (·.field "name")).bind Value.asStr with
  | none => .error (.tokenCallback "named tool_choice requires function.name")
  | some name => .ok ("\n\nYou must call only " ++ json.toString (.string name) ++ ".")

def appendToolChoiceInstruction (choice : Option Value) : Except RuntimeError String :=
  match choice with
  | some (.string value) =>
    .ok (if value = "required" then "\n\nYou must call one of the provided functions." else "")
  | some (.object entries) => appendNamedToolInstruction json (.object entries)
  | _ => .ok ""

def toolIntroduction : String :=
  "# Tools\n\nYou may call one or more functions to assist with the user query.\n\n" ++
    "You are provided with function signatures within <tools></tools> XML tags:\n<tools>"

def toolConclusion : String :=
  "\n</tools>\n\nFor each function call, return a json object with function name and arguments " ++
    "within <tool_call></tool_call> XML tags:\n<tool_call>\n\x7b\"name\": <function-name>, " ++
    "\"arguments\": <args-json-object>\x7d\n</tool_call>"

/-- Whether a request names tools and does not switch them off. -/
def officialTools (tools : Option (List ToolDefinition)) (toolChoice : Option Value) :
    Option (List ToolDefinition) :=
  tools.filter fun tools => tools ≠ [] ∧ toolChoice.bind Value.asStr ≠ some "none"

def toolSystemPrompt (tools : Option (List ToolDefinition)) (toolChoice : Option Value) :
    Except RuntimeError (Option String) := do
  match officialTools tools toolChoice with
  | none => return none
  | some tools =>
    let definitions := "\n".intercalate (tools.map fun tool => spacedJson json tool.toValue)
    let instruction ← appendToolChoiceInstruction json toolChoice
    return some (toolIntroduction ++ "\n" ++ definitions ++ toolConclusion ++ instruction)

def namedToolChoice (choice : Option Value) : Option String :=
  ((choice.bind (·.field "function")).bind (·.field "name")).bind Value.asStr

end Reading

/-! ## Rendering -/

/-- What the renderers ask a tokenizer for, over any kind of token. -/
structure Encoder (α : Type) where
  tokenId : String → Except RuntimeError α
  encodePiece : String → Except RuntimeError (List α)

variable {α : Type} (json : SerdeJson) (encoder : Encoder α)

/-- Pushes one template token. -/
def token (name : String) : Except RuntimeError (List α) := do
  let id ← encoder.tokenId name
  return [id]

/-- Extends the tokens by those of a plain text. -/
def piece (text : String) : Except RuntimeError (List α) := encoder.encodePiece text

/-- Appends the parts in order, up to the first that fails. -/
def concat : List (Except RuntimeError (List α)) → Except RuntimeError (List α)
  | [] => .ok []
  | part :: rest => do
    let tokens ← part
    let more ← concat rest
    return tokens ++ more

/-- The first marker of a text, the earlier one of the list where two start at one place. -/
def nextQwenMarker (remaining : List Char) : Option (Nat × List Char) :=
  (markerHits (qwenMarkers.map String.toList) remaining).argmin fun hit => hit.1

theorem nextQwenMarker_mem {remaining : List Char} {hit : Nat × List Char}
    (h : nextQwenMarker remaining = some hit) :
    hit ∈ markerHits (qwenMarkers.map String.toList) remaining :=
  List.argmin_mem h

theorem length_drop_hit {markers : List String} (hmarkers : "" ∉ markers)
    {remaining : List Char} {hit : Nat × List Char}
    (h : hit ∈ markerHits (markers.map String.toList) remaining) :
    (remaining.drop (hit.1 + hit.2.length)).length < remaining.length := by
  rw [mem_markerHits] at h
  obtain ⟨hmem, hfind⟩ := h
  have hsplit := congrArg List.length (findMarker_eq_some hfind).1
  have hpositive : hit.2 ≠ [] := by
    intro hnil
    rw [hnil, List.mem_map] at hmem
    obtain ⟨marker, hmarker, hempty⟩ := hmem
    rw [String.toList_eq_nil_iff] at hempty
    exact hmarkers (hempty ▸ hmarker)
  have hlength := List.length_pos_iff.mpr hpositive
  simp only [List.length_append, List.length_take, List.length_drop] at hsplit ⊢
  omega

/-- The tokens of the text in front of a position, if there is any. -/
def pieceBefore (text : List Char) (offset : Nat) : Except RuntimeError (List α) :=
  if 0 < offset then piece encoder (String.ofList (text.take offset)) else .ok []

/-- Content with its markers as tokens and the text between them as plain text. -/
def appendQwenContent (remaining : List Char) : Except RuntimeError (List α) :=
  if remaining = [] then .ok []
  else match _hnext : nextQwenMarker remaining with
    | none => piece encoder (String.ofList remaining)
    | some hit => do
      let before ← pieceBefore encoder remaining hit.1
      let marker ← token encoder (String.ofList hit.2)
      let rest ← appendQwenContent (remaining.drop (hit.1 + hit.2.length))
      return before ++ marker ++ rest
termination_by remaining.length
decreasing_by exact length_drop_hit (by decide) (nextQwenMarker_mem _hnext)

def appendQwenMessage (role content : String) : Except RuntimeError (List α) :=
  concat [token encoder imStart, piece encoder role, piece encoder "\n",
    appendQwenContent encoder content.toList, token encoder imEnd, piece encoder "\n"]

def appendLlamaMessage (role content : String) : Except RuntimeError (List α) :=
  concat [token encoder llamaHeaderStart, piece encoder role, token encoder llamaHeaderEnd,
    piece encoder "\n\n", piece encoder content, token encoder llamaEot]

def appendChatMessage (architecture : ModelArchitecture) (role content : String) :
    Except RuntimeError (List α) :=
  match architecture with
  | .qwen3 => appendQwenMessage encoder role content
  | .llama => appendLlamaMessage encoder role content

def appendChatSuffix (architecture : ModelArchitecture) : Except RuntimeError (List α) :=
  match architecture with
  | .qwen3 => concat [token encoder imStart, piece encoder "assistant", piece encoder "\n"]
  | .llama => concat [token encoder llamaHeaderStart, piece encoder "assistant",
      token encoder llamaHeaderEnd, piece encoder "\n\n"]

def unexpectedName : RuntimeError :=
  .tokenCallback "message names are supported only for tool results"

def appendRegularChatMessage (architecture : ModelArchitecture) (message : Message) :
    Except RuntimeError (List α) := do
  let role ← messageRole message
  if message.name.isSome ∧ role ≠ "tool" then throw unexpectedName
  let rendered ← renderMessageContent json message role
  appendChatMessage encoder architecture role rendered

/-! ### The legacy mode -/

def appendChatPrefix (architecture : ModelArchitecture) : Except RuntimeError (List α) :=
  if architecture = .llama then token encoder llamaBegin else .ok []

def appendAssistantContinuation (architecture : ModelArchitecture) (message : Message) :
    Except RuntimeError (List α) := do
  let content ← renderMessageContent json message "assistant"
  match architecture with
  | .qwen3 => concat [token encoder imStart, piece encoder "assistant\n",
      appendQwenContent encoder content.toList]
  | .llama => concat [token encoder llamaHeaderStart, piece encoder "assistant",
      token encoder llamaHeaderEnd, piece encoder "\n\n", piece encoder content]

/-- The results at the head of the messages, and the messages behind them. -/
def toolResults : List Message → Except RuntimeError (List String × List Message)
  | [] => .ok ([], [])
  | message :: rest => do
    let role ← messageRole message
    if role = "tool" then
      let result ← renderMessageContent json message "tool"
      let (results, behind) ← toolResults rest
      return (result :: results, behind)
    else return ([], message :: rest)

theorem length_toolResults {messages behind : List Message} {results : List String}
    (h : toolResults json messages = .ok (results, behind)) : behind.length ≤ messages.length := by
  induction messages generalizing results with
  | nil =>
    cases h
    exact le_rfl
  | cons message rest ih =>
    rw [toolResults, bind_eq_ok] at h
    obtain ⟨role, -, h⟩ := h
    split at h
    · rw [bind_eq_ok] at h
      obtain ⟨result, -, h⟩ := h
      rw [bind_eq_ok] at h
      obtain ⟨found, hfound, h⟩ := h
      cases h
      exact (ih hfound).trans (by simp)
    · cases h
      exact le_rfl

/-- The messages in order. The results that follow each other are one message of the user. -/
def appendChatMessages (architecture : ModelArchitecture) :
    List Message → Except RuntimeError (List α)
  | [] => .ok []
  | message :: rest => do
    let role ← messageRole message
    if role = "tool" then
      let result ← renderMessageContent json message "tool"
      match _hresults : toolResults json rest with
      | .error e => throw e
      | .ok (results, behind) =>
        let tokens ← appendChatMessage encoder architecture "user"
          ("\n".intercalate (result :: results))
        let more ← appendChatMessages architecture behind
        return tokens ++ more
    else if rest = [] ∧ role = "assistant" ∧ message.toolCalls.isNone then
      appendAssistantContinuation json encoder architecture message
    else
      let tokens ← appendRegularChatMessage json encoder architecture message
      let more ← appendChatMessages architecture rest
      return tokens ++ more
termination_by messages => messages.length
decreasing_by
  · exact Nat.lt_succ_of_le (length_toolResults json _hresults)
  · exact Nat.lt_succ_self _

def appendChatMessagesWithTools (architecture : ModelArchitecture) (messages : List Message)
    (toolPrompt : Option String) : Except RuntimeError (List α) := do
  match toolPrompt with
  | none => appendChatMessages json encoder architecture messages
  | some toolPrompt =>
    match messages with
    | [] => appendChatMessage encoder architecture "system" toolPrompt
    | first :: rest =>
      let role ← messageRole first
      if role = "system" then
        if first.name.isSome then throw unexpectedName
        let content ← renderMessageContent json first "system"
        concat [appendChatMessage encoder architecture "system" (content ++ "\n\n" ++ toolPrompt),
          appendChatMessages json encoder architecture rest]
      else
        concat [appendChatMessage encoder architecture "system" toolPrompt,
          appendChatMessages json encoder architecture messages]

/-- Whether the last message is one of the assistant, which stays open. -/
def continuesAssistant (messages : List Message) : Bool :=
  messages.getLast?.any fun message =>
    match messageRole message with
    | .ok role => role = "assistant"
    | .error _ => false

def appendChatSuffixIfNeeded (architecture : ModelArchitecture) (messages : List Message) :
    Except RuntimeError (List α) :=
  if continuesAssistant messages then .ok [] else appendChatSuffix encoder architecture

def chatTokensLegacy (architecture : ModelArchitecture) (messages : List Message)
    (tools : Option (List ToolDefinition)) (toolChoice : Option Value) :
    Except RuntimeError (List α) := do
  let begin ← appendChatPrefix encoder architecture
  let toolPrompt ← toolSystemPrompt json tools toolChoice
  let body ← appendChatMessagesWithTools json encoder architecture messages toolPrompt
  let suffix ← appendChatSuffixIfNeeded encoder architecture messages
  return begin ++ body ++ suffix

/-! ### The official Qwen template -/

/-- The text of a first message of the system, and the blank line behind it. -/
def systemIntroduction (messages : List Message) : Except RuntimeError String := do
  match messages with
  | [] => return ""
  | first :: _ =>
    if first.role = "system" then
      let text ← messageText json first.content
      return text ++ "\n\n"
    else return ""

def appendQwenToolSystem (messages : List Message) (tools : List ToolDefinition)
    (toolChoice : Option Value) : Except RuntimeError (List α) := do
  let introduction ← systemIntroduction json messages
  let definitions := String.join (tools.map fun tool => "\n" ++ spacedJsonValue json tool.toValue)
  let instruction ← appendToolChoiceInstruction json toolChoice
  appendQwenMessage encoder "system"
    (introduction ++ toolIntroduction ++ definitions ++ toolConclusion ++ instruction)

def startsWithSystem (messages : List Message) : Bool :=
  messages.head?.any fun message => message.role = "system"

/-- The tokens in front of the messages, and the messages that they do not cover. -/
def appendOfficialQwenPrefix (messages : List Message) (tools : Option (List ToolDefinition))
    (toolChoice : Option Value) : Except RuntimeError (List α × List Message) := do
  match tools, messages with
  | some tools, messages =>
    let tokens ← appendQwenToolSystem json encoder messages tools toolChoice
    return (tokens, if startsWithSystem messages then messages.tail else messages)
  | none, [] => return ([], [])
  | none, first :: rest =>
    if first.role = "system" then
      let tokens ← appendRegularChatMessage json encoder .qwen3 first
      return (tokens, rest)
    else return ([], first :: rest)

def appendOfficialQwenToolResult (message : Message) : Except RuntimeError (List α) := do
  let content ← messageText json message.content
  concat [piece encoder "\n<tool_response>\n", appendQwenContent encoder content.toList,
    piece encoder "\n</tool_response>"]

/-- The tokens of the results at the head of the messages, and the messages behind them. -/
def appendOfficialQwenToolResults :
    List Message → Except RuntimeError (List α × List Message)
  | [] => .ok ([], [])
  | message :: rest => do
    let role ← messageRole message
    if role = "tool" then
      let tokens ← appendOfficialQwenToolResult json encoder message
      let (more, behind) ← appendOfficialQwenToolResults rest
      return (tokens ++ more, behind)
    else return ([], message :: rest)

theorem length_appendOfficialQwenToolResults {messages behind : List Message} {tokens : List α}
    (h : appendOfficialQwenToolResults json encoder messages = .ok (tokens, behind)) :
    behind.length ≤ messages.length := by
  induction messages generalizing tokens with
  | nil =>
    cases h
    exact le_rfl
  | cons message rest ih =>
    rw [appendOfficialQwenToolResults, bind_eq_ok] at h
    obtain ⟨role, -, h⟩ := h
    split at h
    · rw [bind_eq_ok] at h
      obtain ⟨result, -, h⟩ := h
      rw [bind_eq_ok] at h
      obtain ⟨found, hfound, h⟩ := h
      cases h
      exact (ih hfound).trans (by simp)
    · cases h
      exact le_rfl

def appendOfficialQwenContinuation (message : Message) : Except RuntimeError (List α) := do
  let content ← messageText json message.content
  concat [token encoder imStart, piece encoder "assistant\n", token encoder "<think>",
    piece encoder "\n\n", token encoder "</think>", piece encoder "\n\n",
    appendQwenContent encoder (trimStartNewlines content).toList]

/-- The content in front of tool calls, which may be missing. -/
def toolCallsContent (message : Message) : Except RuntimeError String :=
  if message.content.isNull then .ok "" else messageText json message.content

def appendOfficialQwenToolCalls (message : Message) : Except RuntimeError (List α) := do
  let content ← toolCallsContent json message
  let rendered ← renderOfficialToolCalls json content (message.toolCalls.getD [])
  appendQwenMessage encoder "assistant" rendered

def appendOfficialQwenAssistantMessage (message : Message) (continuation : Bool) :
    Except RuntimeError (List α) := do
  if continuation ∧ message.toolCalls.isNone then
    appendOfficialQwenContinuation json encoder message
  else if message.toolCalls.isSome then appendOfficialQwenToolCalls json encoder message
  else
    let content ← messageText json message.content
    appendQwenMessage encoder "assistant" content

def appendOfficialQwenMessages : List Message → Except RuntimeError (List α)
  | [] => .ok []
  | message :: rest => do
    let role ← messageRole message
    if role = "tool" then
      let start ← token encoder imStart
      let user ← piece encoder "user"
      let result ← appendOfficialQwenToolResult json encoder message
      match _hresults : appendOfficialQwenToolResults json encoder rest with
      | .error e => throw e
      | .ok (results, behind) =>
        let stop ← concat [token encoder imEnd, piece encoder "\n"]
        let more ← appendOfficialQwenMessages behind
        return start ++ user ++ result ++ results ++ stop ++ more
    else if role = "assistant" then
      let tokens ← appendOfficialQwenAssistantMessage json encoder message rest.isEmpty
      let more ← appendOfficialQwenMessages rest
      return tokens ++ more
    else
      let content ← messageText json message.content
      let tokens ← appendQwenMessage encoder role content
      let more ← appendOfficialQwenMessages rest
      return tokens ++ more
termination_by messages => messages.length
decreasing_by
  · exact Nat.lt_succ_of_le (length_appendOfficialQwenToolResults json encoder _hresults)
  · exact Nat.lt_succ_self _
  · exact Nat.lt_succ_self _

def endsWithAssistant (messages : List Message) : Bool :=
  messages.getLast?.any fun message => message.role = "assistant"

def appendOfficialQwenSuffix (messages : List Message) : Except RuntimeError (List α) :=
  if endsWithAssistant messages then .ok [] else appendChatSuffix encoder .qwen3

def chatTokensOfficialQwen (messages : List Message) (tools : Option (List ToolDefinition))
    (toolChoice : Option Value) : Except RuntimeError (List α) := do
  let tools := officialTools tools toolChoice
  let (begin, rest) ← appendOfficialQwenPrefix json encoder messages tools toolChoice
  let body ← appendOfficialQwenMessages json encoder rest
  let suffix ← appendOfficialQwenSuffix encoder messages
  return begin ++ body ++ suffix

/-! ### The official Llama template -/

def appendLlamaHeader (role : String) : Except RuntimeError (List α) :=
  concat [token encoder llamaHeaderStart, piece encoder role, token encoder llamaHeaderEnd]

def appendLlamaGenerationPrompt : Except RuntimeError (List α) :=
  concat [appendLlamaHeader encoder "assistant", piece encoder "\n\n"]

def appendLlamaOfficialSystemMessage (messages : List Message) :
    Except RuntimeError (List α) := do
  match messages with
  | [] => return []
  | first :: _ =>
    if first.role = "system" then
      let text ← messageText json first.content
      piece encoder (trim text)
    else return []

def appendLlamaOfficialSystem (messages : List Message) (tools : Option (List ToolDefinition)) :
    Except RuntimeError (List α) :=
  concat [appendLlamaHeader encoder "system", piece encoder "\n\n",
    if tools.isSome then piece encoder "Environment: ipython\n" else .ok [],
    piece encoder "Cutting Knowledge Date: December 2023\n",
    piece encoder "Today Date: 26 Jul 2024\n\n",
    appendLlamaOfficialSystemMessage json encoder messages, token encoder llamaEot]

/-- The tools that a request may call. A named choice leaves one name. -/
def offeredTools (tools : List ToolDefinition) (toolChoice : Option Value) :
    List ToolDefinition :=
  tools.filter fun tool => (namedToolChoice toolChoice).all fun name => tool.function.name = name

def appendLlamaOfficialToolInstruction (tools : List ToolDefinition)
    (toolChoice : Option Value) : Except RuntimeError (List α) :=
  concat ([piece encoder ("\n\nGiven the following functions, please respond with a JSON for a " ++
      "function call with its proper arguments that best answers the given prompt.\n\n"),
    piece encoder ("Respond in the format \x7b\"name\": function name, \"parameters\": " ++
      "dictionary of argument name and its value\x7d.Do not use variables.\n\n")] ++
    (offeredTools tools toolChoice).flatMap fun tool =>
      [piece encoder (prettyOfficialJson json tool.toValue), piece encoder "\n\n"])

/-- The first message of the user, with the tools, and the messages behind it. -/
def appendLlamaOfficialFirstUser (messages : List Message) (tools : Option (List ToolDefinition))
    (toolChoice : Option Value) : Except RuntimeError (List α × List Message) := do
  match tools, messages with
  | none, messages => return ([], messages)
  | some tools, message :: rest =>
    if message.role = "user" then
      let header ← appendLlamaHeader encoder "user"
      let instruction ← appendLlamaOfficialToolInstruction json encoder tools toolChoice
      let text ← messageText json message.content
      let content ← piece encoder (trim text)
      let stop ← token encoder llamaEot
      return (header ++ instruction ++ content ++ stop, rest)
    else throw (.tokenCallback
      "official Llama templates require a user message when tools are present")
  | some _, [] => throw (.tokenCallback
      "official Llama templates require a user message when tools are present")

def appendLlamaOfficialToolCall (message : Message) : Except RuntimeError (List α) := do
  match message.toolCalls.getD [] with
  | [call] =>
    let arguments ← parseRequestToolArguments json call.function.arguments
    let rendered := "\x7b\"name\": " ++ json.toString (.string call.function.name) ++
      ", \"parameters\": " ++ spacedJsonValue json arguments ++ "\x7d"
    concat [appendLlamaHeader encoder "assistant", piece encoder "\n\n", piece encoder rendered,
      token encoder llamaEot]
  | _ => throw (.tokenCallback "official Llama templates support one tool call")

def appendLlamaOfficialToolResult (message : Message) : Except RuntimeError (List α) := do
  let begin ← concat [appendLlamaHeader encoder "ipython", piece encoder "\n\n"]
  let content ← messageText json message.content
  let rest ← concat [piece encoder (json.toString (.string content)), token encoder llamaEot]
  return begin ++ rest

def appendLlamaOfficialContinuation (message : Message) : Except RuntimeError (List α) := do
  let begin ← concat [appendLlamaHeader encoder "assistant", piece encoder "\n\n"]
  let content ← messageText json message.content
  let rest ← piece encoder (trim content)
  return begin ++ rest

def appendOfficialLlamaMessage (message : Message) (continuation : Bool) :
    Except RuntimeError (List α) := do
  let role ← messageRole message
  if role = "assistant" ∧ message.toolCalls.isSome then
    appendLlamaOfficialToolCall json encoder message
  else if role = "tool" then appendLlamaOfficialToolResult json encoder message
  else if continuation ∧ role = "assistant" then
    appendLlamaOfficialContinuation json encoder message
  else
    let content ← messageText json message.content
    appendLlamaMessage encoder role (trim content)

def appendOfficialLlamaMessages : List Message → Except RuntimeError (List α)
  | [] => .ok []
  | message :: rest => do
    let tokens ← appendOfficialLlamaMessage json encoder message rest.isEmpty
    let more ← appendOfficialLlamaMessages rest
    return tokens ++ more

def chatTokensOfficialLlama (messages : List Message) (tools : Option (List ToolDefinition))
    (toolChoice : Option Value) : Except RuntimeError (List α) := do
  let tools := officialTools tools toolChoice
  let system ← appendLlamaOfficialSystem json encoder messages tools
  let rest := if startsWithSystem messages then messages.tail else messages
  let (user, rest) ← appendLlamaOfficialFirstUser json encoder rest tools toolChoice
  let body ← appendOfficialLlamaMessages json encoder rest
  if endsWithAssistant messages then return system ++ user ++ body
  let suffix ← appendLlamaGenerationPrompt encoder
  return system ++ user ++ body ++ suffix

/-- The official template in front of its canonical encoding. -/
def renderOfficial (architecture : ModelArchitecture) (messages : List Message)
    (tools : Option (List ToolDefinition)) (toolChoice : Option Value) :
    Except RuntimeError (List α) :=
  match architecture with
  | .qwen3 => chatTokensOfficialQwen json encoder messages tools toolChoice
  | .llama => chatTokensOfficialLlama json encoder messages tools toolChoice

end Leone.Template

import Leone.Chat.Stop

/-!
# A chat request from its first token to its response

A request without tools, in either response mode. Its tokens come in quanta: a serial one of some
budget, one token of a task that is ready alone, or one token of a ready batch.
-/

namespace Leone.Chat

open Framework Utf8

abbrev Token := Nat

/-- A model: the token after a transcript, the bytes of a token and the token that ends a text. -/
structure Engine where
  next : List Token → Token
  tokenBytes : Token → List UInt8
  eosToken : Option Token

structure ChatTask where
  stream : Bool
  transcript : List Token
  remainingTokens : Nat
  stop : StopMatcher
  stopHit : Bool
  streamed : Utf8Stream
  sent : List (List UInt8)
  tokens : List Token
  eos : Bool
  deriving DecidableEq

def ChatTask.new (stream : Bool) (promptTokens : List Token) (maxTokens : Nat)
    (stopSequences : List (List UInt8)) : ChatTask :=
  { stream
    transcript := promptTokens
    remainingTokens := maxTokens
    stop := .new stopSequences
    stopHit := false
    streamed := ⟨[]⟩
    sent := []
    tokens := []
    eos := false }

/-! ## Tokens -/

/-- Writes the content of some bytes to the stream. -/
def emitStreamBytes (task : ChatTask) (bytes : List UInt8) : ChatTask :=
  let (content, streamed) := task.streamed.push bytes
  { task with streamed, sent := task.sent ++ content }

/-- Records one token. Only a stream looks for a stop sequence here. -/
def streamQuantumToken (task : ChatTask) (bytes : List UInt8) : ChatTask :=
  if task.stream then
    let (safe, stop) := task.stop.push bytes
    emitStreamBytes { task with stop, stopHit := stop.matched } safe
  else task

section Quanta

variable (engine : Engine)

/-- Generates up to so many more tokens, and stops at a match or at the end of the text. -/
def generateSessionTokens : Nat → ChatTask → List Token → List Token × ChatTask
  | 0, task, tokens => (tokens, task)
  | budget + 1, task, tokens =>
    let token := engine.next (task.transcript ++ tokens)
    let task := streamQuantumToken task (engine.tokenBytes token)
    if task.stopHit then (tokens ++ [token], task)
    else if some token = engine.eosToken then (tokens ++ [token], task)
    else generateSessionTokens budget task (tokens ++ [token])

def quantumReachedEos (stopHit : Bool) (tokens : List Token) (budget : Nat) : Bool :=
  stopHit || tokens.getLast? == engine.eosToken || decide (tokens.length < budget)

/-- The tokens of a serial quantum. -/
def recordSerialTokens (task : ChatTask) (tokens : List Token) (requested : Nat) : ChatTask :=
  { task with
    remainingTokens := task.remainingTokens - tokens.length
    transcript := task.transcript ++ tokens
    tokens := task.tokens ++ tokens
    eos := quantumReachedEos engine task.stopHit tokens requested }

def execute (task : ChatTask) (tokenBudget : Nat) : ChatTask :=
  let budget := min tokenBudget task.remainingTokens
  let (tokens, task) := generateSessionTokens engine budget task []
  recordSerialTokens engine task tokens budget

/-- One token of a ready batch. -/
def recordReadyBatchToken (task : ChatTask) : ChatTask :=
  let token := engine.next task.transcript
  let task := streamQuantumToken task (engine.tokenBytes token)
  { task with
    remainingTokens := task.remainingTokens - 1
    transcript := task.transcript ++ [token]
    tokens := task.tokens ++ [token]
    eos := task.stopHit || some token == engine.eosToken }

/-- A decode quantum. The budget of a serial one is a token and some more. -/
inductive Quantum
  | serial (more : Nat)
  | readyTask
  | readyBatch
  deriving DecidableEq

def runQuantum (task : ChatTask) : Quantum → ChatTask
  | .serial more => execute engine task (more + 1)
  | .readyTask => execute engine task 1
  | .readyBatch => recordReadyBatchToken engine task

/-- A task that is not dispatched any more. -/
def ChatTask.finished (task : ChatTask) : Bool := task.eos || task.remainingTokens == 0

def runQuanta (task : ChatTask) (quanta : List Quantum) : ChatTask :=
  quanta.foldl (fun task quantum => if task.finished then task else runQuantum engine task quantum)
    task

/-! ## The response -/

inductive FinishReason
  | stop
  | toolCalls
  | cancelled
  | length
  deriving DecidableEq, Repr

def chatFinishReason (stopHit eos cancelled hasToolCalls : Bool) : FinishReason :=
  if stopHit || eos then (if hasToolCalls then .toolCalls else .stop)
  else if cancelled then .cancelled
  else if hasToolCalls then .toolCalls
  else .length

/-- The bytes of the white space character that a text begins with. -/
def whitespaceLength : List UInt8 → Nat
  | 0xC2 :: byte :: _ => if byte = 0x85 ∨ byte = 0xA0 then 2 else 0
  | 0xE1 :: 0x9A :: 0x80 :: _ => 3
  | 0xE2 :: 0x80 :: byte :: _ =>
    if (0x80 ≤ byte ∧ byte ≤ 0x8A) ∨ byte = 0xA8 ∨ byte = 0xA9 ∨ byte = 0xAF then 3 else 0
  | 0xE2 :: 0x81 :: 0x9F :: _ => 3
  | 0xE3 :: 0x80 :: 0x80 :: _ => 3
  | byte :: _ => if (0x09 ≤ byte ∧ byte ≤ 0x0D) ∨ byte = 0x20 then 1 else 0
  | [] => 0

def trimStart (text : List UInt8) : List UInt8 :=
  if _h : whitespaceLength text = 0 ∨ text = [] then text
  else trimStart (text.drop (whitespaceLength text))
termination_by text.length
decreasing_by
  obtain ⟨hlength, hne⟩ := not_or.mp _h
  have := List.length_pos_of_ne_nil hne
  rw [List.length_drop]
  omega

/-- The tag of a tool call. -/
def toolCallTag : List UInt8 := [0x3C, 0x74, 0x6F, 0x6F, 0x6C, 0x5F, 0x63, 0x61, 0x6C, 0x6C, 0x3E]

inductive ResponseError
  | invalidGeneratedResponse
  deriving DecidableEq, Repr

/-- The tool calls of a text when no tool is offered: there are none, and a text that begins with
a tag names a function that was not offered. -/
def parseGeneratedToolCalls (content : List UInt8) : Except ResponseError Bool :=
  if toolCallTag.isPrefixOf (trimStart content) then .error .invalidGeneratedResponse else .ok false

def textBytes (tokens : List Token) : List UInt8 := tokens.flatMap engine.tokenBytes

/-- The content of a response that is not streamed. -/
def decodedChatContent (stream : Bool) (tokens : List Token) (sequences : List (List UInt8)) :
    Option (List UInt8) :=
  if stream then none
  else some (truncateAtStop (fromUtf8Lossy (textBytes engine tokens)) sequences).1

def flushTaskPending (task : ChatTask) : ChatTask :=
  let (pending, stop) := task.stop.finish
  if task.stream then emitStreamBytes { task with stop } pending else { task with stop }

/-- What a client learns of a finished request. -/
structure ChatResponse where
  tokens : List Token
  finishReason : FinishReason
  content : List UInt8
  deriving DecidableEq

/-- The response of a finished task. -/
def finishGeneratedTask (sequences : List (List UInt8)) (task : ChatTask) :
    Except ResponseError ChatResponse := do
  let task := flushTaskPending task
  let decoded := decodedChatContent engine task.stream task.tokens sequences
  let hasToolCalls ← match decoded with
    | none => .ok false
    | some content => parseGeneratedToolCalls content
  return {
    tokens := task.tokens
    finishReason := chatFinishReason task.stopHit task.eos false hasToolCalls
    content := match decoded with
      | none => (task.sent ++ task.streamed.finish.1).flatten
      | some content => content }

end Quanta

end Leone.Chat

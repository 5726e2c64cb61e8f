import Leone.Framework.Http
import Leone.Framework.Machine
import Leone.Framework.Method

/-!
# The response path of a connection

The engine queues the frames of a response, and the connection's writer takes them from the queue
to the socket. Both race for the terminal part of the response at the request deadline. A run is a
sequence of events, each of which moves one party by one step of its program or lets time pass.
-/

namespace Leone.Transport

open Framework Http

/-- A point of the monotonic clock, in nanoseconds. -/
abbrev Instant := Nat

/-- The bytes that the engine writes at once: a part of a response. -/
inductive Part
  | head (lines : Head) (chunked : lines.Chunked)
  | chunk (payload : List UInt8) (full : payload ≠ [])
  | last
  | whole (response : List UInt8) (complete : Response response)

def Part.bytes : Part → List UInt8
  | head lines _ => lines.bytes
  | chunk payload _ => Http.chunk payload
  | last => lastChunk
  | whole response _ => response

inductive Frame
  | bytes (part : Part) (queuedAt : Instant)
  | terminal (part : Part)

def Frame.part : Frame → Part
  | bytes part _ => part
  | terminal part => part

def Frame.payload (frame : Frame) : List UInt8 := frame.part.bytes

inductive DeliveryFailurePhase | none | enqueueRejected | socketWrite
  deriving DecidableEq, Repr

structure OutputState where
  pendingBytes : Nat
  queueHighWaterBytes : Nat
  deliveryFailurePhase : DeliveryFailurePhase
  clientDisconnected : Bool
  cancelled : Bool
  terminalClaimed : Bool
  responseStarted : Bool
  streaming : Bool
  terminalDeadline : Option Instant
  deriving DecidableEq

/-- What a connection is opened with. -/
structure Config where
  maxBytes : Nat
  maxBytes_lt : maxBytes < 2 ^ 64
  capacity : Nat
  deadline : Instant
  /-- The last point that the clock's type can hold. -/
  lastInstant : Instant

/-- `TERMINAL_FRAME_GRACE` -/
def terminalFrameGrace : Nat := 250000000

def OutputState.new : OutputState where
  pendingBytes := 0
  queueHighWaterBytes := 0
  deliveryFailurePhase := .none
  clientDisconnected := false
  cancelled := false
  terminalClaimed := false
  responseStarted := false
  streaming := false
  terminalDeadline := none

namespace OutputState

def cancel (output : OutputState) : OutputState := { output with cancelled := true }

def recordDeliveryFailed (output : OutputState) (phase : DeliveryFailurePhase) : OutputState :=
  { output with deliveryFailurePhase := phase }

/-- Count bytes into the queue, if the limit allows. -/
def reserve (config : Config) (output : OutputState) (bytes : Nat) : Option OutputState :=
  match checkedAdd 64 output.pendingBytes bytes with
  | none => none
  | some next =>
    if config.maxBytes < next then none else some { output with pendingBytes := next }

/-- `fetch_sub` wraps. -/
def release (output : OutputState) (bytes : Nat) : OutputState :=
  { output with pendingBytes := (output.pendingBytes + (2 ^ 64 - bytes % 2 ^ 64)) % 2 ^ 64 }

/-- The end of the grace period, which is fixed when it is first asked for. -/
def setTerminalDeadline (config : Config) (output : OutputState) : Instant × OutputState :=
  match output.terminalDeadline with
  | some limit => (limit, output)
  | none =>
    let graced := config.deadline + terminalFrameGrace
    let limit := if graced ≤ config.lastInstant then graced else config.deadline
    (limit, { output with terminalDeadline := some limit })

end OutputState

/-! ## What the engine writes -/

/-- Where the engine is in its response. A stream is opened by its head, and what closes a response
follows only a claim that wins. After such a claim a response may still begin. -/
inductive Phase | start | marked | streaming | closing | answering | finished | lost
  deriving DecidableEq, Repr

/-- The phase after a frame, for a frame that the engine writes in this phase. -/
def Phase.next : Phase → Part → Option Phase
  | marked, .head _ _ => some streaming
  | answering, .head _ _ => some closing
  | streaming, .chunk _ _ => some streaming
  | closing, .chunk _ _ => some closing
  | closing, .last => some finished
  | answering, .whole _ _ => some finished
  | _, _ => none

/-- A place in `OutputSink::write`, with the part or the frame at hand. -/
inductive WritePlace
  | idle
  | check (part : Part)
  | reserve (part : Part)
  | raise (part : Part) (next : Nat)
  | classify (part : Part)
  | stamp (part : Part)
  | send (frame : Frame)
  | undo (frame : Frame)
  | cancel
  | record

/-! ## What the writer does -/

/-- `REQUEST_TIMEOUT_RESPONSE` -/
def requestTimeoutResponse : List UInt8 :=
  Http.ascii ("HTTP/1.1 408 Request Timeout\x0d\nContent-Type: application/json\x0d\n" ++
    "Content-Length: 105\x0d\nConnection: close\x0d\n\x0d\n" ++
    "\x7b\"error\":\x7b\"message\":\"the request deadline expired\"," ++
    "\"type\":\"request_timeout\",\"code\":\"transport-deadline\"\x7d\x7d")

def streamTimeoutResponse : List UInt8 :=
  chunk (Http.ascii "data: \x7b\"error\":\x7b\"message\":\"the request deadline expired\"\x7d\x7d\n\n") ++
    chunk (Http.ascii "data: [DONE]\n\n") ++ lastChunk

def deadlineResponse (output : OutputState) : List UInt8 :=
  if output.streaming && output.responseStarted then streamTimeoutResponse
  else requestTimeoutResponse

/-- What `write_frame` writes: a frame of the queue, or the fallback at the deadline. -/
inductive Job
  | frame (queued : Frame)
  | fallback (response : List UInt8)

def Job.bytes : Job → List UInt8
  | frame queued => queued.payload
  | fallback response => response

/-- A place in `write_loop` and the functions it calls. `now` is a time that was read before. -/
inductive WriterPlace
  | poll
  | checkStop (now : Instant)
  | checkOutput (now : Instant)
  | checkRequest (now : Instant)
  | checkDeadline (now : Instant)
  | limit (now : Instant)
  | wait (now limit : Instant)
  | receive
  | receiveLate
  | sort (frame : Frame) (late : Bool)
  | beginFrame (frame : Frame)
  | graceFrame (frame : Frame)
  | writing (job : Job) (limit : Instant) (offset : Nat)
  | socket (job : Job) (limit : Instant) (offset : Nat)
  | blocked (job : Job) (limit : Instant) (offset : Nat)
  | failed (job : Job) (offset : Nat)
  | wrote (job : Job)
  | release (frame : Frame)
  | fallback
  | fallbackOutput
  | fallbackClaimed
  | fallbackLimit
  | claim
  | respond
  | graceFallback (response : List UInt8)
  | cancel
  | cancelRequest
  | leave
  | stopped

/-- How one call on the socket ends. -/
inductive Outcome
  | written (bytes : Nat)
  | blocked
  | failed
  deriving DecidableEq, Repr

/-! ## States and events -/

/-- A connection with its response. The last fields record the past: the parts that the engine has
begun to write, the frames that it has queued, and the frames that the writer is done with, each with
whether it was written or dropped. -/
structure State where
  clock : Instant
  output : OutputState
  cancellation : Bool
  stop : Bool
  queue : List Frame
  receiving : Bool
  sinkOpen : Bool
  phase : Phase
  write : WritePlace
  writer : WriterPlace
  socket : List UInt8
  attempted : List Part
  sent : List Frame
  handled : List (Frame × Bool)
  engineWon : Bool
  fallbackWon : Bool

def State.new (clock : Instant) : State where
  clock
  output := .new
  cancellation := false
  stop := false
  queue := []
  receiving := true
  sinkOpen := true
  phase := .start
  write := .idle
  writer := .poll
  socket := []
  attempted := []
  sent := []
  handled := []
  engineWon := false
  fallbackWon := false

/-- The frames that were written. -/
def State.written (s : State) : List Frame := (s.handled.filter Prod.snd).map Prod.fst

inductive Event
  | tick (time : Nat)
  | cancelOutput
  | disconnect
  | cancelRequest
  | stop
  | markStreaming
  | write (part : Part)
  | engine
  | beginTerminalResponse
  | dropSink
  | writer (outcome : Outcome)

/-! ### The engine's steps -/

/-- The next step of `OutputSink::write`. -/
def engineStep (config : Config) (s : State) : State :=
  match s.write with
  | .idle => s
  | .check part =>
    if part.bytes = [] ∨ s.output.cancelled then { s with write := .idle }
    else { s with write := .reserve part }
  | .reserve part =>
    match s.output.reserve config part.bytes.length with
    | none => { s with write := .cancel }
    | some output => { s with output, write := .raise part output.pendingBytes }
  | .raise part next =>
    { s with
      output := { s.output with queueHighWaterBytes := max s.output.queueHighWaterBytes next }
      write := .classify part }
  | .classify part =>
    if s.output.terminalClaimed then { s with write := .send (.terminal part) }
    else { s with write := .stamp part }
  | .stamp part => { s with write := .send (.bytes part s.clock) }
  | .send frame =>
    if s.receiving && s.queue.length < config.capacity then
      { s with queue := s.queue ++ [frame], sent := s.sent ++ [frame], write := .idle }
    else { s with write := .undo frame }
  | .undo frame =>
    { s with output := s.output.release frame.payload.length, write := .cancel }
  | .cancel => { s with output := s.output.cancel, write := .record }
  | .record => { s with output := s.output.recordDeliveryFailed .enqueueRejected, write := .idle }

/-- The engine begins to write a frame that its response has next. -/
def beginWrite (s : State) (part : Part) : State :=
  match s.write, s.phase.next part with
  | .idle, some phase =>
    if s.sinkOpen then
      { s with phase, write := .check part, attempted := s.attempted ++ [part] }
    else s
  | _, _ => s

/-- The phase of an engine that has won the claim. -/
def Phase.won : Phase → Option Phase
  | start => some answering
  | streaming => some closing
  | _ => none

def beginTerminalResponse (s : State) : State :=
  match s.write, s.phase.won with
  | .idle, some phase =>
    if !s.sinkOpen then s
    else if s.output.terminalClaimed then { s with phase := .lost }
    else { s with
      phase
      output := { s.output with terminalClaimed := true }
      engineWon := true }
  | _, _ => s

def markStreaming (s : State) : State :=
  match s.write, s.phase with
  | .idle, .start =>
    if s.sinkOpen then
      { s with phase := .marked, output := { s.output with streaming := true } }
    else s
  | _, _ => s

/-! ### The writer's steps -/

/-- A frame that the engine stamped at the deadline or later is not written. -/
def Frame.late (config : Config) : Frame → Bool
  | bytes _ queuedAt => config.deadline ≤ queuedAt
  | terminal _ => false

/-- What the writer does behind an empty queue, or a frame that it dropped. -/
def nothingReceived (late : Bool) : WriterPlace := if late then .fallback else .poll

/-- A call of `recv_timeout`. A call that waits may find nothing as long as the queue is empty. -/
def receiveStep (s : State) (late : Bool) : State :=
  match s.queue with
  | frame :: rest => { s with queue := rest, writer := .sort frame late }
  | [] => if s.sinkOpen then { s with writer := nothingReceived late } else { s with writer := .leave }

/-- A call of the socket's `write`. -/
def socketStep (s : State) (job : Job) (limit : Instant) (offset : Nat) : Outcome → State
  | .written 0 => { s with writer := .failed job offset }
  | .written bytes =>
    let bytes := min bytes (job.bytes.length - offset)
    { s with
      socket := s.socket ++ (job.bytes.drop offset).take bytes
      writer := .writing job limit (offset + bytes) }
  | .blocked => { s with writer := .blocked job limit offset }
  | .failed => { s with writer := .failed job offset }

/-- The next step of the writer. -/
def writerStep (config : Config) (s : State) (outcome : Outcome) : State :=
  match s.writer with
  | .poll => { s with writer := .checkStop s.clock }
  | .checkStop now => { s with writer := if s.stop then .leave else .checkOutput now }
  | .checkOutput now =>
    { s with writer := if s.output.cancelled then .leave else .checkRequest now }
  | .checkRequest now =>
    { s with writer :=
        if now < config.deadline && s.cancellation then .leave else .checkDeadline now }
  | .checkDeadline now =>
    { s with writer :=
        if config.deadline ≤ now && !s.output.terminalClaimed then .receiveLate else .limit now }
  | .limit now =>
    if now < config.deadline then { s with writer := .wait now config.deadline }
    else
      let (limit, output) := s.output.setTerminalDeadline config
      { s with output, writer := .wait now limit }
  | .wait now limit => { s with writer := if limit ≤ now then .fallback else .receive }
  | .receive => receiveStep s false
  | .receiveLate => receiveStep s true
  | .sort frame late =>
    if frame.late config then
      { s with
        output := s.output.release frame.payload.length
        handled := s.handled ++ [(frame, false)]
        writer := nothingReceived late }
    else { s with writer := .beginFrame frame }
  | .beginFrame frame =>
    { s with writer :=
        if s.clock < config.deadline then .writing (.frame frame) config.deadline 0
        else .graceFrame frame }
  | .graceFrame frame =>
    let (limit, output) := s.output.setTerminalDeadline config
    { s with output, writer := .writing (.frame frame) limit 0 }
  | .writing job limit offset =>
    { s with writer :=
        if job.bytes.length ≤ offset then .wrote job
        else if limit ≤ s.clock then .failed job offset
        else .socket job limit offset }
  | .socket job limit offset => socketStep s job limit offset outcome
  | .blocked job limit offset =>
    { s with writer := if limit ≤ s.clock then .failed job offset else .writing job limit offset }
  | .failed _ _ =>
    { s with output := s.output.recordDeliveryFailed .socketWrite, writer := .cancel }
  | .wrote (.frame frame) =>
    { s with
      output := { s.output with responseStarted := true }
      handled := s.handled ++ [(frame, true)]
      writer := .release frame }
  | .wrote (.fallback _) =>
    { s with output := { s.output with responseStarted := true }, writer := .cancel }
  | .release frame =>
    { s with output := s.output.release frame.payload.length, writer := .poll }
  | .fallback => { s with writer := if s.stop then .leave else .fallbackOutput }
  | .fallbackOutput =>
    { s with writer := if s.output.cancelled then .leave else .fallbackClaimed }
  | .fallbackClaimed =>
    { s with writer := if s.output.terminalClaimed then .fallbackLimit else .claim }
  | .fallbackLimit =>
    let (limit, output) := s.output.setTerminalDeadline config
    { s with output, writer := if limit ≤ s.clock then .cancel else .claim }
  | .claim =>
    if s.output.terminalClaimed then { s with writer := .poll }
    else { s with
      output := { s.output with terminalClaimed := true }
      fallbackWon := true
      writer := .respond }
  | .respond => { s with writer := .graceFallback (deadlineResponse s.output) }
  | .graceFallback response =>
    let (limit, output) := s.output.setTerminalDeadline config
    { s with output, writer := .writing (.fallback response) limit 0 }
  | .cancel => { s with output := s.output.cancel, writer := .cancelRequest }
  | .cancelRequest => { s with cancellation := true, writer := .leave }
  | .leave => { s with queue := [], receiving := false, writer := .stopped }
  | .stopped => s

/-- One step of one party. An event that is not possible changes nothing. -/
def step (config : Config) (s : State) : Event → State
  | .tick time => { s with clock := s.clock + time }
  | .cancelOutput => { s with output := s.output.cancel }
  | .disconnect =>
    { s with
      output := { s.output with clientDisconnected := true, cancelled := true }
      cancellation := true }
  | .cancelRequest => { s with cancellation := true }
  | .stop => { s with stop := true }
  | .markStreaming => markStreaming s
  | .write part => beginWrite s part
  | .engine => engineStep config s
  | .beginTerminalResponse => beginTerminalResponse s
  | .dropSink =>
    match s.write with
    | .idle => { s with sinkOpen := false }
    | _ => s
  | .writer outcome => writerStep config s outcome

end Leone.Transport

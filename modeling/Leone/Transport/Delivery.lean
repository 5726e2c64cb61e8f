import Leone.Transport.Wire

/-!
# What the client gets

In a run of a connection the socket holds the beginning of one response at any time. When the writer
leaves because the engine has dropped its sink, the client has every frame but the late chunks, and the
whole response if the engine has finished it.
-/

namespace Leone.Transport

open Framework Http

variable {config : Config} {s : State}

structure Sound (config : Config) (s : State) : Prop where
  claims : Claims s
  ordered : Ordered config s
  flow : Flow config s
  wire : Wire s

theorem sound_new (config : Config) (clock : Instant) : Sound config (.new clock) := by
  constructor
  · exact claims_new clock
  · exact ordered_new config clock
  · constructor <;> simp [State.new, WriterPlace.work, Work.held]
  · constructor <;>
      simp [State.new, OutputState.new, State.written, State.spelled, spell, WriterPlace.work,
        Work.transmitted]
    intro job offset hwork
    cases job <;> cases hwork

theorem Sound.step (h : Sound config s) (event : Event) (htimely : Timely config s event) :
    Sound config (step config s event) := by
  constructor
  · exact h.claims.step event
  · exact h.ordered.step h.claims event htimely
  · exact h.flow.step event
  · exact h.wire.step h.flow h.ordered h.claims event

theorem sound_run {clock : Instant} {events : List Event}
    (h : Along (step config) (Timely config) (.new clock) events) :
    Sound config (run (step config) (.new clock) events) :=
  run_invariant (Sound config) (sound_new config clock) (fun _ event hs ht => hs.step event ht) h

/-! ## Time -/

/-- The time that passes in an event. -/
def Event.time : Event → Nat
  | tick time => time
  | _ => 0

theorem WriterMove.clock {s' : State} (h : WriterMove config s s') : s'.clock = s.clock := by
  cases h <;> rfl

theorem clock_step (event : Event) : (Transport.step config s event).clock = s.clock + event.time := by
  cases event with
  | tick => rfl
  | cancelOutput | disconnect | cancelRequest | stop => rfl
  | markStreaming =>
    unfold Transport.step markStreaming
    dsimp only
    split <;> first | rfl | split <;> rfl
  | write part =>
    unfold Transport.step beginWrite
    dsimp only
    split <;> first | rfl | split <;> rfl
  | engine =>
    unfold Transport.step engineStep
    dsimp only
    split <;> first | rfl | split <;> rfl
  | beginTerminalResponse =>
    unfold Transport.step beginTerminalResponse
    dsimp only
    split
    · split
      · rfl
      · split <;> rfl
    · rfl
  | dropSink =>
    unfold Transport.step
    dsimp only
    split <;> rfl
  | writer outcome => exact (writerStep_move outcome).clock

/-- A run that ends before the deadline opens its stream in time. -/
theorem timely_before {events : List Event}
    (h : s.clock + (events.map Event.time).sum < config.deadline) :
    Along (Transport.step config) (Timely config) s events := by
  induction events generalizing s with
  | nil => trivial
  | cons event events ih =>
    rw [List.map_cons, List.sum_cons] at h
    refine ⟨?_, ih ?_⟩
    · cases event with
      | engine => exact fun _ _ _ => lt_of_le_of_lt (Nat.le_add_right _ _) h
      | _ => trivial
    · rw [clock_step, Nat.add_assoc]
      exact h

/-! ## The runs -/

/-- A connection whose response may take one hundred nanoseconds. -/
def hundred : Config := ⟨4096, by decide, 4, 100, 2 ^ 63⟩

def streamHead : Head :=
  ⟨[Http.ascii "HTTP/1.1 200 OK", Http.ascii "Transfer-Encoding: chunked"],
    ⟨_, rfl, by decide +kernel⟩, by decide +kernel⟩

theorem streamHead_chunked : streamHead.Chunked := by
  unfold Head.Chunked
  decide +kernel

def writerSteps (count : Nat) : List Event := List.replicate count (.writer (.written 1000))

/-- The engine opens a stream, and the writer sends its head. -/
def opening : List Event :=
  [.markStreaming, .write (.head streamHead streamHead_chunked)] ++ List.replicate 6 .engine ++
    writerSteps 15

/-- The deadline passes, and the writer sends the fallback. -/
def expiring : List Event := .tick 100 :: writerSteps 15

/-- The frames that were written are those that are not late. -/
theorem Flow.written (h : Flow config s) :
    s.written = (s.handled.map Prod.fst).filter fun frame => !frame.late config := by
  rw [List.filter_map, State.written]
  congr 1
  apply List.filter_congr
  intro entry hentry
  exact h.judged entry hentry

/-- Nobody gave the response up. -/
def State.Undisturbed (s : State) : Prop :=
  s.output.cancelled = false ∧ s.cancellation = false ∧ s.stop = false

/-- The engine answers at once and drops its sink, and the writer leaves. -/
def answering : List Event :=
  [.beginTerminalResponse, .write (.whole requestTimeoutResponse response_requestTimeout)] ++
    List.replicate 5 .engine ++ writerSteps 15 ++ [.dropSink] ++ writerSteps 9

end Leone.Transport

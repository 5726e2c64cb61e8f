import Leone.Transport.Delivery

/-!
# The end of the writer

Once the grace period is over, each step of the writer brings it closer to its end, whatever the engine
and the client do in between. The rank of a place counts the steps that are left at most. A place that
holds an earlier time goes around the loop once more, and so does one that finds the claim taken.
-/

namespace Leone.Transport

open Framework Http

variable {config : Config} {s : State}

/-- The end of the grace period, at the latest. -/
def Config.lastMoment (config : Config) : Instant := config.deadline + terminalFrameGrace

/-- The time up to which a place goes on. -/
def WriterPlace.limit? : WriterPlace → Option Instant
  | wait _ last | writing _ last _ | socket _ last _ | blocked _ last _ => some last
  | _ => none

structure Within (config : Config) (s : State) : Prop where
  grace : ∀ limit ∈ s.output.terminalDeadline, limit ≤ config.lastMoment
  place : ∀ limit ∈ s.writer.limit?, limit ≤ config.lastMoment

theorem setTerminalDeadline_le {output : OutputState}
    (h : ∀ limit ∈ output.terminalDeadline, limit ≤ config.lastMoment) :
    (output.setTerminalDeadline config).1 ≤ config.lastMoment ∧
      ∀ limit ∈ (output.setTerminalDeadline config).2.terminalDeadline,
        limit ≤ config.lastMoment := by
  unfold OutputState.setTerminalDeadline
  cases hset : output.terminalDeadline with
  | some limit =>
    rw [hset] at h
    exact ⟨h limit rfl, by rwa [hset]⟩
  | none =>
    have hlimit : (if config.deadline + terminalFrameGrace ≤ config.lastInstant then
        config.deadline + terminalFrameGrace else config.deadline) ≤ config.lastMoment := by
      split
      · exact le_refl _
      · exact Nat.le_add_right _ _
    refine ⟨hlimit, ?_⟩
    intro limit hmem
    rw [← Option.mem_some_iff.mp hmem]
    exact hlimit

theorem deadline_le_lastMoment : config.deadline ≤ config.lastMoment := Nat.le_add_right _ _

theorem Within.receive (h : Within config s) (late : Bool) : Within config (receiveStep s late) := by
  unfold receiveStep
  split
  · exact ⟨h.grace, by simp [WriterPlace.limit?]⟩
  · split
    · exact ⟨h.grace, by cases late <;> simp [WriterPlace.limit?, nothingReceived]⟩
    · exact ⟨h.grace, by simp [WriterPlace.limit?]⟩

theorem Within.writer (h : Within config s) (outcome : Outcome) :
    Within config (writerStep config s outcome) := by
  obtain ⟨hlimit, hgrace⟩ := setTerminalDeadline_le h.grace
  have hplace := h.place
  unfold writerStep
  cases hwriter : s.writer with
  | poll | checkStop | checkOutput | checkRequest | checkDeadline | fallback | fallbackOutput
  | fallbackClaimed | respond | cancel | cancelRequest | leave =>
    refine ⟨h.grace, ?_⟩
    dsimp only
    try split
    all_goals simp [WriterPlace.limit?]
  | limit now =>
    dsimp only
    split
    · exact ⟨h.grace, by simp [WriterPlace.limit?, deadline_le_lastMoment]⟩
    · exact ⟨hgrace, by simpa [WriterPlace.limit?] using hlimit⟩
  | wait now limit =>
    refine ⟨h.grace, ?_⟩
    dsimp only
    split <;> simp [WriterPlace.limit?]
  | receive => exact h.receive false
  | receiveLate => exact h.receive true
  | sort frame late =>
    dsimp only
    split
    · exact ⟨h.grace, by cases late <;> simp [WriterPlace.limit?, nothingReceived]⟩
    · exact ⟨h.grace, by simp [WriterPlace.limit?]⟩
  | beginFrame frame =>
    refine ⟨h.grace, ?_⟩
    dsimp only
    split <;> simp [WriterPlace.limit?, deadline_le_lastMoment]
  | graceFrame frame => exact ⟨hgrace, by simpa [WriterPlace.limit?] using hlimit⟩
  | graceFallback response => exact ⟨hgrace, by simpa [WriterPlace.limit?] using hlimit⟩
  | writing job limit offset =>
    rw [hwriter] at hplace
    refine ⟨h.grace, ?_⟩
    dsimp only
    split
    · simp [WriterPlace.limit?]
    · split
      · simp [WriterPlace.limit?]
      · exact hplace
  | socket job limit offset =>
    rw [hwriter] at hplace
    cases outcome with
    | written bytes =>
      cases bytes with
      | zero => exact ⟨h.grace, by simp [socketStep, WriterPlace.limit?]⟩
      | succ bytes => exact ⟨h.grace, hplace⟩
    | blocked => exact ⟨h.grace, hplace⟩
    | failed => exact ⟨h.grace, by simp [socketStep, WriterPlace.limit?]⟩
  | blocked job limit offset =>
    rw [hwriter] at hplace
    refine ⟨h.grace, ?_⟩
    dsimp only
    split
    · simp [WriterPlace.limit?]
    · exact hplace
  | failed job offset => exact ⟨h.grace, by simp [WriterPlace.limit?]⟩
  | wrote job => cases job <;> exact ⟨h.grace, by simp [WriterPlace.limit?]⟩
  | release frame => exact ⟨h.grace, by simp [WriterPlace.limit?]⟩
  | fallbackLimit =>
    dsimp only
    split <;> exact ⟨hgrace, by simp [WriterPlace.limit?]⟩
  | claim =>
    dsimp only
    split <;> exact ⟨h.grace, by simp [WriterPlace.limit?]⟩
  | stopped => exact ⟨h.grace, hplace⟩

/-! ## The rank -/

/-- The steps of a fallback up to its end, or to the claim that it tries. -/
def fallbackRank (claimed : Bool) : Nat := if claimed then 5 else 16

/-- A bound of the steps that the writer still takes when the grace period is over. -/
def WriterPlace.rank (last : Instant) (claimed : Bool) : WriterPlace → Nat
  | stopped => 0
  | leave => 1
  | cancelRequest => 2
  | cancel => 3
  | failed _ _ | fallbackLimit | wrote (.fallback _) => 4
  | writing (.fallback _) _ _ => 5
  | writing (.frame queued) _ offset =>
    if queued.payload.length ≤ offset then fallbackRank claimed + 12 else 5
  | blocked _ _ _ | graceFrame _ | graceFallback _ => 6
  | beginFrame _ | respond => 7
  | claim => 15
  | fallbackClaimed => fallbackRank claimed
  | fallbackOutput => fallbackRank claimed + 1
  | fallback => fallbackRank claimed + 2
  | sort _ late => if late then fallbackRank claimed + 3 else fallbackRank claimed + 10
  | receiveLate => fallbackRank claimed + 4
  | wait now _ => if last ≤ now then fallbackRank claimed + 3 else fallbackRank claimed + 12
  | limit now => if last ≤ now then fallbackRank claimed + 4 else fallbackRank claimed + 13
  | checkDeadline now => if last ≤ now then fallbackRank claimed + 5 else fallbackRank claimed + 14
  | checkRequest now => if last ≤ now then fallbackRank claimed + 6 else fallbackRank claimed + 15
  | checkOutput now => if last ≤ now then fallbackRank claimed + 7 else fallbackRank claimed + 16
  | checkStop now => if last ≤ now then fallbackRank claimed + 8 else fallbackRank claimed + 17
  | poll => fallbackRank claimed + 9
  | release _ => fallbackRank claimed + 10
  | wrote (.frame _) | receive => fallbackRank claimed + 11
  | socket _ _ _ => fallbackRank claimed + 13

def State.rank (config : Config) (s : State) : Nat :=
  s.writer.rank config.lastMoment s.output.terminalClaimed

theorem fallbackRank_bounds (claimed : Bool) : 5 ≤ fallbackRank claimed ∧ fallbackRank claimed ≤ 16 := by
  cases claimed <;> decide

theorem rank_le (config : Config) (s : State) : s.rank config ≤ 33 := by
  have hfallback := fallbackRank_bounds s.output.terminalClaimed
  unfold State.rank WriterPlace.rank
  split <;> first | omega | (split <;> omega)

theorem stopped_of_rank (h : s.rank config = 0) : s.writer = .stopped := by
  have hfallback := fallbackRank_bounds s.output.terminalClaimed
  unfold State.rank WriterPlace.rank at h
  split at h <;> first | assumption | omega | (split at h <;> omega)

/-- A claim that is won brings the writer no further from its end. -/
theorem rank_claimed (last : Instant) {claimed claimed' : Bool} (place : WriterPlace)
    (h : claimed = true → claimed' = true) : place.rank last claimed' ≤ place.rank last claimed := by
  have hfallback : fallbackRank claimed' ≤ fallbackRank claimed := by
    cases claimed <;> cases claimed' <;> simp_all [fallbackRank]
  unfold WriterPlace.rank
  split <;> first | omega | (split <;> omega)

/-- Behind the grace period each step of the writer lowers the rank. -/
theorem rank_writer (h : Within config s) (hexpired : config.lastMoment ≤ s.clock)
    (hbusy : s.writer ≠ .stopped) (outcome : Outcome) :
    (writerStep config s outcome).rank config < s.rank config := by
  have hplace := h.place
  have hgrace := (setTerminalDeadline_le h.grace).1
  have hdeadline : config.deadline ≤ s.clock := le_trans deadline_le_lastMoment hexpired
  have hfallback := fallbackRank_bounds s.output.terminalClaimed
  unfold State.rank writerStep
  cases hwriter : s.writer with
  | poll => simp [WriterPlace.rank, hexpired]
  | checkStop now =>
    dsimp only
    split <;> simp only [WriterPlace.rank] <;> split <;> omega
  | checkOutput now =>
    dsimp only
    split <;> simp only [WriterPlace.rank] <;> split <;> omega
  | checkRequest now =>
    dsimp only
    split <;> simp only [WriterPlace.rank] <;> split <;> omega
  | checkDeadline now =>
    dsimp only
    split <;> simp only [WriterPlace.rank] <;> split <;> omega
  | limit now =>
    dsimp only
    split
    · simp only [WriterPlace.rank]
      split <;> omega
    · have hclaimed := (sameOutput_setTerminalDeadline config s.output).terminalClaimed
      simp only [WriterPlace.rank, hclaimed]
      split <;> omega
  | wait now last =>
    have hlast : last ≤ config.lastMoment := hplace last (by rw [hwriter]; rfl)
    dsimp only
    split
    · simp only [WriterPlace.rank]
      split <;> omega
    · rename_i hwaits
      have hstale : ¬ config.lastMoment ≤ now := fun hnow => hwaits (le_trans hlast hnow)
      simp only [WriterPlace.rank, if_neg hstale]
      omega
  | receive =>
    dsimp only
    unfold receiveStep
    split
    · simp [WriterPlace.rank]
    · split
      · simp [WriterPlace.rank, nothingReceived]
      · simp only [WriterPlace.rank]
        omega
  | receiveLate =>
    dsimp only
    unfold receiveStep
    split
    · simp [WriterPlace.rank]
    · split
      · simp [WriterPlace.rank, nothingReceived]
      · simp only [WriterPlace.rank]
        omega
  | sort frame late =>
    dsimp only
    split
    · cases late <;> simp [WriterPlace.rank, nothingReceived, OutputState.release]
    · simp only [WriterPlace.rank]
      split <;> omega
  | beginFrame frame =>
    dsimp only
    rw [if_neg (Nat.not_lt.mpr hdeadline)]
    simp [WriterPlace.rank]
  | graceFrame frame =>
    have hfull : frame.payload.length ≠ 0 := by
      rw [ne_eq, List.length_eq_zero_iff]
      exact frame.part.bytes_ne_nil
    simp [WriterPlace.rank, hfull]
  | writing job last offset =>
    have hlast : last ≤ s.clock := le_trans (hplace last (by rw [hwriter]; rfl)) hexpired
    dsimp only
    split
    · rename_i hfull
      cases job with
      | frame queued => simp [WriterPlace.rank, show queued.payload.length ≤ offset from hfull]
      | fallback response => simp [WriterPlace.rank]
    · cases job with
      | frame queued =>
        simp only [WriterPlace.rank]
        split <;> omega
      | fallback response => simp [WriterPlace.rank]
  | socket job last offset =>
    have hjob : ∀ offset, (WriterPlace.writing job last offset).rank config.lastMoment
        s.output.terminalClaimed ≤ fallbackRank s.output.terminalClaimed + 12 := by
      intro offset
      cases job with
      | frame queued =>
        simp only [WriterPlace.rank]
        split <;> omega
      | fallback response =>
        simp only [WriterPlace.rank]
        omega
    cases outcome with
    | written bytes =>
      cases bytes with
      | zero =>
        simp only [socketStep, WriterPlace.rank]
        omega
      | succ bytes =>
        have hwriting := hjob (offset + min (bytes + 1) (job.bytes.length - offset))
        simp only [socketStep]
        exact Nat.lt_succ_of_le hwriting
    | blocked =>
      simp only [socketStep, WriterPlace.rank]
      omega
    | failed =>
      simp only [socketStep, WriterPlace.rank]
      omega
  | blocked job last offset =>
    have hlast : last ≤ s.clock := le_trans (hplace last (by rw [hwriter]; rfl)) hexpired
    dsimp only
    rw [if_pos hlast]
    simp [WriterPlace.rank]
  | failed job offset => simp [WriterPlace.rank]
  | wrote job => cases job <;> simp [WriterPlace.rank]
  | release frame => simp [WriterPlace.rank, OutputState.release]
  | fallback =>
    dsimp only
    split <;> simp [WriterPlace.rank]
  | fallbackOutput =>
    dsimp only
    split <;> simp only [WriterPlace.rank] <;> omega
  | fallbackClaimed =>
    dsimp only
    split
    · rename_i hclaimed
      simp [WriterPlace.rank, fallbackRank, hclaimed]
    · rename_i hfree
      simp [WriterPlace.rank, fallbackRank, hfree]
  | fallbackLimit =>
    dsimp only
    rw [if_pos (le_trans hgrace hexpired)]
    simp [WriterPlace.rank]
  | claim =>
    dsimp only
    split
    · rename_i hclaimed
      simp [WriterPlace.rank, fallbackRank, hclaimed]
    · simp [WriterPlace.rank]
  | respond => simp [WriterPlace.rank]
  | graceFallback response => simp [WriterPlace.rank]
  | cancel => simp [WriterPlace.rank]
  | cancelRequest => simp [WriterPlace.rank]
  | leave => simp [WriterPlace.rank]
  | stopped => exact absurd hwriter hbusy

/-! ## Runs -/

def Event.isWriter : Event → Bool
  | writer _ => true
  | _ => false

/-- What the other parties leave alone. -/
structure Alike (s s' : State) : Prop where
  writer : s'.writer = s.writer
  grace : s'.output.terminalDeadline = s.output.terminalDeadline
  claimed : s.output.terminalClaimed = true → s'.output.terminalClaimed = true

theorem alike_step (event : Event) (h : event.isWriter = false) :
    Alike s (Transport.step config s event) := by
  cases event with
  | tick | cancelOutput | disconnect | cancelRequest | stop => exact ⟨rfl, rfl, id⟩
  | markStreaming =>
    unfold Transport.step markStreaming
    dsimp only
    split <;> first | exact ⟨rfl, rfl, id⟩ | split <;> exact ⟨rfl, rfl, id⟩
  | write part =>
    unfold Transport.step beginWrite
    dsimp only
    split <;> first | exact ⟨rfl, rfl, id⟩ | split <;> exact ⟨rfl, rfl, id⟩
  | engine =>
    unfold Transport.step engineStep
    dsimp only
    split
    · exact ⟨rfl, rfl, id⟩
    · split <;> exact ⟨rfl, rfl, id⟩
    · split
      · exact ⟨rfl, rfl, id⟩
      · rename_i output houtput
        obtain ⟨rfl, -⟩ := reserve_eq_some houtput
        exact ⟨rfl, rfl, id⟩
    · exact ⟨rfl, rfl, id⟩
    · split <;> exact ⟨rfl, rfl, id⟩
    · exact ⟨rfl, rfl, id⟩
    · split <;> exact ⟨rfl, rfl, id⟩
    · exact ⟨rfl, rfl, id⟩
    · exact ⟨rfl, rfl, id⟩
    · exact ⟨rfl, rfl, id⟩
  | beginTerminalResponse =>
    unfold Transport.step beginTerminalResponse
    dsimp only
    split
    · split
      · exact ⟨rfl, rfl, id⟩
      · split
        · exact ⟨rfl, rfl, id⟩
        · exact ⟨rfl, rfl, fun _ => rfl⟩
    · exact ⟨rfl, rfl, id⟩
  | dropSink =>
    unfold Transport.step
    dsimp only
    split <;> exact ⟨rfl, rfl, id⟩
  | writer outcome => cases h

theorem Within.step (h : Within config s) (event : Event) :
    Within config (Transport.step config s event) := by
  cases hevent : event.isWriter with
  | true =>
    cases event with
    | writer outcome => exact h.writer outcome
    | _ => cases hevent
  | false =>
    have halike : Alike s (Transport.step config s event) := alike_step event hevent
    constructor
    · rw [halike.grace]
      exact h.grace
    · rw [halike.writer]
      exact h.place

theorem Within.run (h : Within config s) (events : List Event) :
    Within config (Framework.run (Transport.step config) s events) := by
  induction events generalizing s with
  | nil => exact h
  | cons event events ih => exact ih (h.step event)

/-- Each event of the writer lowers the rank, and no other event raises it. -/
theorem rank_step (h : Within config s) (hexpired : config.lastMoment ≤ s.clock) (event : Event) :
    (Transport.step config s event).rank config ≤ s.rank config - event.isWriter.toNat := by
  cases hevent : event.isWriter with
  | true =>
    cases event with
    | writer outcome =>
      change (writerStep config s outcome).rank config ≤ s.rank config - 1
      by_cases hstopped : s.writer = .stopped
      · have hsame : writerStep config s outcome = s := by
          unfold writerStep
          rw [hstopped]
        rw [hsame, State.rank, hstopped]
        exact Nat.zero_le _
      · have hlower := rank_writer h hexpired hstopped outcome
        omega
    | _ => cases hevent
  | false =>
    have halike : Alike s (Transport.step config s event) := alike_step event hevent
    unfold State.rank
    rw [halike.writer]
    exact rank_claimed config.lastMoment s.writer halike.claimed

theorem rank_run (h : Within config s) (hexpired : config.lastMoment ≤ s.clock) (events : List Event) :
    (Framework.run (Transport.step config) s events).rank config ≤
      s.rank config - events.countP Event.isWriter := by
  induction events generalizing s with
  | nil => exact le_refl _
  | cons event events ih =>
    have hnext : config.lastMoment ≤ (Transport.step config s event).clock := by
      rw [clock_step]
      exact le_trans hexpired (Nat.le_add_right _ _)
    have hstep := rank_step h hexpired event
    have hrest := ih (h.step event) hnext
    rw [run_cons, List.countP_cons]
    cases hevent : event.isWriter <;> simp only [hevent] at hstep ⊢ <;> simp at hstep ⊢ <;> omega

/-- Behind the grace period the writer ends within thirty-three of its own steps, in every order of the
steps of the others. -/
theorem writer_stops {clock : Instant} {before after : List Event}
    (hexpired : config.lastMoment ≤ (run (step config) (.new clock) before).clock)
    (hturns : 33 ≤ after.countP Event.isWriter) :
    (run (step config) (.new clock) (before ++ after)).writer = .stopped := by
  have hnew : Within config (.new clock) := by
    constructor <;> simp [State.new, OutputState.new, WriterPlace.limit?]
  have hrank := rank_run (hnew.run before) hexpired after
  have hle := rank_le config (run (step config) (.new clock) before)
  have hzero : (run (step config) (run (step config) (.new clock) before) after).rank config = 0 := by
    omega
  rw [run_append]
  exact stopped_of_rank hzero

/-- A stream that the engine leaves open. -/
theorem writer_stops_opened :
    (run (step hundred) (.new 0) ((opening ++ [.tick 300000000]) ++ writerSteps 33)).writer = .stopped :=
  writer_stops (by decide +kernel) (by decide)

end Leone.Transport

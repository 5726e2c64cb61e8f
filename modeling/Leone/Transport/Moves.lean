import Leone.Transport.Output

/-!
# What one step of the writer can do

Most steps of the writer read a flag or the clock. The others take a frame, drop it, write a part of
it, count it as written, settle the fallback, or end the loop.
-/

namespace Leone.Transport

open Framework Http

/-- What the writer is about, whatever it has read before: between two frames, with a frame that it
may still drop, with one that it writes up to an offset, behind one that is written but still
counted, at the fallback, or behind its loop. -/
inductive Work
  | looking
  | sorting (frame : Frame)
  | frame (queued : Frame) (offset : Nat)
  | counted (frame : Frame)
  | claimed
  | fallback (response : List UInt8) (offset : Nat)
  | done

def Job.work : Job → Nat → Work
  | .frame queued, offset => .frame queued offset
  | .fallback response, offset => .fallback response offset

def WriterPlace.work : WriterPlace → Work
  | .sort frame _ => .sorting frame
  | .beginFrame frame | .graceFrame frame => .frame frame 0
  | .writing job _ offset | .socket job _ offset | .blocked job _ offset | .failed job offset =>
    job.work offset
  | .wrote job => job.work job.bytes.length
  | .release frame => .counted frame
  | .respond => .claimed
  | .graceFallback response => .fallback response 0
  | .cancel | .cancelRequest | .leave | .stopped => .done
  | _ => .looking

/-- The output, but for the end of the grace period. -/
structure SameOutput (output output' : OutputState) : Prop where
  pendingBytes : output'.pendingBytes = output.pendingBytes
  queueHighWaterBytes : output'.queueHighWaterBytes = output.queueHighWaterBytes
  terminalClaimed : output'.terminalClaimed = output.terminalClaimed
  responseStarted : output'.responseStarted = output.responseStarted
  streaming : output'.streaming = output.streaming
  cancelled : output'.cancelled = output.cancelled

theorem SameOutput.refl (output : OutputState) : SameOutput output output :=
  ⟨rfl, rfl, rfl, rfl, rfl, rfl⟩

theorem sameOutput_setTerminalDeadline (config : Config) (output : OutputState) :
    SameOutput output (output.setTerminalDeadline config).2 := by
  unfold OutputState.setTerminalDeadline
  cases output.terminalDeadline with
  | none => exact ⟨rfl, rfl, rfl, rfl, rfl, rfl⟩
  | some limit => exact .refl output

/-- Why the writer may end its loop between two frames. -/
def State.Ends (s : State) : Prop :=
  s.stop = true ∨ s.output.cancelled = true ∨ s.cancellation = true ∨
    s.sinkOpen = false ∧ s.queue = []

/-- One step of the writer. -/
inductive WriterMove (config : Config) (s : State) : State → Prop
  | look (writer : WriterPlace) (output : OutputState) (hwork : writer.work = s.writer.work)
      (hplace : s.writer.work = .done → writer = s.writer) (houtput : SameOutput s.output output) :
      WriterMove config s { s with output, writer }
  | receive (writer : WriterPlace) (frame : Frame) (rest : List Frame)
      (hqueue : s.queue = frame :: rest) (hbefore : s.writer.work = .looking)
      (hafter : writer.work = .sorting frame) :
      WriterMove config s { s with queue := rest, writer }
  | drop (writer : WriterPlace) (frame : Frame) (hlate : frame.late config = true)
      (hbefore : s.writer.work = .sorting frame) (hafter : writer.work = .looking) :
      WriterMove config s { s with
        output := s.output.release frame.payload.length
        handled := s.handled ++ [(frame, false)]
        writer }
  | keep (writer : WriterPlace) (frame : Frame) (hlate : frame.late config = false)
      (hbefore : s.writer.work = .sorting frame) (hafter : writer.work = .frame frame 0) :
      WriterMove config s { s with writer }
  | transmit (writer : WriterPlace) (job : Job) (offset bytes : Nat)
      (hfits : bytes ≤ job.bytes.length - offset) (hbefore : s.writer.work = job.work offset)
      (hafter : writer.work = job.work (offset + bytes)) :
      WriterMove config s { s with
        socket := s.socket ++ (job.bytes.drop offset).take bytes
        writer }
  | complete (writer : WriterPlace) (job : Job) (offset : Nat) (hfull : job.bytes.length ≤ offset)
      (hbefore : s.writer.work = job.work offset)
      (hafter : writer.work = job.work job.bytes.length) :
      WriterMove config s { s with writer }
  | count (writer : WriterPlace) (frame : Frame)
      (hbefore : s.writer.work = .frame frame frame.payload.length)
      (hafter : writer.work = .counted frame) :
      WriterMove config s { s with
        output := { s.output with responseStarted := true }
        handled := s.handled ++ [(frame, true)]
        writer }
  | release (writer : WriterPlace) (frame : Frame) (hbefore : s.writer.work = .counted frame)
      (hafter : writer.work = .looking) :
      WriterMove config s { s with output := s.output.release frame.payload.length, writer }
  | claim (writer : WriterPlace) (hfree : s.output.terminalClaimed = false)
      (hbefore : s.writer.work = .looking) (hafter : writer.work = .claimed) :
      WriterMove config s { s with
        output := { s.output with terminalClaimed := true }
        fallbackWon := true
        writer }
  | respond (writer : WriterPlace) (hbefore : s.writer.work = .claimed)
      (hafter : writer.work = .fallback (deadlineResponse s.output) 0) :
      WriterMove config s { s with writer }
  | fail (job : Job) (offset : Nat) (hbefore : s.writer.work = job.work offset) :
      WriterMove config s { s with
        output := s.output.recordDeliveryFailed .socketWrite
        writer := .cancel }
  | answered (response : List UInt8) (hbefore : s.writer.work = .fallback response response.length) :
      WriterMove config s { s with
        output := { s.output with responseStarted := true }
        writer := .cancel }
  | expire (hbefore : s.writer.work = .looking) (output : OutputState)
      (houtput : SameOutput s.output output) :
      WriterMove config s { s with output, writer := .cancel }
  | cancel (hbefore : s.writer = .cancel) :
      WriterMove config s { s with output := s.output.cancel, writer := .cancelRequest }
  | cancelRequest (hbefore : s.writer = .cancelRequest) :
      WriterMove config s { s with cancellation := true, writer := .leave }
  | quit (hwhy : s.Ends) (hbefore : s.writer.work = .looking) :
      WriterMove config s { s with writer := .leave }
  | leave (hbefore : s.writer = .leave) :
      WriterMove config s { s with queue := [], receiving := false, writer := .stopped }

variable {config : Config} {s : State}

theorem WriterMove.look_only (writer : WriterPlace) (hbefore : s.writer.work ≠ .done)
    (hwork : writer.work = s.writer.work) : WriterMove config s { s with writer } :=
  .look writer s.output hwork (fun h => absurd h hbefore) (.refl s.output)

theorem Job.work_ne_done (job : Job) (offset : Nat) : job.work offset ≠ .done := by
  cases job <;> simp [Job.work]

theorem work_nothingReceived (late : Bool) : (nothingReceived late).work = .looking := by
  cases late <;> rfl

theorem socketStep_move (job : Job) (limit : Instant) (offset : Nat) (outcome : Outcome)
    (hbefore : s.writer.work = job.work offset) :
    WriterMove config s (socketStep s job limit offset outcome) := by
  have hbusy : s.writer.work ≠ .done := by
    rw [hbefore]
    exact job.work_ne_done offset
  cases outcome with
  | blocked => exact .look_only _ hbusy hbefore.symm
  | failed => exact .look_only _ hbusy hbefore.symm
  | written bytes =>
    cases bytes with
    | zero => exact .look_only _ hbusy hbefore.symm
    | succ bytes => exact .transmit _ job offset _ (min_le_right _ _) hbefore rfl

theorem receiveStep_move (late : Bool) (hbefore : s.writer.work = .looking) :
    WriterMove config s (receiveStep s late) := by
  have hbusy : s.writer.work ≠ .done := by
    rw [hbefore]
    simp
  unfold receiveStep
  split
  · rename_i frame rest hqueue
    exact .receive _ frame rest hqueue hbefore rfl
  · rename_i hqueue
    by_cases hopen : s.sinkOpen = true
    · rw [if_pos hopen]
      apply WriterMove.look_only _ hbusy
      rw [work_nothingReceived, hbefore]
    · rw [if_neg hopen]
      exact .quit (.inr (.inr (.inr ⟨Bool.not_eq_true _ ▸ hopen, hqueue⟩))) hbefore

theorem WriterMove.quit_or {c : Prop} [Decidable c] {next : WriterPlace} (hwhy : c → s.Ends)
    (hbefore : s.writer.work = .looking) (hnext : next.work = .looking) :
    WriterMove config s { s with writer := if c then .leave else next } := by
  by_cases h : c
  · rw [if_pos h]
    exact .quit (hwhy h) hbefore
  · rw [if_neg h]
    apply WriterMove.look_only
    · simp [hbefore]
    · rw [hbefore, hnext]

/-- A step that only asks for the end of the grace period. -/
theorem WriterMove.grace (next : Instant → WriterPlace) (hbefore : s.writer.work ≠ .done)
    (hnext : ∀ limit, (next limit).work = s.writer.work) :
    WriterMove config s { s with
      output := (s.output.setTerminalDeadline config).2
      writer := next (s.output.setTerminalDeadline config).1 } :=
  .look _ _ (hnext _) (fun h => absurd h hbefore) (sameOutput_setTerminalDeadline config s.output)

/-- Every step of the writer is one of these moves. -/
theorem writerStep_move (outcome : Outcome) : WriterMove config s (writerStep config s outcome) := by
  unfold writerStep
  cases hplace : s.writer with
  | poll => exact .look_only _ (by simp [hplace, WriterPlace.work]) (by simp [hplace, WriterPlace.work])
  | checkStop now => exact .quit_or (fun h => .inl h) (by rw [hplace]; rfl) rfl
  | checkOutput now => exact .quit_or (fun h => .inr (.inl h)) (by rw [hplace]; rfl) rfl
  | checkRequest now =>
    apply WriterMove.quit_or _ (by rw [hplace]; rfl) rfl
    intro h
    rw [Bool.and_eq_true] at h
    exact .inr (.inr (.inl h.2))
  | checkDeadline now =>
    apply WriterMove.look_only
    · simp [hplace, WriterPlace.work]
    · split <;> simp [hplace, WriterPlace.work]
  | limit now =>
    dsimp only
    split
    · exact .look_only _ (by simp [hplace, WriterPlace.work]) (by simp [hplace, WriterPlace.work])
    · exact .grace (.wait now) (by simp [hplace, WriterPlace.work])
        (fun _ => by simp [hplace, WriterPlace.work])
  | wait now limit =>
    apply WriterMove.look_only
    · simp [hplace, WriterPlace.work]
    · split <;> simp [hplace, WriterPlace.work]
  | receive => exact receiveStep_move false (by rw [hplace]; rfl)
  | receiveLate => exact receiveStep_move true (by rw [hplace]; rfl)
  | sort frame late =>
    have hbefore : s.writer.work = .sorting frame := by rw [hplace]; rfl
    dsimp only
    split
    · exact .drop _ frame (by assumption) hbefore (work_nothingReceived late)
    · rename_i hlate
      exact .keep _ frame (Bool.not_eq_true _ ▸ hlate) hbefore rfl
  | beginFrame frame =>
    apply WriterMove.look_only
    · simp [hplace, WriterPlace.work]
    · split <;> simp [hplace, WriterPlace.work, Job.work]
  | graceFrame frame =>
    have hbefore : s.writer.work = .frame frame 0 := by rw [hplace]; rfl
    exact .grace (.writing (.frame frame) · 0) (by simp [hbefore]) (fun _ => hbefore.symm)
  | writing job limit offset =>
    have hbefore : s.writer.work = job.work offset := by rw [hplace]; rfl
    have hbusy : s.writer.work ≠ .done := hbefore ▸ job.work_ne_done offset
    dsimp only
    split
    · rename_i hfull
      exact .complete _ job offset hfull hbefore rfl
    · split
      · exact .look_only _ hbusy hbefore.symm
      · exact .look_only _ hbusy hbefore.symm
  | socket job limit offset => exact socketStep_move job limit offset outcome (by rw [hplace]; rfl)
  | blocked job limit offset =>
    have hbefore : s.writer.work = job.work offset := by rw [hplace]; rfl
    apply WriterMove.look_only _ (hbefore ▸ job.work_ne_done offset)
    split <;> exact hbefore.symm
  | failed job offset => exact .fail job offset (by rw [hplace]; rfl)
  | wrote job =>
    cases job with
    | frame frame => exact .count _ frame (by rw [hplace]; rfl) rfl
    | fallback response => exact .answered response (by rw [hplace]; rfl)
  | release frame => exact .release _ frame (by rw [hplace]; rfl) rfl
  | fallback => exact .quit_or (fun h => .inl h) (by rw [hplace]; rfl) rfl
  | fallbackOutput => exact .quit_or (fun h => .inr (.inl h)) (by rw [hplace]; rfl) rfl
  | fallbackClaimed =>
    apply WriterMove.look_only
    · simp [hplace, WriterPlace.work]
    · split <;> simp [hplace, WriterPlace.work]
  | fallbackLimit =>
    have hbefore : s.writer.work = .looking := by rw [hplace]; rfl
    dsimp only
    split
    · exact .expire hbefore _ (sameOutput_setTerminalDeadline config s.output)
    · exact .look _ _ hbefore.symm (fun h => by simp [hbefore] at h)
        (sameOutput_setTerminalDeadline config s.output)
  | claim =>
    have hbefore : s.writer.work = .looking := by rw [hplace]; rfl
    dsimp only
    split
    · exact .look_only _ (by simp [hbefore]) hbefore.symm
    · rename_i hfree
      exact .claim _ (Bool.not_eq_true _ ▸ hfree) hbefore rfl
  | respond => exact .respond _ (by rw [hplace]; rfl) rfl
  | graceFallback response =>
    have hbefore : s.writer.work = .fallback response 0 := by rw [hplace]; rfl
    exact .grace (.writing (.fallback response) · 0) (by simp [hbefore]) (fun _ => hbefore.symm)
  | cancel => exact .cancel hplace
  | cancelRequest => exact .cancelRequest hplace
  | leave => exact .leave hplace
  | stopped => exact .look _ s.output rfl (fun _ => rfl) (.refl s.output)

/-! ## The other parties -/

/-- What the engine does besides `engineStep` leaves the queue and the writer alone. -/
structure Aside (s s' : State) : Prop where
  sent : s'.sent = s.sent
  handled : s'.handled = s.handled
  queue : s'.queue = s.queue
  receiving : s'.receiving = s.receiving
  write : s'.write = s.write ∨ s.write = .idle ∧ ∃ part, s'.write = .check part
  writer : s'.writer = s.writer
  socket : s'.socket = s.socket
  responseStarted : s'.output.responseStarted = s.output.responseStarted
  pendingBytes : s'.output.pendingBytes = s.output.pendingBytes
  queueHighWaterBytes : s'.output.queueHighWaterBytes = s.output.queueHighWaterBytes
  cancelled : s.output.cancelled = true → s'.output.cancelled = true
  cancellation : s.cancellation = true → s'.cancellation = true
  stop : s.stop = true → s'.stop = true
  sinkOpen : s.sinkOpen = false → s'.sinkOpen = false

theorem Aside.refl (s : State) : Aside s s :=
  ⟨rfl, rfl, rfl, rfl, .inl rfl, rfl, rfl, rfl, rfl, rfl, id, id, id, id⟩

theorem aside_write (part : Part) : Aside s (beginWrite s part) := by
  unfold beginWrite
  split
  · rename_i hidle _
    split
    · exact ⟨rfl, rfl, rfl, rfl, .inr ⟨hidle, part, rfl⟩, rfl, rfl, rfl, rfl, rfl, id, id, id, id⟩
    · exact .refl s
  · exact .refl s

theorem aside_begin : Aside s (beginTerminalResponse s) := by
  unfold beginTerminalResponse
  split
  · split
    · exact .refl s
    · split <;> exact ⟨rfl, rfl, rfl, rfl, .inl rfl, rfl, rfl, rfl, rfl, rfl, id, id, id, id⟩
  · exact .refl s

theorem aside_mark : Aside s (markStreaming s) := by
  unfold markStreaming
  split
  · split
    · exact ⟨rfl, rfl, rfl, rfl, .inl rfl, rfl, rfl, rfl, rfl, rfl, id, id, id, id⟩
    · exact .refl s
  · exact .refl s

/-- Every step is one of the writer's, one of a write, or beside both. -/
theorem step_cases (config : Config) (s : State) (event : Event) :
    (∃ outcome, step config s event = writerStep config s outcome) ∨
      step config s event = engineStep config s ∨ Aside s (step config s event) := by
  cases event with
  | writer outcome => exact .inl ⟨outcome, rfl⟩
  | engine => exact .inr (.inl rfl)
  | write part => exact .inr (.inr (aside_write part))
  | beginTerminalResponse => exact .inr (.inr aside_begin)
  | markStreaming => exact .inr (.inr aside_mark)
  | tick time => exact .inr (.inr ⟨rfl, rfl, rfl, rfl, .inl rfl, rfl, rfl, rfl, rfl, rfl, id, id, id, id⟩)
  | cancelOutput =>
    exact .inr (.inr ⟨rfl, rfl, rfl, rfl, .inl rfl, rfl, rfl, rfl, rfl, rfl, fun _ => rfl, id, id, id⟩)
  | disconnect =>
    exact .inr (.inr ⟨rfl, rfl, rfl, rfl, .inl rfl, rfl, rfl, rfl, rfl, rfl, fun _ => rfl, fun _ => rfl, id, id⟩)
  | cancelRequest =>
    exact .inr (.inr ⟨rfl, rfl, rfl, rfl, .inl rfl, rfl, rfl, rfl, rfl, rfl, id, fun _ => rfl, id, id⟩)
  | stop => exact .inr (.inr ⟨rfl, rfl, rfl, rfl, .inl rfl, rfl, rfl, rfl, rfl, rfl, id, id, fun _ => rfl, id⟩)
  | dropSink =>
    right
    right
    unfold Transport.step
    dsimp only
    split
    · exact ⟨rfl, rfl, rfl, rfl, .inl rfl, rfl, rfl, rfl, rfl, rfl, id, id, id, fun _ => rfl⟩
    · exact .refl s

end Leone.Transport

import Leone.Transport.Taken

/-!
# What reaches the socket

The socket holds the frames that were written and what is written of the job at hand. That is the
beginning of one response, whichever side wins the claim.
-/

namespace Leone.Transport

open Framework Http

variable {config : Config} {s s' : State}

/-! ## The parts that were written -/

/-- The bytes of the frames that were written. -/
def State.spelled (s : State) : List UInt8 := spell (s.written.map Frame.part)

theorem thinned_written (handled : List (Frame × Bool))
    (h : ∀ entry ∈ handled, entry.2 = false → entry.1.part.IsChunk) :
    Thinned ((handled.map Prod.fst).map Frame.part)
      (((handled.filter Prod.snd).map Prod.fst).map Frame.part) := by
  induction handled with
  | nil => exact .nil
  | cons entry handled ih =>
    rw [List.forall_mem_cons] at h
    obtain ⟨frame, written⟩ := entry
    cases written with
    | true => exact .keep frame.part (ih h.2)
    | false => exact .drop frame.part (h.1 rfl) (ih h.2)

/-- Frames of the response, of which some chunks are dropped. -/
theorem Ordered.spelled (h : Ordered config s) (hclaims : Claims s) {handled : List (Frame × Bool)}
    (hsent : handled.map Prod.fst <+: s.sent)
    (hjudged : ∀ entry ∈ handled, entry.2 = !entry.1.late config) :
    Thinned ((handled.map Prod.fst).map Frame.part)
        (((handled.filter Prod.snd).map Prod.fst).map Frame.part) ∧
      Spelled (((handled.filter Prod.snd).map Prod.fst).map Frame.part) := by
  have hthinned := thinned_written handled (by
    intro entry hentry hdropped
    apply h.sure entry.1 (hsent.subset (List.mem_map_of_mem hentry))
    have hlate := hjudged entry hentry
    rwa [hdropped, eq_comm, Bool.not_eq_false'] at hlate)
  refine ⟨hthinned, ?_⟩
  have hbegun : (handled.map Prod.fst).map Frame.part <+: s.attempted :=
    (hsent.map Frame.part).trans h.sent
  exact (hclaims.spells.spelled.begun hbegun).thinned hthinned

/-- What is written when the frame at hand is. -/
theorem spelled_frame (hflow : Flow config s) (h : Ordered config s) (hclaims : Claims s)
    {frame : Frame} {offset : Nat} (hwork : s.writer.work = .frame frame offset) :
    Partial (s.spelled ++ frame.payload) := by
  have hsent := hflow.sent (by rw [hwork]; simp)
  rw [hwork] at hsent
  have htaken : (s.handled ++ [(frame, true)]).map Prod.fst <+: s.sent := by
    rw [hsent, List.map_append]
    exact List.prefix_append _ _
  have hspelled := (h.spelled hclaims htaken
    (judged_append hflow.judged (by rw [hflow.kept frame offset hwork]; rfl))).2.isPartial
  simpa [List.filter_append, spell, State.spelled, State.written, Frame.payload] using hspelled

/-! ## The fallback -/

/-- The parts of a response that the engine has not won the claim for. -/
theorem Spells.open {phase : Phase} {parts : List Part} (h : Spells phase parts)
    (hphase : phase.claimed = false) : ∀ part ∈ parts, ¬ part.Closes := by
  cases h with
  | start | marked | lostAll => simp
  | streaming lines chunked chunks hchunks | lost lines chunked chunks hchunks =>
    rw [List.forall_mem_cons]
    refine ⟨id, ?_⟩
    intro part hpart
    have hchunk := hchunks part hpart
    cases part with
    | chunk => exact id
    | head | last | whole => exact hchunk.elim
  | answering | closing | closed | whole => cases hphase

/-- The fallback that the writer chooses completes what it has written. -/
theorem response_deadline (hflow : Flow config s) (h : Ordered config s) (hclaims : Claims s)
    (hwork : s.writer.work = .claimed)
    (hstarted : s.output.responseStarted = true ↔ s.written ≠ []) :
    Response (s.spelled ++ deadlineResponse s.output) := by
  have hengine : s.engineWon = false := by
    have hone := hclaims.one
    rwa [hclaims.settles true (by rw [hwork]; rfl), Bool.and_true] at hone
  obtain ⟨hthinned, hspelled⟩ := h.spelled hclaims hflow.handled hflow.judged
  have hbegun : s.written.map Frame.part ⊆ s.attempted :=
    List.Subset.trans hthinned.subset ((hflow.handled.map Frame.part).trans h.sent).subset
  unfold deadlineResponse
  by_cases hstream : (s.output.streaming && s.output.responseStarted) = true
  · rw [if_pos hstream]
    rw [Bool.and_eq_true] at hstream
    have hopen := hclaims.spells.open (hclaims.phase.symm.trans hengine)
    have hwritten := hstarted.mp hstream.2
    change Spelled (s.written.map Frame.part) at hspelled
    unfold State.spelled
    generalize hparts : s.written.map Frame.part = parts at hspelled hbegun ⊢
    cases hspelled with
    | nothing => exact absurd (List.map_eq_nil_iff.mp hparts) hwritten
    | body lines chunked chunks hchunks => exact response_streamTimeout lines chunked hchunks
    | closed lines chunked chunks _ => exact absurd trivial (hopen .last (hbegun (by simp)))
    | whole response complete =>
      exact absurd trivial (hopen (.whole response complete) (hbegun (by simp)))
  · rw [if_neg hstream]
    have hnone : s.written = [] := by
      by_contra hwritten
      apply hstream
      rw [hstarted.mpr hwritten, Bool.and_true]
      apply hclaims.streaming _ hengine
      intro hnil
      rw [hnil] at hbegun
      exact hwritten (List.map_eq_nil_iff.mp (List.subset_nil.mp hbegun))
    have hempty : s.spelled = [] := by
      rw [State.spelled, hnone]
      rfl
    rw [hempty, List.nil_append]
    exact response_requestTimeout

/-! ## The socket -/

/-- What is written of the job at hand. -/
def Work.transmitted : Work → List UInt8
  | frame queued offset => queued.payload.take offset
  | fallback response offset => response.take offset
  | looking | sorting _ | counted _ | claimed | done => []

@[simp] theorem Job.work_transmitted (job : Job) (offset : Nat) :
    (job.work offset).transmitted = job.bytes.take offset := by
  cases job <;> rfl

/-- Why the writer takes no more frames. -/
def State.Ended (s : State) : Prop :=
  s.writer = .cancel ∨ s.output.cancelled = true ∨
    s.socket = s.spelled ∧ (s.stop = true ∨ s.cancellation = true ∨
      s.sinkOpen = false ∧ s.handled.map Prod.fst = s.sent)

structure Wire (s : State) : Prop where
  started : s.writer.work ≠ .done → (s.output.responseStarted = true ↔ s.written ≠ [])
  socket : s.writer.work ≠ .done → s.socket = s.spelled ++ s.writer.work.transmitted
  fits : ∀ (job : Job) offset, s.writer.work = job.work offset → offset ≤ job.bytes.length
  fallback : ∀ response offset, s.writer.work = .fallback response offset →
    Response (s.spelled ++ response)
  done : s.writer.work = .done → Partial s.socket
  ended : s.writer.work = .done → s.Ended

/-- The socket holds the beginning of a response. -/
theorem Wire.isPartial (h : Wire s) (hflow : Flow config s) (hordered : Ordered config s)
    (hclaims : Claims s) : Partial s.socket := by
  by_cases hdone : s.writer.work = .done
  · exact h.done hdone
  · rw [h.socket hdone]
    have hspelled : Partial s.spelled :=
      (hordered.spelled hclaims hflow.handled hflow.judged).2.isPartial
    cases hwork : s.writer.work with
    | looking | sorting | counted | claimed =>
      rw [Work.transmitted, List.append_nil]
      exact hspelled
    | frame queued offset =>
      apply (spelled_frame hflow hordered hclaims hwork).of_le
      exact List.prefix_append_right_inj _ |>.mpr (List.take_prefix _ _)
    | fallback response offset =>
      apply (h.fallback response offset hwork).isPartial.of_le
      exact List.prefix_append_right_inj _ |>.mpr (List.take_prefix _ _)
    | done => exact absurd hwork hdone

/-- A step between two frames, or in front of the fallback. -/
theorem Wire.moved (h : Wire s) (hbusy : s.writer.work ≠ .done)
    (hstarted : s'.output.responseStarted = s.output.responseStarted)
    (hwritten : s'.written = s.written) (hsocket : s'.socket = s.socket)
    (htransmitted : s'.writer.work.transmitted = s.writer.work.transmitted)
    (hfits : ∀ (job : Job) offset, s'.writer.work = job.work offset → offset ≤ job.bytes.length)
    (hfallback : ∀ response offset, s'.writer.work = .fallback response offset →
      Response (s.spelled ++ response)) (hafter : s'.writer.work ≠ .done) : Wire s' := by
  have hspelled : s'.spelled = s.spelled := by rw [State.spelled, hwritten, State.spelled]
  constructor
  · intro _
    rw [hstarted, hwritten]
    exact h.started hbusy
  · intro _
    rw [hsocket, hspelled, htransmitted]
    exact h.socket hbusy
  · exact hfits
  · rw [hspelled]
    exact hfallback
  · exact fun hdone => absurd hdone hafter
  · exact fun hdone => absurd hdone hafter

/-- A step behind which the writer takes no more frames. -/
theorem Wire.stopped (hdone : s'.writer.work = .done) (hsofar : Partial s'.socket)
    (hended : s'.Ended) : Wire s' := by
  constructor
  · exact fun hbusy => absurd hdone hbusy
  · exact fun hbusy => absurd hdone hbusy
  · intro job offset hwork
    exact absurd (hwork.symm.trans hdone) (job.work_ne_done offset)
  · intro response offset hwork
    rw [hdone] at hwork
    cases hwork
  · exact fun _ => hsofar
  · exact fun _ => hended

/-- Work that is on no job. -/
theorem fits_of_idle {work : Work} (hframe : ∀ queued offset, work ≠ .frame queued offset)
    (hfallback : ∀ response offset, work ≠ .fallback response offset) (job : Job) (offset : Nat) :
    work = job.work offset → offset ≤ job.bytes.length := by
  intro hwork
  cases job with
  | frame queued => exact absurd hwork (hframe queued offset)
  | fallback response => exact absurd hwork (hfallback response offset)

theorem Job.work_injective {job job' : Job} {offset offset' : Nat}
    (h : job.work offset = job'.work offset') : job = job' ∧ offset = offset' := by
  cases job <;> cases job' <;> cases h <;> exact ⟨rfl, rfl⟩

theorem Wire.writer (h : Wire s) (hflow : Flow config s) (hordered : Ordered config s)
    (hclaims : Claims s) (hmove : WriterMove config s s') : Wire s' := by
  have hsofar := h.isPartial hflow hordered hclaims
  cases hmove with
  | look writer output hwork hplace hsame =>
    by_cases hdone : s.writer.work = .done
    · refine Wire.stopped (hwork.trans hdone) hsofar ?_
      have hended := h.ended hdone
      unfold State.Ended at hended ⊢
      rw [hplace hdone, hsame.cancelled]
      exact hended
    · refine h.moved hdone hsame.responseStarted rfl rfl ?_ ?_ ?_ (hwork ▸ hdone)
      · rw [hwork]
      · rw [hwork]
        exact h.fits
      · rw [hwork]
        exact h.fallback
  | receive writer frame rest _ hbefore hafter =>
    refine h.moved (by simp [hbefore]) rfl rfl rfl ?_ ?_ ?_ (by simp [hafter])
    · rw [hbefore, hafter]
      rfl
    · exact fits_of_idle (by simp [hafter]) (by simp [hafter])
    · simp [hafter]
  | drop writer frame _ hbefore hafter =>
    refine h.moved (by simp [hbefore]) rfl ?_ rfl ?_ ?_ ?_ (by simp [hafter])
    · simp [State.written]
    · rw [hbefore, hafter]
      rfl
    · exact fits_of_idle (by simp [hafter]) (by simp [hafter])
    · simp [hafter]
  | keep writer frame _ hbefore hafter =>
    refine h.moved (by simp [hbefore]) rfl rfl rfl ?_ ?_ ?_ (by simp [hafter])
    · rw [hbefore, hafter]
      rfl
    · intro job offset hwork
      have hsame : (Job.frame frame).work 0 = job.work offset := hafter.symm.trans hwork
      obtain ⟨-, rfl⟩ := Job.work_injective hsame
      exact Nat.zero_le _
    · simp [hafter]
  | transmit writer job offset bytes hfits hbefore hafter =>
    have hbusy : s.writer.work ≠ .done := hbefore ▸ job.work_ne_done offset
    have hoffset := h.fits job offset hbefore
    constructor
    · exact fun _ => h.started hbusy
    · intro _
      have hsocket := h.socket hbusy
      rw [hbefore, Job.work_transmitted] at hsocket
      rw [hafter, Job.work_transmitted, List.take_add, ← List.append_assoc]
      change s.socket ++ _ = s.spelled ++ _ ++ _
      rw [hsocket]
    · intro job' offset' hwork
      obtain ⟨rfl, rfl⟩ := Job.work_injective (hafter.symm.trans hwork)
      omega
    · intro response offset' hwork
      rw [hafter] at hwork
      cases job with
      | frame queued => cases hwork
      | fallback =>
        cases hwork
        exact h.fallback response offset hbefore
    · exact fun hdone => absurd (hafter.symm.trans hdone) (job.work_ne_done _)
    · exact fun hdone => absurd (hafter.symm.trans hdone) (job.work_ne_done _)
  | complete writer job offset hfull hbefore hafter =>
    have hoffset : offset = job.bytes.length := le_antisymm (h.fits job offset hbefore) hfull
    refine h.moved (hbefore ▸ job.work_ne_done offset) rfl rfl rfl ?_ ?_ ?_
      (hafter ▸ job.work_ne_done _)
    · rw [hafter, hbefore, hoffset]
    · rw [hafter, ← hoffset, ← hbefore]
      exact h.fits
    · rw [hafter, ← hoffset, ← hbefore]
      exact h.fallback
  | count writer frame hbefore hafter =>
    have hsocket := h.socket (by simp [hbefore])
    constructor
    · simp [State.written]
    · intro _
      change s.socket = _
      rw [hsocket, hbefore, hafter]
      simp [State.spelled, State.written, spell, Work.transmitted, List.filter_append, Frame.payload]
    · exact fits_of_idle (by simp [hafter]) (by simp [hafter])
    · simp [hafter]
    · simp [hafter]
    · simp [hafter]
  | release writer frame hbefore hafter =>
    refine h.moved (by simp [hbefore]) rfl rfl rfl ?_ ?_ ?_ (by simp [hafter])
    · rw [hbefore, hafter]
      rfl
    · exact fits_of_idle (by simp [hafter]) (by simp [hafter])
    · simp [hafter]
  | claim writer _ hbefore hafter =>
    refine h.moved (by simp [hbefore]) rfl rfl rfl ?_ ?_ ?_ (by simp [hafter])
    · rw [hbefore, hafter]
      rfl
    · exact fits_of_idle (by simp [hafter]) (by simp [hafter])
    · simp [hafter]
  | respond writer hbefore hafter =>
    refine h.moved (by simp [hbefore]) rfl rfl rfl ?_ ?_ ?_ (by simp [hafter])
    · rw [hbefore, hafter]
      rfl
    · intro job offset hwork
      have hsame : (Job.fallback (deadlineResponse s.output)).work 0 = job.work offset :=
        hafter.symm.trans hwork
      obtain ⟨-, rfl⟩ := Job.work_injective hsame
      exact Nat.zero_le _
    · intro response offset hwork
      rw [hafter] at hwork
      cases hwork
      exact response_deadline hflow hordered hclaims hbefore (h.started (by simp [hbefore]))
  | fail | answered | expire => exact Wire.stopped rfl hsofar (.inl rfl)
  | cancel => exact Wire.stopped rfl hsofar (.inr (.inl rfl))
  | cancelRequest hbefore =>
    have hended := h.ended (by rw [hbefore]; rfl)
    refine Wire.stopped rfl hsofar ?_
    rcases hended with hplace | hcancelled | ⟨hsocket, -⟩
    · rw [hbefore] at hplace
      cases hplace
    · exact .inr (.inl hcancelled)
    · exact .inr (.inr ⟨hsocket, .inr (.inl rfl)⟩)
  | quit hwhy hbefore =>
    have hsocket := h.socket (by simp [hbefore])
    have hsent := hflow.sent (by simp [hbefore])
    rw [hbefore, Work.transmitted, List.append_nil] at hsocket
    refine Wire.stopped rfl hsofar ?_
    rcases hwhy with hstop | hcancelled | hcancellation | ⟨hshut, hqueue⟩
    · exact .inr (.inr ⟨hsocket, .inl hstop⟩)
    · exact .inr (.inl hcancelled)
    · exact .inr (.inr ⟨hsocket, .inr (.inl hcancellation)⟩)
    · rw [hbefore, hqueue, Work.held, List.append_nil, List.append_nil] at hsent
      exact .inr (.inr ⟨hsocket, .inr (.inr ⟨hshut, hsent.symm⟩)⟩)
  | leave hbefore =>
    have hended := h.ended (by rw [hbefore]; rfl)
    refine Wire.stopped rfl hsofar ?_
    rcases hended with hplace | hended
    · rw [hbefore] at hplace
      cases hplace
    · exact .inr hended

/-- A step that neither takes a frame nor writes. -/
theorem Wire.same (h : Wire s) (hwriter : s'.writer = s.writer) (hhandled : s'.handled = s.handled)
    (hsocket : s'.socket = s.socket)
    (hstarted : s'.output.responseStarted = s.output.responseStarted)
    (hended : s.Ended → s'.Ended) : Wire s' := by
  have hwritten : s'.written = s.written := by rw [State.written, hhandled, State.written]
  have hspelled : s'.spelled = s.spelled := by rw [State.spelled, hwritten, State.spelled]
  constructor
  · rw [hwriter, hstarted, hwritten]
    exact h.started
  · rw [hwriter, hsocket, hspelled]
    exact h.socket
  · rw [hwriter]
    exact h.fits
  · rw [hwriter, hspelled]
    exact h.fallback
  · rw [hwriter, hsocket]
    exact h.done
  · rw [hwriter]
    exact fun hdone => hended (h.ended hdone)

theorem Wire.engine (h : Wire s) (hordered : Ordered config s) : Wire (engineStep config s) := by
  unfold engineStep
  split
  · exact h
  · split <;> exact h.same rfl rfl rfl rfl id
  · split
    · exact h.same rfl rfl rfl rfl id
    · rename_i output houtput
      obtain ⟨rfl, -⟩ := reserve_eq_some houtput
      exact h.same rfl rfl rfl rfl id
  · exact h.same rfl rfl rfl rfl id
  · split <;> exact h.same rfl rfl rfl rfl id
  · exact h.same rfl rfl rfl rfl id
  · rename_i frame hwrite
    split
    · -- a sink that is dropped sends no more frames
      refine h.same rfl rfl rfl rfl (Or.imp_right (Or.imp_right (And.imp_right ?_)))
      refine Or.imp_right (Or.imp_right ?_)
      intro hshut
      have hidle := hordered.shut hshut.1
      rw [hwrite] at hidle
      cases hidle
    · exact h.same rfl rfl rfl rfl id
  · exact h.same rfl rfl rfl rfl id
  · exact h.same rfl rfl rfl rfl (Or.imp_right fun _ => .inl rfl)
  · exact h.same rfl rfl rfl rfl id

theorem Wire.aside (h : Wire s) (haside : Aside s s') : Wire s' := by
  apply h.same haside.writer haside.handled haside.socket haside.responseStarted
  intro hended
  rcases hended with hplace | hcancelled | ⟨hsocket, hwhy⟩
  · exact .inl (haside.writer.trans hplace)
  · exact .inr (.inl (haside.cancelled hcancelled))
  · right
    right
    constructor
    · rw [haside.socket, hsocket, State.spelled, State.spelled, State.written, State.written,
        haside.handled]
    · rcases hwhy with hstop | hcancellation | ⟨hshut, hsent⟩
      · exact .inl (haside.stop hstop)
      · exact .inr (.inl (haside.cancellation hcancellation))
      · exact .inr (.inr ⟨haside.sinkOpen hshut, by rw [haside.handled, haside.sent, hsent]⟩)

theorem Wire.step (h : Wire s) (hflow : Flow config s) (hordered : Ordered config s)
    (hclaims : Claims s) (event : Event) : Wire (step config s event) := by
  rcases step_cases config s event with ⟨outcome, hstep⟩ | hstep | haside
  · rw [hstep]
    exact h.writer hflow hordered hclaims (writerStep_move outcome)
  · rw [hstep]
    exact h.engine hordered
  · exact h.aside haside

end Leone.Transport

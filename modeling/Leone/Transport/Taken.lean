import Leone.Transport.Claims

/-!
# The frames that were taken

The writer takes each frame from the queue once. It drops a frame that was stamped at the deadline or
later, and is done with any other when all of it is written.
-/

namespace Leone.Transport

variable {config : Config} {s s' : State}

/-- The frame that the writer has taken and is not done with. -/
def Work.held : Work → List Frame
  | sorting queued | frame queued _ => [queued]
  | looking | counted _ | claimed | fallback _ _ | done => []

structure Flow (config : Config) (s : State) : Prop where
  sent : s.writer.work ≠ .done → s.sent = s.handled.map Prod.fst ++ s.writer.work.held ++ s.queue
  handled : s.handled.map Prod.fst <+: s.sent
  judged : ∀ entry ∈ s.handled, entry.2 = !entry.1.late config
  kept : ∀ frame offset, s.writer.work = .frame frame offset → frame.late config = false

theorem Flow.of_sent (hsent : s.sent = s.handled.map Prod.fst ++ s.writer.work.held ++ s.queue)
    (hjudged : ∀ entry ∈ s.handled, entry.2 = !entry.1.late config)
    (hkept : ∀ frame offset, s.writer.work = .frame frame offset → frame.late config = false) :
    Flow config s := by
  constructor
  · exact fun _ => hsent
  · rw [hsent, List.append_assoc]
    exact List.prefix_append _ _
  · exact hjudged
  · exact hkept

/-- A step that takes no frame and is done with none. -/
theorem Flow.moved (h : Flow config s) (hbusy : s.writer.work ≠ .done) (hsent : s'.sent = s.sent)
    (hhandled : s'.handled = s.handled) (hqueue : s'.queue = s.queue)
    (hheld : s'.writer.work.held = s.writer.work.held)
    (hkept : ∀ frame offset, s'.writer.work = .frame frame offset →
      ∃ offset', s.writer.work = .frame frame offset') : Flow config s' := by
  apply Flow.of_sent
  · rw [hsent, hhandled, hheld, hqueue]
    exact h.sent hbusy
  · rw [hhandled]
    exact h.judged
  · intro frame offset hwork
    obtain ⟨offset', hwork'⟩ := hkept frame offset hwork
    exact h.kept frame offset' hwork'

/-- A step behind which the writer takes no more frames. -/
theorem Flow.ended (h : Flow config s) (hsent : s'.sent = s.sent) (hhandled : s'.handled = s.handled)
    (hdone : s'.writer.work = .done) : Flow config s' := by
  constructor
  · exact fun hbusy => absurd hdone hbusy
  · rw [hsent, hhandled]
    exact h.handled
  · rw [hhandled]
    exact h.judged
  · intro frame offset hwork
    rw [hdone] at hwork
    cases hwork

theorem judged_append {handled : List (Frame × Bool)} {frame : Frame} {written : Bool}
    (h : ∀ entry ∈ handled, entry.2 = !entry.1.late config) (hframe : written = !frame.late config) :
    ∀ entry ∈ handled ++ [(frame, written)], entry.2 = !entry.1.late config := by
  intro entry hentry
  rcases List.mem_append.mp hentry with hentry | hentry
  · exact h entry hentry
  · rw [List.mem_singleton.mp hentry]
    exact hframe

theorem Flow.writer (h : Flow config s) (hmove : WriterMove config s s') : Flow config s' := by
  cases hmove with
  | look writer output hwork hplace _ =>
    by_cases hdone : s.writer.work = .done
    · exact h.ended rfl rfl (hwork.trans hdone)
    · refine h.moved hdone rfl rfl rfl ?_ ?_
      · rw [hwork]
      · intro frame offset hframe
        exact ⟨offset, hwork ▸ hframe⟩
  | receive writer frame rest hqueue hbefore hafter =>
    have hsent := h.sent (by rw [hbefore]; simp)
    apply Flow.of_sent
    · rw [hafter]
      rw [hbefore, hqueue] at hsent
      simpa [Work.held] using hsent
    · exact h.judged
    · simp [hafter]
  | drop writer frame hlate hbefore hafter =>
    have hsent := h.sent (by rw [hbefore]; simp)
    apply Flow.of_sent
    · rw [hafter]
      rw [hbefore] at hsent
      simpa [Work.held] using hsent
    · exact judged_append h.judged (by rw [hlate]; rfl)
    · simp [hafter]
  | keep writer frame hlate hbefore hafter =>
    apply Flow.of_sent
    · rw [hafter, h.sent (by rw [hbefore]; simp), hbefore]
      rfl
    · exact h.judged
    · intro queued offset hwork
      rw [hafter] at hwork
      cases hwork
      exact hlate
  | transmit writer job offset bytes _ hbefore hafter =>
    refine h.moved (hbefore ▸ job.work_ne_done offset) rfl rfl rfl ?_ ?_
    · rw [hbefore, hafter]
      cases job <;> rfl
    · intro frame offset' hwork
      rw [hafter] at hwork
      cases job with
      | frame queued =>
        cases hwork
        exact ⟨offset, hbefore⟩
      | fallback response => cases hwork
  | complete writer job offset _ hbefore hafter =>
    refine h.moved (hbefore ▸ job.work_ne_done offset) rfl rfl rfl ?_ ?_
    · rw [hbefore, hafter]
      cases job <;> rfl
    · intro frame offset' hwork
      rw [hafter] at hwork
      cases job with
      | frame queued =>
        cases hwork
        exact ⟨offset, hbefore⟩
      | fallback response => cases hwork
  | count writer frame hbefore hafter =>
    have hsent := h.sent (by rw [hbefore]; simp)
    apply Flow.of_sent
    · rw [hafter]
      rw [hbefore] at hsent
      simpa [Work.held] using hsent
    · exact judged_append h.judged (by rw [h.kept frame _ hbefore]; rfl)
    · simp [hafter]
  | release writer frame hbefore hafter =>
    refine h.moved (by rw [hbefore]; simp) rfl rfl rfl ?_ ?_
    · rw [hbefore, hafter]
      rfl
    · simp [hafter]
  | claim writer _ hbefore hafter =>
    refine h.moved (by rw [hbefore]; simp) rfl rfl rfl ?_ ?_
    · rw [hbefore, hafter]
      rfl
    · simp [hafter]
  | respond writer hbefore hafter =>
    refine h.moved (by rw [hbefore]; simp) rfl rfl rfl ?_ ?_
    · rw [hbefore, hafter]
      rfl
    · simp [hafter]
  | fail | answered | expire | cancel | cancelRequest | quit | leave => exact h.ended rfl rfl rfl

theorem Flow.engine (h : Flow config s) : Flow config (engineStep config s) := by
  have hkept : ∀ {output write}, Flow config { s with output, write } := by
    intro output write
    exact ⟨h.sent, h.handled, h.judged, h.kept⟩
  unfold engineStep
  split
  · exact h
  · split <;> exact hkept
  · split <;> exact hkept
  · exact hkept
  · split <;> exact hkept
  · exact hkept
  · split
    · constructor
      · intro hbusy
        simp only [h.sent hbusy, List.append_assoc]
      · exact h.handled.trans (List.prefix_append _ _)
      · exact h.judged
      · exact h.kept
    · exact hkept
  · exact hkept
  · exact hkept
  · exact hkept

/-- A step that changes no queue and no place of the writer. -/
theorem Flow.same (h : Flow config s) (hsent : s'.sent = s.sent) (hhandled : s'.handled = s.handled)
    (hqueue : s'.queue = s.queue) (hwriter : s'.writer = s.writer) : Flow config s' := by
  constructor
  · rw [hsent, hhandled, hqueue, hwriter]
    exact h.sent
  · rw [hsent, hhandled]
    exact h.handled
  · rw [hhandled]
    exact h.judged
  · rw [hwriter]
    exact h.kept

theorem Flow.step (h : Flow config s) (event : Event) : Flow config (step config s event) := by
  rcases step_cases config s event with ⟨outcome, hstep⟩ | hstep | haside
  · rw [hstep]
    exact h.writer (writerStep_move outcome)
  · rw [hstep]
    exact h.engine
  · exact h.same haside.sent haside.handled haside.queue haside.writer

end Leone.Transport

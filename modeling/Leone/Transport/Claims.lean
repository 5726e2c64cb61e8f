import Leone.Transport.Moves
import Leone.Transport.Spelling

/-!
# The claim and the parts

The engine and the writer race for the terminal part, and one of them at most wins. The frames that
the engine has queued are the parts that it has begun to write, in their order.
-/

namespace Leone.Transport

open Framework Http

/-! ## The claim -/

/-- The phases behind a claim that the engine has won. -/
def Phase.claimed : Phase → Bool
  | closing | answering | finished => true
  | _ => false

/-- Whether the writer has won the claim, as far as its place tells. -/
def Work.settles : Work → Option Bool
  | claimed | fallback _ _ => some true
  | done => none
  | _ => some false

structure Claims (s : State) : Prop where
  claimed : s.output.terminalClaimed = (s.engineWon || s.fallbackWon)
  one : (s.engineWon && s.fallbackWon) = false
  phase : s.engineWon = s.phase.claimed
  settles : ∀ won, s.writer.work.settles = some won → s.fallbackWon = won
  marked : s.phase = .marked → s.output.streaming = true
  streaming : s.attempted ≠ [] → s.engineWon = false → s.output.streaming = true
  spells : Spells s.phase s.attempted

variable {config : Config} {s s' : State}

/-- A step that neither claims nor writes a part keeps the claims. -/
theorem Claims.kept (h : Claims s) (hclaimed : s'.output.terminalClaimed = s.output.terminalClaimed)
    (hengine : s'.engineWon = s.engineWon) (hfallback : s'.fallbackWon = s.fallbackWon)
    (hphase : s'.phase = s.phase) (hattempted : s'.attempted = s.attempted)
    (hstreaming : s'.output.streaming = s.output.streaming)
    (hsettles : ∀ won, s'.writer.work.settles = some won → s.writer.work.settles = some won) :
    Claims s' := by
  constructor
  · rw [hclaimed, hengine, hfallback]
    exact h.claimed
  · rw [hengine, hfallback]
    exact h.one
  · rw [hengine, hphase]
    exact h.phase
  · intro won hwon
    rw [hfallback]
    exact h.settles won (hsettles won hwon)
  · rw [hphase, hstreaming]
    exact h.marked
  · rw [hattempted, hengine, hstreaming]
    exact h.streaming
  · rw [hphase, hattempted]
    exact h.spells

theorem Claims.writer (h : Claims s) (hmove : WriterMove config s s') : Claims s' := by
  cases hmove with
  | look writer output hwork _ hsame =>
    refine h.kept hsame.terminalClaimed rfl rfl rfl rfl hsame.streaming ?_
    rw [hwork]
    exact fun _ h => h
  | receive writer frame rest _ hbefore hafter =>
    refine h.kept rfl rfl rfl rfl rfl rfl ?_
    rw [hbefore, hafter]
    exact fun _ h => h
  | drop writer frame _ hbefore hafter =>
    refine h.kept rfl rfl rfl rfl rfl rfl ?_
    rw [hbefore, hafter]
    exact fun _ h => h
  | keep writer frame _ hbefore hafter =>
    refine h.kept rfl rfl rfl rfl rfl rfl ?_
    rw [hbefore, hafter]
    exact fun _ h => h
  | transmit writer job offset bytes _ hbefore hafter =>
    refine h.kept rfl rfl rfl rfl rfl rfl ?_
    rw [hbefore, hafter]
    cases job <;> exact fun _ h => h
  | complete writer job offset _ hbefore hafter =>
    refine h.kept rfl rfl rfl rfl rfl rfl ?_
    rw [hbefore, hafter]
    cases job <;> exact fun _ h => h
  | count writer frame hbefore hafter =>
    refine h.kept rfl rfl rfl rfl rfl rfl ?_
    rw [hbefore, hafter]
    exact fun _ h => h
  | release writer frame hbefore hafter =>
    refine h.kept rfl rfl rfl rfl rfl rfl ?_
    rw [hbefore, hafter]
    exact fun _ h => h
  | claim writer hfree hbefore hafter =>
    have hclaimed := h.claimed
    rw [hfree, eq_comm, Bool.or_eq_false_iff] at hclaimed
    constructor
    · simp
    · simp [hclaimed.1]
    · exact h.phase
    · rw [hafter]
      exact fun won hwon => Option.some.inj hwon
    · exact h.marked
    · exact h.streaming
    · exact h.spells
  | respond writer hbefore hafter =>
    refine h.kept rfl rfl rfl rfl rfl rfl ?_
    rw [hbefore, hafter]
    exact fun _ h => h
  | fail | answered | cancel | cancelRequest | quit | leave =>
    exact h.kept rfl rfl rfl rfl rfl rfl (fun _ h => by cases h)
  | expire _ output hsame =>
    exact h.kept hsame.terminalClaimed rfl rfl rfl rfl hsame.streaming (fun _ h => by cases h)

theorem reserve_eq_some {output output' : OutputState} {bytes : Nat}
    (h : output.reserve config bytes = some output') :
    output' = { output with pendingBytes := output.pendingBytes + bytes } ∧
      output.pendingBytes + bytes ≤ config.maxBytes := by
  unfold OutputState.reserve at h
  cases hadd : checkedAdd 64 output.pendingBytes bytes with
  | none => simp [hadd] at h
  | some next =>
    obtain ⟨-, rfl⟩ := checkedAdd_eq_some.mp hadd
    simp only [hadd] at h
    split at h
    · cases h
    · cases h
      exact ⟨rfl, by omega⟩

theorem Claims.engine (h : Claims s) : Claims (engineStep config s) := by
  unfold engineStep
  split
  · exact h
  · split <;> exact h.kept rfl rfl rfl rfl rfl rfl (fun _ h => h)
  · split
    · exact h.kept rfl rfl rfl rfl rfl rfl (fun _ h => h)
    · rename_i output houtput
      obtain ⟨rfl, -⟩ := reserve_eq_some houtput
      exact h.kept rfl rfl rfl rfl rfl rfl (fun _ h => h)
  · exact h.kept rfl rfl rfl rfl rfl rfl (fun _ h => h)
  · split <;> exact h.kept rfl rfl rfl rfl rfl rfl (fun _ h => h)
  · exact h.kept rfl rfl rfl rfl rfl rfl (fun _ h => h)
  · split <;> exact h.kept rfl rfl rfl rfl rfl rfl (fun _ h => h)
  · exact h.kept rfl rfl rfl rfl rfl rfl (fun _ h => h)
  · exact h.kept rfl rfl rfl rfl rfl rfl (fun _ h => h)
  · exact h.kept rfl rfl rfl rfl rfl rfl (fun _ h => h)

/-- A frame keeps the engine on its side of the claim, and only a marked response begins unclaimed. -/
theorem next_claimed {phase phase' : Phase} {part : Part} (h : phase.next part = some phase') :
    phase'.claimed = phase.claimed ∧ phase' ≠ .marked ∧
      (part.Closes → phase.claimed = true) ∧
      (phase.claimed = false → phase = .marked ∨ phase = .streaming) := by
  cases phase <;> cases part <;> cases h <;> simp [Phase.claimed, Part.Closes]

theorem Claims.write (h : Claims s) (part : Part) : Claims (beginWrite s part) := by
  unfold beginWrite
  split
  · rename_i phase _ hnext
    split
    · obtain ⟨hclaimed, hmarked, -, hunclaimed⟩ := next_claimed hnext
      constructor
      · exact h.claimed
      · exact h.one
      · exact h.phase.trans hclaimed.symm
      · exact h.settles
      · exact fun hphase => absurd hphase hmarked
      · intro _ hlost
        rcases hunclaimed (h.phase ▸ hlost) with hphase | hphase
        · exact h.marked hphase
        · apply h.streaming _ hlost
          exact (hphase ▸ h.spells).begun
      · exact h.spells.next hnext
    · exact h
  · exact h

/-- What a claim finds, and what it leaves when it is lost or won. -/
theorem won_claimed {phase phase' : Phase} {parts : List Part} (h : phase.won = some phase')
    (hspells : Spells phase parts) : phase.claimed = Phase.lost.claimed ∧ phase'.claimed = true ∧
      Spells .lost parts ∧ Spells phase' parts := by
  cases phase with
  | start =>
    cases h
    cases hspells
    exact ⟨rfl, rfl, .lostAll, .answering⟩
  | streaming =>
    cases h
    cases hspells with
    | streaming lines chunked chunks hchunks =>
      exact ⟨rfl, rfl, .lost lines chunked chunks hchunks, .closing lines chunked chunks hchunks⟩
  | marked | closing | answering | finished | lost => cases h

theorem Claims.begin (h : Claims s) : Claims (beginTerminalResponse s) := by
  unfold beginTerminalResponse
  split
  · rename_i phase _ hwon
    split
    · exact h
    · split
      · obtain ⟨hphase, -, hlost, -⟩ := won_claimed hwon h.spells
        constructor
        · exact h.claimed
        · exact h.one
        · exact h.phase.trans hphase
        · exact h.settles
        · exact fun hmarked => by cases hmarked
        · exact h.streaming
        · exact hlost
      · rename_i hfree
        obtain ⟨-, hclaimed, -, hspells⟩ := won_claimed hwon h.spells
        have hnone := h.claimed
        rw [Bool.eq_false_iff.mpr hfree, eq_comm, Bool.or_eq_false_iff] at hnone
        constructor
        · rfl
        · exact hnone.2
        · exact hclaimed.symm
        · exact h.settles
        · intro hmarked
          have hphase : phase = .marked := hmarked
          rw [hphase] at hclaimed
          cases hclaimed
        · exact fun _ hlost => by cases hlost
        · exact hspells
  · exact h

theorem Claims.mark (h : Claims s) : Claims (markStreaming s) := by
  unfold markStreaming
  split
  · rename_i hphase
    split
    · constructor
      · exact h.claimed
      · exact h.one
      · rw [h.phase, hphase]
        rfl
      · exact h.settles
      · exact fun _ => rfl
      · exact fun _ _ => rfl
      · rw [show s.attempted = [] from (hphase ▸ h.spells).unbegun rfl]
        exact .marked
    · exact h
  · exact h

theorem Claims.step (h : Claims s) (event : Event) : Claims (step config s event) := by
  cases event with
  | tick | cancelOutput | disconnect | cancelRequest | stop =>
    exact h.kept rfl rfl rfl rfl rfl rfl (fun _ h => h)
  | markStreaming => exact h.mark
  | write part => exact h.write part
  | engine => exact h.engine
  | beginTerminalResponse => exact h.begin
  | dropSink =>
    unfold Transport.step
    dsimp only
    split
    · exact h.kept rfl rfl rfl rfl rfl rfl (fun _ h => h)
    · exact h
  | writer outcome => exact h.writer (writerStep_move outcome)

/-! ## The frames -/

/-- The part of a write that is not queued yet. -/
def WritePlace.part? : WritePlace → Option Part
  | check part | reserve part | raise part _ | classify part | stamp part => some part
  | send frame => some frame.part
  | idle | undo _ | cancel | record => none

/-- A frame that may be dropped at the deadline is a chunk. -/
def Frame.Sure (config : Config) (frame : Frame) : Prop :=
  frame.late config = true → frame.part.IsChunk

/-- The frames are the parts that were begun, up to a write that was refused. -/
structure Ordered (config : Config) (s : State) : Prop where
  sent : s.sent.map Frame.part <+: s.attempted
  writing : ∀ part, s.write.part? = some part →
    s.write = .check part ∧ s.output.cancelled = true ∨ s.sent.map Frame.part ++ [part] = s.attempted
  idle : s.write = .idle → s.output.cancelled = true ∨ s.sent.map Frame.part = s.attempted
  record : s.write = .record → s.output.cancelled = true
  closes : ∀ part, s.write.part? = some part → part.Closes → s.engineWon = true
  stamped : ∀ part, s.write = .stamp part → ¬ part.Closes
  sure : ∀ frame ∈ s.sent, frame.Sure config
  sending : ∀ frame, s.write = .send frame → frame.Sure config
  shut : s.sinkOpen = false → s.write = .idle

/-- A stream is opened before the deadline. -/
def Timely (config : Config) (s : State) : Event → Prop
  | .engine => ∀ lines chunked, s.write = .stamp (.head lines chunked) → s.clock < config.deadline
  | _ => True

/-- A step that neither writes nor wins a claim keeps the frames. -/
theorem Ordered.kept (h : Ordered config s) (hsent : s'.sent = s.sent)
    (hattempted : s'.attempted = s.attempted) (hwrite : s'.write = s.write)
    (hengine : s.engineWon = true → s'.engineWon = true)
    (hcancelled : s.output.cancelled = true → s'.output.cancelled = true)
    (hopen : s'.sinkOpen = false → s.sinkOpen = false ∨ s.write = .idle) : Ordered config s' := by
  constructor
  · rw [hsent, hattempted]
    exact h.sent
  · intro part hpart
    rw [hwrite] at hpart ⊢
    rw [hsent, hattempted]
    exact (h.writing part hpart).imp_left (And.imp_right hcancelled)
  · intro hidle
    rw [hwrite] at hidle
    rw [hsent, hattempted]
    exact (h.idle hidle).imp_left hcancelled
  · intro hrecord
    rw [hwrite] at hrecord
    exact hcancelled (h.record hrecord)
  · intro part hpart hcloses
    rw [hwrite] at hpart
    exact hengine (h.closes part hpart hcloses)
  · intro part hpart
    rw [hwrite] at hpart
    exact h.stamped part hpart
  · rw [hsent]
    exact h.sure
  · intro frame hframe
    rw [hwrite] at hframe
    exact h.sending frame hframe
  · intro hshut
    rw [hwrite]
    exact (hopen hshut).elim h.shut id

theorem Ordered.writer (h : Ordered config s) (hmove : WriterMove config s s') :
    Ordered config s' := by
  cases hmove with
  | look writer output _ _ hsame =>
    exact h.kept rfl rfl rfl id (fun h => hsame.cancelled ▸ h) .inl
  | expire _ output hsame => exact h.kept rfl rfl rfl id (fun h => hsame.cancelled ▸ h) .inl
  | cancel => exact h.kept rfl rfl rfl id (fun _ => rfl) .inl
  | receive | drop | keep | transmit | complete | count | release | claim | respond | fail | answered
  | cancelRequest | quit | leave => exact h.kept rfl rfl rfl id id .inl

theorem Part.bytes_ne_nil (part : Part) : part.bytes ≠ [] := by
  have hstarts : ∀ {bytes : List UInt8}, Http.ascii "HTTP/1.1 " <+: bytes → bytes ≠ [] := by
    intro bytes hbytes hnil
    rw [hnil, List.prefix_nil] at hbytes
    cases hbytes
  cases part with
  | head lines chunked => exact hstarts lines.starts
  | chunk payload full => simp [Part.bytes, Http.chunk, lineBreak]
  | last => simp [Part.bytes, lastChunk, Http.ascii]
  | whole response complete => exact hstarts complete.starts

/-- A write that goes on without queueing its frame keeps the frames. -/
theorem Ordered.moved (h : Ordered config s) (hsent : s'.sent = s.sent)
    (hattempted : s'.attempted = s.attempted) (hengine : s'.engineWon = s.engineWon)
    (hopen : s'.sinkOpen = s.sinkOpen) (hbusy : s.write ≠ .idle)
    (hpart : ∀ part, s'.write.part? = some part →
      s.write.part? = some part ∧ s.sent.map Frame.part ++ [part] = s.attempted)
    (hidle : s'.write = .idle → s'.output.cancelled = true)
    (hrecord : s'.write = .record → s'.output.cancelled = true)
    (hstamped : ∀ part, s'.write = .stamp part → ¬ part.Closes)
    (hsending : ∀ frame, s'.write = .send frame → frame.Sure config) : Ordered config s' := by
  constructor
  · rw [hsent, hattempted]
    exact h.sent
  · intro part hpart'
    rw [hsent, hattempted]
    exact .inr (hpart part hpart').2
  · exact fun h => .inl (hidle h)
  · exact hrecord
  · intro part hpart' hcloses
    rw [hengine]
    exact h.closes part (hpart part hpart').1 hcloses
  · exact hstamped
  · rw [hsent]
    exact h.sure
  · exact hsending
  · intro hshut
    rw [hopen] at hshut
    exact absurd (h.shut hshut) hbusy

/-- A part that is not queued yet is the last one that was begun, once its write has passed the check. -/
theorem Ordered.next (h : Ordered config s) {part : Part} (hpart : s.write.part? = some part)
    (hpassed : s.write ≠ .check part) : s.sent.map Frame.part ++ [part] = s.attempted :=
  (h.writing part hpart).resolve_left fun hcheck => hpassed hcheck.1

theorem Ordered.engine (h : Ordered config s) (hclaims : Claims s)
    (htimely : Timely config s .engine) : Ordered config (engineStep config s) := by
  unfold engineStep
  cases hwrite : s.write with
  | idle => exact h
  | check part =>
    have hbusy : s.write ≠ .idle := by simp [hwrite]
    have hpart : s.write.part? = some part := by rw [hwrite]; rfl
    dsimp only
    split
    · rename_i hrefused
      have hcancelled := hrefused.resolve_left part.bytes_ne_nil
      refine h.moved rfl rfl rfl rfl hbusy ?_ (fun _ => hcancelled) ?_ ?_ ?_ <;> simp [WritePlace.part?]
    · rename_i hgranted
      rw [not_or] at hgranted
      have hnext := (h.writing part hpart).resolve_left fun h => hgranted.2 h.2
      refine h.moved rfl rfl rfl rfl hbusy ?_ ?_ ?_ ?_ ?_ <;> simp [WritePlace.part?, hwrite, hnext]
  | reserve part =>
    have hbusy : s.write ≠ .idle := by simp [hwrite]
    have hpart : s.write.part? = some part := by rw [hwrite]; rfl
    have hnext := h.next hpart (by simp [hwrite])
    dsimp only
    split
    · refine h.moved rfl rfl rfl rfl hbusy ?_ ?_ ?_ ?_ ?_ <;> simp [WritePlace.part?]
    · refine h.moved rfl rfl rfl rfl hbusy ?_ ?_ ?_ ?_ ?_ <;> simp [WritePlace.part?, hwrite, hnext]
  | raise part next =>
    have hbusy : s.write ≠ .idle := by simp [hwrite]
    have hpart : s.write.part? = some part := by rw [hwrite]; rfl
    have hnext := h.next hpart (by simp [hwrite])
    refine h.moved rfl rfl rfl rfl hbusy ?_ ?_ ?_ ?_ ?_ <;> simp [WritePlace.part?, hwrite, hnext]
  | classify part =>
    have hbusy : s.write ≠ .idle := by simp [hwrite]
    have hpart : s.write.part? = some part := by rw [hwrite]; rfl
    have hnext := h.next hpart (by simp [hwrite])
    dsimp only
    split
    · refine h.moved rfl rfl rfl rfl hbusy ?_ ?_ ?_ ?_ ?_ <;>
        simp [WritePlace.part?, Frame.part, Frame.Sure, Frame.late, hwrite, hnext]
    · rename_i hfree
      refine h.moved rfl rfl rfl rfl hbusy ?_ ?_ ?_ ?_ ?_ <;> simp [WritePlace.part?, hwrite, hnext]
      intro hcloses
      apply hfree
      rw [hclaims.claimed, h.closes part hpart hcloses]
      rfl
  | stamp part =>
    have hbusy : s.write ≠ .idle := by simp [hwrite]
    have hpart : s.write.part? = some part := by rw [hwrite]; rfl
    have hnext := h.next hpart (by simp [hwrite])
    have hsure : (Frame.bytes part s.clock).Sure config := by
      intro hlate
      have hexpired : config.deadline ≤ s.clock := by simpa [Frame.late] using hlate
      have hopen := h.stamped part hwrite
      cases part with
      | head lines chunked => exact absurd hexpired (Nat.not_le.mpr (htimely lines chunked hwrite))
      | chunk payload full => trivial
      | last | whole => exact absurd trivial hopen
    refine h.moved rfl rfl rfl rfl hbusy ?_ ?_ ?_ ?_ ?_ <;>
      simp [WritePlace.part?, Frame.part, hwrite, hnext, hsure]
  | send frame =>
    have hbusy : s.write ≠ .idle := by simp [hwrite]
    have hpart : s.write.part? = some frame.part := by rw [hwrite]; rfl
    have hnext := h.next hpart (by simp [hwrite])
    dsimp only
    split
    · have hsent : (s.sent ++ [frame]).map Frame.part = s.attempted := by
        rw [List.map_append]
        exact hnext
      constructor
      · rw [hsent]
      · exact fun part hpart => by cases hpart
      · exact fun _ => .inr hsent
      · exact fun hrecord => by cases hrecord
      · exact fun part hpart => by cases hpart
      · exact fun part hpart => by cases hpart
      · intro queued hqueued
        rcases List.mem_append.mp hqueued with hqueued | hqueued
        · exact h.sure queued hqueued
        · rw [List.mem_singleton.mp hqueued]
          exact h.sending frame hwrite
      · exact fun queued hqueued => by cases hqueued
      · exact fun _ => rfl
    · refine h.moved rfl rfl rfl rfl hbusy ?_ ?_ ?_ ?_ ?_ <;> simp [WritePlace.part?]
  | undo frame =>
    have hbusy : s.write ≠ .idle := by simp [hwrite]
    refine h.moved rfl rfl rfl rfl hbusy ?_ ?_ ?_ ?_ ?_ <;> simp [WritePlace.part?]
  | cancel =>
    have hbusy : s.write ≠ .idle := by simp [hwrite]
    refine h.moved rfl rfl rfl rfl hbusy ?_ ?_ ?_ ?_ ?_ <;> simp [WritePlace.part?, OutputState.cancel]
  | record =>
    have hbusy : s.write ≠ .idle := by simp [hwrite]
    have hcancelled := h.record hwrite
    refine h.moved rfl rfl rfl rfl hbusy ?_ (fun _ => hcancelled) ?_ ?_ ?_ <;> simp [WritePlace.part?]

theorem Ordered.write (h : Ordered config s) (hclaims : Claims s) (part : Part) :
    Ordered config (beginWrite s part) := by
  unfold beginWrite
  split
  · rename_i phase hwrite hnext
    split
    · rename_i hopen
      obtain ⟨-, -, hcloses, -⟩ := next_claimed hnext
      constructor
      · exact h.sent.trans (List.prefix_append _ _)
      · intro other hother
        cases hother
        rcases h.idle hwrite with hcancelled | hsent
        · exact .inl ⟨rfl, hcancelled⟩
        · exact .inr (by rw [hsent])
      · exact fun hidle => by cases hidle
      · exact fun hrecord => by cases hrecord
      · intro other hother
        cases hother
        exact fun hends => hclaims.phase.trans (hcloses hends)
      · exact fun other hother => by cases hother
      · exact h.sure
      · exact fun frame hframe => by cases hframe
      · intro hshut
        rw [hopen] at hshut
        cases hshut
    · exact h
  · exact h

theorem Ordered.begin (h : Ordered config s) : Ordered config (beginTerminalResponse s) := by
  unfold beginTerminalResponse
  split
  · split
    · exact h
    · split
      · exact h.kept rfl rfl rfl id id .inl
      · exact h.kept rfl rfl rfl (fun _ => rfl) id .inl
  · exact h

theorem Ordered.mark (h : Ordered config s) : Ordered config (markStreaming s) := by
  unfold markStreaming
  split
  · split
    · exact h.kept rfl rfl rfl id id .inl
    · exact h
  · exact h

theorem Ordered.step (h : Ordered config s) (hclaims : Claims s) (event : Event)
    (htimely : Timely config s event) : Ordered config (step config s event) := by
  cases event with
  | tick | cancelRequest | stop => exact h.kept rfl rfl rfl id id .inl
  | cancelOutput | disconnect => exact h.kept rfl rfl rfl id (fun _ => rfl) .inl
  | markStreaming => exact h.mark
  | write part => exact h.write hclaims part
  | engine => exact h.engine hclaims htimely
  | beginTerminalResponse => exact h.begin
  | dropSink =>
    unfold Transport.step
    dsimp only
    split
    · rename_i hidle
      exact h.kept rfl rfl rfl id id (fun _ => .inr hidle)
    · exact h
  | writer outcome => exact h.writer (writerStep_move outcome)

theorem claims_new (clock : Instant) : Claims (.new clock) := by
  constructor
  · rfl
  · rfl
  · rfl
  · exact fun won hwon => Option.some.inj hwon
  · exact fun hmarked => by cases hmarked
  · exact fun hbegun => absurd rfl hbegun
  · exact .start

theorem ordered_new (config : Config) (clock : Instant) : Ordered config (.new clock) := by
  constructor <;> simp [State.new, WritePlace.part?]

end Leone.Transport

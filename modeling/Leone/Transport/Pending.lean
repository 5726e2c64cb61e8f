import Leone.Transport.Taken

/-!
# The bytes that wait

The engine counts the bytes of a frame before it queues it, and the writer takes them back when the
frame is written or dropped. The count covers the frames that wait, and it stays within the limit.
-/

namespace Leone.Transport

open Framework

variable {config : Config} {s s' : State}

/-- The bytes that a write has counted and not queued yet. -/
def WritePlace.reserved : WritePlace → Nat
  | raise part _ | classify part | stamp part => part.bytes.length
  | send frame | undo frame => frame.payload.length
  | idle | check _ | reserve _ | cancel | record => 0

/-- The count that a write has not raised the high-water mark to yet. -/
def WritePlace.unnoted : WritePlace → Nat
  | raise _ next => next
  | _ => 0

/-- The bytes of the frame that the writer has taken and not counted back. -/
def Work.unreleased : Work → Nat
  | sorting queued | frame queued _ | counted queued => queued.payload.length
  | looking | claimed | fallback _ _ | done => 0

@[simp] theorem Job.work_unreleased (job : Job) (offset offset' : Nat) :
    (job.work offset).unreleased = (job.work offset').unreleased := by
  cases job <;> rfl

/-- The bytes of queued frames. -/
def queuedBytes (queue : List Frame) : Nat := (queue.map fun frame => frame.payload.length).sum

structure Pending (config : Config) (s : State) : Prop where
  covered : queuedBytes s.queue + s.writer.work.unreleased + s.write.reserved ≤ s.output.pendingBytes
  exact : s.writer.work ≠ .done →
    s.output.pendingBytes = queuedBytes s.queue + s.writer.work.unreleased + s.write.reserved
  bounded : s.output.pendingBytes ≤ config.maxBytes
  noted : s.output.pendingBytes ≤ max s.output.queueHighWaterBytes s.write.unnoted
  peak : max s.output.queueHighWaterBytes s.write.unnoted ≤ config.maxBytes
  capacity : s.queue.length ≤ config.capacity

theorem pendingBytes_release {output : OutputState} {bytes : Nat} (hle : bytes ≤ output.pendingBytes)
    (hlt : output.pendingBytes < 2 ^ 64) :
    (output.release bytes).pendingBytes = output.pendingBytes - bytes := by
  have hbytes : bytes % 2 ^ 64 = bytes := Nat.mod_eq_of_lt (by omega)
  have hwrap : output.pendingBytes + (2 ^ 64 - bytes) = output.pendingBytes - bytes + 2 ^ 64 := by omega
  rw [OutputState.release, hbytes, hwrap, Nat.add_mod_right]
  exact Nat.mod_eq_of_lt (by omega)

/-- A step of the writer that leaves the counters and the queue alone. -/
theorem Pending.looked (h : Pending config s) (hwrite : s'.write = s.write)
    (hbytes : s'.output.pendingBytes = s.output.pendingBytes)
    (hpeak : s'.output.queueHighWaterBytes = s.output.queueHighWaterBytes)
    (hqueue : s'.queue = s.queue) (hunreleased : s'.writer.work.unreleased ≤ s.writer.work.unreleased)
    (hexact : s'.writer.work ≠ .done → s.writer.work ≠ .done ∧
      s'.writer.work.unreleased = s.writer.work.unreleased) : Pending config s' := by
  constructor
  · have hcovered := h.covered
    rw [hqueue, hwrite, hbytes]
    omega
  · intro hbusy
    obtain ⟨hbefore, hsame⟩ := hexact hbusy
    rw [hqueue, hwrite, hbytes, hsame]
    exact h.exact hbefore
  · rw [hbytes]
    exact h.bounded
  · rw [hbytes, hpeak, hwrite]
    exact h.noted
  · rw [hpeak, hwrite]
    exact h.peak
  · rw [hqueue]
    exact h.capacity

/-- A step of the writer that counts a frame back. -/
theorem Pending.released (h : Pending config s) {frame : Frame} (hwrite : s'.write = s.write)
    (hbytes : s'.output.pendingBytes = (s.output.release frame.payload.length).pendingBytes)
    (hpeak : s'.output.queueHighWaterBytes = s.output.queueHighWaterBytes)
    (hqueue : s'.queue = s.queue) (hbusy : s.writer.work ≠ .done)
    (hbefore : s.writer.work.unreleased = frame.payload.length)
    (hafter : s'.writer.work.unreleased = 0) : Pending config s' := by
  have hcovered := h.covered
  have hexact := h.exact hbusy
  have hbounded := h.bounded
  rw [pendingBytes_release (by omega) (lt_of_le_of_lt hbounded config.maxBytes_lt)] at hbytes
  constructor
  · rw [hqueue, hwrite, hbytes, hafter]
    omega
  · intro _
    rw [hqueue, hwrite, hbytes, hafter]
    omega
  · omega
  · have hnoted := h.noted
    rw [hpeak, hwrite]
    omega
  · rw [hpeak, hwrite]
    exact h.peak
  · rw [hqueue]
    exact h.capacity

theorem Pending.writer (h : Pending config s) (hmove : WriterMove config s s') :
    Pending config s' := by
  cases hmove with
  | look writer output hwork _ hsame =>
    refine h.looked rfl hsame.pendingBytes hsame.queueHighWaterBytes rfl ?_ ?_
    · rw [hwork]
    · intro hbusy
      exact ⟨hwork ▸ hbusy, by rw [hwork]⟩
  | receive writer frame rest hqueue hbefore hafter =>
    have hcovered := h.covered
    have hexact := h.exact (by simp [hbefore])
    have hcapacity := h.capacity
    rw [hqueue, hbefore] at hcovered hexact
    rw [hqueue, List.length_cons] at hcapacity
    simp only [queuedBytes, List.map_cons, List.sum_cons, Work.unreleased] at hcovered hexact
    constructor
    · simp only [queuedBytes, hafter, Work.unreleased]
      omega
    · intro _
      simp only [queuedBytes, hafter, Work.unreleased]
      omega
    · exact h.bounded
    · exact h.noted
    · exact h.peak
    · dsimp only
      omega
  | drop writer frame _ hbefore hafter =>
    exact h.released rfl rfl rfl rfl (by simp [hbefore]) (by rw [hbefore]; rfl) (by rw [hafter]; rfl)
  | release writer frame hbefore hafter =>
    exact h.released rfl rfl rfl rfl (by simp [hbefore]) (by rw [hbefore]; rfl) (by rw [hafter]; rfl)
  | keep writer frame _ hbefore hafter =>
    refine h.looked rfl rfl rfl rfl ?_ ?_ <;> simp [hbefore, hafter, Work.unreleased]
  | transmit writer job offset bytes _ hbefore hafter =>
    have hsame := job.work_unreleased (offset + bytes) offset
    refine h.looked rfl rfl rfl rfl ?_ ?_
    · rw [hbefore, hafter, hsame]
    · exact fun _ => ⟨hbefore ▸ job.work_ne_done offset, by rw [hbefore, hafter, hsame]⟩
  | complete writer job offset _ hbefore hafter =>
    have hsame := job.work_unreleased job.bytes.length offset
    refine h.looked rfl rfl rfl rfl ?_ ?_
    · rw [hbefore, hafter, hsame]
    · exact fun _ => ⟨hbefore ▸ job.work_ne_done offset, by rw [hbefore, hafter, hsame]⟩
  | count writer frame hbefore hafter =>
    refine h.looked rfl rfl rfl rfl ?_ ?_ <;> simp [hbefore, hafter, Work.unreleased]
  | claim writer _ hbefore hafter | respond writer hbefore hafter =>
    refine h.looked rfl rfl rfl rfl ?_ ?_ <;> simp [hbefore, hafter, Work.unreleased]
  | fail | answered | cancel | cancelRequest | quit =>
    exact h.looked rfl rfl rfl rfl (Nat.zero_le _) (fun hbusy => absurd rfl hbusy)
  | expire _ output hsame =>
    exact h.looked rfl hsame.pendingBytes hsame.queueHighWaterBytes rfl (Nat.zero_le _)
      (fun hbusy => absurd rfl hbusy)
  | leave =>
    have hcovered := h.covered
    constructor
    · simp only [queuedBytes, List.map_nil, List.sum_nil, WriterPlace.work, Work.unreleased]
      omega
    · exact fun hbusy => absurd rfl hbusy
    · exact h.bounded
    · exact h.noted
    · exact h.peak
    · exact Nat.zero_le _

/-- A step of a write that keeps what it has counted. -/
theorem Pending.wrote (h : Pending config s) (hqueue : s'.queue = s.queue)
    (hwriter : s'.writer = s.writer) (hbytes : s'.output.pendingBytes = s.output.pendingBytes)
    (hreserved : s'.write.reserved = s.write.reserved)
    (hpeak : max s'.output.queueHighWaterBytes s'.write.unnoted =
      max s.output.queueHighWaterBytes s.write.unnoted) : Pending config s' := by
  constructor
  · rw [hqueue, hwriter, hbytes, hreserved]
    exact h.covered
  · rw [hqueue, hwriter, hbytes, hreserved]
    exact h.exact
  · rw [hbytes]
    exact h.bounded
  · rw [hbytes, hpeak]
    exact h.noted
  · rw [hpeak]
    exact h.peak
  · rw [hqueue]
    exact h.capacity

theorem Pending.engine (h : Pending config s) : Pending config (engineStep config s) := by
  have hcovered := h.covered
  have hbounded := h.bounded
  have hnoted := h.noted
  have hpeak := h.peak
  unfold engineStep
  cases hwrite : s.write with
  | idle => exact h
  | check part =>
    dsimp only
    split <;> exact h.wrote rfl rfl rfl (by rw [hwrite]; rfl) (by rw [hwrite]; rfl)
  | reserve part =>
    dsimp only
    split
    · exact h.wrote rfl rfl rfl (by rw [hwrite]; rfl) (by rw [hwrite]; rfl)
    · rename_i output houtput
      obtain ⟨rfl, hfits⟩ := reserve_eq_some houtput
      rw [hwrite] at hcovered hnoted hpeak
      simp only [WritePlace.reserved, WritePlace.unnoted] at hcovered hnoted hpeak
      constructor
      · simp only [WritePlace.reserved]
        omega
      · intro hbusy
        have hexact := h.exact hbusy
        rw [hwrite] at hexact
        simp only [WritePlace.reserved] at hexact ⊢
        omega
      · exact hfits
      · simp only [WritePlace.unnoted]
        omega
      · simp only [WritePlace.unnoted]
        omega
      · exact h.capacity
  | raise part next =>
    refine h.wrote rfl rfl rfl (by rw [hwrite]; rfl) ?_
    rw [hwrite]
    simp [WritePlace.unnoted]
  | classify part =>
    dsimp only
    split <;> exact h.wrote rfl rfl rfl (by rw [hwrite]; rfl) (by rw [hwrite]; rfl)
  | stamp part => exact h.wrote rfl rfl rfl (by rw [hwrite]; rfl) (by rw [hwrite]; rfl)
  | send frame =>
    dsimp only
    split
    · rename_i hroom
      rw [Bool.and_eq_true, decide_eq_true_iff] at hroom
      have hqueue : queuedBytes (s.queue ++ [frame]) = queuedBytes s.queue + frame.payload.length := by
        simp [queuedBytes]
      rw [hwrite] at hcovered hnoted hpeak
      simp only [WritePlace.reserved, WritePlace.unnoted] at hcovered hnoted hpeak
      constructor
      · simp only [hqueue, WritePlace.reserved]
        omega
      · intro hbusy
        have hexact := h.exact hbusy
        rw [hwrite] at hexact
        simp only [hqueue, WritePlace.reserved] at hexact ⊢
        omega
      · exact hbounded
      · exact hnoted
      · exact hpeak
      · simp only [List.length_append, List.length_singleton]
        omega
    · exact h.wrote rfl rfl rfl (by rw [hwrite]; rfl) (by rw [hwrite]; rfl)
  | undo frame =>
    rw [hwrite] at hcovered hnoted hpeak
    simp only [WritePlace.reserved, WritePlace.unnoted] at hcovered hnoted hpeak
    have hbytes : (s.output.release frame.payload.length).pendingBytes =
        s.output.pendingBytes - frame.payload.length :=
      pendingBytes_release (by omega) (lt_of_le_of_lt hbounded config.maxBytes_lt)
    have hsame : (s.output.release frame.payload.length).queueHighWaterBytes =
        s.output.queueHighWaterBytes := rfl
    constructor
    · simp only [hbytes, WritePlace.reserved]
      omega
    · intro hbusy
      have hexact := h.exact hbusy
      rw [hwrite] at hexact
      simp only [hbytes, WritePlace.reserved] at hexact ⊢
      omega
    · simp only [hbytes]
      omega
    · simp only [hbytes, hsame, WritePlace.unnoted]
      omega
    · simp only [hsame, WritePlace.unnoted]
      omega
    · exact h.capacity
  | cancel => exact h.wrote rfl rfl rfl (by rw [hwrite]; rfl) (by rw [hwrite]; rfl)
  | record => exact h.wrote rfl rfl rfl (by rw [hwrite]; rfl) (by rw [hwrite]; rfl)

theorem Pending.aside (h : Pending config s) (haside : Aside s s') : Pending config s' := by
  apply h.wrote haside.queue haside.writer haside.pendingBytes
  · rcases haside.write with hwrite | ⟨hidle, part, hcheck⟩
    · rw [hwrite]
    · rw [hidle, hcheck]
      rfl
  · rw [haside.queueHighWaterBytes]
    rcases haside.write with hwrite | ⟨hidle, part, hcheck⟩
    · rw [hwrite]
    · rw [hidle, hcheck]
      rfl

theorem Pending.step (h : Pending config s) (event : Event) : Pending config (step config s event) := by
  rcases step_cases config s event with ⟨outcome, hstep⟩ | hstep | haside
  · rw [hstep]
    exact h.writer (writerStep_move outcome)
  · rw [hstep]
    exact h.engine
  · exact h.aside haside

theorem Pending.run (h : Pending config s) (events : List Event) :
    Pending config (Framework.run (Transport.step config) s events) := by
  induction events generalizing s with
  | nil => exact h
  | cons event events ih => exact ih (h.step event)

/-- In every run the bytes that are counted are those of the frames that wait, of the frame that the
writer has taken and of the write under way, as long as the writer takes frames. They never exceed the
limit or, between two writes, the high-water mark. -/
theorem pendingBytes_run (config : Config) (clock : Instant) (events : List Event) :
    Pending config (Framework.run (step config) (.new clock) events) := by
  have hnew : Pending config (.new clock) := by
    constructor <;>
      simp [State.new, OutputState.new, queuedBytes, WriterPlace.work, Work.unreleased,
        WritePlace.reserved, WritePlace.unnoted]
  exact hnew.run events

end Leone.Transport

import Leone.Scheduler.Moves

/-!
# Sequence numbers

As long as every accepted request finds a sequence number, the requests that have not ended carry
pairwise different ones. The invariant asks nothing of the progress of a request, so it also holds
behind a commit that stopped at an exhausted counter.
-/

namespace Leone.Scheduler

open Framework Framework.Method

structure Numbered (s : ContinuousScheduler) : Prop where
  page : 1 ≤ (s.policy.kvPageTokens : Nat)
  keyed : Keyed s
  below : ∀ id state, s.requests.get? id = some state → ¬ state.status.isTerminal →
    state.sequence < s.nextSequence
  distinct : ∀ id id' state state', s.requests.get? id = some state →
    s.requests.get? id' = some state' → ¬ state.status.isTerminal →
    ¬ state'.status.isTerminal → state.sequence = state'.sequence → id = id'
  running : ∀ id, (s.running.get? id).isSome ↔ s.status id = some .running
  reserved : s.reservedKvBytes = s.requests.sumBy RequestState.reservedKvBytes
  terminal : ∀ id state, s.requests.get? id = some state → state.status.isTerminal →
    state.reservedKvBytes = 0

namespace Numbered

variable {s s' : ContinuousScheduler} {id : RequestId} {state state' : RequestState}

theorem new {policy : SchedulerPolicy} (h : ContinuousScheduler.new policy = .ok s) :
    Numbered s := by
  obtain ⟨rfl, hok⟩ := ContinuousScheduler.new_eq_ok h
  exact ⟨hok.page, nofun, nofun, nofun, by simp [ContinuousScheduler.status], rfl, nofun⟩

theorem reserved_le (h : Numbered s) (hget : s.requests.get? id = some state) :
    state.reservedKvBytes ≤ s.reservedKvBytes := by
  rw [h.reserved]
  exact SortedMap.le_sumBy _ hget

theorem running_iff (h : Numbered s) (hget : s.requests.get? id = some state) :
    (s.running.get? id).isSome ↔ state.status = .running := by
  rw [h.running, ContinuousScheduler.status, hget]
  exact Option.some_inj

/-- Statistics and the expired list carry no part of the invariant. -/
theorem congr (h : Numbered s) (hpolicy : s'.policy = s.policy) (hreq : s'.requests = s.requests)
    (hrun : s'.running = s.running) (hres : s'.reservedKvBytes = s.reservedKvBytes)
    (hnext : s'.nextSequence = s.nextSequence) : Numbered s' where
  page := by rw [hpolicy]; exact h.page
  keyed id state := by rw [hreq]; exact h.keyed id state
  below id state := by rw [hreq, hnext]; exact h.below id state
  distinct id id' state state' := by rw [hreq]; exact h.distinct id id' state state'
  running id := by rw [ContinuousScheduler.status, hrun, hreq]; exact h.running id
  reserved := by rw [hres, hreq, h.reserved]
  terminal id state := by rw [hreq]; exact h.terminal id state

/-- What a call may change about one stored request. -/
structure Updates (s s' : ContinuousScheduler) (id : RequestId) (state state' : RequestState) :
    Prop where
  policy : s'.policy = s.policy
  nextSequence : s'.nextSequence = s.nextSequence
  requests : s'.requests = s.requests.insert id state'
  others : ∀ id', id' ≠ id → s'.running.get? id' = s.running.get? id'
  opened : (s'.running.get? id).isSome ↔ state'.status = .running
  spec : state'.spec = state.spec
  sequence : state'.sequence = state.sequence
  live : ¬ state'.status.isTerminal → ¬ state.status.isTerminal
  reserved : s'.reservedKvBytes + state.reservedKvBytes =
    s.reservedKvBytes + state'.reservedKvBytes
  released : state'.status.isTerminal → state'.reservedKvBytes = 0

theorem update (h : Numbered s) (hget : s.requests.get? id = some state)
    (hs : Updates s s' id state state') : Numbered s' := by
  have hself : s'.requests.get? id = some state' := by
    rw [hs.requests, SortedMap.get?_insert_self]
  have hother : ∀ id', id' ≠ id → s'.requests.get? id' = s.requests.get? id' := by
    intro id' hne
    rw [hs.requests, SortedMap.get?_insert_of_ne hne]
  -- Every record of the new state stands for one with its sequence number.
  have hold : ∀ id' record, s'.requests.get? id' = some record → ∃ old,
      s.requests.get? id' = some old ∧ record.spec = old.spec ∧ record.sequence = old.sequence ∧
        (¬ record.status.isTerminal → ¬ old.status.isTerminal) := by
    intro id' record hrecord
    by_cases hid : id' = id
    · subst hid
      obtain rfl := Option.some.inj (hself.symm.trans hrecord)
      exact ⟨state, hget, hs.spec, hs.sequence, hs.live⟩
    · rw [hother id' hid] at hrecord
      exact ⟨record, hrecord, rfl, rfl, fun hlive => hlive⟩
  constructor
  · rw [hs.policy]
    exact h.page
  · intro id' record hrecord
    obtain ⟨old, hold, hspec, -⟩ := hold id' record hrecord
    rw [hspec]
    exact h.keyed id' old hold
  · intro id' record hrecord hlive
    obtain ⟨old, hold, -, hsequence, hlives⟩ := hold id' record hrecord
    rw [hsequence, hs.nextSequence]
    exact h.below id' old hold (hlives hlive)
  · intro id₁ id₂ record₁ record₂ hrecord₁ hrecord₂ hlive₁ hlive₂ heq
    obtain ⟨old₁, hold₁, -, hsequence₁, hlives₁⟩ := hold id₁ record₁ hrecord₁
    obtain ⟨old₂, hold₂, -, hsequence₂, hlives₂⟩ := hold id₂ record₂ hrecord₂
    rw [hsequence₁, hsequence₂] at heq
    exact h.distinct id₁ id₂ old₁ old₂ hold₁ hold₂ (hlives₁ hlive₁) (hlives₂ hlive₂) heq
  · intro id'
    rw [ContinuousScheduler.status]
    by_cases hid : id' = id
    · subst hid
      rw [hself, hs.opened]
      exact Option.some_inj.symm
    · rw [hother id' hid, hs.others id' hid]
      exact h.running id'
  · have hsum := SortedMap.sumBy_insert_add state' RequestState.reservedKvBytes hget
    have hreserved := hs.reserved
    have htotal := h.reserved
    rw [hs.requests]
    omega
  · intro id' record hrecord hterm
    by_cases hid : id' = id
    · subst hid
      obtain rfl := Option.some.inj (hself.symm.trans hrecord)
      exact hs.released hterm
    · rw [hother id' hid] at hrecord
      exact h.terminal id' record hrecord hterm

/-- A new record has ended, or it takes the next sequence number. -/
theorem stored {spec : RequestSpec} (h : Numbered s) (hget : s.requests.get? spec.id = none)
    (hpolicy : s'.policy = s.policy) (hreq : s'.requests = s.requests.insert spec.id state)
    (hrun : s'.running = s.running) (hspec : state.spec = spec) (hnot : state.status ≠ .running)
    (hnumber : ¬ state.status.isTerminal →
      state.sequence = s.nextSequence ∧ s'.nextSequence = s.nextSequence + 1)
    (hnext : s.nextSequence ≤ s'.nextSequence)
    (hres : s'.reservedKvBytes = s.reservedKvBytes + state.reservedKvBytes)
    (hterm : state.status.isTerminal → state.reservedKvBytes = 0) : Numbered s' := by
  have hself : s'.requests.get? spec.id = some state := by
    rw [hreq, SortedMap.get?_insert_self]
  have hother : ∀ id', id' ≠ spec.id → s'.requests.get? id' = s.requests.get? id' := by
    intro id' hne
    rw [hreq, SortedMap.get?_insert_of_ne hne]
  have hcases : ∀ id' record, s'.requests.get? id' = some record →
      id' = spec.id ∧ record = state ∨ s.requests.get? id' = some record := by
    intro id' record hrecord
    by_cases hid : id' = spec.id
    · rw [hid, hself] at hrecord
      exact .inl ⟨hid, (Option.some.inj hrecord).symm⟩
    · exact .inr ((hother id' hid).symm.trans hrecord)
  constructor
  · rw [hpolicy]
    exact h.page
  · intro id' record hrecord
    rcases hcases id' record hrecord with ⟨rfl, rfl⟩ | hold
    · rw [hspec]
    · exact h.keyed id' record hold
  · intro id' record hrecord hlive
    rcases hcases id' record hrecord with ⟨rfl, rfl⟩ | hold
    · obtain ⟨hsequence, hlater⟩ := hnumber hlive
      omega
    · exact (h.below id' record hold hlive).trans_le hnext
  · intro id₁ id₂ record₁ record₂ hrecord₁ hrecord₂ hlive₁ hlive₂ heq
    rcases hcases id₁ record₁ hrecord₁ with ⟨rfl, rfl⟩ | hold₁
    · rcases hcases id₂ record₂ hrecord₂ with ⟨rfl, rfl⟩ | hold₂
      · rfl
      · have hbelow := h.below id₂ record₂ hold₂ hlive₂
        have hsequence := (hnumber hlive₁).1
        omega
    · rcases hcases id₂ record₂ hrecord₂ with ⟨rfl, rfl⟩ | hold₂
      · have hbelow := h.below id₁ record₁ hold₁ hlive₁
        have hsequence := (hnumber hlive₂).1
        omega
      · exact h.distinct id₁ id₂ record₁ record₂ hold₁ hold₂ hlive₁ hlive₂ heq
  · intro id'
    rw [ContinuousScheduler.status, hrun, h.running, ContinuousScheduler.status]
    by_cases hid : id' = spec.id
    · subst hid
      rw [hself, hget]
      simpa using hnot
    · rw [hother id' hid]
  · rw [hreq, SortedMap.sumBy_insert_new _ _ hget, hres, h.reserved]
    omega
  · intro id' record hrecord hended
    rcases hcases id' record hrecord with ⟨rfl, rfl⟩ | hold
    · exact hterm hended
    · exact h.terminal id' record hold hended

theorem prune (h : Numbered s) :
    Numbered { s with requests := s.requests.retain fun _ state => !state.status.isTerminal } := by
  have hkept : ∀ id state, (s.requests.retain fun _ state => !state.status.isTerminal).get? id =
      some state → s.requests.get? id = some state := by
    intro id state hget
    rw [SortedMap.get?_retain, Option.filter_eq_some_iff] at hget
    exact hget.1
  constructor
  · exact h.page
  · exact fun id state hget => h.keyed id state (hkept id state hget)
  · exact fun id state hget => h.below id state (hkept id state hget)
  · exact fun id id' state state' hget hget' =>
      h.distinct id id' state state' (hkept id state hget) (hkept id' state' hget')
  · intro id
    rw [h.running, ContinuousScheduler.status, ContinuousScheduler.status, SortedMap.get?_retain]
    cases hget : s.requests.get? id with
    | none => rfl
    | some state =>
      cases hstatus : state.status <;> simp [Option.filter, hstatus, RequestStatus.isTerminal]
  · show s.reservedKvBytes = _
    rw [SortedMap.sumBy_retain, h.reserved]
    intro id state hget hkeep
    exact h.terminal id state hget (by simpa using hkeep)
  · exact fun id state hget => h.terminal id state (hkept id state hget)

/-! ### Every call keeps the numbers -/

theorem admitReturns {spec : RequestSpec} {nowNs : Nat} {outcome : AdmissionOutcome}
    (h : Numbered s) (hr : AdmitReturns s spec nowNs outcome s') : Numbered s' := by
  obtain ⟨hnone, -, -, hr⟩ := hr
  cases outcome with
  | rejected reason =>
    obtain ⟨-, rfl⟩ := hr
    exact h.stored hnone rfl rfl rfl rfl (by simp [newRecord])
      (by simp [newRecord, RequestStatus.isTerminal]) (Nat.le_succ _) rfl (fun _ => rfl)
  | admitted bytes =>
    obtain ⟨-, rfl⟩ := hr
    exact h.stored hnone rfl rfl rfl rfl (by simp [queuedRecord, newRecord])
      (fun _ => ⟨rfl, rfl⟩) (Nat.le_succ _) rfl
      (by simp [queuedRecord, newRecord, RequestStatus.isTerminal])

theorem admitRequest {spec : RequestSpec} {nowNs : Nat} (h : Numbered s)
    (hroom : AdmissionRoom s spec nowNs) :
    (Scheduler.admitRequest spec nowNs).Ends s (fun _ s' => Numbered s')
      (fun _ s' => Numbered s') := by
  apply (admit_ends spec nowNs h.page).mono (fun _ _ => h.admitReturns)
  intro fault s' hf
  cases hf with
  | duplicate | future => exact h
  | reservation => exact h.congr rfl rfl rfl rfl rfl
  | strandedRejected hnone =>
    exact h.stored hnone rfl rfl rfl rfl (by simp [newRecord])
      (by simp [newRecord, RequestStatus.isTerminal]) le_rfl rfl (fun _ => rfl)
  | strandedQueued bytes hnone hover hadmissible harrived =>
    exact absurd (hroom bytes hadmissible hnone harrived) (not_lt.mpr hover)

theorem expired (h : Numbered s) (hget : s.requests.get? id = some state)
    (hqueued : state.status = .queued) : Numbered (expiredState s id state) := by
  have hle := h.reserved_le hget
  have hidle := h.running_iff hget
  refine h.update hget ⟨rfl, rfl, rfl, fun _ _ => rfl, ?_, rfl, rfl, ?_, ?_, fun _ => rfl⟩
  · show (s.running.get? id).isSome ↔ _
    simp [hidle, hqueued, expiredRecord]
  · simp [hqueued, RequestStatus.isTerminal]
  · show s.reservedKvBytes - state.reservedKvBytes + _ = _ + 0
    omega

theorem started (h : Numbered s) {nowNs : Nat} (hget : s.requests.get? id = some state)
    (hqueued : state.status = .queued) : Numbered (startedState s nowNs id state) := by
  refine h.update hget ⟨rfl, rfl, rfl, fun id' hid' => SortedMap.get?_insert_of_ne hid', ?_, rfl,
    rfl, ?_, rfl, ?_⟩
  · show ((s.running.insert id _).get? id).isSome ↔ _
    rw [SortedMap.get?_insert_self]
    simp [startedRecord]
  · simp [hqueued, RequestStatus.isTerminal]
  · simp [startedRecord, RequestStatus.isTerminal]

theorem completeReturns {emitted progress : Nat} {ready eos : Bool}
    {completion : QuantumCompletion} {dispatch : Dispatch} (h : Numbered s)
    (hr : CompleteReturns s id emitted progress ready eos completion s' dispatch state) :
    Numbered s' := by
  have hget := hr.request
  have hrunning : state.status = .running := by
    rw [← h.running_iff hget, hr.running]
    rfl
  have hle := h.reserved_le hget
  have hstanding := progressedRecord_standing dispatch.kind emitted progress ready state
  rw [hr.state_eq]
  refine h.update hget ⟨rfl, rfl, rfl, fun id' hid' => ?_, ?_, ?_, ?_, ?_, ?_, ?_⟩
  · exact (SortedMap.get?_remove _ _ _).trans (if_neg hid')
  · show ((s.running.remove id).get? id).isSome ↔ _
    rw [SortedMap.get?_remove_self]
    split_ifs <;> simp [committedRecord, settledStatus_ne_running]
  · split_ifs <;> exact hstanding.spec
  · split_ifs <;> exact hstanding.sequence
  · simp [hrunning, RequestStatus.isTerminal]
  · show (if _ then _ else _) + state.reservedKvBytes = _
    split_ifs
    · show s.reservedKvBytes - _ + _ = _ + 0
      rw [committedRecord_reserved]
      omega
    · rw [committedRecord_reserved]
  · intro hterm
    split_ifs at hterm ⊢
    · rfl
    · contradiction

theorem completeFails {emitted progress : Nat} {ready : Bool} {fault : Fault SchedulerError}
    (h : Numbered s) (hf : CompleteFails s id emitted progress ready fault s') :
    fault = .panic ∨ Numbered s' := by
  cases hf with
  | notRunning | invalid | unknown => exact .inr h
  | panic => exact .inl rfl
  | overflow dispatch state state' stats hdispatch hget hvalid hfits hpartly =>
    right
    have hrunning : state.status = .running := by
      rw [← h.running_iff hget, hdispatch]
      rfl
    have hstanding := hpartly.standing
    have hstatus : state'.status = .running := hstanding.status.trans hrunning
    refine h.update hget ⟨rfl, rfl, rfl, fun _ _ => rfl, ?_, hstanding.spec, hstanding.sequence, ?_,
      ?_, ?_⟩
    · show (s.running.get? id).isSome ↔ _
      simp [hdispatch, hstatus]
    · simp [hrunning, RequestStatus.isTerminal]
    · rw [hstanding.reserved]
    · simp [hstatus, RequestStatus.isTerminal]

theorem aborted {dispatch : Dispatch} (h : Numbered s)
    (hdispatch : s.running.get? id = some dispatch) (hget : s.requests.get? id = some state) :
    Numbered (abortedState s id state) := by
  have hle := h.reserved_le hget
  have hrunning : state.status = .running := by
    rw [← h.running_iff hget, hdispatch]
    rfl
  refine h.update hget ⟨rfl, rfl, rfl, fun id' hid' => ?_, ?_, rfl, rfl, ?_, ?_, fun _ => rfl⟩
  · exact (SortedMap.get?_remove _ _ _).trans (if_neg hid')
  · show ((s.running.remove id).get? id).isSome ↔ _
    rw [SortedMap.get?_remove_self]
    simp [abortedRecord]
  · simp [hrunning, RequestStatus.isTerminal]
  · show s.reservedKvBytes - state.reservedKvBytes + _ = _ + 0
    omega

theorem cancelReturns {status : RequestStatus} (h : Numbered s)
    (hget : s.requests.get? id = some state) (hr : CancelReturns s id state status s') :
    Numbered s' := by
  have hle := h.reserved_le hget
  have hidle := h.running_iff hget
  unfold CancelReturns at hr
  split at hr
  · next hqueued =>
    obtain ⟨-, rfl⟩ := hr
    refine h.update hget ⟨rfl, rfl, rfl, fun _ _ => rfl, ?_, rfl, rfl, ?_, ?_, fun _ => rfl⟩
    · show (s.running.get? id).isSome ↔ _
      simp [hidle, hqueued]
    · simp [hqueued, RequestStatus.isTerminal]
    · show s.reservedKvBytes - state.reservedKvBytes + _ = _ + 0
      omega
  · next hrunning =>
    obtain ⟨-, rfl⟩ := hr
    refine h.update hget ⟨rfl, rfl, rfl, fun _ _ => rfl, hidle, rfl, rfl, fun hlive => hlive, rfl,
      ?_⟩
    simp [hrunning, RequestStatus.isTerminal]
  · obtain ⟨-, rfl⟩ := hr
    exact h

end Numbered

/-! ### One dispatch -/

/-- Why a dispatch can refuse. -/
inductive DispatchRefuses (s : ContinuousScheduler) (nowNs limit : Nat) : SchedulerError → Prop
  | inFlight (h : ¬ s.running.isEmpty) : DispatchRefuses s nowNs limit .dispatchInFlight
  | zeroLimit (h : limit = 0) : DispatchRefuses s nowNs limit
      (.invalidPolicy "dispatch batch limit must be nonzero")
  | overflow (hopens : 0 < batchWidth s nowNs limit)
      (h : 2 ^ 64 ≤ s.stats.dispatchedQuanta + batchWidth s nowNs limit) :
      DispatchRefuses s nowNs limit .accountingOverflow

/-- A dispatch selects among the requests that its deadlines leave, and keeps what expiring and
starting one request keeps. -/
theorem dispatchBatch_selects {P : ContinuousScheduler → Prop} {C : Prop} {s : ContinuousScheduler}
    (h : P s) (hkeyed : ∀ s, P s → Keyed s)
    (hexpired : ∀ s id state, P s → s.requests.get? id = some state → state.status = .queued →
      P (expiredState s id state))
    (hstarted : ∀ s nowNs id state, P s → s.requests.get? id = some state →
      state.status = .queued → P (startedState s nowNs id state))
    (hcongr : ∀ s s', P s → s'.policy = s.policy → s'.requests = s.requests →
      s'.running = s.running → s'.reservedKvBytes = s.reservedKvBytes →
      s'.nextSequence = s.nextSequence → P s')
    (hfails : ∀ s id state, P s → s.requests.get? id = some state →
      s.reservedKvBytes < state.reservedKvBytes → C) (nowNs limit : Nat) :
    (dispatchBatch nowNs limit).Ends s
      (fun batch s' => P s' ∧ ∃ expired started, P expired ∧ ExpiredBy (dueIds s nowNs) s expired ∧
        StartedBy nowNs (selectBatchIds expired nowNs (batchLimit s limit)) expired started batch)
      (fun fault s' => (∃ error, fault = .error error ∧ P s' ∧ DispatchRefuses s nowNs limit error) ∨
        fault = .panic ∧ C) := by
  simp only [dispatchBatch, ends_bind, ends_get, ends_ensure]
  refine ⟨fun hidle => ⟨fun hlimit => ?_, fun hlimit => ?_⟩, fun hbusy => ?_⟩
  · rw [expireDeadlines, ends_bind, ends_get]
    refine (forM_expireOne_ends (E := fun fault _ => fault = .panic ∧ C) h hexpired
      (fun s id state _ hP hget hlt => ⟨rfl, hfails s id state hP hget hlt⟩)
      ((hkeyed s h).nodup_dueIds nowNs) ((hkeyed s h).allQueued_dueIds nowNs)).mono ?_
      fun _ _ hf => .inr hf
    intro _ expired hexpire
    obtain ⟨hP, hexpire⟩ := hexpire
    refine (startBatch_ends hP (fun s => hstarted s nowNs)
      ((hkeyed expired hP).nodup_selectBatchIds _ _)
      ((hkeyed expired hP).allQueued_selectBatchIds _ _)).mono ?_ fun _ _ hf => hf.elim
    intro batch started hstart
    obtain ⟨hP', hstart⟩ := hstart
    rw [hexpire.policy] at hstart
    refine (recordBatchDispatch_ends hstart.length_lt).mono ?_ ?_
    · intro _ s' hs'
      rw [hs'.1]
      refine ⟨?_, expired, started, hP, hexpire, hstart⟩
      unfold countedState
      split_ifs
      · exact hP'
      · exact hcongr _ _ hP' rfl rfl rfl rfl rfl
    · intro fault s' hs'
      obtain ⟨rfl, rfl, hbatch, hover⟩ := hs'
      refine .inl ⟨_, rfl, hcongr _ _ hP' rfl rfl rfl rfl rfl, ?_⟩
      have hquanta : started.stats.dispatchedQuanta = s.stats.dispatchedQuanta := by
        rw [hstart.stats, hexpire.stats]
      have hlength := hstart.length_eq (hkeyed s h) hexpire
      rw [hquanta, hlength] at hover
      exact .overflow (hlength ▸ List.length_pos_of_ne_nil hbatch) hover
  · exact .inl ⟨_, rfl, h, .zeroLimit (not_not.mp hlimit)⟩
  · exact .inl ⟨_, rfl, h, .inFlight hbusy⟩

namespace Numbered

variable {s : ContinuousScheduler}

theorem dispatchBatch_ends (h : Numbered s) (nowNs limit : Nat) :
    (dispatchBatch nowNs limit).Ends s
      (fun batch s' => Numbered s' ∧ ∃ expired started, Numbered expired ∧
        ExpiredBy (dueIds s nowNs) s expired ∧
        StartedBy nowNs (selectBatchIds expired nowNs (batchLimit s limit)) expired started batch)
      (fun fault s' => ∃ error, fault = .error error ∧ Numbered s' ∧
        DispatchRefuses s nowNs limit error) := by
  refine (dispatchBatch_selects (C := False) h (fun _ hs => hs.keyed) (fun _ _ _ => expired)
    (fun _ _ _ _ hs => hs.started) (fun _ _ => congr) ?_ nowNs limit).mono (fun _ _ hq => hq) ?_
  · exact fun _ _ _ hs hget hlt => absurd (hs.reserved_le hget) (not_le.mpr hlt)
  · intro fault s' hf
    exact hf.resolve_right fun hpanic => hpanic.2

/-- An accepted request finds a sequence number. -/
def Room (s : ContinuousScheduler) : Call → Prop
  | .admitRequest spec nowNs => AdmissionRoom s spec nowNs
  | _ => True

/-- A call with room that does not panic keeps the numbers. -/
theorem exec (h : Numbered s) (call : Call) (hroom : Room s call) :
    call.exec.Ends s (fun _ s' => Numbered s')
      (fun fault s' => fault = .panic ∨ Numbered s') := by
  cases call with
  | admitRequest spec nowNs =>
    simp only [Call.exec, ends_bind, ends_pure]
    exact (h.admitRequest hroom).mono (fun _ _ hs => hs) fun _ _ hs => .inr hs
  | dispatchBatch nowNs limit =>
    simp only [Call.exec, ends_bind, ends_pure]
    apply (h.dispatchBatch_ends nowNs limit).mono (fun _ _ hs => hs.1)
    intro fault s' hf
    obtain ⟨error, -, hs, -⟩ := hf
    exact .inr hs
  | completeQuantum id emitted eos =>
    simp only [Call.exec, ends_bind, ends_pure]
    apply (completeQuantum_ends s id emitted eos).mono
    · intro completion s' hr
      obtain ⟨dispatch, state, -, hr⟩ := hr
      exact h.completeReturns hr
    · intro fault s' hf
      rcases hf with ⟨rfl, -⟩ | ⟨-, hf⟩
      · exact .inr h
      · exact h.completeFails hf
  | completeQuantumWithProgress id emitted progress ready eos =>
    simp only [Call.exec, ends_bind, ends_pure]
    apply (completeQuantumWithProgress_ends s id emitted progress ready eos).mono
    · intro completion s' hr
      obtain ⟨dispatch, state, hr⟩ := hr
      exact h.completeReturns hr
    · exact fun fault s' hf => h.completeFails hf
  | abortQuantum id =>
    simp only [Call.exec, ends_bind, ends_pure]
    apply (abortQuantum_ends s id).mono
    · intro status s' hr
      obtain ⟨dispatch, state, hdispatch, hget, -, rfl⟩ := hr
      exact h.aborted hdispatch hget
    · intro fault s' hf
      rw [hf.1]
      exact .inr h
  | cancel id =>
    simp only [Call.exec, ends_bind, ends_pure]
    apply (cancel_ends s id).mono
    · intro status s' hr
      obtain ⟨state, hget, hr⟩ := hr
      exact h.cancelReturns hget hr
    · intro fault s' hf
      rw [hf.1]
      exact .inr h
  | takeExpiredDeadlines =>
    simp only [Call.exec, takeExpiredDeadlines, ends_bind, ends_get, ends_set, ends_pure]
    exact h.congr rfl rfl rfl rfl rfl
  | pruneTerminal =>
    simp only [Call.exec, pruneTerminal, ends_bind, ends_modify, ends_pure]
    exact h.prune

/-- A call returns a value or an error. -/
def Returns (s : ContinuousScheduler) (call : Call) : Prop :=
  call.exec.Ends s (fun _ _ => True) (fun fault _ => fault ≠ .panic)

instance (s : ContinuousScheduler) (call : Call) : Decidable (Returns s call) :=
  inferInstanceAs (Decidable (call.exec.Ends s (fun _ _ => True) (fun fault _ => fault ≠ .panic)))

theorem step (h : Numbered s) {call : Call} (hcall : Room s call ∧ Returns s call) :
    Numbered (Scheduler.step s call) := by
  apply Ends.after (P := Numbered)
  apply ((h.exec call hcall.1).and hcall.2).mono (fun _ _ hq => hq.1)
  intro fault s' hf
  exact hf.1.resolve_left hf.2

end Numbered

end Leone.Scheduler

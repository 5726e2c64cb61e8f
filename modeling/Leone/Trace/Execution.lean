import Leone.Trace.Follows
import Leone.Trace.Sources

/-!
# The invariant of an execution

Throughout an execution the scheduler is sound, every record serves the request it was created
for, its output is the beginning of its isolated transcript, and the events so far replay to a
state that agrees with the scheduler. The only fault of an execution is an exhausted counter.
-/

namespace Leone.Trace

open Framework Framework.Method Scheduler

/-- The tokens that a record has received: the first of its isolated transcript. -/
def transcript (sources : SortedMap RequestId ServiceTraceRequest) (id : RequestId)
    (state : RequestState) : Option (List U32) :=
  (sources.get? id).map fun source => source.isolatedTokens.take state.emittedTokens

/-- The invariant of a trace execution. -/
structure TraceOk (trace : ServiceTrace) (ordered : List ServiceTraceRequest)
    (sources : SortedMap RequestId ServiceTraceRequest) (run : TraceRun) : Prop where
  inv : Inv run.scheduler
  policy : run.scheduler.policy = trace.policy
  served : ∀ id state, run.scheduler.requests.get? id = some state →
    ∃ source, sources.get? id = some source ∧ Serves source state
  outputs : ∀ id, run.outputs.get? id =
    (run.scheduler.requests.get? id).bind (transcript sources id)
  pending : run.pending <:+ ordered
  waiting : ∀ request ∈ run.pending, run.scheduler.requests.get? request.spec.id = none
  arrived : ∀ request ∈ ordered, request ∈ run.pending ∨
    ∃ state, run.scheduler.requests.get? request.spec.id = some state
  replayed : ∃ replay, Replays trace.policy.maxReservedKvBytes TraceReplay.default run.events replay ∧
    Matches run.scheduler replay
  overshoot : run.scheduler.stats.maxCancellationOvershootTokens ≤ trace.policy.serviceQuantumTokens

/-- The turns that a request can still take. -/
def recordWork (sources : SortedMap RequestId ServiceTraceRequest) (state : RequestState) : Nat :=
  if state.status.isTerminal then 0
  else 1 + state.remainingPrefillTokens +
    (((sources.get? state.spec.id).map fun source => source.isolatedTokens.length).getD 0 -
      state.emittedTokens)

/-- The turns that a request takes at most, one more to wait for it, and one to spare. -/
def requestWork (request : ServiceTraceRequest) : Nat :=
  3 + request.spec.promptTokens + request.isolatedTokens.length

def backlog (sources : SortedMap RequestId ServiceTraceRequest) (run : TraceRun) : Nat :=
  (run.pending.map requestWork).sum + run.scheduler.requests.sumBy (recordWork sources)

/-- An execution fails only with an accounting overflow. -/
def Overflowed (fault : Fault SchedulerError) (_ : TraceRun) : Prop :=
  fault = .error .accountingOverflow

theorem ends_onScheduler {α : Type} {call : SchedulerM α} {run : TraceRun}
    {Q : α → TraceRun → Prop} {E : Fault SchedulerError → TraceRun → Prop} :
    (onScheduler call).Ends run Q E ↔ call.Ends run.scheduler
      (fun a s => Q a { run with scheduler := s }) (fun e s => E e { run with scheduler := s }) :=
  ends_zoom _ _ _

@[simp] theorem ends_pushEvent {event : ServiceEvent} {run : TraceRun}
    {Q : Unit → TraceRun → Prop} {E : Fault SchedulerError → TraceRun → Prop} :
    (pushEvent event).Ends run Q E ↔ Q () { run with events := run.events ++ [event] } := Iff.rfl

@[simp] theorem ends_markCancelled {id : RequestId} {run : TraceRun}
    {Q : Unit → TraceRun → Prop} {E : Fault SchedulerError → TraceRun → Prop} :
    (markCancelled id).Ends run Q E ↔
      Q () { run with cancellations := run.cancellations.insert id () } := Iff.rfl

section Execution

variable {trace : ServiceTrace} {ordered : List ServiceTraceRequest}
  {sources : SortedMap RequestId ServiceTraceRequest} {run run' : TraceRun}

/-! ## Arrivals -/

/-- What an admission stores, and what it leaves alone. -/
structure Stores (s s' : ContinuousScheduler) (spec : RequestSpec) (record : RequestState) :
    Prop where
  requests : s'.requests = s.requests.insert spec.id record
  running : s'.running = s.running
  policy : s'.policy = s.policy
  overshoot : s'.stats.maxCancellationOvershootTokens = s.stats.maxCancellationOvershootTokens
  emitted : record.emittedTokens = 0
  prefill : record.remainingPrefillTokens ≤ spec.promptTokens

/-- The record of an arriving request serves it. -/
theorem admitReturns_stores {s s' : ContinuousScheduler} {request : ServiceTraceRequest}
    {nowNs : Nat} {outcome : AdmissionOutcome} (hpolicy : PolicyOk s.policy)
    (hr : AdmitReturns s request.spec nowNs outcome s') :
    ∃ record, Stores s s' request.spec record ∧ Serves request record := by
  obtain ⟨-, -, -, hr⟩ := hr
  cases outcome with
  | rejected reason =>
    obtain ⟨-, rfl⟩ := hr
    have hterm : (newRecord s request.spec .rejected 0 0).status.isTerminal := rfl
    refine ⟨newRecord s request.spec .rejected 0 0, ⟨rfl, rfl, rfl, rfl, rfl, Nat.zero_le _⟩, ?_⟩
    refine ⟨rfl, Nat.zero_le _, Nat.zero_le _, fun hlive => absurd hterm hlive,
      fun hlive => absurd hterm hlive, fun _ => rfl, fun hfinished => ?_⟩
    cases hfinished
  | admitted bytes =>
    obtain ⟨ha, rfl⟩ := hr
    have hcovers := le_reservation hpolicy ha.reservation
    refine ⟨queuedRecord s request.spec bytes, ⟨rfl, rfl, rfl, rfl, rfl, Nat.sub_le _ _⟩, ?_⟩
    refine ⟨rfl, Nat.zero_le _, Nat.zero_le _, fun _ => ?_, fun _ => ?_, fun _ => rfl,
      fun hfinished => ?_⟩
    · exact (Nat.le_add_right _ _).trans hcovers
    · exact (Nat.le_add_left _ _).trans hcovers
    · cases hfinished

namespace TraceOk

/-- One arrival is recorded. -/
theorem admitted (h : TraceOk trace ordered sources run) (hsources : SourcesOf ordered sources)
    {request : ServiceTraceRequest} {rest : List ServiceTraceRequest}
    (hpending : run.pending = request :: rest) {nowNs : Nat} {outcome : AdmissionOutcome}
    {s' : ContinuousScheduler} (hr : AdmitReturns run.scheduler request.spec nowNs outcome s') :
    let next : TraceRun := { run with
      scheduler := s'
      events := run.events ++ [ServiceEvent.admission nowNs request.spec.id outcome] }
    TraceOk trace ordered sources (next.arrived request.spec.id rest) ∧
      backlog sources (next.arrived request.spec.id rest) + 2 ≤ backlog sources run := by
  intro next
  obtain ⟨record, hstores, hserves⟩ := admitReturns_stores h.inv.policy hr
  have hinv' := h.inv.admitReturns hr
  have hordered : request ∈ ordered := h.pending.mem (hpending ▸ List.mem_cons_self)
  have hget := (hsources.get?_iff request.spec.id request).mpr ⟨hordered, rfl⟩
  have hfresh := h.waiting request (hpending ▸ List.mem_cons_self)
  have hnodup : request.spec.id ∉ rest.map fun request => request.spec.id := by
    have hsub : ((request :: rest).map fun request => request.spec.id).Nodup :=
      hsources.nodup.sublist ((hpending ▸ h.pending).sublist.map _)
    exact (List.nodup_cons.mp hsub).1
  have hrecord (id : RequestId) : s'.requests.get? id =
      if id = request.spec.id then some record else run.scheduler.requests.get? id := by
    rw [hstores.requests, SortedMap.get?_insert]
  have hrest : ∀ other ∈ rest, other.spec.id ≠ request.spec.id := fun other hother hid =>
    hnodup (hid ▸ List.mem_map_of_mem hother)
  refine ⟨⟨hinv', hstores.policy.trans h.policy, fun id state hstate => ?_, fun id => ?_, ?_,
    fun other hother => ?_, fun other hother => ?_, ?_, ?_⟩, ?_⟩
  · change s'.requests.get? id = some state at hstate
    rw [hrecord] at hstate
    split_ifs at hstate with hid
    · cases hstate
      exact ⟨request, hid ▸ hget, hserves⟩
    · exact h.served id state hstate
  · have hnone : run.outputs.contains request.spec.id = false := by
      rw [SortedMap.contains, h.outputs, hfresh]
      rfl
    change (if run.outputs.contains request.spec.id then run.outputs
      else run.outputs.insert request.spec.id []).get? id = _
    rw [hnone, if_neg Bool.false_ne_true, SortedMap.get?_insert]
    change _ = (s'.requests.get? id).bind _
    rw [hrecord]
    split_ifs with hid
    · rw [Option.bind_some, transcript, hid, hget, hstores.emitted]
      rfl
    · exact h.outputs id
  · have hsuffix : request :: rest <:+ ordered := hpending ▸ h.pending
    exact (List.suffix_cons request rest).trans hsuffix
  · change s'.requests.get? other.spec.id = none
    rw [hrecord, if_neg (hrest other hother)]
    exact h.waiting other (hpending ▸ List.mem_cons_of_mem _ hother)
  · change other ∈ rest ∨ ∃ state, s'.requests.get? other.spec.id = some state
    rw [hrecord]
    split_ifs with hid
    · exact .inr ⟨record, rfl⟩
    · rcases h.arrived other hother with hmem | hknown
      · rw [hpending] at hmem
        rcases List.mem_cons.mp hmem with heq | hmem
        · exact absurd (heq ▸ rfl) hid
        · exact .inl hmem
      · exact .inr hknown
  · obtain ⟨replay, hreplays, hmatches⟩ := h.replayed
    obtain ⟨replay', hstep, hmatches'⟩ := hmatches.admission h.inv hr
    refine ⟨replay', hreplays.snoc hstep ?_, hmatches'⟩
    rw [hmatches'.reserved, ← h.policy, ← hstores.policy]
    exact hinv'.capacity
  · exact hstores.overshoot ▸ h.overshoot
  · have hwork : recordWork sources record ≤
        1 + request.spec.promptTokens + request.isolatedTokens.length := by
      have hprefill := hstores.prefill
      unfold recordWork
      rw [hserves.spec, hget]
      split_ifs
      · exact Nat.zero_le _
      · simp only [Option.map_some, Option.getD_some]
        omega
    have hsum := SortedMap.sumBy_insert_new record (recordWork sources) hfresh
    change (rest.map requestWork).sum + s'.requests.sumBy (recordWork sources) + 2 ≤ _
    rw [hstores.requests, hsum, backlog, hpending, List.map_cons, List.sum_cons, requestWork]
    omega

end TraceOk

theorem admitFails_overflowed {s s' : ContinuousScheduler} {spec : RequestSpec} {nowNs : Nat}
    {fault : Fault SchedulerError} (h : AdmitFails s spec nowNs fault s')
    (hfresh : s.requests.get? spec.id = none) (harrived : (spec.arrivalNs : Nat) ≤ nowNs) :
    fault = .error .accountingOverflow := by
  cases h with
  | duplicate hdup => simp [SortedMap.contains, hfresh] at hdup
  | future hlate => omega
  | reservation | strandedRejected | strandedQueued => rfl

/-- No request that has arrived is still waiting. -/
def AllArrived (nowNs : Nat) (run : TraceRun) : Prop :=
  ∀ head ∈ run.pending.head?, nowNs < head.spec.arrivalNs

theorem admitTraceArrivals_ends (hsources : SourcesOf ordered sources) (nowNs : Nat)
    (h : TraceOk trace ordered sources run) (hidle : run.scheduler.running.isEmpty) :
    (admitTraceArrivals nowNs run.pending).Ends run
      (fun _ run' => TraceOk trace ordered sources run' ∧ run'.scheduler.running.isEmpty ∧
        run'.now = run.now ∧ AllArrived nowNs run' ∧
        (backlog sources run' + 2 ≤ backlog sources run ∨
          run'.pending = run.pending ∧ backlog sources run' ≤ backlog sources run)) Overflowed := by
  generalize hlist : run.pending = pending
  induction pending generalizing run with
  | nil =>
    refine ⟨h, hidle, rfl, fun head hhead => ?_, .inr ⟨hlist, le_rfl⟩⟩
    rw [hlist] at hhead
    cases hhead
  | cons request rest ih =>
    rw [admitTraceArrivals, ends_ite]
    constructor
    · intro harrived
      have hfresh := h.waiting request (hlist ▸ List.mem_cons_self)
      simp only [ends_bind, ends_onScheduler, ends_pushEvent, ends_modify]
      apply (admit_ends request.spec nowNs h.inv.policy.page).mono
      · intro outcome s' hr
        obtain ⟨hok, hless⟩ := h.admitted hsources hlist hr
        have hstill : s'.running = run.scheduler.running := by
          obtain ⟨_, hstores, -⟩ := admitReturns_stores h.inv.policy hr
          exact hstores.running
        apply (ih hok (hstill ▸ hidle) rfl).mono
        · intro _ run' hrun
          obtain ⟨hok', hidle', hnow, harrived', hwork⟩ := hrun
          refine ⟨hok', hidle', hnow, harrived', .inl ?_⟩
          omega
        · exact fun _ _ hfault => hfault
      · exact fun fault s' hfails => admitFails_overflowed hfails hfresh harrived
    · intro hlate
      refine ⟨h, hidle, rfl, fun head hhead => ?_, .inr ⟨hlist, le_rfl⟩⟩
      rw [hlist, List.head?_cons, Option.mem_some_iff] at hhead
      subst hhead
      exact not_le.mp hlate

/-! ## Cancellations -/

/-- What a cancellation does to one record. -/
inductive Asked (state : RequestState) : RequestState → Prop
  | kept : Asked state state
  | ended (h : state.status = .queued) :
      Asked state { state with status := .cancelled, reservedKvBytes := 0 }
  | flagged (h : state.status = .running) :
      Asked state { state with cancellationRequested := true }

theorem Asked.trans {state state' state'' : RequestState} (h : Asked state state')
    (h' : Asked state' state'') : Asked state state'' := by
  cases h with
  | kept => exact h'
  | ended hqueued =>
    cases h' with
    | kept => exact .ended hqueued
    | ended hagain => cases hagain
    | flagged hrunning => cases hrunning
  | flagged hrunning =>
    cases h' with
    | kept => exact .flagged hrunning
    | ended hqueued => exact absurd (hrunning.symm.trans hqueued) (by simp)
    | flagged => exact .flagged hrunning

theorem Asked.serves {source : ServiceTraceRequest} {state state' : RequestState}
    (h : Asked state state') (hserves : Serves source state) : Serves source state' := by
  cases h with
  | kept => exact hserves
  | ended hqueued =>
    refine ⟨hserves.spec, hserves.emitted_le, hserves.emitted_le_max, fun hlive => ?_,
      fun hlive => ?_, fun hagain => ?_, fun hfinished => ?_⟩
    · exact absurd rfl hlive
    · exact absurd rfl hlive
    · cases hagain
    · cases hfinished
  | flagged hrunning =>
    refine ⟨hserves.spec, hserves.emitted_le, hserves.emitted_le_max, hserves.covers_prefill,
      hserves.covers_decode, fun hqueued => ?_, hserves.finished⟩
    exact absurd (hrunning.symm.trans hqueued) (by simp)

theorem Asked.emittedTokens {state state' : RequestState} (h : Asked state state') :
    state'.emittedTokens = state.emittedTokens := by
  cases h <;> rfl

theorem Asked.recordWork_le {state state' : RequestState} (h : Asked state state') :
    recordWork sources state' ≤ recordWork sources state := by
  cases h with
  | kept | flagged => exact le_rfl
  | ended => exact Nat.zero_le _

/-- What a round of cancellations leaves alone. -/
structure CancelFrame (run run' : TraceRun) : Prop where
  pending : run'.pending = run.pending
  now : run'.now = run.now
  outputs : run'.outputs = run.outputs
  running : run'.scheduler.running = run.scheduler.running
  records : ∀ id, Option.Rel Asked (run.scheduler.requests.get? id)
    (run'.scheduler.requests.get? id)

theorem asked_refl (record : Option RequestState) : Option.Rel Asked record record := by
  cases record with
  | none => exact .none
  | some state => exact .some .kept

theorem asked_trans {first second third : Option RequestState} (h : Option.Rel Asked first second)
    (h' : Option.Rel Asked second third) : Option.Rel Asked first third := by
  cases h with
  | none => exact h'
  | some hasked =>
    cases h' with
    | some hasked' => exact .some (hasked.trans hasked')

theorem CancelFrame.refl (run : TraceRun) : CancelFrame run run :=
  ⟨rfl, rfl, rfl, rfl, fun _ => asked_refl _⟩

theorem CancelFrame.trans {run'' : TraceRun} (h : CancelFrame run run')
    (h' : CancelFrame run' run'') : CancelFrame run run'' := by
  exact ⟨h'.pending.trans h.pending, h'.now.trans h.now, h'.outputs.trans h.outputs,
    h'.running.trans h.running, fun id => asked_trans (h.records id) (h'.records id)⟩

theorem CancelFrame.backlog_le (h : CancelFrame run run') :
    backlog sources run' ≤ backlog sources run := by
  rw [backlog, backlog, h.pending]
  apply Nat.add_le_add_left
  apply SortedMap.sumBy_le_sumBy
  intro id
  have hrecord := h.records id
  rw [SortedMap.share, SortedMap.share]
  generalize run.scheduler.requests.get? id = record at hrecord ⊢
  generalize run'.scheduler.requests.get? id = record' at hrecord ⊢
  cases hrecord with
  | none => exact le_rfl
  | some hasked => exact hasked.recordWork_le

/-- One record is replaced by one that still serves its request. -/
theorem TraceOk.replaced (h : TraceOk trace ordered sources run) {id : RequestId}
    {state state' : RequestState} (hget : run.scheduler.requests.get? id = some state)
    (hserves : ∀ source, sources.get? id = some source → Serves source state →
      Serves source state') (hinv : Inv run'.scheduler)
    (hreq : run'.scheduler.requests = run.scheduler.requests.insert id state')
    (hpolicy : run'.scheduler.policy = run.scheduler.policy)
    (hover : run'.scheduler.stats.maxCancellationOvershootTokens ≤
      trace.policy.serviceQuantumTokens)
    (hpending : run'.pending = run.pending)
    (houtputs : ∀ id', run'.outputs.get? id' =
      if id' = id then transcript sources id state' else run.outputs.get? id')
    (hreplayed : ∃ replay, Replays trace.policy.maxReservedKvBytes TraceReplay.default run'.events
      replay ∧ Matches run'.scheduler replay) : TraceOk trace ordered sources run' := by
  have hrecord (id' : RequestId) : run'.scheduler.requests.get? id' =
      if id' = id then some state' else run.scheduler.requests.get? id' := by
    rw [hreq, SortedMap.get?_insert]
  refine ⟨hinv, hpolicy.trans h.policy, fun id' other hother => ?_, fun id' => ?_,
    hpending ▸ h.pending, fun request hrequest => ?_, fun request hrequest => ?_, hreplayed, hover⟩
  · rw [hrecord] at hother
    split_ifs at hother with hid
    · cases hother
      obtain ⟨source, hsource, hold⟩ := h.served id state hget
      exact ⟨source, hid ▸ hsource, hserves source hsource hold⟩
    · exact h.served id' other hother
  · rw [houtputs, hrecord]
    split_ifs with hid
    · rw [hid, Option.bind_some]
    · exact h.outputs id'
  · have hnone := h.waiting request (hpending ▸ hrequest)
    rw [hrecord, if_neg, hnone]
    intro hid
    rw [hid, hget] at hnone
    cases hnone
  · rw [hpending, hrecord]
    split_ifs with hid
    · exact .inr ⟨state', rfl⟩
    · exact h.arrived request hrequest

/-- One request is asked to stop, and the event is recorded. -/
theorem TraceOk.asked (h : TraceOk trace ordered sources run) {id : RequestId}
    {state state' : RequestState} (hget : run.scheduler.requests.get? id = some state)
    (hasked : Asked state state') (hinv : Inv run'.scheduler)
    (hreq : run'.scheduler.requests = run.scheduler.requests.insert id state')
    (hpolicy : run'.scheduler.policy = run.scheduler.policy)
    (hover : run'.scheduler.stats.maxCancellationOvershootTokens =
      run.scheduler.stats.maxCancellationOvershootTokens)
    (hpending : run'.pending = run.pending) (houtputs : run'.outputs = run.outputs)
    (hreplayed : ∃ replay, Replays trace.policy.maxReservedKvBytes TraceReplay.default run'.events
      replay ∧ Matches run'.scheduler replay) : TraceOk trace ordered sources run' := by
  refine h.replaced hget (fun _ _ hold => hasked.serves hold) hinv hreq hpolicy
    (hover.le.trans h.overshoot) hpending (fun id' => ?_) hreplayed
  rw [houtputs]
  split_ifs with hid
  · rw [hid, h.outputs, hget, Option.bind_some, transcript, transcript, hasked.emittedTokens]
  · rfl

theorem asked_records {s s' : ContinuousScheduler} {id : RequestId} {state state' : RequestState}
    (hget : s.requests.get? id = some state) (hasked : Asked state state')
    (hreq : s'.requests = s.requests.insert id state') (id' : RequestId) :
    Option.Rel Asked (s.requests.get? id') (s'.requests.get? id') := by
  rw [hreq, SortedMap.get?_insert]
  split_ifs with hid
  · rw [hid, hget]
    exact .some hasked
  · exact asked_refl _

theorem applyCancellation_ends (throughNs : Nat) (source : ServiceTraceRequest)
    (h : TraceOk trace ordered sources run) :
    (applyCancellation throughNs source).Ends run
      (fun _ run' => TraceOk trace ordered sources run' ∧ CancelFrame run run')
      (fun _ _ => False) := by
  have hmarked : TraceOk trace ordered sources
      { run with cancellations := run.cancellations.insert source.spec.id () } :=
    ⟨h.inv, h.policy, h.served, h.outputs, h.pending, h.waiting, h.arrived, h.replayed, h.overshoot⟩
  unfold applyCancellation
  cases source.cancelAtNs with
  | none => exact ⟨h, .refl run⟩
  | some atNs =>
    simp only [ends_bind, ends_get, ends_ite]
    refine ⟨fun _ => ⟨h, .refl run⟩, fun _ => ?_⟩
    cases hstatus : run.scheduler.status source.spec.id with
    | none => exact ⟨h, .refl run⟩
    | some status =>
      obtain ⟨state, hget, hstate⟩ := Option.map_eq_some_iff.mp hstatus
      subst hstate
      simp only [ends_ite, ends_markCancelled, ends_bind, ends_onScheduler, ends_pushEvent]
      refine ⟨fun _ => ⟨hmarked, rfl, rfl, rfl, rfl, fun _ => asked_refl _⟩, fun hlive => ?_⟩
      obtain ⟨replay, hreplays, hmatches⟩ := h.replayed
      apply ((cancel_ends run.scheduler source.spec.id).and (h.inv.cancel source.spec.id)).mono
      · intro status s' hcancel
        obtain ⟨⟨state', hget', hr⟩, hinv'⟩ := hcancel
        rw [hget] at hget'
        cases hget'
        unfold CancelReturns at hr
        split at hr
        · rename_i hqueued
          obtain ⟨-, rfl⟩ := hr
          obtain ⟨replay', hstep, hmatches'⟩ :=
            hmatches.cancelled h.inv.toCoherent atNs hget hqueued
          have hasked := Asked.ended hqueued
          refine ⟨h.asked hget hasked hinv' rfl rfl rfl rfl rfl ⟨replay', ?_, hmatches'⟩,
            rfl, rfl, rfl, rfl, asked_records hget hasked rfl⟩
          rw [hqueued]
          refine hreplays.snoc hstep ?_
          rw [hmatches'.reserved, ← h.policy]
          exact hinv'.capacity
        · rename_i hrunning
          obtain ⟨-, rfl⟩ := hr
          obtain ⟨dispatch, hrun⟩ := (h.inv.running_iff hget).mp hrunning
          obtain ⟨replay', hstep, hmatches'⟩ := hmatches.flagged atNs hget hlive hrun
          have hasked := Asked.flagged hrunning
          refine ⟨h.asked hget hasked hinv' rfl rfl rfl rfl rfl ⟨replay', ?_, hmatches'⟩,
            rfl, rfl, rfl, rfl, asked_records hget hasked rfl⟩
          rw [hrunning]
          refine hreplays.snoc hstep ?_
          rw [hmatches'.reserved, ← h.policy]
          exact hinv'.capacity
        · rename_i hqueued hrunning
          exfalso
          cases hstatus : state.status <;> simp_all [RequestStatus.isTerminal]
      · intro fault s' hcancel
        obtain ⟨⟨-, hfails⟩, -, hpanic⟩ := hcancel
        cases hfails with
        | unknown hnone =>
          rw [hget] at hnone
          cases hnone
        | panic => exact hpanic rfl

/-- Cancellations keep the invariant and cannot fail. -/
theorem applyCancellations_ends (throughNs : Nat) (h : TraceOk trace ordered sources run) :
    (applyCancellations sources throughNs).Ends run
      (fun _ run' => TraceOk trace ordered sources run' ∧ CancelFrame run run')
      (fun _ _ => False) := by
  apply ends_forM (I := fun _ run' => TraceOk trace ordered sources run' ∧ CancelFrame run run')
    ⟨h, .refl run⟩
  intro source _ run' hrun
  apply (applyCancellation_ends throughNs source hrun.1).mono
  · exact fun _ run'' hstep => ⟨hstep.1, hrun.2.trans hstep.2⟩
  · exact fun _ _ hfault => hfault

end Execution

end Leone.Trace

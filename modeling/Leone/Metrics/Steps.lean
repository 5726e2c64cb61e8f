import Leone.Metrics.Checks

/-!
# What one call does

A call either adds to the record what it stands for or leaves the collector as it was.
-/

namespace Leone.Metrics

open Framework Framework.Method ServiceMetrics

variable {config : MetricsConfig} {record : Record} {metrics : ServiceMetrics}

/-- A call that is represented when it returns, and leaves no trace when it does not. -/
def Steps (config : MetricsConfig) (record : Record) (metrics : ServiceMetrics) (call : Call) :
    Prop :=
  (perform call).Ends metrics (fun _ after => Represents config (record.step call) after)
    (Rejects metrics)

/-! ## Observations -/

theorem forkObserved_steps (h : Represents config record metrics) (latencyNs : Nat) :
    Steps config record metrics (.forkObserved latencyNs) := by
  simp only [Steps, perform, forkObserved]
  rw [ends_bind, ends_get]
  apply check_ofExcept
  intro _ hroom
  apply ends_push h.forkLatency (h.forkLatency.room hroom)
  intro history hhistory
  exact { h with forkLatency := hhistory }

theorem pushCancellation_ends (h : Represents config record metrics) (sample : RequestControlSample) :
    (pushCancellation sample).Ends metrics
      (fun _ after => Represents config
        { record with cancellation := record.cancellation ++ [sample] } after) (Rejects metrics) := by
  unfold pushCancellation
  rw [ends_bind, ends_get]
  apply check_ofExcept
  intro _ hroom
  apply ends_push h.cancellation (h.cancellation.room hroom)
  intro history hhistory
  exact { h with cancellation := hhistory }

theorem check_validateControl {β : Type} {next : Unit → Collects β}
    {Q : β → ServiceMetrics → Prop} {requestId reason : String}
    (h : (next ()).Ends metrics Q (Rejects metrics)) :
    (validateControl requestId reason >>= next).Ends metrics Q (Rejects metrics) := by
  simp only [validateControl, ends_bind, ends_get, ends_ofExcept]
  exact ⟨fun _ _ => ⟨fun _ _ => h, fun error _ => rejects_error error⟩,
    fun error _ => rejects_error error⟩

theorem cancellationObserved_steps (h : Represents config record metrics) (requestId : String)
    (requestedAtNs : Nat) (completedAtNs : Option Nat) (reason : String) :
    Steps config record metrics
      (.cancellationObserved requestId requestedAtNs completedAtNs reason) := by
  simp only [Steps, perform, cancellationObserved]
  apply check_validateControl
  cases completedAtNs with
  | none => exact pushCancellation_ends h _
  | some atNs =>
    apply check_ensure
    intro hle
    apply sub_orPanic hle
    exact pushCancellation_ends h _

theorem cancellationUnavailable_steps (h : Represents config record metrics)
    (requestId reason : String) :
    Steps config record metrics (.cancellationUnavailable requestId reason) := by
  simp only [Steps, perform, cancellationUnavailable]
  apply check_validateControl
  exact pushCancellation_ends h _

theorem slowClientObserved_steps (h : Represents config record metrics) (requestId : String)
    (blockedNs : Option Nat) (reason : String) :
    Steps config record metrics (.slowClientObserved requestId blockedNs reason) := by
  simp only [Steps, perform, slowClientObserved]
  apply check_validateControl
  rw [ends_bind, ends_get]
  apply check_ofExcept
  intro _ hroom
  apply ends_push h.slowClient (h.slowClient.room hroom)
  intro history hhistory
  exact { h with slowClient := hhistory }

theorem physicalBytesObserved_steps (h : Represents config record metrics) (atNs : Nat)
    (bytesByClass : SortedMap String Nat) :
    Steps config record metrics (.physicalBytesObserved atNs bytesByClass) := by
  simp only [Steps, perform, physicalBytesObserved]
  rw [ends_bind, ends_get]
  apply check_ofExcept
  intro _ _
  apply check_ofExcept
  intro _ _
  apply check_ofExcept
  intro _ hroom
  have hpeak := classPeak_append record.physical ⟨atNs, bytesByClass⟩ h.physicalPeak
  rw [ends_bind, ends_modify, ends_bind]
  apply ends_push h.physicalBytes (h.physicalBytes.room hroom)
  intro history hhistory
  exact { h with physicalBytes := hhistory, physicalPeak := hpeak }

theorem schedulerReservationObserved_steps (h : Represents config record metrics) (atNs : Nat)
    (requestId : Option String) (reservedBytes : Nat) :
    Steps config record metrics (.schedulerReservationObserved atNs requestId reservedBytes) := by
  simp only [Steps, perform, schedulerReservationObserved]
  rw [ends_bind, ends_get]
  apply check_ofExcept
  intro _ _
  apply check_ofExcept
  intro _ _
  apply check_ofExcept
  intro _ hroom
  have hpeak := max?_append_singleton
    (record.scheduler.map SchedulerReservationSample.reservedBytes) reservedBytes
  rw [← h.schedulerPeak] at hpeak
  rw [ends_bind, ends_modify, ends_bind]
  apply ends_push h.schedulerReservations (h.schedulerReservations.room hroom)
  intro history hhistory
  have hpeak' : some (max (metrics.schedulerReservationPeakBytes.getD 0) reservedBytes) =
      ((record.scheduler ++ [(⟨atNs, requestId, reservedBytes⟩ : SchedulerReservationSample)]).map
        SchedulerReservationSample.reservedBytes).max? := by
    rw [List.map_append, ← hpeak]
    rfl
  exact { h with schedulerReservations := hhistory, schedulerPeak := hpeak' }

theorem processMemoryObserved_steps (h : Represents config record metrics) (atNs : Nat)
    (residentBytes virtualBytes : Option Nat) :
    Steps config record metrics (.processMemoryObserved atNs residentBytes virtualBytes) := by
  simp only [Steps, perform, processMemoryObserved]
  rw [ends_bind, ends_get]
  apply check_ofExcept
  intro _ _
  apply check_ofExcept
  intro _ hroom
  have hpeak := h.processPeak.append (processSample atNs residentBytes virtualBytes)
  rw [← peakProcessMemory_eq, List.cons_append] at hpeak
  rw [ends_bind, ends_modify, ends_bind]
  apply ends_push h.processMemory (h.processMemory.room hroom)
  intro history hhistory
  exact { h with processMemory := hhistory, processPeak := hpeak }

theorem systemMemoryObserved_steps (h : Represents config record metrics) (atNs : Nat)
    (usedBytes availableBytes : Option Nat) :
    Steps config record metrics (.systemMemoryObserved atNs usedBytes availableBytes) := by
  simp only [Steps, perform, systemMemoryObserved]
  rw [ends_bind, ends_get]
  apply check_ofExcept
  intro _ _
  apply check_ofExcept
  intro _ hroom
  have hpeak := h.systemPeak.append (systemSample atNs usedBytes availableBytes)
  rw [← peakSystemMemory_eq, List.cons_append] at hpeak
  rw [ends_bind, ends_modify, ends_bind]
  apply ends_push h.systemMemory (h.systemMemory.room hroom)
  intro history hhistory
  exact { h with systemMemory := hhistory, systemPeak := hpeak }

/-! ## Outcomes -/

theorem outcomeObserved_steps (h : Represents config record metrics) (outcome : String) :
    Steps config record metrics (.outcomeObserved outcome) := by
  simp only [Steps, perform, outcomeObserved]
  rw [ends_bind, ends_get]
  apply check_ofExcept
  intro _ hpreflight
  have hbound := h.preflight hpreflight
  have hcount := count_lt hbound outcome
  rcases h.count_outcome outcome with ⟨hget, hsum⟩
  apply check_orErr
  intro nextCount hnext
  rw [h.requestCount, checkedAdd_eq_some] at hnext
  rw [h.getD_outcomes, checkedAdd, if_pos hcount, ends_bind, ends_modify, ends_bind, ends_orErr]
  refine ⟨?_, by simp⟩
  intro next hsome
  cases hsome
  rw [ends_bind, ends_modify, ends_modify, SortedMap.insert_insert]
  exact { h with
    bound := by rwa [Record.step, List.length_append, List.length_singleton]
    requestCount := by rw [Record.step, List.length_append, List.length_singleton, hnext.2]
    outcomes := hget
    total := hsum }

theorem commitOutcome_ends {E : Fault MetricsError → ServiceMetrics → Prop}
    (h : Represents config record metrics) {outcome : String}
    (hbound : record.outcomes.length + 1 < 2 ^ 64) :
    (commitOutcome outcome).Ends metrics (fun _ after => after = { metrics with
      outcomes := metrics.outcomes.insert outcome (record.outcomes.count outcome + 1)
      requestCount := record.outcomes.length + 1 }) E := by
  have hcount := count_lt hbound outcome
  simp only [commitOutcome, ends_bind, ends_get, h.getD_outcomes, checkedAdd, if_pos hcount,
    h.requestCount, if_pos hbound, ends_orPanic, ends_modify]
  refine ⟨?_, by simp⟩
  intro count hsome
  cases hsome
  refine ⟨?_, by simp⟩
  intro requestCount hsome
  cases hsome
  rfl

/-! ## Requests -/

theorem requestStarted_steps (h : Represents config record metrics) (requestId : String)
    (atNs : Nat) : Steps config record metrics (.requestStarted requestId atNs) := by
  simp only [Steps, perform, requestStarted]
  rw [ends_bind, ends_get]
  apply check_ofExcept
  intro _ _
  apply check_ensure
  intro hnew
  apply check_ensure
  intro _
  have habsent : record.timeline.current.get? requestId = none := by
    rw [SortedMap.contains, Option.isSome_eq_false_iff, Option.isNone_iff_eq_none, h.active,
      SortedMap.get?_mapValues, Option.map_eq_none_iff] at hnew
    exact hnew
  have hactive : metrics.active.insert requestId ⟨atNs, none, none, 0⟩ =
      (record.timeline.current.insert requestId ⟨atNs, []⟩).mapValues Life.state := by
    rw [SortedMap.mapValues_insert, ← h.active]
    rfl
  rw [ends_modify]
  exact { h with
    timeline := h.timeline.start habsent atNs
    active := hactive }

/-- An active request has a life. -/
theorem Represents.exists_life (h : Represents config record metrics) {requestId : String}
    {state : ActiveRequest} (hstate : metrics.active.get? requestId = some state) :
    ∃ life, record.timeline.current.get? requestId = some life ∧ life.state = state := by
  rw [h.active, SortedMap.get?_mapValues, Option.map_eq_some_iff] at hstate
  exact hstate

theorem Life.state_lastNs (life : Life) :
    life.state.lastTokenNs.getD life.state.startedNs = life.lastNs := rfl

theorem Life.state_isNone (life : Life) : life.state.lastTokenNs.isNone = !life.seen := by
  rw [Life.state, Life.seen, Option.isNone_map, Bool.not_not]
  cases hnil : life.boundaries with
  | nil => rfl
  | cons first rest => simp

theorem Life.state_push (life : Life) (atNs count : Nat) : (life.push atNs count).state =
    { startedNs := life.startedNs
      firstTokenNs := if life.seen then life.state.firstTokenNs else some atNs
      lastTokenNs := some atNs
      tokenCount := life.tokens + count } := by
  rw [Life.state, Life.tokens_push]
  simp only [Life.push, List.getLast?_concat, Option.map_some]
  cases hboundaries : life.boundaries with
  | nil => simp [Life.seen, hboundaries]
  | cons first rest => simp [Life.seen, Life.state, hboundaries]

/-- The active requests after a boundary. -/
theorem Represents.insert_push (h : Represents config record metrics) (requestId : String)
    (life : Life) (atNs count : Nat) :
    metrics.active.insert requestId (life.push atNs count).state =
      (record.timeline.current.insert requestId (life.push atNs count)).mapValues Life.state := by
  rw [SortedMap.mapValues_insert, ← h.active]

theorem commitTokenDelta_ends {Q : ActiveRequest → ServiceMetrics → Prop}
    {E : Fault MetricsError → ServiceMetrics → Prop} {life : Life} {atNs : Nat}
    (hlt : life.tokens + 1 < 2 ^ 64) (h : Q (life.push atNs 1).state metrics) :
    (commitTokenDelta life.state atNs).Ends metrics Q E := by
  have hcount : checkedAdd 64 life.state.tokenCount 1 = some (life.tokens + 1) := if_pos hlt
  simp only [commitTokenDelta, hcount, ends_bind, ends_orPanic, ends_pure]
  refine ⟨?_, by simp⟩
  intro tokens hsome
  cases hsome
  rw [Life.state_push] at h
  rw [Life.state_isNone]
  cases hseen : life.seen with
  | true =>
    rw [hseen] at h
    exact h
  | false =>
    rw [hseen] at h
    exact h

/-- The first token of a request is a sample of the time to first token. -/
theorem recordLatencySample_first (h : Represents config record metrics) (interval : Nat) :
    (recordLatencySample true interval).Ends metrics (fun _ after => ∃ history,
      Retains config.maxLatencySamples (record.timeline.ttft.map elapsed ++ [interval]) history ∧
        after = { metrics with ttft := history }) (Rejects metrics) := by
  simp only [recordLatencySample, pushTtft, if_true]
  rw [ends_bind, ends_get]
  apply check_ofExcept
  intro _ hroom
  apply ends_push h.ttft (h.ttft.room hroom)
  intro history hhistory
  exact ⟨history, hhistory, rfl⟩

/-- A later token is a sample of the time between tokens. -/
theorem recordLatencySample_later (h : Represents config record metrics) (interval : Nat) :
    (recordLatencySample false interval).Ends metrics (fun _ after => ∃ history,
      Retains config.maxLatencySamples (record.timeline.intervals.map elapsed ++ [interval])
        history ∧ after = { metrics with interTokenLatency := history }) (Rejects metrics) := by
  simp only [recordLatencySample, pushInterTokenLatency, Bool.false_eq_true, if_false]
  rw [ends_bind, ends_get]
  apply check_ofExcept
  intro _ hroom
  apply ends_push h.interTokenLatency (h.interTokenLatency.room hroom)
  intro history hhistory
  exact ⟨history, hhistory, rfl⟩

theorem tokenObserved_steps (h : Represents config record metrics) (requestId : String)
    (atNs : Nat) : Steps config record metrics (.tokenObserved requestId atNs) := by
  simp only [Steps, perform, tokenObserved]
  rw [ends_bind, ends_get]
  apply check_ofExcept
  intro _ _
  apply check_orErr
  intro state hstate
  rcases h.exists_life hstate with ⟨life, hlife, rfl⟩
  simp only [tokenDelta, bind_assoc, Life.state_lastNs, Life.state_isNone]
  apply check_ensure
  intro hle
  apply check_orErr
  intro tokens htokens
  have hlt := (checkedAdd_eq_some.mp htokens).1
  have hsound := h.timeline.token hlife hle hlt
  have hactive := h.insert_push requestId life atNs 1
  apply sub_orPanic hle
  rw [pure_bind, ends_bind, Record.step]
  cases hseen : life.seen with
  | false =>
    rw [Timeline.token_first hlife hseen] at hsound ⊢
    apply (recordLatencySample_first h _).mono
    · intro _ after hafter
      rcases hafter with ⟨history, hhistory, rfl⟩
      simp only [ends_bind, ends_get, hstate, ends_orErr]
      refine ⟨?_, by simp⟩
      intro state hsome
      cases hsome
      apply commitTokenDelta_ends hlt
      rw [Life.lastNs_of_not_seen hseen] at hhistory
      rw [ends_modify]
      exact { h with
        timeline := hsound
        active := hactive
        ttft := by rwa [List.map_append] }
    · exact fun _ _ hrejects => hrejects
  | true =>
    rw [Timeline.token_later hlife hseen] at hsound ⊢
    apply (recordLatencySample_later h _).mono
    · intro _ after hafter
      rcases hafter with ⟨history, hhistory, rfl⟩
      simp only [ends_bind, ends_get, hstate, ends_orErr]
      refine ⟨?_, by simp⟩
      intro state hsome
      cases hsome
      apply commitTokenDelta_ends hlt
      rw [ends_modify]
      exact { h with
        timeline := hsound
        active := hactive
        interTokenLatency := by rwa [List.map_append] }
    · exact fun _ _ hrejects => hrejects

theorem Life.commit_push (life : Life) (atNs count : Nat) :
    commitTokenBatch life.state atNs (life.tokens + count) (!life.seen) =
      (life.push atNs count).state := by
  rw [Life.state_push]
  cases hseen : life.seen with
  | true => simp [commitTokenBatch, Life.state]
  | false => simp [commitTokenBatch, Life.state]

theorem tokenBatchObserved_steps (h : Represents config record metrics) (requestId : String)
    (atNs tokenCount : Nat) :
    Steps config record metrics (.tokenBatchObserved requestId atNs tokenCount) := by
  simp only [Steps, perform, tokenBatchObserved]
  apply check_ensure
  intro _
  rw [ends_bind, ends_get]
  apply check_ofExcept
  intro _ _
  apply check_orErr
  intro state hstate
  rcases h.exists_life hstate with ⟨life, hlife, rfl⟩
  simp only [tokenBatchDelta, bind_assoc, Life.state_lastNs, Life.state_isNone]
  apply check_ensure
  intro hle
  apply check_orErr
  intro tokens htokens
  rcases checkedAdd_eq_some.mp htokens with ⟨hlt, rfl⟩
  have hlt : life.tokens + tokenCount < 2 ^ 64 := hlt
  have hsound := h.timeline.boundary hlife hle hlt
  have hactive := h.insert_push requestId life atNs tokenCount
  have hstarted : life.state.startedNs ≤ atNs := (h.timeline.current requestId life hlife).last.trans hle
  apply sub_orPanic hstarted
  rw [pure_bind, Record.step]
  have hcommit := life.commit_push atNs tokenCount
  cases hseen : life.seen with
  | false =>
    rw [hseen] at hcommit
    rw [Timeline.boundary_first hlife hseen] at hsound ⊢
    simp only [Bool.not_false, if_true] at hcommit ⊢
    apply check_ofExcept
    intro _ hroom
    apply check_orErr
    intro state hsome
    rw [hstate] at hsome
    cases hsome
    rw [ends_bind, ends_modify]
    apply ends_push h.ttft (h.ttft.room hroom)
    intro history hhistory
    exact { h with
      timeline := hsound
      active := (congrArg _ hcommit).trans hactive
      ttft := by rwa [List.map_append] }
  | true =>
    rw [hseen] at hcommit
    rw [Timeline.boundary_later hlife hseen] at hsound ⊢
    simp only [Bool.not_true, Bool.false_eq_true, if_false] at hcommit ⊢
    apply check_orErr
    intro state hsome
    rw [hstate] at hsome
    cases hsome
    rw [ends_bind, ends_modify, ends_pure]
    exact { h with
      timeline := hsound
      active := (congrArg _ hcommit).trans hactive }

/-! ## Completion -/

theorem completionLatency_ends {life : Life} (hsound : life.Sound) (requestId : String)
    (completedAtNs : Option Nat) : (completionLatency requestId life.state completedAtNs).Ends metrics
      (fun latency after => after = metrics ∧
        latency = since life.startedNs completedAtNs "completion_timestamp_unavailable" ∧
        ∀ atNs, completedAtNs = some atNs → life.lastNs ≤ atNs) (Rejects metrics) := by
  cases completedAtNs with
  | none => exact ⟨rfl, rfl, nofun⟩
  | some atNs =>
    simp only [completionLatency, Life.state_lastNs]
    apply check_ensure
    intro hle
    apply sub_orPanic (hsound.last.trans hle)
    refine ⟨rfl, rfl, ?_⟩
    intro other hother
    cases hother
    exact hle

theorem requestTtft_ends {life : Life} (hsound : life.Sound) :
    (requestTtft life.state).Ends metrics (fun latency after => after = metrics ∧
      latency = since life.startedNs (life.boundaries.head?.map Prod.fst) "no_token_observed")
      (Rejects metrics) := by
  cases hboundaries : life.boundaries with
  | nil =>
    have hnone : life.state.firstTokenNs = none := by rw [Life.state, hboundaries]; rfl
    simp only [requestTtft, hnone, ends_pure]
    exact ⟨trivial, rfl⟩
  | cons first rest =>
    have hsome : life.state.firstTokenNs = some first.1 := by rw [Life.state, hboundaries]; rfl
    have hstarted : life.startedNs ≤ first.1 := hsound.started first (by simp [hboundaries])
    simp only [requestTtft, hsome]
    apply sub_orPanic hstarted
    exact ⟨rfl, rfl⟩

theorem requestFinished_steps (h : Represents config record metrics) (requestId : String)
    (completedAtNs : Option Nat) (outcome : String) :
    Steps config record metrics (.requestFinished requestId completedAtNs outcome) := by
  simp only [Steps, perform, requestFinished]
  rw [ends_bind, ends_get]
  apply check_ofExcept
  intro _ _
  apply check_orErr
  intro state hstate
  rcases h.exists_life hstate with ⟨life, hlife, rfl⟩
  have hsound := h.timeline.current requestId life hlife
  apply check_ofExcept
  intro _ hpreflight
  have hbound := h.preflight hpreflight
  rcases h.count_outcome outcome with ⟨hget, hsum⟩
  rw [ends_bind]
  apply (completionLatency_ends hsound requestId completedAtNs).mono
  · intro latency after hafter
    rcases hafter with ⟨rfl, rfl, hcompleted⟩
    apply check_ofExcept
    intro _ hroom
    rw [ends_bind]
    apply (requestTtft_ends hsound).mono
    · intro ttft after' hafter'
      rcases hafter' with ⟨rfl, rfl⟩
      rw [ends_bind]
      apply (commitOutcome_ends h hbound).mono
      · intro _ after'' hafter''
        rw [hafter'', ends_bind]
        apply ends_push h.requests (h.requests.room hroom)
        intro history hhistory
        have hactive : after'.active.remove requestId =
            (record.timeline.current.remove requestId).mapValues Life.state := by
          rw [SortedMap.mapValues_remove, ← h.active]
        have htimeline := h.timeline.finish hlife hcompleted outcome
        rw [Timeline.finish_eq hlife] at htimeline
        rw [ends_modify, Record.step, Timeline.finish_eq hlife]
        exact { h with
          timeline := htimeline
          active := hactive
          bound := by rwa [List.length_append, List.length_singleton]
          requestCount := by rw [List.length_append, List.length_singleton]
          outcomes := hget
          total := hsum
          requests := by rwa [List.map_append] }
      · exact fun _ _ hrejects => hrejects
    · exact fun _ _ hrejects => hrejects
  · exact fun _ _ hrejects => hrejects

/-- Every call is represented or leaves no trace. -/
theorem steps (h : Represents config record metrics) (call : Call) :
    Steps config record metrics call := by
  cases call with
  | requestStarted requestId atNs => exact requestStarted_steps h requestId atNs
  | tokenObserved requestId atNs => exact tokenObserved_steps h requestId atNs
  | tokenBatchObserved requestId atNs tokenCount =>
    exact tokenBatchObserved_steps h requestId atNs tokenCount
  | requestFinished requestId completedAtNs outcome =>
    exact requestFinished_steps h requestId completedAtNs outcome
  | outcomeObserved outcome => exact outcomeObserved_steps h outcome
  | forkObserved latencyNs => exact forkObserved_steps h latencyNs
  | cancellationObserved requestId requestedAtNs completedAtNs reason =>
    exact cancellationObserved_steps h requestId requestedAtNs completedAtNs reason
  | cancellationUnavailable requestId reason => exact cancellationUnavailable_steps h requestId reason
  | slowClientObserved requestId blockedNs reason =>
    exact slowClientObserved_steps h requestId blockedNs reason
  | physicalBytesObserved atNs bytesByClass => exact physicalBytesObserved_steps h atNs bytesByClass
  | schedulerReservationObserved atNs requestId reservedBytes =>
    exact schedulerReservationObserved_steps h atNs requestId reservedBytes
  | processMemoryObserved atNs residentBytes virtualBytes =>
    exact processMemoryObserved_steps h atNs residentBytes virtualBytes
  | systemMemoryObserved atNs usedBytes availableBytes =>
    exact systemMemoryObserved_steps h atNs usedBytes availableBytes

end Leone.Metrics

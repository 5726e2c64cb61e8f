import Leone.Trace.Turns
import Leone.Trace.Verdict

/-!
# Whole executions

An execution stops after a number of turns that the trace bounds, or an exhausted counter ends it
with an error. The report of an execution that stopped is then refused only for two reasons: a
finished request had more isolated tokens than it may emit, or an accepted request never
completed a quantum.
-/

namespace Leone.Trace

open Framework Framework.Method Scheduler

/-! ## A fixture -/

/-- One request with a prompt chunk and a decode quantum. -/
def fixtureTrace : ServiceTrace where
  schemaVersion := 1
  policy := ⟨2, 2, 2, 64, 1, 4, 16, 16, 2, 4, 0, 16⟩
  tokenDurationNs := 1
  requests := [⟨⟨1, 0, 2, 0, 2, 1, none⟩, [7, 8], none⟩]

def fixtureText : String :=
  "\x7b\"schema_version\":1,\"policy\":\x7b\"max_activ" ++
  "e_requests\":2,\"max_queued_requests\":2,\"m" ++
  "ax_batch_requests\":2,\"max_reserved_kv_by" ++
  "tes\":64,\"kv_bytes_per_token\":1,\"kv_page_" ++
  "tokens\":4,\"max_prompt_tokens\":16,\"max_ou" ++
  "tput_tokens\":16,\"service_quantum_tokens\"" ++
  ":2,\"prefill_chunk_tokens\":4,\"urgent_wind" ++
  "ow_ns\":0,\"max_prefix_credit_tokens\":16\x7d," ++
  "\"token_duration_ns\":1,\"requests\":[\x7b\"spec" ++
  "\":\x7b\"id\":1,\"arrival_ns\":0,\"prompt_tokens\"" ++
  ":2,\"prefix_reused_tokens\":0,\"max_output_" ++
  "tokens\":2,\"priority\":1,\"deadline_ns\":nul" ++
  "l\x7d,\"isolated_tokens\":[7,8],\"cancel_at_ns" ++
  "\":null\x7d]\x7d"

def fixtureBytes : List UInt8 := fixtureText.toUTF8.toList

/-- The JSON decoder on the bytes of the fixture. -/
def fixtureDecoder (bytes : List UInt8) : Except String ServiceTrace :=
  if bytes = fixtureBytes then .ok fixtureTrace else .error "expected value at line 1 column 1"

/-- The digest of the bytes of the fixture. -/
def fixtureDigest (bytes : List UInt8) : List UInt8 :=
  if bytes = fixtureBytes then
    [98, 195, 244, 90, 151, 127, 181, 14, 85, 6, 104, 223, 14, 131, 195, 193, 130, 25, 158,
    162, 247, 251, 159, 8, 11, 122, 133, 68, 100, 168, 207, 146]
  else []

def fixtureReport : ServiceTraceReport where
  schemaVersion := 1
  fixtureSha256 := "62c3f45a977fb50e550668df0e83c3c182199ea2f7fb9f080b7a854464a8cf92"
  events := [.admission 0 1 (.admitted 4), .dispatch 0 1 2 .prefill,
    .complete 2 1 0 .queued 4 .prefill, .dispatch 2 1 2 .decode, .complete 4 1 2 .finished 0 .decode]
  results := [⟨1, .finished, [7, 8]⟩]
  stats := { SchedulerStats.default with
    admissionAttempts := 1
    admittedRequests := 1
    dispatchedQuanta := 2
    dispatchedBatches := 2
    prefillChunks := 1
    prefillTokens := 2
    decodeQuanta := 1
    emittedTokens := 2
    completedRequests := 1
    maxQueueDepth := 1
    maxBatchWidth := 1
    maxReservedKvBytes := 4 }
  oracleVerified := true

theorem fixture_decoded : decodeServiceTrace fixtureDecoder fixtureBytes = .ok fixtureTrace := by
  simp only [decodeServiceTrace, fixtureDecoder, if_true, Except.mapError, bind, Except.bind]
  rfl

def fixtureScheduler : ContinuousScheduler := ⟨fixtureTrace.policy, ∅, ∅, [], 0, 0, .default⟩

def fixtureExecution : Method TraceRun SchedulerError Bool :=
  executeServiceTrace fixtureTrace (collectSources fixtureTrace.requests) 8

def fixtureStart : TraceRun := .start fixtureScheduler fixtureTrace.requests

theorem fixture_result : fixtureExecution.result fixtureStart = .ok true := by decide +kernel

theorem fixture_reported :
    runServiceTraceJson fixtureDecoder fixtureDigest 8 fixtureBytes = .ok (some fixtureReport) := by
  decide +kernel

/-! ## Turns and verdicts -/

section Runs

variable {trace : ServiceTrace} {ordered : List ServiceTraceRequest}
  {sources : SortedMap RequestId ServiceTraceRequest} {run : TraceRun}

/-- More turns than an execution of the trace can take. -/
def turnBound (trace : ServiceTrace) : Nat := (trace.requests.map requestWork).sum + 1

theorem traceOk_start {scheduler : ContinuousScheduler}
    (hnew : ContinuousScheduler.new trace.policy = .ok scheduler) :
    TraceOk trace ordered sources (TraceRun.start scheduler ordered) ∧
      scheduler.running.isEmpty := by
  have hmatches := matches_new hnew
  have hinv := Inv.new hnew
  obtain ⟨rfl, -⟩ := ContinuousScheduler.new_eq_ok hnew
  refine ⟨⟨hinv, rfl, fun id state hget => ?_, fun _ => rfl, List.suffix_rfl, fun _ _ => rfl,
    fun request hrequest => .inl hrequest, ⟨_, .nil _, hmatches⟩, Nat.zero_le _⟩, rfl⟩
  cases hget

theorem work_start {scheduler : ContinuousScheduler}
    (hnew : ContinuousScheduler.new trace.policy = .ok scheduler)
    (hperm : ordered.Perm trace.requests) :
    work sources (TraceRun.start scheduler ordered) < turnBound trace := by
  have hsum := (hperm.map requestWork).sum_eq
  have hwaits : waits (TraceRun.start scheduler ordered) = 0 := by
    unfold waits TraceRun.start
    cases ordered <;> simp
  obtain ⟨rfl, -⟩ := ContinuousScheduler.new_eq_ok hnew
  rw [work, hwaits, backlog, turnBound]
  change (ordered.map requestWork).sum + 0 + 0 < _
  omega

/-- An execution with enough turns stops, or fails with an overflow. -/
theorem executeServiceTrace_ends {scheduler : ContinuousScheduler} {turns : Nat}
    (horder : orderServiceTrace trace = .ok (ordered, sources))
    (hnew : ContinuousScheduler.new trace.policy = .ok scheduler)
    (hturns : turnBound trace ≤ turns) :
    (executeServiceTrace trace sources turns).Ends (TraceRun.start scheduler ordered)
      (fun stopped run => stopped = true ∧
        (TraceOk trace ordered sources run ∧ run.scheduler.running.isEmpty) ∧ Ended run)
      Overflowed := by
  obtain ⟨hsources, hperm⟩ := orderServiceTrace_eq_ok horder
  exact ends_repeatWhile (fun _ => serviceTurn_ends hsources) (traceOk_start hnew)
    (lt_of_lt_of_le (work_start hnew hperm) hturns)

/-- However many turns it had, an execution that stopped has ended soundly. -/
theorem executeServiceTrace_stopped {scheduler : ContinuousScheduler} {turns : Nat}
    (horder : orderServiceTrace trace = .ok (ordered, sources))
    (hnew : ContinuousScheduler.new trace.policy = .ok scheduler)
    (hrun : (executeServiceTrace trace sources turns).run (TraceRun.start scheduler ordered) =
      .ok true run) :
    (TraceOk trace ordered sources run ∧ run.scheduler.running.isEmpty) ∧ Ended run := by
  obtain ⟨hsources, -⟩ := orderServiceTrace_eq_ok horder
  have hends := repeatWhile_partial
    (I := fun run => TraceOk trace ordered sources run ∧ run.scheduler.running.isEmpty)
    (fun run hok => (serviceTurn_ends hsources hok).mono (fun again run' hagain => by
      cases again with
      | true => exact hagain.1
      | false => exact hagain) (fun _ _ hfault => hfault)) (traceOk_start hnew) turns
  exact hends.of_ok hrun

/-! ## The verdict on an execution -/

/-- The report can be verified as far as one request is concerned. -/
def Verifiable (run : TraceRun) (request : ServiceTraceRequest) : Prop :=
  ((run.resultOf request.spec.id).status = .finished →
    request.isolatedTokens.length ≤ request.spec.maxOutputTokens) ∧
  ((run.resultOf request.spec.id).status ≠ .rejected →
    completions request.spec.id run.events ≠ [])

theorem TraceOk.resultLawful_iff (h : TraceOk trace ordered sources run) (hended : Ended run)
    (hsources : SourcesOf ordered sources) {request : ServiceTraceRequest}
    (hrequest : request ∈ ordered) :
    ResultLawful sources run.events (run.resultOf request.spec.id) ↔ Verifiable run request := by
  obtain ⟨replay, hreplays, hmatches⟩ := h.replayed
  have haccounts := accounts_nil.replays TraceReplay.default_exact hreplays
  rw [List.nil_append] at haccounts
  have hsource := (hsources.get?_iff request.spec.id request).mpr ⟨hrequest, rfl⟩
  obtain ⟨state, hget⟩ : ∃ state, run.scheduler.requests.get? request.spec.id = some state := by
    rcases h.arrived request hrequest with hmem | hknown
    · rw [hended.pending] at hmem
      cases hmem
    · exact hknown
  obtain ⟨source, hsource', hserves⟩ := h.served _ state hget
  rw [hsource] at hsource'
  cases hsource'
  have hstatus : (run.resultOf request.spec.id).status = state.status := by
    simp [TraceRun.resultOf, ContinuousScheduler.status, hget]
  have houtput : (run.resultOf request.spec.id).outputTokens =
      request.isolatedTokens.take state.emittedTokens := by
    simp [TraceRun.resultOf, h.outputs, hget, transcript, hsource]
  have hlength : (request.isolatedTokens.take state.emittedTokens).length = state.emittedTokens :=
    List.length_take_of_le hserves.emitted_le
  have hmax := state.spec.maxOutputTokens.isLt
  have hcount : completions request.spec.id run.events ≠ [] →
      (completions request.spec.id run.events).sum % 2 ^ 64 = state.emittedTokens := by
    intro hsome
    have hemitted := hmatches.emitted request.spec.id
    rw [haccounts.emitted, if_neg hsome, hget] at hemitted
    exact hemitted
  have hwhole : state.status = .finished →
      (request.isolatedTokens.take state.emittedTokens = request.isolatedTokens ↔
        request.isolatedTokens.length ≤ request.spec.maxOutputTokens) := by
    intro hfinished
    rw [List.take_eq_self_iff]
    have hbound := hserves.emitted_le_max
    have hend := hserves.finished hfinished
    rw [hserves.spec] at hbound hend
    omega
  rw [ResultLawful, Verifiable, hstatus, houtput, hlength]
  constructor
  · intro hlawful
    obtain ⟨source, hfound, -, hfinal, hcounted⟩ := hlawful
    rw [show (run.resultOf request.spec.id).requestId = request.spec.id from rfl, hsource] at hfound
    cases hfound
    exact ⟨fun hfinished => (hwhole hfinished).mp (hfinal hfinished), fun hne => (hcounted hne).2.1⟩
  · intro hverifiable
    refine ⟨request, hsource, List.take_prefix _ _, fun hfinished => ?_, fun hne => ?_⟩
    · exact (hwhole hfinished).mpr (hverifiable.1 hfinished)
    · refine ⟨?_, hverifiable.2 hne, hcount (hverifiable.2 hne)⟩
      exact lt_of_le_of_lt hserves.emitted_le_max hmax

theorem Ended.freed {replay : TraceReplay} (h : Ended run) (hmatches : Matches run.scheduler replay) :
    replay.reserved = 0 := by
  have hempty : replay.reservations = ∅ := by
    ext id bytes
    rw [hmatches.reservations]
    cases hget : run.scheduler.requests.get? id with
    | none => rfl
    | some state =>
      rw [Option.bind_some, heldBytes_terminal (h.settled id state hget)]
      rfl
  rw [hmatches.exact_total, hempty]
  rfl

/-- The report of an execution that stopped is lawful exactly when every request is verifiable. -/
theorem reportLawful_iff {scheduler : ContinuousScheduler} {turns : Nat}
    (sha256 : List UInt8 → List UInt8) (bytes : List UInt8)
    (horder : orderServiceTrace trace = .ok (ordered, sources))
    (hnew : ContinuousScheduler.new trace.policy = .ok scheduler)
    (hrun : (executeServiceTrace trace sources turns).run (TraceRun.start scheduler ordered) =
      .ok true run) :
    ReportLawful trace (run.report sha256 bytes sources) ↔
      ∀ request ∈ trace.requests, Verifiable run request := by
  obtain ⟨⟨hok, hidle⟩, hended⟩ := executeServiceTrace_stopped horder hnew hrun
  obtain ⟨hsources, hperm⟩ := orderServiceTrace_eq_ok horder
  obtain ⟨replay, hreplays, hmatches⟩ := hok.replayed
  have haccounts := accounts_nil.replays TraceReplay.default_exact hreplays
  rw [List.nil_append] at haccounts
  have hcollected : collectSources trace.requests = sources := by
    have hnodup := ((hperm.map fun request => request.spec.id).nodup_iff).mp hsources.nodup
    exact (sourcesOf_collectSources hnodup).eq hsources hperm.symm
  have hresults : (∀ result ∈ (run.report sha256 bytes sources).results,
      ResultLawful sources run.events result) ↔
      ∀ request ∈ trace.requests, Verifiable run request := by
    change (∀ result ∈ sources.keys.map run.resultOf, _) ↔ _
    rw [← hsources.ids_eq_keys, List.forall_mem_map, List.forall_mem_map]
    constructor
    · intro hall request hrequest
      have hordered := hperm.mem_iff.mpr hrequest
      have hsource := (hsources.get?_iff request.spec.id request).mpr ⟨hordered, rfl⟩
      exact (hok.resultLawful_iff hended hsources hordered).mp
        (hall request (SortedMap.mem_values_iff.mpr ⟨_, hsource⟩))
    · intro hall source hsource
      obtain ⟨id, hget⟩ := SortedMap.mem_values_iff.mp hsource
      have hordered := ((hsources.get?_iff id source).mp hget).1
      exact (hok.resultLawful_iff hended hsources hordered).mpr
        (hall source (hperm.mem_iff.mp hordered))
  constructor
  · intro hlawful
    exact hresults.mp (hcollected ▸ hlawful.results)
  · intro hall
    refine ⟨fun before event after heq => ?_, ?_, ?_, ?_, hok.overshoot⟩
    · exact (accounts_nil.replays_iff TraceReplay.default_exact trace.policy.maxReservedKvBytes.isLt
        run.events).mp ⟨replay, hreplays⟩ before event after heq
    · exact haccounts.running.symm.trans (hmatches.idle hidle)
    · exact haccounts.reserved.symm.trans (hended.freed hmatches)
    · exact hcollected.symm ▸ hresults.mpr hall

/-! ## The whole program -/

variable (fromSlice : List UInt8 → Except String ServiceTrace) (sha256 : List UInt8 → List UInt8)

/-- The program, once its trace was read and ordered. -/
theorem runServiceTraceJson_eq {scheduler : ContinuousScheduler} {bytes : List UInt8}
    (turns : Nat) (hdecode : decodeServiceTrace fromSlice bytes = .ok trace)
    (horder : orderServiceTrace trace = .ok (ordered, sources))
    (hnew : ContinuousScheduler.new trace.policy = .ok scheduler) :
    runServiceTraceJson fromSlice sha256 turns bytes =
      match (executeServiceTrace trace sources turns).run (TraceRun.start scheduler ordered) with
      | .error fault _ => .error fault
      | .ok false _ => .ok none
      | .ok true run =>
        (result (verifyServiceTrace trace (run.report sha256 bytes sources))
          TraceReplay.default).map fun _ =>
            some { run.report sha256 bytes sources with oracleVerified := true } := by
  simp only [runServiceTraceJson, hdecode, horder, hnew, Except.mapError, bind, Except.bind]
  cases (executeServiceTrace trace sources turns).run (TraceRun.start scheduler ordered) with
  | error fault run => rfl
  | ok stopped run => cases stopped <;> rfl

/-- With enough turns the program returns a report or an error. It never panics. -/
theorem runServiceTraceJson_returns {bytes : List UInt8} {turns : Nat}
    (hdecode : decodeServiceTrace fromSlice bytes = .ok trace) (hturns : turnBound trace ≤ turns) :
    (∃ report, runServiceTraceJson fromSlice sha256 turns bytes = .ok (some report)) ∨
      ∃ e, runServiceTraceJson fromSlice sha256 turns bytes = .error (.error e) := by
  cases horder : orderServiceTrace trace with
  | error e =>
    refine .inr ⟨e, ?_⟩
    simp only [runServiceTraceJson, hdecode, horder, Except.mapError, bind, Except.bind]
  | ok order =>
    cases hnew : ContinuousScheduler.new trace.policy with
    | error e =>
      refine .inr ⟨e, ?_⟩
      simp only [runServiceTraceJson, hdecode, horder, hnew, Except.mapError, bind, Except.bind]
    | ok scheduler =>
      have hends := executeServiceTrace_ends horder hnew hturns
      rw [runServiceTraceJson_eq fromSlice sha256 turns hdecode horder hnew]
      unfold Ends at hends
      split at hends
      · rename_i stopped run hrun
        obtain ⟨hstopped, -⟩ := hends
        subst hstopped
        simp only [hrun]
        obtain ⟨hlawful, hunlawful⟩ := verifyServiceTrace_result trace
          (run.report sha256 bytes order.2)
        by_cases hverdict : ReportLawful trace (run.report sha256 bytes order.2)
        · rw [hlawful hverdict]
          exact .inl ⟨_, rfl⟩
        · obtain ⟨e, he⟩ := hunlawful hverdict
          rw [he]
          exact .inr ⟨e, rfl⟩
      · rename_i fault run hrun
        simp only [hrun]
        exact .inr ⟨.accountingOverflow, congrArg Except.error hends⟩

theorem runServiceTraceJson_returns_fixture :
    (∃ report, runServiceTraceJson fixtureDecoder fixtureDigest 8 fixtureBytes =
      .ok (some report)) ∨
      ∃ e, runServiceTraceJson fixtureDecoder fixtureDigest 8 fixtureBytes = .error (.error e) :=
  runServiceTraceJson_returns fixtureDecoder fixtureDigest fixture_decoded (by decide)

/-- An execution that stopped is reported exactly when every request is verifiable. -/
theorem runServiceTraceJson_verified_iff {scheduler : ContinuousScheduler} {bytes : List UInt8}
    {turns : Nat} (hdecode : decodeServiceTrace fromSlice bytes = .ok trace)
    (horder : orderServiceTrace trace = .ok (ordered, sources))
    (hnew : ContinuousScheduler.new trace.policy = .ok scheduler)
    (hrun : (executeServiceTrace trace sources turns).run (TraceRun.start scheduler ordered) =
      .ok true run) :
    (∃ report, runServiceTraceJson fromSlice sha256 turns bytes = .ok (some report)) ↔
      ∀ request ∈ trace.requests, Verifiable run request := by
  rw [runServiceTraceJson_eq fromSlice sha256 turns hdecode horder hnew, hrun,
    ← reportLawful_iff sha256 bytes horder hnew hrun]
  obtain ⟨hlawful, hunlawful⟩ := verifyServiceTrace_result trace (run.report sha256 bytes sources)
  by_cases hverdict : ReportLawful trace (run.report sha256 bytes sources)
  · simp only [hlawful hverdict, hverdict, iff_true]
    exact ⟨_, rfl⟩
  · obtain ⟨e, he⟩ := hunlawful hverdict
    simp only [he, hverdict, iff_false]
    intro hreport
    obtain ⟨report, hreport⟩ := hreport
    cases hreport

theorem runServiceTraceJson_verified_iff_fixture :
    (∃ report, runServiceTraceJson fixtureDecoder fixtureDigest 8 fixtureBytes =
      .ok (some report)) ↔
      ∀ request ∈ fixtureTrace.requests,
        Verifiable (fixtureExecution.after fixtureStart) request :=
  runServiceTraceJson_verified_iff fixtureDecoder fixtureDigest fixture_decoded
    (by decide : orderServiceTrace fixtureTrace =
      .ok (fixtureTrace.requests, collectSources fixtureTrace.requests))
    (by decide : ContinuousScheduler.new fixtureTrace.policy = .ok fixtureScheduler)
    (run_of_result fixture_result)

/-- A program that returned a report has read, ordered, executed and verified its trace. -/
theorem runServiceTraceJson_eq_ok {bytes : List UInt8} {turns : Nat} {report : ServiceTraceReport}
    (h : runServiceTraceJson fromSlice sha256 turns bytes = .ok (some report)) :
    ∃ trace ordered sources scheduler run, decodeServiceTrace fromSlice bytes = .ok trace ∧
      orderServiceTrace trace = .ok (ordered, sources) ∧
      ContinuousScheduler.new trace.policy = .ok scheduler ∧
      (executeServiceTrace trace sources turns).run (TraceRun.start scheduler ordered) =
        .ok true run ∧
      ReportLawful trace (run.report sha256 bytes sources) ∧
      report = { run.report sha256 bytes sources with oracleVerified := true } := by
  cases hdecode : decodeServiceTrace fromSlice bytes with
  | error e =>
    simp only [runServiceTraceJson, hdecode, Except.mapError, bind, Except.bind] at h
    cases h
  | ok trace =>
    cases horder : orderServiceTrace trace with
    | error e =>
      simp only [runServiceTraceJson, hdecode, horder, Except.mapError, bind, Except.bind] at h
      cases h
    | ok order =>
      cases hnew : ContinuousScheduler.new trace.policy with
      | error e =>
        simp only [runServiceTraceJson, hdecode, horder, hnew, Except.mapError, bind,
          Except.bind] at h
        cases h
      | ok scheduler =>
        rw [runServiceTraceJson_eq fromSlice sha256 turns hdecode horder hnew] at h
        cases hrun : (executeServiceTrace trace order.2 turns).run
            (TraceRun.start scheduler order.1) with
        | error fault run =>
          rw [hrun] at h
          cases h
        | ok stopped run =>
          rw [hrun] at h
          cases stopped with
          | false => cases h
          | true =>
            refine ⟨trace, order.1, order.2, scheduler, run, rfl, horder, hnew, hrun, ?_⟩
            obtain ⟨hlawful, hunlawful⟩ := verifyServiceTrace_result trace
              (run.report sha256 bytes order.2)
            by_cases hverdict : ReportLawful trace (run.report sha256 bytes order.2)
            · simp only [hlawful hverdict, Except.map] at h
              exact ⟨hverdict, (Option.some.inj (Except.ok.inj h)).symm⟩
            · obtain ⟨e, he⟩ := hunlawful hverdict
              simp only [he, Except.map] at h
              cases h

/-- What a returned report says of one request. -/
structure Reported (request : ServiceTraceRequest) (result : ServiceTraceResult) : Prop where
  id : result.requestId = request.spec.id
  terminal : result.status.isTerminal
  transcript : result.outputTokens <+: request.isolatedTokens
  length : result.outputTokens.length ≤ request.spec.maxOutputTokens
  whole : result.status = .finished → result.outputTokens = request.isolatedTokens

theorem TraceOk.reported (h : TraceOk trace ordered sources run) (hended : Ended run)
    (hsources : SourcesOf ordered sources) {request : ServiceTraceRequest}
    (hrequest : request ∈ ordered)
    (hlawful : ResultLawful sources run.events (run.resultOf request.spec.id)) :
    Reported request (run.resultOf request.spec.id) := by
  have hsource := (hsources.get?_iff request.spec.id request).mpr ⟨hrequest, rfl⟩
  obtain ⟨source, hfound, hprefix, hwhole, -⟩ := hlawful
  rw [show (run.resultOf request.spec.id).requestId = request.spec.id from rfl, hsource] at hfound
  cases hfound
  obtain ⟨state, hget⟩ : ∃ state, run.scheduler.requests.get? request.spec.id = some state := by
    rcases h.arrived request hrequest with hmem | hknown
    · rw [hended.pending] at hmem
      cases hmem
    · exact hknown
  obtain ⟨source, hsource', hserves⟩ := h.served _ state hget
  rw [hsource] at hsource'
  cases hsource'
  refine ⟨rfl, ?_, hprefix, ?_, hwhole⟩
  · simpa [TraceRun.resultOf, ContinuousScheduler.status, hget] using hended.settled _ state hget
  · have hoff : (run.resultOf request.spec.id).outputTokens =
        request.isolatedTokens.take state.emittedTokens := by
      simp [TraceRun.resultOf, h.outputs, hget, transcript, hsource]
    have hmax := hserves.emitted_le_max
    rw [hoff, List.length_take, ← hserves.spec]
    omega

/-- Every report that the program returns is lawful for the trace it read, and lists each request
once, ended, with the beginning of its isolated transcript. -/
theorem runServiceTraceJson_reports {bytes : List UInt8} {turns : Nat}
    {report : ServiceTraceReport}
    (h : runServiceTraceJson fromSlice sha256 turns bytes = .ok (some report)) :
    ∃ trace, decodeServiceTrace fromSlice bytes = .ok trace ∧ ReportLawful trace report ∧
      (report.results.map ServiceTraceResult.requestId).Perm
        (trace.requests.map fun request => request.spec.id) ∧
      (report.results.map ServiceTraceResult.requestId).Nodup ∧
      ∀ request ∈ trace.requests, ∃ result ∈ report.results, Reported request result := by
  obtain ⟨trace, ordered, sources, scheduler, run, hdecode, horder, hnew, hrun, hlawful, rfl⟩ :=
    runServiceTraceJson_eq_ok fromSlice sha256 h
  obtain ⟨⟨hok, hidle⟩, hended⟩ := executeServiceTrace_stopped horder hnew hrun
  obtain ⟨hsources, hperm⟩ := orderServiceTrace_eq_ok horder
  have hids : (serviceTraceResults sources run).map ServiceTraceResult.requestId =
      sources.keys := by
    rw [serviceTraceResults, List.map_map]
    exact List.map_id _
  have hkeys : sources.keys.Perm (ordered.map fun request => request.spec.id) := by
    rw [List.perm_ext_iff_of_nodup sources.nodup_keys hsources.nodup]
    intro id
    rw [SortedMap.mem_keys_iff, List.mem_map]
    exact exists_congr fun source => hsources.get?_iff id source
  have hcollected : collectSources trace.requests = sources := by
    have hnodup := ((hperm.map fun request => request.spec.id).nodup_iff).mp hsources.nodup
    exact (sourcesOf_collectSources hnodup).eq hsources hperm.symm
  refine ⟨trace, hdecode, ⟨hlawful.events, hlawful.closed, hlawful.freed, hlawful.results,
    hlawful.overshoot⟩, ?_, ?_, fun request hrequest => ?_⟩
  · exact (List.Perm.of_eq hids).trans (hkeys.trans (hperm.map _))
  · exact hids ▸ sources.nodup_keys
  · have hordered := hperm.mem_iff.mpr hrequest
    have hsource := (hsources.get?_iff request.spec.id request).mpr ⟨hordered, rfl⟩
    have hmem : run.resultOf request.spec.id ∈ (run.report sha256 bytes sources).results :=
      List.mem_map_of_mem (SortedMap.mem_keys_iff.mpr ⟨request, hsource⟩)
    exact ⟨_, hmem, hok.reported hended hsources hordered (hcollected ▸ hlawful.results _ hmem)⟩

theorem runServiceTraceJson_reports_fixture :
    ∃ trace, decodeServiceTrace fixtureDecoder fixtureBytes = .ok trace ∧
      ReportLawful trace fixtureReport ∧
      (fixtureReport.results.map ServiceTraceResult.requestId).Perm
        (trace.requests.map fun request => request.spec.id) ∧
      (fixtureReport.results.map ServiceTraceResult.requestId).Nodup ∧
      ∀ request ∈ trace.requests, ∃ result ∈ fixtureReport.results, Reported request result :=
  runServiceTraceJson_reports fixtureDecoder fixtureDigest fixture_reported

end Runs

end Leone.Trace

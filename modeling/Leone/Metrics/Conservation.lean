import Leone.Framework.Machine
import Leone.Metrics.Steps

/-!
# Runs of the collector

Over every sequence of calls the collector represents the record of the calls that it accepted.
-/

namespace Leone.Metrics

open Framework Framework.Method

/-- The collector after a call, whether the call returned an error or not. -/
def serve (metrics : ServiceMetrics) (call : Call) : ServiceMetrics := after (perform call) metrics

/-- The calls of a run that returned without an error. -/
def accepted : ServiceMetrics → List Call → List Call
  | _, [] => []
  | metrics, call :: calls =>
    match result (perform call) metrics with
    | .ok _ => call :: accepted (serve metrics call) calls
    | .error _ => accepted (serve metrics call) calls

/-- A call that returns an error does not panic and changes nothing. -/
def LeavesNoTrace (metrics : ServiceMetrics) (call : Call) : Prop :=
  ∀ fault, result (perform call) metrics = .error fault →
    fault ≠ .panic ∧ serve metrics call = metrics

def Call.finishes : Call → Bool
  | .requestFinished .. => true
  | _ => false

def Call.observesOutcome : Call → Bool
  | .outcomeObserved .. => true
  | _ => false

/-! ## New collectors -/

theorem validate_eq_ok {config config' : MetricsConfig} (h : config.validate = .ok config') :
    config' = config := by
  unfold MetricsConfig.validate at h
  split at h
  · cases h
  · simp only [bind_eq_ok] at h
    rcases h with ⟨_, _, _, _, _, _, _, _, _, _, _, _, heq⟩
    cases heq
    rfl

theorem represents_new {allocates : Nat → Bool} {config : MetricsConfig} {metrics : ServiceMetrics}
    (h : ServiceMetrics.new allocates config = .ok metrics) :
    Represents config .empty metrics := by
  simp only [ServiceMetrics.new, bind_eq_ok] at h
  rcases h with ⟨config', hconfig, requests, hrequests, ttft, httft, interToken, hinterToken, fork,
    hfork, cancellation, hcancellation, slowClient, hslowClient, physical, hphysical, scheduler,
    hscheduler, process, hprocess, system, hsystem, heq⟩
  rw [validate_eq_ok hconfig] at *
  cases heq
  exact {
    timeline := Timeline.sound_empty
    active := rfl
    bound := Nat.two_pow_pos 64
    requestCount := rfl
    outcomes := fun _ => rfl
    total := rfl
    requests := retains_new hrequests
    ttft := retains_new httft
    interTokenLatency := retains_new hinterToken
    forkLatency := retains_new hfork
    cancellation := retains_new hcancellation
    slowClient := retains_new hslowClient
    physicalBytes := retains_new hphysical
    schedulerReservations := retains_new hscheduler
    processMemory := retains_new hprocess
    systemMemory := retains_new hsystem
    physicalPeak := fun _ => rfl
    schedulerPeak := rfl
    processPeak := ⟨List.mem_cons_self, by simp [Record.empty]⟩
    systemPeak := ⟨List.mem_cons_self, by simp [Record.empty]⟩ }

/-! ## Runs -/

section Runs

variable {config : MetricsConfig} {record : Record} {metrics : ServiceMetrics}

theorem Represents.leavesNoTrace (h : Represents config record metrics) (call : Call) :
    LeavesNoTrace metrics call := by
  intro fault hfault
  have hrejects := (ends_iff_result.mp (steps h call)).2 fault hfault
  exact ⟨hrejects.2, hrejects.1⟩

theorem Represents.run (h : Represents config record metrics) (calls : List Call) :
    Represents config ((accepted metrics calls).foldl Record.step record)
        (Framework.run serve metrics calls) ∧
      Along serve LeavesNoTrace metrics calls := by
  induction calls generalizing record metrics with
  | nil => exact ⟨h, trivial⟩
  | cons call calls ih =>
    have hends := ends_iff_result.mp (steps h call)
    rw [accepted, run_cons]
    cases hresult : result (perform call) metrics with
    | ok value =>
      rcases ih (hends.1 value hresult) with ⟨hrun, halong⟩
      exact ⟨hrun, h.leavesNoTrace call, halong⟩
    | error fault =>
      have hsame : serve metrics call = metrics := (hends.2 fault hresult).1
      have hnext : Represents config record (serve metrics call) := by rwa [hsame]
      rcases ih hnext with ⟨hrun, halong⟩
      exact ⟨hrun, h.leavesNoTrace call, halong⟩

end Runs

/-- The outcomes of a record are those of its finished requests and of its other outcomes. -/
theorem length_outcomes (log : List Call) (start : Record) :
    (log.foldl Record.step start).outcomes.length =
      start.outcomes.length + log.countP Call.finishes + log.countP Call.observesOutcome := by
  induction log generalizing start with
  | nil => rfl
  | cons call log ih =>
    rw [List.foldl_cons, ih, List.countP_cons, List.countP_cons]
    cases call <;> simp [Record.step, Call.finishes, Call.observesOutcome]
    · omega
    · omega

/-- Over every run the collector counts what it accepted, retains the newest values of each series and
keeps their peaks, and calls that return an error leave it as it was. -/
theorem metrics_conserved (allocates : Nat → Bool) (config : MetricsConfig)
    (metrics : ServiceMetrics) (hnew : ServiceMetrics.new allocates config = .ok metrics)
    (calls : List Call) :
    Along serve LeavesNoTrace metrics calls ∧
    Represents config (record (accepted metrics calls)) (run serve metrics calls) ∧
    (run serve metrics calls).outcomes.sumBy id = (run serve metrics calls).requestCount ∧
    (run serve metrics calls).requestCount = (accepted metrics calls).countP Call.finishes +
      (accepted metrics calls).countP Call.observesOutcome ∧
    (run serve metrics calls).ttft.totalCount =
      (record (accepted metrics calls)).timeline.seenCount ∧
    ∀ (α : Type) (limit : Nat) (all : List α) (history : BoundedHistory α),
      Retains limit all history →
        history.totalCount = history.values.length + history.droppedCount ∧
          history.values.length ≤ limit := by
  rcases (represents_new hnew).run calls with ⟨hrun, halong⟩
  have houtcomes := length_outcomes (accepted metrics calls) .empty
  refine ⟨halong, hrun, ?_, ?_, ?_, ?_⟩
  · rw [hrun.total, hrun.requestCount]
  · rw [hrun.requestCount, houtcomes]
    simp [Record.empty]
  · rw [hrun.ttft.total, List.length_map]
    exact hrun.timeline.seen
  · intro α limit all history h
    exact h.conserved

/-- Bounds of a small collector. -/
def fixtureConfig : MetricsConfig := ⟨2, 2, 3, 2, 4, 32, 32, 4⟩

/-- A request with a token, a batch that goes back in time and one that does not. -/
def fixtureCalls : List Call :=
  [.requestStarted "request" 100, .tokenObserved "request" 130, .tokenBatchObserved "request" 120 4,
    .tokenBatchObserved "request" 180 4, .requestFinished "request" (some 200) "length",
    .outcomeObserved "rejected"]

theorem metrics_conserved_fixture : ∃ metrics,
    ServiceMetrics.new (fun _ => true) fixtureConfig = .ok metrics ∧
      Represents fixtureConfig (record (accepted metrics fixtureCalls))
        (run serve metrics fixtureCalls) :=
  ⟨_, rfl, (metrics_conserved (fun _ => true) fixtureConfig _ rfl fixtureCalls).2.1⟩

end Leone.Metrics

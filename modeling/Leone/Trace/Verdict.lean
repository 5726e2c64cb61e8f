import Leone.Trace.Ledger

/-!
# The verdict on a report

The verifier accepts exactly the reports whose log is lawful, ends with nothing open or held, and
agrees with every listed result. It returns an error on every other report, and never panics.
-/

namespace Leone.Trace

open Framework Framework.Method Scheduler

theorem okOr_eq_ok {α : Type} {o : Option α} {e : SchedulerError} {a : α} :
    okOr o e = .ok a ↔ o = some a := by
  cases o <;> simp [okOr]

section Results

variable {sources : SortedMap RequestId ServiceTraceRequest} {events : List ServiceEvent}
  {replay : TraceReplay}

theorem Accounts.emitted_eq_some (h : Accounts events replay) {id : RequestId} {n : Nat} :
    replay.emitted.get? id = some n ↔
      completions id events ≠ [] ∧ (completions id events).sum % 2 ^ 64 = n := by
  rw [h.emitted]
  split_ifs with hnone
  · simp [hnone]
  · simp [hnone]

theorem verifyTraceResult_eq_ok (h : Accounts events replay) (result : ServiceTraceResult) :
    verifyTraceResult sources replay.emitted result = .ok () ↔
      ResultLawful sources events result := by
  rw [verifyTraceResult, bind_eq_ok, ResultLawful]
  apply exists_congr
  intro source
  rw [okOr_eq_ok, and_congr_right_iff]
  intro _
  by_cases hstarts : result.outputTokens <+: source.isolatedTokens
  · by_cases hmismatch : result.status = .finished ∧ result.outputTokens ≠ source.isolatedTokens
    · simp [hstarts, hmismatch]
    · have hwhole : result.status = .finished → result.outputTokens = source.isolatedTokens := by
        intro hfinished
        by_contra hne
        exact hmismatch ⟨hfinished, hne⟩
      by_cases hrejected : result.status = .rejected
      · simp [hstarts, hrejected]
      · rw [if_neg (not_not.mpr hstarts), if_neg hmismatch, if_neg hrejected, bind_eq_ok]
        constructor
        · intro hcount
          obtain ⟨length, hlength, hsame⟩ := hcount
          obtain ⟨hlt, rfl⟩ := tryFrom_eq_some.mp (okOr_eq_ok.mp hlength)
          split_ifs at hsame with hdiffers
          exact ⟨hstarts, hwhole, fun _ => ⟨hlt, h.emitted_eq_some.mp (not_not.mp hdiffers).symm⟩⟩
        · intro hcount
          obtain ⟨hlt, hsame⟩ := hcount.2.2 hrejected
          refine ⟨_, okOr_eq_ok.mpr (tryFrom_eq_some.mpr ⟨hlt, rfl⟩), ?_⟩
          rw [if_neg (not_not.mpr (h.emitted_eq_some.mpr hsame).symm)]
  · simp [hstarts]

theorem verifyTraceResults_eq_ok (h : Accounts events replay)
    (results : List ServiceTraceResult) :
    verifyTraceResults sources replay.emitted results = .ok () ↔
      ∀ result ∈ results, ResultLawful sources events result := by
  rw [verifyTraceResults]
  induction results with
  | nil => simp [pure, Except.pure]
  | cons result results ih =>
    rw [List.forall_mem_cons, ← verifyTraceResult_eq_ok h, ← ih]
    change (verifyTraceResult sources replay.emitted result >>= fun _ => _) = .ok () ↔ _
    rw [bind_eq_ok]
    exact ⟨fun hboth => hboth.elim fun _ hresult => hresult, fun hboth => ⟨(), hboth⟩⟩

end Results

theorem TraceReplay.default_exact : TraceReplay.default.Exact := rfl

/-- The verifier accepts exactly the lawful reports, and refuses the others with an error. -/
theorem verifyServiceTrace_ends (trace : ServiceTrace) (report : ServiceTraceReport) :
    (verifyServiceTrace trace report).Ends TraceReplay.default
      (fun _ _ => ReportLawful trace report)
      (fun fault _ => fault ≠ .panic ∧ ¬ ReportLawful trace report) := by
  have hcapacity := trace.policy.maxReservedKvBytes.isLt
  have hiff := accounts_nil.replays_iff TraceReplay.default_exact hcapacity report.events
  simp only [verifyServiceTrace, ends_bind, ends_get, ends_ensure, ends_ofExcept]
  apply (TraceReplay.forM_applyEvent_ends TraceReplay.default_exact report.events).mono
  · intro _ replay h
    obtain ⟨hreplays, -⟩ := h
    have haccounts := accounts_nil.replays TraceReplay.default_exact hreplays
    rw [List.nil_append] at haccounts
    have hlawful : Lawful trace.policy.maxReservedKvBytes report.events := by
      intro before event after heq
      exact hiff.mp ⟨replay, hreplays⟩ before event after heq
    have hclosed : replay.running = none ∧ replay.reserved = 0 ↔
        openQuantum report.events = none ∧ held report.events = 0 := by
      rw [haccounts.running, haccounts.reserved]
    refine ⟨fun hend => ⟨fun _ hresults => ⟨fun hover => ?_, fun hover => ?_⟩,
      fun error hresults => ?_⟩, fun hlive => ?_⟩
    · exact ⟨hlawful, (hclosed.mp hend).1, (hclosed.mp hend).2,
        (verifyTraceResults_eq_ok haccounts _).mp hresults, hover⟩
    · exact ⟨by simp, fun hreport => hover hreport.overshoot⟩
    · refine ⟨by simp, fun hreport => ?_⟩
      rw [(verifyTraceResults_eq_ok haccounts _).mpr hreport.results] at hresults
      cases hresults
    · exact ⟨by simp, fun hreport => hlive (hclosed.mpr ⟨hreport.closed, hreport.freed⟩)⟩
  · intro fault _ h
    refine ⟨h.1, fun hreport => ?_⟩
    obtain ⟨after, hafter⟩ := hiff.mpr fun before event tail heq =>
      hreport.events before event tail heq
    exact h.2 after hafter

/-- The verdict on a report, as the value that the verifier returns. -/
theorem verifyServiceTrace_result (trace : ServiceTrace) (report : ServiceTraceReport) :
    (ReportLawful trace report →
      result (verifyServiceTrace trace report) TraceReplay.default = .ok ()) ∧
    (¬ ReportLawful trace report →
      ∃ e, result (verifyServiceTrace trace report) TraceReplay.default = .error (.error e)) := by
  obtain ⟨hok, herror⟩ := ends_iff_result.mp (verifyServiceTrace_ends trace report)
  cases hresult : result (verifyServiceTrace trace report) TraceReplay.default with
  | ok value => exact ⟨fun _ => rfl, fun hnot => absurd (hok value hresult) hnot⟩
  | error fault =>
    obtain ⟨hpanic, hnot⟩ := herror fault hresult
    refine ⟨fun hlawful => absurd hlawful hnot, fun _ => ?_⟩
    cases fault with
    | error e => exact ⟨e, rfl⟩
    | panic => exact absurd rfl hpanic

/-- The verifier decides exactly whether a report is lawful for its trace, and never panics. -/
theorem verifyServiceTrace_decides (trace : ServiceTrace) (report : ServiceTraceReport) :
    (result (verifyServiceTrace trace report) TraceReplay.default = .ok () ↔
      ReportLawful trace report) ∧
    result (verifyServiceTrace trace report) TraceReplay.default ≠ .error .panic := by
  obtain ⟨hlawful, hunlawful⟩ := verifyServiceTrace_result trace report
  by_cases hverdict : ReportLawful trace report
  · simp [hlawful hverdict, hverdict]
  · obtain ⟨e, he⟩ := hunlawful hverdict
    simp [he, hverdict]

end Leone.Trace

import Leone.Scheduler.Invariant
import Leone.Framework.Machine

/-!
# What a failed admission leaves behind

Admission counts an attempt before it computes the reservation and stores the record before it
advances the sequence number. An error after either point leaves a trace. Without such an error
every attempt is settled as an admission or as a rejection.
-/

namespace Leone.Scheduler

open Framework Framework.Method

/-! ## The counters of admission -/

/-- The part of the state that decides and counts admissions. -/
structure AdmissionLedger where
  policy : SchedulerPolicy
  nextSequence : Nat
  attempts : Nat
  admitted : Nat
  rejected : Nat

def ContinuousScheduler.ledger (s : ContinuousScheduler) : AdmissionLedger :=
  ⟨s.policy, s.nextSequence, s.stats.admissionAttempts, s.stats.admittedRequests,
    s.stats.rejectedRequests⟩

/-- The admission counters inside the state of a quantum commit. -/
def quantumLedger (p : RequestState × SchedulerStats) : Nat × Nat × Nat :=
  (p.2.admissionAttempts, p.2.admittedRequests, p.2.rejectedRequests)

theorem release_keeps (id : RequestId) (state : RequestState) :
    Keeps ContinuousScheduler.ledger (release id state) := by
  intro s
  rw [release_ends]
  exact ⟨fun _ => rfl, fun _ => rfl⟩

theorem expireOne_keeps (id : RequestId) :
    Keeps ContinuousScheduler.ledger (expireOne id) := by
  intro s
  simp [expireOne, release_ends, releasedState, ContinuousScheduler.ledger]

theorem expireDeadlines_keeps (nowNs : Nat) :
    Keeps ContinuousScheduler.ledger (expireDeadlines nowNs) :=
  keeps_get.bind fun _ => Keeps.forM expireOne_keeps _

theorem startOne_keeps (nowNs : Nat) (id : RequestId) :
    Keeps ContinuousScheduler.ledger (startOne nowNs id) := by
  intro s
  simp [startOne, ContinuousScheduler.ledger]

theorem recordBatchDispatch_keepsLedger (dispatches : List Dispatch) :
    Keeps ContinuousScheduler.ledger (recordBatchDispatch dispatches) := by
  intro s
  simp [recordBatchDispatch, ContinuousScheduler.ledger]

theorem dispatchBatch_keeps (nowNs limit : Nat) :
    Keeps ContinuousScheduler.ledger (dispatchBatch nowNs limit) :=
  keeps_get.bind fun _ => (keeps_ensure _ _).bind fun _ => (keeps_ensure _ _).bind fun _ =>
    (expireDeadlines_keeps nowNs).bind fun _ => keeps_get.bind fun _ =>
    (Keeps.mapM' (startOne_keeps nowNs) _).bind fun _ =>
    (recordBatchDispatch_keepsLedger _).bind fun _ => keeps_pure _

theorem applyPrefillProgress_keeps (progress : Nat) (ready : Bool) :
    Keeps quantumLedger (applyPrefillProgress progress ready) := by
  intro p
  cases ready <;> simp [applyPrefillProgress, quantumLedger]

theorem applyDecodeProgress_keeps (emitted : Nat) :
    Keeps quantumLedger (applyDecodeProgress emitted) := by
  intro p
  simp [applyDecodeProgress, quantumLedger]

theorem applyQuantumStatus_ledger (kind : DispatchKind) (emitted : Nat) (eos : Bool)
    (p : RequestState × SchedulerStats) :
    quantumLedger (applyQuantumStatus kind emitted eos p.1 p.2) = quantumLedger p := by
  unfold applyQuantumStatus
  split_ifs <;> rfl

/-- The part of a commit that does not depend on its phase. -/
theorem settle_keeps (kind : DispatchKind) (emitted progress : Nat) (eos : Bool) :
    Keeps quantumLedger (do
      let charge ← orPanic (runtimeCharge progress (← get).1.spec.priority)
      let runtime ← orErr (checkedAdd 128 (← get).1.virtualRuntime charge) .accountingOverflow
      modify fun p => ({ p.1 with virtualRuntime := runtime }, p.2)
      let total ← orErr (checkedAdd 64 (← get).2.emittedTokens emitted) .accountingOverflow
      modify fun p => (p.1, { p.2 with emittedTokens := total })
      modify fun p => applyQuantumStatus kind emitted eos p.1 p.2 : QuantumM Unit) := by
  intro p
  have hstatus := applyQuantumStatus_ledger kind emitted eos
  simp only [quantumLedger, Prod.mk.injEq, Prod.forall] at hstatus
  simp [quantumLedger, hstatus]

theorem applyQuantumState_keeps (dispatch : Dispatch) (emitted progress : Nat)
    (ready eos : Bool) :
    Keeps quantumLedger (applyQuantumState dispatch emitted progress ready eos) := by
  unfold applyQuantumState
  cases dispatch.kind with
  | prefill =>
    exact (applyPrefillProgress_keeps progress ready).bind fun tokens =>
      settle_keeps .prefill emitted tokens eos
  | decode =>
    exact (applyDecodeProgress_keeps emitted).bind fun tokens =>
      settle_keeps .decode emitted tokens eos

theorem completeQuantumWithProgress_keeps (id : RequestId) (emitted progress : Nat)
    (ready eos : Bool) : Keeps ContinuousScheduler.ledger
      (completeQuantumWithProgress id emitted progress ready eos) := by
  refine keeps_get.bind fun _ => (keeps_orErr _ _).bind fun dispatch =>
    (keeps_ofExcept _).bind fun _ => keeps_get.bind fun _ => (keeps_orErr _ _).bind fun state => ?_
  apply Keeps.bind
  · apply Keeps.zoom
    · show Keeps quantumLedger _
      exact (applyQuantumState_keeps dispatch emitted progress ready eos).bind fun _ =>
        keeps_get.bind fun _ => keeps_pure _
    · intro s p hp
      simp only [quantumLedger, Prod.mk.injEq] at hp
      simp only [ContinuousScheduler.ledger, hp]
  · intro settled
    apply Keeps.ite
    · exact (release_keeps id settled).bind fun _ _ => rfl
    · exact fun _ => rfl

theorem completeQuantum_keeps (id : RequestId) (emitted : Nat) (eos : Bool) :
    Keeps ContinuousScheduler.ledger (completeQuantum id emitted eos) :=
  keeps_get.bind fun _ => (keeps_orErr _ _).bind fun _ => (keeps_ensure _ _).bind fun _ =>
    completeQuantumWithProgress_keeps id emitted emitted false eos

theorem abortQuantum_keeps (id : RequestId) :
    Keeps ContinuousScheduler.ledger (abortQuantum id) := by
  intro s
  simp [abortQuantum, release_ends, releasedState, ContinuousScheduler.ledger]

theorem cancel_keeps (id : RequestId) : Keeps ContinuousScheduler.ledger (cancel id) := by
  intro s
  simp [cancel, release_ends, releasedState, ContinuousScheduler.ledger]

/-- Only an admission moves the admission counters. -/
theorem Call.exec_keeps (call : Call) (h : ∀ spec nowNs, call ≠ .admitRequest spec nowNs) :
    Keeps ContinuousScheduler.ledger call.exec := by
  cases call with
  | admitRequest spec nowNs => exact absurd rfl (h spec nowNs)
  | dispatchBatch nowNs limit => exact (dispatchBatch_keeps nowNs limit).bind fun _ => keeps_pure _
  | completeQuantum id emitted eos =>
    exact (completeQuantum_keeps id emitted eos).bind fun _ => keeps_pure _
  | completeQuantumWithProgress id emitted progress ready eos =>
    exact (completeQuantumWithProgress_keeps id emitted progress ready eos).bind fun _ =>
      keeps_pure _
  | abortQuantum id => exact (abortQuantum_keeps id).bind fun _ => keeps_pure _
  | cancel id => exact (cancel_keeps id).bind fun _ => keeps_pure _
  | takeExpiredDeadlines => exact fun s => rfl
  | pruneTerminal => exact fun s => rfl

/-! ## Which failures leave a trace -/

/-- The bytes that the pages of a request take. -/
def pageBytes (policy : SchedulerPolicy) (spec : RequestSpec) : Nat :=
  ((spec.promptTokens : Nat) - spec.prefixReusedTokens + spec.maxOutputTokens +
    (policy.kvPageTokens - 1)) / policy.kvPageTokens * policy.kvPageTokens * policy.kvBytesPerToken

/-- The arithmetic of a reservation stays in 64 bits, with what is already reserved. -/
def ReservationFits (s : ContinuousScheduler) (spec : RequestSpec) : Prop :=
  (spec.promptTokens : Nat) - spec.prefixReusedTokens + spec.maxOutputTokens +
      (s.policy.kvPageTokens - 1) < 2 ^ 64 ∧
    s.reservedKvBytes + pageBytes s.policy spec < 2 ^ 64

/-- An admission reaches no exhausted number: a duplicate or a future arrival is refused before
the attempt is counted. For any other request a sequence number is left, and when no limit refuses
the request first, its reservation can be computed. -/
def AdmissionFits (s : ContinuousScheduler) (spec : RequestSpec) (nowNs : Nat) : Prop :=
  s.requests.contains spec.id ∨ nowNs < spec.arrivalNs ∨
    (s.nextSequence + 1 < 2 ^ 64 ∧
      (basicAdmissionRejection s.policy spec nowNs = none →
        (requestCounts s.requests).1 < s.policy.maxActiveRequests →
        (requestCounts s.requests).2 < s.policy.maxQueuedRequests → ReservationFits s spec))

theorem reservation?_eq_some {policy : SchedulerPolicy} {spec : RequestSpec} {bytes : Nat}
    (hpage : 1 ≤ (policy.kvPageTokens : Nat))
    (hreused : (spec.prefixReusedTokens : Nat) ≤ spec.promptTokens) :
    reservation? policy spec = some bytes ↔
      (spec.promptTokens : Nat) - spec.prefixReusedTokens + spec.maxOutputTokens +
        (policy.kvPageTokens - 1) < 2 ^ 64 ∧ pageBytes policy spec < 2 ^ 64 ∧
      pageBytes policy spec = bytes := by
  have hne : (policy.kvPageTokens : Nat) ≠ 0 := Nat.ne_of_gt hpage
  unfold reservation? pageBytes checkedDiv
  simp only [Option.bind_eq_some_iff, checkedSub_eq_some, checkedAdd_eq_some, checkedMul_eq_some,
    if_neg hne, Option.some.injEq]
  constructor
  · rintro ⟨tokens, ⟨_, ⟨_, rfl⟩, _, rfl⟩, pages, ⟨_, ⟨hround, rfl⟩, rfl⟩, _, ⟨_, rfl⟩, hbytes, rfl⟩
    exact ⟨hround, hbytes, rfl⟩
  · rintro ⟨hround, hbytes, rfl⟩
    refine ⟨_, ⟨_, ⟨hreused, rfl⟩, by omega, rfl⟩, _, ⟨_, ⟨hround, rfl⟩, rfl⟩, _, ⟨?_, rfl⟩,
      hbytes, rfl⟩
    exact lt_of_le_of_lt (Nat.div_mul_le_self _ _) hround

theorem reservationOverflows_iff {s : ContinuousScheduler} {spec : RequestSpec}
    (hpage : 1 ≤ (s.policy.kvPageTokens : Nat))
    (hreused : (spec.prefixReusedTokens : Nat) ≤ spec.promptTokens) :
    ReservationOverflows s spec ↔ ¬ ReservationFits s spec := by
  unfold ReservationOverflows ReservationFits
  simp only [reservation?_eq_some hpage hreused]
  constructor
  · intro hover hfits
    have hroom := hover _ ⟨hfits.1, by omega, rfl⟩
    omega
  · rintro hnot bytes ⟨hround, hbytes, rfl⟩
    by_contra hlt
    exact hnot ⟨hround, not_le.mp hlt⟩

/-- A request that no earlier limit refuses meets the exhausted arithmetic. -/
theorem admissionRejection_overflows {s : ContinuousScheduler} {spec : RequestSpec} {nowNs : Nat}
    (hpage : 1 ≤ (s.policy.kvPageTokens : Nat))
    (hbasic : basicAdmissionRejection s.policy spec nowNs = none)
    (hactive : (requestCounts s.requests).1 < s.policy.maxActiveRequests)
    (hqueued : (requestCounts s.requests).2 < s.policy.maxQueuedRequests)
    (hover : ReservationOverflows s spec) :
    (admissionRejection spec nowNs).Ends s (fun _ _ => False)
      (fun fault s' => fault = .error .accountingOverflow ∧ s' = s) := by
  simp only [admissionRejection, ends_bind, ends_get, hbasic, ends_ite, ends_pure,
    reservationBytes_ends spec hpage, ends_orErr, checkedAdd_eq_some, checkedAdd_eq_none]
  refine ⟨fun h => absurd hactive (not_lt.mpr h), fun _ =>
    ⟨fun h => absurd hqueued (not_lt.mpr h), fun _ => ⟨fun bytes hbytes => ⟨?_, ?_⟩, ?_⟩⟩⟩
  · intro reserved hreserved
    exact absurd (hover bytes hbytes) (not_le.mpr hreserved.1)
  · exact fun _ => ⟨trivial, trivial⟩
  · exact fun _ => ⟨trivial, trivial⟩

/-- An attempt was counted, so the state is another one. -/
theorem ne_of_attempted {s s' : ContinuousScheduler}
    (h : s'.stats.admissionAttempts = wrappingAdd 64 s.stats.admissionAttempts 1) : s' ≠ s := by
  rintro rfl
  unfold wrappingAdd at h
  omega

/-- Without room, admission ends in an error after the attempt was counted. -/
theorem admit_not_fits {s : ContinuousScheduler} {spec : RequestSpec} {nowNs : Nat}
    (hpage : 1 ≤ (s.policy.kvPageTokens : Nat)) (h : ¬ AdmissionFits s spec nowNs) :
    (admitRequest spec nowNs).Ends s (fun _ _ => False)
      (fun fault s' => fault = .error .accountingOverflow ∧ s' ≠ s) := by
  simp only [AdmissionFits, not_or, not_and, not_lt, Classical.not_imp] at h
  obtain ⟨hfresh, harrived, hfits⟩ := h
  by_cases hseq : s.nextSequence + 1 < 2 ^ 64
  · obtain ⟨hbasic, hactive, hqueued, hover⟩ := hfits hseq
    have hreused := (basicAdmissionRejection_eq_none hbasic).1
    simp only [admitRequest, ends_bind, ends_get, ends_ensure, ends_modify]
    refine ⟨fun _ => ⟨fun _ => ?_, fun hlate => absurd harrived hlate⟩, fun hdup => ?_⟩
    · apply (admissionRejection_overflows (s := attempted s) hpage hbasic hactive hqueued
        ((reservationOverflows_iff hpage hreused).mpr hover)).mono
      · exact fun _ _ hf => hf.elim
      · rintro _ _ ⟨rfl, rfl⟩
        exact ⟨rfl, ne_of_attempted rfl⟩
    · exact absurd (not_not.mp hdup) hfresh
  · apply (admit_ends spec nowNs hpage).mono
    · exact fun _ _ hr => absurd hr.2.2.1 hseq
    · intro fault s' hf
      cases hf with
      | duplicate hdup => exact absurd hdup hfresh
      | future hlate => exact absurd hlate (not_lt.mpr harrived)
      | reservation _ _ => exact ⟨rfl, ne_of_attempted rfl⟩
      | strandedRejected _ _ _ => exact ⟨rfl, ne_of_attempted rfl⟩
      | strandedQueued _ _ _ _ _ => exact ⟨rfl, ne_of_attempted rfl⟩

/-- With room for the reservation, the capacity decision always returns. -/
theorem admissionRejection_fits {s : ContinuousScheduler} {spec : RequestSpec} {nowNs : Nat}
    (hpage : 1 ≤ (s.policy.kvPageTokens : Nat))
    (hfits : basicAdmissionRejection s.policy spec nowNs = none →
      (requestCounts s.requests).1 < s.policy.maxActiveRequests →
      (requestCounts s.requests).2 < s.policy.maxQueuedRequests → ReservationFits s spec) :
    (admissionRejection spec nowNs).Ends s (fun _ _ => True) (fun _ _ => False) := by
  simp only [admissionRejection, ends_bind, ends_get]
  cases hbasic : basicAdmissionRejection s.policy spec nowNs with
  | some reason => trivial
  | none =>
    have hreused := (basicAdmissionRejection_eq_none hbasic).1
    simp only [ends_ite, ends_pure, ends_bind, ends_orErr, reservationBytes_ends spec hpage,
      reservation?_eq_some hpage hreused, checkedAdd_eq_none]
    refine ⟨fun _ => trivial, fun hactive => ⟨fun _ => trivial, fun hqueued => ?_⟩⟩
    have hroom := hfits hbasic (not_le.mp hactive) (not_le.mp hqueued)
    refine ⟨fun bytes hbytes => ⟨fun _ _ => ⟨fun _ => trivial, fun _ => trivial⟩, fun hover => ?_⟩,
      fun hnone => ?_⟩
    · have hlt := hroom.2
      rw [hbytes.2.2] at hlt
      omega
    · have hsome : reservation? s.policy spec = some (pageBytes s.policy spec) :=
        (reservation?_eq_some hpage hreused).mpr
          ⟨hroom.1, lt_of_le_of_lt (Nat.le_add_left _ _) hroom.2, rfl⟩
      rw [hsome] at hnone
      cases hnone

/-- With room, an admission that fails leaves the state as it was. -/
theorem admit_fits {s : ContinuousScheduler} {spec : RequestSpec} {nowNs : Nat}
    (hpage : 1 ≤ (s.policy.kvPageTokens : Nat)) (h : AdmissionFits s spec nowNs) :
    (admitRequest spec nowNs).Ends s (AdmitReturns s spec nowNs) (fun _ s' => s' = s) := by
  have hkept : (admitRequest spec nowNs).Ends s (fun _ _ => True) (fun _ s' => s' = s) := by
    simp only [admitRequest, ends_bind, ends_get, ends_ensure, ends_modify]
    refine ⟨fun hfresh => ⟨fun harrived => ?_, fun _ => trivial⟩, fun _ => trivial⟩
    rcases h with hdup | hlate | ⟨hseq, hfits⟩
    · exact absurd hdup hfresh
    · exact absurd hlate (not_lt.mpr harrived)
    · apply ((admissionRejection_fits (s := attempted s) hpage hfits).and
        (admissionRejection_ends spec nowNs hpage)).mono
      · rintro rejection _ ⟨-, rfl, hadm⟩
        cases rejection with
        | some reason =>
          apply (insertRequest_rejected_ends spec reason).mono
          · exact fun _ _ _ => trivial
          · exact fun _ _ hf => absurd hseq (not_lt.mpr hf.2.1)
        | none =>
          obtain ⟨bytes, hbytes⟩ := hadm.mp rfl
          have hcap := hbytes.capacity
          have hmax := (attempted s).policy.maxReservedKvBytes.isLt
          apply (insertRequest_queued_ends (s := attempted s) hpage hbytes.reservation
            (basicAdmissionRejection_eq_none hbytes.basic).1).mono
          · rintro _ _ ⟨rfl, -, rfl⟩
            simp only [ends_bind, ends_get, ends_orErr, checkedAdd_eq_none, ends_modify, ends_pure]
            exact ⟨fun _ _ => trivial, fun hover => absurd hover (by omega)⟩
          · exact fun _ _ hf => absurd hseq (not_lt.mpr hf.2.1)
      · exact fun _ _ hf => hf.1.elim
  apply ((admit_ends spec nowNs hpage).and hkept).mono
  · exact fun _ _ hr => hr.1
  · exact fun _ _ hf => hf.2

/-! ## Every attempt is settled -/

/-- Every counted attempt took one sequence number and was admitted or rejected. -/
structure AdmissionLedger.Balanced (l : AdmissionLedger) : Prop where
  page : 1 ≤ (l.policy.kvPageTokens : Nat)
  sequence : l.nextSequence < 2 ^ 64
  attempts : l.attempts = l.nextSequence
  settled : l.admitted + l.rejected = l.nextSequence

/-- A call that is an admission has room for it. -/
def CallFits (s : ContinuousScheduler) (call : Call) : Prop :=
  ∀ spec nowNs, call = .admitRequest spec nowNs → AdmissionFits s spec nowNs

theorem AdmitReturns.balanced {s s' : ContinuousScheduler} {spec : RequestSpec} {nowNs : Nat}
    {outcome : AdmissionOutcome} (h : s.ledger.Balanced)
    (hr : AdmitReturns s spec nowNs outcome s') : s'.ledger.Balanced := by
  obtain ⟨_, _, hseq, hr⟩ := hr
  have hattempts : s.stats.admissionAttempts = s.nextSequence := h.attempts
  have hsettled : s.stats.admittedRequests + s.stats.rejectedRequests = s.nextSequence := h.settled
  have hattempt : wrappingAdd 64 s.stats.admissionAttempts 1 = s.nextSequence + 1 := by
    rw [wrappingAdd_of_lt (by omega), hattempts]
  cases outcome with
  | admitted bytes =>
    rw [hr.2]
    refine ⟨h.page, hseq, hattempt, ?_⟩
    show wrappingAdd 64 s.stats.admittedRequests 1 + s.stats.rejectedRequests = _ + 1
    rw [wrappingAdd_of_lt (by omega)]
    omega
  | rejected reason =>
    rw [hr.2]
    refine ⟨h.page, hseq, hattempt, ?_⟩
    show s.stats.admittedRequests + wrappingAdd 64 s.stats.rejectedRequests 1 = _ + 1
    rw [wrappingAdd_of_lt (by omega)]
    omega

theorem step_balanced {s : ContinuousScheduler} {call : Call} (h : s.ledger.Balanced)
    (hfits : CallFits s call) : (step s call).ledger.Balanced := by
  by_cases hadmit : ∃ spec nowNs, call = .admitRequest spec nowNs
  · obtain ⟨spec, nowNs, rfl⟩ := hadmit
    apply Ends.after (P := fun t : ContinuousScheduler => t.ledger.Balanced)
    simp only [Call.exec, ends_bind, ends_pure]
    apply (admit_fits h.page (hfits spec nowNs rfl)).mono
    · exact fun _ _ hr => hr.balanced h
    · exact fun _ _ hf => hf ▸ h
  · have hkept := (Call.exec_keeps call fun spec nowNs hcall => hadmit ⟨spec, nowNs, hcall⟩).after s
    rw [step, hkept]
    exact h

theorem ContinuousScheduler.new_balanced {policy : SchedulerPolicy} {s : ContinuousScheduler}
    (hnew : ContinuousScheduler.new policy = .ok s) : s.ledger.Balanced := by
  obtain ⟨rfl, hpolicy⟩ := ContinuousScheduler.new_eq_ok hnew
  exact ⟨hpolicy.page, Nat.two_pow_pos 64, rfl, rfl⟩

/-- No call changes the policy, however it ends. -/
theorem step_policy (s : ContinuousScheduler) (call : Call)
    (hpage : 1 ≤ (s.policy.kvPageTokens : Nat)) : (step s call).policy = s.policy := by
  by_cases hadmit : ∃ spec nowNs, call = .admitRequest spec nowNs
  · obtain ⟨spec, nowNs, rfl⟩ := hadmit
    apply Ends.after (P := fun t : ContinuousScheduler => t.policy = s.policy)
    simp only [Call.exec, ends_bind, ends_pure]
    apply (admit_ends spec nowNs hpage).mono
    · intro outcome s' hr
      obtain ⟨_, _, _, hr⟩ := hr
      cases outcome <;> rw [hr.2] <;> rfl
    · intro fault s' hf
      cases hf <;> rfl
  · exact congrArg AdmissionLedger.policy
      ((Call.exec_keeps call fun spec nowNs hcall => hadmit ⟨spec, nowNs, hcall⟩).after s)

theorem run_page {s : ContinuousScheduler} (calls : List Call)
    (hpage : 1 ≤ (s.policy.kvPageTokens : Nat)) :
    1 ≤ ((run step s calls).policy.kvPageTokens : Nat) := by
  induction calls generalizing s with
  | nil => exact hpage
  | cons call calls ih =>
    apply ih
    rw [step_policy s call hpage]
    exact hpage

/-- In every reachable state a failing admission leaves no trace exactly when it meets no
exhausted number, and in a run of such admissions every attempt is admitted or rejected. -/
theorem failed_admission_traceless_iff {policy : SchedulerPolicy} {s₀ : ContinuousScheduler}
    (hnew : ContinuousScheduler.new policy = .ok s₀) (calls : List Call) :
    (∀ spec nowNs,
      (∀ error s', (admitRequest spec nowNs).run (run step s₀ calls) = .error (.error error) s' →
        s' = run step s₀ calls) ↔ AdmissionFits (run step s₀ calls) spec nowNs) ∧
    (Along step CallFits s₀ calls →
      (run step s₀ calls).stats.admissionAttempts =
        (run step s₀ calls).stats.admittedRequests +
          (run step s₀ calls).stats.rejectedRequests) := by
  have hbalanced := ContinuousScheduler.new_balanced hnew
  have hpage := run_page calls hbalanced.page
  constructor
  · intro spec nowNs
    constructor
    · intro htraceless
      by_contra hfits
      have hends := admit_not_fits hpage hfits
      cases hrun : (admitRequest spec nowNs).run (run step s₀ calls) with
      | ok outcome s' => exact hends.of_ok hrun
      | error fault s' =>
        obtain ⟨rfl, hne⟩ := hends.of_error hrun
        exact hne (htraceless _ _ hrun)
    · intro hfits error s' hrun
      exact (admit_fits hpage hfits).of_error hrun
  · intro halong
    have hend : (run step s₀ calls).ledger.Balanced :=
      run_invariant (fun s => s.ledger.Balanced) hbalanced (fun _ _ => step_balanced) halong
    exact hend.attempts.trans hend.settled.symm

/-- A policy whose reservations exceed 64 bits from the second token on. -/
def wideTokenPolicy : SchedulerPolicy where
  maxActiveRequests := 1
  maxQueuedRequests := 1
  maxBatchRequests := 1
  maxReservedKvBytes := 1
  kvBytesPerToken := 9223372036854775808
  kvPageTokens := 1
  maxPromptTokens := 1
  maxOutputTokens := 1
  serviceQuantumTokens := 1
  prefillChunkTokens := 1
  urgentWindowNs := 0
  maxPrefixCreditTokens := 0

/-- One prompt token and one output token. -/
def twoTokenSpec : RequestSpec where
  id := 1
  arrivalNs := 0
  promptTokens := 1
  prefixReusedTokens := 0
  maxOutputTokens := 1
  priority := 1
  deadlineNs := none

/-- A request that the basic checks reject never computes a reservation. -/
theorem callFits_of_rejection {s : ContinuousScheduler} {spec : RequestSpec} {nowNs : Nat}
    (hseq : s.nextSequence + 1 < 2 ^ 64)
    (hbasic : basicAdmissionRejection s.policy spec nowNs ≠ none) :
    CallFits s (.admitRequest spec nowNs) := by
  rintro _ _ ⟨⟩
  exact .inr (.inr ⟨hseq, fun h => absurd h hbasic⟩)

theorem failed_admission_traceless_iff_rejected :
    let s := run step ⟨wideTokenPolicy, ∅, ∅, [], 0, 0, .default⟩
      [.admitRequest { twoTokenSpec with priority := 0 } 0]
    ((∀ error s', (admitRequest { twoTokenSpec with id := 2 } 0).run s = .error (.error error) s' →
        s' = s) ↔ AdmissionFits s { twoTokenSpec with id := 2 } 0) ∧
      s.stats.admissionAttempts = s.stats.admittedRequests + s.stats.rejectedRequests :=
  have h := @failed_admission_traceless_iff wideTokenPolicy _ rfl
    [.admitRequest { twoTokenSpec with priority := 0 } 0]
  ⟨h.1 { twoTokenSpec with id := 2 } 0,
    h.2 ⟨callFits_of_rejection (by decide) (by decide), trivial⟩⟩

/-- A failing admission that leaves a trace: the attempt stays counted, and neither an admission
nor a rejection answers it. -/
theorem failed_admission_leaves_attempt : ¬ ∀ (policy : SchedulerPolicy) (s₀ : ContinuousScheduler)
    (calls : List Call), ContinuousScheduler.new policy = .ok s₀ →
    (∀ spec nowNs error s', (admitRequest spec nowNs).run (run step s₀ calls) =
      .error (.error error) s' → s' = run step s₀ calls) ∧
    (run step s₀ calls).stats.admissionAttempts =
      (run step s₀ calls).stats.admittedRequests + (run step s₀ calls).stats.rejectedRequests := by
  intro h
  have hcounts := (h wideTokenPolicy _ [.admitRequest twoTokenSpec 0] rfl).2
  revert hcounts
  decide +kernel

end Leone.Scheduler

import Mathlib
import Leone.Scheduler.Model

/-!
# What one scheduler call can do

One specification for each method: the state it leaves, and the reason for each fault. Later
proofs cite these and never unfold a method.
-/

namespace Leone.Scheduler

open Framework Framework.Method

/-! ## Reservations -/

/-- The page-rounded charge, with no value where the source reports an overflow. -/
def reservation? (policy : SchedulerPolicy) (spec : RequestSpec) : Option Nat :=
  ((checkedSub spec.promptTokens spec.prefixReusedTokens).bind fun tokens =>
    checkedAdd 64 tokens spec.maxOutputTokens).bind fun tokens =>
  ((checkedAdd 64 tokens ((policy.kvPageTokens : Nat) - 1)).bind fun tokens =>
    checkedDiv tokens policy.kvPageTokens).bind fun pages =>
  (checkedMul 64 pages policy.kvPageTokens).bind fun tokens =>
    checkedMul 64 tokens policy.kvBytesPerToken

theorem reservationBytes_ends {s : ContinuousScheduler} (spec : RequestSpec)
    (hpage : 1 ≤ (s.policy.kvPageTokens : Nat)) {Q : Nat → ContinuousScheduler → Prop}
    {E : Fault SchedulerError → ContinuousScheduler → Prop} :
    (reservationBytes spec).Ends s Q E ↔
      (∀ bytes, reservation? s.policy spec = some bytes → Q bytes s) ∧
      (reservation? s.policy spec = none → E (.error .accountingOverflow) s) := by
  have hround : checkedSub (s.policy.kvPageTokens : Nat) 1 =
      some ((s.policy.kvPageTokens : Nat) - 1) := by simp [hpage]
  simp only [reservationBytes, reservation?, ends_bind, ends_get, ends_orErr, ends_orPanic, hround,
    Option.some.injEq, forall_eq', reduceCtorEq, false_implies, and_true]
  cases (checkedSub (spec.promptTokens : Nat) spec.prefixReusedTokens).bind
      fun tokens => checkedAdd 64 tokens spec.maxOutputTokens with
  | none => simp
  | some tokens =>
    simp only [Option.bind_some, Option.some.injEq, forall_eq', reduceCtorEq, false_implies,
      and_true]
    cases (checkedAdd 64 tokens ((s.policy.kvPageTokens : Nat) - 1)).bind
        fun tokens => checkedDiv tokens s.policy.kvPageTokens with
    | none => simp
    | some pages => simp

/-! ## Admission -/

/-- The checks that an admitted request passed, with its reservation. -/
structure Admissible (s : ContinuousScheduler) (spec : RequestSpec) (nowNs bytes : Nat) :
    Prop where
  basic : basicAdmissionRejection s.policy spec nowNs = none
  active : (requestCounts s.requests).1 < s.policy.maxActiveRequests
  queued : (requestCounts s.requests).2 < s.policy.maxQueuedRequests
  reservation : reservation? s.policy spec = some bytes
  capacity : s.reservedKvBytes + bytes ≤ s.policy.maxReservedKvBytes

/-- The reservation arithmetic that makes an admission fail with an overflow. -/
def ReservationOverflows (s : ContinuousScheduler) (spec : RequestSpec) : Prop :=
  ∀ bytes, reservation? s.policy spec = some bytes → 2 ^ 64 ≤ s.reservedKvBytes + bytes

theorem admissionRejection_ends {s : ContinuousScheduler} (spec : RequestSpec) (nowNs : Nat)
    (hpage : 1 ≤ (s.policy.kvPageTokens : Nat)) :
    (admissionRejection spec nowNs).Ends s
      (fun rejection s' => s' = s ∧ (rejection = none ↔ ∃ bytes, Admissible s spec nowNs bytes))
      (fun fault s' => s' = s ∧ fault = .error .accountingOverflow ∧
        ReservationOverflows s spec) := by
  simp only [admissionRejection, ends_bind, ends_get]
  cases hbasic : basicAdmissionRejection s.policy spec nowNs with
  | some reason =>
    have hnot : ¬ ∃ bytes, Admissible s spec nowNs bytes := by
      rintro ⟨bytes, ha⟩
      simpa [hbasic] using ha.basic
    simp [hnot]
  | none =>
    simp only [ends_ite, ends_pure, ends_bind, reservationBytes_ends spec hpage, ends_orErr,
      checkedAdd_eq_some, checkedAdd_eq_none, true_and, and_imp]
    refine ⟨fun hfull => ?_, fun hactive => ⟨fun hfull => ?_, fun hqueued =>
      ⟨fun bytes hbytes => ⟨?_, ?_⟩, ?_⟩⟩⟩
    · simp only [reduceCtorEq, false_iff]
      rintro ⟨bytes, ha⟩
      exact absurd ha.active (not_lt.mpr hfull)
    · simp only [reduceCtorEq, false_iff]
      rintro ⟨bytes, ha⟩
      exact absurd ha.queued (not_lt.mpr hfull)
    · rintro reserved hlt rfl
      refine ⟨fun hover => ?_, fun hfits => ?_⟩
      · simp only [reduceCtorEq, false_iff]
        rintro ⟨bytes', ha⟩
        have hcap := ha.capacity
        have heq : bytes = bytes' := by simpa [hbytes] using ha.reservation
        omega
      · simp only [true_iff]
        exact ⟨bytes, hbasic, by omega, by omega, hbytes, by omega⟩
    · intro hover bytes' hbytes'
      rw [hbytes] at hbytes'
      cases hbytes'
      exact hover
    · intro hnone bytes hbytes
      simp [hnone] at hbytes

theorem basicAdmissionRejection_eq_none {policy : SchedulerPolicy} {spec : RequestSpec}
    {nowNs : Nat} (h : basicAdmissionRejection policy spec nowNs = none) :
    (spec.prefixReusedTokens : Nat) ≤ spec.promptTokens ∧ 1 ≤ (spec.maxOutputTokens : Nat) ∧
      1 ≤ (spec.priority : Nat) ∧ ∀ deadline, spec.deadlineNs = some deadline → nowNs < deadline := by
  unfold basicAdmissionRejection at h
  split_ifs at h with hreused hprompt houtput hpriority hdeadline
  refine ⟨not_lt.mp hreused, ?_, ?_, ?_⟩
  · exact Nat.pos_of_ne_zero fun h => houtput (Or.inl (Fin.ext h))
  · exact Nat.pos_of_ne_zero fun h => hpriority (Or.inl (Fin.ext h))
  · intro deadline hsome
    simpa [hsome] using hdeadline

/-- The state with one more admission attempt counted. -/
def attempted (s : ContinuousScheduler) : ContinuousScheduler :=
  { s with stats := { s.stats with
    admissionAttempts := wrappingAdd 64 s.stats.admissionAttempts 1 } }

/-- The record that admission creates for an accepted request. -/
def queuedRecord (s : ContinuousScheduler) (spec : RequestSpec) (bytes : Nat) : RequestState :=
  newRecord s spec .queued bytes ((spec.promptTokens : Nat) - spec.prefixReusedTokens)

/-- The state after a typed rejection. The rejected record holds no reservation. -/
def rejectedState (s : ContinuousScheduler) (spec : RequestSpec) : ContinuousScheduler :=
  { s with
    requests := s.requests.insert spec.id (newRecord s spec .rejected 0 0)
    nextSequence := s.nextSequence + 1
    stats := { (attempted s).stats with
      rejectedRequests := wrappingAdd 64 s.stats.rejectedRequests 1 } }

/-- The state after an admission that reserved `bytes`. -/
def admittedState (s : ContinuousScheduler) (spec : RequestSpec) (bytes : Nat) :
    ContinuousScheduler :=
  updateHighWatermarks { s with
    requests := s.requests.insert spec.id (queuedRecord s spec bytes)
    nextSequence := s.nextSequence + 1
    reservedKvBytes := s.reservedKvBytes + bytes
    stats := { (attempted s).stats with
      admittedRequests := wrappingAdd 64 s.stats.admittedRequests 1 } }

/-- The state of an admission that ran out of sequence numbers after it stored the record. -/
def strandedState (s : ContinuousScheduler) (record : RequestState) : ContinuousScheduler :=
  { attempted s with requests := s.requests.insert record.spec.id record }

theorem insertRequest_rejected_ends {s : ContinuousScheduler} (spec : RequestSpec)
    (reason : AdmissionReject) :
    (insertRequest spec (some reason)).Ends s
      (fun bytes s' => bytes = 0 ∧ s.nextSequence + 1 < 2 ^ 64 ∧ s' = { s with
        requests := s.requests.insert spec.id (newRecord s spec .rejected 0 0)
        nextSequence := s.nextSequence + 1 })
      (fun fault s' => fault = .error .accountingOverflow ∧ 2 ^ 64 ≤ s.nextSequence + 1 ∧
        s' = { s with
          requests := s.requests.insert spec.id (newRecord s spec .rejected 0 0) }) := by
  simp [insertRequest]

theorem insertRequest_queued_ends {s : ContinuousScheduler} {spec : RequestSpec} {bytes : Nat}
    (hpage : 1 ≤ (s.policy.kvPageTokens : Nat)) (hbytes : reservation? s.policy spec = some bytes)
    (hreused : (spec.prefixReusedTokens : Nat) ≤ spec.promptTokens) :
    (insertRequest spec none).Ends s
      (fun bytes' s' => bytes' = bytes ∧ s.nextSequence + 1 < 2 ^ 64 ∧ s' = { s with
        requests := s.requests.insert spec.id (queuedRecord s spec bytes)
        nextSequence := s.nextSequence + 1 })
      (fun fault s' => fault = .error .accountingOverflow ∧ 2 ^ 64 ≤ s.nextSequence + 1 ∧
        s' = { s with requests := s.requests.insert spec.id (queuedRecord s spec bytes) }) := by
  have hlt : ¬ spec.promptTokens < spec.prefixReusedTokens := not_lt.mpr hreused
  simp [insertRequest, reservationBytes_ends spec hpage, hbytes, hlt, queuedRecord]

/-- What an admission that returns has checked, and the state it leaves. -/
def AdmitReturns (s : ContinuousScheduler) (spec : RequestSpec) (nowNs : Nat)
    (outcome : AdmissionOutcome) (s' : ContinuousScheduler) : Prop :=
  s.requests.get? spec.id = none ∧ (spec.arrivalNs : Nat) ≤ nowNs ∧ s.nextSequence + 1 < 2 ^ 64 ∧
  match outcome with
  | .rejected _ => (∀ bytes, ¬ Admissible s spec nowNs bytes) ∧ s' = rejectedState s spec
  | .admitted bytes => Admissible s spec nowNs bytes ∧ s' = admittedState s spec bytes

/-- Why an admission can fail, and the state it leaves. -/
inductive AdmitFails (s : ContinuousScheduler) (spec : RequestSpec) (nowNs : Nat) :
    Fault SchedulerError → ContinuousScheduler → Prop
  | duplicate (h : s.requests.contains spec.id) :
      AdmitFails s spec nowNs (.error (.duplicateRequest spec.id)) s
  | future (h : nowNs < spec.arrivalNs) :
      AdmitFails s spec nowNs (.error (.futureArrival spec.id)) s
  | reservation (h : s.requests.get? spec.id = none) (ho : ReservationOverflows s spec) :
      AdmitFails s spec nowNs (.error .accountingOverflow) (attempted s)
  | strandedRejected (h : s.requests.get? spec.id = none) (ho : 2 ^ 64 ≤ s.nextSequence + 1)
      (hr : ∀ bytes, ¬ Admissible s spec nowNs bytes) :
      AdmitFails s spec nowNs (.error .accountingOverflow)
        (strandedState s (newRecord s spec .rejected 0 0))
  | strandedQueued (bytes : Nat) (h : s.requests.get? spec.id = none)
      (ho : 2 ^ 64 ≤ s.nextSequence + 1) (ha : Admissible s spec nowNs bytes)
      (hat : (spec.arrivalNs : Nat) ≤ nowNs) :
      AdmitFails s spec nowNs (.error .accountingOverflow)
        (strandedState s (queuedRecord s spec bytes))

theorem admissible_attempted {s : ContinuousScheduler} {spec : RequestSpec} {nowNs bytes : Nat} :
    Admissible (attempted s) spec nowNs bytes ↔ Admissible s spec nowNs bytes :=
  ⟨fun h => ⟨h.basic, h.active, h.queued, h.reservation, h.capacity⟩,
    fun h => ⟨h.basic, h.active, h.queued, h.reservation, h.capacity⟩⟩

theorem admit_ends {s : ContinuousScheduler} (spec : RequestSpec) (nowNs : Nat)
    (hpage : 1 ≤ (s.policy.kvPageTokens : Nat)) :
    (admitRequest spec nowNs).Ends s (AdmitReturns s spec nowNs) (AdmitFails s spec nowNs) := by
  simp only [admitRequest, ends_bind, ends_get, ends_ensure, ends_modify]
  refine ⟨fun hfresh => ⟨fun harrived => ?_, ?_⟩, ?_⟩
  · have hnone : s.requests.get? spec.id = none := by
      simpa [SortedMap.contains] using hfresh
    refine (admissionRejection_ends (s := attempted s) spec nowNs hpage).mono ?_ ?_
    · rintro rejection _ ⟨rfl, hadm⟩
      cases rejection with
      | some reason =>
        have hrefused : ∀ bytes, ¬ Admissible s spec nowNs bytes := fun bytes ha =>
          absurd (hadm.mpr ⟨bytes, admissible_attempted.mpr ha⟩) (by simp)
        refine (insertRequest_rejected_ends spec reason).mono ?_ ?_
        · rintro _ _ ⟨rfl, hseq, rfl⟩
          exact ⟨hnone, harrived, hseq, hrefused, rfl⟩
        · rintro _ _ ⟨rfl, hseq, rfl⟩
          exact .strandedRejected hnone hseq hrefused
      | none =>
        obtain ⟨bytes, hbytes⟩ := hadm.mp rfl
        have hreused := (basicAdmissionRejection_eq_none hbytes.basic).1
        refine (insertRequest_queued_ends (s := attempted s) hpage hbytes.reservation
          hreused).mono ?_ ?_
        · rintro _ _ ⟨rfl, hseq, rfl⟩
          have hcap := hbytes.capacity
          have hmax := (attempted s).policy.maxReservedKvBytes.isLt
          simp only [ends_bind, ends_get, ends_orErr, checkedAdd_eq_some, checkedAdd_eq_none,
            ends_modify, ends_pure, and_imp]
          refine ⟨?_, fun hover => absurd hover (by omega)⟩
          rintro reserved hlt rfl
          exact ⟨hnone, harrived, hseq, (admissible_attempted.mp hbytes), rfl⟩
        · rintro _ _ ⟨rfl, hseq, rfl⟩
          exact .strandedQueued bytes hnone hseq (admissible_attempted.mp hbytes) harrived
    · rintro _ _ ⟨rfl, rfl, hover⟩
      exact .reservation hnone hover
  · intro hlate
    exact .future (not_le.mp hlate)
  · intro hdup
    exact .duplicate (not_not.mp hdup)

/-- A fresh request that passes the checks is admitted. -/
theorem Admissible.admit_ends {s : ContinuousScheduler} {spec : RequestSpec} {nowNs bytes : Nat}
    (h : Admissible s spec nowNs bytes) (hpage : 1 ≤ (s.policy.kvPageTokens : Nat))
    (hfresh : s.requests.get? spec.id = none) (harrived : (spec.arrivalNs : Nat) ≤ nowNs)
    (hseq : s.nextSequence + 1 < 2 ^ 64) :
    (admitRequest spec nowNs).Ends s
      (fun outcome s' => outcome = .admitted bytes ∧ s' = admittedState s spec bytes)
      (fun _ _ => False) := by
  refine (Scheduler.admit_ends spec nowNs hpage).mono ?_ ?_
  · rintro (bytes' | reason) s' ⟨-, -, -, hr⟩
    · have heq : bytes = bytes' := by simpa [h.reservation] using hr.1.reservation
      exact ⟨by rw [heq], heq ▸ hr.2⟩
    · exact absurd h (hr.1 bytes)
  · rintro _ _ hf
    cases hf with
    | duplicate hdup =>
      obtain ⟨state, hget⟩ := SortedMap.contains_iff.mp hdup
      simp [hget] at hfresh
    | future hlate => omega
    | reservation _ hover =>
      have hbytes := hover bytes h.reservation
      have hcap := h.capacity
      have hmax := s.policy.maxReservedKvBytes.isLt
      omega
    | strandedRejected _ hover => omega
    | strandedQueued _ _ hover => omega

/-! ## Releasing a reservation -/

/-- The state after a record gave its reservation back. -/
def releasedState (s : ContinuousScheduler) (id : RequestId) (state : RequestState) :
    ContinuousScheduler :=
  { s with
    reservedKvBytes := s.reservedKvBytes - state.reservedKvBytes
    requests := s.requests.insert id { state with reservedKvBytes := 0 } }

theorem release_ends {s : ContinuousScheduler} (id : RequestId) (state : RequestState)
    {Q : Unit → ContinuousScheduler → Prop}
    {E : Fault SchedulerError → ContinuousScheduler → Prop} :
    (release id state).Ends s Q E ↔
      (state.reservedKvBytes ≤ s.reservedKvBytes → Q () (releasedState s id state)) ∧
      (s.reservedKvBytes < state.reservedKvBytes → E .panic s) := by
  simp [release, releasedState]

/-! ## Committing a quantum -/

/-- The virtual time of `progress` tokens at a nonzero priority. -/
def charge (progress priority : Nat) : Nat := saturatingMul 128 progress 1024 ⌈/⌉ priority

theorem charge_lt {progress priority : Nat} (h : 1 ≤ priority) :
    charge progress priority < 2 ^ 128 := by
  have hsat : saturatingMul 128 progress 1024 < 2 ^ 128 := by
    unfold saturatingMul
    omega
  refine lt_of_le_of_lt ?_ hsat
  rw [charge, ceilDiv_le_iff_le_mul h]
  exact Nat.le_mul_of_pos_left _ h

/-- The record after its progress was added and before its status was decided. -/
def progressedRecord (kind : DispatchKind) (emitted progress : Nat) (ready : Bool)
    (state : RequestState) : RequestState :=
  match kind with
  | .prefill => { state with
      remainingPrefillTokens := if ready then 0 else state.remainingPrefillTokens - progress
      virtualRuntime := state.virtualRuntime + charge progress state.spec.priority }
  | .decode => { state with
      remainingTokens := state.remainingTokens - emitted
      emittedTokens := state.emittedTokens + emitted
      virtualRuntime := state.virtualRuntime + charge emitted state.spec.priority }

def progressedStats (kind : DispatchKind) (emitted progress : Nat) (stats : SchedulerStats) :
    SchedulerStats :=
  match kind with
  | .prefill => { stats with
      prefillChunks := stats.prefillChunks + 1
      prefillTokens := stats.prefillTokens + progress
      emittedTokens := stats.emittedTokens + emitted }
  | .decode => { stats with
      decodeQuanta := stats.decodeQuanta + 1
      emittedTokens := stats.emittedTokens + emitted }

/-- Every checked counter of a commit has room for it. -/
def QuantumFits (kind : DispatchKind) (emitted progress : Nat) (ready : Bool)
    (state : RequestState) (stats : SchedulerStats) : Prop :=
  stats.emittedTokens + emitted < 2 ^ 64 ∧
  match kind with
  | .prefill => (ready = false → progress ≤ state.remainingPrefillTokens) ∧
      stats.prefillChunks + 1 < 2 ^ 64 ∧ stats.prefillTokens + progress < 2 ^ 64 ∧
      state.virtualRuntime + charge progress state.spec.priority < 2 ^ 128
  | .decode => stats.decodeQuanta + 1 < 2 ^ 64 ∧ state.emittedTokens + emitted < 2 ^ 64 ∧
      state.virtualRuntime + charge emitted state.spec.priority < 2 ^ 128

instance (kind : DispatchKind) (emitted progress : Nat) (ready : Bool)
    (state : RequestState) (stats : SchedulerStats) :
    Decidable (QuantumFits kind emitted progress ready state stats) :=
  match kind with
  | .prefill => inferInstanceAs (Decidable (_ ∧ (_ → _) ∧ _ ∧ _ ∧ _))
  | .decode => inferInstanceAs (Decidable (_ ∧ _ ∧ _ ∧ _))

/-- Two versions of a record that differ in nothing but its progress. -/
structure SameStanding (state state' : RequestState) : Prop where
  spec : state'.spec = state.spec
  status : state'.status = state.status
  reserved : state'.reservedKvBytes = state.reservedKvBytes
  sequence : state'.sequence = state.sequence
  cancellation : state'.cancellationRequested = state.cancellationRequested

theorem SameStanding.refl (state : RequestState) : SameStanding state state :=
  ⟨rfl, rfl, rfl, rfl, rfl⟩

/-- Two versions of the counters that differ in nothing but the work of the two phases. -/
def SameSettled (stats stats' : SchedulerStats) : Prop :=
  stats' = { stats with
    prefillChunks := stats'.prefillChunks
    prefillTokens := stats'.prefillTokens
    decodeQuanta := stats'.decodeQuanta }

theorem SameSettled.emittedTokens {stats stats' : SchedulerStats} (h : SameSettled stats stats') :
    stats'.emittedTokens = stats.emittedTokens :=
  (congrArg SchedulerStats.emittedTokens h).trans rfl

/-- A record whose commit stopped at an overflow: the tokens may already be deducted. -/
structure PartlyCommitted (kind : DispatchKind) (emitted : Nat) (state : RequestState)
    (stats : SchedulerStats) (state' : RequestState) (stats' : SchedulerStats) : Prop where
  standing : SameStanding state state'
  prefill : kind = .prefill → state'.remainingTokens = state.remainingTokens ∧
    state'.emittedTokens = state.emittedTokens
  decode : kind = .decode → state'.remainingTokens + emitted = state.remainingTokens ∧
    (state'.emittedTokens = state.emittedTokens ∨
      state'.emittedTokens = state.emittedTokens + emitted)
  runtime : stats.emittedTokens + emitted < 2 ^ 64 → state'.virtualRuntime = state.virtualRuntime
  total : SameSettled stats stats'

theorem progressedRecord_standing (kind : DispatchKind) (emitted progress : Nat) (ready : Bool)
    (state : RequestState) :
    SameStanding state (progressedRecord kind emitted progress ready state) := by
  cases kind <;> exact ⟨rfl, rfl, rfl, rfl, rfl⟩

theorem runtimeCharge_eq_some {progress priority c : Nat} :
    runtimeCharge progress priority = some c ↔ priority ≠ 0 ∧ charge progress priority = c :=
  divCeil_eq_some

theorem applyPrefillProgress_ends (progress : Nat) (ready : Bool) (state : RequestState)
    (stats : SchedulerStats) :
    (applyPrefillProgress progress ready).Ends (state, stats)
      (fun result after => result = progress ∧
        (ready = false → progress ≤ state.remainingPrefillTokens) ∧
        stats.prefillChunks + 1 < 2 ^ 64 ∧ stats.prefillTokens + progress < 2 ^ 64 ∧
        after = ({ state with remainingPrefillTokens :=
          if ready then 0 else state.remainingPrefillTokens - progress },
          { stats with
            prefillChunks := stats.prefillChunks + 1
            prefillTokens := stats.prefillTokens + progress }))
      (fun fault after => fault = .error .accountingOverflow ∧
        ¬ ((ready = false → progress ≤ state.remainingPrefillTokens) ∧
          stats.prefillChunks + 1 < 2 ^ 64 ∧ stats.prefillTokens + progress < 2 ^ 64) ∧
        SameStanding state after.1 ∧ after.1.remainingTokens = state.remainingTokens ∧
        after.1.emittedTokens = state.emittedTokens ∧
        after.1.virtualRuntime = state.virtualRuntime ∧
        SameSettled stats after.2) := by
  have htail (remaining : Nat) : SameStanding state
      { state with remainingPrefillTokens := remaining } := ⟨rfl, rfl, rfl, rfl, rfl⟩
  cases ready
  · simp only [applyPrefillProgress, Bool.false_eq_true, if_false, ends_bind, ends_get, ends_orErr,
      checkedSub_eq_some, checkedSub_eq_none, checkedAdd_eq_some, checkedAdd_eq_none, ends_modify,
      ends_pure, and_imp]
    refine ⟨?_, fun hunder => ⟨trivial, fun h => absurd (h.1 trivial) (not_le.mpr hunder), .refl state,
      trivial, trivial, trivial, rfl⟩⟩
    rintro _ hle rfl
    refine ⟨?_, fun hover => ⟨trivial, by omega, htail _, trivial, trivial, trivial, rfl⟩⟩
    rintro _ hchunks rfl
    refine ⟨?_, fun hover => ⟨trivial, by omega, htail _, trivial, trivial, trivial, rfl⟩⟩
    rintro _ htokens rfl
    exact ⟨trivial, fun _ => hle, hchunks, htokens, rfl⟩
  · simp only [applyPrefillProgress, if_true, ends_bind, ends_get, ends_orErr, checkedAdd_eq_some,
      checkedAdd_eq_none, ends_modify, ends_pure, and_imp]
    refine ⟨?_, fun hover => ⟨trivial, by omega, htail _, trivial, trivial, trivial, rfl⟩⟩
    rintro _ hchunks rfl
    refine ⟨?_, fun hover => ⟨trivial, by omega, htail _, trivial, trivial, trivial, rfl⟩⟩
    rintro _ htokens rfl
    exact ⟨trivial, by simp, hchunks, htokens, rfl⟩

theorem applyDecodeProgress_ends (emitted : Nat) (state : RequestState) (stats : SchedulerStats) :
    (applyDecodeProgress emitted).Ends (state, stats)
      (fun result after => result = emitted ∧ emitted ≤ state.remainingTokens ∧
        stats.decodeQuanta + 1 < 2 ^ 64 ∧ state.emittedTokens + emitted < 2 ^ 64 ∧
        after = ({ state with
          remainingTokens := state.remainingTokens - emitted
          emittedTokens := state.emittedTokens + emitted },
          { stats with decodeQuanta := stats.decodeQuanta + 1 }))
      (fun fault after =>
        (fault = .panic ∧ state.remainingTokens < emitted) ∨
        (fault = .error .accountingOverflow ∧
          ¬ (stats.decodeQuanta + 1 < 2 ^ 64 ∧ state.emittedTokens + emitted < 2 ^ 64) ∧
          PartlyCommitted .decode emitted state stats after.1 after.2)) := by
  simp only [applyDecodeProgress, ends_bind, ends_get, ends_orPanic, ends_orErr,
    checkedSub_eq_some, checkedSub_eq_none, checkedAdd_eq_some, checkedAdd_eq_none, ends_modify,
    ends_pure, and_imp]
  refine ⟨?_, fun hunder => .inl ⟨trivial, hunder⟩⟩
  rintro _ hle rfl
  have hpartial (stats' : SchedulerStats) (hstats : SameSettled stats stats') :
      PartlyCommitted .decode emitted state stats
        { state with remainingTokens := state.remainingTokens - emitted } stats' :=
    ⟨⟨rfl, rfl, rfl, rfl, rfl⟩, by simp, fun _ => ⟨Nat.sub_add_cancel hle, .inl rfl⟩,
      fun _ => rfl, hstats⟩
  refine ⟨?_, fun hover => .inr ⟨trivial, by omega, hpartial _ rfl⟩⟩
  rintro _ hquanta rfl
  refine ⟨?_, fun hover => .inr ⟨trivial, by omega, hpartial _ rfl⟩⟩
  rintro _ hemitted rfl
  exact ⟨trivial, hle, hquanta, hemitted, rfl⟩

/-- The common tail of a commit: the virtual-runtime charge, the token count and the status. -/
def settleQuantum (dispatch : Dispatch) (emittedTokens : Nat) (eos : Bool) (progressTokens : Nat) :
    QuantumM Unit := do
  let charge ← orPanic (runtimeCharge progressTokens (← get).1.spec.priority)
  let runtime ← orErr (checkedAdd 128 (← get).1.virtualRuntime charge) .accountingOverflow
  modify fun p => ({ p.1 with virtualRuntime := runtime }, p.2)
  let emitted ← orErr (checkedAdd 64 (← get).2.emittedTokens emittedTokens) .accountingOverflow
  modify fun p => (p.1, { p.2 with emittedTokens := emitted })
  modify fun p => applyQuantumStatus dispatch.kind emittedTokens eos p.1 p.2

theorem applyQuantumState_eq (dispatch : Dispatch) (emitted progress : Nat) (ready eos : Bool) :
    applyQuantumState dispatch emitted progress ready eos =
      (match dispatch.kind with
        | .prefill => applyPrefillProgress progress ready
        | .decode => applyDecodeProgress emitted) >>= settleQuantum dispatch emitted eos := by
  obtain ⟨id, budget, ns, kind⟩ := dispatch
  cases kind <;> rfl

theorem settleQuantum_ends (dispatch : Dispatch) (emitted progress : Nat) (eos : Bool)
    (state : RequestState) (stats : SchedulerStats) :
    (settleQuantum dispatch emitted eos progress).Ends (state, stats)
      (fun _ after => (state.spec.priority : Nat) ≠ 0 ∧
        state.virtualRuntime + charge progress state.spec.priority < 2 ^ 128 ∧
        stats.emittedTokens + emitted < 2 ^ 64 ∧
        after = applyQuantumStatus dispatch.kind emitted eos
          { state with
            virtualRuntime := state.virtualRuntime + charge progress state.spec.priority }
          { stats with emittedTokens := stats.emittedTokens + emitted })
      (fun fault after =>
        (fault = .panic ∧ (state.spec.priority : Nat) = 0) ∨
        (fault = .error .accountingOverflow ∧
          ¬ (state.virtualRuntime + charge progress state.spec.priority < 2 ^ 128 ∧
            stats.emittedTokens + emitted < 2 ^ 64) ∧
          SameStanding state after.1 ∧ after.1.remainingTokens = state.remainingTokens ∧
          after.1.emittedTokens = state.emittedTokens ∧
          (stats.emittedTokens + emitted < 2 ^ 64 →
            after.1.virtualRuntime = state.virtualRuntime) ∧
          SameSettled stats after.2)) := by
  simp only [settleQuantum, ends_bind, ends_get, ends_orPanic, ends_orErr, runtimeCharge_eq_some,
    checkedAdd_eq_some, checkedAdd_eq_none, ends_modify, and_imp]
  refine ⟨?_, fun hzero => .inl ⟨trivial, divCeil_eq_none.mp hzero⟩⟩
  rintro _ hpriority rfl
  refine ⟨?_, fun hover => .inr ⟨trivial, by omega, .refl state, trivial, trivial, by simp, rfl⟩⟩
  rintro _ hruntime rfl
  refine ⟨?_, fun hover => .inr ⟨trivial, by omega, ⟨rfl, rfl, rfl, rfl, rfl⟩, trivial, trivial,
    fun hfits => absurd hfits (not_lt.mpr hover), rfl⟩⟩
  rintro _ hemitted rfl
  exact ⟨hpriority, hruntime, hemitted, rfl⟩

theorem applyQuantumState_ends (dispatch : Dispatch) (emitted progress : Nat) (ready eos : Bool)
    (state : RequestState) (stats : SchedulerStats) :
    (applyQuantumState dispatch emitted progress ready eos).Ends (state, stats)
      (fun _ after => (state.spec.priority : Nat) ≠ 0 ∧
        (dispatch.kind = .decode → emitted ≤ state.remainingTokens) ∧
        QuantumFits dispatch.kind emitted progress ready state stats ∧
        after = applyQuantumStatus dispatch.kind emitted eos
          (progressedRecord dispatch.kind emitted progress ready state)
          (progressedStats dispatch.kind emitted progress stats))
      (fun fault after =>
        (fault = .panic ∧ ((state.spec.priority : Nat) = 0 ∨
          dispatch.kind = .decode ∧ state.remainingTokens < emitted)) ∨
        (fault = .error .accountingOverflow ∧
          ¬ QuantumFits dispatch.kind emitted progress ready state stats ∧
          PartlyCommitted dispatch.kind emitted state stats after.1 after.2)) := by
  rw [applyQuantumState_eq, ends_bind]
  cases hkind : dispatch.kind with
  | prefill =>
    refine (applyPrefillProgress_ends progress ready state stats).mono ?_ ?_
    · rintro _ _ ⟨rfl, hle, hchunks, htokens, rfl⟩
      refine (settleQuantum_ends dispatch emitted _ eos _ _).mono ?_ ?_
      · rintro _ _ ⟨hpriority, hruntime, hemitted, rfl⟩
        rw [hkind]
        exact ⟨hpriority, by simp, ⟨hemitted, hle, hchunks, htokens, hruntime⟩, rfl⟩
      · rintro _ _ (⟨rfl, hzero⟩ | ⟨rfl, hover, hstanding, htokens', hemitted', hruntime, htotal⟩)
        · exact .inl ⟨rfl, .inl hzero⟩
        · refine .inr ⟨rfl, fun hfits => hover ⟨hfits.2.2.2.2, hfits.1⟩, ?_⟩
          exact ⟨⟨hstanding.1, hstanding.2, hstanding.3, hstanding.4, hstanding.5⟩,
            fun _ => ⟨htokens', hemitted'⟩, by simp, hruntime, htotal⟩
    · rintro _ _ ⟨rfl, hover, hstanding, htokens', hemitted', hruntime, htotal⟩
      exact .inr ⟨rfl, fun hfits => hover ⟨hfits.2.1, hfits.2.2.1, hfits.2.2.2.1⟩,
        ⟨hstanding, fun _ => ⟨htokens', hemitted'⟩, by simp, fun _ => hruntime, htotal⟩⟩
  | decode =>
    refine (applyDecodeProgress_ends emitted state stats).mono ?_ ?_
    · rintro _ _ ⟨rfl, hle, hquanta, htokens, rfl⟩
      refine (settleQuantum_ends dispatch _ _ eos _ _).mono ?_ ?_
      · rintro _ _ ⟨hpriority, hruntime, hemitted, rfl⟩
        rw [hkind]
        exact ⟨hpriority, fun _ => hle, ⟨hemitted, hquanta, htokens, hruntime⟩, rfl⟩
      · rintro _ _ (⟨rfl, hzero⟩ | ⟨rfl, hover, hstanding, htokens', hemitted', hruntime, htotal⟩)
        · exact .inl ⟨rfl, .inl hzero⟩
        · refine .inr ⟨rfl, fun hfits => hover ⟨hfits.2.2.2, hfits.1⟩, ?_⟩
          refine ⟨⟨hstanding.1, hstanding.2, hstanding.3, hstanding.4, hstanding.5⟩, by simp,
            fun _ => ⟨?_, .inr hemitted'⟩, hruntime, htotal⟩
          rw [htokens']
          exact Nat.sub_add_cancel hle
    · rintro _ _ (⟨rfl, hunder⟩ | ⟨rfl, hover, hpartial⟩)
      · exact .inl ⟨rfl, .inr ⟨rfl, hunder⟩⟩
      · exact .inr ⟨rfl, fun hfits => hover ⟨hfits.2.1, hfits.2.2.1⟩, hpartial⟩

/-- The status that a commit leaves, from the record with its progress already added. -/
def settledStatus (kind : DispatchKind) (eos : Bool) (state : RequestState) : RequestStatus :=
  if state.cancellationRequested then .cancelled
  else if kind = .prefill then .queued
  else if eos ∨ state.remainingTokens = 0 then .finished
  else .queued

/-- The record after a commit, with its reservation still in place. -/
def committedRecord (kind : DispatchKind) (emitted progress : Nat) (ready eos : Bool)
    (state : RequestState) : RequestState :=
  { progressedRecord kind emitted progress ready state with
    status := settledStatus kind eos (progressedRecord kind emitted progress ready state) }

def committedStats (kind : DispatchKind) (emitted progress : Nat) (ready eos : Bool)
    (state : RequestState) (stats : SchedulerStats) : SchedulerStats :=
  (applyQuantumStatus kind emitted eos (progressedRecord kind emitted progress ready state)
    (progressedStats kind emitted progress stats)).2

theorem applyQuantumStatus_fst (kind : DispatchKind) (emitted : Nat) (eos : Bool)
    (state : RequestState) (stats : SchedulerStats) :
    (applyQuantumStatus kind emitted eos state stats).1 =
      { state with status := settledStatus kind eos state } := by
  unfold applyQuantumStatus settledStatus
  split_ifs <;> rfl

theorem settledStatus_ne_running (kind : DispatchKind) (eos : Bool) (state : RequestState) :
    settledStatus kind eos state ≠ .running := by
  unfold settledStatus
  split_ifs <;> simp

theorem settledStatus_live {kind : DispatchKind} {eos : Bool} {state : RequestState}
    (h : ¬ (settledStatus kind eos state).isTerminal) : settledStatus kind eos state = .queued := by
  unfold settledStatus at *
  split_ifs at * <;> simp_all [RequestStatus.isTerminal]

/-- Deciding the status touches only the counters of terminal requests. -/
theorem committedStats_eq (kind : DispatchKind) (emitted progress : Nat) (ready eos : Bool)
    (state : RequestState) (stats : SchedulerStats) :
    ∃ completed cancelled overshoot, committedStats kind emitted progress ready eos state stats =
      { progressedStats kind emitted progress stats with
        completedRequests := completed
        cancelledRequests := cancelled
        maxCancellationOvershootTokens := overshoot } := by
  unfold committedStats applyQuantumStatus
  split_ifs <;> exact ⟨_, _, _, rfl⟩

@[simp] theorem committedRecord_spec (kind : DispatchKind) (emitted progress : Nat)
    (ready eos : Bool) (state : RequestState) :
    (committedRecord kind emitted progress ready eos state).spec = state.spec :=
  (progressedRecord_standing kind emitted progress ready state).spec

@[simp] theorem committedRecord_reserved (kind : DispatchKind) (emitted progress : Nat)
    (ready eos : Bool) (state : RequestState) :
    (committedRecord kind emitted progress ready eos state).reservedKvBytes =
      state.reservedKvBytes :=
  (progressedRecord_standing kind emitted progress ready state).reserved

/-- The state after a commit. A terminal record gives its reservation back. -/
def committedState (s : ContinuousScheduler) (id : RequestId) (record : RequestState)
    (stats : SchedulerStats) : ContinuousScheduler :=
  { s with
    requests := s.requests.insert id
      (if record.status.isTerminal then { record with reservedKvBytes := 0 } else record)
    running := s.running.remove id
    reservedKvBytes :=
      if record.status.isTerminal then s.reservedKvBytes - record.reservedKvBytes
      else s.reservedKvBytes
    stats }

/-- What a completion that returns has found and checked, and the state it leaves. -/
structure CompleteReturns (s : ContinuousScheduler) (id : RequestId) (emitted progress : Nat)
    (ready eos : Bool) (completion : QuantumCompletion) (s' : ContinuousScheduler)
    (dispatch : Dispatch) (state : RequestState) : Prop where
  running : s.running.get? id = some dispatch
  request : s.requests.get? id = some state
  valid : validateQuantumCompletion dispatch id emitted progress = .ok ()
  emitted_le : dispatch.kind = .decode → emitted ≤ state.remainingTokens
  fits : QuantumFits dispatch.kind emitted progress ready state s.stats
  completion_eq : completion =
    ⟨id, emitted, (committedRecord dispatch.kind emitted progress ready eos state).status⟩
  state_eq : s' = committedState s id
    (committedRecord dispatch.kind emitted progress ready eos state)
    (committedStats dispatch.kind emitted progress ready eos state s.stats)

/-- Why a completion can fail, and the state it leaves. -/
inductive CompleteFails (s : ContinuousScheduler) (id : RequestId) (emitted progress : Nat)
    (ready : Bool) : Fault SchedulerError → ContinuousScheduler → Prop
  | notRunning (h : s.running.get? id = none) :
      CompleteFails s id emitted progress ready (.error (.notRunning id)) s
  | invalid (dispatch : Dispatch) (error : SchedulerError)
      (hd : s.running.get? id = some dispatch)
      (h : validateQuantumCompletion dispatch id emitted progress = .error error) :
      CompleteFails s id emitted progress ready (.error error) s
  | unknown (dispatch : Dispatch) (hd : s.running.get? id = some dispatch)
      (h : s.requests.get? id = none) :
      CompleteFails s id emitted progress ready (.error (.unknownRequest id)) s
  | overflow (dispatch : Dispatch) (state state' : RequestState) (stats : SchedulerStats)
      (hd : s.running.get? id = some dispatch) (hs : s.requests.get? id = some state)
      (hv : validateQuantumCompletion dispatch id emitted progress = .ok ())
      (hf : ¬ QuantumFits dispatch.kind emitted progress ready state s.stats)
      (h : PartlyCommitted dispatch.kind emitted state s.stats state' stats) :
      CompleteFails s id emitted progress ready (.error .accountingOverflow)
        { s with requests := s.requests.insert id state', stats }
  | panic (dispatch : Dispatch) (state : RequestState) (s' : ContinuousScheduler)
      (hd : s.running.get? id = some dispatch) (hs : s.requests.get? id = some state)
      (hv : validateQuantumCompletion dispatch id emitted progress = .ok ())
      (h : (state.spec.priority : Nat) = 0 ∨
        (dispatch.kind = .decode ∧ state.remainingTokens < emitted) ∨
        s.reservedKvBytes < state.reservedKvBytes) :
      CompleteFails s id emitted progress ready .panic s'

theorem completeQuantumWithProgress_ends (s : ContinuousScheduler) (id : RequestId)
    (emitted progress : Nat) (ready eos : Bool) :
    (completeQuantumWithProgress id emitted progress ready eos).Ends s
      (fun completion s' => ∃ dispatch state,
        CompleteReturns s id emitted progress ready eos completion s' dispatch state)
      (CompleteFails s id emitted progress ready) := by
  simp only [completeQuantumWithProgress, ends_bind, ends_get, ends_orErr, ends_ofExcept,
    ends_zoom]
  refine ⟨fun dispatch hd => ⟨fun _ hv => ⟨fun state hs => ?_, ?_⟩, ?_⟩, .notRunning⟩
  · refine (applyQuantumState_ends dispatch emitted progress ready eos state s.stats).mono ?_ ?_
    · rintro _ _ ⟨hpriority, hle, hfits, rfl⟩
      have hrecord : (applyQuantumStatus dispatch.kind emitted eos
          (progressedRecord dispatch.kind emitted progress ready state)
          (progressedStats dispatch.kind emitted progress s.stats)).1 =
          committedRecord dispatch.kind emitted progress ready eos state :=
        applyQuantumStatus_fst ..
      simp only [ends_bind, ends_pure, ends_ite, ends_modify, release_ends, hrecord]
      refine ⟨fun hterm => ⟨fun hle' => ?_, fun hlt => ?_⟩, fun hterm => ?_⟩
      · refine ⟨dispatch, state, hd, hs, hv, hle, hfits, rfl, ?_⟩
        simp [committedState, releasedState, hterm, committedStats]
      · rw [committedRecord_reserved] at hlt
        exact .panic dispatch state _ hd hs hv (.inr (.inr hlt))
      · refine ⟨dispatch, state, hd, hs, hv, hle, hfits, rfl, ?_⟩
        simp [committedState, hterm, committedStats]
    · rintro fault after (⟨rfl, hcause⟩ | ⟨rfl, hover, hstanding⟩)
      · exact .panic dispatch state _ hd hs hv (hcause.imp_right .inl)
      · exact .overflow dispatch state _ _ hd hs hv hover hstanding
  · exact .unknown dispatch hd
  · exact fun error hv => .invalid dispatch error hd hv

theorem completeQuantum_ends (s : ContinuousScheduler) (id : RequestId) (emitted : Nat)
    (eos : Bool) :
    (completeQuantum id emitted eos).Ends s
      (fun completion s' => ∃ dispatch state, dispatch.kind = .decode ∧
        CompleteReturns s id emitted emitted false eos completion s' dispatch state)
      (fun fault s' => (s' = s ∧ fault = .error (.prefillProgressRequired id) ∧
          ∃ dispatch, s.running.get? id = some dispatch ∧ dispatch.kind = .prefill) ∨
        (∀ dispatch, s.running.get? id = some dispatch → dispatch.kind = .decode) ∧
          CompleteFails s id emitted emitted false fault s') := by
  simp only [completeQuantum, ends_bind, ends_get, ends_orErr, ends_ensure, not_not]
  refine ⟨fun dispatch hd => ⟨fun hkind => ?_, fun hkind => ?_⟩, fun hd => .inr ⟨?_, .notRunning hd⟩⟩
  · have hdecode : dispatch.kind = .decode := by
      cases hk : dispatch.kind with
      | prefill => exact absurd hk hkind
      | decode => rfl
    refine (completeQuantumWithProgress_ends s id emitted emitted false eos).mono ?_ ?_
    · intro completion s' hr
      obtain ⟨dispatch', state, hr⟩ := hr
      obtain rfl : dispatch' = dispatch := Option.some.inj (hr.running.symm.trans hd)
      exact ⟨dispatch', state, hdecode, hr⟩
    · intro fault s' hf
      refine .inr ⟨fun dispatch' hd' => ?_, hf⟩
      obtain rfl : dispatch' = dispatch := Option.some.inj (hd'.symm.trans hd)
      exact hdecode
  · exact .inl ⟨trivial, trivial, dispatch, hd, hkind⟩
  · intro dispatch hd'
    rw [hd] at hd'
    cases hd'

/-! ## Aborting and cancelling -/

/-- The record of an aborted quantum, with its reservation still in place. -/
def abortedRecord (state : RequestState) : RequestState :=
  { state with status := .cancelled, cancellationRequested := false }

/-- The state after a running quantum was aborted. -/
def abortedState (s : ContinuousScheduler) (id : RequestId) (state : RequestState) :
    ContinuousScheduler :=
  { releasedState s id (abortedRecord state) with
    stats := { s.stats with cancelledRequests := wrappingAdd 64 s.stats.cancelledRequests 1 }
    running := s.running.remove id }

/-- The state after a queued request was cancelled. -/
def cancelledState (s : ContinuousScheduler) (id : RequestId) (state : RequestState) :
    ContinuousScheduler :=
  { releasedState s id { state with status := .cancelled } with
    stats := { s.stats with cancelledRequests := wrappingAdd 64 s.stats.cancelledRequests 1 } }

/-- The state after a running request was asked to stop at its next boundary. -/
def flaggedState (s : ContinuousScheduler) (id : RequestId) (state : RequestState) :
    ContinuousScheduler :=
  { s with requests := s.requests.insert id { state with cancellationRequested := true } }

/-- Why an abort can fail. The state is unchanged. -/
inductive AbortFails (s : ContinuousScheduler) (id : RequestId) : Fault SchedulerError → Prop
  | notRunning (h : s.running.get? id = none) : AbortFails s id (.error (.notRunning id))
  | unknown (dispatch : Dispatch) (hd : s.running.get? id = some dispatch)
      (h : s.requests.get? id = none) : AbortFails s id (.error (.unknownRequest id))
  | panic (state : RequestState) (hs : s.requests.get? id = some state)
      (h : s.reservedKvBytes < state.reservedKvBytes) : AbortFails s id .panic

theorem abortQuantum_ends (s : ContinuousScheduler) (id : RequestId) :
    (abortQuantum id).Ends s
      (fun status s' => ∃ dispatch state, s.running.get? id = some dispatch ∧
        s.requests.get? id = some state ∧ status = .cancelled ∧ s' = abortedState s id state)
      (fun fault s' => s' = s ∧ AbortFails s id fault) := by
  simp only [abortQuantum, ends_bind, ends_get, ends_orErr, release_ends, ends_modify, ends_pure]
  refine ⟨fun dispatch hd => ⟨fun state hs => ⟨fun _ => ?_, fun hlt => ?_⟩, fun hs => ?_⟩,
    fun hd => ?_⟩
  · exact ⟨dispatch, state, hd, hs, trivial, rfl⟩
  · exact ⟨trivial, .panic state hs hlt⟩
  · exact ⟨trivial, .unknown dispatch hd hs⟩
  · exact ⟨trivial, .notRunning hd⟩

/-- What a cancellation does to a known request, by its status. -/
def CancelReturns (s : ContinuousScheduler) (id : RequestId) (state : RequestState)
    (status : RequestStatus) (s' : ContinuousScheduler) : Prop :=
  match state.status with
  | .queued => status = .cancelled ∧ s' = cancelledState s id state
  | .running => status = .running ∧ s' = flaggedState s id state
  | terminal => status = terminal ∧ s' = s

/-- Why a cancellation can fail. The state is unchanged. -/
inductive CancelFails (s : ContinuousScheduler) (id : RequestId) : Fault SchedulerError → Prop
  | unknown (h : s.requests.get? id = none) : CancelFails s id (.error (.unknownRequest id))
  | panic (state : RequestState) (hs : s.requests.get? id = some state)
      (h : s.reservedKvBytes < state.reservedKvBytes) : CancelFails s id .panic

theorem cancel_ends (s : ContinuousScheduler) (id : RequestId) :
    (cancel id).Ends s
      (fun status s' => ∃ state, s.requests.get? id = some state ∧
        CancelReturns s id state status s')
      (fun fault s' => s' = s ∧ CancelFails s id fault) := by
  simp only [cancel, ends_bind, ends_get, ends_orErr, ends_ite, release_ends, ends_modify,
    ends_pure]
  refine ⟨fun state hs => ⟨fun hqueued => ⟨fun _ => ?_, fun hlt => ?_⟩, fun hqueued =>
    ⟨fun hrunning => ?_, fun hrunning => ?_⟩⟩, fun hs => ⟨trivial, .unknown hs⟩⟩
  · refine ⟨state, hs, ?_⟩
    simp only [CancelReturns, hqueued]
    exact ⟨trivial, rfl⟩
  · exact ⟨trivial, .panic state hs hlt⟩
  · refine ⟨state, hs, ?_⟩
    simp only [CancelReturns, flaggedState, hrunning]
    exact ⟨trivial, trivial⟩
  · refine ⟨state, hs, ?_⟩
    unfold CancelReturns
    cases hstatus : state.status <;> simp_all

end Leone.Scheduler

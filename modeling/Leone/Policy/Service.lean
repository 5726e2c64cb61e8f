import Leone.Policy.Resolved

/-!
# The service policy

A policy that is resolved fits its owners and the observations, for every request and topology.
-/

namespace Leone.Policy

open Framework

variable {α β : Type} {field : String}

/-! ## The last check -/

/-- A result that is not the error of the last check. -/
def NotHostBelow (result : Resolves α) : Prop :=
  ∀ requested owned, result ≠ .error (.hostBelowOwned requested owned)

@[simp] theorem notHostBelow_ok (value : α) : NotHostBelow (.ok value) := nofun

@[simp] theorem notHostBelow_pure (value : α) : NotHostBelow (pure value) := nofun

@[simp] theorem notHostBelow_error {error : MemoryPolicyError} :
    NotHostBelow (.error error : Resolves α) ↔
      ∀ requested owned, error ≠ .hostBelowOwned requested owned := by
  simp [NotHostBelow]

theorem NotHostBelow.bind {result : Resolves α} {next : α → Resolves β} (h : NotHostBelow result)
    (hnext : ∀ value, result = .ok value → NotHostBelow (next value)) :
    NotHostBelow (result >>= next) := by
  cases result with
  | ok value => exact hnext value rfl
  | error error =>
    rw [notHostBelow_error] at h
    exact notHostBelow_error.mpr h

theorem checkedAdd_notHostBelow (left right : UInt64) : NotHostBelow (checkedAdd left right field) := by
  unfold checkedAdd
  split_ifs <;> simp

theorem checkedMul_notHostBelow (left right : UInt64) : NotHostBelow (checkedMul left right field) := by
  unfold checkedMul
  split_ifs <;> simp

theorem positive_notHostBelow (value : UInt64) : NotHostBelow (positive value field) := by
  unfold positive
  split_ifs <;> simp

theorem ensureAtLeast_notHostBelow (limit : NonZeroU64) (owned : UInt64) :
    NotHostBelow (ensureAtLeast limit owned field) := by
  unfold ensureAtLeast
  split_ifs <;> simp

theorem fourFifths_notHostBelow (value : UInt64) : NotHostBelow (fourFifths value field) := by
  rcases fourFifths_eq_ok value field with ⟨share, h, _⟩
  rw [h]
  exact notHostBelow_ok share

theorem checkedCapacity_notHostBelow (pool : String) (total available : UInt64) :
    NotHostBelow (checkedCapacity pool total available) := by
  unfold checkedCapacity
  split_ifs <;> simp

theorem hostCapacity_notHostBelow (observation : HostMemoryObservation) :
    NotHostBelow (hostCapacity observation) := by
  cases observation with
  | available total available source semantics => exact checkedCapacity_notHostBelow _ _ _
  | unavailable reason => exact notHostBelow_ok _

theorem discreteCapacity_notHostBelow (observation : BackendCapacityObservation) :
    NotHostBelow (discreteCapacity observation) := by
  cases observation with
  | discrete total available => exact checkedCapacity_notHostBelow _ _ _
  | recommended workingSet current unified => simp [discreteCapacity]
  | cpu => simp [discreteCapacity]
  | unavailable reason => exact notHostBelow_ok _

theorem unifiedRecommendation_notHostBelow (observation : BackendCapacityObservation) :
    NotHostBelow (unifiedRecommendation observation) := by
  cases observation with
  | discrete total available => simp [unifiedRecommendation]
  | recommended workingSet current unified =>
    simp only [unifiedRecommendation]
    split_ifs <;> simp
  | cpu => simp [unifiedRecommendation]
  | unavailable reason => exact notHostBelow_ok _

theorem observedMaximum_notHostBelow (total available owned : UInt64) :
    NotHostBelow (observedMaximum total available owned field) := by
  unfold observedMaximum
  split_ifs
  · simp
  · exact (checkedAdd_notHostBelow _ _).bind fun _ _ => notHostBelow_pure _

theorem resolveAutomatic_notHostBelow (capacity : CapacityState) (owned : UInt64) :
    NotHostBelow (resolveAutomatic capacity owned field) := by
  cases capacity with
  | unavailable reason => simp [resolveAutomatic]
  | known total available =>
    apply (observedMaximum_notHostBelow _ _ _).bind
    intro maximum _
    apply (fourFifths_notHostBelow _).bind
    intro headroom _
    apply (checkedAdd_notHostBelow _ _).bind
    intro sum _
    apply (positive_notHostBelow _).bind
    intro limit _
    exact ensureAtLeast_notHostBelow _ _

theorem resolveExplicit_notHostBelow (requested : NonZeroU64) (capacity : CapacityState)
    (owned : UInt64) : NotHostBelow (resolveExplicit requested capacity owned field) := by
  unfold resolveExplicit
  split_ifs
  · simp
  · cases capacity with
    | unavailable reason => exact notHostBelow_ok _
    | known total available =>
      apply (observedMaximum_notHostBelow _ _ _).bind
      intro maximum _
      split_ifs <;> simp

theorem resolveLimit_notHostBelow (request : BudgetRequest) (capacity : CapacityState)
    (owned : UInt64) : NotHostBelow (resolveLimit request capacity owned field) := by
  cases request with
  | auto => exact resolveAutomatic_notHostBelow _ _
  | bytes requested => exact resolveExplicit_notHostBelow _ _ _

theorem resolveCombined_notHostBelow (request : BudgetRequest) (host : CapacityState)
    (recommendation : Option UInt64) (owned : UInt64) :
    NotHostBelow (resolveCombined request host recommendation owned) := by
  cases request with
  | bytes requested =>
    show NotHostBelow (resolveLimit (.bytes requested) host owned "backend")
    exact resolveLimit_notHostBelow _ _ _
  | auto =>
    cases recommendation with
    | none => simp [resolveCombined]
    | some workingSet =>
      cases host with
      | unavailable reason => simp [resolveCombined]
      | known total available =>
        apply (fourFifths_notHostBelow _).bind
        intro guidance _
        apply (resolveAutomatic_notHostBelow _ _).bind
        intro derived _
        apply (positive_notHostBelow _).bind
        intro limit _
        exact ensureAtLeast_notHostBelow _ _

theorem capHostLimit_notHostBelow (request : BudgetRequest) (host combined : NonZeroU64) :
    NotHostBelow (capHostLimit request host combined) := by
  unfold capHostLimit
  split_ifs <;> simp

theorem resolveTopology_notHostBelow (args : ServiceBudgetArgs) (inputs : ServiceMemoryInputs)
    (host : CapacityState) (hostLimit : NonZeroU64) (combinedOwned : UInt64) :
    NotHostBelow (resolveTopology args inputs host hostLimit combinedOwned) := by
  unfold resolveTopology
  cases inputs.topology with
  | discrete =>
    apply (discreteCapacity_notHostBelow _).bind
    intro backend _
    exact (resolveLimit_notHostBelow _ _ _).bind fun _ _ => notHostBelow_pure _
  | unified =>
    apply (unifiedRecommendation_notHostBelow _).bind
    intro recommendation _
    apply (resolveCombined_notHostBelow _ _ _ _).bind
    intro combined _
    exact (capHostLimit_notHostBelow _ _ _).bind fun _ _ => notHostBelow_pure _
  | cpu =>
    simp only [resolveCpu]
    split_ifs
    · simp
    · apply (resolveLimit_notHostBelow _ _ _).bind
      intro combined _
      apply (ensureAtLeast_notHostBelow _ _).bind
      intro _ _
      exact (capHostLimit_notHostBelow _ _ _).bind fun _ _ => notHostBelow_pure _

/-- Where the last check is reached it is passed. -/
theorem resolvePolicy_notHostBelow (args : ServiceBudgetArgs) (inputs : ServiceMemoryInputs) :
    NotHostBelow (resolvePolicy args inputs) := by
  apply (hostCapacity_notHostBelow _).bind
  intro host hhost
  apply (checkedAdd_notHostBelow _ _).bind
  intro combinedOwned howned
  apply (resolveLimit_notHostBelow _ _ _).bind
  intro hostLimit hlimit
  apply (resolveTopology_notHostBelow _ _ _ _ _).bind
  intro policy hpolicy
  have hreached : Reached args inputs policy :=
    ⟨host, combinedOwned, hostLimit, hhost, howned, hlimit, hpolicy⟩
  have hcovers := hreached.fits.host_covers
  have hpassed : ¬ policy.pools.hostBytes.get < inputs.hostOwnedBytes := by
    rw [UInt64.lt_iff_toNat_lt]
    omega
  rw [if_neg hpassed]
  exact notHostBelow_ok policy

/-! ## The reservation of the cache -/

/-- A reservation is positive, holds no more than the tokens of every request and leaves room for
everything else below the backend limit. -/
structure KvFits (request : BudgetRequest) (logical : Nat) (backendLimit nonKv : Nat)
    (reservation : NonZeroU64) : Prop where
  positive : 0 < reservation.get.toNat
  logical_le : reservation.get.toNat ≤ logical
  physical_le : reservation.get.toNat + nonKv ≤ backendLimit
  unchanged : ∀ requested, request = .bytes requested → reservation = requested
  automatic : request = .auto → reservation.get.toNat = min logical (backendLimit - nonKv)

theorem NonZeroU64.toNat_pos (count : NonZeroU64) : 0 < count.get.toNat := by
  apply Nat.pos_of_ne_zero
  intro h
  exact count.ne_zero (UInt64.toNat_inj.mp h)

theorem resolveKvReservation_fits {request : BudgetRequest}
    {bytesPerToken contextLimit maxActiveRequests backendLimit owned headroom : UInt64}
    {reservation : NonZeroU64}
    (h : resolveKvReservation request bytesPerToken contextLimit maxActiveRequests backendLimit owned
      headroom = .ok reservation) :
    KvFits request (bytesPerToken.toNat * contextLimit.toNat * maxActiveRequests.toNat)
      backendLimit.toNat (owned.toNat + headroom.toNat) reservation := by
  simp only [resolveKvReservation, bind_eq_ok] at h
  rcases h with ⟨tokens, htokens, logical, hlogical, nonKv, hnonKv, h⟩
  split_ifs at h with hlow
  simp only [bind_eq_ok] at h
  rcases h with ⟨maximum, hmaximum, h⟩
  have hfloor : nonKv ≤ backendLimit := UInt64.not_lt.mp hlow
  have hroom := UInt64.toNat_sub_of_le backendLimit nonKv hfloor
  have hvalue := congrArg UInt64.toNat (positive_eq_ok hmaximum)
  rw [toNat_min, hroom] at hvalue
  rw [checkedMul_eq_ok] at htokens hlogical
  rw [checkedAdd_eq_ok] at hnonKv
  rw [UInt64.le_iff_toNat_le, hnonKv] at hfloor
  rw [hlogical, htokens, hnonKv] at hvalue
  have hpos := reservation.toNat_pos
  cases request with
  | auto =>
    cases h
    exact ⟨hpos, by omega, by omega, nofun, fun _ => hvalue⟩
  | bytes requested =>
    simp only at h
    split_ifs at h with hhigh
    cases h
    have hle := UInt64.le_iff_toNat_le.mp (UInt64.not_lt.mp hhigh)
    exact ⟨hpos, by omega, by omega, fun _ h => BudgetRequest.bytes.inj h, nofun⟩

/-! ## Policies -/

/-- The checked operations are exact where they succeed, and the headroom is exact everywhere. -/
structure ExactArithmetic : Prop where
  add : ∀ left right field sum, checkedAdd left right field = .ok sum →
    sum.toNat = left.toNat + right.toNat
  mul : ∀ left right field product, checkedMul left right field = .ok product →
    product.toNat = left.toNat * right.toNat
  headroom : ∀ value field, ∃ share, fourFifths value field = .ok share ∧
    share.toNat = 4 * value.toNat / 5

theorem exactArithmetic : ExactArithmetic where
  add _ _ _ _ h := checkedAdd_eq_ok.mp h
  mul _ _ _ _ h := checkedMul_eq_ok.mp h
  headroom value field := fourFifths_eq_ok value field

/-- Resolved limits fit what was observed and what is owned, in every topology. -/
theorem resolvePolicy_fits (args : ServiceBudgetArgs) (inputs : ServiceMemoryInputs) :
    ExactArithmetic ∧
    (∀ requested owned, resolvePolicy args inputs ≠ .error (.hostBelowOwned requested owned)) ∧
    (∀ policy, resolvePolicy args inputs = .ok policy →
      PoolsFit args inputs policy.pools ∧ policy.kvReservation = args.kvReservation) ∧
    (∀ inputs' policy policy', inputs.MoreAvailable inputs' →
      resolvePolicy args inputs = .ok policy → resolvePolicy args inputs' = .ok policy' →
      policy.pools.AtMost policy'.pools) ∧
    ∀ policy, resolvePolicy args inputs = .ok policy →
      ∀ bytesPerToken contextLimit maxActiveRequests owned headroom reservation,
        resolveKvReservation policy.kvReservation bytesPerToken contextLimit maxActiveRequests
          policy.pools.combinedBytes.get owned headroom = .ok reservation →
        KvFits policy.kvReservation
          (bytesPerToken.toNat * contextLimit.toNat * maxActiveRequests.toNat)
          policy.pools.combinedBytes.get.toNat (owned.toNat + headroom.toNat) reservation := by
  refine ⟨exactArithmetic, resolvePolicy_notHostBelow args inputs, ?_, ?_, ?_⟩
  · intro policy h
    have hreached := resolvePolicy_eq_ok.mp h
    exact ⟨hreached.fits, hreached.kvReservation⟩
  · intro inputs' policy policy' hmore h h'
    exact (resolvePolicy_eq_ok.mp h).mono (resolvePolicy_eq_ok.mp h') hmore
  · intro policy _ bytesPerToken contextLimit maxActiveRequests owned headroom reservation h
    exact resolveKvReservation_fits h

/-- A device with unified memory and some storage of its own, all limits automatic. -/
def unifiedInputs : ServiceMemoryInputs where
  topology := .unified
  backend := .recommended 12000 300 true
  host := .available 16000 9000 .macVmStat .reclaimablePagesEstimate
  backendOwnedBytes := 300
  hostOwnedBytes := 200

theorem resolvePolicy_unified : ∃ policy,
    resolvePolicy ⟨.auto, .auto, .auto⟩ unifiedInputs = .ok policy ∧
      PoolsFit ⟨.auto, .auto, .auto⟩ unifiedInputs policy.pools :=
  have h : resolvePolicy ⟨.auto, .auto, .auto⟩ unifiedInputs =
      .ok ⟨.shared ⟨7700, by decide⟩ ⟨7400, by decide⟩, .auto, ⟨false, false, false⟩,
        unifiedInputs.backend, unifiedInputs.host⟩ := rfl
  ⟨_, h, ((resolvePolicy_fits ⟨.auto, .auto, .auto⟩ unifiedInputs).2.2.1 _ h).1⟩

end Leone.Policy

import Leone.Policy.Limits

/-!
# Resolved policies

The limits of a policy fit together in every topology. The last check of a policy never fails, and
more available memory never lowers a limit.
-/

namespace Leone.Policy

open Framework

variable {field : String}

/-! ## Observations -/

theorem checkedCapacity_eq_ok {pool : String} {total available : UInt64} {capacity : CapacityState}
    (h : checkedCapacity pool total available = .ok capacity) : capacity = .known total available := by
  unfold checkedCapacity at h
  split_ifs at h
  cases h
  rfl

theorem hostCapacity_amounts {observation : HostMemoryObservation} {capacity : CapacityState}
    (h : hostCapacity observation = .ok capacity) : capacity.amounts = observation.amounts := by
  cases observation with
  | available total available source semantics =>
    rw [checkedCapacity_eq_ok h]
    rfl
  | unavailable reason =>
    cases h
    rfl

theorem discreteCapacity_amounts {observation : BackendCapacityObservation}
    {capacity : CapacityState} (h : discreteCapacity observation = .ok capacity) :
    capacity.amounts = observation.amounts := by
  cases observation with
  | discrete total available =>
    rw [checkedCapacity_eq_ok h]
    rfl
  | recommended workingSet current unified => cases h
  | cpu => cases h
  | unavailable reason =>
    cases h
    rfl

theorem unifiedRecommendation_eq_some {observation : BackendCapacityObservation}
    {workingSet : UInt64} (h : unifiedRecommendation observation = .ok (some workingSet)) :
    ∃ current, observation = .recommended workingSet current true := by
  cases observation with
  | discrete total available => cases h
  | recommended workingSet' current unified =>
    simp only [unifiedRecommendation] at h
    split_ifs at h with hunified hzero
    cases h
    exact ⟨current, by rw [hunified]⟩
  | cpu => cases h
  | unavailable reason => cases h

/-! ## Pools -/

/-- The limits of a pool fit their owners, and a shared limit covers the host limit. -/
def PoolsFit (args : ServiceBudgetArgs) (inputs : ServiceMemoryInputs) : ServiceMemoryPools → Prop
  | .discrete backend host =>
    inputs.topology = .discrete ∧
      Fits args.memory inputs.backend.amounts inputs.backendOwnedBytes.toNat backend ∧
      Fits args.host inputs.host.amounts inputs.hostOwnedBytes.toNat host
  | .shared combined host =>
    inputs.topology ≠ .discrete ∧
      Fits args.memory inputs.host.amounts
        (inputs.backendOwnedBytes.toNat + inputs.hostOwnedBytes.toNat) combined ∧
      Fits args.host inputs.host.amounts inputs.hostOwnedBytes.toNat host ∧
      host.get.toNat ≤ combined.get.toNat ∧
      (inputs.topology = .unified → args.memory = .auto → ∃ workingSet current,
        inputs.backend = .recommended workingSet current true ∧
          combined.get.toNat ≤ 4 * workingSet.toNat / 5)

variable {args : ServiceBudgetArgs} {inputs : ServiceMemoryInputs} {policy : ServiceMemoryPolicy}

theorem PoolsFit.host_covers {pools : ServiceMemoryPools} (h : PoolsFit args inputs pools) :
    inputs.hostOwnedBytes.toNat ≤ pools.hostBytes.get.toNat := by
  cases pools with
  | discrete backend host => exact h.2.2.covers
  | shared combined host => exact h.2.2.1.covers

section Topologies

variable {host : CapacityState} {hostLimit : NonZeroU64} {combinedOwned : UInt64}

theorem resolveDiscrete_fits (htopology : inputs.topology = .discrete)
    (hhost : Fits args.host inputs.host.amounts inputs.hostOwnedBytes.toNat hostLimit)
    (h : resolveDiscrete args inputs hostLimit = .ok policy) : PoolsFit args inputs policy.pools := by
  simp only [resolveDiscrete, bind_eq_ok] at h
  rcases h with ⟨backend, hbackend, limit, hlimit, h⟩
  cases h
  have hfits := resolveLimit_fits hlimit
  rw [discreteCapacity_amounts hbackend] at hfits
  exact ⟨htopology, hfits, hhost⟩

/-- A shared limit covers what the host owns. -/
theorem fits_shared {combined limit : NonZeroU64} (hamounts : host.amounts = inputs.host.amounts)
    (howned : combinedOwned.toNat = inputs.backendOwnedBytes.toNat + inputs.hostOwnedBytes.toNat)
    (hcombined : Fits args.memory host.amounts combinedOwned.toNat combined)
    (hhost : Fits args.host inputs.host.amounts inputs.hostOwnedBytes.toNat hostLimit)
    (hcap : capHostLimit args.host hostLimit combined = .ok limit) :
    Fits args.memory inputs.host.amounts
        (inputs.backendOwnedBytes.toNat + inputs.hostOwnedBytes.toNat) combined ∧
      Fits args.host inputs.host.amounts inputs.hostOwnedBytes.toNat limit ∧
      limit.get.toNat ≤ combined.get.toNat := by
  rw [hamounts, howned] at hcombined
  have hcovers := hcombined.covers
  rcases capHostLimit_fits hcap hhost (by omega) with ⟨hlimit, hmin⟩
  exact ⟨hcombined, hlimit, by omega⟩

theorem resolveUnified_fits (htopology : inputs.topology = .unified)
    (hamounts : host.amounts = inputs.host.amounts)
    (howned : combinedOwned.toNat = inputs.backendOwnedBytes.toNat + inputs.hostOwnedBytes.toNat)
    (hhost : Fits args.host inputs.host.amounts inputs.hostOwnedBytes.toNat hostLimit)
    (h : resolveUnified args inputs host hostLimit combinedOwned = .ok policy) :
    PoolsFit args inputs policy.pools := by
  simp only [resolveUnified, bind_eq_ok] at h
  rcases h with ⟨recommendation, hrecommendation, combined, hcombined, limit, hlimit, h⟩
  cases h
  rcases fits_shared hamounts howned (resolveCombined_fits hcombined) hhost hlimit with
    ⟨hshared, hown, hle⟩
  refine ⟨by rw [htopology]; decide, hshared, hown, hle, ?_⟩
  intro _ hauto
  rw [hauto] at hcombined
  rcases resolveCombined_auto hcombined with ⟨workingSet, _, _, rfl, _, _, hmin⟩
  rcases unifiedRecommendation_eq_some hrecommendation with ⟨current, hbackend⟩
  exact ⟨workingSet, current, hbackend, by omega⟩

theorem resolveCpu_fits (htopology : inputs.topology = .cpu)
    (hamounts : host.amounts = inputs.host.amounts)
    (howned : combinedOwned.toNat = inputs.backendOwnedBytes.toNat + inputs.hostOwnedBytes.toNat)
    (hhost : Fits args.host inputs.host.amounts inputs.hostOwnedBytes.toNat hostLimit)
    (h : resolveCpu args inputs host hostLimit combinedOwned = .ok policy) :
    PoolsFit args inputs policy.pools := by
  unfold resolveCpu at h
  split_ifs at h with hbackend
  simp only [bind_eq_ok] at h
  rcases h with ⟨combined, hcombined, _, _, limit, hlimit, h⟩
  cases h
  rcases fits_shared hamounts howned (resolveLimit_fits hcombined) hhost hlimit with
    ⟨hshared, hown, hle⟩
  refine ⟨by rw [htopology]; decide, hshared, hown, hle, ?_⟩
  intro hunified
  rw [htopology] at hunified
  cases hunified

theorem resolveTopology_fits (hamounts : host.amounts = inputs.host.amounts)
    (howned : combinedOwned.toNat = inputs.backendOwnedBytes.toNat + inputs.hostOwnedBytes.toNat)
    (hhost : Fits args.host inputs.host.amounts inputs.hostOwnedBytes.toNat hostLimit)
    (h : resolveTopology args inputs host hostLimit combinedOwned = .ok policy) :
    PoolsFit args inputs policy.pools := by
  unfold resolveTopology at h
  cases htopology : inputs.topology with
  | discrete =>
    rw [htopology] at h
    exact resolveDiscrete_fits htopology hhost h
  | unified =>
    rw [htopology] at h
    exact resolveUnified_fits htopology hamounts howned hhost h
  | cpu =>
    rw [htopology] at h
    exact resolveCpu_fits htopology hamounts howned hhost h

end Topologies

/-- A policy before its last check. -/
structure Reached (args : ServiceBudgetArgs) (inputs : ServiceMemoryInputs)
    (policy : ServiceMemoryPolicy) : Prop where
  steps : ∃ host combinedOwned hostLimit, hostCapacity inputs.host = .ok host ∧
    checkedAdd inputs.backendOwnedBytes inputs.hostOwnedBytes "owned service memory" =
      .ok combinedOwned ∧
    resolveLimit args.host host inputs.hostOwnedBytes "host" = .ok hostLimit ∧
    resolveTopology args inputs host hostLimit combinedOwned = .ok policy

theorem Reached.fits (h : Reached args inputs policy) : PoolsFit args inputs policy.pools := by
  rcases h.steps with ⟨host, combinedOwned, hostLimit, hhost, howned, hlimit, hpolicy⟩
  have hamounts := hostCapacity_amounts hhost
  have hfits := resolveLimit_fits hlimit
  rw [hamounts] at hfits
  exact resolveTopology_fits hamounts (checkedAdd_eq_ok.mp howned) hfits hpolicy

theorem Reached.kvReservation (h : Reached args inputs policy) :
    policy.kvReservation = args.kvReservation := by
  rcases h.steps with ⟨host, owned, hostLimit, _, _, _, hpolicy⟩
  unfold resolveTopology at hpolicy
  cases htopology : inputs.topology with
  | discrete =>
    simp only [htopology, resolveDiscrete, bind_eq_ok] at hpolicy
    rcases hpolicy with ⟨_, _, _, _, heq⟩
    cases heq
    rfl
  | unified =>
    simp only [htopology, resolveUnified, bind_eq_ok] at hpolicy
    rcases hpolicy with ⟨_, _, _, _, _, _, heq⟩
    cases heq
    rfl
  | cpu =>
    simp only [htopology, resolveCpu] at hpolicy
    split_ifs at hpolicy
    simp only [bind_eq_ok] at hpolicy
    rcases hpolicy with ⟨_, _, _, _, _, _, heq⟩
    cases heq
    rfl

/-- A policy is resolved exactly when its last check is reached. -/
theorem resolvePolicy_eq_ok : resolvePolicy args inputs = .ok policy ↔ Reached args inputs policy := by
  simp only [resolvePolicy, bind_eq_ok]
  constructor
  · intro h
    rcases h with ⟨host, hhost, combinedOwned, howned, hostLimit, hlimit, result, hresult, h⟩
    split_ifs at h
    cases h
    exact ⟨host, combinedOwned, hostLimit, hhost, howned, hlimit, hresult⟩
  · intro h
    have hcovers := h.fits.host_covers
    rcases h.steps with ⟨host, combinedOwned, hostLimit, hhost, howned, hlimit, hresult⟩
    refine ⟨host, hhost, combinedOwned, howned, hostLimit, hlimit, policy, hresult, if_neg ?_⟩
    rw [UInt64.lt_iff_toNat_lt]
    omega

/-! ## More available memory -/

/-- Amounts with the same total and no fewer available bytes. -/
def MoreAmounts (amounts amounts' : Option (UInt64 × UInt64)) : Prop :=
  ∀ total available available', amounts = some (total, available) →
    ∀ total', amounts' = some (total', available') → total' = total ∧ available ≤ available'

/-- A host observation that differs only in more available bytes. -/
def HostMemoryObservation.MoreAvailable : HostMemoryObservation → HostMemoryObservation → Prop
  | .available total free source semantics, .available total' free' source' semantics' =>
    total' = total ∧ free ≤ free' ∧ source' = source ∧ semantics' = semantics
  | observation, observation' => observation' = observation

/-- A backend observation that differs only in more available bytes. -/
def BackendCapacityObservation.MoreAvailable :
    BackendCapacityObservation → BackendCapacityObservation → Prop
  | .discrete total available, .discrete total' available' =>
    total' = total ∧ available ≤ available'
  | observation, observation' => observation' = observation

/-- Inputs that differ only in more available bytes. -/
structure ServiceMemoryInputs.MoreAvailable (inputs inputs' : ServiceMemoryInputs) : Prop where
  topology : inputs'.topology = inputs.topology
  backend : inputs.backend.MoreAvailable inputs'.backend
  host : inputs.host.MoreAvailable inputs'.host
  backendOwned : inputs'.backendOwnedBytes = inputs.backendOwnedBytes
  hostOwned : inputs'.hostOwnedBytes = inputs.hostOwnedBytes

theorem moreAmounts_self (amounts : Option (UInt64 × UInt64)) : MoreAmounts amounts amounts := by
  intro total available available' h total' h'
  rw [h] at h'
  cases h'
  exact ⟨rfl, UInt64.le_refl _⟩

theorem HostMemoryObservation.MoreAvailable.amounts {observation observation' : HostMemoryObservation}
    (h : observation.MoreAvailable observation') :
    MoreAmounts observation.amounts observation'.amounts := by
  cases observation with
  | unavailable reason => exact nofun
  | available total available source semantics =>
    cases observation' with
    | unavailable reason => cases h
    | available total' available' source' semantics' =>
      intro _ _ _ hfirst _ hsecond
      cases hfirst
      cases hsecond
      exact ⟨h.1, h.2.1⟩

theorem BackendCapacityObservation.MoreAvailable.amounts
    {observation observation' : BackendCapacityObservation}
    (h : observation.MoreAvailable observation') :
    MoreAmounts observation.amounts observation'.amounts := by
  cases observation with
  | recommended workingSet current unified => exact nofun
  | cpu => exact nofun
  | unavailable reason => exact nofun
  | discrete total available =>
    cases observation' with
    | recommended workingSet current unified => cases h
    | cpu => cases h
    | unavailable reason => cases h
    | discrete total' available' =>
      intro _ _ _ hfirst _ hsecond
      cases hfirst
      cases hsecond
      exact h

/-- Recommendations do not report available bytes. -/
theorem BackendCapacityObservation.MoreAvailable.recommendation
    {observation observation' : BackendCapacityObservation} {found found' : Option UInt64}
    (h : observation.MoreAvailable observation')
    (hfound : unifiedRecommendation observation = .ok found)
    (hfound' : unifiedRecommendation observation' = .ok found') : found' = found := by
  cases observation with
  | discrete total available => cases hfound
  | cpu => cases hfound
  | recommended workingSet current unified =>
    rw [show observation' = .recommended workingSet current unified by cases observation' <;> exact h,
      hfound] at hfound'
    exact (Except.ok.inj hfound').symm
  | unavailable reason =>
    rw [show observation' = .unavailable reason by cases observation' <;> exact h, hfound] at hfound'
    exact (Except.ok.inj hfound').symm

theorem resolveLimit_auto {capacity : CapacityState} {owned : UInt64} {limit : NonZeroU64}
    (h : resolveLimit .auto capacity owned field = .ok limit) :
    ∃ total available, capacity.amounts = some (total, available) ∧
      limit.get.toNat = min total.toNat (owned.toNat + 4 * available.toNat / 5) := by
  cases capacity with
  | unavailable reason => cases h
  | known total available => exact ⟨total, available, rfl, (resolveAutomatic_eq_ok h).2⟩

theorem resolveLimit_mono {request : BudgetRequest} {capacity capacity' : CapacityState}
    {owned : UInt64} {limit limit' : NonZeroU64}
    (hmore : MoreAmounts capacity.amounts capacity'.amounts)
    (h : resolveLimit request capacity owned field = .ok limit)
    (h' : resolveLimit request capacity' owned field = .ok limit') :
    limit.get.toNat ≤ limit'.get.toNat := by
  cases request with
  | bytes requested =>
    rw [(resolveLimit_fits h).unchanged requested rfl, (resolveLimit_fits h').unchanged requested rfl]
  | auto =>
    rcases resolveLimit_auto h with ⟨total, available, hamounts, hlimit⟩
    rcases resolveLimit_auto h' with ⟨total', available', hamounts', hlimit'⟩
    rcases hmore _ _ _ hamounts _ hamounts' with ⟨rfl, hle⟩
    rw [UInt64.le_iff_toNat_le] at hle
    omega

theorem resolveCombined_mono {request : BudgetRequest} {host host' : CapacityState}
    {recommendation : Option UInt64} {owned : UInt64} {limit limit' : NonZeroU64}
    (hmore : MoreAmounts host.amounts host'.amounts)
    (h : resolveCombined request host recommendation owned = .ok limit)
    (h' : resolveCombined request host' recommendation owned = .ok limit') :
    limit.get.toNat ≤ limit'.get.toNat := by
  cases request with
  | bytes requested =>
    have hlimit : resolveLimit (.bytes requested) host owned "backend" = .ok limit := h
    exact resolveLimit_mono hmore hlimit h'
  | auto =>
    rcases resolveCombined_auto h with ⟨workingSet, total, available, rfl, rfl, _, hlimit⟩
    rcases resolveCombined_auto h' with ⟨_, total', available', heq, rfl, _, hlimit'⟩
    cases heq
    rcases hmore _ _ _ rfl _ rfl with ⟨rfl, hle⟩
    rw [UInt64.le_iff_toNat_le] at hle
    omega

theorem capHostLimit_toNat {request : BudgetRequest} {host combined limit : NonZeroU64}
    (h : capHostLimit request host combined = .ok limit) :
    limit.get.toNat = min host.get.toNat combined.get.toNat := by
  unfold capHostLimit at h
  split_ifs at h with hle
  · cases h
    exact (Nat.min_eq_left (UInt64.le_iff_toNat_le.mp hle)).symm
  · cases h
    have hge := (UInt64.le_total _ _).resolve_left hle
    exact (Nat.min_eq_right (UInt64.le_iff_toNat_le.mp hge)).symm

/-- Limits that are at least as large. -/
def ServiceMemoryPools.AtMost (pools pools' : ServiceMemoryPools) : Prop :=
  pools.combinedBytes.get.toNat ≤ pools'.combinedBytes.get.toNat ∧
    pools.hostBytes.get.toNat ≤ pools'.hostBytes.get.toNat

theorem Reached.mono {inputs' : ServiceMemoryInputs} {policy' : ServiceMemoryPolicy}
    (h : Reached args inputs policy) (h' : Reached args inputs' policy')
    (hmore : inputs.MoreAvailable inputs') : policy.pools.AtMost policy'.pools := by
  rcases h.steps with ⟨host, owned, hostLimit, hhost, howned, hlimit, hpolicy⟩
  rcases h'.steps with ⟨host', owned', hostLimit', hhost', howned', hlimit', hpolicy'⟩
  have hamounts : MoreAmounts host.amounts host'.amounts := by
    rw [hostCapacity_amounts hhost, hostCapacity_amounts hhost']
    exact hmore.host.amounts
  rw [hmore.hostOwned] at hlimit' howned'
  rw [hmore.backendOwned, howned] at howned'
  cases howned'
  have hhostLimit := resolveLimit_mono hamounts hlimit hlimit'
  unfold resolveTopology at hpolicy hpolicy'
  rw [hmore.topology] at hpolicy'
  cases htopology : inputs.topology with
  | discrete =>
    simp only [htopology, resolveDiscrete, bind_eq_ok] at hpolicy hpolicy'
    rcases hpolicy with ⟨backend, hbackend, limit, hbacked, heq⟩
    rcases hpolicy' with ⟨backend', hbackend', limit', hbacked', heq'⟩
    cases heq
    cases heq'
    rw [hmore.backendOwned] at hbacked'
    have hbackends : MoreAmounts backend.amounts backend'.amounts := by
      rw [discreteCapacity_amounts hbackend, discreteCapacity_amounts hbackend']
      exact hmore.backend.amounts
    exact ⟨resolveLimit_mono hbackends hbacked hbacked', hhostLimit⟩
  | unified =>
    simp only [htopology, resolveUnified, bind_eq_ok] at hpolicy hpolicy'
    rcases hpolicy with ⟨found, hfound, combined, hcombined, limit, hcap, heq⟩
    rcases hpolicy' with ⟨found', hfound', combined', hcombined', limit', hcap', heq'⟩
    cases heq
    cases heq'
    rw [hmore.backend.recommendation hfound hfound'] at hcombined'
    have hle := resolveCombined_mono hamounts hcombined hcombined'
    have hmin := capHostLimit_toNat hcap
    have hmin' := capHostLimit_toNat hcap'
    exact ⟨hle, show limit.get.toNat ≤ limit'.get.toNat by omega⟩
  | cpu =>
    simp only [htopology, resolveCpu] at hpolicy hpolicy'
    split_ifs at hpolicy hpolicy'
    simp only [bind_eq_ok] at hpolicy hpolicy'
    rcases hpolicy with ⟨combined, hcombined, _, _, limit, hcap, heq⟩
    rcases hpolicy' with ⟨combined', hcombined', _, _, limit', hcap', heq'⟩
    cases heq
    cases heq'
    have hle := resolveLimit_mono hamounts hcombined hcombined'
    have hmin := capHostLimit_toNat hcap
    have hmin' := capHostLimit_toNat hcap'
    exact ⟨hle, show limit.get.toNat ≤ limit'.get.toNat by omega⟩

end Leone.Policy

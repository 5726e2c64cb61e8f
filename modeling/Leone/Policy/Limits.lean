import Leone.Policy.Model

/-!
# Resolved limits

Every limit fits what was observed and what is already owned.
-/

namespace Leone.Policy

open Framework

variable {field : String}

/-! ## Arithmetic -/

theorem checkedAdd_eq_ok {left right sum : UInt64} :
    checkedAdd left right field = .ok sum ↔ sum.toNat = left.toNat + right.toNat := by
  unfold checkedAdd
  constructor
  · intro h
    split_ifs at h with hfits
    cases h
    rw [UInt64.toNat_add, Nat.mod_eq_of_lt hfits]
  · intro h
    have hfits : left.toNat + right.toNat < 2 ^ 64 := h ▸ sum.toNat_lt
    rw [if_pos hfits]
    congr 1
    rw [← UInt64.toNat_inj, UInt64.toNat_add, Nat.mod_eq_of_lt hfits, h]

theorem checkedMul_eq_ok {left right product : UInt64} :
    checkedMul left right field = .ok product ↔ product.toNat = left.toNat * right.toNat := by
  unfold checkedMul
  constructor
  · intro h
    split_ifs at h with hfits
    cases h
    rw [UInt64.toNat_mul, Nat.mod_eq_of_lt hfits]
  · intro h
    have hfits : left.toNat * right.toNat < 2 ^ 64 := h ▸ product.toNat_lt
    rw [if_pos hfits]
    congr 1
    rw [← UInt64.toNat_inj, UInt64.toNat_mul, Nat.mod_eq_of_lt hfits, h]

/-- Four fifths are exact for every value. -/
theorem fourFifths_eq_ok (value : UInt64) (field : String) :
    ∃ share, fourFifths value field = .ok share ∧ share.toNat = 4 * value.toNat / 5 := by
  have hlt := value.toNat_lt
  have hquotient : (value / autoHeadroomDenominator).toNat = value.toNat / 5 := UInt64.toNat_div _ _
  have hremainder : (value % autoHeadroomDenominator * autoHeadroomNumerator /
      autoHeadroomDenominator).toNat = value.toNat % 5 * 4 / 5 := by
    rw [UInt64.toNat_div, UInt64.toNat_mul, UInt64.toNat_mod]
    show value.toNat % 5 * 4 % 2 ^ 64 / 5 = value.toNat % 5 * 4 / 5
    omega
  have hwhole : checkedMul (value / autoHeadroomDenominator) autoHeadroomNumerator field =
      .ok (UInt64.ofNat (value.toNat / 5 * 4)) := by
    rw [checkedMul_eq_ok, hquotient]
    exact UInt64.toNat_ofNat_of_lt' (show value.toNat / 5 * 4 < 2 ^ 64 by omega)
  have hsum : checkedAdd (UInt64.ofNat (value.toNat / 5 * 4)) (value % autoHeadroomDenominator *
      autoHeadroomNumerator / autoHeadroomDenominator) field =
      .ok (UInt64.ofNat (4 * value.toNat / 5)) := by
    rw [checkedAdd_eq_ok, hremainder,
      UInt64.toNat_ofNat_of_lt' (show value.toNat / 5 * 4 < 2 ^ 64 by omega),
      UInt64.toNat_ofNat_of_lt' (show 4 * value.toNat / 5 < 2 ^ 64 by omega)]
    omega
  refine ⟨UInt64.ofNat (4 * value.toNat / 5), ?_, ?_⟩
  · simp only [fourFifths, hwhole]
    exact hsum
  · exact UInt64.toNat_ofNat_of_lt' (show 4 * value.toNat / 5 < 2 ^ 64 by omega)

theorem fourFifths_toNat {value share : UInt64} (h : fourFifths value field = .ok share) :
    share.toNat = 4 * value.toNat / 5 := by
  rcases fourFifths_eq_ok value field with ⟨share', hshare', hexact⟩
  rw [h] at hshare'
  cases hshare'
  exact hexact

theorem positive_eq_ok {value : UInt64} {limit : NonZeroU64} (h : positive value field = .ok limit) :
    limit.get = value := by
  unfold positive at h
  split_ifs at h
  cases h
  rfl

theorem ensureAtLeast_eq_ok {limit limit' : NonZeroU64} {owned : UInt64} :
    ensureAtLeast limit owned field = .ok limit' ↔
      limit' = limit ∧ owned.toNat ≤ limit.get.toNat := by
  unfold ensureAtLeast
  split_ifs with hlow
  · have hnat := UInt64.lt_iff_toNat_lt.mp hlow
    simp [hnat]
  · have hnat := UInt64.le_iff_toNat_le.mp (UInt64.not_lt.mp hlow)
    simp [hnat, eq_comm]

theorem toNat_min (a b : UInt64) : (min a b).toNat = min a.toNat b.toNat := by
  have hmin : min a b = if a ≤ b then a else b := rfl
  rw [hmin]
  split_ifs with hle
  · rw [Nat.min_eq_left (UInt64.le_iff_toNat_le.mp hle)]
  · have hge := (UInt64.le_total a b).resolve_left hle
    rw [Nat.min_eq_right (UInt64.le_iff_toNat_le.mp hge)]

/-! ## One limit -/

def CapacityState.amounts : CapacityState → Option (UInt64 × UInt64)
  | .known totalBytes availableBytes => some (totalBytes, availableBytes)
  | .unavailable _ => none

/-- The total and the available bytes that were observed. -/
def HostMemoryObservation.amounts : HostMemoryObservation → Option (UInt64 × UInt64)
  | .available totalBytes availableBytes _ _ => some (totalBytes, availableBytes)
  | .unavailable _ => none

def BackendCapacityObservation.amounts : BackendCapacityObservation → Option (UInt64 × UInt64)
  | .discrete totalBytes availableBytes => some (totalBytes, availableBytes)
  | _ => none

/-- A limit covers what is owned, keeps an explicit request and stays within what was observed. -/
structure Fits (request : BudgetRequest) (amounts : Option (UInt64 × UInt64)) (owned : Nat)
    (limit : NonZeroU64) : Prop where
  covers : owned ≤ limit.get.toNat
  unchanged : ∀ requested, request = .bytes requested → limit = requested
  observed : ∀ total available, amounts = some (total, available) →
    limit.get.toNat ≤ total.toNat ∧ limit.get.toNat ≤ owned + available.toNat ∧
      (request = .auto → limit.get.toNat ≤ owned + 4 * available.toNat / 5)

theorem observedMaximum_eq_ok {total available owned maximum : UInt64}
    (h : observedMaximum total available owned field = .ok maximum) :
    owned.toNat ≤ total.toNat ∧
      maximum.toNat = min total.toNat (owned.toNat + available.toNat) := by
  unfold observedMaximum at h
  split_ifs at h with hbase
  rw [bind_eq_ok] at h
  rcases h with ⟨sum, hsum, h⟩
  cases h
  rw [toNat_min, checkedAdd_eq_ok.mp hsum]
  exact ⟨UInt64.le_iff_toNat_le.mp (UInt64.not_lt.mp hbase), rfl⟩

/-- An automatic limit is what is owned and four fifths of what is available, up to the total. -/
theorem resolveAutomatic_eq_ok {total available owned : UInt64} {limit : NonZeroU64}
    (h : resolveAutomatic (.known total available) owned field = .ok limit) :
    owned.toNat ≤ total.toNat ∧
      limit.get.toNat = min total.toNat (owned.toNat + 4 * available.toNat / 5) := by
  simp only [resolveAutomatic, bind_eq_ok] at h
  rcases h with ⟨maximum, hmaximum, headroom, hheadroom, sum, hsum, positiveLimit, hpositive, h⟩
  rcases observedMaximum_eq_ok hmaximum with ⟨hbase, hmaximum⟩
  rcases ensureAtLeast_eq_ok.mp h with ⟨rfl, howned⟩
  refine ⟨hbase, ?_⟩
  rw [positive_eq_ok hpositive, toNat_min, checkedAdd_eq_ok.mp hsum, fourFifths_toNat hheadroom,
    hmaximum]
  omega

theorem resolveExplicit_eq_ok {requested limit : NonZeroU64} {capacity : CapacityState}
    {owned : UInt64} (h : resolveExplicit requested capacity owned field = .ok limit) :
    Fits (.bytes requested) capacity.amounts owned.toNat limit := by
  unfold resolveExplicit at h
  split_ifs at h with hlow
  have howned := UInt64.le_iff_toNat_le.mp (UInt64.not_lt.mp hlow)
  cases capacity with
  | unavailable reason =>
    cases h
    exact ⟨howned, fun _ h => BudgetRequest.bytes.inj h, nofun⟩
  | known total available =>
    simp only [bind_eq_ok] at h
    rcases h with ⟨maximum, hmaximum, h⟩
    split_ifs at h with hhigh
    cases h
    have hbound := UInt64.le_iff_toNat_le.mp (UInt64.not_lt.mp hhigh)
    rw [(observedMaximum_eq_ok hmaximum).2] at hbound
    refine ⟨howned, fun _ h => BudgetRequest.bytes.inj h, ?_⟩
    intro total' available' hamounts
    cases hamounts
    exact ⟨by omega, by omega, nofun⟩

theorem resolveLimit_fits {request : BudgetRequest} {capacity : CapacityState} {owned : UInt64}
    {limit : NonZeroU64} (h : resolveLimit request capacity owned field = .ok limit) :
    Fits request capacity.amounts owned.toNat limit := by
  cases request with
  | bytes requested => exact resolveExplicit_eq_ok h
  | auto =>
    cases capacity with
    | unavailable reason => cases h
    | known total available =>
      rcases resolveAutomatic_eq_ok h with ⟨hbase, hlimit⟩
      refine ⟨by omega, nofun, ?_⟩
      intro total' available' hamounts
      cases hamounts
      exact ⟨by omega, by omega, fun _ => by omega⟩

/-- The guidance of an automatic shared limit. -/
theorem resolveCombined_auto {host : CapacityState} {recommendation : Option UInt64}
    {owned : UInt64} {limit : NonZeroU64}
    (h : resolveCombined .auto host recommendation owned = .ok limit) :
    ∃ workingSet total available, recommendation = some workingSet ∧
      host = .known total available ∧ owned.toNat ≤ limit.get.toNat ∧
      limit.get.toNat = min (4 * workingSet.toNat / 5)
        (min total.toNat (owned.toNat + 4 * available.toNat / 5)) := by
  cases recommendation with
  | none => cases h
  | some workingSet =>
    cases host with
    | unavailable reason => cases h
    | known total available =>
      simp only [resolveCombined, bind_eq_ok] at h
      rcases h with ⟨guidance, hguidance, derived, hderived, positiveLimit, hpositive, h⟩
      rcases ensureAtLeast_eq_ok.mp h with ⟨rfl, howned⟩
      refine ⟨workingSet, total, available, rfl, rfl, howned, ?_⟩
      rw [positive_eq_ok hpositive, toNat_min, fourFifths_toNat hguidance,
        (resolveAutomatic_eq_ok hderived).2]

theorem resolveCombined_fits {request : BudgetRequest} {host : CapacityState}
    {recommendation : Option UInt64} {owned : UInt64} {limit : NonZeroU64}
    (h : resolveCombined request host recommendation owned = .ok limit) :
    Fits request host.amounts owned.toNat limit := by
  cases request with
  | bytes requested => exact resolveLimit_fits h
  | auto =>
    rcases resolveCombined_auto h with ⟨_, total, available, _, rfl, howned, hlimit⟩
    refine ⟨howned, nofun, ?_⟩
    intro total' available' hamounts
    cases hamounts
    exact ⟨by omega, by omega, fun _ => by omega⟩

/-- A host limit is cut to the shared limit, which covers the host as well. -/
theorem capHostLimit_fits {request : BudgetRequest} {amounts : Option (UInt64 × UInt64)}
    {host combined limit : NonZeroU64} {owned : Nat} (h : capHostLimit request host combined = .ok limit)
    (hfits : Fits request amounts owned host) (hcombined : owned ≤ combined.get.toNat) :
    Fits request amounts owned limit ∧ limit.get.toNat = min host.get.toNat combined.get.toNat := by
  unfold capHostLimit at h
  split_ifs at h with hle hexplicit
  · cases h
    exact ⟨hfits, (Nat.min_eq_left (UInt64.le_iff_toNat_le.mp hle)).symm⟩
  · cases h
    have hlt := UInt64.le_iff_toNat_le.mp ((UInt64.le_total _ _).resolve_left hle)
    cases request with
    | bytes requested => exact absurd rfl hexplicit
    | auto =>
      refine ⟨⟨hcombined, nofun, ?_⟩, (Nat.min_eq_right hlt).symm⟩
      intro total available hamounts
      rcases hfits.observed total available hamounts with ⟨htotal, hsum, hauto⟩
      have hshare := hauto rfl
      exact ⟨by omega, by omega, fun _ => by omega⟩

end Leone.Policy

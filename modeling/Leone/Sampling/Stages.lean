import Leone.Sampling.Order

/-!
# What a stage keeps

Each stage keeps a leading part of the candidates. `Keeps` says how long a part, in terms of the
weights and logits of the candidates, and every count the code computes is that length.
-/

namespace Leone.Sampling

open Framework

variable {K : Type} [LinearOrder K]

/-- A rank with the greatest value of `gap`, the first of several. -/
structure Leads (gap : Nat → K) (ranks : List Nat) (cliff : Nat) : Prop where
  mem : cliff ∈ ranks
  greatest : ∀ rank ∈ ranks, gap rank ≤ gap cliff
  first : ∀ rank ∈ ranks, rank < cliff → gap rank < gap cliff

section Cliff

variable {gap : Nat → K}

/-- The scan of later ranks replaces the leader only by a greater gap. -/
theorem cliffFrom_leads {seen rest : List Nat} {cliff : Nat} (h : Leads gap seen cliff)
    (hseen : ∀ rank ∈ seen, ∀ later ∈ rest, rank < later) (hrest : rest.Pairwise (· < ·)) :
    Leads gap (seen ++ rest) (cliffFrom gap rest cliff (some (gap cliff))) := by
  induction rest generalizing seen cliff with
  | nil => simpa [cliffFrom] using h
  | cons rank rest ih =>
    obtain ⟨hhead, htail⟩ := List.pairwise_cons.mp hrest
    have hsplit : seen ++ rank :: rest = (seen ++ [rank]) ++ rest := by simp
    have hnext : ∀ early ∈ seen ++ [rank], ∀ later ∈ rest, early < later := by
      intro early hearly later hlater
      rcases List.mem_append.mp hearly with hold | hnew
      · exact hseen early hold later (List.mem_cons_of_mem rank hlater)
      · rw [List.mem_singleton.mp hnew]
        exact hhead later hlater
    rw [cliffFrom, Option.all_some, hsplit]
    by_cases hgreater : gap cliff < gap rank
    · rw [if_pos (decide_eq_true hgreater)]
      apply ih _ hnext htail
      constructor
      · simp
      · intro early hearly
        rcases List.mem_append.mp hearly with hold | hnew
        · exact (h.greatest early hold).trans hgreater.le
        · rw [List.mem_singleton.mp hnew]
      · intro early hearly hlt
        rcases List.mem_append.mp hearly with hold | hnew
        · exact (h.greatest early hold).trans_lt hgreater
        · exact absurd hlt (by rw [List.mem_singleton.mp hnew]; exact lt_irrefl _)
    · rw [if_neg (by simpa using hgreater)]
      apply ih _ hnext htail
      have hbefore : cliff < rank := hseen cliff h.mem rank List.mem_cons_self
      constructor
      · exact List.mem_append_left _ h.mem
      · intro early hearly
        rcases List.mem_append.mp hearly with hold | hnew
        · exact h.greatest early hold
        · rw [List.mem_singleton.mp hnew]
          exact not_lt.mp hgreater
      · intro early hearly hlt
        rcases List.mem_append.mp hearly with hold | hnew
        · exact h.first early hold hlt
        · rw [List.mem_singleton.mp hnew] at hlt
          exact absurd hlt (not_lt.mpr hbefore.le)

theorem cliffFrom_range {count : Nat} (hcount : 0 < count) :
    Leads gap (List.range' 1 count) (cliffFrom gap (List.range' 1 count) 1 none) := by
  obtain ⟨more, rfl⟩ := Nat.exists_eq_add_of_lt hcount
  rw [Nat.zero_add, List.range'_succ, cliffFrom]
  have hfirst : Leads gap [1] 1 := by
    constructor
    · simp
    · intro rank hrank
      rw [List.mem_singleton.mp hrank]
    · intro rank hrank hlt
      rw [List.mem_singleton.mp hrank] at hlt
      exact absurd hlt (lt_irrefl _)
  have hlater : ∀ rank ∈ [1], ∀ later ∈ List.range' (1 + 1) more, rank < later := by
    intro rank hrank later hlater
    rw [List.mem_singleton.mp hrank]
    exact (List.mem_range'_1.mp hlater).1
  exact cliffFrom_leads hfirst hlater List.pairwise_lt_range'

end Cliff

variable [Field K]

/-- The leading entries that reach a floor. -/
def Reaches (kept : List K) (floor : K) (keep : Nat) : Prop :=
  ∀ slot < kept.length, slot < keep ↔ floor ≤ weightAt kept slot

/-- The leading entries that reach a floor, or the first if none does. -/
def ReachesOrFirst (kept : List K) (floor : K) (keep : Nat) : Prop :=
  ∀ slot < kept.length, slot < keep ↔ slot = 0 ∨ floor ≤ weightAt kept slot

/-- The shortest leading part that covers a mass. -/
structure Covers (kept : List K) (mass : K) (keep : Nat) : Prop where
  reaches : mass ≤ cumulative kept keep
  shortest : ∀ fewer < keep, cumulative kept fewer < mass

/-- The head before the last entry whose second differences stay within a share of their sum. -/
def Heads (kept : List K) (share : K) (keep : Nat) : Prop :=
  ∀ slot < kept.length, slot < keep ↔
    kept.length < 3 ∨ (secondDifferences kept).sum ≤ 0 ∨
      slot + 1 < kept.length ∧
        cumulative (secondDifferences kept) slot ≤ share * (secondDifferences kept).sum

/-- The candidates above the sharpest relative gap, and at least those the fallback allows. -/
def Cliffs [FloorRing K] (logits : List (Logit K)) (order : List Nat) (tau : K) (keep : Nat) :
    Prop :=
  order.length = 1 ∧ keep = 1 ∨
    ∃ cliff, Leads (weightedGap logits order (minKRange logits order))
        (List.range' 1 (order.length - 1)) cliff ∧
      keep = max cliff (min ⌊tau / minKRange logits order⌋₊ order.length)

section Keeps

variable [Elementary K] [FloorRing K]

/-- What each stage keeps of its candidates. -/
def Keeps (logits : List (Logit K)) (candidates : Candidates K) (keep : Nat) :
    Truncation K → Prop
  | .topK count => keep = min (count : Nat) candidates.kept.length
  | .topP mass => Covers candidates.kept mass keep
  | .minP fraction => Reaches candidates.kept (fraction * weightAt candidates.kept 0) keep
  | .topA fraction =>
    Reaches candidates.kept
      (fraction * weightAt candidates.kept 0 * weightAt candidates.kept 0) keep
  | .epsilon floor => ReachesOrFirst candidates.kept floor keep
  | .eta floor =>
    ReachesOrFirst candidates.kept
      (min floor (Elementary.sqrt floor * Elementary.exp (-entropy candidates.kept))) keep
  | .tailFree share => Heads candidates.kept share keep
  | .topNSigma sigmas =>
    Reaches (candidates.order.map (valueOf logits))
      (weightAt (candidates.order.map (valueOf logits)) 0 -
        sigmas * deviation (candidates.order.map (valueOf logits))) keep
  | .minK tau => Cliffs logits candidates.order tau keep
  | .typical _ => False

end Keeps

section Thresholds

variable {kept : List K} {floor : K}

theorem lt_thresholdKeep (hsorted : kept.Pairwise fun left right => right ≤ left) (slot : Nat) :
    slot < thresholdKeep kept floor ↔ slot < kept.length ∧ floor ≤ weightAt kept slot := by
  have hmono : kept.Pairwise fun left right =>
      decide (floor ≤ right) = true → decide (floor ≤ left) = true := by
    apply hsorted.imp
    intro left right hle hfloor
    simp only [decide_eq_true_eq] at hfloor ⊢
    exact hfloor.trans hle
  rw [thresholdKeep, lt_length_takeWhile hmono]
  constructor
  · intro h
    obtain ⟨hslot, hfloor⟩ := h
    rw [weightAt_of_lt hslot]
    exact ⟨hslot, of_decide_eq_true hfloor⟩
  · intro h
    obtain ⟨hslot, hfloor⟩ := h
    rw [weightAt_of_lt hslot] at hfloor
    exact ⟨hslot, decide_eq_true hfloor⟩

/-- A floor that the first entry reaches keeps it by itself. -/
theorem thresholdKeep_reaches (hsorted : kept.Pairwise fun left right => right ≤ left)
    (hfirst : floor ≤ weightAt kept 0) : Reaches kept floor (max (thresholdKeep kept floor) 1) := by
  intro slot hslot
  rw [lt_max_iff, lt_thresholdKeep hsorted]
  constructor
  · intro h
    rcases h with h | h
    · exact h.2
    · rwa [Nat.lt_one_iff.mp h]
  · intro h
    exact .inl ⟨hslot, h⟩

theorem thresholdKeep_reachesOrFirst (hsorted : kept.Pairwise fun left right => right ≤ left) :
    ReachesOrFirst kept floor (max (thresholdKeep kept floor) 1) := by
  intro slot hslot
  rw [lt_max_iff, lt_thresholdKeep hsorted, Nat.lt_one_iff]
  constructor
  · intro h
    rcases h with h | h
    · exact .inr h.2
    · exact .inl h
  · intro h
    rcases h with h | h
    · exact .inr h
    · exact .inl ⟨hslot, h⟩

end Thresholds

section Prefixes

variable [IsStrictOrderedRing K]

omit [IsStrictOrderedRing K] in
/-- The scan stops at the first count of entries that covers the mass. -/
theorem reachingFrom_covers {mass covered : K} {rest : List K} (hlt : covered < mass)
    (hle : mass ≤ covered + rest.sum) (count : Nat) :
    ∃ more, reachingFrom mass rest count covered = count + more ∧
      mass ≤ covered + cumulative rest more ∧
      ∀ fewer < more, covered + cumulative rest fewer < mass := by
  induction rest generalizing covered count with
  | nil =>
    rw [List.sum_nil, add_zero] at hle
    exact absurd hle (not_le.mpr hlt)
  | cons value rest ih =>
    rw [reachingFrom]
    by_cases hstop : mass ≤ covered + value
    · rw [if_pos hstop]
      refine ⟨1, rfl, by simpa using hstop, ?_⟩
      intro fewer hfewer
      rw [Nat.lt_one_iff.mp hfewer, cumulative_zero, add_zero]
      exact hlt
    · rw [if_neg hstop]
      rw [List.sum_cons, ← add_assoc] at hle
      obtain ⟨more, heq, hreaches, hshortest⟩ := ih (not_le.mp hstop) hle (count + 1)
      refine ⟨more + 1, by rw [heq]; omega, ?_, ?_⟩
      · rwa [cumulative_cons_succ, ← add_assoc]
      · intro fewer hfewer
        cases fewer with
        | zero => rwa [cumulative_zero, add_zero]
        | succ fewer =>
          rw [cumulative_cons_succ, ← add_assoc]
          exact hshortest fewer (by omega)

omit [IsStrictOrderedRing K] in
theorem prefixReachingMass_covers {kept : List K} {mass : K} (hpos : 0 < mass)
    (hle : mass ≤ kept.sum) : Covers kept mass (prefixReachingMass kept mass) := by
  obtain ⟨more, heq, hreaches, hshortest⟩ :=
    reachingFrom_covers hpos (by rwa [zero_add]) 0
  rw [Nat.zero_add] at heq
  simp only [zero_add] at hreaches hshortest
  rw [prefixReachingMass, heq]
  exact ⟨hreaches, hshortest⟩

/-- The scan counts the entries whose cumulative share stays within the bound. -/
theorem coveredFrom_within {total : K} {rest : List K} (hnonneg : ∀ value ∈ rest, 0 ≤ value)
    (htotal : 0 < total) (keep : Nat) (share covered : K) :
    ∃ more, coveredFrom share total rest keep covered = keep + more ∧ more ≤ rest.length ∧
      ∀ slot < rest.length,
        slot < more ↔ covered + cumulative rest (slot + 1) / total ≤ share := by
  induction rest generalizing keep covered with
  | nil => exact ⟨0, rfl, le_refl _, fun slot hslot => absurd hslot (Nat.not_lt_zero _)⟩
  | cons value rest ih =>
    have hrest : ∀ entry ∈ rest, 0 ≤ entry :=
      fun entry hentry => hnonneg entry (List.mem_cons_of_mem _ hentry)
    have hshift : ∀ slot, covered + cumulative (value :: rest) (slot + 1) / total =
        covered + value / total + cumulative rest slot / total := by
      intro slot
      rw [cumulative_cons_succ, add_div, add_assoc]
    rw [coveredFrom]
    by_cases hwithin : covered + value / total ≤ share
    · rw [if_pos hwithin]
      obtain ⟨more, heq, hlen, hslots⟩ := ih hrest (keep + 1) (covered + value / total)
      refine ⟨more + 1, by rw [heq]; omega, Nat.succ_le_succ hlen, ?_⟩
      intro slot hslot
      rw [hshift]
      cases slot with
      | zero => simpa using hwithin
      | succ slot =>
        rw [Nat.add_lt_add_iff_right]
        exact hslots slot (Nat.lt_of_succ_lt_succ hslot)
    · rw [if_neg hwithin]
      refine ⟨0, rfl, Nat.zero_le _, ?_⟩
      intro slot _
      rw [hshift]
      have hmore : 0 ≤ cumulative rest slot / total :=
        div_nonneg (cumulative_nonneg hrest slot) htotal.le
      constructor
      · intro h
        exact absurd h (Nat.not_lt_zero _)
      · intro h
        exact absurd (le_of_add_le_of_nonneg_left h hmore) hwithin

omit [IsStrictOrderedRing K] in
theorem length_secondDifferences (kept : List K) :
    (secondDifferences kept).length = kept.length - 2 := by
  simp [secondDifferences]

theorem secondDifferences_nonneg (kept : List K) : ∀ value ∈ secondDifferences kept, 0 ≤ value := by
  intro value hvalue
  obtain ⟨slot, -, rfl⟩ := List.mem_map.mp hvalue
  exact abs_nonneg _

theorem tailFreeKeep_heads {kept : List K} {share : K} (hshare : 0 < share) :
    Heads kept share (max (tailFreeKeep kept share) 1) := by
  intro slot hslot
  have hall : slot < max kept.length 1 := lt_max_of_lt_left hslot
  rw [tailFreeKeep]
  by_cases hshort : kept.length < 3
  · simp only [hshort, if_true, hall, true_or]
  · rw [if_neg hshort]
    by_cases hflat : (secondDifferences kept).sum ≤ 0
    · simp only [hflat, if_true, hall, true_or, or_true]
    · have htotal := not_le.mp hflat
      have hlength := length_secondDifferences kept
      have hwithin := coveredFrom_within (secondDifferences_nonneg kept) htotal 1
      obtain ⟨more, heq, hlen, hslots⟩ := hwithin share 0
      have hmax : max (1 + more) 1 = more + 1 := by omega
      simp only [hflat, hshort, if_false, heq, hmax, false_or]
      rw [← div_le_iff₀ htotal]
      cases slot with
      | zero =>
        rw [cumulative_zero, zero_div]
        have hnext : 0 + 1 < kept.length := by omega
        simp only [Nat.zero_lt_succ, hnext, hshare.le, and_self]
      | succ slot =>
        rw [Nat.add_lt_add_iff_right]
        by_cases hlast : slot < (secondDifferences kept).length
        · have hnext : slot + 1 + 1 < kept.length := by omega
          rw [hslots slot hlast, zero_add]
          simp only [hnext, true_and]
        · have hpast : ¬ slot + 1 + 1 < kept.length := by omega
          have hnot : ¬ slot < more := by omega
          simp only [hpast, hnot, false_and]

end Prefixes

section Raw

variable [IsStrictOrderedRing K] {logits : List (Logit K)} {order : List Nat}

/-- The first candidate lies within any number of deviations of itself. -/
theorem topNSigmaKeep_reaches [Elementary K] {sigmas : K} (hsigmas : 0 ≤ sigmas)
    (hne : order ≠ [])
    (hsorted : order.Pairwise fun left right => valueOf logits right ≤ valueOf logits left) :
    Reaches (order.map (valueOf logits))
      (weightAt (order.map (valueOf logits)) 0 - sigmas * deviation (order.map (valueOf logits)))
      (max (topNSigmaKeep logits order sigmas) 1) := by
  have hfirst : ∀ value : K, value - sigmas * deviation (order.map (valueOf logits)) ≤ value := by
    intro value
    exact sub_le_self value (mul_nonneg hsigmas (Elementary.sqrt_nonneg _))
  intro slot hslot
  rw [List.length_map] at hslot
  match order, hne with
  | [first], _ =>
    rw [List.length_singleton, Nat.lt_one_iff] at hslot
    have hkept : slot < max (topNSigmaKeep logits [first] sigmas) 1 := by
      rw [hslot]
      exact lt_max_of_lt_right Nat.zero_lt_one
    rw [hslot] at hkept ⊢
    constructor
    · intro _
      exact hfirst _
    · intro _
      exact hkept
  | first :: second :: rest, _ =>
    have hmono : (first :: second :: rest).Pairwise fun left right =>
        decide (valueOf logits first - sigmas *
          deviation ((first :: second :: rest).map (valueOf logits)) ≤ valueOf logits right) =
            true →
        decide (valueOf logits first - sigmas *
          deviation ((first :: second :: rest).map (valueOf logits)) ≤ valueOf logits left) =
            true := by
      apply hsorted.imp
      intro left right hle hcut
      exact decide_eq_true ((of_decide_eq_true hcut).trans hle)
    have hvalue : weightAt ((first :: second :: rest).map (valueOf logits)) slot =
        valueOf logits (first :: second :: rest)[slot] := by
      rw [weightAt_of_lt (by rwa [List.length_map]), List.getElem_map]
    have htop : weightAt ((first :: second :: rest).map (valueOf logits)) 0 =
        valueOf logits first := by
      simp
    rw [hvalue, htop, topNSigmaKeep, lt_max_iff, lt_max_iff, lt_length_takeWhile hmono,
      or_assoc, or_self, Nat.lt_one_iff]
    constructor
    · intro h
      rcases h with ⟨_, hcut⟩ | hzero
      · exact of_decide_eq_true hcut
      · subst hzero
        exact hfirst _
    · intro h
      exact .inl ⟨hslot, decide_eq_true h⟩

/-- A ranking has a range above zero, so Min-k always finds a cliff. -/
theorem minKKeep_cliffs [FloorRing K] {tau : K} (htau : 0 ≤ tau) (hne : order ≠ [])
    (hsorted : order.Pairwise fun left right => valueOf logits right ≤ valueOf logits left) :
    Cliffs logits order tau (max (minKKeep logits order tau) 1) := by
  have hlength : 0 < order.length := List.length_pos_iff.mpr hne
  rw [minKKeep]
  by_cases hshort : order.length < 2
  · left
    rw [if_pos hshort]
    omega
  · right
    have hlast : valueOf logits (order.getD (order.length - 1) 0) ≤
        valueOf logits (order.getD 0 0) := by
      have hlt : 0 < order.length - 1 := by omega
      rw [List.getD_eq_getElem?_getD, List.getD_eq_getElem?_getD,
        List.getElem?_eq_getElem (show order.length - 1 < order.length by omega),
        List.getElem?_eq_getElem hlength]
      exact List.pairwise_iff_getElem.mp hsorted 0 (order.length - 1) hlength (by omega) hlt
    have hrange : 0 < minKRange logits order := by
      have hmargin : (0 : K) < 1 / 10 ^ 8 := by positivity
      rw [minKRange]
      linarith
    have hfallback : minKFallback tau (minKRange logits order) order.length =
        min ⌊tau / minKRange logits order⌋₊ order.length := by
      rw [minKFallback, if_pos (Int.floor_nonneg.mpr (div_nonneg htau hrange.le)),
        Int.floor_toNat]
    have hcount : 0 < order.length - 1 := by omega
    have hleads : Leads (weightedGap logits order (minKRange logits order))
        (List.range' 1 (order.length - 1)) _ := cliffFrom_range hcount
    obtain ⟨hlow, hhigh⟩ := List.mem_range'_1.mp hleads.mem
    rw [if_neg hshort, if_neg (not_le.mpr hrange), hfallback]
    refine ⟨_, hleads, ?_⟩
    dsimp only
    omega

end Raw

end Leone.Sampling

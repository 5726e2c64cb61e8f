import Leone.Drafting.Followers

/-!
# Availability and proposals

A plan is available, has a distribution and proposes together, unless a token that it would count is
outside the vocabulary.
-/

namespace Leone.Drafting

open Framework Sampling CorrectableDrafter

variable {K : Type} [Field K] [LinearOrder K]

/-- A normalized distribution over the vocabulary with weight on some tokens only. -/
structure WeighsOn (vocab : Nat) (tokens : List UInt32) (distribution : Distribution K) : Prop where
  normalized : distribution.Normalized
  len : distribution.len = vocab
  support : ∀ i, 0 < weightAt distribution.probabilities i → ∃ token ∈ tokens, token.toNat = i

section Selection

variable {vocab : Nat} {tokens : List UInt32} {distribution : Distribution K}

theorem scan_none {uniform : K} {probabilities : List K} {index : Nat} {mass : K}
    {last : Option Nat} (h : Sampling.scan uniform probabilities index mass last = none) :
    last = none ∧ ∀ p ∈ probabilities, p ≤ 0 := by
  induction probabilities generalizing index mass last with
  | nil => exact ⟨h, nofun⟩
  | cons p ps ih =>
    rw [Sampling.scan] at h
    split_ifs at h with hp hu
    · obtain ⟨hlast, hps⟩ := ih h
      exact ⟨hlast, List.forall_mem_cons.mpr ⟨hp, hps⟩⟩
    · cases (ih h).1

/-- A draw from a normalized distribution selects a token it has weight on. -/
theorem WeighsOn.selectDraft (h : WeighsOn vocab tokens distribution) [IsStrictOrderedRing K]
    (rng : SamplerRng K) (position : UInt64) :
    ∃ token ∈ tokens, selectDraft distribution rng position = .ok token ∧
      0 < distribution.mass token := by
  rw [Sampling.selectDraft, selectWith]
  cases hscan : Sampling.scan (rng.uniform position .draft) distribution.probabilities 0 0 none with
  | none =>
    have hsum : distribution.probabilities.sum = 0 := List.sum_eq_zero fun p hp =>
      le_antisymm ((scan_none hscan).2 p hp) (h.normalized.nonneg p hp)
    rw [h.normalized.sum_eq_one] at hsum
    exact absurd hsum one_ne_zero
  | some index =>
    rcases scan_support hscan with hnone | ⟨_, hpos⟩
    · cases hnone
    · obtain ⟨token, hmem, hindex⟩ := h.support _ hpos
      rw [Nat.sub_zero] at hindex hpos
      have htoken : UInt32.ofNat index = token := by
        rw [← hindex, UInt32.ofNat_toNat]
      refine ⟨token, hmem, by rw [← htoken], ?_⟩
      rw [Distribution.mass, hindex]
      exact hpos

end Selection

variable [IsStrictOrderedRing K]

/-- The frequencies of a count are a distribution over the vocabulary. -/
theorem Counts.distribution {vocab : Nat} {tokens : List UInt32} {state : List Nat × Nat}
    (h : Counts vocab tokens state) (hvocab : 0 < vocab) (hpos : tokens ≠ []) :
    ∃ distribution : Distribution K, Distribution.fromProbabilities
        (state.1.map fun count : Nat => (count : K) / (state.2 : K)) = .ok distribution ∧
      WeighsOn vocab tokens distribution := by
  have htotal : (0 : K) < (state.2 : K) := by
    rw [h.total]
    exact_mod_cast List.length_pos_of_ne_nil hpos
  have hsum : (state.1.map fun count : Nat => (count : K) / (state.2 : K)).sum = 1 := by
    simp only [div_eq_mul_inv]
    rw [List.sum_map_mul_right, ← Nat.cast_list_sum, h.sum, ← h.total, mul_inv_cancel₀ htotal.ne']
  have hempty : (state.1.map fun count : Nat => (count : K) / (state.2 : K)).isEmpty = false := by
    rw [List.isEmpty_eq_false_iff, ne_eq, List.map_eq_nil_iff, ← List.length_eq_zero_iff, h.length]
    exact hvocab.ne'
  have hany : (state.1.map fun count : Nat => (count : K) / (state.2 : K)).any (· < 0) = false := by
    rw [List.any_eq_false]
    intro p hp
    obtain ⟨count, _, rfl⟩ := List.mem_map.mp hp
    simpa using div_nonneg (Nat.cast_nonneg count) htotal.le
  have hok : Distribution.fromProbabilities
      (state.1.map fun count : Nat => (count : K) / (state.2 : K)) =
        .ok ⟨(state.1.map fun count : Nat => (count : K) / (state.2 : K)).map (· / 1)⟩ := by
    rw [Distribution.fromProbabilities, hempty, hany, hsum]
    simp
  refine ⟨_, hok, Distribution.fromProbabilities_normalized hok, ?_, fun i hi => ?_⟩
  · rw [Distribution.len, List.length_map, List.length_map, h.length]
  · have hlt : i < vocab := by
      by_contra hge
      rw [weightAt_of_le (by simpa [h.length] using hge)] at hi
      exact lt_irrefl _ hi
    have hcount := h.count i hlt
    rw [weightAt, List.getD_eq_getElem?_getD, List.getElem?_map, List.getElem?_map, hcount] at hi
    simp only [Option.map_some, Option.getD_some, div_one] at hi
    by_contra hnone
    have hzero : (tokens.countP fun token => token.toNat = i) = 0 := by
      rw [List.countP_eq_zero]
      intro token hmem heq
      exact hnone ⟨token, hmem, by simpa using heq⟩
    rw [hzero, Nat.cast_zero, zero_div] at hi
    exact lt_irrefl _ hi

variable {drafter : CorrectableDrafter} {history : List UInt32} {order : Nat}

/-- An order has a distribution where a token followed its context and all of them are in the
vocabulary. -/
theorem distributionForOrder_some (hroom : history.length < 2 ^ 64)
    (hpos : followers history order ≠ [])
    (hinside : ∀ token ∈ followers history order, token.toNat < drafter.vocabSize) :
    ∃ distribution : Distribution K,
      drafter.distributionForOrder history order = some distribution ∧
        WeighsOn drafter.vocabSize (followers history order) distribution := by
  obtain ⟨state, hfold, hcounts⟩ :=
    foldlM_countToken drafter (length_followers_le.trans_lt hroom) hinside
  obtain ⟨distribution, hok, hweighs⟩ := hcounts.distribution (K := K) drafter.vocabSize_pos hpos
  refine ⟨distribution, ?_, hweighs⟩
  have hlonger : ¬ history.length ≤ order := fun hle => hpos (followers_eq_nil_of_le hle)
  have hhistory : history ≠ [] := by
    intro hnil
    subst hnil
    exact hlonger (Nat.zero_le order)
  have htotal : state.2 ≠ 0 := by
    rw [hcounts.total]
    exact (List.length_pos_of_ne_nil hpos).ne'
  rw [distributionForOrder, if_neg (not_or.mpr ⟨hhistory, hlonger⟩), countsForOrder_eq, hfold]
  simp only [htotal, if_false, hok]
  rfl

omit [IsStrictOrderedRing K] in
theorem distributionForOrder_none (hroom : history.length < 2 ^ 64)
    (h : followers history order = [] ∨
      ∃ token ∈ followers history order, drafter.vocabSize ≤ token.toNat) :
    (drafter.distributionForOrder history order : Option (Distribution K)) = none := by
  rw [distributionForOrder]
  split_ifs
  · rfl
  · rw [countsForOrder_eq]
    rcases h with hnil | houtside
    · rw [hnil]
      rfl
    · rw [foldlM_countToken_none drafter (length_followers_le.trans_lt hroom) houtside]

/-! ## The order of a plan -/

/-- The plan counts at an order. `Suffix` counts at the longest context that occurred before. -/
def CountsAt (plan : CorrectablePlan) (history : List UInt32) (order : Nat) : Prop :=
  match plan with
  | .unigram => order = 0
  | .bigram => order = 1
  | .fourgram => order = 3
  | .suffix => (4 ≤ order ∧ order ≤ min (history.length - 1) 64) ∧ followers history order ≠ [] ∧
    ∀ longer, order < longer → longer ≤ min (history.length - 1) 64 → followers history longer = []

theorem mem_suffixOrders : order ∈ suffixOrders history ↔
    4 ≤ order ∧ order ≤ min (history.length - 1) 64 := by
  rw [suffixOrders, List.mem_reverse, List.mem_range'_1]
  omega

theorem suffixOrders_sorted (history : List UInt32) : (suffixOrders history).Pairwise (· > ·) := by
  rw [suffixOrders, List.pairwise_reverse]
  exact List.pairwise_lt_range'

/-- The suffix search finds the longest context that occurred before, or none did. -/
theorem suffix_cases (history : List UInt32) :
    (∀ order ∈ suffixOrders history, followers history order = []) ∨
      ∃ order, CountsAt .suffix history order := by
  by_cases hnone : ∀ order ∈ suffixOrders history, followers history order = []
  · exact .inl hnone
  · push Not at hnone
    obtain ⟨order, hmem, hpos⟩ := hnone
    obtain ⟨hfour, hbound⟩ := mem_suffixOrders.mp hmem
    let P : Nat → Prop := fun order => 4 ≤ order ∧ followers history order ≠ []
    have hspec : P (Nat.findGreatest P (min (history.length - 1) 64)) :=
      Nat.findGreatest_spec hbound ⟨hfour, hpos⟩
    refine .inr ⟨_, ⟨hspec.1, Nat.findGreatest_le _⟩, hspec.2, fun longer hlonger hle => ?_⟩
    have hnot : ¬ P longer := Nat.findGreatest_is_greatest hlonger hle
    by_contra hfollowers
    exact hnot ⟨hspec.1.trans hlonger.le, hfollowers⟩

/-- An order without a distribution, behind a context that occurred before, meets a token outside the
vocabulary. -/
theorem exists_outside (hroom : history.length < 2 ^ 64) (hpos : followers history order ≠ [])
    (h : (drafter.distributionForOrder history order : Option (Distribution K)) = none) :
    ∃ token ∈ followers history order, drafter.vocabSize ≤ token.toNat := by
  by_contra hinside
  push Not at hinside
  obtain ⟨distribution, hsome, _⟩ := distributionForOrder_some (K := K) hroom hpos hinside
  rw [h] at hsome
  cases hsome

/-- The suffix search takes the distribution of the longest context that occurred before. -/
theorem nextDistribution_suffix (hroom : history.length < 2 ^ 64)
    (h : CountsAt .suffix history order) :
    (drafter.nextDistribution .suffix history : Option (Distribution K)) =
      drafter.distributionForOrder history order := by
  obtain ⟨hbounds, hpos, hlonger⟩ := h
  have hmem := mem_suffixOrders.mpr hbounds
  have habove : ∀ longer ∈ suffixOrders history, order < longer →
      (drafter.distributionForOrder history longer : Option (Distribution K)) = none := by
    intro longer hlongerMem hlt
    exact distributionForOrder_none hroom (.inl (hlonger longer hlt (mem_suffixOrders.mp hlongerMem).2))
  show (suffixOrders history).findSome? (drafter.distributionForOrder history) = _
  cases hdistribution : (drafter.distributionForOrder history order : Option (Distribution K)) with
  | some distribution =>
    obtain ⟨longer, shorter, hsplit⟩ := List.append_of_mem hmem
    rw [List.findSome?_eq_some_iff]
    refine ⟨longer, order, shorter, hsplit, hdistribution, fun other hother => ?_⟩
    have hsorted := suffixOrders_sorted history
    rw [hsplit] at hsorted
    apply habove other
    · rw [hsplit]
      exact List.mem_append_left _ hother
    · exact (List.pairwise_append.mp hsorted).2.2 other hother order List.mem_cons_self
  | none =>
    -- A token outside the vocabulary behind the longest context is behind every shorter one.
    obtain ⟨token, htoken, houtside⟩ := exists_outside hroom hpos hdistribution
    rw [List.findSome?_eq_none_iff]
    intro other hother
    by_cases hlt : order < other
    · exact habove other hother hlt
    · exact distributionForOrder_none hroom
        (.inr ⟨token, followers_subset (not_lt.mp hlt) htoken, houtside⟩)

theorem nextDistribution_eq (hroom : history.length < 2 ^ 64) {plan : CorrectablePlan}
    (h : CountsAt plan history order) :
    (drafter.nextDistribution plan history : Option (Distribution K)) =
      drafter.distributionForOrder history order := by
  cases plan with
  | suffix => exact nextDistribution_suffix hroom h
  | unigram =>
    subst h
    rfl
  | bigram =>
    subst h
    rfl
  | fourgram =>
    subst h
    rfl

theorem CountsAt.unique {plan : CorrectablePlan} {order' : Nat} (h : CountsAt plan history order)
    (h' : CountsAt plan history order') : order = order' := by
  cases plan with
  | suffix =>
    by_contra hne
    rcases Nat.lt_or_gt_of_ne hne with hlt | hlt
    · exact h'.2.1 (h.2.2 order' hlt h'.1.2)
    · exact h.2.1 (h'.2.2 order hlt h.1.2)
  | _ => exact h.trans h'.symm

theorem nextDistribution_isSome_iff (hroom : history.length < 2 ^ 64) (plan : CorrectablePlan) :
    (drafter.nextDistribution plan history : Option (Distribution K)).isSome ↔
      ∃ order, CountsAt plan history order ∧ followers history order ≠ [] ∧
        ∀ token ∈ followers history order, token.toNat < drafter.vocabSize := by
  constructor
  · intro hsome
    have hcounts : ∃ order, CountsAt plan history order := by
      cases plan with
      | suffix =>
        rcases suffix_cases history with hnone | hcounts
        · have hall : (drafter.nextDistribution .suffix history : Option (Distribution K)) = none := by
            show (suffixOrders history).findSome? _ = none
            rw [List.findSome?_eq_none_iff]
            exact fun order hmem => distributionForOrder_none hroom (.inl (hnone order hmem))
          rw [hall] at hsome
          cases hsome
        · exact hcounts
      | _ => exact ⟨_, rfl⟩
    obtain ⟨order, hcounts⟩ := hcounts
    rw [nextDistribution_eq hroom hcounts] at hsome
    refine ⟨order, hcounts, fun hnil => ?_, fun token hmem => ?_⟩
    · rw [distributionForOrder_none hroom (.inl hnil)] at hsome
      cases hsome
    · by_contra houtside
      rw [distributionForOrder_none hroom (.inr ⟨token, hmem, not_lt.mp houtside⟩)] at hsome
      cases hsome
  · intro hex
    obtain ⟨order, hcounts, hpos, hinside⟩ := hex
    obtain ⟨distribution, hsome, _⟩ := distributionForOrder_some (K := K) hroom hpos hinside
    rw [nextDistribution_eq hroom hcounts, hsome]
    rfl

/-- The distribution of a plan weighs on the tokens that followed its context. -/
theorem nextDistribution_weighsOn (hroom : history.length < 2 ^ 64) {plan : CorrectablePlan}
    {distribution : Distribution K} (h : drafter.nextDistribution plan history = some distribution) :
    ∃ order, CountsAt plan history order ∧
      WeighsOn drafter.vocabSize (followers history order) distribution := by
  obtain ⟨order, hcounts, hpos, hinside⟩ :=
    (nextDistribution_isSome_iff (K := K) hroom plan).mp (by rw [h]; rfl)
  obtain ⟨other, hsome, hweighs⟩ := distributionForOrder_some (K := K) hroom hpos hinside
  rw [nextDistribution_eq hroom hcounts, hsome] at h
  obtain rfl := Option.some.inj h
  exact ⟨order, hcounts, hweighs⟩

/-- A plan is available where its context occurred before. `Unigram` asks for a token of the
vocabulary. -/
theorem planAvailable_iff (drafter : CorrectableDrafter) (plan : CorrectablePlan)
    (history : List UInt32) : drafter.planAvailable plan history = true ↔
      ∃ order, CountsAt plan history order ∧ followers history order ≠ [] ∧
        (plan = .unigram → ∃ token ∈ history, token.toNat < drafter.vocabSize) := by
  cases plan with
  | unigram =>
    show (history.any _) = true ↔ _
    rw [List.any_eq_true]
    constructor
    · intro hex
      obtain ⟨token, hmem, hlt⟩ := hex
      refine ⟨0, rfl, ?_, fun _ => ⟨token, hmem, by simpa using hlt⟩⟩
      rw [followers_zero]
      exact List.ne_nil_of_mem hmem
    · intro hex
      obtain ⟨_, _, _, hinside⟩ := hex
      obtain ⟨token, hmem, hlt⟩ := hinside rfl
      exact ⟨token, hmem, by simpa using hlt⟩
  | suffix =>
    show ((suffixOrders history).any _) = true ↔ _
    rw [List.any_eq_true]
    constructor
    · intro hex
      obtain ⟨order, hmem, havailable⟩ := hex
      rcases suffix_cases history with hnone | ⟨longest, hcounts⟩
      · exact absurd (hnone order hmem) (orderAvailable_iff.mp havailable).2
      · exact ⟨longest, hcounts, hcounts.2.1, nofun⟩
    · intro hex
      obtain ⟨order, hcounts, hpos, _⟩ := hex
      refine ⟨order, mem_suffixOrders.mpr hcounts.1, orderAvailable_iff.mpr ⟨?_, hpos⟩⟩
      have hfour := hcounts.1.1
      omega
  | bigram =>
    show orderAvailable history 1 = true ↔ _
    rw [orderAvailable_iff]
    exact ⟨fun h => ⟨1, rfl, h.2, nofun⟩, fun ⟨_, heq, hpos, _⟩ => ⟨one_ne_zero, heq ▸ hpos⟩⟩
  | fourgram =>
    show orderAvailable history 3 = true ↔ _
    rw [orderAvailable_iff]
    exact ⟨fun h => ⟨3, rfl, h.2, nofun⟩, fun ⟨_, heq, hpos, _⟩ => ⟨three_ne_zero, heq ▸ hpos⟩⟩

/-! ## Proposals -/

/-- The step of a proposal behind some tokens: a normalized distribution over the vocabulary, with
weight on tokens that followed the context of the plan only, and on the token of the step. -/
structure SoundStep (drafter : CorrectableDrafter) (plan : CorrectablePlan) (working : List UInt32)
    (step : CorrectableStep K) : Prop where
  normalized : step.distribution.Normalized
  len : step.distribution.len = drafter.vocabSize
  support : ∃ order, CountsAt plan working order ∧
    ∀ token, 0 < step.distribution.mass token → token ∈ followers working order
  token : 0 < step.distribution.mass step.token

/-- Each step is sound behind the history and the tokens of the steps before it. -/
def SoundSteps (drafter : CorrectableDrafter) (plan : CorrectablePlan) :
    List UInt32 → List (CorrectableStep K) → Prop
  | _, [] => True
  | working, step :: steps =>
    SoundStep drafter plan working step ∧ SoundSteps drafter plan (working ++ [step.token]) steps

/-- What a call of `proposeFrom` with room for its draws returns. -/
theorem proposeFrom_ok {plan : CorrectablePlan} (rng : SamplerRng K) (position : UInt64)
    (remaining : Nat) {offset : Nat} {working : List UInt32}
    (hdraws : position.toNat + offset + remaining ≤ 2 ^ 64)
    (hroom : working.length + remaining < 2 ^ 64) :
    ∃ steps, drafter.proposeFrom plan rng position remaining offset working = .ok steps := by
  induction remaining generalizing offset working with
  | zero => exact ⟨[], rfl⟩
  | succ remaining ih =>
    rw [proposeFrom]
    cases hnext : (drafter.nextDistribution plan working : Option (Distribution K)) with
    | none => exact ⟨[], rfl⟩
    | some distribution =>
      obtain ⟨order, _, hweighs⟩ := nextDistribution_weighsOn (by omega) hnext
      have hadd : checkedAdd 64 position.toNat offset = some (position.toNat + offset) := by
        rw [checkedAdd_eq_some]
        omega
      obtain ⟨token, _, hselect, _⟩ :=
        hweighs.selectDraft rng (UInt64.ofNat (position.toNat + offset))
      obtain ⟨steps, hsteps⟩ := @ih (offset + 1) (working ++ [token]) (by omega) (by
        rw [List.length_append, List.length_singleton]
        omega)
      simp only [hadd, hselect, hsteps]
      exact ⟨_, rfl⟩

theorem proposeFrom_sound {plan : CorrectablePlan} {rng : SamplerRng K} {position : UInt64}
    {remaining offset : Nat} {working : List UInt32} {steps : List (CorrectableStep K)}
    (hroom : working.length + remaining < 2 ^ 64)
    (h : drafter.proposeFrom plan rng position remaining offset working = .ok steps) :
    SoundSteps drafter plan working steps ∧ (remaining ≠ 0 → (steps ≠ [] ↔
      (drafter.nextDistribution plan working : Option (Distribution K)).isSome)) := by
  induction remaining generalizing offset working steps with
  | zero =>
    cases h
    exact ⟨trivial, fun hne => absurd rfl hne⟩
  | succ remaining ih =>
    rw [proposeFrom] at h
    cases hnext : (drafter.nextDistribution plan working : Option (Distribution K)) with
    | none =>
      rw [hnext] at h
      cases h
      simp [SoundSteps]
    | some distribution =>
      rw [hnext] at h
      dsimp only at h
      cases hadd : checkedAdd 64 position.toNat offset with
      | none =>
        rw [hadd] at h
        cases h
      | some drawPosition =>
        obtain ⟨order, hcounts, hweighs⟩ := nextDistribution_weighsOn (by omega) hnext
        obtain ⟨token, hmem, hselect, hpos⟩ := hweighs.selectDraft rng (UInt64.ofNat drawPosition)
        rw [hadd] at h
        dsimp only at h
        rw [hselect] at h
        obtain ⟨rest, hrest, hsteps⟩ := bind_eq_ok.mp h
        cases hsteps
        refine ⟨⟨⟨hweighs.normalized, hweighs.len, ⟨order, hcounts, fun other hother => ?_⟩, hpos⟩,
          (ih (by
            rw [List.length_append, List.length_singleton]
            omega) hrest).1⟩, fun _ => by simp⟩
        obtain ⟨same, hsame, heq⟩ := hweighs.support _ hother
        rw [← UInt32.toNat_inj.mp heq]
        exact hsame

/-- Whenever the plan proposes, the proposal is sound. -/
theorem propose_sound {plan : CorrectablePlan} (hroom : history.length + 7 < 2 ^ 64) {tokens : Nat}
    {rng : SamplerRng K} {position : UInt64} {proposal : CorrectableProposal K}
    (h : drafter.propose plan history tokens rng position = .ok (some proposal)) :
    proposal.plan = plan ∧ proposal.steps ≠ [] ∧ SoundSteps drafter plan history proposal.steps := by
  rw [CorrectableDrafter.propose] at h
  split_ifs at h with hzero
  · cases h
  obtain ⟨steps, hsteps, hproposal⟩ := bind_eq_ok.mp h
  have hwidth : min tokens drafter.maximumProposalTokens ≤ 7 :=
    (Nat.min_le_right _ _).trans drafter.maximum_le
  obtain ⟨hsound, _⟩ := proposeFrom_sound (by omega) hsteps
  by_cases hnil : steps = []
  · rw [if_pos hnil] at hproposal
    cases hproposal
  · rw [if_neg hnil] at hproposal
    cases hproposal
    exact ⟨rfl, hnil, hsound⟩

/-- With room for its draws a plan proposes where it has a distribution. -/
theorem propose_iff {plan : CorrectablePlan} (hroom : history.length + 7 < 2 ^ 64) {tokens : Nat}
    (htokens : 1 ≤ tokens) (rng : SamplerRng K) {position : UInt64}
    (hdraws : position.toNat + min tokens drafter.maximumProposalTokens ≤ 2 ^ 64) :
    (∃ proposal, drafter.propose plan history tokens rng position = .ok (some proposal)) ↔
      (drafter.nextDistribution plan history : Option (Distribution K)).isSome := by
  have hwidth : min tokens drafter.maximumProposalTokens ≤ 7 :=
    (Nat.min_le_right _ _).trans drafter.maximum_le
  have hpos : min tokens drafter.maximumProposalTokens ≠ 0 := by
    have hmaximum := drafter.maximum_pos
    omega
  obtain ⟨steps, hsteps⟩ : ∃ steps, drafter.proposeFrom plan rng position
      (min tokens drafter.maximumProposalTokens) 0 history = .ok steps :=
    proposeFrom_ok rng position _ (by omega) (by omega)
  have hsome := (proposeFrom_sound (by omega) hsteps).2 hpos
  rw [← hsome, CorrectableDrafter.propose, if_neg hpos, hsteps]
  constructor
  · intro hex hnil
    obtain ⟨proposal, hproposal⟩ := hex
    rw [hnil] at hproposal
    cases hproposal
  · intro hne
    refine ⟨⟨plan, steps⟩, ?_⟩
    show Except.ok _ = _
    rw [if_neg hne]

/-- The plan is available, has a distribution and proposes together, for every number of tokens whose
draws have positions, and its proposals are sound. -/
def Agrees (K : Type) [Field K] [LinearOrder K] (drafter : CorrectableDrafter)
    (plan : CorrectablePlan) (history : List UInt32) : Prop :=
  (drafter.availablePlans history plan = true ↔
    (drafter.nextDistribution plan history : Option (Distribution K)).isSome) ∧
  ∀ (tokens : Nat) (rng : SamplerRng K) (position : UInt64), 1 ≤ tokens →
    (position.toNat + min tokens drafter.maximumProposalTokens ≤ 2 ^ 64 →
      ((drafter.nextDistribution plan history : Option (Distribution K)).isSome ↔
        ∃ proposal, drafter.propose plan history tokens rng position = .ok (some proposal))) ∧
    ∀ proposal, drafter.propose plan history tokens rng position = .ok (some proposal) →
      proposal.plan = plan ∧ proposal.steps ≠ [] ∧ SoundSteps drafter plan history proposal.steps

/-- Every token that the plan counts is in the vocabulary. `Unigram` may also find none there. -/
def CountsVocabulary (drafter : CorrectableDrafter) (plan : CorrectablePlan)
    (history : List UInt32) : Prop :=
  ∀ order, CountsAt plan history order →
    (plan = .unigram → ∃ token ∈ history, token.toNat < drafter.vocabSize) →
    ∀ token ∈ followers history order, token.toNat < drafter.vocabSize

theorem agrees_iff (drafter : CorrectableDrafter) (plan : CorrectablePlan)
    (hroom : history.length + 7 < 2 ^ 64) :
    Agrees K drafter plan history ↔ CountsVocabulary drafter plan history := by
  have hshort : history.length < 2 ^ 64 := by omega
  have hsome : (drafter.nextDistribution plan history : Option (Distribution K)).isSome ↔ _ :=
    nextDistribution_isSome_iff hshort plan
  have havailable := planAvailable_iff drafter plan history
  constructor
  · intro hagrees order hcounts hunigram token hmem
    obtain ⟨order', hcounts', _, hinside⟩ := hsome.mp <| hagrees.1.mp <|
      havailable.mpr ⟨order, hcounts, List.ne_nil_of_mem hmem, hunigram⟩
    rw [hcounts.unique hcounts'] at hmem
    exact hinside token hmem
  · intro hvocabulary
    refine ⟨?_, fun tokens rng position htokens => ⟨fun hdraws =>
      (propose_iff hroom htokens rng hdraws).symm, fun proposal => propose_sound hroom⟩⟩
    rw [hsome, availablePlans, havailable]
    constructor
    · intro hex
      obtain ⟨order, hcounts, hpos, hunigram⟩ := hex
      exact ⟨order, hcounts, hpos, hvocabulary order hcounts hunigram⟩
    · intro hex
      obtain ⟨order, hcounts, hpos, hinside⟩ := hex
      refine ⟨order, hcounts, hpos, fun heq => ?_⟩
      subst heq
      obtain rfl : order = 0 := hcounts
      rw [followers_zero] at hpos hinside
      obtain ⟨token, hmem⟩ := List.exists_mem_of_ne_nil _ hpos
      exact ⟨token, hmem, hinside token hmem⟩

/-- A vocabulary of two tokens. -/
def smallDrafter : CorrectableDrafter := ⟨2, 7, Nat.two_pos, by decide, by decide⟩

theorem agrees_iff_small :
    Agrees ℚ smallDrafter .bigram [0, 1, 0] ↔ CountsVocabulary smallDrafter .bigram [0, 1, 0] :=
  agrees_iff smallDrafter .bigram (by decide)

/-- One token outside the vocabulary leaves `Unigram` available without a distribution. -/
theorem unigram_available_without_distribution : ¬ Agrees ℚ smallDrafter .unigram [0, 5] := by
  intro hagrees
  have havailable : smallDrafter.availablePlans [0, 5] .unigram = true := by decide
  have hnone : (smallDrafter.nextDistribution .unigram [0, 5] : Option (Distribution ℚ)).isSome =
      false := by decide +kernel
  have hsome := hagrees.1.mp havailable
  rw [hnone] at hsome
  cases hsome

end Leone.Drafting

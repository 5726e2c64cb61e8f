import Mathlib
import Leone.Framework.Cumulative

/-!
# Speculative verification

A drafted token is accepted with probability `min 1 (p / q)`, and a rejected one is replaced from
the residual `max (p - q) 0`. The arithmetic is that of an ordered field, so a row is exact.
-/

namespace Leone.Sampling

open Framework

inductive SamplerError where
  | emptyRow
  | rowMismatch (target draft : Nat)
  | tokenOutOfRange (token : UInt32) (vocab : Nat)
  | temperature
  | truncation (stage : String)
  | allNaN
  | invalidDistribution
  deriving DecidableEq, Repr

def SamplerError.message : SamplerError → String
  | .emptyRow => "logit row is empty"
  | .rowMismatch target draft =>
    s!"logit rows differ: target has {target} entries, draft has {draft}"
  | .tokenOutOfRange token vocab => s!"token {token} is outside a vocabulary of {vocab}"
  | .temperature => "temperature must be finite and greater than zero"
  | .truncation stage => s!"the {stage} parameter is outside its valid range"
  | .allNaN => "every logit is non-finite, so no token can be sampled"
  | .invalidDistribution => "probabilities must be finite, nonnegative, and have positive mass"

/-- The purpose of one random draw. -/
inductive Draw where
  | accept
  | select
  | draft
  deriving DecidableEq, Repr

instance : Fintype Draw where
  elems := {.accept, .select, .draft}
  complete draw := by cases draw <;> decide

/-- A draw is a function of the position and the purpose. -/
structure SamplerRng (K : Type) where
  uniform : UInt64 → Draw → K

/-- A sampling distribution over one vocabulary. -/
structure Distribution (K : Type) where
  probabilities : List K
  deriving DecidableEq

variable {K : Type} [Field K] [LinearOrder K]

namespace Distribution

def fromProbabilities (probabilities : List K) : Except SamplerError (Distribution K) :=
  if probabilities.isEmpty || probabilities.any (· < 0) then
    .error .invalidDistribution
  else
    let total := probabilities.sum
    if total ≤ 0 then
      .error .invalidDistribution
    else
      .ok { probabilities := probabilities.map (· / total) }

def len (self : Distribution K) : Nat := self.probabilities.length

def probability (self : Distribution K) (token : UInt32) : Except SamplerError K :=
  match self.probabilities[token.toNat]? with
  | some probability => .ok probability
  | none => .error (.tokenOutOfRange token self.len)

/-- The entries are nonnegative and sum to one. -/
structure Normalized (distribution : Distribution K) : Prop where
  nonneg : ∀ p ∈ distribution.probabilities, 0 ≤ p
  sum_eq_one : distribution.probabilities.sum = 1

end Distribution

/-- The scan of `selectWith` from an index, with the mass and the last eligible index before it. -/
def scan (uniform : K) : List K → Nat → K → Option Nat → Option Nat
  | [], _, _, lastEligible => lastEligible
  | probability :: rest, index, cumulative, lastEligible =>
    if probability ≤ 0 then
      scan uniform rest (index + 1) cumulative lastEligible
    else if uniform < cumulative + probability then
      some index
    else
      scan uniform rest (index + 1) (cumulative + probability) (some index)

def selectWith (distribution : Distribution K) (uniform : K) : Except SamplerError UInt32 :=
  match scan uniform distribution.probabilities 0 0 none with
  | some index => .ok (UInt32.ofNat index)
  | none => .error .allNaN

def select (distribution : Distribution K) (rng : SamplerRng K) (position : UInt64) :
    Except SamplerError UInt32 :=
  selectWith distribution (rng.uniform position .select)

def selectDraft (distribution : Distribution K) (rng : SamplerRng K) (position : UInt64) :
    Except SamplerError UInt32 :=
  selectWith distribution (rng.uniform position .draft)

/-- The outcome of verifying one drafted token. -/
inductive Verdict where
  | accept
  | reject (token : UInt32)
  deriving DecidableEq, Repr

def residualEntries (target draft : Distribution K) : List K :=
  List.zipWith (fun left right => max (left - right) 0) target.probabilities draft.probabilities

def correctionResidual (target draft : Distribution K) :
    Except SamplerError (Distribution K) :=
  if target.len ≠ draft.len then
    .error (.rowMismatch target.len draft.len)
  else
    let probabilities := residualEntries target draft
    let total := probabilities.sum
    if total ≤ 0 then
      .ok target
    else
      .ok { probabilities := probabilities.map (· / total) }

def verify (target draft : Distribution K) (drafted : UInt32) (rng : SamplerRng K)
    (position : UInt64) : Except SamplerError Verdict := do
  if target.len ≠ draft.len then
    throw (.rowMismatch target.len draft.len)
  let targetProbability ← target.probability drafted
  let draftProbability ← draft.probability drafted
  -- A token the drafter could not have produced is rejected outright.
  let accepted :=
    if 0 < draftProbability then
      let ratio := targetProbability / draftProbability
      decide (1 ≤ ratio) || decide (rng.uniform position .accept < ratio)
    else
      false
  if accepted then
    return .accept
  let residual ← correctionResidual target draft
  let token ← selectWith residual (rng.uniform position .select)
  return .reject token

/-- One round at a position: draft a token, verify it, and emit it or its replacement. -/
def emit (target draft : Distribution K) (rng : SamplerRng K) (position : UInt64) :
    Except SamplerError UInt32 := do
  let drafted ← selectDraft draft rng position
  match ← verify target draft drafted rng position with
  | .accept => return drafted
  | .reject token => return token

/-- The probability that a drafted token is kept. -/
def acceptance (target draft : K) : K := if 0 < draft then min 1 (target / draft) else 0

section Scan

variable {uniform : K}

/-- A selected index has positive probability, whatever the draw. -/
theorem scan_support {probabilities : List K} {index i : Nat} {mass : K} {last : Option Nat}
    (h : scan uniform probabilities index mass last = some i) :
    last = some i ∨ index ≤ i ∧ 0 < weightAt probabilities (i - index) := by
  induction probabilities generalizing index mass last with
  | nil =>
    left
    exact h
  | cons p ps ih =>
    rw [scan] at h
    have hshift : ∀ {last' : Option Nat}, (last' = some i ∨
        index + 1 ≤ i ∧ 0 < weightAt ps (i - (index + 1))) →
        last' = some i ∨ index ≤ i ∧ 0 < weightAt (p :: ps) (i - index) := by
      intro last' hor
      rcases hor with hlast | ⟨hle, hpos⟩
      · exact .inl hlast
      · have hsub : i - index = i - (index + 1) + 1 := by omega
        right
        rw [hsub, weightAt_cons_succ]
        exact ⟨by omega, hpos⟩
    split_ifs at h with hp hu
    · exact hshift (ih h)
    · right
      cases h
      rw [Nat.sub_self, weightAt_cons_zero]
      exact ⟨le_refl _, not_le.mp hp⟩
    · rcases hshift (ih h) with hlast | hpos
      · right
        cases hlast
        rw [Nat.sub_self, weightAt_cons_zero]
        exact ⟨le_refl _, not_le.mp hp⟩
      · exact .inr hpos

/-- Below the total mass the scan stops in the interval that holds the draw. -/
theorem scan_eq [IsStrictOrderedRing K] {probabilities : List K}
    (hnonneg : ∀ p ∈ probabilities, 0 ≤ p) (index : Nat) {mass : K} (last : Option Nat) (hle : mass ≤ uniform)
    (hlt : uniform < mass + probabilities.sum) :
    ∃ j < probabilities.length, scan uniform probabilities index mass last = some (index + j) ∧
      mass + cumulative probabilities j ≤ uniform ∧
      uniform < mass + cumulative probabilities (j + 1) := by
  induction probabilities generalizing index mass last with
  | nil =>
    simp only [List.sum_nil, add_zero] at hlt
    exact absurd hlt (not_lt.mpr hle)
  | cons p ps ih =>
    have hp : 0 ≤ p := hnonneg p List.mem_cons_self
    have hps : ∀ w ∈ ps, 0 ≤ w := fun w hw => hnonneg w (List.mem_cons_of_mem p hw)
    rw [List.sum_cons, ← add_assoc] at hlt
    by_cases hstop : uniform < mass + p
    · have hpos : ¬ p ≤ 0 := by
        intro hzero
        linarith
      refine ⟨0, Nat.zero_lt_succ _, ?_, ?_, ?_⟩
      · rw [scan, if_neg hpos, if_pos hstop, Nat.add_zero]
      · rwa [cumulative_zero, add_zero]
      · rwa [cumulative_cons_succ, cumulative_zero, add_zero]
    · have hnext : ∃ last', scan uniform (p :: ps) index mass last =
          scan uniform ps (index + 1) (mass + p) last' := by
        by_cases hzero : p ≤ 0
        · have heq : p = 0 := le_antisymm hzero hp
          exact ⟨last, by rw [scan, if_pos hzero, heq, add_zero]⟩
        · exact ⟨some index, by rw [scan, if_neg hzero, if_neg hstop]⟩
      obtain ⟨last', hscan⟩ := hnext
      obtain ⟨j, hj, heq, hlow, hhigh⟩ := ih hps (index + 1) last' (not_lt.mp hstop) hlt
      rw [add_assoc] at hlow hhigh
      refine ⟨j + 1, Nat.succ_lt_succ hj, ?_, ?_, ?_⟩
      · rw [hscan, heq, Nat.add_right_comm, Nat.add_assoc]
      · rwa [cumulative_cons_succ]
      · rwa [cumulative_cons_succ]

end Scan

section Select

variable [IsStrictOrderedRing K] {distribution : Distribution K} {uniform : K} {token : UInt32}

/-- The probability of a token, `0` outside the vocabulary. -/
def Distribution.mass (self : Distribution K) (token : UInt32) : K :=
  weightAt self.probabilities token.toNat

omit [LinearOrder K] [IsStrictOrderedRing K] in
theorem Distribution.probability_eq (h : token.toNat < distribution.len) :
    distribution.probability token = .ok (distribution.mass token) := by
  have hget := List.getElem?_eq_getElem (l := distribution.probabilities) h
  simp only [probability, mass, weightAt_of_lt h, hget]

theorem Distribution.fromProbabilities_normalized {probabilities : List K}
    (h : fromProbabilities probabilities = .ok distribution) : distribution.Normalized := by
  simp only [fromProbabilities] at h
  split_ifs at h with hany htotal
  cases h
  have hpos := not_le.mp htotal
  have hentries : ∀ p ∈ probabilities, 0 ≤ p := by
    simp only [Bool.or_eq_true, not_or, List.any_eq_true, not_exists, not_and,
      decide_eq_true_eq] at hany
    exact fun p hp => not_lt.mp (hany.2 p hp)
  constructor
  · intro p hp
    obtain ⟨w, hw, rfl⟩ := List.mem_map.mp hp
    exact div_nonneg (hentries w hw) hpos.le
  · simp only [div_eq_mul_inv]
    rw [List.sum_map_mul_right, List.map_id', mul_inv_cancel₀ hpos.ne']

omit [IsStrictOrderedRing K] in
theorem selectWith_error {error : SamplerError}
    (h : selectWith distribution uniform = .error error) : error = .allNaN := by
  unfold selectWith at h
  split at h
  · cases h
  · exact (Except.error.inj h).symm

omit [IsStrictOrderedRing K] in
/-- A draw never leaves the support. -/
theorem selectWith_support (hvocab : distribution.len ≤ 2 ^ 32)
    (h : selectWith distribution uniform = .ok token) : 0 < distribution.mass token := by
  unfold selectWith at h
  split at h
  · rename_i index hscan
    rcases scan_support hscan with hnone | ⟨-, hpos⟩
    · cases hnone
    · have hlt : index < distribution.len := by
        by_contra hle
        rw [Nat.sub_zero, weightAt_of_le (not_lt.mp hle)] at hpos
        exact lt_irrefl _ hpos
      cases h
      rwa [Distribution.mass, UInt32.toNat_ofNat_of_lt' (lt_of_lt_of_le hlt hvocab)]
  · cases h

/-- On the unit interval a token is selected on its own interval. -/
theorem selectWith_iff (hnormal : distribution.Normalized) (hvocab : distribution.len ≤ 2 ^ 32)
    (hu : uniform ∈ Set.Ico 0 1) (token : UInt32) :
    selectWith distribution uniform = .ok token ↔
      uniform ∈ cell distribution.probabilities token.toNat := by
  have hlt : uniform < 0 + distribution.probabilities.sum := by
    rw [zero_add, hnormal.sum_eq_one]
    exact hu.2
  obtain ⟨j, hj, hscan, hlow, hhigh⟩ :=
    scan_eq hnormal.nonneg 0 none hu.1 hlt
  rw [Nat.zero_add] at hscan
  rw [zero_add] at hlow hhigh
  have hcell : uniform ∈ cell distribution.probabilities j := ⟨hlow, hhigh⟩
  have hround : (UInt32.ofNat j).toNat = j :=
    UInt32.toNat_ofNat_of_lt' (lt_of_lt_of_le hj hvocab)
  simp only [selectWith, hscan, Except.ok.injEq]
  constructor
  · intro heq
    rw [← heq, hround]
    exact hcell
  · intro htoken
    rw [cell_index_unique hnormal.nonneg hcell htoken, UInt32.ofNat_toNat]

theorem selectWith_ok (hnormal : distribution.Normalized) (hvocab : distribution.len ≤ 2 ^ 32)
    (hu : uniform ∈ Set.Ico 0 1) :
    ∃ token, selectWith distribution uniform = .ok token ∧ token.toNat < distribution.len := by
  have hlt : uniform < 0 + distribution.probabilities.sum := by
    rw [zero_add, hnormal.sum_eq_one]
    exact hu.2
  obtain ⟨j, hj, hscan, _⟩ := scan_eq hnormal.nonneg 0 none hu.1 hlt
  rw [Nat.zero_add] at hscan
  refine ⟨UInt32.ofNat j, by rw [selectWith, hscan], ?_⟩
  rw [UInt32.toNat_ofNat_of_lt' (lt_of_lt_of_le hj hvocab)]
  exact hj

end Select

end Leone.Sampling

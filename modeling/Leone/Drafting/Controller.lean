import Mathlib
import Leone.Framework.Method

/-!
# Draft controllers

A controller decides per round between a plain step and a verified draft. It counts what it has
observed. What the measured durations decide is an input here: whether the regret limit is
reached, and the fastest choice that passes the speedup gate.
-/

namespace Leone.Drafting

open Framework

abbrev Token := Nat

/-- Double precision numbers, with the facts about zero that the counters rely on. -/
structure Float64 (F : Type) where
  zero : F
  one : F
  nano : F
  ofNat : Nat → F
  add : F → F → F
  sub : F → F → F
  half : F → F
  abs : F → F
  isFinite : F → Bool
  lt : F → F → Bool
  add_zero : add zero zero = zero
  isFinite_zero : isFinite zero = true
  zero_lt_zero : lt zero zero = false
  margin_lt_zero : lt (add (ofNat 0) nano) zero = false

inductive ControllerError
  | verifierPositions
  | countOverflow
  deriving DecidableEq, Repr

/-! ## Counters -/

def checkedCount (count more : Nat) : Except ControllerError Nat :=
  match checkedAdd 64 count more with
  | some count => .ok count
  | none => .error .countOverflow

def checkedSucc (count : Nat) : Except ControllerError Nat := checkedCount count 1

/-- Count one more round in a slot. -/
def bump {n : Nat} (rounds : Fin n → Nat) (slot : Fin n) : Except ControllerError (Fin n → Nat) := do
  let count ← checkedSucc (rounds slot)
  return Function.update rounds slot count

abbrev widthSlots : Nat := 9

instance neZero_widthSlots : NeZero widthSlots := ⟨by decide⟩

/-- Plain rounds that are measured before the first probe. -/
def plainWarmupRounds : Nat := 8

/-! ## The adaptive controller -/

inductive ProposalSource
  | suffix
  | tokenRecycling
  deriving DecidableEq, Repr

/-- Aggregate controller counters for receipts and diagnostics. -/
structure AdaptiveControllerStats where
  plainRounds : Nat
  speculativeRounds : Nat
  belowGateRounds : Nat
  regretLimitedRounds : Nat
  suffixProposals : Nat
  recyclingProposals : Nat
  widthRounds : Fin widthSlots → Nat
  deriving DecidableEq

structure AdaptiveController where
  plain : Nat
  widths : Fin widthSlots → Nat
  stats : AdaptiveControllerStats
  deriving DecidableEq

/-- An empty controller. -/
def AdaptiveController.new : AdaptiveController := ⟨0, fun _ => 0, ⟨0, 0, 0, 0, 0, 0, fun _ => 0⟩⟩

/-- What the measured durations of an adaptive controller decide. -/
structure AdaptiveTiming where
  regretLimited : Bool
  best : Option (Fin widthSlots)
  deriving DecidableEq

/-- The first probe width that is available and was not measured. -/
def AdaptiveController.probeDecision (c : AdaptiveController) (availablePositions : Nat) :
    Option (Fin widthSlots) :=
  ([2, 4, 6, 8] : List (Fin widthSlots)).find? fun width =>
    decide (width.val ≤ availablePositions) && c.widths width == 0

/-- The fastest measured width, if it is available and passes the gate. -/
def AdaptiveController.bestMeasuredWidth (c : AdaptiveController) (availablePositions : Nat)
    (timing : AdaptiveTiming) : Option (Fin widthSlots) :=
  timing.best.filter fun width =>
    decide (2 ≤ width.val) && decide (width.val ≤ availablePositions) && c.widths width != 0

/-- The verifier positions of a speculative round, or none for a plain one. -/
def AdaptiveController.decide (c : AdaptiveController) (proposalTokens : Nat)
    (timing : AdaptiveTiming) : Option (Fin widthSlots) × AdaptiveController :=
  if proposalTokens = 0 then (none, c)
  else if c.plain < plainWarmupRounds then (none, c)
  else
    let availablePositions := min (proposalTokens + 1) (widthSlots - 1)
    match c.probeDecision availablePositions with
    | some width => (some width, c)
    | none =>
      if timing.regretLimited then
        (none, { c with stats.regretLimitedRounds := c.stats.regretLimitedRounds + 1 })
      else
        match c.bestMeasuredWidth availablePositions timing with
        | some width => (some width, c)
        | none => (none, { c with stats.belowGateRounds := c.stats.belowGateRounds + 1 })

/-- Records one complete decode round. -/
def AdaptiveController.observe (c : AdaptiveController) (verifierPositions : Nat) :
    Except ControllerError AdaptiveController :=
  if hwidth : verifierPositions < widthSlots then do
    let width : Fin widthSlots := ⟨verifierPositions, hwidth⟩
    let widthRounds ← bump c.stats.widthRounds width
    if verifierPositions = 1 then do
      let plainRounds ← checkedSucc c.stats.plainRounds
      return { c with
        plain := c.plain + 1
        stats := { c.stats with widthRounds, plainRounds } }
    else do
      let speculativeRounds ← checkedSucc c.stats.speculativeRounds
      return { c with
        widths := Function.update c.widths width (c.widths width + 1)
        stats := { c.stats with widthRounds, speculativeRounds } }
  else .error .verifierPositions

/-- Records the proposal source selected for one round. -/
def AdaptiveController.recordSource (c : AdaptiveController) :
    ProposalSource → Except ControllerError AdaptiveController
  | .suffix => do
    let suffixProposals ← checkedSucc c.stats.suffixProposals
    return { c with stats := { c.stats with suffixProposals } }
  | .tokenRecycling => do
    let recyclingProposals ← checkedSucc c.stats.recyclingProposals
    return { c with stats := { c.stats with recyclingProposals } }

/-! ## The correctable controller -/

/-- One proposal model available to the controller. -/
inductive CorrectablePlan
  | suffix
  | unigram
  | bigram
  | fourgram
  deriving DecidableEq, Repr

def CorrectablePlan.all : List CorrectablePlan := [.suffix, .unigram, .bigram, .fourgram]

def CorrectablePlan.index : CorrectablePlan → Fin 4
  | .suffix => 0
  | .unigram => 1
  | .bigram => 2
  | .fourgram => 3

def CorrectablePlan.preferredPositions : CorrectablePlan → Nat
  | .unigram => 2
  | .bigram => 4
  | .suffix => 8
  | .fourgram => 8

/-- Aggregate counts of the correctable rounds. -/
structure CorrectableControllerStats (F : Type) where
  plainRounds : Nat
  speculativeRounds : Nat
  belowGateRounds : Nat
  regretLimitedRounds : Nat
  planRounds : Fin 4 → Nat
  widthRounds : Fin widthSlots → Nat
  proposedTokens : Nat
  acceptedTokens : Nat
  overlapSum : F
  overlapProposals : Nat
  deriving DecidableEq

structure CorrectableController (F : Type) where
  plain : Nat
  plans : Fin 4 → Nat
  stats : CorrectableControllerStats F
  deriving DecidableEq

/-- What the measured durations of a correctable controller decide. -/
structure CorrectableTiming where
  regretLimited : Bool
  best : Option CorrectablePlan
  deriving DecidableEq

structure CorrectableObservation (F : Type) where
  plan : Option CorrectablePlan
  verifierPositions : Nat
  proposedTokens : Nat
  acceptedTokens : Nat
  overlapSum : F
  overlapProposals : Nat

section Correctable

variable {F : Type} (ops : Float64 F)

def CorrectableController.new : CorrectableController F :=
  ⟨0, fun _ => 0, ⟨0, 0, 0, 0, fun _ => 0, fun _ => 0, 0, 0, ops.zero, 0⟩⟩

variable (c : CorrectableController F)

def CorrectableController.probePlan (available : CorrectablePlan → Bool) : Option CorrectablePlan :=
  CorrectablePlan.all.find? fun plan => available plan && c.plans plan.index == 0

def CorrectableController.bestMeasuredPlan (available : CorrectablePlan → Bool)
    (timing : CorrectableTiming) : Option CorrectablePlan :=
  timing.best.filter fun plan => available plan && c.plans plan.index != 0

/-- The plan of a speculative round and its verifier positions. -/
def speculate (plan : CorrectablePlan) (maximumPositions : Nat) : CorrectablePlan × Nat :=
  (plan, max 2 (min plan.preferredPositions maximumPositions))

def CorrectableController.decide (available : CorrectablePlan → Bool) (maximumPositions : Nat)
    (timing : CorrectableTiming) :
    Except ControllerError (Option (CorrectablePlan × Nat) × CorrectableController F) :=
  if maximumPositions = 0 ∨ widthSlots ≤ maximumPositions then .error .verifierPositions
  else if CorrectablePlan.all.any available = false then .ok (none, c)
  else if c.plain < plainWarmupRounds then .ok (none, c)
  else
    match c.probePlan available with
    | some plan => .ok (some (speculate plan maximumPositions), c)
    | none =>
      if timing.regretLimited then do
        let regretLimitedRounds ← checkedSucc c.stats.regretLimitedRounds
        return (none, { c with stats := { c.stats with regretLimitedRounds } })
      else
        match c.bestMeasuredPlan available timing with
        | some plan => .ok (some (speculate plan maximumPositions), c)
        | none => do
          let belowGateRounds ← checkedSucc c.stats.belowGateRounds
          return (none, { c with stats := { c.stats with belowGateRounds } })

def CorrectableController.observe (observation : CorrectableObservation F) :
    Except ControllerError (CorrectableController F) :=
  if hwidth : observation.verifierPositions < widthSlots then
    if ops.isFinite observation.overlapSum = false then .error .verifierPositions
    else do
      let width : Fin widthSlots := ⟨observation.verifierPositions, hwidth⟩
      let widthRounds ← bump c.stats.widthRounds width
      match observation.plan with
      | none => do
        let plainRounds ← checkedSucc c.stats.plainRounds
        return { c with
          plain := c.plain + 1
          stats := { c.stats with widthRounds, plainRounds } }
      | some plan => do
        let speculativeRounds ← checkedSucc c.stats.speculativeRounds
        let planRounds ← bump c.stats.planRounds plan.index
        let proposedTokens ← checkedCount c.stats.proposedTokens observation.proposedTokens
        let acceptedTokens ← checkedCount c.stats.acceptedTokens observation.acceptedTokens
        let overlapProposals ← checkedCount c.stats.overlapProposals observation.overlapProposals
        return { c with
          plans := Function.update c.plans plan.index (c.plans plan.index + 1)
          stats := { c.stats with
            widthRounds, speculativeRounds, planRounds, proposedTokens, acceptedTokens
            overlapSum := ops.add c.stats.overlapSum observation.overlapSum
            overlapProposals } }
  else .error .verifierPositions

end Correctable

/-! ## What the counters keep -/

/-- The slots of speculative rounds. -/
def speculativeWidths : List (Fin widthSlots) := (List.finRange widthSlots).drop 2

def total {n : Nat} (rounds : Fin n → Nat) (slots : List (Fin n)) : Nat := (slots.map rounds).sum

theorem checkedCount_eq_ok {count more count' : Nat} :
    checkedCount count more = .ok count' ↔ count + more < 2 ^ 64 ∧ count' = count + more := by
  unfold checkedCount
  split
  · next sum h =>
    obtain ⟨hlt, rfl⟩ := checkedAdd_eq_some.mp h
    simp only [Except.ok.injEq]
    exact ⟨fun heq => ⟨hlt, heq.symm⟩, fun heq => heq.2.symm⟩
  · next h =>
    rw [checkedAdd_eq_none] at h
    simp only [reduceCtorEq, false_iff]
    omega

theorem checkedSucc_eq_ok {count count' : Nat} :
    checkedSucc count = .ok count' ↔ count + 1 < 2 ^ 64 ∧ count' = count + 1 := checkedCount_eq_ok

theorem bump_eq_ok {n : Nat} {rounds rounds' : Fin n → Nat} {slot : Fin n}
    (h : bump rounds slot = .ok rounds') :
    rounds' = Function.update rounds slot (rounds slot + 1) := by
  rw [bump] at h
  obtain ⟨count, hcount, h⟩ := bind_eq_ok.mp h
  rw [(checkedSucc_eq_ok.mp hcount).2] at h
  exact (Except.ok.inj h).symm

theorem bump_self {n : Nat} {rounds rounds' : Fin n → Nat} {slot : Fin n}
    (h : bump rounds slot = .ok rounds') : rounds' slot = rounds slot + 1 := by
  rw [bump_eq_ok h, Function.update_self]

theorem bump_of_ne {n : Nat} {rounds rounds' : Fin n → Nat} {slot other : Fin n}
    (h : bump rounds slot = .ok rounds') (hne : other ≠ slot) : rounds' other = rounds other := by
  rw [bump_eq_ok h, Function.update_of_ne hne]

/-- Counting in a slot adds one to a total as often as the slot is in it. -/
theorem total_update {n : Nat} (rounds : Fin n → Nat) (slot : Fin n) (slots : List (Fin n)) :
    total (Function.update rounds slot (rounds slot + 1)) slots =
      total rounds slots + slots.count slot := by
  induction slots with
  | nil => rfl
  | cons head slots ih =>
    simp only [total, List.map_cons, List.sum_cons, List.count_cons] at ih ⊢
    rw [ih]
    by_cases heq : head = slot
    · subst heq
      simp
      omega
    · simp [heq]
      omega

theorem total_bump {n : Nat} {rounds rounds' : Fin n → Nat} {slot : Fin n}
    (h : bump rounds slot = .ok rounds') (slots : List (Fin n)) :
    total rounds' slots = total rounds slots + slots.count slot := by
  rw [bump_eq_ok h, total_update]

theorem count_speculativeWidths (width : Fin widthSlots) :
    speculativeWidths.count width = if 2 ≤ width.val then 1 else 0 := by
  revert width
  decide

theorem count_finRange_plan (plan : CorrectablePlan) :
    (List.finRange 4).count plan.index = 1 := by
  cases plan <;> decide

end Leone.Drafting

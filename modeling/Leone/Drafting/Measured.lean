import Leone.Drafting.Correctable
import Leone.Drafting.Suffix
import Leone.Framework.Machine

/-!
# The measured controller

The correctable controller with the durations it measures. It warms up on plain rounds, probes every
plan that it has not measured, and then takes the fastest one. What the floating-point operations
compute decides between plans only, so they are a parameter.
-/

namespace Leone.Drafting.Measured

open Framework Framework.Method

/-- Double precision operations. -/
structure Operations (F : Type) where
  zero : F
  one : F
  /-- Nanoseconds of a duration, as `as_secs_f64` times `1e9`. -/
  ofDuration : Nat → F
  ofNat : Nat → F
  add : F → F → F
  sub : F → F → F
  mul : F → F → F
  div : F → F → F
  isFinite : F → Bool
  lt : F → F → Bool
  le : F → F → Bool
  totalCmp : F → F → Ordering

structure CorrectableControllerConfig (F : Type) where
  plainWarmupRounds : NonZeroUsize
  minimumSpeedup : F
  maximumRegretFraction : F
  ewmaWeight : F

/-- Why the controller selected plain or correctable execution. -/
inductive CorrectableReason
  | noProposal | plainWarmup | planProbe | bestMeasuredPlan | belowSpeedupGate | regretLimit
  deriving DecidableEq, Repr

/-- One action selected before a target row is evaluated. -/
inductive CorrectableDecision
  | plain (reason : CorrectableReason)
  | speculate (plan : CorrectablePlan) (verifierPositions : Nat) (reason : CorrectableReason)
  deriving DecidableEq, Repr

/-- One completed action after exact correction. Durations are in nanoseconds. -/
structure CorrectableObservation (F : Type) where
  plan : Option CorrectablePlan
  verifierPositions : NonZeroUsize
  producedTokens : NonZeroUsize
  proposedTokens : Nat
  acceptedTokens : Nat
  overlapSum : F
  overlapProposals : Nat
  wallDuration : Nat
  controllerDuration : Nat

structure PlanMeasurement (F : Type) where
  rounds : Nat
  nanosecondsPerToken : F

structure CorrectableControllerStats (F : Type) where
  plainRounds : Nat
  speculativeRounds : Nat
  belowGateRounds : Nat
  regretLimitedRounds : Nat
  planRounds : Fin 4 → Nat
  widthRounds : Fin widthSlots → Nat
  proposedTokens : Nat
  acceptedTokens : Nat
  overlapSum : F
  overlapProposals : Nat
  controllerDuration : Nat

/-- Selects a proposal plan from measured complete-round costs. -/
structure CorrectableController (F : Type) where
  config : CorrectableControllerConfig F
  plain : PlanMeasurement F
  plans : Fin 4 → PlanMeasurement F
  cumulativeSpeculativeNs : F
  cumulativePlainEquivalentNs : F
  regretLimited : Bool
  stats : CorrectableControllerStats F

inductive ControllerError
  | minimumSpeedup
  | maximumRegret
  | ewmaWeight
  | verifierPositions
  | countOverflow
  deriving DecidableEq, Repr

/-- The longest duration, in nanoseconds. -/
def maximumDuration : Nat := 2 ^ 64 * 1000000000 - 1

section Controller

variable {F : Type} (ops : Operations F)

def CorrectableControllerConfig.new (plainWarmupRounds : NonZeroUsize)
    (minimumSpeedup maximumRegretFraction ewmaWeight : F) :
    Except ControllerError (CorrectableControllerConfig F) :=
  if !ops.isFinite minimumSpeedup || ops.le minimumSpeedup ops.one then .error .minimumSpeedup
  else if !ops.isFinite maximumRegretFraction || !(ops.le ops.zero maximumRegretFraction &&
      ops.lt maximumRegretFraction ops.one) then .error .maximumRegret
  else if !ops.isFinite ewmaWeight || ops.le ewmaWeight ops.zero || ops.lt ops.one ewmaWeight then
    .error .ewmaWeight
  else .ok ⟨plainWarmupRounds, minimumSpeedup, maximumRegretFraction, ewmaWeight⟩

namespace CorrectableController

abbrev ControllerM (F : Type) := Method (CorrectableController F) ControllerError

def new (config : CorrectableControllerConfig F) : CorrectableController F where
  config
  plain := ⟨0, ops.zero⟩
  plans := fun _ => ⟨0, ops.zero⟩
  cumulativeSpeculativeNs := ops.zero
  cumulativePlainEquivalentNs := ops.zero
  regretLimited := false
  stats := ⟨0, 0, 0, 0, fun _ => 0, fun _ => 0, 0, 0, ops.zero, 0, 0⟩

def modifyStats (f : CorrectableControllerStats F → CorrectableControllerStats F) :
    ControllerM F Unit :=
  modify fun c => { c with stats := f c.stats }

/-! ### Decisions -/

def earlyPlainDecision (c : CorrectableController F) (available : CorrectablePlan → Bool) :
    Option CorrectableDecision :=
  if CorrectablePlan.all.any available = false then some (.plain .noProposal)
  else if c.plain.rounds < c.config.plainWarmupRounds.get then some (.plain .plainWarmup)
  else none

def probePlan (c : CorrectableController F) (available : CorrectablePlan → Bool) :
    Option CorrectablePlan :=
  CorrectablePlan.all.find? fun plan => available plan && (c.plans plan.index).rounds == 0

/-- The greatest item of an iterator, the last one of equal items. -/
def maxBy {α : Type} (compare : α → α → Ordering) : List α → Option α
  | [] => none
  | item :: items => some <| items.foldl
    (fun greatest item => if compare greatest item = .gt then greatest else item) item

def speedup (c : CorrectableController F) (plan : CorrectablePlan) : F :=
  ops.div c.plain.nanosecondsPerToken (c.plans plan.index).nanosecondsPerToken

def bestMeasuredPlan (c : CorrectableController F) (available : CorrectablePlan → Bool) :
    Option (CorrectablePlan × F) :=
  let measured := CorrectablePlan.all.filter fun plan =>
    available plan && (c.plans plan.index).rounds != 0
  maxBy (fun left right => ops.totalCmp left.2 right.2)
    (measured.map fun plan => (plan, c.speedup ops plan))

def speculate (plan : CorrectablePlan) (maximumPositions : Nat) (reason : CorrectableReason) :
    CorrectableDecision :=
  .speculate plan (max (min plan.preferredPositions maximumPositions) 2) reason

/-- The plan behind the probes: the fastest one, if it passes the gate. -/
def measuredDecision (available : CorrectablePlan → Bool) (maximumPositions : Nat) :
    ControllerM F CorrectableDecision := do
  let c ← get
  match (c.bestMeasuredPlan ops available).filter fun best =>
      ops.le c.config.minimumSpeedup best.2 with
  | some (plan, _) => return speculate plan maximumPositions .bestMeasuredPlan
  | none => do
    let belowGateRounds ← orErr (checkedAdd 64 c.stats.belowGateRounds 1) .countOverflow
    modifyStats fun stats => { stats with belowGateRounds }
    return .plain .belowSpeedupGate

def lateDecision (available : CorrectablePlan → Bool) (maximumPositions : Nat) :
    ControllerM F CorrectableDecision := do
  let c ← get
  match c.probePlan available with
  | some plan => return speculate plan maximumPositions .planProbe
  | none =>
    if c.regretLimited then do
      let regretLimitedRounds ← orErr (checkedAdd 64 c.stats.regretLimitedRounds 1) .countOverflow
      modifyStats fun stats => { stats with regretLimitedRounds }
      return .plain .regretLimit
    else measuredDecision ops available maximumPositions

def decide (available : CorrectablePlan → Bool) (maximumPositions : Nat) :
    ControllerM F CorrectableDecision := do
  ensure (1 ≤ maximumPositions ∧ maximumPositions < widthSlots) .verifierPositions
  let c ← get
  match c.earlyPlainDecision available with
  | some decision => return decision
  | none => lateDecision ops available maximumPositions

/-! ### Observations -/

def PlanMeasurement.update (measurement : PlanMeasurement F) (value weight : F) :
    PlanMeasurement F where
  nanosecondsPerToken := if measurement.rounds = 0 then value
    else ops.add (ops.mul weight value)
      (ops.mul (ops.sub ops.one weight) measurement.nanosecondsPerToken)
  rounds := wrappingAdd 64 measurement.rounds 1

/-- Count one more round in a slot. -/
def countRound {n : Nat} (rounds : Fin n → Nat) (slot : Fin n) :
    ControllerM F (Fin n → Nat) := do
  let count ← orErr (checkedAdd 64 (rounds slot) 1) .countOverflow
  return Function.update rounds slot count

def observePlain (nsPerToken : F) : ControllerM F Unit := do
  modify fun c => { c with
    plain := PlanMeasurement.update ops c.plain nsPerToken c.config.ewmaWeight }
  let plainRounds ← orErr (checkedAdd 64 (← get).stats.plainRounds 1) .countOverflow
  modifyStats fun stats => { stats with plainRounds }

def observeRounds (plan : CorrectablePlan) : ControllerM F Unit := do
  let speculativeRounds ← orErr (checkedAdd 64 (← get).stats.speculativeRounds 1) .countOverflow
  modifyStats fun stats => { stats with speculativeRounds }
  let planRounds ← countRound (← get).stats.planRounds plan.index
  modifyStats fun stats => { stats with planRounds }

def observeTokens (observation : CorrectableObservation F) : ControllerM F Unit := do
  let proposedTokens ← orErr (checkedAdd 64 (← get).stats.proposedTokens
    observation.proposedTokens) .countOverflow
  modifyStats fun stats => { stats with proposedTokens }
  let acceptedTokens ← orErr (checkedAdd 64 (← get).stats.acceptedTokens
    observation.acceptedTokens) .countOverflow
  modifyStats fun stats => { stats with acceptedTokens }
  modifyStats fun stats => { stats with
    overlapSum := ops.add stats.overlapSum observation.overlapSum }
  let overlapProposals ← orErr (checkedAdd 64 (← get).stats.overlapProposals
    observation.overlapProposals) .countOverflow
  modifyStats fun stats => { stats with overlapProposals }

def observeRegret (observation : CorrectableObservation F) (durationNs : F) :
    ControllerM F Unit := do
  modify fun c => { c with
    cumulativeSpeculativeNs := ops.add c.cumulativeSpeculativeNs durationNs }
  modify fun c => { c with
    cumulativePlainEquivalentNs := ops.add c.cumulativePlainEquivalentNs
      (ops.mul c.plain.nanosecondsPerToken (ops.ofNat observation.producedTokens.get)) }
  modify fun c => { c with
    regretLimited := ops.lt (ops.mul c.cumulativePlainEquivalentNs
      (ops.add ops.one c.config.maximumRegretFraction)) c.cumulativeSpeculativeNs }

def observePlan (observation : CorrectableObservation F) (plan : CorrectablePlan)
    (durationNs nsPerToken : F) : ControllerM F Unit := do
  modify fun c => { c with
    plans := Function.update c.plans plan.index
      (PlanMeasurement.update ops (c.plans plan.index) nsPerToken c.config.ewmaWeight) }
  observeRounds plan
  observeTokens ops observation
  observeRegret ops observation durationNs

/-- Count a round in its width slot. The sum of two durations panics when it overflows. -/
def observeWidth (observation : CorrectableObservation F) (width : Fin widthSlots) :
    ControllerM F Unit := do
  let controllerDuration := (← get).stats.controllerDuration + observation.controllerDuration
  if maximumDuration < controllerDuration then panic
  modifyStats fun stats => { stats with controllerDuration }
  let widthRounds ← countRound (← get).stats.widthRounds width
  modifyStats fun stats => { stats with widthRounds }

def observe (observation : CorrectableObservation F) : ControllerM F Unit := do
  if hwidth : observation.verifierPositions.get < widthSlots then
    if ops.isFinite observation.overlapSum then do
      let durationNs := ops.ofDuration observation.wallDuration
      let nsPerToken := ops.div durationNs (ops.ofNat observation.producedTokens.get)
      observeWidth observation ⟨observation.verifierPositions.get, hwidth⟩
      match observation.plan with
      | none => observePlain ops nsPerToken
      | some plan => observePlan ops observation plan durationNs nsPerToken
    else raise .verifierPositions
  else raise .verifierPositions

end CorrectableController

/-- A call on a controller. -/
inductive Call (F : Type)
  | observe (observation : CorrectableObservation F)
  | decide (available : CorrectablePlan → Bool) (maximumPositions : Nat)

def step (c : CorrectableController F) : Call F → CorrectableController F
  | .observe observation => after (CorrectableController.observe ops observation) c
  | .decide available maximumPositions =>
    after (CorrectableController.decide ops available maximumPositions) c

end Controller

end Leone.Drafting.Measured

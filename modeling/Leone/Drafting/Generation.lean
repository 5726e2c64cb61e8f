import Leone.Drafting.Controller

/-!
# Speculative rounds of a generation

Each round drafts, verifies, emits and observes. The statistics of a call count its outcomes, and
at its end they copy the counters of the controller, which stays with the session.
-/

namespace Leone.Drafting

open Framework

inductive RuntimeError
  | controller (error : ControllerError)
  | sizeOverflow
  deriving DecidableEq, Repr

def onController {α : Type} (r : Except ControllerError α) : Except RuntimeError α :=
  r.mapError .controller

/-- How a call speculates. A correctable drafter proposes at most seven tokens. -/
inductive Speculation
  | disabled
  | suffix
  | adaptive
  | correctable (maximumProposalTokens : Fin (widthSlots - 1))
  deriving DecidableEq

/-- The controllers that stay with a session between calls. -/
structure SessionControllers (F : Type) where
  adaptive : Option AdaptiveController
  correctable : Option (CorrectableController F)
  deriving DecidableEq

def SessionControllers.new {F : Type} : SessionControllers F := ⟨none, none⟩

/-! ## Statistics -/

structure SpeculationStats (F : Type) where
  rounds : Nat
  proposed : Nat
  accepted : Nat
  draftWidth : Nat
  verifyPasses : Nat
  verifiedPositions : Nat
  adaptive : AdaptiveControllerStats
  correctable : CorrectableControllerStats F
  deriving DecidableEq

/-- What one drafted round produced, and the target and draft rows that it compared. -/
structure SpeculationOutcome (F : Type) where
  proposed : Nat
  accepted : Nat
  evaluations : Nat
  verifiedPositions : Nat
  overlapSum : F
  overlapProposals : Nat
  rows : List (List F × List F)
  deriving DecidableEq

section Rounds

variable {F : Type} (ops : Float64 F)

def SpeculationStats.default : SpeculationStats F :=
  ⟨0, 0, 0, 0, 0, 0, AdaptiveController.new.stats, (CorrectableController.new ops).stats⟩

/-! ## Drafts -/

/-- What a round sees of its surroundings: the drafters, the clock, the target rows, and after
each emitted token whether the round ends there. -/
structure RoundInput (F : Type) where
  suffixDraft : List Token
  proposal : Option (ProposalSource × List Token)
  adaptiveTiming : AdaptiveTiming
  available : CorrectablePlan → Bool
  correctableTiming : CorrectableTiming
  steps : List (Token × List F)
  verdicts : List (Bool × List F)
  batched : Bool
  ends : List Bool

structure GenerationDraft (F : Type) where
  drafted : List Token
  adaptiveRound : Option Nat
  correctableRound : Option (Option CorrectablePlan × Nat)
  correctableDistributions : Option (List (List F))
  deriving DecidableEq

def plainGenerationDraft : GenerationDraft F := ⟨[], none, none, none⟩

def availableProposals (maxTokens tokens : Nat) : Nat := maxTokens - tokens - 1

/-- A proposal that is cut to what the request can still emit, if any of it is left. -/
def truncateProposal (proposal : Option (ProposalSource × List Token)) (available : Nat) :
    Option (ProposalSource × List Token) :=
  (proposal.map fun (source, tokens) => (source, tokens.take available)).filter (·.2 != [])

def recordProposal (controller : AdaptiveController) (proposal : Option (ProposalSource × List Token)) :
    Except ControllerError AdaptiveController :=
  match proposal with
  | none => .ok controller
  | some (source, _) => controller.recordSource source

def proposedTokens (proposal : Option (ProposalSource × List Token)) : List Token :=
  match proposal with
  | none => []
  | some (_, tokens) => tokens

def adaptiveGenerationDraft (input : RoundInput F) (maxTokens tokens : Nat)
    (controller : AdaptiveController) :
    Except RuntimeError (GenerationDraft F × AdaptiveController) := do
  let proposal := truncateProposal input.proposal (availableProposals maxTokens tokens)
  let controller ← onController (recordProposal controller proposal)
  match controller.decide (proposedTokens proposal).length input.adaptiveTiming with
  | (none, controller) => return (⟨[], some 1, none, none⟩, controller)
  | (some verifierPositions, controller) =>
    return (⟨(proposedTokens proposal).take (verifierPositions.val - 1), some verifierPositions.val,
      none, none⟩, controller)

/-- At most so many of the steps that the drafter samples. -/
def propose (maximumProposalTokens : Nat) (steps : List (Token × List F)) (tokens : Nat) :
    Option (List (Token × List F)) :=
  let steps := steps.take (min tokens maximumProposalTokens)
  if steps.isEmpty then none else some steps

def correctableGenerationDraft (maximumProposalTokens : Nat) (input : RoundInput F)
    (maxTokens tokens : Nat) (controller : CorrectableController F) :
    Except RuntimeError (GenerationDraft F × CorrectableController F) := do
  let maximumPositions := min (maxTokens - tokens) (maximumProposalTokens + 1)
  let available := if 2 ≤ maximumPositions then input.available else fun _ => false
  let (decision, controller) ← onController (controller.decide available (max 1 maximumPositions)
    input.correctableTiming)
  match decision with
  | none => return (⟨[], none, some (none, 1), none⟩, controller)
  | some (plan, verifierPositions) =>
    match propose maximumProposalTokens input.steps (verifierPositions - 1) with
    | none => return (⟨[], none, some (none, 1), none⟩, controller)
    | some steps =>
      return (⟨steps.map Prod.fst, none, some (some plan, steps.length + 1),
        some (steps.map Prod.snd)⟩, controller)

/-- The controllers of a call. They are there in their own modes only. -/
abbrev Controllers (F : Type) := SessionControllers F

def chooseGenerationDraft (mode : Speculation) (input : RoundInput F) (maxTokens tokens : Nat)
    (controllers : Controllers F) : Except RuntimeError (GenerationDraft F × Controllers F) :=
  match mode with
  | .disabled => .ok (plainGenerationDraft, controllers)
  | .suffix => .ok (⟨input.suffixDraft.take (availableProposals maxTokens tokens), none, none, none⟩,
      controllers)
  | .adaptive =>
    match controllers.adaptive with
    | none => .error .sizeOverflow
    | some controller => do
      let (draft, controller) ← adaptiveGenerationDraft input maxTokens tokens controller
      return (draft, { controllers with adaptive := some controller })
  | .correctable maximumProposalTokens =>
    match controllers.correctable with
    | none => .error .sizeOverflow
    | some controller => do
      let (draft, controller) ← correctableGenerationDraft maximumProposalTokens.val input maxTokens
        tokens controller
      return (draft, { controllers with correctable := some controller })

/-! ## Verification -/

/-- The total-variation distance between two rows. -/
def totalVariation (left right : List F) : F :=
  ops.half ((List.zipWith (fun left right => ops.abs (ops.sub left right)) left right).foldl
    ops.add ops.zero)

/-- What has been counted of a draft, whether a proposal was rejected, and the compared rows. -/
structure Examined (F : Type) where
  accepted : Nat
  overlapSum : F
  overlapProposals : Nat
  rejected : Bool
  rows : List (List F × List F)
  deriving DecidableEq

/-- The overlap of one proposal that has a distribution. -/
def Examined.overlap (e : Examined F) (target : List F) (draft : Option (List F)) : Examined F :=
  match draft with
  | none => e
  | some draft => { e with
      overlapSum := ops.add e.overlapSum (ops.sub ops.one (totalVariation ops target draft))
      overlapProposals := e.overlapProposals + 1
      rows := e.rows ++ [(target, draft)] }

/-- The loop over the proposals, up to the first rejection. -/
def verifyProposals : List (Option (List F)) → List (Bool × List F) → Examined F → Examined F
  | [], _, e => e
  | draft :: drafts, verdicts, e =>
    let (accept, target) := verdicts.headD (false, [])
    let e := e.overlap ops target draft
    if accept then verifyProposals drafts verdicts.tail { e with accepted := e.accepted + 1 }
    else { e with rejected := true }

/-- The distributions of a draft, by proposal. -/
def GenerationDraft.rows (draft : GenerationDraft F) : List (Option (List F)) :=
  match draft.correctableDistributions with
  | none => draft.drafted.map fun _ => none
  | some distributions => distributions.map some

/-- Runs one drafted round, one position at a time or in one verifier pass. -/
def speculativeRound (draft : GenerationDraft F) (verdicts : List (Bool × List F)) (batched : Bool) :
    SpeculationOutcome F :=
  let e := verifyProposals ops draft.rows verdicts ⟨0, ops.zero, 0, false, []⟩
  { proposed := draft.drafted.length
    accepted := e.accepted
    evaluations :=
      if batched then 1 else if e.rejected then e.accepted + 1 else draft.drafted.length + 1
    verifiedPositions := if batched then draft.drafted.length + 1 else 0
    overlapSum := e.overlapSum
    overlapProposals := e.overlapProposals
    rows := e.rows }

/-! ## One round -/

def recordGenerationOutcome (outcome : SpeculationOutcome F) (s : SpeculationStats F) :
    SpeculationStats F :=
  { s with
    proposed := s.proposed + outcome.proposed
    accepted := s.accepted + outcome.accepted
    rounds := s.rounds + 1
    draftWidth := max s.draftWidth outcome.proposed
    correctable.overlapSum := ops.add s.correctable.overlapSum outcome.overlapSum
    correctable.overlapProposals := s.correctable.overlapProposals + outcome.overlapProposals
    verifyPasses := if 0 < outcome.verifiedPositions then s.verifyPasses + 1 else s.verifyPasses
    verifiedPositions := s.verifiedPositions + outcome.verifiedPositions }

/-- The committed tokens that are emitted: up to a stop, the budget or the end of the output. -/
def emitGenerationTokens (maxTokens : Nat) : Nat → Nat → List Bool → Nat
  | 0, tokens, _ => tokens
  | committed + 1, tokens, ends =>
    if ends.headD false = true ∨ maxTokens ≤ tokens + 1 then tokens + 1
    else emitGenerationTokens maxTokens committed (tokens + 1) ends.tail

/-- The observation of an adaptive round. -/
def observeAdaptive (adaptiveRound : Option Nat) (committed : Nat) (controllers : Controllers F) :
    Except RuntimeError (Controllers F) :=
  match adaptiveRound, controllers.adaptive with
  | some verifierPositions, some controller =>
    if committed = 0 then .ok controllers
    else do
      let controller ← onController (controller.observe verifierPositions)
      return { controllers with adaptive := some controller }
  | _, _ => .ok controllers

/-- The observation of a correctable round. -/
def observeCorrectable (correctableRound : Option (Option CorrectablePlan × Nat)) (committed : Nat)
    (outcome : Option (SpeculationOutcome F)) (controllers : Controllers F) :
    Except RuntimeError (Controllers F) :=
  match correctableRound, controllers.correctable with
  | some (plan, verifierPositions), some controller =>
    if committed = 0 then .ok controllers
    else do
      let controller ← onController (controller.observe ops
        { plan
          verifierPositions
          proposedTokens := (outcome.map (·.proposed)).getD 0
          acceptedTokens := (outcome.map (·.accepted)).getD 0
          overlapSum := (outcome.map (·.overlapSum)).getD ops.zero
          overlapProposals := (outcome.map (·.overlapProposals)).getD 0 })
      return { controllers with correctable := some controller }
  | _, _ => .ok controllers

/-- What a call carries from round to round, and the rows that each drafted round compared. -/
structure DecodeState (F : Type) where
  tokens : Nat
  evaluations : Nat
  stats : SpeculationStats F
  controllers : Controllers F
  compared : List (List (List F × List F))
  deriving DecidableEq

/-- A round without an outcome evaluates one position and commits one token. -/
def runGenerationStep (draft : GenerationDraft F) (input : RoundInput F) :
    Option (SpeculationOutcome F) :=
  if draft.drafted = [] then none
  else some (speculativeRound ops draft input.verdicts input.batched)

def runGenerationRound (mode : Speculation) (maxTokens : Nat) (input : RoundInput F)
    (s : DecodeState F) : Except RuntimeError (DecodeState F) := do
  let (draft, controllers) ← chooseGenerationDraft mode input maxTokens s.tokens s.controllers
  let outcome := runGenerationStep ops draft input
  let stats := match outcome with
    | none => s.stats
    | some outcome => recordGenerationOutcome ops outcome s.stats
  let committed := match outcome with
    | none => 1
    | some outcome => outcome.accepted + 1
  let tokens := emitGenerationTokens maxTokens committed s.tokens input.ends
  let controllers ← observeAdaptive draft.adaptiveRound (tokens - s.tokens) controllers
  let controllers ← observeCorrectable ops draft.correctableRound (tokens - s.tokens) outcome controllers
  return {
    tokens
    evaluations := s.evaluations + ((outcome.map (·.evaluations)).getD 1)
    stats
    controllers
    compared := s.compared ++ (outcome.map (·.rows)).toList }

/-- The rounds of a call, while its budget lasts. -/
def runGenerationIterations (mode : Speculation) (maxTokens : Nat) :
    List (RoundInput F) → DecodeState F → Except RuntimeError (DecodeState F)
  | [], s => .ok s
  | input :: inputs, s =>
    if s.tokens < maxTokens then do
      let s ← runGenerationRound ops mode maxTokens input s
      runGenerationIterations mode maxTokens inputs s
    else .ok s

/-! ## A call -/

/-- A call in a mode with a controller takes the session's, or a new one. -/
def restoreGenerationControllers (session : SessionControllers F) (mode : Speculation) :
    Controllers F :=
  match mode with
  | .adaptive => ⟨some (session.adaptive.getD .new), none⟩
  | .correctable _ => ⟨none, some (session.correctable.getD (.new ops))⟩
  | _ => ⟨none, none⟩

def recordGenerationControllerStats (s : SpeculationStats F) (controllers : Controllers F) :
    SpeculationStats F :=
  { s with
    adaptive := match controllers.adaptive with
      | none => s.adaptive
      | some controller => controller.stats
    correctable := match controllers.correctable with
      | none => s.correctable
      | some controller => controller.stats }

/-- What a completed or stopped call returns, and the controllers that its session keeps. -/
structure GenerationStats (F : Type) where
  speculation : SpeculationStats F
  decodeEvaluations : Nat
  kept : SessionControllers F
  compared : List (List (List F × List F))
  deriving DecidableEq

/-- A completed or stopped call. The first token comes from the prefill. -/
def generate (session : SessionControllers F) (mode : Speculation) (maxTokens : Nat)
    (inputs : List (RoundInput F)) : Except RuntimeError (GenerationStats F) := do
  let s ← runGenerationIterations ops mode maxTokens inputs
    ⟨1, 0, .default ops, restoreGenerationControllers ops session mode, []⟩
  return ⟨recordGenerationControllerStats s.stats s.controllers, s.evaluations, s.controllers,
    s.compared⟩

end Rounds

end Leone.Drafting

import Leone.Drafting.Generation

/-!
# Receipt rules for speculation

The statistics of a call are copied into a record, and the receipt checks that its counters agree.
-/

namespace Leone.Drafting

open Framework

/-- Drafting counts from a measured run. -/
structure SpeculationRecord (F : Type) where
  drafter : String
  rounds : Nat
  proposed : Nat
  accepted : Nat
  evaluations : Nat
  draftWidth : Nat
  verifyPasses : Nat
  verifiedPositions : Nat
  adaptivePlainRounds : Nat
  adaptiveSpeculativeRounds : Nat
  adaptiveWidthRounds : Fin widthSlots → Nat
  correctablePlainRounds : Nat
  correctableSpeculativeRounds : Nat
  correctablePlanRounds : Fin 4 → Nat
  correctableWidthRounds : Fin widthSlots → Nat
  correctableOverlapSum : F
  correctableOverlapProposals : Nat

section Record

variable {F : Type} (ops : Float64 F)

def drafterName (s : SpeculationStats F) : String :=
  if s.correctable.plainRounds ≠ 0 ∨ s.correctable.speculativeRounds ≠ 0 then "correctable-history"
  else if s.adaptive.plainRounds ≠ 0 ∨ s.adaptive.speculativeRounds ≠ 0 then "adaptive-history"
  else "suffix"

/-- The statistics, field by field. -/
def speculationRecord (s : SpeculationStats F) (decodeEvaluations : Nat) : SpeculationRecord F :=
  { drafter := drafterName s
    rounds := s.rounds
    proposed := s.proposed
    accepted := s.accepted
    evaluations := decodeEvaluations
    draftWidth := s.draftWidth
    verifyPasses := s.verifyPasses
    verifiedPositions := s.verifiedPositions
    adaptivePlainRounds := s.adaptive.plainRounds
    adaptiveSpeculativeRounds := s.adaptive.speculativeRounds
    adaptiveWidthRounds := s.adaptive.widthRounds
    correctablePlainRounds := s.correctable.plainRounds
    correctableSpeculativeRounds := s.correctable.speculativeRounds
    correctablePlanRounds := s.correctable.planRounds
    correctableWidthRounds := s.correctable.widthRounds
    correctableOverlapSum := s.correctable.overlapSum
    correctableOverlapProposals := s.correctable.overlapProposals }

/-- The sum of some slots, if it fits a counter. -/
def checkedTotal {n : Nat} (rounds : Fin n → Nat) (slots : List (Fin n)) (message : String) :
    Except String Nat :=
  if total rounds slots < 2 ^ 64 then .ok (total rounds slots) else .error message

variable (record : SpeculationRecord F)

def validateNonempty (value field : String) : Except String Unit :=
  if value.toList.all Char.isWhitespace then .error (field ++ " must not be empty") else .ok ()

def validatePositive (value : Nat) (field : String) : Except String Unit :=
  if value = 0 then .error (field ++ " must be greater than zero") else .ok ()

def validateSpeculationCounts : Except String Unit := do
  validateNonempty record.drafter "speculation.drafter"
  if record.proposed < record.accepted then
    .error s!"speculation.accepted must not exceed speculation.proposed, got {record.accepted} and {record.proposed}"
  else if 0 < record.proposed ∧ record.rounds = 0 then
    .error "speculation.rounds must be positive when tokens were proposed"
  else validatePositive record.evaluations "speculation.evaluations"

def validateSpeculationDraft (schemaVersion : Nat) : Except String Unit :=
  if 7 ≤ schemaVersion ∧ 0 < record.proposed ∧ record.draftWidth = 0 then
    .error "speculation.draft_width must be positive"
  else .ok ()

def validateSpeculationVerifier : Except String Unit :=
  if record.verifyPasses = 0 ∧ record.verifiedPositions ≠ 0 then
    .error "speculation.verified_positions requires a verify pass"
  else if record.rounds < record.verifyPasses then
    .error "speculation.verify_passes must not exceed speculation.rounds"
  else .ok ()

def validateAdaptiveRounds : Except String Unit := do
  let widthTotal ← checkedTotal record.adaptiveWidthRounds speculativeWidths
    "adaptive width accounting overflowed"
  if record.adaptiveWidthRounds 0 ≠ 0 ∨ record.adaptiveWidthRounds 1 ≠ record.adaptivePlainRounds ∨
      widthTotal ≠ record.adaptiveSpeculativeRounds then
    .error "adaptive width rounds must match plain and speculative rounds"
  else if record.adaptiveSpeculativeRounds ≠ 0 ∧
      record.adaptiveSpeculativeRounds ≠ record.rounds then
    .error "adaptive speculative rounds must match speculation.rounds"
  else .ok ()

def validateCorrectableOverlap : Except String Unit :=
  if ops.isFinite record.correctableOverlapSum = false ∨
      ops.lt record.correctableOverlapSum ops.zero = true then
    .error "speculation.correctable_overlap_sum must be finite and nonnegative"
  else if record.proposed < record.correctableOverlapProposals ∨
      ops.lt (ops.add (ops.ofNat record.correctableOverlapProposals) ops.nano)
        record.correctableOverlapSum = true then
    .error "correctable overlap must describe no more than the proposed tokens"
  else .ok ()

def validateCorrectableRounds : Except String Unit := do
  let planTotal ← checkedTotal record.correctablePlanRounds (List.finRange 4)
    "correctable plan accounting overflowed"
  let widthTotal ← checkedTotal record.correctableWidthRounds speculativeWidths
    "correctable width accounting overflowed"
  if planTotal ≠ record.correctableSpeculativeRounds ∨ record.correctableWidthRounds 0 ≠ 0 ∨
      record.correctableWidthRounds 1 ≠ record.correctablePlainRounds ∨
      widthTotal ≠ record.correctableSpeculativeRounds then
    .error "correctable plan and width rounds must match controller rounds"
  else if record.correctableSpeculativeRounds ≠ 0 ∧
      record.correctableSpeculativeRounds ≠ record.rounds then
    .error "correctable speculative rounds must match speculation.rounds"
  else .ok ()

/-- The rules about counts. -/
def validateSpeculation (schemaVersion : Nat) : Except String Unit := do
  validateSpeculationCounts record
  validateSpeculationDraft record schemaVersion
  validateSpeculationVerifier record
  validateAdaptiveRounds record
  validateCorrectableOverlap ops record
  validateCorrectableRounds record

end Record

end Leone.Drafting

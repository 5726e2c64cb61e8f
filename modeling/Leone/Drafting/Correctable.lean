import Leone.Drafting.Controller
import Leone.Framework.Tally
import Leone.Sampling.Model

/-!
# Correctable proposals

A plan counts the tokens that followed its context in the committed history, and proposes them with
the frequencies it counted.
-/

namespace Leone.Drafting

open Framework Sampling

inductive CorrectableError
  | emptyVocabulary
  | proposalWidth
  | countOverflow
  | sampler (error : SamplerError)
  deriving DecidableEq

/-- Builds categorical proposals from committed token history. -/
structure CorrectableDrafter where
  vocabSize : Nat
  maximumProposalTokens : Nat
  vocabSize_pos : 0 < vocabSize
  maximum_pos : 0 < maximumProposalTokens
  maximum_le : maximumProposalTokens ≤ widthSlots - 2

/-- One sampled token and the distribution that proposed it. -/
structure CorrectableStep (K : Type) where
  token : UInt32
  distribution : Distribution K

structure CorrectableProposal (K : Type) where
  plan : CorrectablePlan
  steps : List (CorrectableStep K)

/-- The tokens of a context that ends before a position. -/
def contextBefore (history : List UInt32) (order stop : Nat) : List UInt32 :=
  (history.drop (stop - order)).take order

/-- The current context. -/
def currentContext (history : List UInt32) (order : Nat) : List UInt32 :=
  history.drop (history.length - order)

/-- The positions behind a context of some length. -/
def contextEnds (history : List UInt32) (order : Nat) : List Nat :=
  List.range' order (history.length - order)

def orderAvailable (history : List UInt32) (order : Nat) : Bool :=
  if history.length ≤ order ∨ order = 0 then false
  else (contextEnds history order).any fun stop =>
    contextBefore history order stop = currentContext history order

/-- The orders of a suffix search, from the longest down. -/
def suffixOrders (history : List UInt32) : List Nat :=
  let maximum := min (history.length - 1) 64
  (List.range' 4 (maximum + 1 - 4)).reverse

/-- The counts with one more token. -/
def countToken (state : List Nat × Nat) (token : UInt32) : Option (List Nat × Nat) := do
  let count ← state.1[token.toNat]?
  let count ← checkedAdd 64 count 1
  let total ← checkedAdd 64 state.2 1
  return (state.1.set token.toNat count, total)

namespace CorrectableDrafter

def new (vocabSize maximumProposalTokens : Nat) (hmaximum : 0 < maximumProposalTokens) :
    Except CorrectableError CorrectableDrafter :=
  if hvocab : vocabSize = 0 then .error .emptyVocabulary
  else if hwidth : widthSlots - 2 < maximumProposalTokens then .error .proposalWidth
  else .ok ⟨vocabSize, maximumProposalTokens, Nat.pos_of_ne_zero hvocab, hmaximum,
    not_lt.mp hwidth⟩

variable (drafter : CorrectableDrafter)

def maximumVerifierPositions : Nat := drafter.maximumProposalTokens + 1

def planAvailable (plan : CorrectablePlan) (history : List UInt32) : Bool :=
  match plan with
  | .unigram => history.any fun token => token.toNat < drafter.vocabSize
  | .bigram => orderAvailable history 1
  | .fourgram => orderAvailable history 3
  | .suffix => (suffixOrders history).any (orderAvailable history)

/-- The plans with at least one distribution for the current history. -/
def availablePlans (history : List UInt32) : CorrectablePlan → Bool :=
  fun plan => drafter.planAvailable plan history

def noCounts : List Nat × Nat := (List.replicate drafter.vocabSize 0, 0)

def unigramCounts (history : List UInt32) : Option (List Nat × Nat) :=
  history.foldlM countToken drafter.noCounts

def orderCounts (history : List UInt32) (order : Nat) : Option (List Nat × Nat) :=
  (contextEnds history order).foldlM (fun state stop =>
    if contextBefore history order stop ≠ currentContext history order then some state
    else countToken state history[stop]!) drafter.noCounts

def countsForOrder (history : List UInt32) (order : Nat) : Option (List Nat × Nat) :=
  if order = 0 then drafter.unigramCounts history else drafter.orderCounts history order

section Distribution

variable {K : Type} [Field K] [LinearOrder K]

def distributionForOrder (history : List UInt32) (order : Nat) : Option (Distribution K) :=
  if history = [] ∨ history.length ≤ order then none
  else
    match drafter.countsForOrder history order with
    | none => none
    | some (counts, total) =>
      if total = 0 then none
      else (Distribution.fromProbabilities
        (counts.map fun count : Nat => (count : K) / (total : K))).toOption

def nextDistribution (plan : CorrectablePlan) (history : List UInt32) : Option (Distribution K) :=
  match plan with
  | .unigram => drafter.distributionForOrder history 0
  | .bigram => drafter.distributionForOrder history 1
  | .fourgram => drafter.distributionForOrder history 3
  | .suffix => (suffixOrders history).findSome? (drafter.distributionForOrder history)

/-- The steps from an offset on, with the tokens committed or proposed before them. -/
def proposeFrom (plan : CorrectablePlan) (rng : SamplerRng K) (position : UInt64) :
    Nat → Nat → List UInt32 → Except CorrectableError (List (CorrectableStep K))
  | 0, _, _ => .ok []
  | remaining + 1, offset, working =>
    match drafter.nextDistribution plan working with
    | none => .ok []
    | some distribution =>
      match checkedAdd 64 position.toNat offset with
      | none => .error .countOverflow
      | some drawPosition =>
        match selectDraft distribution rng (UInt64.ofNat drawPosition) with
        | .error error => .error (.sampler error)
        | .ok token => do
          let steps ← proposeFrom plan rng position remaining (offset + 1) (working ++ [token])
          return ⟨token, distribution⟩ :: steps

/-- Samples at most `tokens` conditional proposal steps. -/
def propose (plan : CorrectablePlan) (history : List UInt32) (tokens : Nat) (rng : SamplerRng K)
    (position : UInt64) : Except CorrectableError (Option (CorrectableProposal K)) :=
  let tokens := min tokens drafter.maximumProposalTokens
  if tokens = 0 then .ok none
  else do
    let steps ← drafter.proposeFrom plan rng position tokens 0 history
    return if steps = [] then none else some ⟨plan, steps⟩

end Distribution

end CorrectableDrafter

end Leone.Drafting

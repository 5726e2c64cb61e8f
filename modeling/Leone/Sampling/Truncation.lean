import Mathlib
import Leone.Framework.Ranking
import Leone.Sampling.Model

/-!
# Truncation

A logit row becomes a distribution: the finite logits are ranked, scaled by the temperature and
normalized, and a pipeline of stages cuts the ranking. Numbers are those of an ordered field, so
only the zeros of a row differ from those of the field: `total_cmp` tells `-0.0` from `0.0`.
-/

namespace Leone.Sampling

open Framework

/-- The library functions of a row's arithmetic. -/
class Elementary (K : Type) [Field K] [LinearOrder K] where
  exp : K → K
  ln : K → K
  sqrt : K → K
  exp_pos : ∀ x, 0 < exp x
  exp_strictMono : StrictMono exp
  sqrt_nonneg : ∀ x, 0 ≤ sqrt x

noncomputable instance : Elementary ℝ where
  exp := Real.exp
  ln := Real.log
  sqrt := Real.sqrt
  exp_pos := Real.exp_pos
  exp_strictMono := Real.exp_strictMono
  sqrt_nonneg := Real.sqrt_nonneg

/-- How logits are scaled before sampling. -/
inductive Temperature (K : Type) where
  | greedy
  | scaled (value : K)
  deriving DecidableEq

/-- One truncation stage in a sampling pipeline. -/
inductive Truncation (K : Type) where
  | topK (count : ℕ+)
  | topP (mass : K)
  | minP (fraction : K)
  | topA (fraction : K)
  | tailFree (share : K)
  | typical (mass : K)
  | epsilon (floor : K)
  | eta (floor : K)
  | minK (tau : K)
  | topNSigma (sigmas : K)
  deriving DecidableEq

/-- One sampling policy: a temperature and an ordered truncation pipeline. -/
structure Sampler (K : Type) where
  temperature : Temperature K
  truncations : List (Truncation K)
  deriving DecidableEq

/-- One logit of a row. Of the finite ones only a zero has a sign its value does not tell. -/
inductive Logit (K : Type) where
  | nonFinite
  | negativeZero
  | finite (value : K)
  deriving DecidableEq

/-- The candidate tokens of a row in order, and the weight of each. -/
structure Candidates (K : Type) where
  order : List Nat
  kept : List K
  deriving DecidableEq

variable {K : Type} [Field K] [LinearOrder K]

namespace Truncation

/-- The parameter that `validate` checks. A count is positive by its type. -/
def parameter : Truncation K → Option K
  | .topK _ => none
  | .topP value | .minP value | .topA value | .tailFree value | .typical value | .epsilon value
  | .eta value | .minK value | .topNSigma value => some value

def name : Truncation K → String
  | .topK _ => "top-k"
  | .topP _ => "top-p"
  | .minP _ => "min-p"
  | .topA _ => "top-a"
  | .tailFree _ => "tail-free"
  | .typical _ => "typical"
  | .epsilon _ => "epsilon"
  | .eta _ => "eta"
  | .minK _ => "min-k"
  | .topNSigma _ => "top-n-sigma"

/-- The range a parameter must lie in. -/
def inRange (self : Truncation K) (value : K) : Bool :=
  match self with
  | .minK _ | .topNSigma _ => decide (0 ≤ value)
  | _ => decide (0 < value) && decide (value ≤ 1)

def validate (self : Truncation K) : Except SamplerError Unit :=
  match self.parameter with
  | none => .ok ()
  | some value =>
    if self.inRange value then .ok () else .error (.truncation self.name)

end Truncation

def Temperature.validate : Temperature K → Except SamplerError Unit
  | .greedy => .ok ()
  | .scaled value => if value ≤ 0 then .error .temperature else .ok ()

def Sampler.validate (self : Sampler K) : Except SamplerError Unit := do
  self.temperature.validate
  self.truncations.forM Truncation.validate

namespace Logit

def isFinite : Logit K → Bool
  | .nonFinite => false
  | _ => true

/-- The number a finite logit is converted to. -/
def toF64 : Logit K → K
  | .finite value => value
  | _ => 0

/-- The order of `total_cmp` on finite logits. -/
def totalCmp (left right : Logit K) : Ordering :=
  (compare left.toF64 right.toF64).then
    (compare (decide (left ≠ .negativeZero)) (decide (right ≠ .negativeZero)))

end Logit

/-- The logit of a token. -/
def logitOf (logits : List (Logit K)) (index : Nat) : Logit K := logits.getD index .nonFinite

/-- The number a token's logit is converted to. -/
def valueOf (logits : List (Logit K)) (index : Nat) : K := (logitOf logits index).toF64

/-- A logit that is not finite, or not above the best one before it. -/
def passedBy (value : Logit K) (best : Option (Nat × K)) : Bool :=
  !value.isFinite || best.any fun entry => decide (value.toF64 ≤ entry.2)

/-- The loop of `argmax` from an index, with the best entry before it. -/
def argmaxFrom : List (Logit K) → Nat → Option (Nat × K) → Option (Nat × K)
  | [], _, best => best
  | value :: rest, index, best =>
    argmaxFrom rest (index + 1) (if passedBy value best then best else some (index, value.toF64))

def argmax (logits : List (Logit K)) : Option Nat := (argmaxFrom logits 0 none).map (·.1)

def greedyDistribution (logits : List (Logit K)) : Temperature K →
    Except SamplerError (Option (List K))
  | .scaled _ => .ok none
  | .greedy =>
    match argmax logits with
    | none => .error .allNaN
    | some best => .ok (some ((List.replicate logits.length 0).set best 1))

def compareCandidates (logits : List (Logit K)) (left right : Nat) : Ordering :=
  ((logitOf logits right).totalCmp (logitOf logits left)).then (compare left right)

/-- The finite logits, the highest first. -/
def ranking (logits : List (Logit K)) : List Nat :=
  ((List.range logits.length).filter fun index => (logitOf logits index).isFinite).insertionSort
    fun left right => compareCandidates logits left right ≠ .gt

section Stages

variable [Elementary K]

def scaledDistribution (logits : List (Logit K)) (temperature : K) :
    Except SamplerError (Candidates K) :=
  let order := ranking logits
  match order with
  | [] => .error .allNaN
  | first :: _ =>
    let highest := valueOf logits first / temperature
    let kept := order.map fun index =>
      Elementary.exp (valueOf logits index / temperature - highest)
    let total := kept.sum
    if total ≤ 0 then .error .allNaN else .ok { order, kept := kept.map (· / total) }

def renormalize (kept : List K) : Except SamplerError (List K) :=
  let total := kept.sum
  if total ≤ 0 then .error .allNaN else .ok (kept.map (· / total))

def entropy (kept : List K) : K :=
  ((kept.filter (0 < ·)).map fun value => -value * Elementary.ln value).sum

def thresholdKeep (kept : List K) (floor : K) : Nat :=
  (kept.takeWhile fun value => decide (floor ≤ value)).length

/-- The loop of `prefix_reaching_mass` after a count of entries that cover a mass. -/
def reachingFrom (mass : K) : List K → Nat → K → Nat
  | [], count, _ => count
  | value :: rest, count, covered =>
    if mass ≤ covered + value then count + 1
    else reachingFrom mass rest (count + 1) (covered + value)

def prefixReachingMass (kept : List K) (mass : K) : Nat := reachingFrom mass kept 0 0

def mean (values : List K) : K := values.sum / (values.length : K)

def deviation (values : List K) : K :=
  Elementary.sqrt (mean (values.map fun value => (value - mean values) * (value - mean values)))

def topNSigmaKeep (logits : List (Logit K)) (order : List Nat) (sigmas : K) : Nat :=
  match order with
  | first :: _ :: _ =>
    let cut := valueOf logits first - sigmas * deviation (order.map (valueOf logits))
    max (order.takeWhile fun index => decide (cut ≤ valueOf logits index)).length 1
  | _ => order.length

def secondDifferences (kept : List K) : List K :=
  (List.range (kept.length - 2)).map fun slot =>
    |weightAt kept slot - 2 * weightAt kept (slot + 1) + weightAt kept (slot + 2)|

/-- The loop of `tail_free_keep` after a count of entries that cover a share. -/
def coveredFrom (share total : K) : List K → Nat → K → Nat
  | [], keep, _ => keep
  | value :: rest, keep, covered =>
    if covered + value / total ≤ share then
      coveredFrom share total rest (keep + 1) (covered + value / total)
    else keep

def tailFreeKeep (kept : List K) (share : K) : Nat :=
  if kept.length < 3 then
    kept.length
  else
    let second := secondDifferences kept
    let total := second.sum
    if total ≤ 0 then kept.length else coveredFrom share total second 1 0

/-- The gap below a rank relative to the range, divided by the rank. -/
def weightedGap (logits : List (Logit K)) (order : List Nat) (range : K) (rank : Nat) : K :=
  (valueOf logits (order.getD (rank - 1) 0) - valueOf logits (order.getD rank 0)) / range / rank

/-- The loop of `min_k_keep` over ranks, with the cliff and the best gap before them. -/
def cliffFrom (gap : Nat → K) : List Nat → Nat → Option K → Nat
  | [], cliff, _ => cliff
  | rank :: rest, cliff, best =>
    if best.all (· < gap rank) then cliffFrom gap rest rank (some (gap rank))
    else cliffFrom gap rest cliff best

variable [FloorRing K]

def minKFallback (tau range : K) (count : Nat) : Nat :=
  if 0 ≤ ⌊tau / range⌋ then min ⌊tau / range⌋.toNat count else count

def minKRange (logits : List (Logit K)) (order : List Nat) : K :=
  valueOf logits (order.getD 0 0) - valueOf logits (order.getD (order.length - 1) 0) + 1 / 10 ^ 8

def minKKeep (logits : List (Logit K)) (order : List Nat) (tau : K) : Nat :=
  if order.length < 2 then
    order.length
  else
    let range := minKRange logits order
    if range ≤ 0 then
      order.length
    else
      let cliff := cliffFrom (weightedGap logits order range)
        (List.range' 1 (order.length - 1)) 1 none
      min (max 1 (max cliff (minKFallback tau range order.length))) order.length

/-- The loop of `typical_select` over scored slots, with the mass covered before them. -/
def typicalFrom (kept : List K) (mass : K) : List Nat → K → List Nat
  | [], _ => []
  | slot :: rest, covered =>
    if mass ≤ covered + weightAt kept slot then [slot]
    else slot :: typicalFrom kept mass rest (covered + weightAt kept slot)

def typicalScore (kept : List K) (slot : Nat) : K :=
  |-Elementary.ln (weightAt kept slot) - entropy kept|

def typicalSelect (kept : List K) (mass : K) : List Nat :=
  let scored := (List.range kept.length).insertionSort fun left right =>
    (compare (typicalScore kept left) (typicalScore kept right)).then (compare left right) ≠ .gt
  (typicalFrom kept mass scored 0).insertionSort (· ≤ ·)

/-- What a stage on the raw logits keeps. -/
def rawKeep (logits : List (Logit K)) (order : List Nat) : Truncation K → Option Nat
  | .topNSigma sigmas => some (topNSigmaKeep logits order sigmas)
  | .minK tau => some (minKKeep logits order tau)
  | _ => none

/-- The loop of `apply_raw_truncations`, which reports whether a stage ran. -/
def rawStages (logits : List (Logit K)) : List (Truncation K) → Bool → Candidates K →
    Bool × Candidates K
  | [], changed, candidates => (changed, candidates)
  | truncation :: rest, changed, candidates =>
    match rawKeep logits candidates.order truncation with
    | none => rawStages logits rest changed candidates
    | some keep =>
      let order := candidates.order.take (max keep 1)
      rawStages logits rest true { order, kept := candidates.kept.take order.length }

def applyRawTruncations (logits : List (Logit K)) (truncations : List (Truncation K))
    (candidates : Candidates K) : Except SamplerError (Candidates K) := do
  let (changed, cut) := rawStages logits truncations false candidates
  if changed then
    return { cut with kept := ← renormalize cut.kept }
  return cut

def truncationKeep (kept : List K) : Truncation K → Option Nat
  | .topK count => some (min count kept.length)
  | .topP mass => some (prefixReachingMass kept mass)
  | .minP fraction => some (thresholdKeep kept (fraction * weightAt kept 0))
  | .topA fraction => some (thresholdKeep kept (fraction * weightAt kept 0 * weightAt kept 0))
  | .epsilon floor => some (thresholdKeep kept floor)
  | .eta floor =>
    some (thresholdKeep kept
      (min floor (Elementary.sqrt floor * Elementary.exp (-entropy kept))))
  | .tailFree share => some (tailFreeKeep kept share)
  | .topNSigma _ | .minK _ | .typical _ => none

def applyTruncation (truncation : Truncation K) (candidates : Candidates K) :
    Except SamplerError (Candidates K) :=
  match truncation with
  | .topNSigma _ | .minK _ => .ok candidates
  | .typical mass => do
    let selected := typicalSelect candidates.kept mass
    let kept ← renormalize (selected.map (weightAt candidates.kept))
    return { order := selected.map (candidates.order.getD · 0), kept }
  | truncation =>
    match truncationKeep candidates.kept truncation with
    | some keep => do
      let kept ← renormalize (candidates.kept.take (max keep 1))
      return { order := candidates.order.take (max keep 1), kept }
    | none => .ok candidates

def applyTruncations (truncations : List (Truncation K)) (candidates : Candidates K) :
    Except SamplerError (Candidates K) :=
  truncations.foldlM (fun candidates truncation => applyTruncation truncation candidates) candidates

/-- The distribution a sampler produces from a logit row. -/
def distribution (logits : List (Logit K)) (sampler : Sampler K) :
    Except SamplerError (Distribution K) := do
  sampler.validate
  if logits.isEmpty then throw .emptyRow
  if let some probabilities ← greedyDistribution logits sampler.temperature then
    return { probabilities }
  match sampler.temperature with
  | .greedy => throw .allNaN -- the greedy row was returned above
  | .scaled temperature =>
    let scaled ← scaledDistribution logits temperature
    let cut ← applyRawTruncations logits sampler.truncations scaled
    let final ← applyTruncations sampler.truncations cut
    return {
      probabilities := scatter (List.replicate logits.length 0) (final.order.zip final.kept) }

end Stages

end Leone.Sampling

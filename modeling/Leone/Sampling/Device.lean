import Mathlib
import Leone.Sampling.Distribution
import Leone.Sampling.Dry

/-!
# Greedy tokens of the device and of the host

The device scans a raw row for its greatest logit and skips only NaN. The host builds the greedy
distribution of the row, which skips every logit that is not finite, and draws from it.
-/

namespace Leone.Sampling

open Framework

/-- A value of `f32`, with the number it stands for as exact. -/
inductive F32 (K : Type) where
  | nan
  | infinity (negative : Bool)
  | negativeZero
  | finite (value : K)
  deriving DecidableEq

variable {K : Type} [Field K] [LinearOrder K]

namespace F32

/-- The logit that the host sees. -/
def logit : F32 K → Logit K
  | .nan | .infinity _ => .nonFinite
  | .negativeZero => .negativeZero
  | .finite value => .finite value

/-- The number on the line with both ends, none for NaN. -/
def extended : F32 K → Option (WithBot (WithTop K))
  | .nan => none
  | .infinity true => some ⊥
  | .infinity false => some ((⊤ : WithTop K) : WithBot (WithTop K))
  | .negativeZero => some (((0 : K) : WithTop K) : WithBot (WithTop K))
  | .finite value => some ((value : WithTop K) : WithBot (WithTop K))

def isNan (value : F32 K) : Bool := value.extended.isNone

/-- The comparison `>` of floats. -/
def gt (left right : F32 K) : Bool :=
  match left.extended, right.extended with
  | some left, some right => decide (right < left)
  | _, _ => false

end F32

inductive DeviceError where
  | operation (operation message : String)
  deriving DecidableEq, Repr

namespace CpuBackend

/-- The variables of the scan. -/
structure Scan (K : Type) where
  bestIndex : UInt32
  bestValue : F32 K
  found : Bool

/-- The loop of `argmax` from an index. -/
def argmaxFrom : List (F32 K) → Nat → Scan K → Except DeviceError UInt32
  | [], _, best => .ok best.bestIndex
  | value :: rest, index, best =>
    if !value.isNan && (!best.found || value.gt best.bestValue) then
      if index < 2 ^ 32 then
        argmaxFrom rest (index + 1)
          { bestIndex := UInt32.ofNat index, bestValue := value, found := true }
      else
        .error (.operation "convert argmax index"
          "out of range integral type conversion attempted")
    else
      argmaxFrom rest (index + 1) best

def argmax (input : List (F32 K)) : Except DeviceError UInt32 :=
  argmaxFrom input 0 { bestIndex := 0, bestValue := .infinity true, found := false }

end CpuBackend

/-! ## The host paths -/

/-- How much history the counting penalties inspect. -/
inductive PenaltyWindow where
  | disabled
  | finite (limit : ℕ+)
  | fullHistory
  deriving DecidableEq

/-- Everything applied to a row before the sampler sees it. -/
structure Penalties (K : Type) where
  repetition : K
  presence : K
  frequency : K
  window : PenaltyWindow
  dry : Dry K

def Penalties.isActive (self : Penalties K) : Bool :=
  (decide (self.window ≠ .disabled) &&
    (decide (self.repetition ≠ 1) || decide (self.presence ≠ 0) ||
      decide (self.frequency ≠ 0))) || self.dry.isActive

inductive RuntimeError where
  | penalty (error : PenaltyError)
  | sampler (error : SamplerError)
  deriving DecidableEq

def Penalties.validate (self : Penalties K) : Except PenaltyError Unit := do
  if self.repetition ≤ 0 then throw .repetition
  self.dry.validate

/-- The row after the penalties. What active ones write depends on the history of the tokens. -/
def Penalties.apply (self : Penalties K) (rewrite : List (F32 K) → List (F32 K))
    (row : List (F32 K)) : Except PenaltyError (List (F32 K)) := do
  self.validate
  return if self.isActive then rewrite row else row

section Paths

variable [Elementary K] [FloorRing K]

def sampleHostDistribution (row : List (F32 K)) (sampler : Sampler K) (rng : SamplerRng K)
    (position : UInt64) : Except RuntimeError UInt32 := do
  let target ← (distribution (row.map F32.logit) sampler).mapError .sampler
  (select target rng position).mapError .sampler

/-- The row under the penalties, sampled. Every path below reads its row from another buffer. -/
def samplePenalized (penalties : Penalties K) (rewrite : List (F32 K) → List (F32 K))
    (row : List (F32 K)) (sampler : Sampler K) (rng : SamplerRng K) (position : UInt64) :
    Except RuntimeError UInt32 := do
  let row ← (penalties.apply rewrite row).mapError .penalty
  sampleHostDistribution row sampler rng position

/-- The paths that sample a row on the host. -/
inductive HostPath where
  | sampleOnHost
  | sampleBatchRow
  | speculativeBonusToken
  | verifyBonusToken
  deriving DecidableEq, Repr

def HostPath.sample : HostPath → Penalties K → (List (F32 K) → List (F32 K)) → List (F32 K) →
    Sampler K → SamplerRng K → UInt64 → Except RuntimeError UInt32
  | .sampleOnHost | .sampleBatchRow | .speculativeBonusToken | .verifyBonusToken =>
    samplePenalized

/-- A greedy request emits one token, whichever side samples the row, and the host fails exactly on
a row without a finite logit. -/
def SameToken (row : List (F32 K)) : Prop :=
  ∀ (path : HostPath) (penalties : Penalties K) rewrite rng position,
    penalties.validate = .ok () → penalties.isActive = false →
      ((∃ error, path.sample penalties rewrite row
          { temperature := .greedy, truncations := [] } rng position = .error error) ↔
        ∀ value ∈ row, value.logit.isFinite = false) ∧
      ∀ token, path.sample penalties rewrite row
          { temperature := .greedy, truncations := [] } rng position = .ok token →
        CpuBackend.argmax row = .ok token

end Paths

/-! ## The scan of the device -/

/-- The number at an index of a row, none for NaN or past its end. -/
def numberAt (row : List (F32 K)) (index : Nat) : Option (WithBot (WithTop K)) :=
  row[index]?.bind F32.extended

/-- The greatest number before a bound, the first of several. -/
structure Greatest (row : List (F32 K)) (count token : Nat) (number : WithBot (WithTop K)) :
    Prop where
  number_eq : numberAt row token = some number
  lt_count : token < count
  others : ∀ index < count, ∀ other, numberAt row index = some other →
    other < number ∨ other = number ∧ token ≤ index

/-- What the variables of the scan say of the values before an index. -/
def Scanned (row : List (F32 K)) (count : Nat) (best : CpuBackend.Scan K) : Prop :=
  if best.found then
    ∃ token number, token < 2 ^ 32 ∧ best.bestIndex = UInt32.ofNat token ∧
      best.bestValue.extended = some number ∧ Greatest row count token number
  else
    best.bestIndex = 0 ∧ ∀ index < count, numberAt row index = none

theorem Greatest.step {row : List (F32 K)} {count token : Nat} {number : WithBot (WithTop K)}
    (h : Greatest row count token number)
    (hnext : ∀ other, numberAt row count = some other → ¬ number < other) :
    Greatest row (count + 1) token number where
  number_eq := h.number_eq
  lt_count := Nat.lt_succ_of_lt h.lt_count
  others := by
    intro index hindex other hother
    rcases Nat.lt_succ_iff_lt_or_eq.mp hindex with hbefore | rfl
    · exact h.others index hbefore other hother
    · rcases lt_or_eq_of_le (not_lt.mp (hnext other hother)) with hless | heq
      · exact .inl hless
      · exact .inr ⟨heq, h.lt_count.le⟩

/-- A number above every one before it is the greatest. -/
theorem greatest_last {row : List (F32 K)} {count : Nat} {number : WithBot (WithTop K)}
    (hnumber : numberAt row count = some number)
    (habove : ∀ index < count, ∀ other, numberAt row index = some other → other < number) :
    Greatest row (count + 1) count number where
  number_eq := hnumber
  lt_count := Nat.lt_succ_self _
  others := by
    intro index hindex other hother
    rcases Nat.lt_succ_iff_lt_or_eq.mp hindex with hbefore | rfl
    · exact .inl (habove index hbefore other hother)
    · rw [hnumber] at hother
      exact .inr ⟨(Option.some.inj hother).symm, le_refl _⟩

/-- What a value does to the scan: it is passed by, or it is the greatest so far. -/
theorem Scanned.step {row : List (F32 K)} {count : Nat} {value : F32 K} {best : CpuBackend.Scan K}
    (h : Scanned row count best) (hvalue : numberAt row count = value.extended) :
    if !value.isNan && (!best.found || value.gt best.bestValue) then
      ∃ number, value.extended = some number ∧ Greatest row (count + 1) count number
    else Scanned row (count + 1) best := by
  cases hnumber : value.extended with
  | none =>
    rw [hnumber] at hvalue
    have hnan : value.isNan = true := by simp [F32.isNan, hnumber]
    rw [if_neg (by simp [hnan])]
    unfold Scanned at h ⊢
    split at h
    · next hfound =>
      obtain ⟨token, number, hlt, hindex, hbest, hgreatest⟩ := h
      rw [if_pos hfound]
      refine ⟨token, number, hlt, hindex, hbest, hgreatest.step ?_⟩
      intro other hother
      rw [hvalue] at hother
      cases hother
    · next hfound =>
      rw [if_neg hfound]
      refine ⟨h.1, ?_⟩
      intro index hindex
      rcases Nat.lt_succ_iff_lt_or_eq.mp hindex with hbefore | rfl
      · exact h.2 index hbefore
      · exact hvalue
  | some number =>
    rw [hnumber] at hvalue
    have hnan : value.isNan = false := by simp [F32.isNan, hnumber]
    unfold Scanned at h ⊢
    split at h
    · next hfound =>
      obtain ⟨token, bestNumber, hlt, hindex, hbest, hgreatest⟩ := h
      have hgt : value.gt best.bestValue = decide (bestNumber < number) := by
        simp [F32.gt, hnumber, hbest]
      by_cases habove : bestNumber < number
      · rw [if_pos (by simp [hnan, hgt, habove])]
        refine ⟨number, rfl, greatest_last hvalue ?_⟩
        intro index hbefore other hother
        rcases hgreatest.others index hbefore other hother with hless | ⟨heq, -⟩
        · exact hless.trans habove
        · rwa [heq]
      · rw [if_neg (by simp [hfound, hgt, habove]), if_pos hfound]
        refine ⟨token, bestNumber, hlt, hindex, hbest, hgreatest.step ?_⟩
        intro other hother
        rw [hvalue] at hother
        rwa [← Option.some.inj hother]
    · next hfound =>
      rw [if_pos (by simp [hnan, hfound])]
      refine ⟨number, rfl, greatest_last hvalue ?_⟩
      intro index hbefore other hother
      rw [h.2 index hbefore] at hother
      cases hother

/-- The scan ends with the first of the greatest numbers, or stops at an index that is no `u32`. -/
theorem CpuBackend.argmaxFrom_scanned {row rest : List (F32 K)} {count : Nat}
    {best : CpuBackend.Scan K} (h : Scanned row count best) (hrest : row.drop count = rest) :
    match CpuBackend.argmaxFrom rest count best with
    | .ok token => ∃ last, Scanned row (count + rest.length) last ∧ token = last.bestIndex
    | .error _ => ∃ index number, 2 ^ 32 ≤ index ∧ Greatest row (index + 1) index number := by
  induction rest generalizing count best with
  | nil => exact ⟨best, h, rfl⟩
  | cons value rest ih =>
    have hget : row[count]? = some value := by
      rw [← List.head?_drop, hrest, List.head?_cons]
    have htail : row.drop (count + 1) = rest := by
      rw [← List.drop_drop, hrest, List.drop_one, List.tail_cons]
    have hnumber : numberAt row count = value.extended := by rw [numberAt, hget, Option.bind_some]
    have hstep := h.step hnumber
    rw [List.length_cons, Nat.add_comm rest.length, ← Nat.add_assoc, CpuBackend.argmaxFrom]
    split at hstep
    · next htaken =>
      obtain ⟨number, hvalue, hgreatest⟩ := hstep
      rw [if_pos htaken]
      by_cases hindex : count < 2 ^ 32
      · rw [if_pos hindex]
        apply ih _ htail
        unfold Scanned
        rw [if_pos rfl]
        exact ⟨count, number, hindex, rfl, hvalue, hgreatest⟩
      · rw [if_neg hindex]
        exact ⟨count, number, not_lt.mp hindex, hgreatest⟩
    · next hpassed =>
      rw [if_neg hpassed]
      exact ih hstep htail

/-- More values leave the greatest where it is or move it on. -/
theorem Greatest.later {row : List (F32 K)} {count token : Nat} {number : WithBot (WithTop K)}
    (h : Greatest row count token number) (more : Nat) :
    ∃ later greater, token ≤ later ∧ Greatest row (count + more) later greater := by
  induction more with
  | zero => exact ⟨token, number, le_refl _, h⟩
  | succ more ih =>
    obtain ⟨later, greater, hle, hgreatest⟩ := ih
    by_cases hnext : ∀ other, numberAt row (count + more) = some other → ¬ greater < other
    · exact ⟨later, greater, hle, hgreatest.step hnext⟩
    · push Not at hnext
      obtain ⟨other, hother, hlt⟩ := hnext
      refine ⟨count + more, other, ?_, greatest_last hother ?_⟩
      · have hcount := hgreatest.lt_count
        omega
      · intro index hindex before hbefore
        rcases hgreatest.others index hindex before hbefore with hless | ⟨heq, -⟩
        · exact hless.trans hlt
        · rwa [heq]

omit [LinearOrder K] in
theorem numberAt_of_le {row : List (F32 K)} {index : Nat} (h : row.length ≤ index) :
    numberAt row index = none := by
  rw [numberAt, List.getElem?_eq_none h, Option.bind_none]

/-- The device writes the first of the greatest numbers, token `0` if every value is NaN, and fails
if that is no `u32`. -/
theorem CpuBackend.argmax_eq (row : List (F32 K)) :
    ((∀ index, numberAt row index = none) ∧ CpuBackend.argmax row = .ok 0) ∨
      ∃ token number, Greatest row row.length token number ∧
        (token < 2 ^ 32 → CpuBackend.argmax row = .ok (UInt32.ofNat token)) ∧
        (2 ^ 32 ≤ token → ∃ error, CpuBackend.argmax row = .error error) := by
  have hstart : Scanned row 0 { bestIndex := 0, bestValue := .infinity true, found := false } := by
    unfold Scanned
    rw [if_neg Bool.false_ne_true]
    exact ⟨rfl, fun index hindex => absurd hindex (Nat.not_lt_zero _)⟩
  have hscan := CpuBackend.argmaxFrom_scanned hstart List.drop_zero
  rw [Nat.zero_add] at hscan
  rw [CpuBackend.argmax]
  split at hscan
  · next token hok =>
    obtain ⟨last, hlast, rfl⟩ := hscan
    unfold Scanned at hlast
    split at hlast
    · obtain ⟨token, number, hlt, hindex, -, hgreatest⟩ := hlast
      right
      refine ⟨token, number, hgreatest, fun _ => by rw [hok, hindex], ?_⟩
      intro hge
      exact absurd hlt (not_lt.mpr hge)
    · left
      refine ⟨?_, by rw [hok, hlast.1]⟩
      intro index
      by_cases hindex : index < row.length
      · exact hlast.2 index hindex
      · exact numberAt_of_le (not_lt.mp hindex)
  · next error herror =>
    obtain ⟨index, number, hlarge, hgreatest⟩ := hscan
    have hlength : index < row.length := by
      by_contra hge
      have hnumber := hgreatest.number_eq
      rw [numberAt_of_le (not_lt.mp hge)] at hnumber
      cases hnumber
    obtain ⟨later, greater, hle, hwhole⟩ := hgreatest.later (row.length - (index + 1))
    rw [show index + 1 + (row.length - (index + 1)) = row.length by omega] at hwhole
    right
    refine ⟨later, greater, hwhole, ?_, fun _ => ⟨error, herror⟩⟩
    intro hlt
    omega

/-! ## The draw of the host -/

theorem scan_isSome {uniform : K} {probabilities : List K} {index : Nat} {mass : K}
    {last : Option Nat} (h : last.isSome = true ∨ ∃ p ∈ probabilities, 0 < p) :
    (scan uniform probabilities index mass last).isSome = true := by
  induction probabilities generalizing index mass last with
  | nil =>
    rcases h with hlast | ⟨p, hp, -⟩
    · exact hlast
    · cases hp
  | cons p ps ih =>
    rw [scan]
    split_ifs with hzero hstop
    · apply ih
      rcases h with hlast | ⟨q, hq, hpos⟩
      · exact .inl hlast
      · rcases List.mem_cons.mp hq with rfl | hmem
        · exact absurd hpos (not_lt.mpr hzero)
        · exact .inr ⟨q, hmem, hpos⟩
    · rfl
    · exact ih (.inl rfl)

/-- Every draw from a one-hot row is its token. -/
theorem selectWith_oneHot [IsStrictOrderedRing K] {n best : Nat} (hbest : best < n) (uniform : K) :
    selectWith ({ probabilities := (List.replicate n 0).set best 1 } : Distribution K) uniform =
      .ok (UInt32.ofNat best) := by
  have hlen : best < ((List.replicate n (0 : K)).set best 1).length := by simpa using hbest
  have hpositive : ∃ p ∈ (List.replicate n (0 : K)).set best 1, 0 < p :=
    ⟨1, List.mem_iff_getElem.mpr ⟨best, hlen, List.getElem_set_self hlen⟩, zero_lt_one⟩
  have hsome : (scan uniform ((List.replicate n (0 : K)).set best 1) 0 0 none).isSome = true :=
    scan_isSome (.inr hpositive)
  obtain ⟨index, hindex⟩ := Option.isSome_iff_exists.mp hsome
  simp only [selectWith, hindex]
  rcases scan_support hindex with hnone | ⟨-, hpos⟩
  · cases hnone
  · have heq : best = index := by
      by_contra hne
      rw [Nat.sub_zero, weightAt, List.getD_eq_getElem?_getD, List.getElem?_set_ne hne,
        List.getElem?_replicate] at hpos
      split_ifs at hpos
      · exact lt_irrefl _ hpos
      · exact lt_irrefl _ hpos
    rw [heq]

theorem argmax_eq_none {logits : List (Logit K)}
    (h : ∀ logit ∈ logits, logit.isFinite = false) : argmax logits = none := by
  have hstart : Best logits 0 none := fun index hindex => absurd hindex (Nat.not_lt_zero _)
  have hbest := argmaxFrom_best hstart List.drop_zero
  rw [argmax]
  cases hentry : argmaxFrom logits 0 none with
  | none => rfl
  | some entry =>
    rw [hentry] at hbest
    obtain ⟨hfinite, -, hlt, -⟩ := hbest
    rw [Nat.zero_add] at hlt
    have hmem := h logits[entry.1] (List.getElem_mem hlt)
    have hget : logitOf logits entry.1 = logits[entry.1] := by simp [logitOf, hlt]
    rw [hget, hmem] at hfinite
    cases hfinite

section Host

variable [Elementary K] [FloorRing K] {row : List (F32 K)} {penalties : Penalties K}
  {rewrite : List (F32 K) → List (F32 K)} {rng : SamplerRng K} {position : UInt64}

/-- Penalties that are not active leave every path the raw row. -/
theorem HostPath.sample_eq (path : HostPath) (hvalid : penalties.validate = .ok ())
    (hinactive : penalties.isActive = false) (sampler : Sampler K) :
    path.sample penalties rewrite row sampler rng position =
      sampleHostDistribution row sampler rng position := by
  have happly : penalties.apply rewrite row = .ok row := by
    simp only [Penalties.apply, hvalid, hinactive]
    rfl
  cases path <;>
    · simp only [HostPath.sample, samplePenalized, happly]
      rfl

theorem sampleHostDistribution_error (h : ∀ value ∈ row, value.logit.isFinite = false) :
    ∃ error, sampleHostDistribution row { temperature := .greedy, truncations := [] } rng position =
      .error error := by
  have hnone : argmax (row.map F32.logit) = none := by
    apply argmax_eq_none
    intro logit hlogit
    obtain ⟨value, hvalue, rfl⟩ := List.mem_map.mp hlogit
    exact h value hvalue
  cases row with
  | nil => exact ⟨.sampler .emptyRow, rfl⟩
  | cons value rest =>
    refine ⟨.sampler .allNaN, ?_⟩
    have hdistribution : distribution ((value :: rest).map F32.logit)
        { temperature := .greedy, truncations := [] } = .error .allNaN := by
      simp only [distribution, greedyDistribution, hnone]
      rfl
    simp only [sampleHostDistribution, hdistribution]
    rfl

theorem sampleHostDistribution_ok [IsStrictOrderedRing K] {best : Nat}
    (hbest : argmax (row.map F32.logit) = some best) (hlt : best < row.length) :
    sampleHostDistribution row { temperature := .greedy, truncations := [] } rng position =
      .ok (UInt32.ofNat best) := by
  have hne : row.map F32.logit ≠ [] := by
    intro hnil
    rw [List.map_eq_nil_iff.mp hnil] at hlt
    exact absurd hlt (Nat.not_lt_zero _)
  have hvalid : ({ temperature := .greedy, truncations := [] } : Sampler K).validate = .ok () := rfl
  have hdistribution := distribution_greedy hvalid hne rfl hbest
  have hselect : ∀ uniform : K, selectWith
      ({ probabilities := (List.replicate (row.map F32.logit).length 0).set best 1 } :
        Distribution K) uniform = .ok (UInt32.ofNat best) :=
    selectWith_oneHot (by rwa [List.length_map])
  simp only [sampleHostDistribution, hdistribution]
  show Except.mapError _ (select _ rng position) = _
  rw [select, hselect]
  rfl

end Host

/-! ## Where the two agree -/

/-- The first of the highest finite logits. -/
def HighestFinite (row : List (F32 K)) (token : Nat) : Prop :=
  (logitOf (row.map F32.logit) token).isFinite = true ∧
    ∀ index, (logitOf (row.map F32.logit) index).isFinite = true →
      valueOf (row.map F32.logit) index < valueOf (row.map F32.logit) token ∨
        valueOf (row.map F32.logit) index = valueOf (row.map F32.logit) token ∧ token ≤ index

/-- The row has no finite logit, or the first of its greatest values is the first of its highest
finite logits. A token is the low word of an index, which the device also checks. -/
def Comparable (row : List (F32 K)) : Prop :=
  (∀ value ∈ row, value.logit.isFinite = false) ∨
    ∃ host device number, HighestFinite row host ∧ Greatest row row.length device number ∧
      device < 2 ^ 32 ∧ device = host % 2 ^ 32

section Agreement

variable {row : List (F32 K)} {token : Nat}

omit [Field K] [LinearOrder K] in
theorem logitOf_map (row : List (F32 K)) (index : Nat) :
    logitOf (row.map F32.logit) index = (row[index]?.map F32.logit).getD .nonFinite := by
  rw [logitOf, List.getD_eq_getElem?_getD, List.getElem?_map]

omit [LinearOrder K] in
/-- A finite logit stands for its own number. -/
theorem numberAt_of_finite (h : (logitOf (row.map F32.logit) token).isFinite = true) :
    numberAt row token =
      some (((valueOf (row.map F32.logit) token : K) : WithTop K) : WithBot (WithTop K)) := by
  rw [valueOf]
  rw [logitOf_map] at h ⊢
  cases hget : row[token]? with
  | none =>
    rw [hget] at h
    cases h
  | some value =>
    rw [hget] at h
    rw [numberAt, hget]
    cases value with
    | nan => cases h
    | infinity negative => cases h
    | negativeZero => rfl
    | finite value => rfl

omit [Field K] [LinearOrder K] in
theorem lt_length_of_finite (h : (logitOf (row.map F32.logit) token).isFinite = true) :
    token < row.length := by
  by_contra hge
  rw [logitOf_map, List.getElem?_eq_none (not_lt.mp hge)] at h
  cases h

theorem HighestFinite.unique {other : Nat} (h : HighestFinite row token)
    (h' : HighestFinite row other) : token = other := by
  rcases h.2 other h'.1 with hlt | ⟨-, hle⟩
  · rcases h'.2 token h.1 with hlt' | ⟨heq, -⟩
    · exact absurd hlt' (lt_asymm hlt)
    · exact absurd hlt heq.not_gt
  · rcases h'.2 token h.1 with hlt' | ⟨-, hle'⟩
    · rcases h.2 other h'.1 with hlt | ⟨heq, -⟩
      · exact absurd hlt' (lt_asymm hlt)
      · exact absurd hlt' heq.not_gt
    · exact le_antisymm hle hle'

theorem Greatest.unique {other count : Nat} {number number' : WithBot (WithTop K)}
    (h : Greatest row count token number) (h' : Greatest row count other number') :
    token = other := by
  rcases h.others other h'.lt_count number' h'.number_eq with hlt | ⟨heq, hle⟩
  · rcases h'.others token h.lt_count number h.number_eq with hlt' | ⟨heq, -⟩
    · exact absurd hlt' (lt_asymm hlt)
    · exact absurd hlt heq.not_gt
  · rcases h'.others token h.lt_count number h.number_eq with hlt' | ⟨-, hle'⟩
    · exact absurd hlt' heq.not_gt
    · exact le_antisymm hle hle'

theorem exists_highestFinite (h : ¬ ∀ value ∈ row, value.logit.isFinite = false) :
    ∃ token, HighestFinite row token ∧ argmax (row.map F32.logit) = some token := by
  push Not at h
  obtain ⟨value, hmem, hfinite⟩ := h
  have hrow : ∃ logit ∈ row.map F32.logit, logit.isFinite = true :=
    ⟨value.logit, List.mem_map_of_mem hmem, by simpa using hfinite⟩
  obtain ⟨best, hbest, -, hbestFinite, hothers⟩ := argmax_highest hrow
  exact ⟨best, ⟨hbestFinite, hothers⟩, hbest⟩

/-- The device writes the host's token exactly when the two first greatest values agree. -/
theorem argmax_eq_host (h : HighestFinite row token) :
    CpuBackend.argmax row = .ok (UInt32.ofNat token) ↔ Comparable row := by
  have hfinite : ¬ ∀ value ∈ row, value.logit.isFinite = false := by
    intro hnone
    have hlt := lt_length_of_finite h.1
    have hget := h.1
    rw [logitOf_map, List.getElem?_eq_getElem hlt, Option.map_some, Option.getD_some,
      hnone _ (List.getElem_mem hlt)] at hget
    cases hget
  rcases CpuBackend.argmax_eq row with ⟨hnone, -⟩ | ⟨device, number, hgreatest, hsmall, hlarge⟩
  · have hnumber := hnone token
    rw [numberAt_of_finite h.1] at hnumber
    cases hnumber
  · constructor
    · intro heq
      have hlt : device < 2 ^ 32 := by
        by_contra hge
        obtain ⟨error, herror⟩ := hlarge (not_lt.mp hge)
        rw [herror] at heq
        cases heq
      rw [hsmall hlt] at heq
      have hnat := congrArg UInt32.toNat (Except.ok.inj heq)
      simp only [UInt32.toNat_ofNat'] at hnat
      refine .inr ⟨token, device, number, h, hgreatest, hlt, ?_⟩
      rwa [Nat.mod_eq_of_lt hlt] at hnat
    · intro hcomparable
      rcases hcomparable with hnone | ⟨host, device', number', hhost, hdevice, hlt, heq⟩
      · exact absurd hnone hfinite
      · rw [hgreatest.unique hdevice] at hsmall
        rw [hsmall hlt, h.unique hhost, heq]
        congr 1
        apply UInt32.toNat_inj.mp
        simp only [UInt32.toNat_ofNat', Nat.mod_mod]

/-- In a row of at most `2 ^ 32` logits only a positive infinity parts the two. -/
theorem comparable_iff_of_length (hlength : row.length ≤ 2 ^ 32) :
    Comparable row ↔
      (∀ value ∈ row, value.logit.isFinite = false) ∨ F32.infinity false ∉ row := by
  by_cases hfinite : ∀ value ∈ row, value.logit.isFinite = false
  · exact ⟨fun _ => .inl hfinite, fun _ => .inl hfinite⟩
  · obtain ⟨host, hhost, -⟩ := exists_highestFinite hfinite
    have hlt := lt_length_of_finite hhost.1
    constructor
    · intro h
      rcases h with hnone | ⟨host', device, number, hhost', hdevice, -, heq⟩
      · exact absurd hnone hfinite
      · right
        intro hmem
        obtain ⟨index, hindex, hvalue⟩ := List.getElem_of_mem hmem
        have hsame : device = host := by
          rw [heq, ← hhost.unique hhost', Nat.mod_eq_of_lt (hlt.trans_le hlength)]
        have hnumber := hdevice.number_eq
        rw [hsame, numberAt_of_finite hhost.1] at hnumber
        have htop : numberAt row index = some ((⊤ : WithTop K) : WithBot (WithTop K)) := by
          rw [numberAt, List.getElem?_eq_getElem hindex, hvalue]
          rfl
        rcases hdevice.others index hindex _ htop with hless | ⟨hequal, -⟩
        · rw [← Option.some.inj hnumber, WithBot.coe_lt_coe] at hless
          exact absurd hless not_top_lt
        · rw [← Option.some.inj hnumber, WithBot.coe_inj] at hequal
          exact WithTop.coe_ne_top hequal.symm
    · intro h
      right
      refine ⟨host, host, _, hhost, ⟨numberAt_of_finite hhost.1, hlt, ?_⟩, hlt.trans_le hlength,
        (Nat.mod_eq_of_lt (hlt.trans_le hlength)).symm⟩
      intro index hindex other hother
      by_cases hfin : (logitOf (row.map F32.logit) index).isFinite = true
      · rw [numberAt_of_finite hfin] at hother
        rw [← Option.some.inj hother, WithBot.coe_lt_coe, WithTop.coe_lt_coe, WithBot.coe_inj,
          WithTop.coe_inj]
        exact hhost.2 index hfin
      · left
        rw [logitOf_map, List.getElem?_eq_getElem hindex] at hfin
        rw [numberAt, List.getElem?_eq_getElem hindex, Option.bind_some] at hother
        rcases h with hnone | habsent
        · exact absurd hnone hfinite
        · cases hvalue : row[index] with
          | nan =>
            rw [hvalue] at hother
            cases hother
          | infinity negative =>
            cases negative with
            | false => exact absurd (hvalue ▸ List.getElem_mem hindex) habsent
            | true =>
              rw [hvalue] at hother
              rw [← Option.some.inj hother]
              exact WithBot.bot_lt_coe _
          | negativeZero =>
            rw [hvalue] at hfin
            exact absurd rfl hfin
          | finite value =>
            rw [hvalue] at hfin
            exact absurd rfl hfin

end Agreement

section Rows

variable [IsStrictOrderedRing K] [Elementary K] [FloorRing K] {row : List (F32 K)}

/-- The penalties of a request that sets none. -/
def Penalties.none : Penalties K where
  repetition := 1
  presence := 0
  frequency := 0
  window := .finite 64
  dry := { multiplier := 0, base := 7 / 4, allowedLength := 2, window := 64, breakers := [] }

omit [Elementary K] [FloorRing K] in
theorem Penalties.none_validate : (Penalties.none : Penalties K).validate = .ok () := by
  have hrepetition : ¬ (1 : K) ≤ 0 := not_le.mpr zero_lt_one
  have hbase : ¬ (7 / 4 : K) ≤ 0 := not_le.mpr (by norm_num)
  simp [Penalties.validate, Penalties.none, Dry.validate, hrepetition, hbase]

omit [IsStrictOrderedRing K] [Elementary K] [FloorRing K] in
theorem Penalties.none_isActive : (Penalties.none : Penalties K).isActive = false := by
  simp [Penalties.isActive, Penalties.none, Dry.isActive]

theorem sameToken_of_finite {host : Nat} (hhost : HighestFinite row host)
    (hargmax : argmax (row.map F32.logit) = some host)
    (hfinite : ¬ ∀ value ∈ row, value.logit.isFinite = false) :
    SameToken row ↔ CpuBackend.argmax row = .ok (UInt32.ofNat host) := by
  have hsample : ∀ (path : HostPath) (penalties : Penalties K) rewrite rng position,
      penalties.validate = .ok () → penalties.isActive = false →
        path.sample penalties rewrite row { temperature := .greedy, truncations := [] } rng
          position = .ok (UInt32.ofNat host) := by
    intro path penalties rewrite rng position hvalid hinactive
    rw [path.sample_eq hvalid hinactive]
    exact sampleHostDistribution_ok hargmax (lt_length_of_finite hhost.1)
  constructor
  · intro h
    have hrun := h .sampleOnHost Penalties.none id ⟨fun _ _ => 0⟩ 0 Penalties.none_validate
      Penalties.none_isActive
    exact hrun.2 _ (hsample _ _ _ _ _ Penalties.none_validate Penalties.none_isActive)
  · intro h path penalties rewrite rng position hvalid hinactive
    rw [hsample path penalties rewrite rng position hvalid hinactive]
    constructor
    · constructor
      · intro herror
        obtain ⟨error, herror⟩ := herror
        cases herror
      · intro hnone
        exact absurd hnone hfinite
    · intro token htoken
      rwa [← Except.ok.inj htoken]

theorem sameToken_iff_comparable : SameToken row ↔ Comparable row := by
  by_cases hfinite : ∀ value ∈ row, value.logit.isFinite = false
  · constructor
    · exact fun _ => .inl hfinite
    · intro _ path penalties rewrite rng position hvalid hinactive
      obtain ⟨error, herror⟩ :=
        @sampleHostDistribution_error K _ _ _ _ row rng position hfinite
      rw [path.sample_eq hvalid hinactive, herror]
      refine ⟨⟨fun _ => hfinite, fun _ => ⟨error, rfl⟩⟩, ?_⟩
      intro token htoken
      cases htoken
  · obtain ⟨host, hhost, hargmax⟩ := exists_highestFinite hfinite
    rw [sameToken_of_finite hhost hargmax hfinite]
    exact argmax_eq_host hhost

end Rows

/-- A greedy request emits the same token on both sides exactly when no value that is not finite is
above the highest finite logit. -/
theorem sameToken_iff (row : List (F32 ℝ)) :
    (SameToken row ↔ Comparable row) ∧
      (row.length ≤ 2 ^ 32 → (SameToken row ↔
        (∀ value ∈ row, value.logit.isFinite = false) ∨ F32.infinity false ∉ row)) := by
  refine ⟨sameToken_iff_comparable, ?_⟩
  intro hlength
  rw [sameToken_iff_comparable]
  exact comparable_iff_of_length hlength

/-- A tie after NaN and a negative infinity. -/
theorem sameToken_iff_tie :
    SameToken ([.nan, .infinity true, .finite 1, .finite 1] : List (F32 ℝ)) :=
  ((sameToken_iff [.nan, .infinity true, .finite 1, .finite 1]).2 (by simp)).mpr
    (.inr (by simp))

/-- The device writes the token of a positive infinity, which the host never draws. -/
theorem not_sameToken : ¬ SameToken ([.finite 0, .infinity false] : List (F32 ℝ)) := by
  intro h
  have hargmax : argmax (([.finite 0, .infinity false] : List (F32 ℝ)).map F32.logit) = some 0 := by
    simp [argmax, argmaxFrom, passedBy, F32.logit, Logit.isFinite, Logit.toF64]
  have hfinite : ¬ ∀ value ∈ ([.finite 0, .infinity false] : List (F32 ℝ)),
      value.logit.isFinite = false := by
    simp [F32.logit, Logit.isFinite]
  have hhost : HighestFinite ([.finite 0, .infinity false] : List (F32 ℝ)) 0 := by
    obtain ⟨host, hhost, hsome⟩ := exists_highestFinite hfinite
    rw [hargmax] at hsome
    rwa [Option.some.inj hsome]
  have hdevice := (sameToken_of_finite hhost hargmax hfinite).mp h
  have hone : CpuBackend.argmax ([.finite 0, .infinity false] : List (F32 ℝ)) = .ok 1 := by
    have hgt : (F32.infinity false).gt (F32.finite (0 : ℝ)) = true :=
      decide_eq_true (WithBot.coe_lt_coe.mpr (WithTop.coe_lt_top (0 : ℝ)))
    simp [CpuBackend.argmax, CpuBackend.argmaxFrom, F32.isNan, hgt, F32.extended]
  rw [hone] at hdevice
  have hnat := congrArg UInt32.toNat (Except.ok.inj hdevice)
  revert hnat
  decide

end Leone.Sampling
import Mathlib
import Leone.Framework.SortedMap

/-!
# The repeated-suffix penalty

A token that would continue a repeat of earlier history is penalized, once the repeat is long
enough. Numbers are those of an ordered field, so a penalty is exact.
-/

namespace Leone.Sampling

open Framework

inductive PenaltyError
  | repetition
  | dry (field : String)
  deriving DecidableEq, Repr

/-- The repeated-suffix penalty, known as DRY. -/
structure Dry (K : Type) where
  multiplier : K
  base : K
  allowedLength : Nat
  window : Nat
  breakers : List Nat

/-- `as i32` keeps the low 32 bits. -/
def asI32 (value : Nat) : Int :=
  if value % 2 ^ 32 < 2 ^ 31 then (value % 2 ^ 32 : Nat) else (value % 2 ^ 32 : Nat) - 2 ^ 32

namespace Dry

variable {K : Type}

/-- The loop of `dryMatchLength` from a length that matches. -/
def extend (dry : Dry K) (recent : List Nat) (start last length : Nat) : Nat :=
  if length ≤ start ∧ length ≤ last ∧ recent[start - length]! = recent[last - length]! ∧
      recent[last - length]! ∉ dry.breakers then
    dry.extend recent start last (length + 1)
  else length
termination_by start + 1 - length

def dryMatchLength (dry : Dry K) (recent : List Nat) (start last : Nat) : Nat :=
  dry.extend recent start last 1

section Penalties

variable [Field K] [LinearOrder K]

def validate (dry : Dry K) : Except PenaltyError Unit :=
  if dry.multiplier < 0 then .error (.dry "multiplier")
  else if dry.base ≤ 0 then .error (.dry "base")
  else if dry.allowedLength = 0 then .error (.dry "allowed length")
  else .ok ()

def isActive (dry : Dry K) : Bool := 0 < dry.multiplier && 0 < dry.window

/-- The penalty of a match. -/
def penalty (dry : Dry K) (length : Nat) : K :=
  dry.multiplier * dry.base ^ asI32 (length - dry.allowedLength)

/-- The penalties with that of the match at one position. -/
def penalize (dry : Dry K) (recent : List Nat) (last : Nat) (penalties : SortedMap Nat K)
    (start : Nat) : SortedMap Nat K :=
  if recent[start]! ≠ recent[last]! then penalties
  else
    let length := dry.dryMatchLength recent start last
    if length < dry.allowedLength then penalties
    else
      let continuation := recent[start + 1]!
      if continuation ∈ dry.breakers then penalties
      else
        -- A token reachable by several repeats takes the longest one.
        let slot := (penalties.get? continuation).getD 0
        penalties.insert continuation (max slot (dry.penalty length))

/-- The penalty of each token. The caller passes two tokens or more. -/
def dryPenalties (dry : Dry K) (recent : List Nat) : SortedMap Nat K :=
  let last := recent.length - 1
  (List.range last).foldl (dry.penalize recent last) ∅

def applyDry (dry : Dry K) (logits : List K) (context : List Nat) : List K :=
  let recent := context.drop (context.length - dry.window)
  if recent.length < 2 then logits
  else (dry.dryPenalties recent).entries.foldl
    (fun logits entry => logits.modify entry.1 (· - entry.2)) logits

/-- What `validate` accepts and `isActive` lets through. -/
structure Usable (dry : Dry K) : Prop where
  multiplier : 0 < dry.multiplier
  base : 0 < dry.base
  allowedLength : 0 < dry.allowedLength

theorem usable_of_validate {dry : Dry K} (hvalid : dry.validate = .ok ())
    (hactive : dry.isActive = true) : dry.Usable := by
  unfold validate at hvalid
  split_ifs at hvalid with _ hbase hallowed
  rw [isActive, Bool.and_eq_true, decide_eq_true_iff] at hactive
  exact ⟨hactive.1, not_le.mp hbase, Nat.pos_of_ne_zero hallowed⟩

end Penalties

/-! ## Matches -/

/-- The tokens that end at `start` equal those that end at the last position, and none of them is a
breaker. -/
def Repeats (dry : Dry K) (recent : List Nat) (start length : Nat) : Prop :=
  length ≤ start + 1 ∧ ∀ i < length,
    recent[start - i]! = recent[recent.length - 1 - i]! ∧
      recent[recent.length - 1 - i]! ∉ dry.breakers

/-- The same, where the last token itself may be a breaker. -/
def Spans (dry : Dry K) (recent : List Nat) (start length : Nat) : Prop :=
  length ≤ start + 1 ∧ ∀ i < length,
    recent[start - i]! = recent[recent.length - 1 - i]! ∧
      (i ≠ 0 → recent[recent.length - 1 - i]! ∉ dry.breakers)

section Matches

variable {dry : Dry K} {recent : List Nat} {start length : Nat}

theorem Repeats.spans (h : dry.Repeats recent start length) : dry.Spans recent start length :=
  ⟨h.1, fun i hi => ⟨(h.2 i hi).1, fun _ => (h.2 i hi).2⟩⟩

theorem Spans.mono (h : dry.Spans recent start length) {shorter : Nat} (hle : shorter ≤ length) :
    dry.Spans recent start shorter :=
  ⟨hle.trans h.1, fun i hi => h.2 i (hi.trans_le hle)⟩

/-- Where the last token is no breaker the two agree. -/
theorem Spans.repeats (h : dry.Spans recent start length)
    (hlast : recent[recent.length - 1]! ∉ dry.breakers) : dry.Repeats recent start length := by
  refine ⟨h.1, fun i hi => ⟨(h.2 i hi).1, ?_⟩⟩
  by_cases hzero : i = 0
  · subst hzero
    exact hlast
  · exact (h.2 i hi).2 hzero

/-- A repeat of one token or more has no breaker at its end. -/
theorem Repeats.last_notMem (h : dry.Repeats recent start length) (hpos : 0 < length) :
    recent[recent.length - 1]! ∉ dry.breakers := (h.2 0 hpos).2

theorem spans_succ (h : dry.Spans recent start length) (hpos : 0 < length) :
    dry.Spans recent start (length + 1) ↔ length ≤ start ∧
      recent[start - length]! = recent[recent.length - 1 - length]! ∧
      recent[recent.length - 1 - length]! ∉ dry.breakers := by
  constructor
  · intro hnext
    obtain ⟨heq, hbreaker⟩ := hnext.2 length (Nat.lt_succ_self length)
    exact ⟨Nat.le_of_succ_le_succ hnext.1, heq, hbreaker hpos.ne'⟩
  · intro hnext
    refine ⟨Nat.succ_le_succ hnext.1, fun i hi => ?_⟩
    rcases Nat.lt_succ_iff_lt_or_eq.mp hi with hlt | heq
    · exact h.2 i hlt
    · subst heq
      exact ⟨hnext.2.1, fun _ => hnext.2.2⟩

/-- The loop stops at the greatest length that still spans. -/
theorem extend_isGreatest (hstart : start < recent.length - 1) (hpos : 0 < length)
    (h : dry.Spans recent start length) :
    IsGreatest {l | dry.Spans recent start l}
      (dry.extend recent start (recent.length - 1) length) := by
  fun_induction dry.extend recent start (recent.length - 1) length with
  | case1 length hnext ih =>
    apply ih (Nat.succ_pos length)
    exact (spans_succ h hpos).mpr ⟨hnext.1, hnext.2.2⟩
  | case2 length hstop =>
    refine ⟨h, fun longer hlonger => ?_⟩
    by_contra hlt
    have hnext := (spans_succ h hpos).mp (hlonger.mono (Nat.succ_le_of_lt (not_le.mp hlt)))
    exact hstop ⟨hnext.1, by omega, hnext.2⟩

theorem spans_one (heq : recent[start]! = recent[recent.length - 1]!) :
    dry.Spans recent start 1 := by
  refine ⟨Nat.succ_le_succ (Nat.zero_le start), fun i hi => ?_⟩
  obtain rfl : i = 0 := by omega
  exact ⟨heq, fun hne => absurd rfl hne⟩

theorem dryMatchLength_isGreatest (hstart : start < recent.length - 1)
    (heq : recent[start]! = recent[recent.length - 1]!) :
    IsGreatest {l | dry.Spans recent start l}
      (dry.dryMatchLength recent start (recent.length - 1)) :=
  extend_isGreatest hstart Nat.one_pos (spans_one heq)

end Matches

/-! ## Penalties -/

/-- The code penalizes the token behind `start`. -/
def Hits (dry : Dry K) (recent : List Nat) (token start : Nat) : Prop :=
  recent[start]! = recent[recent.length - 1]! ∧
    dry.allowedLength ≤ dry.dryMatchLength recent start (recent.length - 1) ∧
    recent[start + 1]! = token ∧ token ∉ dry.breakers

theorem hits_iff {dry : Dry K} {recent : List Nat} {token start : Nat}
    (hallowed : 0 < dry.allowedLength) (hstart : start < recent.length - 1) :
    dry.Hits recent token start ↔ dry.Spans recent start dry.allowedLength ∧
      recent[start + 1]! = token ∧ token ∉ dry.breakers := by
  constructor
  · intro h
    exact ⟨(dryMatchLength_isGreatest hstart h.1).1.mono h.2.1, h.2.2⟩
  · intro h
    have heq := (h.1.2 0 hallowed).1
    exact ⟨heq, (dryMatchLength_isGreatest hstart heq).2 h.1, h.2⟩

section Penalties

variable [Field K] [LinearOrder K] {dry : Dry K} {recent : List Nat}

/-- One position changes the penalty of the token behind it. -/
theorem get?_penalize (penalties : SortedMap Nat K) (start token : Nat) :
    (dry.Hits recent token start →
      (dry.penalize recent (recent.length - 1) penalties start).get? token =
        some (max ((penalties.get? token).getD 0)
          (dry.penalty (dry.dryMatchLength recent start (recent.length - 1))))) ∧
    (¬ dry.Hits recent token start →
      (dry.penalize recent (recent.length - 1) penalties start).get? token =
        penalties.get? token) := by
  unfold penalize
  dsimp only
  split_ifs with hfirst hlength hbreaker
  · exact ⟨fun h => absurd h.1 hfirst, fun _ => rfl⟩
  · exact ⟨fun h => absurd h.2.1 (not_le.mpr hlength), fun _ => rfl⟩
  · refine ⟨fun h => ?_, fun _ => rfl⟩
    rw [h.2.2.1] at hbreaker
    exact absurd hbreaker h.2.2.2
  · constructor
    · intro h
      rw [h.2.2.1, SortedMap.get?_insert_self]
    · intro h
      rw [SortedMap.get?_insert_of_ne]
      intro heq
      rw [← heq] at hbreaker
      exact h ⟨not_not.mp hfirst, not_lt.mp hlength, heq.symm, hbreaker⟩

/-- The penalties of the positions that hit a token. -/
def hitPenalties (dry : Dry K) (recent : List Nat) (token : Nat) (starts : List Nat) : Set K :=
  {p | ∃ start ∈ starts, dry.Hits recent token start ∧
    p = dry.penalty (dry.dryMatchLength recent start (recent.length - 1))}

omit [LinearOrder K] in
theorem hitPenalties_append_hit {token start : Nat} (h : dry.Hits recent token start)
    (starts : List Nat) : dry.hitPenalties recent token (starts ++ [start]) =
      insert (dry.penalty (dry.dryMatchLength recent start (recent.length - 1)))
        (dry.hitPenalties recent token starts) := by
  ext p
  simp only [hitPenalties, List.mem_append, List.mem_singleton, Set.mem_ofPred_eq, Set.mem_insert_iff]
  constructor
  · intro hp
    obtain ⟨other, hother | rfl, hhits, heq⟩ := hp
    · exact .inr ⟨other, hother, hhits, heq⟩
    · exact .inl heq
  · intro hp
    rcases hp with heq | ⟨other, hother, hhits, heq⟩
    · exact ⟨start, .inr rfl, h, heq⟩
    · exact ⟨other, .inl hother, hhits, heq⟩

omit [LinearOrder K] in
theorem hitPenalties_append_miss {token start : Nat} (h : ¬ dry.Hits recent token start)
    (starts : List Nat) : dry.hitPenalties recent token (starts ++ [start]) =
      dry.hitPenalties recent token starts := by
  ext p
  simp only [hitPenalties, List.mem_append, List.mem_singleton, Set.mem_ofPred_eq]
  constructor
  · intro hp
    obtain ⟨other, hother | rfl, hhits, heq⟩ := hp
    · exact ⟨other, hother, hhits, heq⟩
    · exact absurd hhits h
  · intro hp
    obtain ⟨other, hother, hhits, heq⟩ := hp
    exact ⟨other, .inl hother, hhits, heq⟩

variable [IsStrictOrderedRing K]

theorem penalty_pos (h : dry.Usable) (length : Nat) : 0 < dry.penalty length :=
  mul_pos h.multiplier (zpow_pos h.base _)

/-- A token is penalized behind the positions that hit it, by the greatest of their penalties. -/
theorem foldl_penalize (h : dry.Usable) (starts : List Nat) (token : Nat) :
    match (starts.foldl (dry.penalize recent (recent.length - 1)) ∅).get? token with
    | none => dry.hitPenalties recent token starts = ∅
    | some greatest => IsGreatest (dry.hitPenalties recent token starts) greatest := by
  induction starts using List.reverseRecOn with
  | nil =>
    ext p
    simp [hitPenalties]
  | append_singleton starts start ih =>
    rw [List.foldl_append, List.foldl_cons, List.foldl_nil]
    obtain ⟨hhit, hmiss⟩ := @get?_penalize K _ _ dry recent
      (starts.foldl (dry.penalize recent (recent.length - 1)) ∅) start token
    by_cases hhits : dry.Hits recent token start
    · rw [hhit hhits, hitPenalties_append_hit hhits]
      cases hold : (starts.foldl (dry.penalize recent (recent.length - 1)) ∅).get? token with
      | none =>
        rw [hold] at ih
        dsimp only [Option.getD_none]
        rw [ih, max_eq_right (penalty_pos h _).le, insert_empty_eq]
        exact isGreatest_singleton
      | some greatest =>
        rw [hold] at ih
        dsimp only [Option.getD_some]
        rw [max_comm]
        exact ih.insert _
    · rw [hmiss hhits, hitPenalties_append_miss hhits]
      exact ih

theorem dryPenalties_none_iff (h : dry.Usable) (token : Nat) :
    (dry.dryPenalties recent).get? token = none ↔
      ∀ start < recent.length - 1, ¬ dry.Hits recent token start := by
  have hfold := @foldl_penalize K _ _ dry recent _ h (List.range (recent.length - 1)) token
  rw [dryPenalties]
  cases hget : ((List.range (recent.length - 1)).foldl
    (dry.penalize recent (recent.length - 1)) ∅).get? token with
  | none =>
    rw [hget] at hfold
    refine iff_of_true rfl fun start hstart hhits => ?_
    have hmem : dry.penalty (dry.dryMatchLength recent start (recent.length - 1)) ∈
        dry.hitPenalties recent token (List.range (recent.length - 1)) :=
      ⟨start, List.mem_range.mpr hstart, hhits, rfl⟩
    rw [hfold] at hmem
    exact hmem
  | some greatest =>
    rw [hget] at hfold
    obtain ⟨start, hstart, hhits, _⟩ := hfold.1
    refine iff_of_false nofun fun hnone => hnone start (List.mem_range.mp hstart) hhits

theorem dryPenalties_some (h : dry.Usable) {token : Nat} {greatest : K}
    (hget : (dry.dryPenalties recent).get? token = some greatest) :
    IsGreatest (dry.hitPenalties recent token (List.range (recent.length - 1))) greatest := by
  have hfold := @foldl_penalize K _ _ dry recent _ h (List.range (recent.length - 1)) token
  rw [dryPenalties] at hget
  rw [hget] at hfold
  exact hfold

/-! ## Documented repeats -/

theorem asI32_of_lt {value : Nat} (h : value < 2 ^ 31) : asI32 value = value := by
  have hmod : value % 2 ^ 32 = value := Nat.mod_eq_of_lt (by omega)
  rw [asI32, hmod, if_pos h]

theorem asI32_lt (value : Nat) : asI32 value < 2 ^ 31 := by
  unfold asI32
  split_ifs <;> omega

/-- A position that the documentation counts for a token, with the length of its longest repeat. -/
def Longest (dry : Dry K) (recent : List Nat) (token start length : Nat) : Prop :=
  start < recent.length - 1 ∧ recent[start + 1]! = token ∧ dry.allowedLength ≤ length ∧
    IsGreatest {l | dry.Repeats recent start l} length

/-- The penalties are as documented: the penalized tokens are those that continue a long enough
repeat without breakers, the length at a position is that of its longest repeat, and a token takes
the longest one. -/
structure Documented (dry : Dry K) (recent : List Nat) : Prop where
  tokens : ∀ token, ((dry.dryPenalties recent).get? token).isSome ↔ token ∉ dry.breakers ∧
    ∃ start < recent.length - 1, recent[start + 1]! = token ∧
      ∃ length, dry.allowedLength ≤ length ∧ dry.Repeats recent start length
  lengths : ∀ start < recent.length - 1, ∀ length, dry.allowedLength ≤ length →
    dry.Repeats recent start length → IsGreatest {l | dry.Repeats recent start l}
      (dry.dryMatchLength recent start (recent.length - 1))
  longest : 1 ≤ dry.base → ∀ token p, (dry.dryPenalties recent).get? token = some p →
    ∃ start length, dry.Longest recent token start length ∧
      (∀ start' length', dry.Longest recent token start' length' → length' ≤ length) ∧
      p = dry.multiplier * dry.base ^ (length - dry.allowedLength)

/-- The history holds no repeat that ends with a breaker, and none whose exponent overflows. -/
structure Plain (dry : Dry K) (recent : List Nat) : Prop where
  breaker : recent[recent.length - 1]! ∈ dry.breakers → ∀ start < recent.length - 1,
    recent[start + 1]! ∉ dry.breakers → ¬ dry.Spans recent start dry.allowedLength
  exponent : 1 < dry.base → ∀ start < recent.length - 1, recent[start + 1]! ∉ dry.breakers →
    ¬ dry.Spans recent start (dry.allowedLength + 2 ^ 31)

omit [Field K] [LinearOrder K] [IsStrictOrderedRing K] in
theorem repeats_eq_spans (hlast : recent[recent.length - 1]! ∉ dry.breakers) (start : Nat) :
    {l | dry.Repeats recent start l} = {l | dry.Spans recent start l} := by
  ext l
  exact ⟨Repeats.spans, fun h => h.repeats hlast⟩

theorem isSome_iff_hits (h : dry.Usable) (token : Nat) :
    ((dry.dryPenalties recent).get? token).isSome ↔
      ∃ start < recent.length - 1, dry.Hits recent token start := by
  rw [Option.isSome_iff_ne_none, ne_eq, dryPenalties_none_iff h]
  push Not
  exact Iff.rfl

omit [IsStrictOrderedRing K] in
/-- A hit of a plain history is a position that the documentation counts. -/
theorem Plain.longest_of_hits (hplain : dry.Plain recent) (hallowed : 0 < dry.allowedLength)
    {token start : Nat} (hstart : start < recent.length - 1) (h : dry.Hits recent token start) :
    dry.Longest recent token start (dry.dryMatchLength recent start (recent.length - 1)) := by
  obtain ⟨hspans, htoken, hbreaker⟩ := (hits_iff hallowed hstart).mp h
  have hlast : recent[recent.length - 1]! ∉ dry.breakers := by
    intro hmem
    rw [← htoken] at hbreaker
    exact hplain.breaker hmem start hstart hbreaker hspans
  refine ⟨hstart, htoken, h.2.1, ?_⟩
  rw [repeats_eq_spans hlast]
  exact dryMatchLength_isGreatest hstart h.1

omit [Field K] [LinearOrder K] [IsStrictOrderedRing K] in
theorem Longest.hits (hallowed : 0 < dry.allowedLength) {token start length : Nat}
    (h : dry.Longest recent token start length) (hbreaker : token ∉ dry.breakers) :
    dry.Hits recent token start ∧
      length = dry.dryMatchLength recent start (recent.length - 1) := by
  obtain ⟨hstart, htoken, hle, hgreatest⟩ := h
  have hlast := hgreatest.1.last_notMem (hallowed.trans_le hle)
  have hhits := (hits_iff hallowed hstart).mpr ⟨hgreatest.1.spans.mono hle, htoken, hbreaker⟩
  rw [repeats_eq_spans hlast] at hgreatest
  exact ⟨hhits, hgreatest.unique (dryMatchLength_isGreatest hstart hhits.1)⟩

omit [IsStrictOrderedRing K] in
/-- The exponent of a hit is exact in a plain history, or it does not matter. -/
theorem Plain.penalty_eq (hplain : dry.Plain recent)
    (hbase : 1 ≤ dry.base) {token start : Nat} (hstart : start < recent.length - 1)
    (h : dry.Hits recent token start) :
    dry.penalty (dry.dryMatchLength recent start (recent.length - 1)) = dry.multiplier *
      dry.base ^ (dry.dryMatchLength recent start (recent.length - 1) - dry.allowedLength) := by
  rw [penalty]
  rcases hbase.eq_or_lt with hone | hlt
  · rw [← hone, one_zpow, one_pow]
  · have hbound : dry.dryMatchLength recent start (recent.length - 1) - dry.allowedLength <
        2 ^ 31 := by
      by_contra hge
      have hspans := (@dryMatchLength_isGreatest K dry recent start hstart h.1).1
      have hbreaker := h.2.2.2
      rw [← h.2.2.1] at hbreaker
      exact hplain.exponent hlt start hstart hbreaker (hspans.mono (by omega))
    rw [asI32_of_lt hbound, zpow_natCast]

omit [Field K] [LinearOrder K] [IsStrictOrderedRing K] in
/-- Among finitely many positions one has the longest match. -/
theorem exists_longest_hit {token start : Nat} (hstart : start < recent.length - 1)
    (h : dry.Hits recent token start) :
    ∃ best < recent.length - 1, dry.Hits recent token best ∧
      ∀ other < recent.length - 1, dry.Hits recent token other →
        dry.dryMatchLength recent other (recent.length - 1) ≤
          dry.dryMatchLength recent best (recent.length - 1) := by
  classical
  obtain ⟨best, hbest, hmax⟩ := Finset.exists_max_image
    ((Finset.range (recent.length - 1)).filter (dry.Hits recent token))
    (fun start => dry.dryMatchLength recent start (recent.length - 1))
    ⟨start, Finset.mem_filter.mpr ⟨Finset.mem_range.mpr hstart, h⟩⟩
  obtain ⟨hrange, hhits⟩ := Finset.mem_filter.mp hbest
  exact ⟨best, Finset.mem_range.mp hrange, hhits, fun other hother hhit =>
    hmax other (Finset.mem_filter.mpr ⟨Finset.mem_range.mpr hother, hhit⟩)⟩

theorem Plain.documented (h : dry.Usable) (hplain : dry.Plain recent) :
    dry.Documented recent := by
  constructor
  · intro token
    rw [isSome_iff_hits h]
    constructor
    · intro hex
      obtain ⟨start, hstart, hhits⟩ := hex
      have hlongest := hplain.longest_of_hits h.allowedLength hstart hhits
      exact ⟨hhits.2.2.2, start, hstart, hhits.2.2.1, _, hlongest.2.2.1, hlongest.2.2.2.1⟩
    · intro hex
      obtain ⟨hbreaker, start, hstart, htoken, length, hle, hrepeats⟩ := hex
      exact ⟨start, hstart, (hits_iff h.allowedLength hstart).mpr
        ⟨hrepeats.spans.mono hle, htoken, hbreaker⟩⟩
  · intro start hstart length hle hrepeats
    have hpos := h.allowedLength.trans_le hle
    rw [repeats_eq_spans (hrepeats.last_notMem hpos)]
    exact dryMatchLength_isGreatest hstart (hrepeats.2 0 hpos).1
  · intro hbase token p hget
    obtain ⟨⟨start, hmem, hhits, hp⟩, hupper⟩ := dryPenalties_some h hget
    have hstart := List.mem_range.mp hmem
    obtain ⟨best, hbest, hbestHits, hmax⟩ := exists_longest_hit hstart hhits
    refine ⟨best, _, hplain.longest_of_hits h.allowedLength hbest hbestHits, ?_, ?_⟩
    · intro other length hlongest
      obtain ⟨hother, rfl⟩ := hlongest.hits h.allowedLength hhits.2.2.2
      exact hmax other hlongest.1 hother
    · rw [← hplain.penalty_eq hbase hbest hbestHits]
      apply le_antisymm
      · rw [hp, hplain.penalty_eq hbase hstart hhits,
          hplain.penalty_eq hbase hbest hbestHits]
        apply mul_le_mul_of_nonneg_left _ h.multiplier.le
        exact pow_le_pow_right₀ hbase (Nat.sub_le_sub_right (hmax start hstart hhits) _)
      · exact hupper ⟨best, List.mem_range.mpr hbest, hbestHits, rfl⟩

theorem Documented.plain (h : dry.Usable) (hdocumented : dry.Documented recent) :
    dry.Plain recent := by
  have hlast : ∀ start < recent.length - 1, recent[start + 1]! ∉ dry.breakers →
      dry.Spans recent start dry.allowedLength → recent[recent.length - 1]! ∉ dry.breakers := by
    intro start hstart hbreaker hspans
    have hhits := (hits_iff h.allowedLength hstart).mpr ⟨hspans, rfl, hbreaker⟩
    have hsome := (isSome_iff_hits h _).mpr ⟨start, hstart, hhits⟩
    obtain ⟨_, _, _, _, length, hle, hrepeats⟩ := (hdocumented.tokens _).mp hsome
    exact hrepeats.last_notMem (h.allowedLength.trans_le hle)
  constructor
  · intro hmem start hstart hbreaker hspans
    exact hlast start hstart hbreaker hspans hmem
  · intro hbase start hstart hbreaker hspans
    have hshort := hspans.mono (Nat.le_add_right _ _)
    have hhits := (hits_iff h.allowedLength hstart).mpr ⟨hshort, rfl, hbreaker⟩
    obtain ⟨p, hget⟩ := Option.isSome_iff_exists.mp ((isSome_iff_hits h _).mpr ⟨start, hstart, hhits⟩)
    obtain ⟨best, length, hbest, hmax, hp⟩ := hdocumented.longest hbase.le _ p hget
    obtain ⟨⟨other, _, _, hcode⟩, _⟩ := dryPenalties_some h hget
    have hgreatest := @dryMatchLength_isGreatest K dry recent start hstart hhits.1
    have hlong : dry.allowedLength + 2 ^ 31 ≤ length := by
      apply (hgreatest.2 hspans).trans
      apply hmax start
      refine ⟨hstart, rfl, hhits.2.1, ?_⟩
      rw [repeats_eq_spans (hlast start hstart hbreaker hshort)]
      exact hgreatest
    have hexponent : asI32 (dry.dryMatchLength recent other (recent.length - 1) -
        dry.allowedLength) < ((length - dry.allowedLength : Nat) : Int) := by
      have hlt := asI32_lt (dry.dryMatchLength recent other (recent.length - 1) -
        dry.allowedLength)
      omega
    have hless : p < p := calc
      p = dry.multiplier * dry.base ^ asI32 (dry.dryMatchLength recent other
          (recent.length - 1) - dry.allowedLength) := hcode
      _ < dry.multiplier * dry.base ^ ((length - dry.allowedLength : Nat) : Int) :=
        mul_lt_mul_of_pos_left (zpow_lt_zpow_right₀ hbase hexponent) h.multiplier
      _ = p := by rw [zpow_natCast, hp]
    exact lt_irrefl p hless

/-- The penalties are as documented exactly on the plain histories. -/
theorem documented_iff_plain (h : dry.Usable) (recent : List Nat) :
    dry.Documented recent ↔ dry.Plain recent :=
  ⟨fun hdocumented => hdocumented.plain h, fun hplain => hplain.documented h⟩

end Penalties

/-- Two tokens are allowed to repeat, and `9` ends a line. -/
def lines : Dry ℚ where
  multiplier := 1
  base := 2
  allowedLength := 2
  window := 64
  breakers := [9]

theorem documented_iff_plain_lines : lines.Usable ∧
    (lines.Documented [1, 2, 3, 1, 2] ↔ lines.Plain [1, 2, 3, 1, 2]) :=
  ⟨⟨by decide, by decide, by decide⟩,
    documented_iff_plain ⟨by decide, by decide, by decide⟩ [1, 2, 3, 1, 2]⟩

/-- The repeat of `5, 9` spans the line end, and yet `7` is penalized behind it. -/
theorem breaker_at_the_end_is_spanned : ¬ lines.Documented [5, 9, 7, 5, 9] := by
  intro hdocumented
  have hsome : ((lines.dryPenalties [5, 9, 7, 5, 9]).get? 7).isSome := by decide +kernel
  obtain ⟨_, _, _, _, length, hle, hrepeats⟩ := (hdocumented.tokens 7).mp hsome
  exact hrepeats.last_notMem (Nat.lt_of_lt_of_le (by decide) hle) (by decide)

end Dry

end Leone.Sampling

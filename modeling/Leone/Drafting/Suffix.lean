import Mathlib
import Leone.Framework.Method

/-!
# Suffix drafting

Proposes what followed an earlier occurrence of the current suffix. A longer suffix is tried first,
and within one length the most recent occurrence that can supply a full proposal.
-/

namespace Leone.Drafting

open Framework

structure NonZeroUsize where
  get : Nat
  pos : 0 < get
  lt : get < 2 ^ 64

inductive DrafterError
  | matchRange (shortest longest : Nat)
  deriving DecidableEq, Repr

inductive Draft
  | nothing
  | tokens (tokens : List Nat)
  deriving DecidableEq, Repr

/-- Proposes tokens by matching the current suffix against earlier context. -/
structure SuffixDrafter where
  longestMatch : NonZeroUsize
  shortestMatch : NonZeroUsize
  proposal : NonZeroUsize
  shortest_le_longest : shortestMatch.get ≤ longestMatch.get

def SuffixDrafter.new (longestMatch shortestMatch proposal : NonZeroUsize) :
    Except DrafterError SuffixDrafter :=
  if h : shortestMatch.get ≤ longestMatch.get then
    .ok ⟨longestMatch, shortestMatch, proposal, h⟩
  else .error (.matchRange shortestMatch.get longestMatch.get)

/-- The part of a slice between two positions. Out of order or out of range, the access panics. -/
def slice (context : List Nat) (start stop : Nat) : Option (List Nat) :=
  if start ≤ stop ∧ stop ≤ context.length then some ((context.drop start).take (stop - start))
  else none

/-- The scan for the current suffix at the positions below `start`, from the last one down, with the
proposal that was found so far. `none` is a panic. -/
def scan (context : List Nat) (length wanted : Nat) :
    Nat → Option (List Nat) → Option (Option (List Nat))
  | 0, fallback => some fallback
  | start + 1, fallback =>
    if (context.drop start).take length ≠ context.drop (context.length - length) then
      scan context length wanted start fallback
    else
      let follow := start + length
      let stop := min (wrappingAdd 64 follow wanted) context.length
      match slice context follow stop with
      | none => none
      | some proposal =>
        if proposal.length = wanted then some (some proposal)
        else scan context length wanted start (some (fallback.getD proposal))

def search (context : List Nat) (wanted : Nat) : List Nat → Option Draft
  | [] => some .nothing
  | length :: lengths =>
    match scan context length wanted (context.length - length) none with
    | none => none
    | some (some proposal) => some (.tokens proposal)
    | some none => search context wanted lengths

/-- The tokens that followed an earlier occurrence of the current suffix. `none` is a panic. -/
def SuffixDrafter.draft (drafter : SuffixDrafter) (context : List Nat) : Option Draft :=
  let longest := min drafter.longestMatch.get context.length
  let shortest := drafter.shortestMatch.get
  search context drafter.proposal.get (List.range' shortest (longest + 1 - shortest)).reverse

/-! ## What the scan finds -/

/-- The current suffix of some length occurs at an earlier position. -/
def OccursAt (context : List Nat) (length start : Nat) : Prop :=
  start < context.length - length ∧
    (context.drop start).take length = context.drop (context.length - length)

instance (context : List Nat) (length start : Nat) : Decidable (OccursAt context length start) :=
  inferInstanceAs (Decidable (_ ∧ _))

/-- At most `wanted` of the tokens behind an occurrence. -/
def continuation (context : List Nat) (length wanted start : Nat) : List Nat :=
  (context.drop (start + length)).take wanted

section Scan

variable {context : List Nat} {length wanted : Nat}

theorem length_continuation (start : Nat) : (continuation context length wanted start).length =
    min wanted (context.length - (start + length)) := by
  rw [continuation, List.length_take, List.length_drop]

theorem continuation_isInfix (start : Nat) : continuation context length wanted start <:+: context :=
  (List.take_prefix wanted _).isInfix.trans (List.drop_suffix _ context).isInfix

theorem continuation_pos {start : Nat} (h : OccursAt context length start) (hwanted : 0 < wanted) :
    0 < (continuation context length wanted start).length := by
  have hstart := h.1
  rw [length_continuation]
  omega

/-- Without an overflow the slice behind an occurrence is its continuation. -/
theorem slice_continuation {start : Nat} (h : OccursAt context length start)
    (hfits : start + length + wanted < 2 ^ 64) :
    slice context (start + length)
      (min (wrappingAdd 64 (start + length) wanted) context.length) =
        some (continuation context length wanted start) := by
  have hstart := h.1
  rw [wrappingAdd_of_lt hfits, slice, if_pos (by omega), continuation]
  congr 1
  rw [List.take_eq_take_iff, List.length_drop]
  omega

/-- With an overflow the access behind an occurrence is out of order. -/
theorem slice_overflow {start : Nat} (hwanted : wanted < 2 ^ 64)
    (hover : 2 ^ 64 ≤ start + length + wanted) :
    slice context (start + length)
      (min (wrappingAdd 64 (start + length) wanted) context.length) = none := by
  have hwrapped : wrappingAdd 64 (start + length) wanted < start + length := by
    rw [wrappingAdd]
    omega
  rw [slice, if_neg]
  omega

/-- The positions that a scan passes behind `start` hold nothing that satisfies `P`. -/
def LastBelow (P : Nat → Prop) (bound start : Nat) : Prop :=
  start < bound ∧ P start ∧ ∀ later, start < later → later < bound → ¬ P later

theorem none_below_succ {P : Nat → Prop} {bound : Nat} (hnone : ∀ start < bound, ¬ P start)
    (hbound : ¬ P bound) : ∀ start < bound + 1, ¬ P start := by
  intro start hstart
  rcases Nat.lt_succ_iff_lt_or_eq.mp hstart with hlt | heq
  · exact hnone start hlt
  · rw [heq]
    exact hbound

theorem LastBelow.skip {P : Nat → Prop} {bound start : Nat} (h : LastBelow P bound start)
    (hskip : ¬ P bound) : LastBelow P (bound + 1) start := by
  refine ⟨h.1.trans (Nat.lt_succ_self bound), h.2.1, fun later hlater hbound => ?_⟩
  rcases Nat.lt_succ_iff_lt_or_eq.mp hbound with hlt | heq
  · exact h.2.2 later hlater hlt
  · rw [heq]
    exact hskip

theorem lastBelow_self {P : Nat → Prop} {bound : Nat} (h : P bound) :
    LastBelow P (bound + 1) bound :=
  ⟨Nat.lt_succ_self bound, h, fun _ hlater hbound => absurd hbound (by omega)⟩

theorem LastBelow.unique {P : Nat → Prop} {bound start start' : Nat} (h : LastBelow P bound start)
    (h' : LastBelow P bound start') : start = start' := by
  by_contra hne
  rcases Nat.lt_or_gt_of_ne hne with hlt | hlt
  · exact h.2.2 start' hlt h'.1 h'.2.1
  · exact h'.2.2 start hlt h.1 h.2.1

theorem exists_lastBelow {P : Nat → Prop} (bound : Nat) :
    (∀ start < bound, ¬ P start) ∨ ∃ start, LastBelow P bound start := by
  induction bound with
  | zero => exact .inl fun start hstart => absurd hstart (Nat.not_lt_zero start)
  | succ bound ih =>
    by_cases h : P bound
    · exact .inr ⟨bound, lastBelow_self h⟩
    · rcases ih with hnone | ⟨start, hlast⟩
      · exact .inl (none_below_succ hnone h)
      · exact .inr ⟨start, hlast.skip h⟩

/-- The suffix occurs, and what follows fills a proposal. -/
def FullAt (context : List Nat) (length wanted start : Nat) : Prop :=
  OccursAt context length start ∧ (continuation context length wanted start).length = wanted

theorem scan_skip {bound : Nat} {fallback : Option (List Nat)}
    (hbound : bound < context.length - length) (h : ¬ OccursAt context length bound) :
    scan context length wanted (bound + 1) fallback = scan context length wanted bound fallback := by
  rw [scan, if_pos]
  exact fun heq => h ⟨hbound, heq⟩

/-- A scan without overflows finds the last full continuation, or else keeps the first proposal. -/
theorem scan_eq {bound : Nat} (hbound : bound ≤ context.length - length)
    (hfits : ∀ start < bound, OccursAt context length start → start + length + wanted < 2 ^ 64)
    (fallback : Option (List Nat)) :
    (∃ start, LastBelow (FullAt context length wanted) bound start ∧
      scan context length wanted bound fallback =
        some (some (continuation context length wanted start))) ∨
    (∀ start < bound, ¬ FullAt context length wanted start) ∧
      ((∀ start < bound, ¬ OccursAt context length start) ∧
        scan context length wanted bound fallback = some fallback ∨
      ∃ start, LastBelow (OccursAt context length) bound start ∧
        scan context length wanted bound fallback =
          some (some (fallback.getD (continuation context length wanted start)))) := by
  induction bound generalizing fallback with
  | zero => exact .inr ⟨nofun, .inl ⟨nofun, rfl⟩⟩
  | succ bound ih =>
    have hstep (fallback : Option (List Nat)) := ih (by omega)
      (fun start hstart => hfits start (Nat.lt_succ_of_lt hstart)) fallback
    by_cases hoccurs : OccursAt context length bound
    · have hslice := slice_continuation hoccurs (hfits bound (Nat.lt_succ_self bound) hoccurs)
      have hscan : scan context length wanted (bound + 1) fallback =
          if (continuation context length wanted bound).length = wanted then
            some (some (continuation context length wanted bound))
          else scan context length wanted bound
            (some (fallback.getD (continuation context length wanted bound))) := by
        rw [scan, if_neg (not_not.mpr hoccurs.2)]
        simp only [hslice]
      by_cases hfull : (continuation context length wanted bound).length = wanted
      · rw [hscan, if_pos hfull]
        exact .inl ⟨bound, lastBelow_self ⟨hoccurs, hfull⟩, rfl⟩
      · rw [hscan, if_neg hfull]
        have hnot : ¬ FullAt context length wanted bound := fun h => hfull h.2
        rcases hstep _ with ⟨start, hlast, heq⟩ | ⟨hnone, hrest⟩
        · exact .inl ⟨start, hlast.skip hnot, heq⟩
        · refine .inr ⟨none_below_succ hnone hnot, .inr ⟨bound, lastBelow_self hoccurs, ?_⟩⟩
          rcases hrest with ⟨_, heq⟩ | ⟨start, _, heq⟩
          · exact heq
          · rw [heq]
            rfl
    · rw [scan_skip (by omega) hoccurs]
      have hnot : ¬ FullAt context length wanted bound := fun h => hoccurs h.1
      rcases hstep fallback with ⟨start, hlast, heq⟩ | ⟨hnone, hrest⟩
      · exact .inl ⟨start, hlast.skip hnot, heq⟩
      · refine .inr ⟨none_below_succ hnone hnot, ?_⟩
        rcases hrest with ⟨habsent, heq⟩ | ⟨start, hlast, heq⟩
        · exact .inl ⟨none_below_succ habsent hoccurs, heq⟩
        · exact .inr ⟨start, hlast.skip hoccurs, heq⟩

/-- A scan panics at an occurrence whose full proposal has no end. -/
theorem scan_overflow {bound start : Nat} (hbound : bound ≤ context.length - length)
    (hlast : LastBelow (OccursAt context length) bound start) (hwanted : wanted < 2 ^ 64)
    (hover : 2 ^ 64 ≤ start + length + wanted) (fallback : Option (List Nat)) :
    scan context length wanted bound fallback = none := by
  induction bound with
  | zero => exact absurd hlast.1 (Nat.not_lt_zero start)
  | succ bound ih =>
    obtain ⟨hstart, hoccurs, hlater⟩ := hlast
    rcases Nat.lt_succ_iff_lt_or_eq.mp hstart with hlt | heq
    · rw [scan_skip (by omega) (hlater bound hlt (Nat.lt_succ_self bound))]
      apply ih (by omega)
      exact ⟨hlt, hoccurs, fun later h h' => hlater later h (Nat.lt_succ_of_lt h')⟩
    · subst heq
      rw [scan, if_neg (not_not.mpr hoccurs.2)]
      simp only [slice_overflow hwanted hover]

/-- The last position with a property. -/
def Latest (P : Nat → Prop) (start : Nat) : Prop := P start ∧ ∀ later, start < later → ¬ P later

theorem latest_iff {P : Nat → Prop} {bound start : Nat} (hP : ∀ start, P start → start < bound) :
    LastBelow P bound start ↔ Latest P start := by
  constructor
  · intro h
    exact ⟨h.2.1, fun later hlater hlaterP => h.2.2 later hlater (hP later hlaterP) hlaterP⟩
  · intro h
    exact ⟨hP start h.1, h.1, fun later hlater _ => h.2 later hlater⟩

theorem scan_absent (h : ∀ start, ¬ OccursAt context length start) :
    scan context length wanted (context.length - length) none = some none := by
  rcases scan_eq le_rfl (fun start _ hoccurs => absurd hoccurs (h start)) none with
    ⟨start, hlast, _⟩ | ⟨_, ⟨_, heq⟩ | ⟨start, hlast, _⟩⟩
  · exact absurd hlast.2.1.1 (h start)
  · exact heq
  · exact absurd hlast.2.1 (h start)

/-- The search passes the lengths without an occurrence. -/
theorem search_cases (lengths : List Nat) :
    (∀ length ∈ lengths, ∀ start, ¬ OccursAt context length start) ∧
      search context wanted lengths = some .nothing ∨
    ∃ longer length shorter, lengths = longer ++ length :: shorter ∧
      (∀ other ∈ longer, ∀ start, ¬ OccursAt context other start) ∧
      (∃ start, OccursAt context length start) ∧
      search context wanted lengths = search context wanted (length :: shorter) := by
  induction lengths with
  | nil => exact .inl ⟨nofun, rfl⟩
  | cons length lengths ih =>
    by_cases hoccurs : ∃ start, OccursAt context length start
    · exact .inr ⟨[], length, lengths, rfl, nofun, hoccurs, rfl⟩
    · have habsent : ∀ start, ¬ OccursAt context length start := not_exists.mp hoccurs
      have hsearch : search context wanted (length :: lengths) = search context wanted lengths := by
        rw [search, scan_absent habsent]
      rw [hsearch]
      rcases ih with ⟨hnone, heq⟩ | ⟨longer, next, shorter, hsplit, hlonger, hrest⟩
      · exact .inl ⟨List.forall_mem_cons.mpr ⟨habsent, hnone⟩, heq⟩
      · refine .inr ⟨length :: longer, next, shorter, by rw [hsplit]; rfl, ?_, hrest⟩
        exact List.forall_mem_cons.mpr ⟨habsent, hlonger⟩

end Scan

/-! ## The documented proposal -/

namespace SuffixDrafter

variable (drafter : SuffixDrafter) (context : List Nat)

/-- The drafter tries suffixes of this length. -/
def Tries (length : Nat) : Prop :=
  drafter.shortestMatch.get ≤ length ∧ length ≤ min drafter.longestMatch.get context.length

def NoRepeat : Prop :=
  ∀ length, drafter.Tries context length → ∀ start, ¬ OccursAt context length start

/-- The longest suffix that occurs earlier. -/
structure LongestRepeat (length : Nat) : Prop where
  tried : drafter.Tries context length
  occurs : ∃ start, OccursAt context length start
  longest : ∀ longer, length < longer → drafter.Tries context longer →
    ∀ start, ¬ OccursAt context longer start

/-- Nothing without a repeat. Else what followed the longest one, at its most recent occurrence that
supplies a full proposal, or at its most recent occurrence if none does. -/
def Documented : Draft → Prop
  | .nothing => drafter.NoRepeat context
  | .tokens tokens => ∃ length start, drafter.LongestRepeat context length ∧
    tokens = continuation context length drafter.proposal.get start ∧
    (Latest (FullAt context length drafter.proposal.get) start ∨
      (∀ other, ¬ FullAt context length drafter.proposal.get other) ∧
        Latest (OccursAt context length) start)

/-- The drafter answers as documented. -/
def Answers : Prop :=
  ∃ result, drafter.draft context = some result ∧
    (result = .nothing ↔ drafter.NoRepeat context) ∧ drafter.Documented context result ∧
    ∀ tokens, result = .tokens tokens →
      tokens <:+: context ∧ 1 ≤ tokens.length ∧ tokens.length ≤ drafter.proposal.get

/-- A full proposal behind the most recent occurrence of the longest repeat ends below `2 ^ 64`. -/
def Fits : Prop :=
  ∀ length start, drafter.LongestRepeat context length → Latest (OccursAt context length) start →
    start + length + drafter.proposal.get < 2 ^ 64

variable {drafter context}

theorem mem_lengths {length : Nat} :
    length ∈ (List.range' drafter.shortestMatch.get
      (min drafter.longestMatch.get context.length + 1 - drafter.shortestMatch.get)).reverse ↔
      drafter.Tries context length := by
  rw [List.mem_reverse, List.mem_range'_1, Tries]
  omega

/-- The drafter searches from the longest repeat on, or finds none. -/
theorem draft_cases (drafter : SuffixDrafter) (context : List Nat) :
    drafter.NoRepeat context ∧ drafter.draft context = some .nothing ∨
    ∃ length shorter, drafter.LongestRepeat context length ∧
      drafter.draft context = search context drafter.proposal.get (length :: shorter) := by
  rcases search_cases (List.range' drafter.shortestMatch.get
    (min drafter.longestMatch.get context.length + 1 - drafter.shortestMatch.get)).reverse with
    ⟨hnone, heq⟩ | ⟨longer, length, shorter, hsplit, hlonger, hoccurs, heq⟩
  · exact .inl ⟨fun length htried => hnone length (mem_lengths.mpr htried), heq⟩
  · right
    refine ⟨length, shorter, ⟨?_, hoccurs, fun other hother htried => ?_⟩, heq⟩
    · rw [← mem_lengths, hsplit]
      exact List.mem_append_right longer List.mem_cons_self
    · apply hlonger
      have hmem := mem_lengths.mpr htried
      have hsorted : (longer ++ length :: shorter).Pairwise (· > ·) := by
        rw [← hsplit, List.pairwise_reverse]
        exact List.pairwise_lt_range'
      rw [hsplit, List.mem_append, List.mem_cons] at hmem
      rcases hmem with hmem | heq | hmem
      · exact hmem
      · omega
      · have hlt := List.rel_of_pairwise_cons (List.pairwise_append.mp hsorted).2.1 hmem
        omega

theorem LongestRepeat.unique {length length' : Nat} (h : drafter.LongestRepeat context length)
    (h' : drafter.LongestRepeat context length') : length = length' := by
  by_contra hne
  rcases Nat.lt_or_gt_of_ne hne with hlt | hlt
  · exact absurd h'.occurs (not_exists.mpr (h.longest length' hlt h'.tried))
  · exact absurd h.occurs (not_exists.mpr (h'.longest length hlt h.tried))

theorem occursAt_lt {length start : Nat} (h : OccursAt context length start) :
    start < context.length - length := h.1

/-- The search at the longest repeat finds the documented proposal. -/
theorem search_documented {length shorter} (h : drafter.LongestRepeat context length)
    (hfits : drafter.Fits context) :
    ∃ start, search context drafter.proposal.get (length :: shorter) =
        some (.tokens (continuation context length drafter.proposal.get start)) ∧
      OccursAt context length start ∧
      (Latest (FullAt context length drafter.proposal.get) start ∨
        (∀ other, ¬ FullAt context length drafter.proposal.get other) ∧
          Latest (OccursAt context length) start) := by
  have hbelow : ∀ start < context.length - length, OccursAt context length start →
      start + length + drafter.proposal.get < 2 ^ 64 := by
    intro start hstart hoccurs
    rcases exists_lastBelow (P := OccursAt context length) (context.length - length) with
      hnone | ⟨last, hlast⟩
    · exact absurd hoccurs (hnone start hstart)
    · have hlimit := hfits length last h ((latest_iff fun _ => occursAt_lt).mp hlast)
      have hle : start ≤ last := by
        by_contra hgt
        exact hlast.2.2 start (not_le.mp hgt) hstart hoccurs
      omega
  rcases scan_eq le_rfl hbelow none with ⟨start, hlast, heq⟩ | ⟨hnone, ⟨habsent, _⟩ |
    ⟨start, hlast, heq⟩⟩
  · refine ⟨start, by rw [search, heq], hlast.2.1.1, .inl ?_⟩
    exact (latest_iff fun _ hfull => occursAt_lt hfull.1).mp hlast
  · obtain ⟨start, hoccurs⟩ := h.occurs
    exact absurd hoccurs (habsent start hoccurs.1)
  · refine ⟨start, by rw [search, heq]; rfl, hlast.2.1, .inr ⟨fun other hfull => ?_, ?_⟩⟩
    · exact hnone other hfull.1.1 hfull
    · exact (latest_iff fun _ => occursAt_lt).mp hlast

/-- The drafter answers as documented exactly where a full proposal behind the most recent
occurrence has an end position. -/
theorem answers_iff_fits (drafter : SuffixDrafter) (context : List Nat) :
    drafter.Answers context ↔ drafter.Fits context := by
  rcases draft_cases drafter context with ⟨hnone, hdraft⟩ | ⟨length, shorter, hlongest, hdraft⟩
  · constructor
    · intro _ length start hlongest hlatest
      exact absurd hlatest.1 (hnone length hlongest.tried start)
    · intro _
      exact ⟨.nothing, hdraft, iff_of_true rfl hnone, hnone, nofun⟩
  · constructor
    · intro hanswers length' start hlongest' hlatest
      obtain rfl := hlongest.unique hlongest'
      by_contra hover
      obtain ⟨result, hresult, _⟩ := hanswers
      have hlast := (latest_iff fun _ => occursAt_lt).mpr hlatest
      rw [hdraft, search, scan_overflow le_rfl hlast drafter.proposal.lt (not_lt.mp hover)] at hresult
      cases hresult
    · intro hfits
      obtain ⟨start, hsearch, hoccurs, hchoice⟩ :=
        @search_documented drafter context length shorter hlongest hfits
      refine ⟨_, hdraft.trans hsearch, iff_of_false nofun fun hnone => ?_,
        ⟨length, start, hlongest, rfl, hchoice⟩, fun tokens htokens => ?_⟩
      · exact hnone length hlongest.tried start hoccurs
      · cases htokens
        refine ⟨continuation_isInfix start, continuation_pos hoccurs drafter.proposal.pos, ?_⟩
        rw [length_continuation]
        exact Nat.min_le_left _ _

/-- A drafter whose proposals have no bound. -/
def unbounded : SuffixDrafter where
  longestMatch := ⟨16, by decide, by decide⟩
  shortestMatch := ⟨1, Nat.one_pos, one_lt_u64⟩
  proposal := ⟨2 ^ 64 - 1, by decide, by decide⟩
  shortest_le_longest := by decide

theorem unbounded_repeat_panics : ¬ unbounded.Answers [7, 7] := by
  intro hanswers
  obtain ⟨result, hresult, _⟩ := hanswers
  have hpanic : unbounded.draft [7, 7] = none := by decide +kernel
  rw [hpanic] at hresult
  cases hresult

end SuffixDrafter

end Leone.Drafting

import Mathlib
import Leone.Text.Merge

/-!
# The greedy merge of a word

The plain algorithm merges the adjacent pair of least rank, leftmost among equals, until no
adjacent pair has a rank. The queue follows it: each ranked pair of live neighbours has an entry,
and an entry that is out of date is never applied. Nothing depends on which of several equal
entries leaves the queue first.
-/

namespace Leone.Text

open Framework

variable (merges : HashMap (String × String) Nat)

/-! ## The plain algorithm -/

/-- The least rank of an adjacent pair, with the leftmost position that has it. -/
def bestPair : List String → Option (Nat × Nat)
  | first :: second :: rest =>
    match merges (first, second), bestPair (second :: rest) with
    | none, later => later.map fun best => (best.1, best.2 + 1)
    | some rank, none => some (rank, 0)
    | some rank, some best => if rank ≤ best.1 then some (rank, 0) else some (best.1, best.2 + 1)
  | _ => none

/-- Merge the pair at a position. -/
def mergeAt : Nat → List String → List String
  | 0, first :: second :: rest => (first ++ second) :: rest
  | position + 1, first :: rest => first :: mergeAt position rest
  | _, symbols => symbols

variable {merges}

theorem bestPair_mem {symbols : List String} {rank position : Nat}
    (h : bestPair merges symbols = some (rank, position)) :
    ∃ before first second after, symbols = before ++ first :: second :: after ∧
      before.length = position ∧ merges (first, second) = some rank := by
  induction symbols generalizing position with
  | nil => cases h
  | cons first symbols ih =>
    cases symbols with
    | nil => cases h
    | cons second rest =>
      have hlater (position' : Nat) (h' : bestPair merges (second :: rest) = some (rank, position'))
          (hposition : position' + 1 = position) :
          ∃ before a b after, first :: second :: rest = before ++ a :: b :: after ∧
            before.length = position ∧ merges (a, b) = some rank := by
        obtain ⟨before, a, b, after, hsplit, hlength, hrank⟩ := ih h'
        exact ⟨first :: before, a, b, after, by rw [hsplit]; rfl, by simp [hlength, hposition],
          hrank⟩
      rw [bestPair] at h
      cases hfirst : merges (first, second) with
      | none =>
        simp only [hfirst, Option.map_eq_some_iff, Prod.mk.injEq] at h
        obtain ⟨best, hbest, rfl, rfl⟩ := h
        exact hlater best.2 hbest rfl
      | some rank' =>
        cases hbest : bestPair merges (second :: rest) with
        | none =>
          simp only [hfirst, hbest, Option.some.injEq, Prod.mk.injEq] at h
          exact ⟨[], first, second, rest, rfl, h.2, by rw [hfirst, h.1]⟩
        | some best =>
          simp only [hfirst, hbest] at h
          split_ifs at h with hle
          · simp only [Option.some.injEq, Prod.mk.injEq] at h
            exact ⟨[], first, second, rest, rfl, h.2, by rw [hfirst, h.1]⟩
          · simp only [Option.some.injEq, Prod.mk.injEq] at h
            exact hlater best.2 (by rw [hbest, ← h.1]) h.2

theorem bestPair_split {first second : String} {rank : Nat} {before after : List String}
    (h : merges (first, second) = some rank)
    (hbefore : ∀ front a b back rank', before ++ [first] = front ++ a :: b :: back →
      merges (a, b) = some rank' → rank < rank')
    (hafter : ∀ front a b back rank', second :: after = front ++ a :: b :: back →
      merges (a, b) = some rank' → rank ≤ rank') :
    bestPair merges (before ++ first :: second :: after) = some (rank, before.length) := by
  induction before with
  | nil =>
    rw [List.nil_append, bestPair, h]
    cases hbest : bestPair merges (second :: after) with
    | none => rfl
    | some best =>
      obtain ⟨front, a, b, back, hsplit, -, hrank⟩ := bestPair_mem hbest
      simp only [if_pos (hafter front a b back best.1 hsplit hrank), List.length_nil]
  | cons head before ih =>
    have hrest := ih fun front a b back rank' hsplit =>
      hbefore (head :: front) a b back rank' (by rw [List.cons_append, hsplit]; rfl)
    obtain ⟨next, tail, htail⟩ : ∃ next tail,
        before ++ first :: second :: after = next :: tail := by
      cases before <;> exact ⟨_, _, rfl⟩
    obtain ⟨middle, hmiddle⟩ : ∃ middle, before ++ [first] = next :: middle := by
      cases before with
      | nil => exact ⟨[], by cases htail; rfl⟩
      | cons x xs => exact ⟨xs ++ [first], by cases htail; rfl⟩
    rw [List.cons_append, htail, bestPair, ← htail, hrest]
    cases hhead : merges (head, next) with
    | none => rfl
    | some rank' =>
      have hlt := hbefore [] head next middle rank' (by rw [List.cons_append, hmiddle]; rfl) hhead
      simp only [if_neg (not_le.mpr hlt), List.length_cons]

theorem mergeAt_split (before after : List String) (first second : String) :
    mergeAt before.length (before ++ first :: second :: after) =
      before ++ (first ++ second) :: after := by
  induction before with
  | nil => rfl
  | cons head before ih => exact congrArg (head :: ·) ih

/-- The greedy merge: apply the best pair until no adjacent pair has a rank. -/
def greedyMerge (merges : HashMap (String × String) Nat) (symbols : List String) : List String :=
  match _h : bestPair merges symbols with
  | none => symbols
  | some best => greedyMerge merges (mergeAt best.2 symbols)
termination_by symbols.length
decreasing_by
  obtain ⟨before, first, second, after, rfl, hlength, -⟩ := bestPair_mem _h
  rw [← hlength, mergeAt_split]
  simp

theorem greedyMerge_none {symbols : List String} (h : bestPair merges symbols = none) :
    greedyMerge merges symbols = symbols := by
  rw [greedyMerge]
  split <;> simp_all

theorem greedyMerge_some {symbols : List String} {best : Nat × Nat}
    (h : bestPair merges symbols = some best) :
    greedyMerge merges symbols = greedyMerge merges (mergeAt best.2 symbols) := by
  rw [greedyMerge]
  split <;> simp_all

/-! ## Live neighbours -/

variable {n : Nat}

/-- Two live symbols with no live symbol between them. -/
structure Neighbours (symbols : Vector (Symbol n) n) (i j : Fin n) : Prop where
  lt : i < j
  left : (symbols.get i).live
  right : (symbols.get j).live
  between : ∀ k, i < k → k < j → ¬ (symbols.get k).live

theorem Neighbours.right_unique {symbols : Vector (Symbol n) n} {i j j' : Fin n}
    (h : Neighbours symbols i j) (h' : Neighbours symbols i j') : j = j' := by
  rcases lt_trichotomy j j' with hlt | heq | hgt
  · exact absurd h.right (h'.between j h.lt hlt)
  · exact heq
  · exact absurd h'.right (h.between j' h'.lt hgt)

theorem Neighbours.left_unique {symbols : Vector (Symbol n) n} {i i' j : Fin n}
    (h : Neighbours symbols i j) (h' : Neighbours symbols i' j) : i = i' := by
  rcases lt_trichotomy i i' with hlt | heq | hgt
  · exact absurd h'.left (h.between i' hlt h'.lt)
  · exact heq
  · exact absurd h.left (h'.between i hgt h.lt)

/-- The links of the live symbols are exactly their live neighbours. -/
structure Threaded (symbols : Vector (Symbol n) n) : Prop where
  next : ∀ i, (symbols.get i).live → ∀ j, (symbols.get i).next = some j ↔ Neighbours symbols i j
  previous : ∀ j, (symbols.get j).live → ∀ i,
    (symbols.get j).previous = some i ↔ Neighbours symbols i j

theorem previous_joinSymbols (symbols : Vector (Symbol n) n) {left right : Fin n}
    (hne : left ≠ right) (i : Fin n) :
    ((joinSymbols symbols left right).get i).previous =
      if (symbols.get right).next = some i then some left else (symbols.get i).previous := by
  simp only [joinSymbols, getElem_relink, getElem_update, if_neg hne.symm, if_true]
  congr 1
  split_ifs <;> rfl

section Join

variable {symbols : Vector (Symbol n) n} {left right : Fin n}

theorem live_joinSymbols {i : Fin n} :
    ((joinSymbols symbols left right).get i).live ↔ (symbols.get i).live ∧ i ≠ right := by
  rw [(getElem_joinSymbols symbols left right i).2.1, Bool.and_eq_true, decide_eq_true_eq]

theorem neighbours_join_left (h : Neighbours symbols left right) {j : Fin n} :
    Neighbours (joinSymbols symbols left right) left j ↔ Neighbours symbols right j := by
  constructor
  · intro hj
    have hlive := live_joinSymbols.mp hj.right
    have hlt : right < j := by
      by_contra hle
      exact h.between j hj.lt (lt_of_le_of_ne (not_lt.mp hle) hlive.2) hlive.1
    refine ⟨hlt, h.right, hlive.1, fun k hk hkj hklive => ?_⟩
    exact hj.between k (h.lt.trans hk) hkj (live_joinSymbols.mpr ⟨hklive, hk.ne'⟩)
  · intro hj
    refine ⟨h.lt.trans hj.lt, live_joinSymbols.mpr ⟨h.left, h.lt.ne⟩,
      live_joinSymbols.mpr ⟨hj.right, hj.lt.ne'⟩, fun k hk hkj hklive => ?_⟩
    obtain ⟨hklive, hne⟩ := live_joinSymbols.mp hklive
    rcases lt_or_gt_of_ne hne with hlow | hhigh
    · exact h.between k hk hlow hklive
    · exact hj.between k hhigh hkj hklive

theorem neighbours_join_other (h : Neighbours symbols left right) {i j : Fin n} (hi : i ≠ left)
    (hi' : i ≠ right) :
    Neighbours (joinSymbols symbols left right) i j ↔ Neighbours symbols i j := by
  constructor
  · intro hj
    have hlive := live_joinSymbols.mp hj.left
    refine ⟨hj.lt, hlive.1, (live_joinSymbols.mp hj.right).1, fun k hk hkj hklive => ?_⟩
    by_cases hkright : k = right
    · -- then the left symbol of the merge is between as well
      subst hkright
      rcases lt_or_gt_of_ne hi with hlow | hhigh
      · exact hj.between left hlow (h.lt.trans hkj) (live_joinSymbols.mpr ⟨h.left, h.lt.ne⟩)
      · exact h.between i hhigh hk hlive.1
    · exact hj.between k hk hkj (live_joinSymbols.mpr ⟨hklive, hkright⟩)
  · intro hj
    have hne : j ≠ right := by
      rintro rfl
      exact hi (hj.left_unique h)
    refine ⟨hj.lt, live_joinSymbols.mpr ⟨hj.left, hi'⟩, live_joinSymbols.mpr ⟨hj.right, hne⟩,
      fun k hk hkj hklive => ?_⟩
    exact hj.between k hk hkj (live_joinSymbols.mp hklive).1

theorem Threaded.join (h : Threaded symbols) (hpair : Neighbours symbols left right) :
    Threaded (joinSymbols symbols left right) := by
  constructor
  · intro i hi j
    obtain ⟨hlive, hne⟩ := live_joinSymbols.mp hi
    rw [(getElem_joinSymbols symbols left right i).2.2]
    by_cases hleft : i = left
    · subst hleft
      rw [if_pos rfl, neighbours_join_left hpair]
      exact h.next right hpair.right j
    · rw [if_neg hleft, neighbours_join_other hpair hleft hne]
      exact h.next i hlive j
  · intro j hj i
    obtain ⟨hlive, hne⟩ := live_joinSymbols.mp hj
    rw [previous_joinSymbols symbols hpair.lt.ne]
    by_cases hafter : (symbols.get right).next = some j
    · have hj' := (neighbours_join_left hpair).mpr ((h.next right hpair.right j).mp hafter)
      rw [if_pos hafter, Option.some.injEq]
      constructor
      · rintro rfl
        exact hj'
      · exact fun hi => hj'.left_unique hi
    · rw [if_neg hafter, h.previous j hlive]
      have hnot : ¬ Neighbours symbols right j := fun hr =>
        hafter ((h.next right hpair.right j).mpr hr)
      by_cases hleft : i = left
      · subst hleft
        rw [neighbours_join_left hpair]
        exact ⟨fun hi => absurd (hi.right_unique hpair) hne, fun hi => absurd hi hnot⟩
      · by_cases hright : i = right
        · subst hright
          exact ⟨fun hi => absurd hi hnot, fun hi => absurd rfl (live_joinSymbols.mp hi.left).2⟩
        · rw [neighbours_join_other hpair hleft hright]

end Join

/-- The live positions in order. -/
def lives (symbols : Vector (Symbol n) n) : List (Fin n) :=
  (List.finRange n).filter fun i => (symbols.get i).live

/-- The texts of the live symbols in order. -/
def liveTexts (symbols : Vector (Symbol n) n) : List String :=
  (symbols.toList.filter Symbol.live).map Symbol.text

theorem mem_lives {symbols : Vector (Symbol n) n} {i : Fin n} :
    i ∈ lives symbols ↔ (symbols.get i).live := by
  simp [lives, List.mem_finRange]

theorem liveTexts_eq (symbols : Vector (Symbol n) n) :
    liveTexts symbols = (lives symbols).map fun i => (symbols.get i).text := by
  have htoList : symbols.toList = (List.finRange n).map symbols.get := by
    apply List.ext_getElem <;> simp [Vector.get_eq_getElem]
  rw [liveTexts, htoList, List.filter_map, List.map_map]
  rfl

theorem lives_sorted (symbols : Vector (Symbol n) n) : (lives symbols).Pairwise (· < ·) :=
  (List.pairwise_lt_finRange n).filter _

/-- Adjacent live positions are neighbours. -/
theorem neighbours_of_split {symbols : Vector (Symbol n) n} {before after : List (Fin n)}
    {i j : Fin n} (h : lives symbols = before ++ i :: j :: after) : Neighbours symbols i j := by
  have hsorted := lives_sorted symbols
  rw [h, List.pairwise_append, List.pairwise_cons, List.pairwise_cons] at hsorted
  obtain ⟨-, ⟨hi, hj, -⟩, hbefore⟩ := hsorted
  have hmem (k : Fin n) : (symbols.get k).live ↔ k ∈ before ++ i :: j :: after := by
    rw [← h, mem_lives]
  refine ⟨hi j List.mem_cons_self, (hmem i).mpr (by simp), (hmem j).mpr (by simp),
    fun k hik hkj hlive => ?_⟩
  rcases List.mem_append.mp ((hmem k).mp hlive) with hk | hk
  · exact absurd (hbefore k hk i List.mem_cons_self) (not_lt.mpr hik.le)
  · rcases List.mem_cons.mp hk with rfl | hk
    · exact absurd hik (lt_irrefl k)
    · rcases List.mem_cons.mp hk with rfl | hk
      · exact absurd hkj (lt_irrefl k)
      · exact absurd (hj k hk) (not_lt.mpr hkj.le)

theorem Neighbours.split {symbols : Vector (Symbol n) n} {i j : Fin n}
    (h : Neighbours symbols i j) :
    ∃ before after, lives symbols = before ++ i :: j :: after := by
  obtain ⟨before, between, after, hsplit, -, hbetween, -⟩ := finRange_split h.lt
  refine ⟨before.filter fun k => (symbols.get k).live,
    after.filter fun k => (symbols.get k).live, ?_⟩
  have hempty : (between.filter fun k => (symbols.get k).live) = [] :=
    List.filter_eq_nil_iff.mpr fun k hk => h.between k (hbetween k hk).1 (hbetween k hk).2
  rw [lives, hsplit]
  simp only [List.filter_append, List.filter_cons, h.left, h.right, if_true, hempty,
    List.nil_append]

/-- A merge joins two adjacent texts. -/
theorem liveTexts_join {symbols : Vector (Symbol n) n} {left right : Fin n}
    {before after : List (Fin n)} (h : lives symbols = before ++ left :: right :: after) :
    liveTexts (joinSymbols symbols left right) =
      mergeAt before.length (liveTexts symbols) := by
  have hsorted := lives_sorted symbols
  rw [h, List.pairwise_append, List.pairwise_cons, List.pairwise_cons] at hsorted
  obtain ⟨-, ⟨hleft, hright, -⟩, hbefore⟩ := hsorted
  have hlives : lives (joinSymbols symbols left right) = before ++ left :: after := by
    have hfilter : lives (joinSymbols symbols left right) =
        (lives symbols).filter fun i => i ≠ right := by
      unfold lives
      rw [List.filter_filter]
      apply List.filter_congr
      intro i _
      rw [(getElem_joinSymbols symbols left right i).2.1, Bool.and_comm]
    have hkeep {positions : List (Fin n)} (hne : ∀ i ∈ positions, i ≠ right) :
        (positions.filter fun i => i ≠ right) = positions :=
      List.filter_eq_self.mpr fun i hi => decide_eq_true (hne i hi)
    have hne : left ≠ right := (hleft right List.mem_cons_self).ne
    rw [hfilter, h, List.filter_append, hkeep fun i hi => (hbefore i hi right (by simp)).ne]
    simp only [List.filter_cons, ne_eq, hne, not_false_eq_true, decide_true, if_true,
      not_true_eq_false, decide_false, Bool.false_eq_true, if_false]
    rw [← hkeep fun i hi => (hright i hi).ne']
    simp
  have htext (i : Fin n) (hne : i ≠ left) :
      ((joinSymbols symbols left right).get i).text = (symbols.get i).text := by
    rw [(getElem_joinSymbols symbols left right i).1, if_neg hne]
  have hjoined : ((joinSymbols symbols left right).get left).text =
      (symbols.get left).text ++ (symbols.get right).text := by
    rw [(getElem_joinSymbols symbols left right left).1, if_pos rfl]
  rw [liveTexts_eq, liveTexts_eq, hlives, h]
  simp only [List.map_append, List.map_cons, hjoined]
  rw [List.map_congr_left fun i hi => htext i (hbefore i hi left List.mem_cons_self).ne,
    List.map_congr_left fun i hi => htext i (hleft i (List.mem_cons_of_mem _ hi)).ne']
  rw [← mergeAt_split, List.length_map]

/-! ## The queue -/

/-- A greatest pair of the queue and the rest, in any order. -/
def Pops (queue : List (Pair n)) (pair : Pair n) (rest : List (Pair n)) : Prop :=
  queue.Perm (pair :: rest) ∧ ∀ other ∈ rest, pair.cmp other ≠ .lt

theorem Pair.cmp_ne_lt {pair other : Pair n} :
    pair.cmp other ≠ .lt ↔
      pair.rank ≤ other.rank ∧ (pair.rank = other.rank → pair.left ≤ other.left) := by
  unfold Pair.cmp
  rcases lt_trichotomy other.rank pair.rank with hlt | heq | hgt
  · rw [compare_lt_iff_lt.mpr hlt]
    simp [Ordering.then, hlt]
  · rw [compare_eq_iff_eq.mpr heq, Ordering.eq_then, ne_eq, compare_lt_iff_lt]
    simp [heq]
  · rw [compare_gt_iff_gt.mpr hgt]
    simp [Ordering.then, hgt.le, hgt.ne]

theorem Pair.cmp_ne_lt_trans {first second third : Pair n} (h : first.cmp second ≠ .lt)
    (h' : second.cmp third ≠ .lt) : first.cmp third ≠ .lt := by
  rw [Pair.cmp_ne_lt] at h h' ⊢
  refine ⟨h.1.trans h'.1, fun heq => ?_⟩
  exact (h.2 (le_antisymm h.1 (heq ▸ h'.1))).trans (h'.2 (le_antisymm h'.1 (heq ▸ h.1)))

theorem Pair.cmp_ne_lt_of_ne_gt {pair other : Pair n} (h : other.cmp pair ≠ .gt) :
    pair.cmp other ≠ .lt := by
  rw [Pair.cmp_ne_lt]
  unfold Pair.cmp at h
  rcases lt_trichotomy pair.rank other.rank with hlt | heq | hgt
  · exact ⟨hlt.le, fun heq => absurd heq hlt.ne⟩
  · rw [compare_eq_iff_eq.mpr heq, Ordering.eq_then, ne_eq, compare_gt_iff_gt] at h
    exact ⟨heq.le, fun _ => not_lt.mp h⟩
  · rw [compare_gt_iff_gt.mpr hgt] at h
    exact absurd rfl h

theorem popPair_eq_none {queue : List (Pair n)} (h : popPair queue = none) : queue = [] := by
  cases queue with
  | nil => rfl
  | cons first queue =>
    simp only [popPair] at h
    split at h
    · cases h
    · split_ifs at h

theorem popPair_pops {queue rest : List (Pair n)} {pair : Pair n}
    (h : popPair queue = some (pair, rest)) : Pops queue pair rest := by
  induction queue generalizing pair rest with
  | nil => cases h
  | cons first queue ih =>
    simp only [popPair] at h
    cases hpop : popPair queue with
    | none =>
      simp only [hpop, Option.some.injEq, Prod.mk.injEq] at h
      obtain ⟨rfl, rfl⟩ := h
      have hnil : queue = [] := popPair_eq_none hpop
      subst hnil
      exact ⟨List.Perm.refl _, by simp⟩
    | some popped =>
      obtain ⟨best, others⟩ := popped
      obtain ⟨hperm, hbest⟩ := ih hpop
      simp only [hpop] at h
      split_ifs at h with hgt
      · simp only [Option.some.injEq, Prod.mk.injEq] at h
        obtain ⟨rfl, rfl⟩ := h
        refine ⟨(hperm.cons first).trans (.swap best first others), fun other hother => ?_⟩
        rcases List.mem_cons.mp hother with rfl | hother
        · rw [hgt]
          decide
        · exact hbest other hother
      · simp only [Option.some.injEq, Prod.mk.injEq] at h
        obtain ⟨rfl, rfl⟩ := h
        have hfirst : first.cmp best ≠ .lt := Pair.cmp_ne_lt_of_ne_gt hgt
        refine ⟨hperm.cons first, fun other hother => ?_⟩
        rcases List.mem_cons.mp hother with rfl | hother
        · exact hfirst
        · exact Pair.cmp_ne_lt_trans hfirst (hbest other hother)

/-- The merge of a pair is still the one that was queued. -/
def Pair.Applies (merges : HashMap (String × String) Nat) (symbols : Vector (Symbol n) n)
    (pair : Pair n) : Prop :=
  pair.current symbols ∧
    merges ((symbols.get pair.left).text, (symbols.get pair.right).text) = some pair.rank

/-- One turn of the merge loop. Any greatest pair may leave the queue. -/
inductive PopStep (merges : HashMap (String × String) Nat) :
    Vector (Symbol n) n × List (Pair n) → Vector (Symbol n) n × List (Pair n) → Prop
  | skip (symbols : Vector (Symbol n) n) (queue rest : List (Pair n)) (pair : Pair n)
      (hpop : Pops queue pair rest) (hout : ¬ pair.Applies merges symbols) :
      PopStep merges (symbols, queue) (symbols, rest)
  | apply (symbols : Vector (Symbol n) n) (queue rest : List (Pair n)) (pair : Pair n)
      (hpop : Pops queue pair rest) (happlies : pair.Applies merges symbols) :
      PopStep merges (symbols, queue)
        (joinSymbols symbols pair.left pair.right,
          pushNeighbours merges (joinSymbols symbols pair.left pair.right) pair.left rest)

/-- The links are right, and every ranked pair of live neighbours has an entry. -/
structure Covered (merges : HashMap (String × String) Nat) (symbols : Vector (Symbol n) n)
    (queue : List (Pair n)) : Prop where
  threaded : Threaded symbols
  entry : ∀ i j rank, Neighbours symbols i j →
    merges ((symbols.get i).text, (symbols.get j).text) = some rank → ⟨rank, i, j⟩ ∈ queue

theorem Threaded.current_iff {symbols : Vector (Symbol n) n} (h : Threaded symbols)
    (pair : Pair n) : pair.current symbols ↔ Neighbours symbols pair.left pair.right := by
  simp only [Pair.current, Bool.and_eq_true, decide_eq_true_eq]
  constructor
  · rintro ⟨⟨hleft, _⟩, hnext⟩
    exact (h.next pair.left hleft pair.right).mp hnext
  · intro hpair
    exact ⟨⟨hpair.left, hpair.right⟩, (h.next pair.left hpair.left pair.right).mpr hpair⟩

theorem mem_pushPair_of_mem {symbols : Vector (Symbol n) n} {left right : Fin n}
    {queue : List (Pair n)} {pair : Pair n} (h : pair ∈ queue) :
    pair ∈ pushPair merges symbols left right queue := by
  unfold pushPair
  split
  · exact List.mem_cons_of_mem _ h
  · exact h

theorem mem_pushPair {symbols : Vector (Symbol n) n} {left right : Fin n}
    {queue : List (Pair n)} {rank : Nat}
    (h : merges ((symbols.get left).text, (symbols.get right).text) = some rank) :
    ⟨rank, left, right⟩ ∈ pushPair merges symbols left right queue := by
  rw [pushPair, h]
  exact List.mem_cons_self

theorem mem_pushNeighbours_of_mem {symbols : Vector (Symbol n) n} {left : Fin n}
    {queue : List (Pair n)} {pair : Pair n} (h : pair ∈ queue) :
    pair ∈ pushNeighbours merges symbols left queue := by
  unfold pushNeighbours
  dsimp only
  split
  · apply mem_pushPair_of_mem
    split
    · exact mem_pushPair_of_mem h
    · exact h
  · split
    · exact mem_pushPair_of_mem h
    · exact h

theorem mem_pushNeighbours_next {symbols : Vector (Symbol n) n} {left next : Fin n}
    {queue : List (Pair n)} {rank : Nat} (hnext : (symbols.get left).next = some next)
    (h : merges ((symbols.get left).text, (symbols.get next).text) = some rank) :
    ⟨rank, left, next⟩ ∈ pushNeighbours merges symbols left queue := by
  unfold pushNeighbours
  simp only [hnext]
  exact mem_pushPair h

theorem mem_pushNeighbours_previous {symbols : Vector (Symbol n) n} {left previous : Fin n}
    {queue : List (Pair n)} {rank : Nat} (hprevious : (symbols.get left).previous = some previous)
    (h : merges ((symbols.get previous).text, (symbols.get left).text) = some rank) :
    ⟨rank, previous, left⟩ ∈ pushNeighbours merges symbols left queue := by
  unfold pushNeighbours
  simp only [hprevious]
  split
  · exact mem_pushPair_of_mem (mem_pushPair h)
  · exact mem_pushPair h

/-- An entry that no longer applies is not the entry of a ranked pair. -/
theorem Covered.skip {symbols : Vector (Symbol n) n} {queue rest : List (Pair n)} {pair : Pair n}
    (h : Covered merges symbols queue) (hpop : Pops queue pair rest)
    (hout : ¬ pair.Applies merges symbols) : Covered merges symbols rest := by
  refine ⟨h.threaded, fun i j rank hij hrank => ?_⟩
  rcases List.mem_cons.mp (hpop.1.mem_iff.mp (h.entry i j rank hij hrank)) with heq | hmem
  · subst heq
    exact absurd ⟨(h.threaded.current_iff _).mpr hij, hrank⟩ hout
  · exact hmem

/-- A merge queues the two pairs it changes, and every other pair keeps its entry. -/
theorem Covered.apply {symbols : Vector (Symbol n) n} {queue rest : List (Pair n)} {pair : Pair n}
    (h : Covered merges symbols queue) (hpop : Pops queue pair rest)
    (happlies : pair.Applies merges symbols) :
    Covered merges (joinSymbols symbols pair.left pair.right)
      (pushNeighbours merges (joinSymbols symbols pair.left pair.right) pair.left rest) := by
  have hpair := (h.threaded.current_iff pair).mp happlies.1
  have hjoined := h.threaded.join hpair
  refine ⟨hjoined, fun i j rank hij hrank => ?_⟩
  by_cases hi : i = pair.left
  · subst hi
    exact mem_pushNeighbours_next ((hjoined.next pair.left hij.left j).mpr hij) hrank
  · by_cases hj : j = pair.left
    · subst hj
      exact mem_pushNeighbours_previous ((hjoined.previous pair.left hij.right i).mpr hij) hrank
    · apply mem_pushNeighbours_of_mem
      have hold := (neighbours_join_other hpair hi (live_joinSymbols.mp hij.left).2).mp hij
      rw [(getElem_joinSymbols symbols pair.left pair.right i).1, if_neg hi,
        (getElem_joinSymbols symbols pair.left pair.right j).1, if_neg hj] at hrank
      rcases List.mem_cons.mp (hpop.1.mem_iff.mp (h.entry i j rank hold hrank)) with heq | hmem
      · exact absurd (congrArg Pair.left heq) hi
      · exact hmem

/-- Adjacent items of a mapped list come from adjacent items. -/
theorem exists_split_of_map {α β : Type} {f : α → β} {items : List α} {before after : List β}
    {a b : β} (h : items.map f = before ++ a :: b :: after) :
    ∃ before' i j after', items = before' ++ i :: j :: after' ∧ f i = a ∧ f j = b := by
  obtain ⟨before', rest, rfl, -, hrest⟩ := List.map_eq_append_iff.mp h
  obtain ⟨i, rest', rfl, hi, hrest'⟩ := List.map_eq_cons_iff.mp hrest
  obtain ⟨j, after', rfl, hj, -⟩ := List.map_eq_cons_iff.mp hrest'
  exact ⟨before', i, j, after', rfl, hi, hj⟩

/-- The entry that applies is the best pair of the live texts. -/
theorem Covered.best {symbols : Vector (Symbol n) n} {queue rest : List (Pair n)} {pair : Pair n}
    (h : Covered merges symbols queue) (hpop : Pops queue pair rest)
    (happlies : pair.Applies merges symbols) {before after : List (Fin n)}
    (hsplit : lives symbols = before ++ pair.left :: pair.right :: after) :
    bestPair merges (liveTexts symbols) = some (pair.rank, before.length) := by
  have hleast {i j : Fin n} {rank : Nat} (hij : Neighbours symbols i j)
      (hrank : merges ((symbols.get i).text, (symbols.get j).text) = some rank) :
      pair.rank ≤ rank ∧ (pair.rank = rank → pair.left ≤ i) := by
    rcases List.mem_cons.mp (hpop.1.mem_iff.mp (h.entry i j rank hij hrank)) with heq | hmem
    · rw [← heq]
      exact ⟨le_refl _, fun _ => le_refl _⟩
    · exact Pair.cmp_ne_lt.mp (hpop.2 _ hmem)
  have hsorted := lives_sorted symbols
  rw [hsplit, List.pairwise_append] at hsorted
  have hlength : before.length = (before.map fun i => (symbols.get i).text).length :=
    List.length_map _ |>.symm
  rw [liveTexts_eq, hsplit, List.map_append, List.map_cons, List.map_cons, hlength]
  apply bestPair_split happlies.2
  · intro front a b back rank hfront hrank
    have hmap : (before ++ [pair.left]).map (fun i => (symbols.get i).text) =
        front ++ a :: b :: back := by
      rw [List.map_append, ← hfront]
      rfl
    obtain ⟨before', i, j, back', hpositions, rfl, rfl⟩ := exists_split_of_map hmap
    have hij : Neighbours symbols i j := by
      have hlives : lives symbols = before' ++ i :: j :: (back' ++ pair.right :: after) := by
        rw [hsplit, ← List.singleton_append, ← List.append_assoc, hpositions]
        simp
      exact neighbours_of_split hlives
    obtain ⟨hle, htie⟩ := hleast hij hrank
    have hj : j ∈ before ++ [pair.left] := by
      rw [hpositions]
      simp
    have hjle : j ≤ pair.left := by
      rcases List.mem_append.mp hj with hin | hin
      · exact (hsorted.2.2 j hin pair.left List.mem_cons_self).le
      · exact (List.mem_singleton.mp hin).le
    apply lt_of_le_of_ne hle
    intro heq
    exact absurd (htie heq) (not_le.mpr (hij.lt.trans_le hjle))
  · intro front a b back rank hback hrank
    have hmap : (pair.right :: after).map (fun i => (symbols.get i).text) =
        front ++ a :: b :: back := hback
    obtain ⟨before', i, j, back', hpositions, rfl, rfl⟩ := exists_split_of_map hmap
    have hij : Neighbours symbols i j := by
      have hlives : lives symbols = (before ++ pair.left :: before') ++ i :: j :: back' := by
        rw [hsplit, hpositions]
        simp
      exact neighbours_of_split hlives
    exact (hleast hij hrank).1

/-- With an empty queue no adjacent pair has a rank. -/
theorem Covered.done {symbols : Vector (Symbol n) n} (h : Covered merges symbols []) :
    bestPair merges (liveTexts symbols) = none := by
  by_contra hsome
  obtain ⟨best, hbest⟩ := Option.ne_none_iff_exists'.mp hsome
  obtain ⟨before, a, b, after, hsplit, -, hrank⟩ := bestPair_mem hbest
  rw [liveTexts_eq] at hsplit
  obtain ⟨before', i, j, back', hpositions, rfl, rfl⟩ := exists_split_of_map hsplit
  exact absurd (h.entry i j best.1 (neighbours_of_split hpositions) hrank) List.not_mem_nil

/-! ## Runs of the merge loop -/

/-- A turn of the loop either skips or makes the next greedy merge. -/
theorem PopStep.follows {state state' : Vector (Symbol n) n × List (Pair n)}
    (h : PopStep merges state state') (hcovered : Covered merges state.1 state.2) :
    Covered merges state'.1 state'.2 ∧
      greedyMerge merges (liveTexts state'.1) = greedyMerge merges (liveTexts state.1) := by
  cases h with
  | skip symbols queue rest pair hpop hout => exact ⟨hcovered.skip hpop hout, rfl⟩
  | apply symbols queue rest pair hpop happlies =>
    refine ⟨hcovered.apply hpop happlies, ?_⟩
    have hpair := (hcovered.threaded.current_iff pair).mp happlies.1
    obtain ⟨before, after, hsplit⟩ := hpair.split
    rw [liveTexts_join hsplit, greedyMerge_some (hcovered.best hpop happlies hsplit)]

/-- Every run that empties the queue leaves the greedy merge. -/
theorem run_eq_greedyMerge {state state' : Vector (Symbol n) n × List (Pair n)}
    (h : Relation.ReflTransGen (PopStep merges) state state') (hempty : state'.2 = [])
    (hcovered : Covered merges state.1 state.2) :
    liveTexts state'.1 = greedyMerge merges (liveTexts state.1) := by
  have hend : Covered merges state'.1 state'.2 ∧
      greedyMerge merges (liveTexts state'.1) = greedyMerge merges (liveTexts state.1) := by
    clear hempty
    induction h with
    | refl => exact ⟨hcovered, rfl⟩
    | tail _ hstep ih =>
      obtain ⟨hnext, hsame⟩ := hstep.follows ih.1
      exact ⟨hnext, hsame.trans ih.2⟩
  rw [hempty] at hend
  rw [← hend.2, greedyMerge_none hend.1.done]

/-- Each turn takes an entry out of the queue, and a merge pays for the two that it adds. -/
theorem wellFounded_popStep :
    WellFounded fun state' state : Vector (Symbol n) n × List (Pair n) =>
      PopStep merges state state' := by
  apply Subrelation.wf _
    (measure fun state => 3 * (livePositions state.1).card + state.2.length).wf
  intro state' state hstep
  show 3 * _ + _ < 3 * _ + _
  cases hstep with
  | skip symbols queue rest pair hpop hout =>
    have hlength := hpop.1.length_eq
    rw [List.length_cons] at hlength
    dsimp only
    omega
  | apply symbols queue rest pair hpop happlies =>
    have hlength := hpop.1.length_eq
    have hcurrent := happlies.1
    have hpushed := length_pushNeighbours_le merges (joinSymbols symbols pair.left pair.right)
      pair.left rest
    simp only [Pair.current, Bool.and_eq_true] at hcurrent
    have hcard := card_joinSymbols pair.left hcurrent.1.2
    rw [List.length_cons] at hlength
    dsimp only
    omega

theorem mergePairs_run (symbols : Vector (Symbol n) n) (queue : List (Pair n)) :
    Relation.ReflTransGen (PopStep merges) (symbols, queue)
      (mergePairs merges symbols queue, []) := by
  fun_induction mergePairs merges symbols queue with
  | case1 symbols queue hpop =>
    rw [popPair_eq_none hpop]
  | case2 symbols queue pair rest hpop hcurrent ih =>
    apply Relation.ReflTransGen.head _ ih
    exact .skip symbols queue rest pair (popPair_pops hpop) fun happlies =>
      absurd happlies.1 (by simp [hcurrent])
  | case3 symbols queue pair rest hpop hcurrent hrank ih =>
    apply Relation.ReflTransGen.head _ ih
    exact .skip symbols queue rest pair (popPair_pops hpop) fun happlies => hrank happlies.2
  | case4 symbols queue pair rest hpop hcurrent hrank joined ih =>
    apply Relation.ReflTransGen.head _ ih
    exact .apply symbols queue rest pair (popPair_pops hpop)
      ⟨Bool.eq_true_of_not_eq_false hcurrent, not_not.mp hrank⟩

/-- The entries that a word starts with. -/
def wordQueue (merges : HashMap (String × String) Nat) (characters : List Char) :
    List (Pair characters.length) :=
  (List.finRange characters.length).foldl (fun queue (right : Fin _) =>
    if 0 < right.val then
      pushPair merges (wordSymbols characters) (preceding right) right queue
    else queue) []

theorem neighbours_wordSymbols {characters : List Char} {i j : Fin characters.length} :
    Neighbours (wordSymbols characters) i j ↔ j.val = i.val + 1 := by
  have hlive (k : Fin characters.length) : ((wordSymbols characters).get k).live = true := by
    simp [wordSymbols]
  constructor
  · intro h
    have hlt := Fin.lt_def.mp h.lt
    by_contra hne
    exact h.between ⟨i.val + 1, by omega⟩ (Fin.lt_def.mpr (Nat.lt_succ_self _))
      (Fin.lt_def.mpr (by show i.val + 1 < j.val; omega)) (hlive _)
  · intro h
    refine ⟨Fin.lt_def.mpr (by omega), hlive i, hlive j, fun k hik hkj => ?_⟩
    rw [Fin.lt_def] at hik hkj
    omega

theorem threaded_wordSymbols (characters : List Char) : Threaded (wordSymbols characters) := by
  constructor
  · intro i _ j
    rw [neighbours_wordSymbols]
    simp only [wordSymbols, Vector.get_eq_getElem, Vector.getElem_ofFn,
      Option.dite_none_right_eq_some, Option.some.injEq, Fin.ext_iff]
    exact ⟨fun h => h.2.symm, fun h => ⟨by omega, h.symm⟩⟩
  · intro j _ i
    rw [neighbours_wordSymbols]
    simp only [wordSymbols, Vector.get_eq_getElem, Vector.getElem_ofFn, Option.ite_none_right_eq_some,
      Option.some.injEq, Fin.ext_iff, preceding]
    constructor
    · rintro ⟨_, h⟩
      omega
    · exact fun h => ⟨by omega, by omega⟩

/-- The first queue has an entry for each ranked pair of characters. -/
theorem mem_wordQueue {characters : List Char} {i j : Fin characters.length} {rank : Nat}
    (hij : j.val = i.val + 1) (h : merges (((wordSymbols characters).get i).text,
      ((wordSymbols characters).get j).text) = some rank) :
    ⟨rank, i, j⟩ ∈ wordQueue merges characters := by
  have hfold (positions : List (Fin characters.length)) (queue : List (Pair characters.length))
      (hin : j ∈ positions ∨ ⟨rank, i, j⟩ ∈ queue) :
      ⟨rank, i, j⟩ ∈ positions.foldl (fun queue (right : Fin _) =>
        if 0 < right.val then
          pushPair merges (wordSymbols characters) (preceding right) right queue
        else queue) queue := by
    induction positions generalizing queue with
    | nil => exact hin.resolve_left List.not_mem_nil
    | cons right positions ih =>
      apply ih
      rcases hin with hin | hin
      · rcases List.mem_cons.mp hin with rfl | hin
        · have hi : i = preceding j := Fin.ext (by simp [preceding, hij])
          dsimp only
          rw [if_pos (by omega), ← hi]
          exact .inr (mem_pushPair h)
        · exact .inl hin
      · apply Or.inr
        dsimp only
        split
        · exact mem_pushPair_of_mem hin
        · exact hin
  exact hfold _ [] (.inl (List.mem_finRange j))

theorem covered_wordQueue (merges : HashMap (String × String) Nat) (characters : List Char) :
    Covered merges (wordSymbols characters) (wordQueue merges characters) :=
  ⟨threaded_wordSymbols characters, fun _ _ _ hij hrank =>
    mem_wordQueue (neighbours_wordSymbols.mp hij) hrank⟩

theorem liveTexts_wordSymbols (characters : List Char) :
    liveTexts (wordSymbols characters) = characters.map String.singleton := by
  rw [liveTexts_eq]
  have hlives : lives (wordSymbols characters) = List.finRange characters.length :=
    List.filter_eq_self.mpr fun i _ => by simp [wordSymbols]
  rw [hlives]
  apply List.ext_getElem
  · simp
  · intro i _ _
    simp [wordSymbols]

/-- The queue merges a word as the plain greedy algorithm does, whichever of several equal
entries comes first, it empties after finitely many turns, and the result spells the word. -/
theorem mergeWord_greedy (merges : HashMap (String × String) Nat) (word : String) :
    mergeWord merges word = greedyMerge merges (word.toList.map String.singleton) ∧
    (∀ symbols, Relation.ReflTransGen (PopStep merges)
        (wordSymbols word.toList, wordQueue merges word.toList) (symbols, []) →
      liveTexts symbols = greedyMerge merges (word.toList.map String.singleton)) ∧
    (WellFounded fun state' state : Vector (Symbol word.toList.length) word.toList.length ×
        List (Pair word.toList.length) => PopStep merges state state') ∧
    String.join (mergeWord merges word) = word := by
  have hruns (symbols : Vector (Symbol word.toList.length) word.toList.length)
      (hrun : Relation.ReflTransGen (PopStep merges)
        (wordSymbols word.toList, wordQueue merges word.toList) (symbols, [])) :
      liveTexts symbols = greedyMerge merges (word.toList.map String.singleton) := by
    rw [run_eq_greedyMerge hrun rfl (covered_wordQueue merges word.toList),
      liveTexts_wordSymbols]
  refine ⟨hruns _ (mergePairs_run _ _), hruns, wellFounded_popStep, ?_⟩
  apply String.toList_injective
  rw [String.toList_join, mergeWord_spells]

end Leone.Text

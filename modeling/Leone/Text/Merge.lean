import Mathlib
import Leone.Text.Tokenizer

/-!
# Merging the symbols of a word

The symbols of a word are a linked list over its characters. The merge of lowest rank is applied
first, to the leftmost pair among equals. A merge moves the text of one live symbol to its left
neighbour, so the live symbols always spell the word.
-/

namespace Leone.Text

open Framework

/-- A symbol of a word of `n` characters, linked to the live symbols beside it. -/
structure Symbol (n : Nat) where
  text : String
  previous : Option (Fin n)
  next : Option (Fin n)
  live : Bool

/-- A merge of two symbols that were neighbours when it was queued. -/
structure Pair (n : Nat) where
  rank : Nat
  left : Fin n
  right : Fin n
  deriving DecidableEq

variable {n : Nat}

/-- The position before another one that is not the first. -/
def preceding (i : Fin n) : Fin n := ⟨i - 1, by omega⟩

/-- The greatest pair has the least rank, then the least position. -/
def Pair.cmp (self other : Pair n) : Ordering :=
  (compare other.rank self.rank).then (compare other.left self.left)

/-- A greatest pair of the queue and the rest. Which of several equal pairs comes first is not
specified by the heap. -/
def popPair : List (Pair n) → Option (Pair n × List (Pair n))
  | [] => none
  | pair :: rest =>
    match popPair rest with
    | none => some (pair, [])
    | some (best, others) =>
      if best.cmp pair = .gt then some (best, pair :: others) else some (pair, best :: others)

theorem length_popPair {queue rest : List (Pair n)} {pair : Pair n}
    (h : popPair queue = some (pair, rest)) : rest.length + 1 = queue.length := by
  induction queue generalizing pair rest with
  | nil => cases h
  | cons first queue ih =>
    simp only [popPair] at h
    split at h
    · rename_i hnone
      cases h
      cases queue with
      | nil => rfl
      | cons second queue =>
        simp only [popPair] at hnone
        split at hnone
        · cases hnone
        · split_ifs at hnone
    · rename_i best others hsome
      have hlength := ih hsome
      split_ifs at h <;> cases h <;> simpa using hlength

section Merge

variable (merges : HashMap (String × String) Nat)

def pushPair (symbols : Vector (Symbol n) n) (left right : Fin n) (queue : List (Pair n)) :
    List (Pair n) :=
  match merges ((symbols.get left).text, (symbols.get right).text) with
  | some rank => ⟨rank, left, right⟩ :: queue
  | none => queue

/-- Mutate one symbol in place. -/
def update (symbols : Vector (Symbol n) n) (i : Fin n) (f : Symbol n → Symbol n) :
    Vector (Symbol n) n := symbols.set i (f (symbols.get i)) i.isLt

/-- Move the text of the right symbol to the left one, and take the right one out of the list. -/
def joinSymbols (symbols : Vector (Symbol n) n) (left right : Fin n) : Vector (Symbol n) n :=
  let rightText := (symbols.get right).text
  let symbols := update symbols left fun symbol => { symbol with text := symbol.text ++ rightText }
  let symbols := update symbols right fun symbol => { symbol with live := false }
  let next := (symbols.get right).next
  let symbols := update symbols left fun symbol => { symbol with next }
  match next with
  | some next => update symbols next fun symbol => { symbol with previous := some left }
  | none => symbols

/-- Queue the merges of a symbol with its neighbours. -/
def pushNeighbours (symbols : Vector (Symbol n) n) (left : Fin n) (queue : List (Pair n)) :
    List (Pair n) :=
  let queue := match (symbols.get left).previous with
    | some previous => pushPair merges symbols previous left queue
    | none => queue
  match (symbols.get left).next with
  | some next => pushPair merges symbols left next queue
  | none => queue

/-- The two symbols of a pair are still live neighbours. -/
def Pair.current (symbols : Vector (Symbol n) n) (pair : Pair n) : Bool :=
  (symbols.get pair.left).live && (symbols.get pair.right).live &&
    (symbols.get pair.left).next = some pair.right

/-- The positions whose symbols are live. Each merge takes one out. -/
def livePositions (symbols : Vector (Symbol n) n) : Finset (Fin n) :=
  Finset.univ.filter fun i => (symbols.get i).live

theorem getElem_update (symbols : Vector (Symbol n) n) (i j : Fin n) (f : Symbol n → Symbol n) :
    (update symbols i f).get j = if j = i then f (symbols.get j) else symbols.get j := by
  simp only [update, Vector.get_eq_getElem, Vector.getElem_set]
  split_ifs with h hne hne
  · subst hne
    rfl
  · exact absurd (Fin.ext h.symm) hne
  · subst hne
    exact absurd rfl h
  · rfl

/-- The last step of a merge changes no more than the link of the symbol after it. -/
theorem getElem_relink (v : Vector (Symbol n) n) (next : Option (Fin n)) (left i : Fin n) :
    (match next with
      | some next => update v next fun symbol => { symbol with previous := some left }
      | none => v).get i =
      { v.get i with previous := if next = some i then some left else (v.get i).previous } := by
  cases next with
  | none => simp
  | some next =>
    rw [getElem_update]
    by_cases heq : i = next
    · rw [if_pos heq, if_pos (congrArg some heq.symm)]
    · rw [if_neg heq, if_neg fun hsome => heq (Option.some.inj hsome).symm]

/-- What a merge does to each symbol. -/
theorem getElem_joinSymbols (symbols : Vector (Symbol n) n) (left right i : Fin n) :
    ((joinSymbols symbols left right).get i).text =
        (if i = left then (symbols.get left).text ++ (symbols.get right).text
          else (symbols.get i).text) ∧
      ((joinSymbols symbols left right).get i).live = ((symbols.get i).live && i ≠ right) ∧
      ((joinSymbols symbols left right).get i).next =
        if i = left then (symbols.get right).next else (symbols.get i).next := by
  simp only [joinSymbols, getElem_relink]
  refine ⟨?_, ?_, ?_⟩
  all_goals
    simp only [getElem_update]
    by_cases hleft : i = left
    · subst hleft
      by_cases hright : i = right
      · subst hright
        simp
      · simp [hright, Ne.symm hright]
    · by_cases hright : i = right
      · subst hright
        simp [hleft]
      · simp [hleft, hright]

theorem length_pushPair_le (symbols : Vector (Symbol n) n) (left right : Fin n)
    (queue : List (Pair n)) :
    (pushPair merges symbols left right queue).length ≤ queue.length + 1 := by
  unfold pushPair
  split <;> simp

theorem length_pushNeighbours_le (symbols : Vector (Symbol n) n) (left : Fin n)
    (queue : List (Pair n)) :
    (pushNeighbours merges symbols left queue).length ≤ queue.length + 2 := by
  unfold pushNeighbours
  dsimp only
  have hprevious : (match (symbols.get left).previous with
      | some previous => pushPair merges symbols previous left queue
      | none => queue).length ≤ queue.length + 1 := by
    split
    · exact length_pushPair_le ..
    · omega
  split
  · exact (length_pushPair_le ..).trans (by omega)
  · omega

/-- A merge of two live symbols takes the right one out. -/
theorem card_joinSymbols {symbols : Vector (Symbol n) n} (left : Fin n) {right : Fin n}
    (hlive : (symbols.get right).live) :
    (livePositions (joinSymbols symbols left right)).card + 1 = (livePositions symbols).card := by
  have herase : livePositions (joinSymbols symbols left right) =
      (livePositions symbols).erase right := by
    ext i
    simp only [livePositions, Finset.mem_filter, Finset.mem_univ, true_and, Finset.mem_erase,
      (getElem_joinSymbols symbols left right i).2.1, Bool.and_eq_true, decide_eq_true_eq, ne_eq,
      and_comm]
  rw [herase]
  exact Finset.card_erase_add_one (by simpa [livePositions] using hlive)

/-- Apply the queued merges in order, skipping those that are out of date. -/
def mergePairs (symbols : Vector (Symbol n) n) (queue : List (Pair n)) : Vector (Symbol n) n :=
  match h : popPair queue with
  | none => symbols
  | some (pair, rest) =>
    if hcurrent : pair.current symbols = false then mergePairs symbols rest
    else if merges ((symbols.get pair.left).text, (symbols.get pair.right).text) ≠ some pair.rank then
      mergePairs symbols rest
    else
      let joined := joinSymbols symbols pair.left pair.right
      mergePairs joined (pushNeighbours merges joined pair.left rest)
termination_by 3 * (livePositions symbols).card + queue.length
decreasing_by
  · have hlength := length_popPair h
    omega
  · have hlength := length_popPair h
    omega
  · have hlength := length_popPair h
    have hpushed := length_pushNeighbours_le merges (joinSymbols symbols pair.left pair.right)
      pair.left rest
    simp only [Pair.current, Bool.and_eq_false_iff, not_or, Bool.not_eq_false] at hcurrent
    have hcard := card_joinSymbols pair.left hcurrent.1.2
    omega

/-- The characters of a word, each linked to the next. -/
def wordSymbols (characters : List Char) : Vector (Symbol characters.length) characters.length :=
  Vector.ofFn fun index => {
    text := String.singleton (characters.get index)
    previous := if 0 < index.val then some (preceding index) else none
    next := if h : index.val + 1 < characters.length then some ⟨index + 1, h⟩ else none
    live := true }

/-- Split a word into the symbols that are left when no merge applies. -/
def mergeWord (word : String) : List String :=
  let symbols := wordSymbols word.toList
  let queue := (List.finRange word.toList.length).foldl (fun queue (right : Fin _) =>
    if 0 < right.val then pushPair merges symbols (preceding right) right queue
    else queue) []
  ((mergePairs merges symbols queue).toList.filter Symbol.live).map Symbol.text

end Merge

/-! ## What the symbols spell -/

/-- The text of a live symbol. A symbol that was merged away has none. -/
def cell (symbols : Vector (Symbol n) n) (i : Fin n) : List Char :=
  if (symbols.get i).live then (symbols.get i).text.toList else []

theorem cell_live {symbols : Vector (Symbol n) n} {i : Fin n} (h : (symbols.get i).live) :
    cell symbols i = (symbols.get i).text.toList := if_pos h

theorem cell_dead {symbols : Vector (Symbol n) n} {i : Fin n} (h : ¬ (symbols.get i).live) :
    cell symbols i = [] := if_neg h

/-- The text that the live symbols spell. -/
def spelled (symbols : Vector (Symbol n) n) : List Char :=
  (List.finRange n).flatMap (cell symbols)

/-- Each live symbol is linked to the next live one. -/
structure Linked (symbols : Vector (Symbol n) n) : Prop where
  next : ∀ i j : Fin n, (symbols.get i).live → (symbols.get i).next = some j → i < j
  between : ∀ i j k : Fin n, (symbols.get i).live → (symbols.get i).next = some j →
    i < k → k < j → ¬ (symbols.get k).live

theorem Linked.join {symbols : Vector (Symbol n) n} {left right : Fin n} (h : Linked symbols)
    (hleft : (symbols.get left).live) (hright : (symbols.get right).live)
    (hnext : (symbols.get left).next = some right) : Linked (joinSymbols symbols left right) := by
  have hlt := h.next left right hleft hnext
  refine ⟨fun i j hi hj => ?_, fun i j k hi hj hik hkj => ?_⟩
  · rw [(getElem_joinSymbols symbols left right i).2.1, Bool.and_eq_true] at hi
    rw [(getElem_joinSymbols symbols left right i).2.2] at hj
    split_ifs at hj with heq
    · subst heq
      exact hlt.trans (h.next right j hright hj)
    · exact h.next i j hi.1 hj
  · rw [(getElem_joinSymbols symbols left right i).2.1, Bool.and_eq_true] at hi
    rw [(getElem_joinSymbols symbols left right i).2.2] at hj
    rw [(getElem_joinSymbols symbols left right k).2.1, Bool.and_eq_true, not_and]
    intro hk
    simp only [decide_eq_true_eq, not_not]
    split_ifs at hj with heq
    · subst heq
      by_contra hne
      rcases lt_or_gt_of_ne hne with hlow | hhigh
      · exact h.between i right k hleft hnext hik hlow hk
      · exact h.between right j k hright hj hhigh hkj hk
    · exact absurd hk (h.between i j k hi.1 hj hik hkj)

/-- The positions of a word around two of them. -/
theorem finRange_split {left right : Fin n} (hlt : left < right) :
    ∃ before between after, List.finRange n = before ++ left :: (between ++ right :: after) ∧
      (∀ i ∈ before, i < left) ∧ (∀ i ∈ between, left < i ∧ i < right) ∧
      (∀ i ∈ after, right < i) := by
  have hsorted := List.pairwise_lt_finRange n
  obtain ⟨before, rest, hrest⟩ := List.append_of_mem (List.mem_finRange left)
  rw [hrest, List.pairwise_append, List.pairwise_cons] at hsorted
  obtain ⟨-, ⟨hleft, hsorted⟩, hbefore⟩ := hsorted
  have hmem : right ∈ before ++ left :: rest := hrest ▸ List.mem_finRange right
  have hmem' : right ∈ rest := by
    rcases List.mem_append.mp hmem with hin | hin
    · exact absurd (hbefore right hin left List.mem_cons_self) (not_lt.mpr hlt.le)
    · exact (List.mem_cons.mp hin).resolve_left hlt.ne'
  obtain ⟨between, after, hafter⟩ := List.append_of_mem hmem'
  rw [hafter, List.pairwise_append, List.pairwise_cons] at hsorted
  subst hafter
  refine ⟨before, between, after, hrest, fun i hi => hbefore i hi left List.mem_cons_self,
    fun i hi => ⟨hleft i (List.mem_append_left _ hi), hsorted.2.2 i hi right List.mem_cons_self⟩,
    hsorted.2.1.1⟩

/-- A merge does not change what the symbols spell. -/
theorem spelled_joinSymbols {symbols : Vector (Symbol n) n} {left right : Fin n}
    (h : Linked symbols) (hleft : (symbols.get left).live) (hright : (symbols.get right).live)
    (hnext : (symbols.get left).next = some right) :
    spelled (joinSymbols symbols left right) = spelled symbols := by
  have hlt := h.next left right hleft hnext
  have hcell (i : Fin n) : cell (joinSymbols symbols left right) i =
      if i = right then [] else if i = left then (symbols.get left).text.toList ++
        (symbols.get right).text.toList else cell symbols i := by
    obtain ⟨htext, hlive, -⟩ := getElem_joinSymbols symbols left right i
    rw [cell, htext, hlive]
    by_cases hr : i = right
    · simp [hr]
    · by_cases hl : i = left
      · subst hl
        rw [hleft]
        simp [hr]
      · simp [hr, hl, cell]
  obtain ⟨before, between, after, hsplit, hbefore, hbetween, hafter⟩ := finRange_split hlt
  have hsame {positions : List (Fin n)} (hne : ∀ i ∈ positions, i ≠ left ∧ i ≠ right) :
      positions.flatMap (cell (joinSymbols symbols left right)) = positions.flatMap (cell symbols) :=
    List.flatMap_congr fun i hi => by simp [hcell, hne i hi]
  have hempty : between.flatMap (cell symbols) = [] :=
    List.flatMap_eq_nil_iff.mpr fun i hi =>
      cell_dead (h.between left right i hleft hnext (hbetween i hi).1 (hbetween i hi).2)
  rw [spelled, spelled, hsplit]
  simp only [List.flatMap_append, List.flatMap_cons]
  rw [hsame fun i hi => ⟨(hbefore i hi).ne, ((hbefore i hi).trans hlt).ne⟩,
    hsame fun i hi => ⟨(hbetween i hi).1.ne', (hbetween i hi).2.ne⟩,
    hsame fun i hi => ⟨(hlt.trans (hafter i hi)).ne', (hafter i hi).ne'⟩,
    hempty, cell_live hleft, cell_live hright, hcell, hcell]
  simp [hlt.ne]

theorem spelled_mergePairs (merges : HashMap (String × String) Nat)
    (symbols : Vector (Symbol n) n) (queue : List (Pair n)) (h : Linked symbols) :
    spelled (mergePairs merges symbols queue) = spelled symbols := by
  fun_induction mergePairs merges symbols queue with
  | case1 => rfl
  | case2 _ _ _ _ _ _ ih => exact ih h
  | case3 _ _ _ _ _ _ _ ih => exact ih h
  | case4 symbols queue pair rest hpop hcurrent hrank joined ih =>
    simp only [Pair.current, Bool.and_eq_false_iff, not_or, Bool.not_eq_false,
      decide_eq_true_eq] at hcurrent
    obtain ⟨⟨hleft, hright⟩, hnext⟩ := hcurrent
    rw [ih (h.join hleft hright hnext)]
    exact spelled_joinSymbols h hleft hright hnext

theorem linked_wordSymbols (characters : List Char) : Linked (wordSymbols characters) := by
  have hnext (i j : Fin characters.length)
      (h : ((wordSymbols characters).get i).next = some j) : j.val = i.val + 1 := by
    simp only [wordSymbols, Vector.get_eq_getElem, Vector.getElem_ofFn,
      Option.dite_none_right_eq_some, Option.some.injEq] at h
    obtain ⟨_, rfl⟩ := h
    rfl
  refine ⟨fun i j _ hj => ?_, fun i j k _ hj hik hkj => ?_⟩
  · have h := hnext i j hj
    exact Fin.lt_def.mpr (by omega)
  · have h := hnext i j hj
    rw [Fin.lt_def] at hik hkj
    omega

theorem spelled_wordSymbols (characters : List Char) :
    spelled (wordSymbols characters) = characters := by
  have hcell : cell (wordSymbols characters) = fun i => [characters[i.val]] := by
    funext i
    simp [cell, wordSymbols, Vector.get_eq_getElem]
  rw [spelled, hcell, ← List.map_eq_flatMap]
  exact List.map_getElem_finRange characters

/-- The live symbols, read in order, are what the symbols spell. -/
theorem flatMap_live (symbols : Vector (Symbol n) n) :
    ((symbols.toList.filter Symbol.live).map Symbol.text).flatMap String.toList =
      spelled symbols := by
  have htoList : symbols.toList = (List.finRange n).map symbols.get := by
    apply List.ext_getElem <;> simp [Vector.get_eq_getElem]
  rw [htoList, List.flatMap_map, spelled]
  generalize List.finRange n = positions
  induction positions with
  | nil => rfl
  | cons i positions ih =>
    rw [List.map_cons, List.flatMap_cons, ← ih]
    by_cases hlive : (symbols.get i).live
    · rw [List.filter_cons_of_pos hlive, List.flatMap_cons, cell_live hlive]
    · rw [List.filter_cons_of_neg hlive, cell_dead hlive, List.nil_append]

/-- The symbols of a word spell the word, whatever is merged. -/
theorem mergeWord_spells (merges : HashMap (String × String) Nat) (word : String) :
    (mergeWord merges word).flatMap String.toList = word.toList := by
  rw [mergeWord, flatMap_live, spelled_mergePairs _ _ _ (linked_wordSymbols _),
    spelled_wordSymbols]

end Leone.Text

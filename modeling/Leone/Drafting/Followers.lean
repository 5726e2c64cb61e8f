import Mathlib
import Leone.Drafting.Correctable

/-!
# What a plan counts

The counts of an order are those of the tokens that followed the current context, and a distribution
exists where there is such a token and all of them are in the vocabulary.
-/

namespace Leone.Drafting

open Framework Sampling

/-- The tokens that followed an earlier occurrence of the current context. -/
def followers (history : List UInt32) (order : Nat) : List UInt32 :=
  ((contextEnds history order).filter fun stop =>
    contextBefore history order stop = currentContext history order).map (history[·]!)

section Followers

variable {history : List UInt32} {order : Nat}

theorem mem_contextEnds {stop : Nat} :
    stop ∈ contextEnds history order ↔ order ≤ stop ∧ stop < history.length := by
  rw [contextEnds, List.mem_range'_1]
  omega

theorem mem_followers {token : UInt32} : token ∈ followers history order ↔
    ∃ stop, order ≤ stop ∧ stop < history.length ∧
      contextBefore history order stop = currentContext history order ∧ history[stop]! = token := by
  simp only [followers, List.mem_map, List.mem_filter, mem_contextEnds, decide_eq_true_eq, and_assoc]

theorem length_followers_le : (followers history order).length ≤ history.length := by
  rw [followers, List.length_map]
  apply (List.length_filter_le _ _).trans
  rw [contextEnds, List.length_range']
  exact Nat.sub_le _ _

theorem followers_eq_nil_of_le (h : history.length ≤ order) : followers history order = [] := by
  rw [List.eq_nil_iff_forall_not_mem]
  intro token hmem
  obtain ⟨stop, hle, hlt, _⟩ := mem_followers.mp hmem
  omega

/-- Every token follows the empty context. -/
theorem followers_zero (history : List UInt32) : followers history 0 = history := by
  have hall : ∀ stop ∈ contextEnds history 0,
      decide (contextBefore history 0 stop = currentContext history 0) = true := by
    intro stop _
    simp [contextBefore, currentContext]
  rw [followers, List.filter_eq_self.mpr hall, contextEnds, Nat.sub_zero, ← List.range_eq_range']
  apply List.ext_getElem
  · simp
  · intro i hleft hright
    simp [hright]

/-- A match of a longer context is one of a shorter context. -/
theorem followers_subset {longer : Nat} (h : order ≤ longer) {token : UInt32}
    (hmem : token ∈ followers history longer) : token ∈ followers history order := by
  obtain ⟨stop, hle, hlt, hcontext, htoken⟩ := mem_followers.mp hmem
  refine mem_followers.mpr ⟨stop, h.trans hle, hlt, ?_, htoken⟩
  have hdrop := congrArg (List.drop (longer - order)) hcontext
  rw [contextBefore, currentContext, List.drop_take, List.drop_drop, List.drop_drop] at hdrop
  rw [contextBefore, currentContext]
  have hstop : stop - longer + (longer - order) = stop - order := by omega
  have hend : history.length - longer + (longer - order) = history.length - order := by omega
  have horder : longer - (longer - order) = order := by omega
  rw [hstop, hend, horder] at hdrop
  exact hdrop

theorem orderAvailable_iff :
    orderAvailable history order = true ↔ order ≠ 0 ∧ followers history order ≠ [] := by
  rw [orderAvailable]
  split_ifs with h
  · rcases h with hle | hzero
    · simp [followers_eq_nil_of_le hle]
    · simp [hzero]
  · rw [not_or] at h
    have hany : followers history order ≠ [] ↔ ∃ stop ∈ contextEnds history order,
        decide (contextBefore history order stop = currentContext history order) = true := by
      rw [followers, ne_eq, List.map_eq_nil_iff, List.filter_eq_nil_iff]
      push Not
      exact Iff.rfl
    rw [List.any_eq_true, hany]
    exact ⟨fun hex => ⟨h.2, hex⟩, And.right⟩

end Followers

/-! ## Counts -/

/-- The counts of some tokens over a vocabulary. -/
structure Counts (vocab : Nat) (tokens : List UInt32) (state : List Nat × Nat) : Prop where
  length : state.1.length = vocab
  total : state.2 = tokens.length
  sum : state.1.sum = tokens.length
  count : ∀ i < vocab, state.1[i]? = some (tokens.countP fun token => token.toNat = i)

section Counts

variable {vocab : Nat} {tokens : List UInt32} {state : List Nat × Nat} {token : UInt32}

theorem noCounts_counts (drafter : CorrectableDrafter) :
    Counts drafter.vocabSize [] drafter.noCounts := by
  constructor
  · simp [CorrectableDrafter.noCounts]
  · rfl
  · simp [CorrectableDrafter.noCounts]
  · intro i hi
    simp [CorrectableDrafter.noCounts, hi]

theorem countToken_outside (h : Counts vocab tokens state) (htoken : vocab ≤ token.toNat) :
    countToken state token = none := by
  have hget : state.1[token.toNat]? = none := by
    rw [List.getElem?_eq_none_iff, h.length]
    exact htoken
  rw [countToken, hget]
  rfl

theorem countToken_inside (h : Counts vocab tokens state) (htoken : token.toNat < vocab)
    (hroom : tokens.length + 1 < 2 ^ 64) :
    ∃ state', countToken state token = some state' ∧ Counts vocab (tokens ++ [token]) state' := by
  have hget := h.count token.toNat htoken
  have hle : (tokens.countP fun other => other.toNat = token.toNat) ≤ tokens.length :=
    List.countP_le_length
  generalize hcount : (tokens.countP fun other => other.toNat = token.toNat) = count at hget hle
  have hone : checkedAdd 64 count 1 = some (count + 1) := by
    rw [checkedAdd_eq_some]
    omega
  have htotal : checkedAdd 64 state.2 1 = some (tokens.length + 1) := by
    rw [checkedAdd_eq_some, h.total]
    exact ⟨hroom, rfl⟩
  refine ⟨(state.1.set token.toNat (count + 1), tokens.length + 1), ?_, ?_, ?_, ?_, ?_⟩
  · rw [countToken, hget]
    simp only [Option.bind_eq_bind, Option.bind_some, hone, htotal]
    rfl
  · rw [List.length_set, h.length]
  · rw [List.length_append, List.length_singleton]
  · have hsum := sum_map_set hget (count + 1) id
    rw [List.map_id, List.map_id, h.sum] at hsum
    rw [List.length_append, List.length_singleton]
    show (state.1.set token.toNat (count + 1)).sum = tokens.length + 1
    simp only [id_eq] at hsum
    omega
  · intro i hi
    rw [List.getElem?_set, List.countP_append, List.countP_singleton]
    by_cases heq : token.toNat = i
    · subst heq
      rw [if_pos rfl, if_pos (h.length ▸ htoken)]
      simp [hcount]
    · rw [if_neg heq, h.count i hi]
      simp [heq]

theorem foldlM_countToken (drafter : CorrectableDrafter) (hroom : tokens.length < 2 ^ 64)
    (h : ∀ token ∈ tokens, token.toNat < drafter.vocabSize) :
    ∃ state, tokens.foldlM countToken drafter.noCounts = some state ∧
      Counts drafter.vocabSize tokens state := by
  induction tokens using List.reverseRecOn with
  | nil => exact ⟨_, rfl, noCounts_counts drafter⟩
  | append_singleton tokens token ih =>
    rw [List.length_append, List.length_singleton] at hroom
    obtain ⟨state, hfold, hcounts⟩ := ih (by omega)
      fun token hmem => h token (List.mem_append_left _ hmem)
    obtain ⟨state', hcount, hcounts'⟩ :=
      countToken_inside hcounts (h token (List.mem_append_right _ List.mem_cons_self)) hroom
    refine ⟨state', ?_, hcounts'⟩
    rw [List.foldlM_append, hfold]
    simp [hcount]

/-- A token outside the vocabulary leaves no counts. -/
theorem foldlM_countToken_none (drafter : CorrectableDrafter) (hroom : tokens.length < 2 ^ 64)
    (h : ∃ token ∈ tokens, drafter.vocabSize ≤ token.toNat) :
    tokens.foldlM countToken drafter.noCounts = none := by
  induction tokens using List.reverseRecOn with
  | nil =>
    obtain ⟨token, hmem, _⟩ := h
    cases hmem
  | append_singleton tokens token ih =>
    rw [List.length_append, List.length_singleton] at hroom
    rw [List.foldlM_append]
    by_cases hinside : ∀ token ∈ tokens, token.toNat < drafter.vocabSize
    · obtain ⟨state, hfold, hcounts⟩ := foldlM_countToken drafter (by omega) hinside
      obtain ⟨outside, hmem, hle⟩ := h
      rcases List.mem_append.mp hmem with hold | hnew
      · have hlt := hinside outside hold
        omega
      · rw [List.mem_singleton] at hnew
        subst hnew
        rw [hfold]
        simp [countToken_outside hcounts hle]
    · push Not at hinside
      rw [ih (by omega) hinside]
      rfl

end Counts

theorem countsForOrder_eq (drafter : CorrectableDrafter) (history : List UInt32) (order : Nat) :
    drafter.countsForOrder history order =
      (followers history order).foldlM countToken drafter.noCounts := by
  rw [CorrectableDrafter.countsForOrder]
  split_ifs with hzero
  · rw [hzero, followers_zero, CorrectableDrafter.unigramCounts]
  · rw [CorrectableDrafter.orderCounts, followers]
    generalize drafter.noCounts = state
    induction contextEnds history order generalizing state with
    | nil => rfl
    | cons stop stops ih =>
      by_cases hcontext : contextBefore history order stop = currentContext history order
      · rw [List.foldlM_cons, if_neg (not_not.mpr hcontext),
          List.filter_cons_of_pos (by simpa using hcontext), List.map_cons, List.foldlM_cons]
        cases countToken state history[stop]! with
        | none => rfl
        | some state => exact ih state
      · rw [List.foldlM_cons, if_pos hcontext, List.filter_cons_of_neg (by simpa using hcontext)]
        exact ih state

end Leone.Drafting

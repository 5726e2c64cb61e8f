import Leone.Template.Generated
import Leone.Template.Reader

/-!
# End tags in JSON texts

The end of a call is the first end tag of the text. A layout of a value holds the tag if and only if
one of its strings does.
-/

namespace Leone.Template

open Framework

/-- A text that holds the end tag. -/
def Tagged (text : List Char) : Prop := toolCallEnd.toList <:+: text

/-! ## The parts of a text -/

theorem toolCallEnd_cons : toolCallEnd.toList = '<' :: "/tool_call>".toList := rfl

theorem toolCallEnd_ne_nil : toolCallEnd.toList ≠ [] := List.cons_ne_nil _ _

theorem tagged_behind {gap right : List Char} (hgap : '<' ∉ gap) :
    Tagged (gap ++ right) ↔ Tagged right := infix_gap_append_iff hgap

theorem tagged_before {left gap : List Char} (hgap : ∀ c ∈ gap, c ∉ toolCallEnd.toList) :
    Tagged (left ++ gap) ↔ Tagged left := infix_append_gap_iff toolCallEnd_ne_nil hgap

theorem tagged_split {sep : Char} (hsep : sep ∉ toolCallEnd.toList) {left right : List Char} :
    Tagged (left ++ sep :: right) ↔ Tagged left ∨ Tagged right := infix_append_cons_iff hsep

theorem not_tagged {text : List Char} (h : '<' ∉ text) : ¬ Tagged text := by
  intro htag
  exact h (htag.subset List.mem_cons_self)

theorem blank_notMem_end {gap : List Char} (h : Blank gap) : ∀ c ∈ gap, c ∉ toolCallEnd.toList := by
  intro c hc
  rcases h c hc with rfl | rfl <;> decide

theorem blank_notMem_lt {gap : List Char} (h : Blank gap) : '<' ∉ gap := by
  intro hmem
  exact blank_notMem_end h '<' hmem List.mem_cons_self

theorem exists_cons {α : Type} {p : α → Prop} (x : α) (xs : List α) :
    (∃ y ∈ x :: xs, p y) ↔ p x ∨ ∃ y ∈ xs, p y := by
  simp only [List.mem_cons, or_and_right, exists_or, exists_eq_left]

theorem exists_flatMap {α β : Type} {p : β → Prop} (g : α → List β) (xs : List α) :
    (∃ y ∈ xs.flatMap g, p y) ↔ ∃ x ∈ xs, ∃ y ∈ g x, p y := by
  simp only [List.mem_flatMap]
  constructor
  · intro h
    rcases h with ⟨y, ⟨x, hx, hy⟩, hp⟩
    exact ⟨x, hx, y, hy, hp⟩
  · intro h
    rcases h with ⟨x, hx, y, hy, hp⟩
    exact ⟨y, ⟨x, hx, hy⟩, hp⟩

theorem tagged_commas {items : List (List Char)} :
    Tagged (commas items) ↔ ∃ item ∈ items, Tagged item := by
  induction items with
  | nil =>
    have hnil : ¬ Tagged [] := not_tagged List.not_mem_nil
    simpa [commas] using hnil
  | cons first items ih =>
    cases items with
    | nil => simp only [commas_singleton, List.mem_singleton, exists_eq_left]
    | cons second items =>
      rw [commas_cons_cons, tagged_split (by decide), ih]
      exact (exists_cons first (second :: items)).symm

/-! ## Literals -/

theorem starts_escaped {m chars : List Char} (hm : backslash ∉ m)
    (h : m <+: chars.flatMap escapeChar) : m <+: chars := by
  induction chars generalizing m with
  | nil => exact h
  | cons c chars ih =>
    cases m with
    | nil => exact List.nil_prefix
    | cons d m =>
      rw [List.mem_cons, not_or] at hm
      have hplain : escapeChar c = [c] := by
        by_contra hescape
        have hhead : ∃ word, escapeChar c = backslash :: word := by
          unfold escapeChar at hescape ⊢
          split_ifs at hescape ⊢ <;> first | exact ⟨_, rfl⟩ | exact absurd rfl hescape
        rcases hhead with ⟨word, hword⟩
        rw [List.flatMap_cons, hword, List.cons_append, List.cons_prefix_cons] at h
        exact hm.1 h.1.symm
      rw [List.flatMap_cons, hplain, List.singleton_append, List.cons_prefix_cons] at h
      exact List.cons_prefix_cons.mpr ⟨h.1, ih hm.2 h.2⟩

theorem lt_notMem_escape {c : Char} (hc : c ≠ '<') : '<' ∉ escapeChar c := by
  have hdigits : ∀ n < 16, hexDigit n ≠ '<' := by decide
  have hhigh := hdigits (c.toNat / 16)
  have hlow := hdigits (c.toNat % 16) (Nat.mod_lt _ (by decide))
  unfold escapeChar
  split_ifs <;> simp only [List.mem_cons, List.not_mem_nil, or_false, not_or] <;> grind [quote, backslash]

theorem escape_end : toolCallEnd.toList.flatMap escapeChar = toolCallEnd.toList := by decide

theorem tagged_escaped {chars : List Char} : Tagged (chars.flatMap escapeChar) ↔ Tagged chars := by
  constructor
  · intro h
    induction chars with
    | nil => exact h
    | cons c chars ih =>
      by_cases hc : c = '<'
      · have hplain : escapeChar c = [c] := by rw [hc]; decide
        rw [Tagged, List.flatMap_cons, hplain, List.singleton_append, List.infix_cons_iff] at h
        rcases h with h | h
        · have hstarts : toolCallEnd.toList <+: (c :: chars).flatMap escapeChar := by
            rw [List.flatMap_cons, hplain]
            exact h
          exact (starts_escaped (by decide) hstarts).isInfix
        · exact List.infix_cons (ih h)
      · rw [List.flatMap_cons, tagged_behind (lt_notMem_escape hc)] at h
        exact List.infix_cons (ih h)
  · intro h
    rcases h with ⟨before, behind, rfl⟩
    rw [List.flatMap_append, List.flatMap_append, escape_end]
    exact ⟨_, _, rfl⟩

theorem tagged_literal (text : String) : Tagged (literal text) ↔ Tagged text.toList := by
  rw [literal, ← List.singleton_append, tagged_behind (by decide), tagged_before (forall_chars (by decide)),
    tagged_escaped]

/-! ## Layouts -/

theorem exists_forall₂ {α β : Type} {R : α → β → Prop} {p : α → Prop} {q : β → Prop} {xs : List α}
    {ys : List β} (h : List.Forall₂ R xs ys) (hiff : ∀ x ∈ xs, ∀ y, R x y → (q y ↔ p x)) :
    (∃ y ∈ ys, q y) ↔ ∃ x ∈ xs, p x := by
  induction h with
  | nil => simp
  | cons hxy _ ih =>
    rw [exists_cons, exists_cons, hiff _ List.mem_cons_self _ hxy,
      ih fun x hx => hiff x (List.mem_cons_of_mem _ hx)]

section Layout

variable {json : SerdeJson}

/-- A layout holds the end tag if and only if a string of its value does. -/
theorem tagged_layout {depth : Nat} {value : Value} {text : List Char} (hvalid : value.Valid json)
    (h : Layout Blank depth value text) : Tagged text ↔ ∃ s ∈ value.strings, Tagged s.toList := by
  have hnone : ∀ {text : List Char}, '<' ∉ text → ∀ {value : Value}, value.strings = [] →
      (Tagged text ↔ ∃ s ∈ value.strings, Tagged s.toList) := by
    intro text htext value hstrings
    rw [hstrings]
    simpa using not_tagged htext
  induction depth generalizing value text with
  | zero => exact h.elim
  | succ depth ih =>
    cases value with
    | null =>
      rw [show text = "null".toList from h]
      exact hnone (by decide) rfl
    | bool value =>
      rw [show text = (if value then "true" else "false").toList from h]
      apply hnone _ rfl
      cases value <;> decide
    | number value =>
      rw [show text = value.toList from h]
      apply hnone _ rfl
      intro hmem
      exact absurd (hvalid.1 '<' hmem) (by decide)
    | string value =>
      rw [show text = literal value from h, tagged_literal]
      simp [Value.strings]
    | array values =>
      rcases h with ⟨items, hitems, rfl⟩
      rw [← List.singleton_append, tagged_behind (by decide), tagged_before (forall_chars (by decide)),
        tagged_commas, Value.strings, stringsOfValues_eq, exists_flatMap]
      apply exists_forall₂ hitems
      intro value hvalue item hitem
      rcases hitem with ⟨before, inner, behind, hbefore, hbehind, hinner, rfl⟩
      rw [tagged_before (blank_notMem_end hbehind), tagged_behind (blank_notMem_lt hbefore)]
      exact ih (validValues_iff.mp hvalid value hvalue) hinner
    | object entries =>
      rcases h with ⟨fields, items, hperm, hitems, rfl⟩
      rw [← List.singleton_append, tagged_behind (by decide), tagged_before (forall_chars (by decide)),
        tagged_commas, Value.strings, stringsOfFields_eq, exists_flatMap]
      simp only [← hperm.mem_iff]
      apply exists_forall₂ hitems
      intro entry hentry item hitem
      have hvalid := validFields_iff.mp hvalid.2 entry (hperm.mem_iff.mp hentry)
      rcases hitem with ⟨before, gap, inner, behind, hbefore, hgap, hbehind, hinner, rfl⟩
      rw [tagged_split (by decide), tagged_behind (blank_notMem_lt hbefore), tagged_literal,
        tagged_before (blank_notMem_end hbehind), tagged_behind (blank_notMem_lt hgap), exists_cons]
      exact or_congr_right (ih hvalid hinner)

end Layout

end Leone.Template

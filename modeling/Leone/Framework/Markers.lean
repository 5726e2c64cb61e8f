import Mathlib

/-!
# Markers in a text

Markers that share an opening symbol, which stands nowhere else in them. Two of them can not
overlap, so the markers of a text can be read position by position, and a text that is cut at its
markers is read part by part.
-/

namespace Framework

variable {α : Type*} [DecidableEq α]

/-- Markers that start with one symbol, hold it nowhere else and do not continue each other. -/
structure Marked (opening : α) (markers : List (List α)) : Prop where
  nodup : markers.Nodup
  opens : ∀ m ∈ markers, m.head? = some opening ∧ opening ∉ m.tail
  separate : ∀ m ∈ markers, ∀ m' ∈ markers, m <+: m' → m = m'

instance (opening : α) (markers : List (List α)) : Decidable (Marked opening markers) :=
  decidable_of_iff (markers.Nodup ∧ (∀ m ∈ markers, m.head? = some opening ∧ opening ∉ m.tail) ∧
      ∀ m ∈ markers, ∀ m' ∈ markers, m <+: m' → m = m')
    ⟨fun h => ⟨h.1, h.2.1, h.2.2⟩, fun h => ⟨h.nodup, h.opens, h.separate⟩⟩

/-- The markers that start a text. -/
def markersAt (markers : List (List α)) (text : List α) : List (List α) :=
  markers.filter fun m => m.isPrefixOf text

/-- The markers of a text, in their order. -/
def occurrences (markers : List (List α)) : List α → List (List α)
  | [] => []
  | c :: rest => markersAt markers (c :: rest) ++ occurrences markers rest

@[simp] theorem occurrences_nil (markers : List (List α)) : occurrences markers [] = [] := rfl

namespace Marked

variable {opening : α} {markers : List (List α)}

omit [DecidableEq α] in
theorem eq_cons (h : Marked opening markers) {m : List α} (hm : m ∈ markers) :
    ∃ rest, m = opening :: rest ∧ opening ∉ rest := by
  have hopens := h.opens m hm
  cases m with
  | nil => cases hopens.1
  | cons c rest =>
    simp only [List.head?_cons, Option.some.injEq, List.tail_cons] at hopens
    exact ⟨rest, by rw [hopens.1], hopens.2⟩

/-- A text without the opening symbol at its head starts no marker. -/
theorem markersAt_of_ne (h : Marked opening markers) {c : α} (hc : c ≠ opening)
    (rest : List α) : markersAt markers (c :: rest) = [] := by
  apply List.filter_eq_nil_iff.mpr
  intro m hm hstarts
  have hcons := h.eq_cons hm
  obtain ⟨tail, rfl, _⟩ := hcons
  rw [List.isPrefixOf_iff_prefix, List.cons_prefix_cons] at hstarts
  exact hc hstarts.1.symm

/-- A part without the opening symbol holds no start of a marker. -/
theorem occurrences_append_of_not_mem (h : Marked opening markers) {left : List α}
    (hleft : opening ∉ left) (right : List α) :
    occurrences markers (left ++ right) = occurrences markers right := by
  induction left with
  | nil => rfl
  | cons c left ih =>
    rw [List.mem_cons, not_or] at hleft
    simp only [List.cons_append, occurrences, h.markersAt_of_ne (Ne.symm hleft.1),
      List.nil_append]
    exact ih hleft.2

/-- A marker that starts in front of an opening symbol ends in front of it. -/
theorem starts_iff (h : Marked opening markers) {m : List α} (hm : m ∈ markers) (c : α)
    (left right : List α) :
    m <+: c :: left ++ opening :: right ↔ m <+: c :: left := by
  have hcons := h.eq_cons hm
  obtain ⟨tail, rfl, htail⟩ := hcons
  rw [List.cons_append, List.cons_prefix_cons, List.cons_prefix_cons]
  apply and_congr_right
  intro _
  constructor
  · intro hstarts
    by_contra hlonger
    have hboth := List.prefix_or_prefix_of_prefix hstarts (List.prefix_append left _)
    rcases hboth with hshort | hlong
    · exact hlonger hshort
    · obtain ⟨more, rfl⟩ := hlong
      rw [List.prefix_append_right_inj] at hstarts
      cases more with
      | nil => exact hlonger (by rw [List.append_nil])
      | cons d more =>
        rw [List.cons_prefix_cons] at hstarts
        exact htail (by simp [hstarts.1])
  · exact fun hstarts => hstarts.trans (List.prefix_append left _)

/-- What stands in front of an opening symbol is read on its own. -/
theorem occurrences_append_opening (h : Marked opening markers) (left right : List α) :
    occurrences markers (left ++ opening :: right) =
      occurrences markers left ++ occurrences markers (opening :: right) := by
  induction left with
  | nil => rfl
  | cons c left ih =>
    have hat : markersAt markers (c :: left ++ opening :: right) =
        markersAt markers (c :: left) := by
      apply List.filter_congr
      intro m hm
      rw [Bool.eq_iff_iff, List.isPrefixOf_iff_prefix, List.isPrefixOf_iff_prefix]
      exact h.starts_iff hm c left right
    rw [List.cons_append] at hat ⊢
    simp only [occurrences, hat, ih, List.append_assoc]

/-- A marker at the head of a text is the only one there. -/
theorem markersAt_append (h : Marked opening markers) {m : List α} (hm : m ∈ markers)
    (right : List α) : markersAt markers (m ++ right) = [m] := by
  have honly : ∀ m' ∈ markers, (m'.isPrefixOf (m ++ right) = true ↔ m' = m) := by
    intro m' hm'
    rw [List.isPrefixOf_iff_prefix]
    constructor
    · intro hstarts
      rcases List.prefix_or_prefix_of_prefix hstarts (List.prefix_append m right) with hle | hge
      · exact h.separate m' hm' m hm hle
      · exact (h.separate m hm m' hm' hge).symm
    · intro heq
      rw [heq]
      exact List.prefix_append m right
  have hfilter : markersAt markers (m ++ right) = markers.filter fun m' => decide (m' = m) := by
    apply List.filter_congr
    intro m' hm'
    rw [Bool.eq_iff_iff, honly m' hm', decide_eq_true_eq]
  rw [hfilter, List.filter_eq, List.count_eq_one_of_mem h.nodup hm, List.replicate_one]

/-- A text is read in front of one of its markers and behind it. -/
theorem occurrences_append_marker (h : Marked opening markers) {m : List α} (hm : m ∈ markers)
    (left right : List α) :
    occurrences markers (left ++ (m ++ right)) =
      occurrences markers left ++ m :: occurrences markers right := by
  have hat := h.markersAt_append hm right
  have hcons := h.eq_cons hm
  obtain ⟨tail, rfl, htail⟩ := hcons
  rw [List.cons_append] at hat ⊢
  rw [h.occurrences_append_opening, occurrences, hat, h.occurrences_append_of_not_mem htail,
    List.singleton_append]

end Marked

/-! ## Searching for the next marker -/

/-- The first position of a text at which a marker starts. -/
def findMarker (m : List α) : List α → Option Nat
  | [] => if m = [] then some 0 else none
  | c :: rest =>
    if m.isPrefixOf (c :: rest) then some 0 else (findMarker m rest).map (· + 1)

theorem findMarker_eq_some {m text : List α} {offset : Nat}
    (h : findMarker m text = some offset) :
    text = text.take offset ++ (m ++ text.drop (offset + m.length)) ∧
      ∀ i < offset, ¬ m <+: text.drop i := by
  induction text generalizing offset with
  | nil =>
    simp only [findMarker] at h
    split_ifs at h with hm
    cases h
    simp [hm]
  | cons c rest ih =>
    simp only [findMarker] at h
    split_ifs at h with hm
    · cases h
      rw [List.isPrefixOf_iff_prefix] at hm
      obtain ⟨right, hright⟩ := hm
      simp [← hright]
    · rw [Option.map_eq_some_iff] at h
      obtain ⟨inner, hinner, rfl⟩ := h
      obtain ⟨hsplit, hfirst⟩ := ih hinner
      constructor
      · rw [List.take_succ_cons, Nat.add_right_comm, List.drop_succ_cons, List.cons_append,
          ← hsplit]
      · intro i hi
        cases i with
        | zero =>
          rw [← List.isPrefixOf_iff_prefix]
          exact hm
        | succ i => exact hfirst i (Nat.lt_of_succ_lt_succ hi)

theorem findMarker_eq_none {m text : List α} (h : findMarker m text = none) (i : Nat) :
    ¬ m <+: text.drop i := by
  induction text generalizing i with
  | nil =>
    simp only [findMarker] at h
    split_ifs at h with hm
    simpa using hm
  | cons c rest ih =>
    simp only [findMarker] at h
    split_ifs at h with hm
    rw [Option.map_eq_none_iff] at h
    cases i with
    | zero =>
      rw [← List.isPrefixOf_iff_prefix]
      exact hm
    | succ i => exact ih h i

/-- A text in which no marker starts anywhere holds none. -/
theorem occurrences_eq_nil {markers : List (List α)} {text : List α}
    (h : ∀ m ∈ markers, ∀ i < text.length, ¬ m <+: text.drop i) :
    occurrences markers text = [] := by
  induction text with
  | nil => rfl
  | cons c rest ih =>
    have hat : markersAt markers (c :: rest) = [] := by
      apply List.filter_eq_nil_iff.mpr
      intro m hm hstarts
      rw [List.isPrefixOf_iff_prefix] at hstarts
      exact h m hm 0 (by simp) hstarts
    rw [occurrences, hat, List.nil_append]
    apply ih
    intro m hm i hi
    exact h m hm (i + 1) (by simpa using hi)

/-- The first position of every marker that the text holds. -/
def markerHits (markers : List (List α)) (text : List α) : List (Nat × List α) :=
  markers.filterMap fun m => (findMarker m text).map fun offset => (offset, m)

theorem mem_markerHits {markers : List (List α)} {text : List α} {hit : Nat × List α} :
    hit ∈ markerHits markers text ↔ hit.2 ∈ markers ∧ findMarker hit.2 text = some hit.1 := by
  rw [markerHits, List.mem_filterMap]
  constructor
  · intro h
    obtain ⟨m, hm, hfind⟩ := h
    rw [Option.map_eq_some_iff] at hfind
    obtain ⟨offset, hoffset, rfl⟩ := hfind
    exact ⟨hm, hoffset⟩
  · intro h
    exact ⟨hit.2, h.1, by rw [h.2, Option.map_some]⟩

theorem occurrences_of_markerHits_nil {markers : List (List α)} {text : List α}
    (h : markerHits markers text = []) : occurrences markers text = [] := by
  apply occurrences_eq_nil
  intro m hm i _
  cases hfind : findMarker m text with
  | none => exact findMarker_eq_none hfind i
  | some offset =>
    have hmem : (offset, m) ∈ markerHits markers text := mem_markerHits.mpr ⟨hm, hfind⟩
    rw [h] at hmem
    cases hmem

/-- The first hit of a text cuts it at a marker, in front of which it holds none. -/
theorem first_markerHit {markers : List (List α)} {text : List α} {hit : Nat × List α}
    (hmem : hit ∈ markerHits markers text)
    (hfirst : ∀ hit' ∈ markerHits markers text, hit.1 ≤ hit'.1) :
    text = text.take hit.1 ++ (hit.2 ++ text.drop (hit.1 + hit.2.length)) ∧
      occurrences markers (text.take hit.1) = [] := by
  rw [mem_markerHits] at hmem
  obtain ⟨hm, hfind⟩ := hmem
  have hsplit := findMarker_eq_some hfind
  refine ⟨hsplit.1, occurrences_eq_nil fun m hm' i hi hstarts => ?_⟩
  rw [List.length_take] at hi
  -- an earlier marker in the part would be a hit of the text in front of the first one
  have hwhole : m <+: text.drop i := by
    apply hstarts.trans
    rw [List.drop_take]
    exact List.take_prefix _ _
  cases hfind' : findMarker m text with
  | none => exact findMarker_eq_none hfind' i hwhole
  | some offset =>
    have hle := hfirst (offset, m) (mem_markerHits.mpr ⟨hm', hfind'⟩)
    have hpast := (findMarker_eq_some hfind').2 i
    dsimp only at hle
    exact hpast (by omega) hwhole

/-! ## Markers in the parts of a text -/

section Within

variable {β : Type*} {m left right gap : List β} {sep : β}

theorem prefix_of_append_cons (hsep : sep ∉ m) (h : m <+: left ++ sep :: right) : m <+: left := by
  induction left generalizing m with
  | nil =>
    cases m with
    | nil => exact List.nil_prefix
    | cons c m =>
      rw [List.nil_append, List.cons_prefix_cons] at h
      exact absurd (h.1 ▸ List.mem_cons_self) hsep
  | cons d left ih =>
    cases m with
    | nil => exact List.nil_prefix
    | cons c m =>
      rw [List.cons_append, List.cons_prefix_cons] at h
      rw [List.cons_prefix_cons]
      exact ⟨h.1, ih (fun hmem => hsep (List.mem_cons_of_mem c hmem)) h.2⟩

/-- A marker does not reach across a separator that it does not hold. -/
theorem infix_append_cons_iff (hsep : sep ∉ m) :
    m <:+: left ++ sep :: right ↔ m <:+: left ∨ m <:+: right := by
  constructor
  · intro h
    induction left with
    | nil =>
      rw [List.nil_append, List.infix_cons_iff] at h
      rcases h with h | h
      · exact .inl (@prefix_of_append_cons _ m [] right sep hsep h).isInfix
      · exact .inr h
    | cons d left ih =>
      rw [List.cons_append, List.infix_cons_iff] at h
      rcases h with h | h
      · exact .inl (@prefix_of_append_cons _ m (d :: left) right sep hsep h).isInfix
      · rcases ih h with h | h
        · exact .inl (List.infix_cons h)
        · exact .inr h
  · intro h
    rcases h with h | h
    · exact h.trans (List.prefix_append left _).isInfix
    · exact h.trans ((List.suffix_cons sep right).trans (List.suffix_append left _)).isInfix

/-- A marker behind a gap that does not hold its first element. -/
theorem infix_gap_append_iff {first : β} (hgap : first ∉ gap) :
    (first :: m) <:+: gap ++ right ↔ (first :: m) <:+: right := by
  induction gap with
  | nil => rfl
  | cons c gap ih =>
    rw [List.mem_cons, not_or] at hgap
    rw [List.cons_append, List.infix_cons_iff, ih hgap.2, List.cons_prefix_cons]
    exact or_iff_right fun h => hgap.1 h.1

theorem infix_append_gap_iff (hne : m ≠ []) (hgap : ∀ c ∈ gap, c ∉ m) :
    m <:+: left ++ gap ↔ m <:+: left := by
  cases gap with
  | nil => rw [List.append_nil]
  | cons c gap =>
    rw [infix_append_cons_iff (hgap c List.mem_cons_self)]
    apply or_iff_left
    intro h
    rcases List.exists_mem_of_ne_nil m hne with ⟨d, hd⟩
    exact hgap d (List.mem_cons_of_mem c (h.subset hd)) hd

variable [DecidableEq β]

/-- The first marker of a text stands behind a separator and a part that holds none. -/
theorem findMarker_behind (hsep : sep ∉ m) (hne : m ≠ []) (hfront : ¬ m <:+: left) :
    findMarker m (left ++ sep :: (m ++ right)) = some (left.length + 1) := by
  have hno : ∀ front : List β, ¬ m <:+: front → ¬ m <+: front ++ sep :: (m ++ right) :=
    fun front hfront h => hfront (prefix_of_append_cons hsep h).isInfix
  induction left with
  | nil =>
    have hstart : m <+: m ++ right := List.prefix_append m right
    have hfind : findMarker m (m ++ right) = some 0 := by
      cases hlist : m ++ right with
      | nil => exact absurd (List.append_eq_nil_iff.mp hlist).1 hne
      | cons c rest =>
        rw [findMarker, if_pos (List.isPrefixOf_iff_prefix.mpr (hlist ▸ hstart))]
    rw [List.nil_append, findMarker, if_neg, hfind, Option.map_some, List.length_nil]
    rw [List.isPrefixOf_iff_prefix]
    exact hno [] hfront
  | cons c left ih =>
    rw [List.cons_append, findMarker, if_neg, ih fun h => hfront (List.infix_cons h), Option.map_some,
      List.length_cons]
    rw [List.isPrefixOf_iff_prefix]
    exact hno (c :: left) hfront

/-- A marker in a text is found at the latest where it stands. -/
theorem findMarker_le (h : m <:+: left) (right : List β) :
    ∃ stop, findMarker m (left ++ right) = some stop ∧ stop + m.length ≤ left.length := by
  rcases h with ⟨before, behind, rfl⟩
  have hstarts : m <+: (before ++ m ++ behind ++ right).drop before.length := by
    rw [List.append_assoc, List.append_assoc, List.drop_left]
    exact List.prefix_append m _
  cases hfind : findMarker m (before ++ m ++ behind ++ right) with
  | none => exact absurd hstarts (findMarker_eq_none hfind before.length)
  | some stop =>
    refine ⟨stop, rfl, ?_⟩
    have hle : stop ≤ before.length := by
      by_contra hlt
      exact (findMarker_eq_some hfind).2 before.length (Nat.not_le.mp hlt) hstarts
    rw [List.length_append, List.length_append]
    omega

end Within

end Framework

import Leone.Kv.Stage

/-!
# Reading a KV table and copying it

A well-formed table maps its segments to spans without a gap, so every address below its
position lies in exactly one span. Forks and restored snapshots are well formed and have the
rows of their source.
-/

namespace Leone.Kv

open Framework Framework.Method

/-! ## Read views -/

def KvReadSpan.Contains (span : KvReadSpan) (position : Nat) : Prop :=
  span.logicalStart ≤ position ∧ position < span.logicalStart + span.tokens

/-- The spans map the addresses from one to another without a gap. -/
def Spanned : Nat → List KvReadSpan → Nat → Prop
  | a, [], b => a = b
  | a, span :: spans, b => span.logicalStart = a ∧ 0 < span.tokens ∧ Spanned (a + span.tokens) spans b

theorem Spanned.le {a b : Nat} {spans : List KvReadSpan} (h : Spanned a spans b) : a ≤ b := by
  induction spans generalizing a with
  | nil => exact Nat.le_of_eq h
  | cons span spans ih => exact (Nat.le_add_right _ _).trans (ih h.2.2)

theorem Spanned.bounds {a b : Nat} {spans : List KvReadSpan} (h : Spanned a spans b) :
    ∀ span ∈ spans, a ≤ span.logicalStart ∧ span.logicalStart + span.tokens ≤ b := by
  induction spans generalizing a with
  | nil => simp
  | cons span spans ih =>
    intro other hmem
    rcases List.mem_cons.mp hmem with rfl | hmem
    · exact ⟨h.1.ge, by rw [h.1]; exact h.2.2.le⟩
    · have := ih h.2.2 other hmem
      exact ⟨(Nat.le_add_right _ _).trans this.1, this.2⟩

theorem Spanned.fold {a b : Nat} {spans : List KvReadSpan} (h : Spanned a spans b)
    (hb : b < 2 ^ 64) : spans.foldlM KvReadView.extend a = .ok b := by
  induction spans generalizing a with
  | nil => exact congrArg Except.ok h
  | cons span spans ih =>
    have hnext := h.2.2.le
    have hextend : KvReadView.extend a span = .ok (a + span.tokens) := by
      rw [KvReadView.extend, if_neg (not_not.mpr h.1), h.1]
      exact sized_eq_ok.mpr (checkedAdd_eq_some.mpr ⟨by omega, rfl⟩)
    rw [List.foldlM_cons, hextend]
    exact ih h.2.2

/-- The checks of a view accept spans without a gap. -/
theorem Spanned.new {b : Nat} {spans : List KvReadSpan} (h : Spanned 0 spans b) (hb : b < 2 ^ 64) :
    KvReadView.new spans = .ok ⟨spans, b⟩ := by
  rw [KvReadView.new, h.fold hb]
  rfl

/-- An address below the end lies in one span, which the view finds. -/
theorem Spanned.find {a b position : Nat} {spans : List KvReadSpan} (h : Spanned a spans b)
    (hlow : a ≤ position) (hhigh : position < b) (mappedTokens : Nat) :
    ∃ front span back row, spans = front ++ span :: back ∧
      KvReadView.spanForPosition ⟨spans, mappedTokens⟩ position = some (span, row) ∧
      span.logicalStart + row = position ∧ span.Contains position ∧
      ∀ other ∈ front ++ back, ¬ other.Contains position := by
  induction spans generalizing a with
  | nil =>
    obtain rfl : a = b := h
    omega
  | cons span spans ih =>
    obtain ⟨rfl, hpos, hrest⟩ := h
    by_cases hin : position < span.logicalStart + span.tokens
    · refine ⟨[], span, spans, position - span.logicalStart, rfl, ?_, by omega, ⟨hlow, hin⟩, ?_⟩
      · have hrow : position - span.logicalStart < span.tokens := by omega
        simp [KvReadView.spanForPosition, checkedSub_eq_some.mpr ⟨hlow, rfl⟩, hrow]
      · intro other hmem hcontains
        have := (hrest.bounds other hmem).1
        unfold KvReadSpan.Contains at hcontains
        omega
    · obtain ⟨front, found, back, row, heq, hfind, hrow, hcontains, hother⟩ :=
        ih hrest (by omega)
      refine ⟨span :: front, found, back, row, by rw [heq]; rfl, ?_, hrow, hcontains, ?_⟩
      · have hout : ¬ position - span.logicalStart < span.tokens := by omega
        rw [KvReadView.spanForPosition] at hfind ⊢
        rw [List.findSome?_cons]
        simp only [checkedSub_eq_some.mpr ⟨hlow, rfl⟩, if_neg hout]
        exact hfind
      · intro other hmem hcontains'
        rcases List.mem_cons.mp hmem with rfl | hmem
        · exact hin hcontains'.2
        · exact hother other hmem hcontains'

/-! ## Mapping the segments -/

/-- A segment whose mapped rows fit maps to one span, or lacks the layer. -/
theorem readSpan_spec {s : KvState} {layer index maxContext : Nat} {segment : KvSegment}
    (hfits : segment.Fits maxContext) (hcontext : maxContext < 2 ^ 64)
    (hpos : 0 < s.mappedTokens index segment)
    (hle : s.mappedTokens index segment ≤ segment.storage.capacityTokens) :
    s.readSpan layer (segment, index) =
      if segment.storage.layers ≤ layer then
        .error (.operation "read KV spans" "layer is missing")
      else .ok [⟨segment.storage.id, segment.logicalStart, s.mappedTokens index segment,
        segment.storage.capacityTokens⟩] := by
  have hstop := hfits.2
  have hnew : KvReadSpan.new segment.storage.id segment.logicalStart
      (s.mappedTokens index segment) segment.storage.capacityTokens =
        .ok ⟨segment.storage.id, segment.logicalStart, s.mappedTokens index segment,
          segment.storage.capacityTokens⟩ := by
    rw [KvReadSpan.new, nonzero, nonzero, if_neg (by omega), if_neg (by omega), if_neg (by omega),
      sized_eq_ok.mpr (checkedAdd_eq_some.mpr ⟨by omega, rfl⟩)]
    rfl
  unfold KvState.readSpan
  dsimp only
  split
  · rfl
  · rw [if_neg (by omega), hnew]
    rfl

/-- What mapping the segments of a table needs to know of them. -/
def KvState.Maps (s : KvState) (segments : List KvSegment) (index : Nat) : Prop :=
  ∀ front segment back, segments = front ++ segment :: back →
    segment.Fits s.shape.maxContext ∧
      segment.committedTokens ≤ s.mappedTokens (index + front.length) segment ∧
      0 < s.mappedTokens (index + front.length) segment ∧
      s.mappedTokens (index + front.length) segment ≤ segment.storage.capacityTokens ∧
      (back ≠ [] → s.mappedTokens (index + front.length) segment = segment.committedTokens)

theorem KvState.Valid.maps {s : KvState} (h : s.Valid) : s.Maps s.segments 0 := by
  intro front segment back heq
  have hmem : segment ∈ s.segments := by
    rw [heq]
    simp
  have hfits := h.fits segment hmem
  have hfilled := h.filled front segment back heq
  rw [Nat.zero_add]
  unfold KvState.mappedTokens
  cases hpending : s.pending with
  | none =>
    rw [Option.map_none, if_neg (by simp)]
    have : segment.committedTokens ≠ 0 := fun hzero => (hfilled hzero).2 hpending
    exact ⟨hfits, le_refl _, Nat.pos_of_ne_zero this, hfits.1, fun _ => rfl⟩
  | some range =>
    obtain ⟨hstart, htokens, before, last, hsegments, hindex, hstop⟩ := h.pending range hpending
    rw [Option.map_some]
    rcases List.eq_nil_or_concat back with rfl | ⟨back', last', rfl⟩
    · obtain ⟨rfl, hlast⟩ := List.append_inj' (heq.symm.trans hsegments) rfl
      obtain rfl := List.singleton_inj.mp hlast
      have := h.position_eq hsegments
      rw [hindex, if_pos rfl]
      exact ⟨hfits, hfits.1, by omega, le_refl _, fun hne => absurd rfl hne⟩
    · have hlen := congrArg List.length (heq.symm.trans hsegments)
      simp only [List.length_append, List.length_cons, List.concat_eq_append,
        List.length_nil] at hlen
      rw [if_neg (by rw [Option.some.injEq]; omega)]
      have : segment.committedTokens ≠ 0 := by
        intro hzero
        have := (hfilled hzero).1
        simp at this
      exact ⟨hfits, le_refl _, Nat.pos_of_ne_zero this, hfits.1, fun _ => rfl⟩

theorem KvState.Maps.tail {s : KvState} {segment : KvSegment} {segments : List KvSegment}
    {index : Nat} (h : s.Maps (segment :: segments) index) : s.Maps segments (index + 1) := by
  intro front other back heq
  have := h (segment :: front) other back (by rw [heq]; rfl)
  rwa [List.length_cons, Nat.add_comm front.length 1, ← Nat.add_assoc] at this

/-- The spans of mapped segments cover their rows, and perhaps the rest of the last storage. -/
theorem KvState.Maps.spanned {s : KvState} {segments : List KvSegment} {index a b layer : Nat}
    (h : s.Maps segments index) (hcovers : Covers a segments b) {spans : List (List KvReadSpan)}
    (hspans : (segments.zipIdx index).mapM (s.readSpan layer) = .ok spans) :
    ∃ stop, b ≤ stop ∧ stop ≤ max b s.shape.maxContext ∧ Spanned a spans.flatten stop := by
  induction segments generalizing index a spans with
  | nil =>
    obtain rfl := Except.ok.inj hspans
    exact ⟨b, le_refl _, le_max_left _ _, hcovers⟩
  | cons segment segments ih =>
    rw [List.zipIdx_cons, List.mapM_cons] at hspans
    obtain ⟨span, hspan, hspans⟩ := bind_eq_ok.mp hspans
    obtain ⟨rest, hrest, hspans⟩ := bind_eq_ok.mp hspans
    obtain rfl := Except.ok.inj hspans
    obtain ⟨hfits, hcommitted, hpos, hle, hmapped⟩ := h [] segment segments rfl
    rw [List.length_nil, Nat.add_zero] at hcommitted hpos hle hmapped
    rw [readSpan_spec hfits s.shape.maxContext_lt hpos hle] at hspan
    split at hspan
    · cases hspan
    · obtain rfl := Except.ok.inj hspan
      by_cases hlast : segments = []
      · subst hlast
        obtain rfl := Except.ok.inj hrest
        refine ⟨a + s.mappedTokens index segment, ?_, ?_, hcovers.1, hpos, rfl⟩
        · have := hcovers.2
          simp only [Covers] at this
          omega
        · have := hfits.2
          have := hcovers.1
          omega
      · obtain ⟨stop, hb, hmax, hrest⟩ := ih h.tail hcovers.2 hrest
        refine ⟨stop, hb, hmax, hcovers.1, hpos, ?_⟩
        dsimp only
        rw [hmapped hlast]
        exact hrest

/-- Mapping the segments fails only for a segment that lacks the layer. -/
theorem KvState.Maps.error {s : KvState} {segments : List KvSegment} {index layer : Nat}
    (h : s.Maps segments index) {e : BackendError}
    (hspans : (segments.zipIdx index).mapM (s.readSpan layer) = .error e) :
    e = .operation "read KV spans" "layer is missing" ∧
      ∃ segment ∈ segments, segment.storage.layers ≤ layer := by
  induction segments generalizing index with
  | nil => cases hspans
  | cons segment segments ih =>
    obtain ⟨hfits, -, hpos, hle, -⟩ := h [] segment segments rfl
    rw [List.length_nil, Nat.add_zero] at hpos hle
    rw [List.zipIdx_cons, List.mapM_cons, readSpan_spec hfits s.shape.maxContext_lt hpos hle] at hspans
    split at hspans
    · rename_i hmissing
      cases hspans
      exact ⟨rfl, segment, List.mem_cons_self, hmissing⟩
    · cases hrest : (segments.zipIdx (index + 1)).mapM (s.readSpan layer) with
      | ok rest =>
        rw [hrest] at hspans
        cases hspans
      | error e' =>
        rw [hrest] at hspans
        cases hspans
        obtain ⟨he, other, hmem, hmissing⟩ := ih h.tail hrest
        exact ⟨he, other, List.mem_cons_of_mem _ hmem, hmissing⟩

/-- A view in which every address below the position lies in exactly one span. -/
structure KvReadView.Reads (view : KvReadView) (position : Nat) : Prop where
  finds : ∀ p < position, ∃ front span back row, view.spans = front ++ span :: back ∧
    view.spanForPosition p = some (span, row) ∧ span.logicalStart + row = p ∧
    ∀ other ∈ front ++ back, ¬ other.Contains p

/-- The spans of a well-formed table make a view of every row below its position. -/
theorem readSpans_spec {s : KvState} (h : s.Valid) (layer : Nat) (memory : Memory) :
    Ends (s.readSpans layer) memory
      (fun spans _ => ∃ view, KvReadView.new spans = .ok view ∧ view.Reads s.position)
      (fun fault _ => (∃ message, fault = .error (.operation "allocate KV read spans" message)) ∨
        fault = .error (.operation "read KV spans" "layer is missing") ∧
          ∃ segment ∈ s.segments, segment.storage.layers ≤ layer) := by
  simp only [KvState.readSpans, ends_bind, ends_ofExcept, ends_pure]
  apply ends_reserve
  · intro _ _
    constructor
    · intro spans hspans
      obtain ⟨stop, hposition, hmax, hspanned⟩ := h.maps.spanned h.covers hspans
      have := h.position_le
      have := s.shape.maxContext_lt
      refine ⟨_, hspanned.new (by omega), ⟨?_⟩⟩
      intro p hp
      obtain ⟨front, span, back, row, heq, hfind, hrow, -, hother⟩ :=
        hspanned.find (Nat.zero_le p) (hp.trans_le hposition) stop
      exact ⟨front, span, back, row, heq, hfind, hrow, hother⟩
    · intro e he
      obtain ⟨rfl, hmissing⟩ := h.maps.error he
      exact .inr ⟨rfl, hmissing⟩
  · intro message _ _
    exact .inl ⟨message, rfl⟩

end Leone.Kv

import Leone.Kv.Rollback

/-!
# Well-formed KV tables

The segments of a table cover the logical addresses below its position without a gap, only a
pending append target may be empty, and every segment fits the context. Cutting a table keeps
this, and keeps the physical slots of the rows below the cut.
-/

namespace Leone.Kv

open Framework Framework.Method

/-! ## Coverage -/

/-- The segments hold rows without a gap from one address to another. -/
def Covers : Nat → List KvSegment → Nat → Prop
  | a, [], b => a = b
  | a, segment :: segments, b =>
    segment.logicalStart = a ∧ Covers (a + segment.committedTokens) segments b

theorem covers_append {a c : Nat} {front back : List KvSegment} :
    Covers a (front ++ back) c ↔ ∃ b, Covers a front b ∧ Covers b back c := by
  induction front generalizing a with
  | nil => simp [Covers]
  | cons segment front ih => simp [Covers, ih, and_assoc]

@[simp] theorem covers_singleton {a b : Nat} {segment : KvSegment} :
    Covers a [segment] b ↔ segment.logicalStart = a ∧ a + segment.committedTokens = b := Iff.rfl

theorem covers_concat {a c : Nat} {front : List KvSegment} {last : KvSegment} :
    Covers a (front ++ [last]) c ↔
      Covers a front last.logicalStart ∧ last.logicalStart + last.committedTokens = c := by
  simp only [covers_append, covers_singleton]
  constructor
  · rintro ⟨b, hfront, rfl, hend⟩
    exact ⟨hfront, hend⟩
  · intro h
    exact ⟨last.logicalStart, h.1, rfl, h.2⟩

/-- A physical row: a storage and a row of it. -/
abbrev Slot := Nat × Nat

/-- The first rows of a segment's storage. -/
def KvSegment.slots (segment : KvSegment) (tokens : Nat) : List Slot :=
  (List.range tokens).map fun row => (segment.storage.id, row)

/-- The physical rows of the logical addresses below the position, in their order. -/
def slotsOf (segments : List KvSegment) : List Slot :=
  segments.flatMap fun segment => segment.slots segment.committedTokens

def KvState.slots (s : KvState) : List Slot := slotsOf s.segments

@[simp] theorem KvSegment.length_slots (segment : KvSegment) (tokens : Nat) :
    (segment.slots tokens).length = tokens := by simp [KvSegment.slots]

theorem KvSegment.take_slots (segment : KvSegment) {n tokens : Nat} (h : n ≤ tokens) :
    (segment.slots tokens).take n = segment.slots n := by
  rw [KvSegment.slots, ← List.map_take, List.take_range, Nat.min_eq_left h, KvSegment.slots]

@[simp] theorem slotsOf_append (front back : List KvSegment) :
    slotsOf (front ++ back) = slotsOf front ++ slotsOf back := List.flatMap_append

@[simp] theorem slotsOf_singleton (segment : KvSegment) :
    slotsOf [segment] = segment.slots segment.committedTokens := by simp [slotsOf]

theorem Covers.length_slots {a b : Nat} {segments : List KvSegment} (h : Covers a segments b) :
    a + (slotsOf segments).length = b := by
  induction segments generalizing a with
  | nil => exact h
  | cons segment segments ih =>
    have := ih h.2
    rw [slotsOf, List.flatMap_cons, List.length_append, KvSegment.length_slots]
    rw [slotsOf] at this
    omega

/-! ## The invariant -/

/-- A segment lies in the context and its rows lie in its storage. -/
def KvSegment.Fits (segment : KvSegment) (maxContext : Nat) : Prop :=
  segment.committedTokens ≤ segment.storage.capacityTokens ∧
    segment.logicalStart + segment.storage.capacityTokens ≤ maxContext

/-- The pending range starts at the position and fits in the last segment. -/
structure KvState.PendingFits (s : KvState) (range : KvAppendRange) : Prop where
  start : range.start = s.position
  tokens_pos : 0 < range.tokens
  target : ∃ front last, s.segments = front ++ [last] ∧ range.segmentIndex = front.length ∧
    range.start + range.tokens ≤ last.logicalStart + last.storage.capacityTokens

/-- The representation invariant of a KV table. -/
structure KvState.Valid (s : KvState) : Prop where
  covers : Covers 0 s.segments s.position
  fits : ∀ segment ∈ s.segments, segment.Fits s.shape.maxContext
  /-- Only the last segment may be empty, and only as the pending target. -/
  filled : ∀ front segment back, s.segments = front ++ segment :: back →
    segment.committedTokens = 0 → back = [] ∧ s.pending ≠ none
  pending : ∀ range, s.pending = some range → s.PendingFits range

/-- A table without a pending append and without an empty segment. -/
structure KvState.Packed (s : KvState) (position : Nat) : Prop where
  covers : Covers 0 s.segments position
  fits : ∀ segment ∈ s.segments, segment.Fits s.shape.maxContext
  filled : ∀ segment ∈ s.segments, 0 < segment.committedTokens
  pending : s.pending = none

theorem KvState.Packed.valid {s : KvState} {position : Nat} (h : s.Packed position)
    (revision : Nat) : KvState.Valid { s with position, revision } where
  covers := h.covers
  fits := h.fits
  filled := by
    intro front segment back heq hzero
    have := h.filled segment (by
      dsimp only at heq
      rw [heq]
      simp)
    omega
  pending := by
    intro range hrange
    dsimp only at hrange
    rw [h.pending] at hrange
    cases hrange

theorem KvState.Valid.packed {s : KvState} (h : s.Valid) (hpending : s.pending = none) :
    s.Packed s.position where
  covers := h.covers
  fits := h.fits
  filled := by
    intro segment hmem
    obtain ⟨front, back, heq⟩ := List.append_of_mem hmem
    apply Nat.pos_of_ne_zero
    intro hzero
    exact (h.filled front segment back heq hzero).2 hpending
  pending := hpending

theorem KvState.PendingFits.of_same {s s' : KvState} {range : KvAppendRange}
    (h : s.PendingFits range) (hsegments : s'.segments = s.segments)
    (hposition : s'.position = s.position) : s'.PendingFits range :=
  ⟨h.start.trans hposition.symm, h.tokens_pos, by rw [hsegments]; exact h.target⟩

theorem KvState.Valid.revised {s : KvState} (h : s.Valid) (revision : Nat) :
    KvState.Valid { s with revision } :=
  ⟨h.covers, h.fits, h.filled, fun range hrange => (h.pending range hrange).of_same rfl rfl⟩

theorem KvState.empty_packed (shape : AttentionShape) (dtype : KvCacheDtype) :
    (KvState.empty shape dtype).Packed 0 :=
  ⟨rfl, by simp [KvState.empty], by simp [KvState.empty], rfl⟩

/-- The segments before the last one hold rows. -/
theorem KvState.Valid.front_filled {s : KvState} (h : s.Valid) {front : List KvSegment}
    {last : KvSegment} (heq : s.segments = front ++ [last]) :
    ∀ segment ∈ front, 0 < segment.committedTokens := by
  intro segment hmem
  obtain ⟨before, after, hfront⟩ := List.append_of_mem hmem
  apply Nat.pos_of_ne_zero
  intro hzero
  have hsplit : s.segments = before ++ segment :: (after ++ [last]) := by
    rw [heq, hfront, List.append_assoc, List.cons_append]
  have := (h.filled before segment (after ++ [last]) hsplit hzero).1
  simp at this

/-- The position is the end of the last segment. -/
theorem KvState.Valid.position_eq {s : KvState} (h : s.Valid) {front : List KvSegment}
    {last : KvSegment} (heq : s.segments = front ++ [last]) :
    last.logicalStart + last.committedTokens = s.position := by
  have := h.covers
  rw [heq, covers_concat] at this
  exact this.2

theorem KvState.Valid.length_slots {s : KvState} (h : s.Valid) : s.slots.length = s.position := by
  have := h.covers.length_slots
  rw [KvState.slots]
  omega

theorem KvState.Valid.position_le {s : KvState} (h : s.Valid) :
    s.position ≤ s.shape.maxContext := by
  rcases List.eq_nil_or_concat s.segments with hnil | ⟨front, last, heq⟩
  · have := h.covers
    rw [hnil] at this
    rw [← this]
    exact Nat.zero_le _
  · rw [List.concat_eq_append] at heq
    have hfits := h.fits last (by rw [heq]; simp)
    have := h.position_eq heq
    unfold KvSegment.Fits at hfits
    omega

/-! ## Leaving out empty segments -/

theorem Covers.filter {a b : Nat} {segments : List KvSegment} (h : Covers a segments b) :
    Covers a (segments.filter fun segment => segment.committedTokens ≠ 0) b := by
  induction segments generalizing a with
  | nil => exact h
  | cons segment segments ih =>
    have hrest := ih h.2
    by_cases hzero : segment.committedTokens = 0
    · rw [List.filter_cons_of_neg (by simp [hzero])]
      rwa [hzero, Nat.add_zero] at hrest
    · rw [List.filter_cons_of_pos (by simp [hzero])]
      exact ⟨h.1, hrest⟩

theorem slotsOf_filter (segments : List KvSegment) :
    slotsOf (segments.filter fun segment => segment.committedTokens ≠ 0) = slotsOf segments := by
  induction segments with
  | nil => rfl
  | cons segment segments ih =>
    rw [slotsOf, slotsOf] at *
    by_cases hzero : segment.committedTokens = 0
    · rw [List.filter_cons_of_neg (by simp [hzero]), ih, List.flatMap_cons, hzero]
      simp [KvSegment.slots]
    · rw [List.filter_cons_of_pos (by simp [hzero]), List.flatMap_cons, ih, List.flatMap_cons]

theorem Covers.endOf {b : Nat} {segments : List KvSegment} (h : Covers 0 segments b) :
    endOf segments = b := by
  unfold Kv.endOf
  split
  · rename_i last hlast
    rw [← List.dropLast_append_getLast? last hlast, covers_concat] at h
    exact h.2
  · rename_i hnone
    rw [List.getLast?_eq_none_iff] at hnone
    rw [hnone] at h
    exact h

/-- The committed segments of a table are a table with the same rows. -/
theorem KvState.Valid.packedFilter {s s' : KvState} (h : s.Valid)
    (hsegments : s'.segments = s.committedSegments)
    (hshape : s'.shape = s.shape) (hpending : s'.pending = none) : s'.Packed s.position where
  covers := by
    rw [hsegments, KvState.committedSegments]
    exact h.covers.filter
  fits := by
    rw [hsegments, hshape]
    intro segment hmem
    exact h.fits segment (List.mem_of_mem_filter hmem)
  filled := by
    rw [hsegments]
    intro segment hmem
    have := List.of_mem_filter hmem
    simp only [ne_eq, decide_eq_true_eq] at this
    omega
  pending := hpending

/-! ## Cutting a table -/

/-- What a cut leaves alone. -/
structure SameLayout (s s' : KvState) : Prop where
  shape : s'.shape = s.shape
  dtype : s'.dtype = s.dtype
  storages : ∀ segment ∈ s'.segments, segment.storage ∈ s.segments.map KvSegment.storage

theorem SameLayout.rfl {s : KvState} : SameLayout s s :=
  ⟨Eq.refl _, Eq.refl _, fun _ h => List.mem_map_of_mem h⟩

theorem SameLayout.trans {s s' s'' : KvState} (h : SameLayout s s') (h' : SameLayout s' s'') :
    SameLayout s s'' where
  shape := h'.shape.trans h.shape
  dtype := h'.dtype.trans h.dtype
  storages := by
    intro segment hmem
    obtain ⟨segment', hmem', heq⟩ := List.mem_map.mp (h'.storages segment hmem)
    rw [← heq]
    exact h.storages segment' hmem'

/-- A packed table over the first rows of `s`. -/
structure CutTo (s : KvState) (position : Nat) (s' : KvState) : Prop where
  packed : s'.Packed position
  slots : s'.slots = s.slots.take position
  layout : SameLayout s s'

theorem CutTo.detachPending {s : KvState} (h : s.Valid) (rollback : KvAppendRollback) :
    CutTo s s.position (Staged.detachPending ⟨s, rollback⟩).2.state := by
  have hall : s.slots.take s.position = s.slots := by
    rw [List.take_of_length_le h.length_slots.le]
  unfold Staged.detachPending
  split
  · rename_i hpending
    exact ⟨h.packed hpending, hall.symm, SameLayout.rfl⟩
  · rename_i range hpending
    obtain ⟨front, last, heq, hindex, -⟩ := (h.pending range hpending).target
    have hlast : s.segments.getLast? = some last := by rw [heq, List.getLast?_concat]
    dsimp only
    rw [hlast]
    dsimp only
    have hcovers := h.covers
    rw [heq, covers_concat] at hcovers
    split
    · -- the empty target goes
      rename_i hempty
      rw [hempty.2, Nat.add_zero] at hcovers
      have hdrop : s.segments.dropLast = front := by rw [heq, List.dropLast_concat]
      refine ⟨⟨?_, ?_, ?_, rfl⟩, ?_, ⟨rfl, rfl, ?_⟩⟩
      · dsimp only [Staged.pop]
        rw [hdrop, ← hcovers.2]
        exact hcovers.1
      · dsimp only [Staged.pop]
        rw [hdrop]
        intro segment hmem
        exact h.fits segment (by rw [heq]; exact List.mem_append_left _ hmem)
      · dsimp only [Staged.pop]
        rw [hdrop]
        exact h.front_filled heq
      · dsimp only [Staged.pop, KvState.slots]
        rw [hdrop, ← KvState.slots, hall, KvState.slots, heq, slotsOf_append, slotsOf_singleton,
          hempty.2]
        simp [KvSegment.slots]
      · dsimp only [Staged.pop]
        rw [hdrop]
        intro segment hmem
        exact List.mem_map_of_mem (by rw [heq]; exact List.mem_append_left _ hmem)
    · rename_i hfull
      have hlen : range.segmentIndex = s.segments.length - 1 := by
        rw [hindex, heq, List.length_append, List.length_singleton, Nat.add_sub_cancel]
      refine ⟨⟨h.covers, h.fits, ?_, rfl⟩, hall.symm, ⟨rfl, rfl, SameLayout.rfl.storages⟩⟩
      intro segment hmem
      dsimp only at hmem
      rw [heq, List.mem_append, List.mem_singleton] at hmem
      rcases hmem with hmem | rfl
      · exact h.front_filled heq segment hmem
      · apply Nat.pos_of_ne_zero
        intro hzero
        exact hfull ⟨hlen, hzero⟩

@[simp] theorem detachPending_position (t : Staged) :
    t.detachPending.2.state.position = t.state.position := by
  unfold Staged.detachPending
  split
  · rfl
  · dsimp only
    split
    · rfl
    · split <;> rfl

theorem CutTo.pop {s : KvState} {position : Nat} {t : Staged} {segment : KvSegment}
    (h : CutTo s position t.state) (hlast : t.state.segments.getLast? = some segment) :
    CutTo s segment.logicalStart (t.pop segment).state ∧ segment.logicalStart ≤ position := by
  have heq := (List.dropLast_append_getLast? segment hlast).symm
  have hcovers := h.packed.covers
  rw [heq, covers_concat] at hcovers
  have hle : segment.logicalStart ≤ position := by omega
  have hmem : ∀ other ∈ t.state.segments.dropLast, other ∈ t.state.segments :=
    fun other hother => List.mem_of_mem_dropLast hother
  refine ⟨⟨⟨hcovers.1, fun other hother => h.packed.fits other (hmem other hother),
    fun other hother => h.packed.filled other (hmem other hother), h.packed.pending⟩, ?_,
    ⟨h.layout.shape, h.layout.dtype, fun other hother => h.layout.storages other (hmem other hother)⟩⟩,
    hle⟩
  have hlen := hcovers.1.length_slots
  rw [Nat.zero_add] at hlen
  have hslots := h.slots
  rw [KvState.slots, heq, slotsOf_append] at hslots
  have htake := congrArg (List.take segment.logicalStart) hslots
  rw [← hlen, List.take_left, hlen, List.take_take, Nat.min_eq_left hle] at htake
  exact htake

theorem CutTo.removeSegmentsAtOrAfter {s : KvState} {position stop : Nat} {t : Staged}
    (h : CutTo s stop t.state) (hle : position ≤ stop) :
    ∃ stop', position ≤ stop' ∧ CutTo s stop' (t.removeSegmentsAtOrAfter position).2.state := by
  apply Staged.removeSegmentsAtOrAfter_induct
    (P := fun t => ∃ stop', position ≤ stop' ∧ CutTo s stop' t.state) _ t ⟨stop, hle, h⟩
  intro t segment hlast hstart ht
  obtain ⟨stop', -, ht⟩ := ht
  exact ⟨segment.logicalStart, hstart, (ht.pop hlast).1⟩

theorem CutTo.shortenTail {s s' : KvState} {position stop : Nat} (h : CutTo s stop s')
    (hle : position ≤ stop)
    (hlast : ∀ segment, s'.segments.getLast? = some segment → segment.logicalStart < position) :
    CutTo s position (s'.shortenTail position).2 := by
  unfold KvState.shortenTail
  split
  · rename_i hnone
    rw [List.getLast?_eq_none_iff] at hnone
    have hcovers := h.packed.covers
    rw [hnone] at hcovers
    obtain rfl : stop = 0 := hcovers.symm
    obtain rfl : position = 0 := Nat.le_zero.mp hle
    exact h
  · rename_i segment hsome
    have hstart := hlast segment hsome
    have heq := (List.dropLast_append_getLast? segment hsome).symm
    have hcovers := h.packed.covers
    rw [heq, covers_concat] at hcovers
    have hmem : segment ∈ s'.segments := List.mem_of_getLast? hsome
    dsimp only
    split
    · rename_i hvisible
      have hslots := h.slots
      rw [KvState.slots, heq, slotsOf_append, slotsOf_singleton] at hslots
      have htake := congrArg (List.take position) hslots
      have hlen := hcovers.1.length_slots
      rw [List.take_take, Nat.min_eq_left hle, List.take_append, List.take_of_length_le (by omega),
        KvSegment.take_slots _ (by omega)] at htake
      refine ⟨⟨?_, ?_, ?_, h.packed.pending⟩, ?_, ⟨h.layout.shape, h.layout.dtype, ?_⟩⟩
      · exact covers_concat.mpr ⟨hcovers.1, by dsimp only; omega⟩
      · intro other hother
        rcases List.mem_append.mp hother with hother | hother
        · exact h.packed.fits other (List.mem_of_mem_dropLast hother)
        · rw [List.mem_singleton.mp hother]
          have := h.packed.fits segment hmem
          exact ⟨by dsimp only; exact hvisible.le.trans this.1, this.2⟩
      · intro other hother
        rcases List.mem_append.mp hother with hother | hother
        · exact h.packed.filled other (List.mem_of_mem_dropLast hother)
        · rw [List.mem_singleton.mp hother]
          dsimp only
          omega
      · rw [← htake, KvState.slots, slotsOf_append, slotsOf_singleton]
        have hcount : position - segment.logicalStart =
            position - (slotsOf s'.segments.dropLast).length := by omega
        rw [← hcount]
        rfl
      · intro other hother
        rcases List.mem_append.mp hother with hother | hother
        · exact h.layout.storages other (List.mem_of_mem_dropLast hother)
        · rw [List.mem_singleton.mp hother]
          exact h.layout.storages segment hmem
    · rename_i hvisible
      obtain rfl : position = stop := by omega
      exact h

/-- A cut keeps exactly the rows below the position. -/
theorem CutTo.cut {s : KvState} {position : Nat} (h : s.Valid) (hle : position ≤ s.position)
    (rollback : KvAppendRollback) :
    CutTo s position (Staged.cut position ⟨s, rollback⟩).2.state := by
  unfold Staged.cut
  obtain ⟨stop, hstop, hcut⟩ := (CutTo.detachPending h rollback).removeSegmentsAtOrAfter hle
  apply hcut.shortenTail hstop
  intro segment hlast
  exact Staged.removeSegmentsAtOrAfter_last _ segment hlast

end Leone.Kv

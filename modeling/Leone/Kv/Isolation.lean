import Leone.Kv.Family
import Leone.Framework.Machine

/-!
# Isolation of KV tables

A storage with one reference belongs to one segment of one table, so a write to it is seen by no
other table and by no committed row. From this, every step of a family does to the row lists what
its operation says.
-/

namespace Leone.Kv

open Framework Framework.Method

variable {ρ : Type}

/-! ## References -/

theorem World.table_eq_some {w : World ρ} {handle : Nat} {s : KvState} :
    w.table handle = some s ↔ w.states[handle]? = some (some s) := by
  rw [World.table, Option.join_eq_some_iff]

def KvState.references (s : KvState) : List Nat :=
  s.segments.map fun segment => segment.storage.id

theorem World.references_eq (w : World ρ) :
    w.references = w.states.flatMap fun s => s.elim [] KvState.references := rfl

theorem World.mem_references {w : World ρ} {id : Nat} :
    id ∈ w.references ↔ ∃ handle s, w.table handle = some s ∧ id ∈ s.references := by
  rw [World.references_eq, List.mem_flatMap]
  constructor
  · rintro ⟨s, hmem, hid⟩
    cases s with
    | none => cases hid
    | some s =>
      obtain ⟨handle, hhandle⟩ := List.getElem?_of_mem hmem
      exact ⟨handle, s, World.table_eq_some.mpr hhandle, hid⟩
  · rintro ⟨handle, s, htable, hid⟩
    exact ⟨some s, List.mem_of_getElem? (World.table_eq_some.mp htable), hid⟩

/-- A storage with one reference is in one segment of one table. -/
theorem World.owned_isolated {w : World ρ} {handle : Nat} {s : KvState} {segment : KvSegment}
    {front back : List KvSegment} (htable : w.table handle = some s)
    (hsegments : s.segments = front ++ segment :: back) (howned : w.owned segment.storage.id = true)
    {other : Nat} {s' : KvState} {segment' : KvSegment} (htable' : w.table other = some s')
    (hmem : segment' ∈ s'.segments) (hid : segment'.storage.id = segment.storage.id) :
    other = handle ∧ segment' = segment := by
  have hstates := World.table_eq_some.mp htable
  obtain ⟨hlt, hget⟩ := List.getElem?_eq_some_iff.mp hstates
  have hsplit : w.states = w.states.take handle ++ some s :: w.states.drop (handle + 1) := by
    conv_lhs => rw [← List.take_append_drop handle w.states, List.drop_eq_getElem_cons hlt, hget]
  -- the one reference is the segment's own
  have hcount : w.references.count segment.storage.id = 1 := by
    rw [World.owned, beq_iff_eq] at howned
    exact howned
  rw [World.references_eq, hsplit, List.flatMap_append, List.flatMap_cons, List.count_append,
    List.count_append, Option.elim_some, KvState.references, hsegments, List.map_append,
    List.map_cons, List.count_append, List.count_cons_self] at hcount
  have hid' : segment.storage.id ∈ s'.references := List.mem_map.mpr ⟨segment', hmem, hid⟩
  by_cases heq : other = handle
  · subst heq
    obtain rfl : s = s' := Option.some.inj (htable.symm.trans htable')
    rw [hsegments, List.mem_append, List.mem_cons] at hmem
    have hfront : segment.storage.id ∉ front.map fun segment => segment.storage.id :=
      List.count_eq_zero.mp (by omega)
    have hback : segment.storage.id ∉ back.map fun segment => segment.storage.id :=
      List.count_eq_zero.mp (by omega)
    rcases hmem with hmem | rfl | hmem
    · exact absurd (List.mem_map.mpr ⟨segment', hmem, hid⟩) hfront
    · exact ⟨rfl, rfl⟩
    · exact absurd (List.mem_map.mpr ⟨segment', hmem, hid⟩) hback
  · exfalso
    have hother := World.table_eq_some.mp htable'
    have hbefore : segment.storage.id ∉
        (w.states.take handle).flatMap fun s => s.elim [] KvState.references :=
      List.count_eq_zero.mp (by omega)
    have hafter : segment.storage.id ∉
        (w.states.drop (handle + 1)).flatMap fun s => s.elim [] KvState.references :=
      List.count_eq_zero.mp (by omega)
    rcases Nat.lt_or_gt_of_ne heq with hlt' | hgt
    · have : some s' ∈ w.states.take handle := by
        apply List.mem_of_getElem? (i := other)
        rw [List.getElem?_take_of_lt hlt', hother]
      exact hbefore (List.mem_flatMap.mpr ⟨some s', this, hid'⟩)
    · have : some s' ∈ w.states.drop (handle + 1) := by
        apply List.mem_of_getElem? (i := other - (handle + 1))
        rw [List.getElem?_drop, Nat.add_sub_cancel' hgt, hother]
      exact hafter (List.mem_flatMap.mpr ⟨some s', this, hid'⟩)

theorem mem_slots {s : KvState} {slot : Slot} :
    slot ∈ s.slots ↔ ∃ segment ∈ s.segments, segment.storage.id = slot.1 ∧
      slot.2 < segment.committedTokens := by
  simp only [KvState.slots, slotsOf, List.mem_flatMap, KvSegment.slots, List.mem_map, List.mem_range]
  constructor
  · rintro ⟨segment, hmem, row, hrow, rfl⟩
    exact ⟨segment, hmem, rfl, hrow⟩
  · rintro ⟨segment, hmem, hid, hrow⟩
    exact ⟨segment, hmem, slot.2, hrow, by rw [hid]⟩

theorem slots_references {s : KvState} {slot : Slot} (h : slot ∈ s.slots) :
    slot.1 ∈ s.references := by
  obtain ⟨segment, hmem, hid, -⟩ := mem_slots.mp h
  exact List.mem_map.mpr ⟨segment, hmem, hid⟩

/-! ## Write spans -/

theorem writeSpan_eq_ok {owned : Nat → Bool} {s : KvState} {layer : Nat} {range : KvAppendRange}
    {span : KvWriteSpan} (h : s.writeSpan owned layer range = .ok span) :
    s.pending = some range ∧ ∃ segment, s.segments[range.segmentIndex]? = some segment ∧
      owned segment.storage.id = true ∧ span.storage = segment.storage.id ∧
      span.logicalStart = segment.logicalStart := by
  unfold KvState.writeSpan at h
  split at h
  · cases h
  · rename_i hpending
    rw [not_not] at hpending
    split at h
    · cases h
    · rename_i segment hsegment
      split at h
      · cases h
      · rename_i howned
        split at h
        · cases h
        · unfold KvWriteSpan.new at h
          obtain ⟨_, -, h⟩ := bind_eq_ok.mp h
          obtain ⟨_, -, h⟩ := bind_eq_ok.mp h
          obtain rfl := Except.ok.inj h
          exact ⟨hpending, segment, hsegment, by simpa using howned, rfl, rfl⟩

/-- A write span is only handed out for storage with one reference, and the rows of its range are
no table's committed rows. -/
theorem World.writeSpan_isolated {w : World ρ} {handle layer : Nat} {s : KvState}
    {range : KvAppendRange} {span : KvWriteSpan} (hs : s.Valid) (htable : w.table handle = some s)
    (h : s.writeSpan w.owned layer range = .ok span) :
    w.references.count span.storage = 1 ∧ ∀ other s', w.table other = some s' → ∀ offset,
      (span.storage, range.start - span.logicalStart + offset) ∉ s'.slots := by
  obtain ⟨hpending, segment, hsegment, howned, hstorage, hstart⟩ := writeSpan_eq_ok h
  obtain ⟨front, last, hsegments, hindex, -⟩ := (hs.pending range hpending).target
  obtain rfl : segment = last := by
    rw [hsegments, hindex, List.getElem?_concat_length] at hsegment
    exact (Option.some.inj hsegment).symm
  have hcommitted := hs.position_eq hsegments
  have hrange := (hs.pending range hpending).start
  constructor
  · rw [hstorage]
    exact beq_iff_eq.mp howned
  · intro other s' htable' offset hmem
    obtain ⟨segment', hmem', hid, hrow⟩ := mem_slots.mp hmem
    obtain ⟨-, hsame⟩ := World.owned_isolated htable hsegments howned htable' hmem'
      (hid.trans hstorage)
    dsimp only at hrow
    rw [hsame, hstart] at hrow
    omega

/-! ## The invariant of a family -/

/-- A snapshot of a well-formed table. -/
def KvSnapshot.Taken {κ : Type} (snapshot : KvSnapshot κ) : Prop :=
  ∃ s contents, s.Valid ∧ Copies contents s snapshot

structure World.Valid (w : World ρ) : Prop where
  tables : ∀ handle s, w.table handle = some s → s.Valid
  fresh : ∀ id ∈ w.references, id < w.nextStorage
  snapshots : ∀ snapshot ∈ w.snapshots, snapshot.Taken
  /-- What was written to a pending range is in its storage. -/
  written : ∀ handle s range, w.table handle = some s → s.pending = some range →
    ∀ offset slot, (s.rangeSlots range)[offset]? = some slot →
      ∀ layer value, w.written handle layer offset = some value → w.cells slot.1 layer slot.2 = value

theorem World.empty_valid (cells : Nat → Contents ρ) : (World.empty cells).Valid :=
  ⟨by simp [World.table, World.empty], by simp [World.references, World.empty],
    by simp [World.empty], by simp [World.table, World.empty]⟩

theorem rows_congr {cells cells' : Nat → Contents ρ} {s : KvState}
    (h : ∀ slot ∈ s.slots, rowAt cells' slot = rowAt cells slot) : s.rows cells' = s.rows cells :=
  List.map_congr_left h

theorem rangeSlots_references {s : KvState} {range : KvAppendRange} {slot : Slot}
    (h : slot ∈ s.rangeSlots range) : slot.1 ∈ s.references := by
  unfold KvState.rangeSlots at h
  split at h
  · cases h
  · rename_i segment hsegment
    obtain ⟨row, -, rfl⟩ := List.mem_map.mp h
    exact List.mem_map.mpr ⟨segment, List.mem_of_getElem? hsegment, rfl⟩

/-- The rows of every table are the same under contents that agree on referenced storage. -/
theorem World.tables_congr {w : World ρ} {cells : Nat → Contents ρ}
    (h : ∀ id ∈ w.references, cells id = w.cells id) :
    w.states.map (Option.map (KvState.rows cells)) =
      w.states.map (Option.map (KvState.rows w.cells)) := by
  apply List.map_congr_left
  intro s hmem
  cases s with
  | none => rfl
  | some s =>
    refine congrArg some (rows_congr ?_)
    intro slot hslot
    have hid : slot.1 ∈ w.references := by
      rw [World.references_eq, List.mem_flatMap]
      exact ⟨some s, hmem, slots_references hslot⟩
    funext layer
    exact congrFun (congrFun (h slot.1 hid) layer) slot.2

/-! ## Adding a table -/

theorem World.table_append {w : World ρ} {s' : KvState} {states : List (Option KvState)}
    (hstates : states = w.states ++ [some s']) {handle : Nat} {s : KvState}
    (h : (states[handle]?).join = some s) :
    w.table handle = some s ∨ handle = w.states.length ∧ s = s' := by
  rw [Option.join_eq_some_iff, hstates] at h
  by_cases hlt : handle < w.states.length
  · rw [List.getElem?_append_left hlt] at h
    exact .inl (World.table_eq_some.mpr h)
  · rw [List.getElem?_append_right (Nat.le_of_not_lt hlt)] at h
    right
    cases hsub : handle - w.states.length with
    | zero =>
      rw [hsub] at h
      exact ⟨by omega, (Option.some.inj (Option.some.inj h)).symm⟩
    | succ n =>
      rw [hsub] at h
      simp at h

/-- A new table over referenced storage, or over storage that is new. -/
theorem World.add_valid {w : World ρ} {s : KvState} {memory : Memory} (h : w.Valid)
    {cells : Nat → Contents ρ} (hcells : ∀ id < w.nextStorage, cells id = w.cells id)
    (hs : s.Valid) (hpending : s.pending = none) (hnext : w.nextStorage ≤ memory.nextStorage)
    (hfresh : ∀ id ∈ s.references, id < memory.nextStorage) :
    (World.add { w with cells } (.ok s memory)).1.Valid := by
  refine ⟨?_, ?_, h.snapshots, ?_⟩
  · intro handle s' htable
    rcases World.table_append rfl htable with hold | ⟨-, rfl⟩
    · exact h.tables handle s' hold
    · exact hs
  · intro id hid
    obtain ⟨handle, s', htable, hmem⟩ := World.mem_references.mp hid
    rcases World.table_append rfl htable with hold | ⟨-, rfl⟩
    · exact (h.fresh id (World.mem_references.mpr ⟨handle, s', hold, hmem⟩)).trans_le hnext
    · exact hfresh id hmem
  · intro handle s' range htable hrange offset slot hslot layer value hwritten
    rcases World.table_append rfl htable with hold | ⟨-, rfl⟩
    · have hlt : handle ≠ w.states.length := by
        have := (List.getElem?_eq_some_iff.mp (World.table_eq_some.mp hold)).1
        dsimp only at this
        omega
      dsimp only [World.add] at hwritten ⊢
      rw [if_neg hlt] at hwritten
      have hid := rangeSlots_references (List.mem_of_getElem? hslot)
      rw [hcells slot.1 (h.fresh _ (World.mem_references.mpr ⟨handle, s', hold, hid⟩))]
      exact h.written handle s' range hold hrange offset slot hslot layer value hwritten
    · rw [hpending] at hrange
      cases hrange

theorem World.add_family {w : World ρ} {s : KvState} {memory : Memory} (h : w.Valid)
    {cells : Nat → Contents ρ} (hcells : ∀ id < w.nextStorage, cells id = w.cells id) :
    (World.add { w with cells } (.ok s memory)).1.family =
      { w.family with tables := w.family.tables ++ [some (s.rows cells)] } := by
  simp only [World.family, World.add, List.map_append, List.map_cons, List.map_nil, Option.map_some]
  rw [World.tables_congr fun id hid => hcells id (h.fresh id hid)]

/-- Used-up memory changes neither the invariant nor the rows. -/
theorem World.Valid.advance {w : World ρ} (h : w.Valid) {next : Nat} (hnext : w.nextStorage ≤ next) :
    World.Valid { w with nextStorage := next } :=
  ⟨h.tables, fun id hid => (h.fresh id hid).trans_le hnext, h.snapshots, h.written⟩

/-! ## Filling restored storage -/

theorem fill_of_lt {cells : Nat → Contents ρ} {next stop id : Nat}
    {sources : List (KvSnapshotSegment (Contents ρ))} {restored : List (KvSegment × Contents ρ)}
    (h : Restores next sources restored stop) (hid : id < next) :
    World.fill cells restored id = cells id := by
  induction h generalizing cells with
  | nil => rfl
  | cons rest ih =>
    rw [World.fill, List.foldl_cons]
    refine (ih (Nat.lt_succ_of_lt hid)).trans ?_
    exact if_neg (Nat.ne_of_lt hid)

/-- The restored table has the rows of the snapshot. -/
theorem fill_rows {cells : Nat → Contents ρ} {next stop : Nat}
    {sources : List (KvSnapshotSegment (Contents ρ))} {restored : List (KvSegment × Contents ρ)}
    (h : Restores next sources restored stop) :
    (slotsOf (restored.map Prod.fst)).map (rowAt (World.fill cells restored)) =
      sources.flatMap fun source => (List.range source.committedTokens).map fun row =>
        fun layer => source.contents layer row := by
  induction h generalizing cells with
  | nil => rfl
  | @cons next stop source sources restored rest ih =>
    have hhead : World.fill cells ((⟨source.logicalStart, source.committedTokens,
        ⟨next, source.capacityTokens, source.layers, source.layerBytes⟩⟩, source.contents) ::
          restored) next = source.contents := by
      rw [World.fill, List.foldl_cons]
      refine (fill_of_lt rest (Nat.lt_succ_self next)).trans ?_
      exact if_pos rfl
    rw [List.flatMap_cons, List.map_cons, slotsOf, List.flatMap_cons, List.map_append]
    congr 1
    · rw [KvSegment.slots, List.map_map]
      apply List.map_congr_left
      intro row _
      funext layer
      exact congrFun (congrFun hhead layer) row
    · exact ih

theorem Restores.fresh {κ : Type} {next stop : Nat} {sources : List (KvSnapshotSegment κ)}
    {restored : List (KvSegment × κ)} (h : Restores next sources restored stop) :
    ∀ r ∈ restored, r.1.storage.id < stop := by
  induction h with
  | nil => simp
  | cons rest ih =>
    intro r hmem
    rcases List.mem_cons.mp hmem with rfl | hmem
    · exact Nat.lt_of_lt_of_le (Nat.lt_succ_self _) rest.le
    · exact ih r hmem

end Leone.Kv

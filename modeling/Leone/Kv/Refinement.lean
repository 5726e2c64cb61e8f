import Leone.Kv.Isolation

/-!
# Tables as independent row lists

Every step of a family keeps its invariant and does to the row lists what its operation says,
from the empty family through any run.
-/

namespace Leone.Kv

open Framework Framework.Method

variable {ρ : Type}

/-! ## Calls -/


/-- The committed range is what was written for it. -/
theorem World.Valid.writtenRows {w : World ρ} (h : w.Valid) {handle : Nat} {s : KvState}
    {range : KvAppendRange} (htable : w.table handle = some s) (hpending : s.pending = some range) :
    w.writtenRows handle s range = (s.rangeSlots range).map (rowAt w.cells) := by
  have hmap : (s.rangeSlots range).map (rowAt w.cells) =
      (s.rangeSlots range).zipIdx.map fun slot => rowAt w.cells slot.1 := by
    conv_lhs => rw [← List.zipIdx_map_fst 0 (s.rangeSlots range), List.map_map]
    rfl
  rw [hmap]
  apply List.map_congr_left
  rintro ⟨slot, offset⟩ hmem
  have hslot := List.mem_zipIdx_iff_getElem?.mp hmem
  funext layer
  dsimp only
  cases hwritten : w.written handle layer offset with
  | none => rfl
  | some value =>
    exact (h.written handle s range htable hpending offset slot hslot layer value hwritten).symm

/-- A call that succeeds applies its operation to the rows of its table. -/
theorem Call.Succeeds.rows {w : World ρ} (h : w.Valid) {handle : Nat} {s : KvState} {m m' : Machine}
    {c : Call} (htable : w.table handle = some s) (hm : m.state = s) (hc : c.Succeeds m m') :
    m'.state.rows w.cells = c.applied (w.writtenRows handle s) (s.rows w.cells) := by
  have hslots := hc.slots
  rw [hm] at hslots
  rw [KvState.rows, hslots]
  cases c with
  | prepareAppend => rfl
  | prepareAppendAt => exact List.map_take
  | prepareShapeTransition => exact List.map_take
  | commitAppend range =>
    have hpending := hc.pending range rfl
    rw [hm] at hpending
    simp only [Call.slots, Call.applied, h.writtenRows htable hpending, List.map_append]
    rfl
  | discardPending => rfl
  | truncate => exact List.map_take

theorem World.put_family {w : World ρ} {handle : Nat} {s : KvState} {m : Machine}
    {f : List (Row ρ) → List (Row ρ)} (htable : w.table handle = some s)
    (hrows : m.state.rows w.cells = f (s.rows w.cells)) :
    (w.put handle s m).family =
      { w.family with tables := w.family.tables.modify handle (Option.map f) } := by
  have hstates := World.table_eq_some.mp htable
  simp only [World.family, World.put]
  congr 1
  apply List.ext_getElem?
  intro i
  rw [List.getElem?_map, List.getElem?_modify, List.getElem?_map, List.getElem?_set]
  by_cases hi : handle = i
  · subst hi
    obtain ⟨hlt, -⟩ := List.getElem?_eq_some_iff.mp hstates
    rw [if_pos rfl, if_pos hlt, hstates]
    simp [hrows]
  · rw [if_neg hi]
    simp [hi]

theorem World.put_valid {w : World ρ} (h : w.Valid) {handle : Nat} {s : KvState} {m : Machine}
    (htable : w.table handle = some s) (hvalid : m.state.Valid)
    (hnext : w.nextStorage ≤ m.memory.nextStorage)
    (hfresh : ∀ id ∈ m.state.references, id ∈ s.references ∨ id < m.memory.nextStorage) :
    (w.put handle s m).Valid := by
  have hcases : ∀ other s', (w.put handle s m).table other = some s' →
      other = handle ∧ s' = m.state ∨ other ≠ handle ∧ w.table other = some s' := by
    intro other s' hother
    have hother' := World.table_eq_some.mp hother
    dsimp only [World.put] at hother'
    rw [List.getElem?_set] at hother'
    split at hother'
    · rename_i heq
      split at hother'
      · exact .inl ⟨heq.symm, (Option.some.inj (Option.some.inj hother')).symm⟩
      · cases hother'
    · rename_i hne
      exact .inr ⟨fun heq => hne heq.symm, World.table_eq_some.mpr hother'⟩
  refine ⟨?_, ?_, h.snapshots, ?_⟩
  · intro other s' hother
    rcases hcases other s' hother with ⟨-, rfl⟩ | ⟨-, hold⟩
    · exact hvalid
    · exact h.tables other s' hold
  · intro id hid
    obtain ⟨other, s', hother, hmem⟩ := World.mem_references.mp hid
    rcases hcases other s' hother with ⟨-, rfl⟩ | ⟨-, hold⟩
    · rcases hfresh id hmem with hold | hnew
      · exact (h.fresh id (World.mem_references.mpr ⟨handle, s, htable, hold⟩)).trans_le hnext
      · exact hnew
    · exact (h.fresh id (World.mem_references.mpr ⟨other, s', hold, hmem⟩)).trans_le hnext
  · intro other s' range hother hrange offset slot hslot layer value hwritten
    dsimp only [World.put] at hwritten ⊢
    unfold World.keptWritten at hwritten
    rcases hcases other s' hother with ⟨rfl, rfl⟩ | ⟨hne, hold⟩
    · split at hwritten
      · rename_i hkept
        obtain ⟨hpending, hslots⟩ := hkept
        rw [hpending] at hrange
        rw [hrange, Option.map_some, Option.map_some, Option.some.injEq] at hslots
        rw [hslots] at hslot
        exact h.written other s range htable hrange offset slot hslot layer value hwritten
      · dsimp only at hwritten
        rw [if_pos rfl] at hwritten
        cases hwritten
    · split at hwritten
      · exact h.written other s' range hold hrange offset slot hslot layer value hwritten
      · dsimp only at hwritten
        rw [if_neg hne] at hwritten
        exact h.written other s' range hold hrange offset slot hslot layer value hwritten

theorem World.put_same {w : World ρ} {handle : Nat} {s : KvState} {m : Machine}
    (htable : w.table handle = some s) (hstate : m.state = s) :
    w.put handle s m = { w with nextStorage := m.memory.nextStorage } := by
  have hstates := World.table_eq_some.mp htable
  obtain ⟨hlt, hget⟩ := List.getElem?_eq_some_iff.mp hstates
  rw [World.put, World.keptWritten, hstate, if_pos ⟨rfl, rfl⟩, ← hget, List.set_getElem_self]

/-! ## Writes -/

/-- A write to the range of a table leaves every committed row alone. -/
theorem World.writeCell_family {w : World ρ} {handle layer row offset : Nat} {span : KvWriteSpan}
    {value : ρ} (hisolated : ∀ other s', w.table other = some s' → (span.storage, row) ∉ s'.slots) :
    (w.writeCell handle layer span row offset value).family = w.family := by
  simp only [World.family, World.writeCell]
  congr 1
  apply List.map_congr_left
  intro s hmem
  cases s with
  | none => rfl
  | some s =>
    refine congrArg some (rows_congr ?_)
    intro slot hslot
    obtain ⟨other, hother⟩ := List.getElem?_of_mem hmem
    have hne := hisolated other s (World.table_eq_some.mpr hother)
    funext l
    simp only [rowAt]
    by_cases hid : slot.1 = span.storage
    · have hrow : slot.2 ≠ row := by
        intro hrow
        apply hne
        rw [← hid, ← hrow]
        exact hslot
      rw [if_pos hid, if_neg fun heq => hrow heq.2]
    · rw [if_neg hid]

theorem rangeSlots_getElem? {s : KvState} {range : KvAppendRange} {segment : KvSegment}
    (hsegment : s.segments[range.segmentIndex]? = some segment) {offset : Nat} {slot : Slot}
    (h : (s.rangeSlots range)[offset]? = some slot) :
    slot = (segment.storage.id, range.start - segment.logicalStart + offset) := by
  rw [KvState.rangeSlots, hsegment] at h
  obtain ⟨hlt, hget⟩ := List.getElem?_eq_some_iff.mp h
  rw [← hget]
  simp

/-- What is written to a range is there when it is committed. -/
theorem World.writeCell_valid {w : World ρ} (h : w.Valid) {handle layer offset : Nat} {s : KvState}
    {range : KvAppendRange} {span : KvWriteSpan} {value : ρ} (htable : w.table handle = some s)
    (hspan : s.writeSpan w.owned layer range = .ok span) :
    (w.writeCell handle layer span (range.start - span.logicalStart + offset) offset value).Valid := by
  refine ⟨h.tables, h.fresh, h.snapshots, ?_⟩
  obtain ⟨hpending, segment, hsegment, howned, hstorage, hstart⟩ := writeSpan_eq_ok hspan
  obtain ⟨front, last, hsegments, hindex, -⟩ :=
    ((h.tables handle s htable).pending range hpending).target
  obtain rfl : segment = last := by
    rw [hsegments, hindex, List.getElem?_concat_length] at hsegment
    exact (Option.some.inj hsegment).symm
  intro other s' range' hother hpending' offset' slot hslot l v hwritten
  dsimp only [World.writeCell] at hwritten ⊢
  by_cases heq : other = handle
  · subst heq
    obtain rfl : s = s' := Option.some.inj (htable.symm.trans hother)
    obtain rfl : range = range' := Option.some.inj (hpending.symm.trans hpending')
    obtain rfl := rangeSlots_getElem? hsegment hslot
    rw [if_pos rfl] at hwritten
    rw [if_pos hstorage.symm, hstart]
    by_cases hcell : l = layer ∧ offset' = offset
    · rw [if_pos hcell, Option.some.injEq] at hwritten
      obtain ⟨rfl, rfl⟩ := hcell
      rw [if_pos ⟨rfl, rfl⟩, hwritten]
    · rw [if_neg hcell] at hwritten
      have hne : ¬ (l = layer ∧ range.start - segment.logicalStart + offset' =
          range.start - segment.logicalStart + offset) := by
        intro hsame
        exact hcell ⟨hsame.1, by omega⟩
      rw [if_neg hne]
      exact h.written other s range htable hpending offset' _ hslot l v hwritten
  · rw [if_neg heq] at hwritten
    have hid : slot.1 ≠ span.storage := by
      intro hid
      obtain ⟨segment', hmem', hid'⟩ :=
        List.mem_map.mp (rangeSlots_references (List.mem_of_getElem? hslot))
      exact heq (World.owned_isolated htable hsegments howned hother hmem'
        ((hid'.trans hid).trans hstorage)).1
    rw [if_neg hid]
    exact h.written other s' range' hother hpending' offset' slot hslot l v hwritten

/-! ## Steps -/

/-- The invariant after a step, and what the step did to the rows. -/
def World.Sound (w : World ρ) (op : Step ρ) (r : World ρ × Bool) : Prop :=
  r.1.Valid ∧ r.1.family = op.expected w r.2

theorem World.Valid.sound_fail {w : World ρ} (h : w.Valid) (op : Step ρ) : w.Sound op (w, false) :=
  ⟨h, rfl⟩

theorem World.Valid.sound_advance {w : World ρ} (h : w.Valid) (op : Step ρ) {next : Nat}
    (hnext : w.nextStorage ≤ next) : w.Sound op ({ w with nextStorage := next }, false) :=
  ⟨h.advance hnext, rfl⟩

theorem World.family_table (w : World ρ) (handle : Nat) :
    w.family.table handle = (w.table handle).map (KvState.rows w.cells) := by
  rw [Family.table, World.family, World.table, List.getElem?_map]
  cases w.states[handle]? with
  | none => rfl
  | some s => rfl

theorem World.Valid.sound_add {w : World ρ} (h : w.Valid) {op : Step ρ}
    {r : EStateM.Result (Fault BackendError) Memory KvState}
    (hok : ∀ s memory, r = .ok s memory → s.Valid ∧ s.pending = none ∧
      w.nextStorage ≤ memory.nextStorage ∧ (∀ id ∈ s.references, id < memory.nextStorage) ∧
      op.applied w w.family = { w.family with
        tables := w.family.tables ++ [some (s.rows w.cells)] })
    (herror : ∀ fault memory, r = .error fault memory → w.nextStorage ≤ memory.nextStorage) :
    w.Sound op (w.add r) := by
  cases hr : r with
  | ok s memory =>
    obtain ⟨hs, hpending, hnext, hfresh, happlied⟩ := hok s memory hr
    exact ⟨World.add_valid h (fun _ _ => rfl) hs hpending hnext hfresh,
      (World.add_family h fun _ _ => rfl).trans happlied.symm⟩
  | error fault memory => exact h.sound_advance op (herror fault memory hr)

theorem World.Valid.sound_new {w : World ρ} (h : w.Valid) (shape : AttentionShape)
    (dtype : KvCacheDtype) (outcomes : Outcomes) :
    w.Sound (.new shape dtype) (w.step (.new shape dtype, outcomes)) := by
  have hspec : Ends (KvState.new shape dtype) (w.memory outcomes)
      (fun s memory => s = KvState.empty shape dtype ∧ memory.nextStorage = w.nextStorage)
      (fun _ memory => memory.nextStorage = w.nextStorage) := by
    simp only [KvState.new, ends_bind, ends_pure]
    exact ends_deviceCall (fun _ hnext => ⟨trivial, hnext⟩) (fun _ _ hnext => hnext)
  apply h.sound_add
  · intro s memory hr
    obtain ⟨rfl, hnext⟩ := hspec.of_ok hr
    exact ⟨(KvState.empty_packed shape dtype).valid 0, rfl, hnext.ge,
      by simp [KvState.references, KvState.empty], rfl⟩
  · intro fault memory hr
    exact (hspec.of_error hr).ge

theorem World.Valid.sound_fork {w : World ρ} (h : w.Valid) (source : Nat) (outcomes : Outcomes) :
    w.Sound (.fork source) (w.step (.fork source, outcomes)) := by
  rw [World.step]
  cases htable : w.table source with
  | none => exact h.sound_fail _
  | some s =>
    have hspec := fork_spec (h.tables source s htable) (w.memory outcomes)
    apply h.sound_add
    · intro s' memory hr
      obtain ⟨hshares, hnext⟩ := hspec.of_ok hr
      refine ⟨hshares.packed.valid_of_position hshares.position, hshares.packed.pending, hnext.ge,
        ?_, ?_⟩
      · intro id hid
        obtain ⟨segment, hmem, rfl⟩ := List.mem_map.mp hid
        obtain ⟨segment', hmem', heq⟩ := List.mem_map.mp (hshares.storages segment hmem)
        rw [hnext]
        refine h.fresh _ (World.mem_references.mpr ⟨source, s, htable, ?_⟩)
        rw [← heq]
        exact List.mem_map_of_mem hmem'
      · rw [Step.applied, World.family_table, htable, Option.map_some, KvState.rows, KvState.rows,
          hshares.slots]
    · intro fault memory hr
      exact (hspec.of_error hr).ge

theorem Copies.rows {s : KvState} {cells : Nat → Contents ρ} {snapshot : KvSnapshot (Contents ρ)}
    (h : Copies cells s snapshot) : snapshot.rows = s.rows cells := by
  have hslots : s.slots = slotsOf s.committedSegments := (slotsOf_filter s.segments).symm
  rw [KvSnapshot.rows, h.segments, KvState.rows, hslots, slotsOf, List.map_flatMap, List.flatMap_map]
  apply List.flatMap_congr
  intro segment _
  rw [KvSegment.slots, List.map_map]
  rfl

theorem World.Valid.sound_snapshot {w : World ρ} (h : w.Valid) (source : Nat) (outcomes : Outcomes) :
    w.Sound (.snapshot source) (w.step (.snapshot source, outcomes)) := by
  rw [World.step]
  cases htable : w.table source with
  | none => exact h.sound_fail _
  | some s =>
    have hspec := snapshot_spec w.cells s (w.memory outcomes)
    dsimp only
    cases hr : (s.snapshot w.cells).run (w.memory outcomes) with
    | ok snapshot memory =>
      obtain ⟨hcopies, hnext⟩ := hspec.of_ok hr
      refine ⟨⟨h.tables, fun id hid => (h.fresh id hid).trans_le hnext.ge, ?_, h.written⟩, ?_⟩
      · intro other hmem
        rcases List.mem_append.mp hmem with hmem | hmem
        · exact h.snapshots other hmem
        · rw [List.mem_singleton.mp hmem]
          exact ⟨s, w.cells, h.tables source s htable, hcopies⟩
      · rw [Step.expected, if_pos rfl, Step.applied, World.family_table, htable, Option.map_some,
          Option.getD_some, ← hcopies.rows]
        simp only [World.family, List.map_append, List.map_cons, List.map_nil]
    | error fault memory => exact h.sound_advance _ (hspec.of_error hr).ge

theorem KvSnapshot.Taken.filter {κ : Type} {snapshot : KvSnapshot κ} (h : snapshot.Taken) :
    (snapshot.segments.filter fun source => source.committedTokens ≠ 0) = snapshot.segments := by
  obtain ⟨s, contents, -, hcopies⟩ := h
  rw [hcopies.segments, copied_filter]

theorem World.Valid.sound_restore {w : World ρ} (h : w.Valid) (index : Nat) (outcomes : Outcomes) :
    w.Sound (.restore index) (w.step (.restore index, outcomes)) := by
  rw [World.step]
  cases hindex : w.snapshots[index]? with
  | none => exact h.sound_fail _
  | some snapshot =>
    have hspec := restore_spec snapshot (w.memory outcomes)
    have htaken := h.snapshots snapshot (List.mem_of_getElem? hindex)
    dsimp only
    cases hr : snapshot.restore.run (w.memory outcomes) with
    | error fault memory => exact h.sound_advance _ (hspec.of_error hr)
    | ok r memory =>
      obtain ⟨s, restored⟩ := r
      obtain ⟨heq, hrestores⟩ := hspec.of_ok hr
      dsimp only at heq hrestores ⊢
      have hfilter := htaken.filter
      rw [hfilter] at hrestores
      obtain ⟨source, contents, hsource, hcopies⟩ := htaken
      have hpacked : s.Packed source.position := by
        have hrestores' := hrestores
        rw [hcopies.segments] at hrestores'
        rw [heq]
        exact restored_packed hsource hrestores' rfl hcopies.shape rfl
      have hposition : s.position = source.position := by
        rw [heq]
        exact hcopies.position
      have hcells : ∀ id < w.nextStorage, World.fill w.cells restored id = w.cells id :=
        fun id hid => fill_of_lt hrestores hid
      refine ⟨World.add_valid h hcells (hpacked.valid_of_position hposition) hpacked.pending
        hrestores.le ?_, (World.add_family h hcells).trans ?_⟩
      · intro id hid
        rw [heq, KvState.references, List.map_map] at hid
        obtain ⟨r, hmem, rfl⟩ := List.mem_map.mp hid
        exact hrestores.fresh r hmem
      · have hrows : s.rows (World.fill w.cells restored) = snapshot.rows := by
          rw [heq]
          exact fill_rows hrestores
        have hsnapshot : w.family.snapshots[index]? = some snapshot.rows := by
          simp only [World.family, List.getElem?_map, hindex, Option.map_some]
        rw [hrows, ← hsnapshot]
        rfl

theorem World.Valid.sound_drop {w : World ρ} (h : w.Valid) (handle : Nat) (outcomes : Outcomes) :
    w.Sound (.drop handle) (w.step (.drop handle, outcomes)) := by
  have hcases : ∀ other s, ((w.states.set handle none)[other]?).join = some s →
      w.table other = some s := by
    intro other s hother
    rw [Option.join_eq_some_iff, List.getElem?_set] at hother
    split at hother
    · split at hother <;> simp at hother
    · exact World.table_eq_some.mpr hother
  refine ⟨⟨?_, ?_, h.snapshots, ?_⟩, ?_⟩
  · intro other s hother
    exact h.tables other s (hcases other s hother)
  · intro id hid
    obtain ⟨other, s, hother, hmem⟩ := World.mem_references.mp hid
    exact h.fresh id (World.mem_references.mpr ⟨other, s, hcases other s hother, hmem⟩)
  · intro other s range hother
    exact h.written other s range (hcases other s hother)
  · simp only [World.step, Step.expected, if_true, Step.applied, World.family, List.map_set]
    rfl

theorem World.Valid.sound_call {w : World ρ} (h : w.Valid) (handle : Nat) (c : Call)
    (outcomes : Outcomes) : w.Sound (.call handle c) (w.step (.call handle c, outcomes)) := by
  rw [World.step]
  cases htable : w.table handle with
  | none => exact h.sound_fail _
  | some s =>
    have hspec : Ends (c.run w.owned) ⟨s, w.memory outcomes⟩
        (fun _ m' => c.Succeeds ⟨s, w.memory outcomes⟩ m') (Unchanged ⟨s, w.memory outcomes⟩) :=
      c.run_spec (h.tables handle s htable)
    dsimp only
    cases hr : (c.run w.owned).run ⟨s, w.memory outcomes⟩ with
    | ok a m =>
      have hc := hspec.of_ok hr
      refine ⟨World.put_valid h htable hc.valid hc.next ?_,
        (World.put_family (f := fun rows => c.applied (w.writtenRows handle s) rows) htable
          (hc.rows h htable rfl)).trans ?_⟩
      · intro id hid
        obtain ⟨segment, hmem, rfl⟩ := List.mem_map.mp hid
        rcases hc.storages segment hmem with hold | hnew
        · obtain ⟨segment', hmem', heq⟩ := List.mem_map.mp hold
          left
          rw [← heq]
          exact List.mem_map_of_mem hmem'
        · exact .inr hnew.2
      · rw [Step.expected, if_pos rfl, Step.applied, htable]
        rfl
    | error fault m =>
      obtain ⟨-, hstate, hnext⟩ := hspec.of_error hr
      dsimp only
      rw [World.put_same htable hstate]
      exact h.sound_advance _ hnext.ge

theorem World.Valid.sound_write {w : World ρ} (h : w.Valid) (handle layer : Nat)
    (range : KvAppendRange) (offset : Nat) (value : ρ) (outcomes : Outcomes) :
    w.Sound (.write handle layer range offset value)
      (w.step (.write handle layer range offset value, outcomes)) := by
  rw [World.step]
  cases htable : w.table handle with
  | none => exact h.sound_fail _
  | some s =>
    dsimp only
    cases hspan : s.writeSpan w.owned layer range with
    | error e => exact h.sound_fail _
    | ok span =>
      dsimp only
      split
      · have hisolated := (World.writeSpan_isolated (h.tables handle s htable) htable hspan).2
        exact ⟨World.writeCell_valid h htable hspan,
          World.writeCell_family fun other s' hother => hisolated other s' hother offset⟩
      · exact h.sound_fail _

/-- Each step keeps the invariant and does to the rows what its operation says. -/
theorem World.Valid.step {w : World ρ} (h : w.Valid) (input : Step ρ × Outcomes) :
    w.Sound input.1 (w.step input) := by
  obtain ⟨op, outcomes⟩ := input
  cases op with
  | new shape dtype => exact h.sound_new shape dtype outcomes
  | fork source => exact h.sound_fork source outcomes
  | snapshot source => exact h.sound_snapshot source outcomes
  | restore index => exact h.sound_restore index outcomes
  | drop handle => exact h.sound_drop handle outcomes
  | call handle c => exact h.sound_call handle c outcomes
  | write handle layer range offset value => exact h.sound_write handle layer range offset value outcomes

/-! ## Runs -/

/-- The family after a run of steps. -/
def World.run (w : World ρ) (inputs : List (Step ρ × Outcomes)) : World ρ :=
  Framework.run (fun w input => (w.step input).1) w inputs

theorem World.Valid.run {w : World ρ} (h : w.Valid) (inputs : List (Step ρ × Outcomes)) :
    (w.run inputs).Valid := by
  induction inputs generalizing w with
  | nil => exact h
  | cons input inputs ih => exact ih (h.step input).1

/-- The tables of a family behave as independent row lists. In every run, each step does to the
row lists what its operation says and changes no other list, and write spans are only handed out
for storage with one reference, for rows that no table has committed. -/
theorem family_refines_rows (cells : Nat → Contents ρ) (inputs : List (Step ρ × Outcomes)) :
    (∀ input, (((World.empty cells).run inputs).step input).1.family =
      input.1.expected ((World.empty cells).run inputs)
        (((World.empty cells).run inputs).step input).2) ∧
    ∀ handle s layer range span, ((World.empty cells).run inputs).table handle = some s →
      s.writeSpan ((World.empty cells).run inputs).owned layer range = .ok span →
      ((World.empty cells).run inputs).references.count span.storage = 1 ∧
      ∀ other s', ((World.empty cells).run inputs).table other = some s' → ∀ offset,
        (span.storage, range.start - span.logicalStart + offset) ∉ s'.slots := by
  have hvalid := (World.empty_valid cells).run inputs
  exact ⟨fun input => (hvalid.step input).2, fun handle s layer range span htable hspan =>
    World.writeSpan_isolated (hvalid.tables handle s htable) htable hspan⟩

end Leone.Kv

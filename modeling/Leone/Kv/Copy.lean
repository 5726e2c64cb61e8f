import Leone.Kv.View

/-!
# Forks and restored snapshots

A fork shares the committed segments of its source. A snapshot copies what their storages
contain, and restoring it puts the copies in new storages. Either way the new table is well
formed and has a row for every row of its source.
-/

namespace Leone.Kv

open Framework Framework.Method

/-! ## Forks -/

/-- A table over the committed segments of another one. -/
structure Shares (s s' : KvState) : Prop where
  packed : s'.Packed s.position
  position : s'.position = s.position
  slots : s'.slots = s.slots
  storages : ∀ segment ∈ s'.segments, segment.storage ∈ s.segments.map KvSegment.storage

theorem fork_spec {s : KvState} (h : s.Valid) (memory : Memory) :
    Ends s.fork memory
      (fun s' memory' => Shares s s' ∧ memory'.nextStorage = memory.nextStorage)
      (fun _ memory' => memory'.nextStorage = memory.nextStorage) := by
  simp only [KvState.fork, ends_bind, ends_pure]
  apply ends_deviceCall
  · intro memory' hnext
    refine ⟨⟨h.packedFilter rfl rfl rfl, rfl, slotsOf_filter _, ?_⟩, hnext⟩
    intro segment hmem
    exact List.mem_map_of_mem (List.mem_of_mem_filter hmem)
  · intro _ _ hnext
    exact hnext

/-! ## Snapshots -/

section Snapshot

variable {κ : Type}

theorem copyLayers_spec (operation : String) (layers : Nat) (memory : Memory) :
    Ends (copyLayers operation layers) memory
      (fun _ memory' => memory'.nextStorage = memory.nextStorage)
      (fun _ memory' => memory'.nextStorage = memory.nextStorage) := by
  simp only [copyLayers, ends_bind]
  apply ends_reserve
  · intro m hm
    apply ends_forM (I := fun _ (m : Memory) => m.nextStorage = memory.nextStorage) hm
    intro _ _ m hm
    simp only [ends_bind]
    apply ends_deviceCall
    · intro m' hm'
      apply ends_deviceCall
      · intro m'' hm''
        exact hm''.trans (hm'.trans hm)
      · intro _ m'' hm''
        exact hm''.trans (hm'.trans hm)
    · intro _ m' hm'
      exact hm'.trans hm
  · intro _ m hm
    exact hm

/-- The copy of a segment. -/
def KvSegment.copied (contents : Nat → κ) (segment : KvSegment) : KvSnapshotSegment κ :=
  ⟨segment.logicalStart, segment.committedTokens, segment.storage.capacityTokens,
    segment.storage.layers, segment.storage.layerBytes, contents segment.storage.id⟩

theorem snapshotSegments_spec (contents : Nat → κ) (segments : List KvSegment) (memory : Memory) :
    Ends (segments.mapM (snapshotSegment contents)) memory
      (fun copies memory' => copies = segments.map (KvSegment.copied contents) ∧
        memory'.nextStorage = memory.nextStorage)
      (fun _ memory' => memory'.nextStorage = memory.nextStorage) := by
  induction segments generalizing memory with
  | nil => exact ⟨rfl, rfl⟩
  | cons segment segments ih =>
    simp only [List.mapM_cons, snapshotSegment, ends_bind, ends_pure]
    apply (copyLayers_spec _ _ memory).mono
    · intro _ m hm
      apply (ih m).mono
      · rintro copies m' ⟨rfl, hm'⟩
        exact ⟨rfl, hm'.trans hm⟩
      · intro _ m' hm'
        exact hm'.trans hm
    · intro _ m hm
      exact hm

/-- The rows of a table, copied. -/
structure Copies (contents : Nat → κ) (s : KvState) (snapshot : KvSnapshot κ) : Prop where
  segments : snapshot.segments = s.committedSegments.map (KvSegment.copied contents)
  position : snapshot.position = s.position
  shape : snapshot.shape = s.shape

theorem snapshot_spec (contents : Nat → κ) (s : KvState) (memory : Memory) :
    Ends (s.snapshot contents) memory
      (fun snapshot memory' => Copies contents s snapshot ∧ memory'.nextStorage = memory.nextStorage)
      (fun _ memory' => memory'.nextStorage = memory.nextStorage) := by
  simp only [KvState.snapshot, ends_bind, ends_pure]
  apply ends_reserve
  · intro m hm
    apply (snapshotSegments_spec contents _ m).mono
    · rintro copies m' ⟨rfl, hm'⟩
      apply ends_deviceCall
      · intro m'' hm''
        exact ⟨⟨rfl, rfl, rfl⟩, hm''.trans (hm'.trans hm)⟩
      · intro _ m'' hm''
        exact hm''.trans (hm'.trans hm)
    · intro _ m' hm'
      exact hm'.trans hm
  · intro _ m hm
    exact hm

/-! ## Restoring -/

/-- Segments over new storages with the contents of their copies. -/
inductive Restores : Nat → List (KvSnapshotSegment κ) → List (KvSegment × κ) → Nat → Prop
  | nil (next : Nat) : Restores next [] [] next
  | cons {next stop : Nat} {source : KvSnapshotSegment κ} {sources : List (KvSnapshotSegment κ)}
      {segments : List (KvSegment × κ)} (rest : Restores (next + 1) sources segments stop) :
      Restores next (source :: sources)
        ((⟨source.logicalStart, source.committedTokens,
          ⟨next, source.capacityTokens, source.layers, source.layerBytes⟩⟩, source.contents) ::
            segments) stop

theorem Restores.le {next stop : Nat} {sources : List (KvSnapshotSegment κ)}
    {segments : List (KvSegment × κ)} (h : Restores next sources segments stop) : next ≤ stop := by
  induction h with
  | nil => exact le_refl _
  | cons rest ih => exact (Nat.le_succ _).trans ih

theorem restoreSegments_spec (sources : List (KvSnapshotSegment κ)) (memory : Memory) :
    Ends (sources.mapM restoreSegment) memory
      (fun segments memory' => Restores memory.nextStorage sources segments memory'.nextStorage)
      (fun _ memory' => memory.nextStorage ≤ memory'.nextStorage) := by
  induction sources generalizing memory with
  | nil => exact .nil _
  | cons source sources ih =>
    simp only [List.mapM_cons, restoreSegment, Memory.freshStorage, ends_bind, ends_ofExcept,
      ends_get, ends_modify, ends_pure]
    apply (copyLayers_spec _ _ memory).mono
    · intro _ m hm
      constructor
      · intro _ _
        apply (ih _).mono
        · intro segments m' hm'
          dsimp only at hm'
          rw [hm] at hm' ⊢
          exact .cons hm'
        · intro _ m' hm'
          dsimp only at hm'
          omega
      · intro _ _
        exact hm.ge
    · intro _ m hm
      exact hm.ge

theorem restore_spec (snapshot : KvSnapshot κ) (memory : Memory) :
    Ends snapshot.restore memory
      (fun r memory' => r.1 = { KvState.empty snapshot.shape snapshot.dtype with
          segments := r.2.map Prod.fst, position := snapshot.position } ∧
        Restores memory.nextStorage
          (snapshot.segments.filter fun source => source.committedTokens ≠ 0) r.2
          memory'.nextStorage)
      (fun _ memory' => memory.nextStorage ≤ memory'.nextStorage) := by
  simp only [KvSnapshot.restore, ends_bind, ends_pure]
  apply ends_reserve
  · intro m hm
    apply (restoreSegments_spec _ m).mono
    · intro segments m' hm'
      apply ends_deviceCall
      · intro m'' hm''
        rw [hm'']
        rw [hm] at hm'
        exact ⟨trivial, hm'⟩
      · intro _ m'' hm''
        have := hm'.le
        omega
    · intro _ m' hm'
      omega
  · intro _ m hm
    exact hm.ge

/-- A copy of the committed segments of `segments`, over new storages. -/
theorem Restores.of_copied {next stop : Nat} {contents : Nat → κ} {segments : List KvSegment}
    {restored : List (KvSegment × κ)}
    (h : Restores next (segments.map (KvSegment.copied contents)) restored stop) :
    List.Forall₂ (fun segment r => r.1.logicalStart = segment.logicalStart ∧
      r.1.committedTokens = segment.committedTokens ∧
      r.1.storage.capacityTokens = segment.storage.capacityTokens ∧
      r.2 = contents segment.storage.id) segments restored := by
  induction segments generalizing next restored with
  | nil =>
    cases h
    exact .nil
  | cons segment segments ih =>
    cases h with
    | cons rest => exact .cons ⟨rfl, rfl, rfl, rfl⟩ (ih rest)

end Snapshot

/-- Coverage only looks at the addresses and the committed counts. -/
theorem Covers.of_forall₂ {a b : Nat} {segments segments' : List KvSegment}
    (h : Covers a segments b)
    (hsame : List.Forall₂ (fun segment segment' => segment'.logicalStart = segment.logicalStart ∧
      segment'.committedTokens = segment.committedTokens) segments segments') :
    Covers a segments' b := by
  induction hsame generalizing a with
  | nil => exact h
  | cons hhead _ ih =>
    refine ⟨hhead.1.trans h.1, ?_⟩
    rw [hhead.2]
    exact ih h.2

/-- A restored copy of a well-formed table is well formed. -/
theorem restored_packed {κ : Type} {s s' : KvState} {contents : Nat → κ} {next stop : Nat}
    {restored : List (KvSegment × κ)} (h : s.Valid)
    (hrestores : Restores next (s.committedSegments.map (KvSegment.copied contents)) restored stop)
    (hsegments : s'.segments = restored.map Prod.fst) (hshape : s'.shape = s.shape)
    (hpending : s'.pending = none) : s'.Packed s.position := by
  have hall := hrestores.of_copied
  have hsame : List.Forall₂ (fun segment segment' : KvSegment =>
      segment'.logicalStart = segment.logicalStart ∧
      segment'.committedTokens = segment.committedTokens ∧
      segment'.storage.capacityTokens = segment.storage.capacityTokens) s.committedSegments
        s'.segments := by
    rw [hsegments, List.forall₂_map_right_iff]
    exact hall.imp fun _ _ hr => ⟨hr.1, hr.2.1, hr.2.2.1⟩
  have hsource : KvState.Packed { s with segments := s.committedSegments, pending := none }
      s.position := h.packedFilter rfl rfl rfl
  have hmem : ∀ segment' ∈ s'.segments, ∃ segment ∈ s.committedSegments,
      segment'.logicalStart = segment.logicalStart ∧
      segment'.committedTokens = segment.committedTokens ∧
      segment'.storage.capacityTokens = segment.storage.capacityTokens := by
    intro segment' hmem'
    obtain ⟨i, hi, rfl⟩ := List.mem_iff_getElem.mp hmem'
    have hlen := hsame.length_eq
    exact ⟨s.committedSegments[i], List.getElem_mem _, hsame.get (by omega) hi⟩
  refine ⟨hsource.covers.of_forall₂ (hsame.imp fun _ _ hr => ⟨hr.1, hr.2.1⟩), ?_, ?_, hpending⟩
  · intro segment' hmem'
    obtain ⟨segment, hin, hstart, hcommitted, hcapacity⟩ := hmem segment' hmem'
    have := hsource.fits segment hin
    unfold KvSegment.Fits at this ⊢
    rw [hstart, hcommitted, hcapacity, hshape]
    exact this
  · intro segment' hmem'
    obtain ⟨segment, hin, -, hcommitted, -⟩ := hmem segment' hmem'
    rw [hcommitted]
    exact hsource.filled segment hin

theorem copied_filter {κ : Type} {s : KvState} {contents : Nat → κ} :
    (s.committedSegments.map (KvSegment.copied contents)).filter
      (fun source => source.committedTokens ≠ 0) =
      s.committedSegments.map (KvSegment.copied contents) := by
  rw [List.filter_eq_self]
  intro source hmem
  obtain ⟨segment, hin, rfl⟩ := List.mem_map.mp hmem
  have hcommitted := (List.mem_filter.mp hin).2
  exact hcommitted

end Leone.Kv

import Leone.Kv.Table

/-!
# The operations of a KV table

One specification per operation: what a success leaves behind, and that a failure leaves the
table as it was.
-/

namespace Leone.Kv

open Framework Framework.Method

/-- A failed call: only memory may have been used. -/
def Unchanged (m : Machine) (fault : Fault BackendError) (m' : Machine) : Prop :=
  fault ≠ .panic ∧ m'.state = m.state ∧ m'.memory.nextStorage = m.memory.nextStorage

/-- A successful call on the rows below a position. New storage has a new identity. -/
structure Stages (m : Machine) (position : Nat) (m' : Machine) : Prop where
  valid : m'.state.Valid
  slots : m'.state.slots = m.state.slots.take position
  position : m'.state.position = position
  next : m.memory.nextStorage ≤ m'.memory.nextStorage
  storages : ∀ segment ∈ m'.state.segments, segment.storage ∈ m.state.segments.map KvSegment.storage ∨
    m.memory.nextStorage ≤ segment.storage.id ∧ segment.storage.id < m'.memory.nextStorage
  dtype : m'.state.dtype = m.state.dtype

/-- An append of so many tokens is pending. -/
def Pends (s : KvState) (tokens : Nat) (range : KvAppendRange) : Prop :=
  s.pending = some range ∧ range.tokens = tokens

/-- A new revision of the same table. -/
theorem Stages.of_revision {m m' : Machine} (h : m.state.Valid) {revision : Nat}
    (hstate : m'.state = { m.state with revision })
    (hnext : m'.memory.nextStorage = m.memory.nextStorage) : Stages m m.state.position m' where
  valid := by
    rw [hstate]
    exact h.revised revision
  slots := by
    rw [hstate, List.take_of_length_le h.length_slots.le]
    rfl
  position := by rw [hstate]
  next := hnext.ge
  storages := by
    rw [hstate]
    intro segment hmem
    exact .inl (List.mem_map_of_mem hmem)
  dtype := by rw [hstate]

theorem Stages.trans {m m' m'' : Machine} {position : Nat} (h : Stages m position m')
    (h' : Stages m' m'.state.position m'') : Stages m position m'' where
  valid := h'.valid
  slots := by rw [h'.slots, h.slots, h.position, List.take_take, Nat.min_self]
  position := h'.position.trans h.position
  next := h.next.trans h'.next
  storages := by
    intro segment hmem
    rcases h'.storages segment hmem with hold | hnew
    · obtain ⟨segment', hmem', heq⟩ := List.mem_map.mp hold
      rw [← heq]
      rcases h.storages segment' hmem' with hold' | hnew'
      · exact .inl hold'
      · exact .inr ⟨hnew'.1, hnew'.2.trans_le h'.next⟩
    · exact .inr ⟨h.next.trans hnew.1, hnew.2⟩
  dtype := h'.dtype.trans h.dtype

/-- A cut that is put in place, with whatever memory and revision. -/
theorem Stages.of_cut {m m' : Machine} {position : Nat} {s' : KvState}
    (h : CutTo m.state position s') (revision : Nat)
    (hstate : m'.state = { s' with position, revision })
    (hnext : m'.memory.nextStorage = m.memory.nextStorage) : Stages m position m' where
  valid := by
    rw [hstate]
    exact h.packed.valid revision
  slots := by
    rw [hstate]
    exact h.slots
  position := by rw [hstate]
  next := hnext.ge
  storages := by
    rw [hstate]
    intro segment hmem
    exact .inl (h.layout.storages segment hmem)
  dtype := by
    rw [hstate]
    exact h.layout.dtype

/-! ## Memory -/

section Rules

variable {α : Type} {m : Machine} {Q : Unit → Machine → Prop}
  {E : Fault BackendError → Machine → Prop}

theorem ends_reserve {m : Memory} {operation : String} {Q : Unit → Memory → Prop}
    {E : Fault BackendError → Memory → Prop}
    (hQ : ∀ m', m'.nextStorage = m.nextStorage → Q () m')
    (hE : ∀ message m', m'.nextStorage = m.nextStorage →
      E (.error (.operation operation message)) m') : Ends (Memory.reserve operation) m Q E := by
  simp only [Ends, Memory.reserve, EStateM.run]
  split
  · rename_i hrun
    split at hrun
    · cases hrun
    · cases hrun
      exact hQ _ rfl
  · rename_i hrun
    split at hrun
    · cases hrun
      exact hE _ _ rfl
    · cases hrun

theorem ends_deviceCall {m : Memory} {Q : Unit → Memory → Prop}
    {E : Fault BackendError → Memory → Prop}
    (hQ : ∀ m', m'.nextStorage = m.nextStorage → Q () m')
    (hE : ∀ error m', m'.nextStorage = m.nextStorage → E (.error error) m') :
    Ends Memory.deviceCall m Q E := by
  simp only [Ends, Memory.deviceCall, EStateM.run]
  split
  · rename_i hrun
    split at hrun
    · cases hrun
    · cases hrun
      exact hQ _ rfl
  · rename_i hrun
    split at hrun
    · cases hrun
      exact hE _ _ rfl
    · cases hrun

@[simp] theorem ends_setState {f : KvState → KvState} :
    Ends (setState f) m Q E ↔ Q () { m with state := f m.state } := Iff.rfl

@[simp] theorem ends_onMemory {Q : α → Machine → Prop} {c : MemoryM α} :
    Ends (onMemory c) m Q E ↔ Ends c m.memory (fun a memory => Q a { m with memory })
      (fun e memory => E e { m with memory }) := ends_zoom ..

theorem ends_reserveVec {operation : String}
    (hQ : ∀ memory, memory.nextStorage = m.memory.nextStorage → Q () { m with memory })
    (hE : ∀ fault memory, fault ≠ .panic → memory.nextStorage = m.memory.nextStorage →
      E fault { m with memory }) : Ends (reserveVec operation) m Q E := by
  rw [reserveVec, ends_onMemory]
  apply ends_reserve hQ
  intro message memory hnext
  exact hE _ memory (by simp) hnext

theorem ends_allocateClassified
    (hQ : ∀ memory, memory.nextStorage = m.memory.nextStorage → Q () { m with memory })
    (hE : ∀ fault memory, fault ≠ .panic → memory.nextStorage = m.memory.nextStorage →
      E fault { m with memory }) : Ends allocateClassified m Q E := by
  rw [allocateClassified, ends_onMemory]
  apply ends_deviceCall hQ
  intro error memory hnext
  exact hE _ memory (by simp) hnext

@[simp] theorem ends_orRestore {Q : α → Machine → Prop}
    {prepare : Method Preparation BackendError α} {rollback : KvAppendRollback} :
    Ends (orRestore prepare rollback) m Q E ↔
      Ends prepare ⟨m, rollback⟩ (fun a p => Q a p.machine) (fun e p =>
        E e { p.machine with state := p.machine.state.restoreAppendPosition p.rollback }) := by
  simp only [Ends, orRestore, EStateM.run]
  cases prepare ⟨m, rollback⟩ <;> rfl

@[simp] theorem ends_onMachine {p : Preparation} {Q : α → Preparation → Prop}
    {E : Fault BackendError → Preparation → Prop} {c : KvM α} :
    Ends (onMachine c) p Q E ↔ Ends c p.machine (fun a m => Q a { p with machine := m })
      (fun e m => E e { p with machine := m }) := ends_zoom ..

/-- Taking a record reads the table and may run out of memory. -/
theorem ends_captureAppendRollback {Q : KvAppendRollback → Machine → Prop}
    (hQ : ∀ memory, memory.nextStorage = m.memory.nextStorage →
      Q (m.state.record []) { m with memory })
    (hE : ∀ fault m', Unchanged m fault m' → E fault m') : Ends captureAppendRollback m Q E := by
  simp only [captureAppendRollback, ends_bind, ends_get, ends_pure]
  apply ends_reserveVec
  · intro memory hnext
    apply ends_reserveVec
    · intro memory' hnext'
      exact hQ memory' (hnext'.trans hnext)
    · intro fault memory' hfault hnext'
      exact hE _ _ ⟨hfault, rfl, hnext'.trans hnext⟩
  · intro fault memory hfault hnext
    exact hE _ _ ⟨hfault, rfl, hnext⟩

end Rules

/-! ## Cuts -/

theorem ends_finishStagedRevision {m : Machine} {s : KvState} {rollback : KvAppendRollback}
    {increments : Nat} (h : Staged.Undoes ⟨m.state, rollback⟩ s) :
    Ends (finishStagedRevision rollback increments) m
      (fun r m' => r = rollback ∧ ∃ revision, m' = { m with state.revision := revision })
      (fun fault m' => fault ≠ .panic ∧ m' = { m with state := s }) := by
  simp only [finishStagedRevision, ends_ite]
  constructor
  · intro _
    exact ⟨rfl, m.state.revision, rfl⟩
  · intro _
    simp only [ends_bind, ends_get]
    split
    · simp only [ends_bind, ends_setState, ends_raise]
      exact ⟨by simp, by rw [h.restore]⟩
    · simp only [ends_bind, ends_setState, ends_pure]
      exact ⟨trivial, _, rfl⟩

/-- `truncate` keeps exactly the rows below the position. -/
theorem truncate_spec {m : Machine} (h : m.state.Valid) (position : Nat) :
    Ends (truncate position) m (fun _ m' => Stages m position m' ∧ m'.state.pending = none)
      (Unchanged m) := by
  simp only [truncate, ends_bind, ends_get, ends_ensure]
  constructor
  · intro hle
    apply ends_captureAppendRollback
    · intro memory hnext
      have hundo := (m.state.peels_record.cut position)
      have hcut := CutTo.cut h hle (m.state.record [])
      simp only [placeStaged, ends_setState, ends_discard]
      apply (ends_finishStagedRevision (s := m.state) (by exact hundo)).mono
      · rintro _ m' ⟨-, revision, rfl⟩
        exact ⟨Stages.of_cut hcut revision rfl hnext, hcut.packed.pending⟩
      · rintro fault m' ⟨hfault, rfl⟩
        exact ⟨hfault, rfl, hnext⟩
    · exact fun _ _ hfail => hfail
  · intro _
    exact ⟨by simp, rfl, rfl⟩

/-! ## Staging an append -/

section Append

variable {owned : Nat → Bool}

/-- A cut for an append keeps the rows below the position, and perhaps the pending append. -/
theorem stageAppendPosition_spec {m : Machine} (h : m.state.Valid) (position tokens : Nat) :
    Ends (stageAppendPosition owned position tokens) m
      (fun rollback m' => Stages m position m' ∧ Staged.Undoes ⟨m'.state, rollback⟩ m.state ∧
        m'.memory.nextStorage = m.memory.nextStorage)
      (Unchanged m) := by
  simp only [stageAppendPosition, ends_bind, ends_get, ends_ensure]
  constructor
  · intro hle
    apply ends_captureAppendRollback
    · intro memory hnext
      by_cases hkeep : m.state.pendingReusableAt owned position tokens = true
      · -- the pending append starts at the position, so nothing is cut
        have hposition : position = m.state.position := by
          unfold KvState.pendingReusableAt at hkeep
          split at hkeep
          · cases hkeep
          · simp only [Bool.and_eq_true, beq_iff_eq] at hkeep
            exact hkeep.1.1.1
        subst hposition
        simp only [cutForAppend, hkeep, if_true, placeStaged, ends_setState]
        apply (ends_finishStagedRevision (m := ⟨m.state, memory⟩)
          m.state.peels_record.undoes).mono
        · rintro rollback m' ⟨rfl, revision, rfl⟩
          exact ⟨Stages.of_revision h rfl hnext, m.state.peels_record.undoes, hnext⟩
        · rintro fault m' ⟨hfault, rfl⟩
          exact ⟨hfault, rfl, hnext⟩
      · have hundo := (m.state.peels_record.cut position)
        have hcut := CutTo.cut h hle (m.state.record [])
        simp only [cutForAppend, hkeep, placeStaged, ends_setState]
        apply (ends_finishStagedRevision (s := m.state) (by exact hundo)).mono
        · rintro rollback m' ⟨rfl, revision, rfl⟩
          exact ⟨Stages.of_cut hcut revision rfl hnext, hundo, hnext⟩
        · rintro fault m' ⟨hfault, rfl⟩
          exact ⟨hfault, rfl, hnext⟩
    · exact fun _ _ hfail => hfail
  · intro _
    exact ⟨by simp, rfl, rfl⟩

/-- A part of a preparation that stops early: its record still leads back. -/
def Recovers (m : Machine) (fault : Fault BackendError) (p : Preparation) : Prop :=
  fault ≠ .panic ∧ Staged.Undoes ⟨p.machine.state, p.rollback⟩ m.state ∧
    p.machine.memory.nextStorage = m.memory.nextStorage

/-- A part of a preparation that is done. -/
structure Prepares (m : Machine) (p : Preparation) : Prop where
  stages : Stages m m.state.position p.machine
  undoes : Staged.Undoes ⟨p.machine.state, p.rollback⟩ m.state
  next : p.machine.memory.nextStorage = m.memory.nextStorage
  shape : p.machine.state.shape = m.state.shape

theorem KvState.Valid.withPending {s : KvState} (h : s.Valid) {range : KvAppendRange}
    (hrange : s.PendingFits range) (revision : Nat) :
    KvState.Valid { s with pending := some range, revision } where
  covers := h.covers
  fits := h.fits
  filled := by
    intro front segment back heq hzero
    exact ⟨(h.filled front segment back heq hzero).1, by simp⟩
  pending := by
    intro range' hrange'
    obtain rfl := Option.some.inj hrange'
    exact hrange.of_same rfl rfl

/-- A writable range of the pending segment fits there. -/
theorem KvState.PendingFits.retarget {s : KvState} {pending : KvAppendRange}
    (h : s.PendingFits pending) {tokens : Nat} (hpos : 0 < tokens)
    (hwritable : s.pendingTargetWritable owned { pending with tokens } = true) :
    s.PendingFits { pending with tokens } := by
  refine ⟨h.start, hpos, ?_⟩
  obtain ⟨front, last, heq, hindex, -⟩ := h.target
  refine ⟨front, last, heq, hindex, ?_⟩
  simp only [KvState.pendingTargetWritable, hindex, heq, List.getElem?_concat_length,
    Bool.and_eq_true, decide_eq_true_eq] at hwritable
  dsimp only
  omega

theorem retargetPending_spec {m : Machine} {pending : KvAppendRange} {tokens : Nat}
    (h : m.state.Valid) (hpending : m.state.pending = some pending) (hpos : 0 < tokens) :
    Ends (retargetPending owned pending tokens) m
      (fun r m' => match r with
        | none => m' = m
        | some range => m'.state.Valid ∧ range.tokens = tokens ∧
          ∃ revision, m' = { m with state := { m.state with pending := some range, revision } })
      (fun fault m' => fault ≠ .panic ∧ m' = m) := by
  simp only [retargetPending, ends_bind, ends_get, ends_ite]
  constructor
  · intro hwritable
    simp only [ends_orErr, ends_setState, ends_pure]
    constructor
    · intro revision _
      have hfits := (h.pending pending hpending).retarget hpos hwritable
      exact ⟨h.withPending hfits revision, trivial, revision, rfl⟩
    · intro _
      exact ⟨by simp, trivial⟩
  · intro _
    exact rfl

theorem discardPendingWithRollback_spec {m : Machine} (h : m.state.Valid) :
    Ends discardPendingWithRollback ⟨m, m.state.record []⟩
      (fun _ p => Prepares m p ∧ p.machine.state.pending = none) (Recovers m) := by
  simp only [discardPendingWithRollback, ends_bind, ends_get, ends_ite]
  constructor
  · intro hnone
    exact ⟨⟨Stages.of_revision h rfl rfl, m.state.peels_record.undoes, rfl, rfl⟩, hnone⟩
  · intro _
    simp only [ends_orErr, ends_modify]
    constructor
    · intro revision _
      have hcut := CutTo.detachPending h (m.state.record [])
      have hundo := m.state.peels_record.detachPending.undoes
      have hposition := detachPending_position ⟨m.state, m.state.record []⟩
      refine ⟨⟨Stages.of_cut hcut revision ?_ rfl, hundo, rfl, hcut.layout.shape⟩, trivial⟩
      rw [← hcut.packed.pending, ← hposition]
    · intro _
      exact ⟨by simp, m.state.peels_record.undoes, rfl⟩

theorem replacePending_spec {m : Machine} {pending : KvAppendRange} (h : m.state.Valid)
    (hpending : m.state.pending = some pending) :
    Ends (replacePending pending) ⟨m, m.state.record []⟩
      (fun r p => r = none ∧ Prepares m p ∧ p.machine.state.pending = none) (Recovers m) := by
  simp only [replacePending, ends_bind, ends_get, ends_ite, ends_ensure, ends_pure]
  constructor
  · intro _
    apply (discardPendingWithRollback_spec h).mono
    · intro _ p hp
      exact ⟨fun _ => ⟨trivial, hp⟩, fun hsome => absurd hp.2 hsome⟩
    · exact fun _ _ hfail => hfail
  · intro hstart
    exact absurd (h.pending pending hpending).start hstart

theorem pendingAppend_spec {m : Machine} {tokens : Nat} (h : m.state.Valid) (hpos : 0 < tokens) :
    Ends (pendingAppend owned tokens) ⟨m, m.state.record []⟩
      (fun r p => Prepares m p ∧ match r with
        | some range => Pends p.machine.state tokens range
        | none => p.machine.state.pending = none) (Recovers m) := by
  have hsame : Prepares m ⟨m, m.state.record []⟩ :=
    ⟨Stages.of_revision h rfl rfl, m.state.peels_record.undoes, rfl, rfl⟩
  simp only [pendingAppend, ends_bind, ends_get]
  split
  · rename_i hnone
    exact ⟨hsame, hnone⟩
  · rename_i pending hpending
    have hreplace : Ends (replacePending pending) ⟨m, m.state.record []⟩
        (fun r p => Prepares m p ∧ match r with
          | some range => Pends p.machine.state tokens range
          | none => p.machine.state.pending = none) (Recovers m) := by
      apply (replacePending_spec h hpending).mono
      · rintro r p ⟨rfl, hp⟩
        exact hp
      · exact fun _ _ hfail => hfail
    simp only [ends_ite]
    refine ⟨fun hsame' => ⟨hsame, hpending, hsame'.2.1⟩, fun _ => ⟨fun _ => ?_, fun _ => hreplace⟩⟩
    simp only [ends_bind, ends_onMachine]
    apply (retargetPending_spec h hpending hpos).mono
    · intro r m' hm'
      cases r with
      | none =>
        obtain rfl : m' = m := hm'
        exact hreplace
      | some range =>
        obtain ⟨hvalid, htokens, revision, rfl⟩ := hm'
        refine ⟨⟨⟨hvalid, hsame.stages.slots, rfl, le_refl _, hsame.stages.storages, rfl⟩, ?_, rfl,
          rfl⟩, rfl, htokens⟩
        exact m.state.peels_record.undoes.extend (List.prefix_refl _) rfl
    · rintro fault m' ⟨hfault, rfl⟩
      exact ⟨hfault, m'.state.peels_record.undoes, rfl⟩

theorem allocateLayers_spec (m : Machine) (layers : Nat) :
    Ends (allocateLayers layers) m
      (fun _ m' => m'.state = m.state ∧ m'.memory.nextStorage = m.memory.nextStorage)
      (Unchanged m) := by
  simp only [allocateLayers, ends_bind]
  apply ends_reserveVec
  · intro memory hnext
    apply ends_forM (I := fun _ (m' : Machine) => m'.state = m.state ∧
      m'.memory.nextStorage = m.memory.nextStorage) (s := ⟨m.state, memory⟩) ⟨rfl, hnext⟩
    rintro _ _ m' ⟨hstate, hnext'⟩
    simp only [ends_bind]
    apply ends_allocateClassified
    · intro memory' hkey
      apply ends_allocateClassified
      · intro memory'' hvalue
        exact ⟨hstate, hvalue.trans (hkey.trans hnext')⟩
      · intro fault memory'' hfault hvalue
        exact ⟨hfault, hstate, hvalue.trans (hkey.trans hnext')⟩
    · intro fault memory' hfault hkey
      exact ⟨hfault, hstate, hkey.trans hnext'⟩
  · intro fault memory hfault hnext
    exact ⟨hfault, rfl, hnext⟩

theorem allocateStorage_spec (m : Machine) (layers capacity : Nat) :
    Ends (allocateStorage layers capacity) m
      (fun storage m' => storage.id = m.memory.nextStorage ∧ storage.capacityTokens = capacity ∧
        m'.state = m.state ∧ m'.memory.nextStorage = m.memory.nextStorage + 1)
      (Unchanged m) := by
  simp only [allocateStorage, Memory.freshStorage, ends_bind, ends_get, ends_ofExcept, ends_modify,
    ends_onMemory, ends_pure]
  constructor
  · intro _ _
    apply (allocateLayers_spec m layers).mono
    · rintro _ m' ⟨hstate, hnext⟩
      constructor
      · intro _ _
        rw [hnext]
        exact ⟨rfl, trivial, hstate, rfl⟩
      · intro _ _
        exact ⟨by simp, hstate, hnext⟩
    · exact fun _ _ hfail => hfail
  · intro _ _
    exact ⟨by simp, rfl, rfl⟩

theorem dtypeCapacity_eq_ok {s : KvState} {requested remaining capacity : Nat}
    (h : s.dtypeCapacity requested remaining = .ok capacity) :
    capacity = requested ∧ requested ≤ remaining ∧ 0 < requested := by
  unfold KvState.dtypeCapacity at h
  split at h
  · cases h
  · split at h
    · cases h
    · split at h
      · cases h
      · cases h
        exact ⟨rfl, by omega, by omega⟩

/-- A new segment at the position is a valid append target. -/
theorem KvState.Packed.pushPending {s : KvState} (h : s.Packed s.position) (storage : KvStorage)
    {tokens : Nat} (hpos : 0 < tokens) (htokens : tokens ≤ storage.capacityTokens)
    (hcapacity : s.position + storage.capacityTokens ≤ s.shape.maxContext) (revision : Nat) :
    KvState.Valid { s with
      segments := s.segments ++ [⟨s.position, 0, storage⟩]
      pending := some ⟨s.position, tokens, s.segments.length⟩
      revision } where
  covers := covers_concat.mpr ⟨h.covers, rfl⟩
  fits := by
    intro segment hmem
    rcases List.mem_append.mp hmem with hmem | hmem
    · exact h.fits segment hmem
    · rw [List.mem_singleton.mp hmem]
      exact ⟨Nat.zero_le _, hcapacity⟩
  filled := by
    intro front segment back heq hzero
    refine ⟨?_, by simp⟩
    rcases List.eq_nil_or_concat back with hnil | ⟨back', last, hback⟩
    · exact hnil
    · rw [hback, List.concat_eq_append, ← List.cons_append, ← List.append_assoc] at heq
      have hfront := (List.append_inj' heq rfl).1
      have := h.filled segment (by
        rw [hfront]
        simp)
      omega
  pending := by
    intro range hrange
    obtain rfl := Option.some.inj hrange
    exact ⟨rfl, hpos, s.segments, _, rfl, rfl, Nat.add_le_add_left htokens _⟩

theorem allocateAppend_spec {m : Machine} {layers tokens growthTokens : Nat} (h : m.state.Valid)
    (hnone : m.state.pending = none) (hpos : 0 < tokens)
    (hend : m.state.position + tokens ≤ m.state.shape.maxContext) :
    Ends (allocateAppend layers tokens growthTokens) m
      (fun range m' => Stages m m.state.position m' ∧ Pends m'.state tokens range ∧
        m'.state.shape = m.state.shape)
      (Unchanged m) := by
  have hfail : ∀ e, Unchanged m (.error e) m := fun e => ⟨by simp, rfl, rfl⟩
  simp only [allocateAppend, ends_bind, ends_get, ends_orErr, ends_ofExcept, ends_setState, ends_pure]
  refine ⟨fun revision _ => ⟨fun remaining hremaining => ⟨fun capacity hcapacity => ?_,
    fun e _ => hfail e⟩, fun _ => hfail _⟩, fun _ => hfail _⟩
  obtain ⟨-, hremaining⟩ := checkedSub_eq_some.mp hremaining
  obtain ⟨hrequested, hle, -⟩ := dtypeCapacity_eq_ok hcapacity
  apply ends_reserveVec
  · intro memory hnext
    apply (allocateStorage_spec _ layers capacity).mono
    · intro storage m' hm'
      obtain ⟨hid, hcap, hstate, hnext'⟩ := hm'
      dsimp only at hid hstate hnext'
      have hvalid := (h.packed hnone).pushPending storage hpos (by omega) (by omega) revision
      refine ⟨⟨?_, ?_, ?_, ?_, ?_, ?_⟩, ⟨rfl, rfl⟩, ?_⟩
      · rw [hstate]
        exact hvalid
      · rw [hstate, List.take_of_length_le h.length_slots.le]
        simp [KvState.slots, KvSegment.slots]
      · rw [hstate]
      · dsimp only
        omega
      · rw [hstate]
        intro segment hmem
        rcases List.mem_append.mp hmem with hmem | hmem
        · exact .inl (List.mem_map_of_mem hmem)
        · rw [List.mem_singleton.mp hmem]
          dsimp only
          right
          omega
      · rw [hstate]
      · rw [hstate]
    · rintro fault m' ⟨hfault, hstate, hnext'⟩
      exact ⟨hfault, hstate, hnext'.trans hnext⟩
  · intro fault memory hfault hnext
    exact ⟨hfault, rfl, hnext⟩

theorem appendToTail_spec {m : Machine} {layers tokens growthTokens : Nat} (h : m.state.Valid)
    (hnone : m.state.pending = none) (hpos : 0 < tokens)
    (hend : m.state.position + tokens ≤ m.state.shape.maxContext) :
    Ends (appendToTail owned layers tokens growthTokens) m
      (fun range m' => Stages m m.state.position m' ∧ Pends m'.state tokens range ∧
        m'.state.shape = m.state.shape)
      (Unchanged m) := by
  simp only [appendToTail, ends_bind, ends_get]
  split
  · rename_i segmentIndex htail
    simp only [ends_bind, ends_setState, ends_pure]
    unfold KvState.reusableTail at htail
    split at htail
    · cases htail
    · rename_i last hlast
      split at htail
      · rename_i hreuse
        obtain rfl := Option.some.inj htail
        have heq := (List.dropLast_append_getLast? last hlast).symm
        have hfits : m.state.PendingFits ⟨m.state.position, tokens, m.state.segments.length - 1⟩ := by
          refine ⟨rfl, hpos, m.state.segments.dropLast, last, heq, ?_, ?_⟩
          · rw [List.length_dropLast]
          · have := hreuse.1
            have := hreuse.2.2
            dsimp only
            omega
        refine ⟨⟨h.withPending hfits m.state.revision, ?_, rfl, le_refl _, ?_, rfl⟩, ⟨rfl, rfl⟩, trivial⟩
        · rw [List.take_of_length_le h.length_slots.le]
          rfl
        · intro segment hmem
          exact .inl (List.mem_map_of_mem hmem)
      · cases htail
  · exact allocateAppend_spec h hnone hpos hend

theorem prepareAppendStaged_spec {m : Machine} {layers tokens growthTokens : Nat}
    (h : m.state.Valid) (hpos : 0 < tokens)
    (hend : m.state.position + tokens ≤ m.state.shape.maxContext) :
    Ends (prepareAppendStaged owned layers tokens growthTokens) ⟨m, m.state.record []⟩
      (fun range p => Stages m m.state.position p.machine ∧ Pends p.machine.state tokens range ∧
        p.machine.state.shape = m.state.shape)
      (Recovers m) := by
  simp only [prepareAppendStaged, ends_bind]
  apply (pendingAppend_spec h hpos).mono
  · intro r p hp
    obtain ⟨hprepares, hr⟩ := hp
    cases r with
    | some range => exact ⟨hprepares.stages, hr, hprepares.shape⟩
    | none =>
      simp only [ends_onMachine]
      have hposition := hprepares.stages.position
      apply (appendToTail_spec hprepares.stages.valid hr hpos
        (by rw [hposition, hprepares.shape]; exact hend)).mono
      · intro range m' hm'
        exact ⟨hprepares.stages.trans hm'.1, hm'.2.1, hm'.2.2.trans hprepares.shape⟩
      · rintro fault m' ⟨hfault, hstate, hnext⟩
        refine ⟨hfault, ?_, hnext.trans hprepares.next⟩
        dsimp only
        rw [hstate]
        exact hprepares.undoes
  · exact fun _ _ hfail => hfail

/-- Staging an append keeps every row; a failure keeps the table. -/
theorem prepareAppend_spec {m : Machine} (h : m.state.Valid) (layers tokens growthTokens : Nat) :
    Ends (prepareAppend owned layers tokens growthTokens) m
      (fun range m' => Stages m m.state.position m' ∧ Pends m'.state tokens range ∧
        m'.state.shape = m.state.shape)
      (Unchanged m) := by
  have hfail : ∀ e, Unchanged m (.error e) m := fun e => ⟨by simp, rfl, rfl⟩
  simp only [prepareAppend, checkAppendEnd, ends_bind, ends_ensure, ends_get, ends_orErr,
    ends_orRestore]
  refine ⟨fun hne => ⟨fun stop hstop => ⟨fun hle => ?_, fun _ => hfail _⟩, fun _ => hfail _⟩,
    fun _ => hfail _⟩
  obtain ⟨-, rfl⟩ := checkedAdd_eq_some.mp hstop
  apply ends_captureAppendRollback
  · intro memory hnext
    apply (prepareAppendStaged_spec (m := ⟨m.state, memory⟩) h (Nat.pos_of_ne_zero hne) hle).mono
    · intro range p hp
      obtain ⟨hstages, hpends, hshape⟩ := hp
      have hsame : Stages m m.state.position ⟨m.state, memory⟩ := Stages.of_revision h rfl hnext
      exact ⟨hsame.trans hstages, hpends, hshape⟩
    · rintro fault p ⟨hfault, hundoes, hnext'⟩
      exact ⟨hfault, hundoes.restore, hnext'.trans hnext⟩
  · exact fun _ _ hfail => hfail

/-- Staging an append at a position keeps the rows below it; a failure keeps the table. -/
theorem prepareAppendAt_spec {m : Machine} (h : m.state.Valid)
    (layers position tokens growthTokens : Nat) :
    Ends (prepareAppendAt owned layers position tokens growthTokens) m
      (fun range m' => Stages m position m' ∧ Pends m'.state tokens range) (Unchanged m) := by
  simp only [prepareAppendAt, ends_bind, ends_orRestore, ends_onMachine]
  apply (stageAppendPosition_spec h position tokens).mono
  · rintro rollback m' ⟨hstages, hundoes, hnext⟩
    apply (prepareAppend_spec hstages.valid layers tokens growthTokens).mono
    · rintro range m'' ⟨hstages', hpends, -⟩
      exact ⟨hstages.trans hstages', hpends⟩
    · rintro fault m'' ⟨hfault, hstate, hnext'⟩
      refine ⟨hfault, ?_, hnext'.trans hnext⟩
      dsimp only
      rw [hstate]
      exact hundoes.restore
  · exact fun _ _ hfail => hfail

theorem stageShapeGrowth_spec {m : Machine} (h : m.state.Valid) (shape : AttentionShape) :
    Ends (stageShapeGrowth shape) m
      (fun _ m' => Stages m m.state.position m' ∧ m'.state.segments = m.state.segments ∧
        m'.memory = m.memory)
      (Unchanged m) := by
  have hfail : ∀ e, Unchanged m (.error e) m := fun e => ⟨by simp, rfl, rfl⟩
  simp only [stageShapeGrowth, ends_bind, ends_get, ends_ite, ends_pure]
  refine ⟨fun _ => ⟨Stages.of_revision h rfl rfl, trivial, trivial⟩, fun _ => ?_⟩
  simp only [ends_ensure, ends_orErr, ends_setState]
  refine ⟨fun hgrow => ⟨fun revision _ => ⟨?_, trivial, trivial⟩, fun _ => hfail _⟩, fun _ => hfail _⟩
  have hcontext : m.state.shape.maxContext ≤ shape.maxContext := by
    simp only [KvState.canGrowTo, Bool.and_eq_true, decide_eq_true_eq] at hgrow
    exact hgrow.2
  have hsame : Stages m m.state.position m := Stages.of_revision h rfl rfl
  refine ⟨⟨h.covers, ?_, h.filled, ?_⟩, hsame.slots, rfl, le_refl _, hsame.storages, rfl⟩
  · intro segment hmem
    exact ⟨(h.fits segment hmem).1, (h.fits segment hmem).2.trans hcontext⟩
  · intro range hrange
    exact (h.pending range hrange).of_same rfl rfl

theorem stageFirstAppend_spec {m : Machine} (h : m.state.Valid) (layers position : Nat)
    (firstAppend : Option (Nat × Nat)) :
    Ends (stageFirstAppend owned layers position firstAppend) m
      (fun _ m' => Stages m position m' ∧ ∀ tokens growthTokens,
        firstAppend = some (tokens, growthTokens) → ∃ range, Pends m'.state tokens range)
      (Unchanged m) := by
  cases firstAppend with
  | none =>
    apply (truncate_spec h position).mono
    · intro _ m' hm'
      exact ⟨hm'.1, by simp⟩
    · exact fun _ _ hfail => hfail
  | some append =>
    obtain ⟨tokens, growthTokens⟩ := append
    simp only [stageFirstAppend, ends_discard]
    apply (prepareAppendAt_spec h layers position tokens growthTokens).mono
    · intro range m' hm'
      refine ⟨hm'.1, ?_⟩
      intro tokens' growthTokens' heq
      cases heq
      exact ⟨range, hm'.2⟩
    · exact fun _ _ hfail => hfail

/-- Growing the context keeps the rows below the position; a failure keeps the table. -/
theorem prepareShapeTransition_spec {m : Machine} (h : m.state.Valid) (layers : Nat)
    (shape : AttentionShape) (position : Nat) (firstAppend : Option (Nat × Nat)) :
    Ends (prepareShapeTransition owned layers shape position firstAppend) m
      (fun _ m' => Stages m position m') (Unchanged m) := by
  simp only [prepareShapeTransition, ends_bind, ends_orRestore, ends_onMachine]
  apply ends_captureAppendRollback
  · intro memory hnext
    have hundoes := m.state.peels_record.undoes
    apply (stageShapeGrowth_spec (m := ⟨m.state, memory⟩) h shape).mono
    · rintro _ m' ⟨hstages, hsegments, hmemory⟩
      apply (stageFirstAppend_spec hstages.valid layers position firstAppend).mono
      · rintro _ m'' ⟨hstages', -⟩
        refine ⟨hstages'.valid, ?_, hstages'.position, ?_, ?_, hstages'.dtype.trans hstages.dtype⟩
        · rw [hstages'.slots, KvState.slots, KvState.slots, hsegments]
        · rw [← hnext]
          exact hstages.next.trans hstages'.next
        · have hstorages := hstages'.storages
          rw [hsegments, hmemory] at hstorages
          rw [← hnext]
          exact hstorages
      · rintro fault m'' ⟨hfault, hstate, hnext'⟩
        refine ⟨hfault, ?_, ?_⟩
        · dsimp only
          rw [hstate]
          exact (hundoes.extend (by rw [hsegments]) hstages.dtype).restore
        · dsimp only
          rw [hnext', hmemory, hnext]
    · rintro fault m' ⟨hfault, hstate, hnext'⟩
      refine ⟨hfault, ?_, hnext'.trans hnext⟩
      dsimp only
      rw [hstate]
      exact hundoes.restore
  · exact fun _ _ hfail => hfail

end Append

/-! ## Ending an append -/

/-- The physical rows of a staged range. -/
def KvState.rangeSlots (s : KvState) (range : KvAppendRange) : List Slot :=
  match s.segments[range.segmentIndex]? with
  | none => []
  | some segment => (List.range range.tokens).map fun row =>
      (segment.storage.id, range.start - segment.logicalStart + row)

theorem commitTarget_eq_ok {s : KvState} {range : KvAppendRange} {segment : KvSegment}
    {committed : Nat} (h : s.commitTarget range = .ok (segment, committed)) :
    s.pending = some range ∧ s.segments[range.segmentIndex]? = some segment ∧
      segment.logicalStart + segment.committedTokens = range.start ∧
      committed = segment.committedTokens + range.tokens ∧
      committed ≤ segment.storage.capacityTokens := by
  unfold KvState.commitTarget at h
  split at h
  · cases h
  · rename_i hpending
    rw [not_not] at hpending
    split at h
    · cases h
    · rename_i target htarget
      obtain ⟨localStart, hstart, h⟩ := bind_eq_ok.mp h
      rw [sized_eq_ok, checkedSub_eq_some] at hstart
      split at h
      · cases h
      · rename_i hcommitted
        obtain ⟨stop, hstop, h⟩ := bind_eq_ok.mp h
        rw [sized_eq_ok, checkedAdd_eq_some] at hstop
        split at h
        · cases h
        · cases h
          exact ⟨hpending, htarget, by omega, by omega, by omega⟩

/-- A successful commit. -/
structure Commits (m : Machine) (range : KvAppendRange) (m' : Machine) : Prop where
  pending : m.state.pending = some range
  valid : m'.state.Valid
  slots : m'.state.slots = m.state.slots ++ m.state.rangeSlots range
  position : m'.state.position = m.state.position + range.tokens
  memory : m'.memory = m.memory
  layout : SameLayout m.state m'.state

/-- `commit_append` appends exactly the rows of the pending range. -/
theorem commitAppend_spec {m : Machine} (h : m.state.Valid) (range : KvAppendRange) :
    Ends (commitAppend range) m (fun _ m' => Commits m range m') (Unchanged m) := by
  simp only [commitAppend, ends_bind, ends_get, ends_ofExcept, ends_setState, ends_orErr]
  refine ⟨?_, fun e _ => ⟨by simp, rfl, rfl⟩⟩
  rintro ⟨segment, committed⟩ htarget
  obtain ⟨hpending, hsegment, hstart, rfl, hcapacity⟩ := commitTarget_eq_ok htarget
  have hrange := h.pending range hpending
  obtain ⟨front, last, heq, hindex, hfit⟩ := hrange.target
  obtain rfl : segment = last := by
    rw [heq, hindex, List.getElem?_concat_length] at hsegment
    exact (Option.some.inj hsegment).symm
  have hmem : segment ∈ m.state.segments := by
    rw [heq]
    simp
  have hset : m.state.segments.set range.segmentIndex
      { segment with committedTokens := segment.committedTokens + range.tokens } =
        front ++ [{ segment with committedTokens := segment.committedTokens + range.tokens }] := by
    rw [heq, hindex, List.set_append_right _ _ (le_refl _), Nat.sub_self, List.set_cons_zero]
  have hcovers := h.covers
  rw [heq, covers_concat] at hcovers
  have hend := hrange.start
  constructor
  · intro position hposition
    obtain ⟨-, rfl⟩ := checkedAdd_eq_some.mp hposition
    have hpacked : KvState.Packed { m.state with
        segments := m.state.segments.set range.segmentIndex
          { segment with committedTokens := segment.committedTokens + range.tokens }
        pending := none } (range.start + range.tokens) := by
      refine ⟨?_, ?_, ?_, rfl⟩
      · dsimp only
        rw [hset, covers_concat]
        exact ⟨hcovers.1, by dsimp only; omega⟩
      · dsimp only
        rw [hset]
        intro other hother
        rcases List.mem_append.mp hother with hother | hother
        · exact h.fits other (by rw [heq]; exact List.mem_append_left _ hother)
        · rw [List.mem_singleton.mp hother]
          exact ⟨hcapacity, (h.fits segment hmem).2⟩
      · dsimp only
        rw [hset]
        intro other hother
        rcases List.mem_append.mp hother with hother | hother
        · exact h.front_filled heq other hother
        · rw [List.mem_singleton.mp hother]
          exact Nat.lt_of_lt_of_le hrange.tokens_pos (Nat.le_add_left _ _)
    refine ⟨hpending, hpacked.valid m.state.revision, ?_, by dsimp only; omega, rfl, rfl, rfl, ?_⟩
    · have hlocal : range.start - segment.logicalStart = segment.committedTokens := by omega
      rw [KvState.slots, KvState.slots, KvState.rangeSlots, hsegment]
      dsimp only
      rw [hset, heq, slotsOf_append, slotsOf_append, slotsOf_singleton, slotsOf_singleton,
        List.append_assoc, hlocal]
      simp only [KvSegment.slots, List.range_add, List.map_append, List.map_map]
      rfl
    · dsimp only
      rw [hset, heq]
      intro other hother
      rcases List.mem_append.mp hother with hother | hother
      · exact List.mem_map_of_mem (List.mem_append_left _ hother)
      · rw [List.mem_singleton.mp hother]
        exact List.mem_map.mpr ⟨segment, by simp, rfl⟩
  · intro hover
    -- the end of the range lies in the context, so the position cannot overflow
    have := checkedAdd_eq_none.mp hover
    have := (h.fits segment hmem).2
    have := m.state.shape.maxContext_lt
    omega

/-- `discard_pending` keeps every committed row. -/
theorem discardPending_spec {m : Machine} (h : m.state.Valid) :
    Ends discardPending m (fun _ m' => Stages m m.state.position m' ∧ m'.state.pending = none)
      (Unchanged m) := by
  simp only [discardPending, ends_bind, ends_get, ends_ite, ends_pure]
  refine ⟨fun hnone => ⟨Stages.of_revision h rfl rfl, hnone⟩, fun _ => ?_⟩
  simp only [ends_orErr, ends_setState]
  refine ⟨fun revision _ => ⟨?_, trivial⟩, fun _ => ⟨by simp, rfl, rfl⟩⟩
  have hend := h.covers.filter.endOf
  let s' : KvState := { m.state with segments := m.state.committedSegments, pending := none }
  have hpacked : s'.Packed m.state.position := h.packedFilter rfl rfl rfl
  have hcut : CutTo m.state m.state.position s' := by
    refine ⟨hpacked, ?_, rfl, rfl, ?_⟩
    · rw [List.take_of_length_le h.length_slots.le]
      exact slotsOf_filter _
    · intro segment hmem
      exact List.mem_map_of_mem (List.mem_of_mem_filter hmem)
  refine Stages.of_cut hcut revision ?_ rfl
  dsimp only [s']
  rw [KvState.committedSegments, hend]

end Leone.Kv

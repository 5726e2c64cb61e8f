import Leone.Kv.Copy

/-!
# Reachable KV tables

The calls that change a table, and the tables that they can reach: whatever storage other
holders share, and wherever memory runs out. Every reachable table is well formed, and a call
that fails leaves it as it was.
-/

namespace Leone.Kv

open Framework Framework.Method

/-- A call that changes a table. -/
inductive Call
  | prepareAppend (layers tokens growthTokens : Nat)
  | prepareAppendAt (layers position tokens growthTokens : Nat)
  | prepareShapeTransition (layers : Nat) (shape : AttentionShape) (position : Nat)
      (firstAppend : Option (Nat × Nat))
  | commitAppend (range : KvAppendRange)
  | discardPending
  | truncate (position : Nat)

/-- Run a call. -/
def Call.run (owned : Nat → Bool) : Call → KvM Unit
  | .prepareAppend layers tokens growthTokens =>
    discard <| Kv.prepareAppend owned layers tokens growthTokens
  | .prepareAppendAt layers position tokens growthTokens =>
    discard <| Kv.prepareAppendAt owned layers position tokens growthTokens
  | .prepareShapeTransition layers shape position firstAppend =>
    Kv.prepareShapeTransition owned layers shape position firstAppend
  | .commitAppend range => Kv.commitAppend range
  | .discardPending => Kv.discardPending
  | .truncate position => Kv.truncate position

/-- The rows that a successful call leaves: those that it keeps and those that it commits. -/
def Call.slots (s : KvState) : Call → List Slot
  | .prepareAppend .. => s.slots
  | .prepareAppendAt _ position .. => s.slots.take position
  | .prepareShapeTransition _ _ position _ => s.slots.take position
  | .commitAppend range => s.slots ++ s.rangeSlots range
  | .discardPending => s.slots
  | .truncate position => s.slots.take position

/-- A table after a successful call. -/
structure Call.Succeeds (c : Call) (m m' : Machine) : Prop where
  valid : m'.state.Valid
  slots : m'.state.slots = c.slots m.state
  next : m.memory.nextStorage ≤ m'.memory.nextStorage
  storages : ∀ segment ∈ m'.state.segments, segment.storage ∈ m.state.segments.map KvSegment.storage ∨
    m.memory.nextStorage ≤ segment.storage.id ∧ segment.storage.id < m'.memory.nextStorage
  pending : ∀ range, c = .commitAppend range → m.state.pending = some range

theorem Stages.succeeds {c : Call} {m m' : Machine} {position : Nat} (h : Stages m position m')
    (hslots : m.state.slots.take position = c.slots m.state)
    (hkeep : ∀ range, c ≠ .commitAppend range) : c.Succeeds m m' :=
  ⟨h.valid, h.slots.trans hslots, h.next, h.storages, fun range heq => absurd heq (hkeep range)⟩

/-- Each call keeps the invariant, and changes nothing when it fails. -/
theorem Call.run_spec {owned : Nat → Bool} {m : Machine} (h : m.state.Valid) (c : Call) :
    Ends (c.run owned) m (fun _ m' => c.Succeeds m m') (Unchanged m) := by
  have hall : m.state.slots.take m.state.position = m.state.slots :=
    List.take_of_length_le h.length_slots.le
  cases c with
  | prepareAppend layers tokens growthTokens =>
    simp only [Call.run, ends_discard]
    apply (prepareAppend_spec h layers tokens growthTokens).mono
    · intro _ m' hm'
      exact hm'.1.succeeds hall (by simp)
    · exact fun _ _ hfail => hfail
  | prepareAppendAt layers position tokens growthTokens =>
    simp only [Call.run, ends_discard]
    apply (prepareAppendAt_spec h layers position tokens growthTokens).mono
    · intro _ m' hm'
      exact hm'.1.succeeds rfl (by simp)
    · exact fun _ _ hfail => hfail
  | prepareShapeTransition layers shape position firstAppend =>
    apply (prepareShapeTransition_spec h layers shape position firstAppend).mono
    · intro _ m' hm'
      exact hm'.succeeds rfl (by simp)
    · exact fun _ _ hfail => hfail
  | commitAppend range =>
    apply (commitAppend_spec h range).mono
    · intro _ m' hm'
      refine ⟨hm'.valid, hm'.slots, by rw [hm'.memory], ?_, ?_⟩
      · intro segment hmem
        exact .inl (hm'.layout.storages segment hmem)
      · intro range' heq
        cases heq
        exact hm'.pending
    · exact fun _ _ hfail => hfail
  | discardPending =>
    apply (discardPending_spec h).mono
    · intro _ m' hm'
      exact hm'.1.succeeds hall (by simp)
    · exact fun _ _ hfail => hfail
  | truncate position =>
    apply (truncate_spec h position).mono
    · intro _ m' hm'
      exact hm'.1.succeeds rfl (by simp)
    · exact fun _ _ hfail => hfail

/-- A well-formed table stays one, whether the call succeeds or fails. -/
theorem Call.after_valid {owned : Nat → Bool} {m : Machine} (h : m.state.Valid) (c : Call) :
    (after (c.run owned) m).state.Valid := by
  have hends : Ends (c.run owned) m (fun _ m' => m'.state.Valid) (fun _ m' => m'.state.Valid) := by
    apply (c.run_spec h).mono
    · intro _ m' hm'
      exact hm'.valid
    · intro _ m' hm'
      rw [hm'.2.1]
      exact h
  exact Ends.after (P := fun m' : Machine => m'.state.Valid) hends

/-- The tables that calls, forks and restored snapshots lead to. -/
inductive Reachable : KvState → Prop
  | new {shape : AttentionShape} {dtype : KvCacheDtype} {memory memory' : Memory} {s : KvState}
      (h : (KvState.new shape dtype).run memory = .ok s memory') : Reachable s
  | call {s : KvState} (h : Reachable s) (c : Call) (owned : Nat → Bool) (memory : Memory) :
      Reachable (after (c.run owned) ⟨s, memory⟩).state
  | fork {s s' : KvState} {memory memory' : Memory} (h : Reachable s)
      (hfork : s.fork.run memory = .ok s' memory') : Reachable s'
  | restore {κ : Type} {s s' : KvState} {contents : Nat → κ} {snapshot : KvSnapshot κ}
      {restored : List (KvSegment × κ)} {m₁ m₂ m₃ m₄ : Memory} (h : Reachable s)
      (hsnapshot : (s.snapshot contents).run m₁ = .ok snapshot m₂)
      (hrestore : snapshot.restore.run m₃ = .ok (s', restored) m₄) : Reachable s'

/-- A packed table whose position is its end is well formed. -/
theorem KvState.Packed.valid_of_position {s : KvState} {position : Nat} (h : s.Packed position)
    (hposition : s.position = position) : s.Valid := by
  subst hposition
  exact h.valid s.revision

theorem Reachable.valid {s : KvState} (h : Reachable s) : s.Valid := by
  induction h with
  | @new shape dtype memory memory' s h =>
    have hend : Ends (KvState.new shape dtype) memory (fun s' _ => s' = KvState.empty shape dtype)
        fun _ _ => True := by
      simp only [KvState.new, ends_bind, ends_pure]
      exact ends_deviceCall (fun _ _ => trivial) (fun _ _ _ => trivial)
    rw [hend.of_ok h]
    exact (KvState.empty_packed shape dtype).valid 0
  | call _ c owned memory ih => exact c.after_valid ih
  | fork _ hfork ih =>
    obtain ⟨hshares, -⟩ := (fork_spec ih _).of_ok hfork
    exact hshares.packed.valid_of_position hshares.position
  | restore _ hsnapshot hrestore ih =>
    obtain ⟨hcopies, -⟩ := (snapshot_spec _ _ _).of_ok hsnapshot
    obtain ⟨heq, hrestores⟩ := (restore_spec _ _).of_ok hrestore
    dsimp only at heq hrestores
    rw [hcopies.segments, copied_filter] at hrestores
    rw [heq]
    exact (restored_packed ih hrestores rfl hcopies.shape rfl).valid_of_position hcopies.position

/-- In every reachable table the segments and the pending range are well formed, and the read
spans of a layer make a view in which each address below the position lies in one span. Reading
fails only where host memory or the layer is missing. -/
theorem reachable_invariant {s : KvState} (h : Reachable s) : s.Valid ∧
    ∀ layer memory, Ends (s.readSpans layer) memory
      (fun spans _ => ∃ view, KvReadView.new spans = .ok view ∧ view.Reads s.position)
      (fun fault _ => (∃ message, fault = .error (.operation "allocate KV read spans" message)) ∨
        fault = .error (.operation "read KV spans" "layer is missing") ∧
          ∃ segment ∈ s.segments, segment.storage.layers ≤ layer) :=
  ⟨h.valid, fun layer memory => readSpans_spec h.valid layer memory⟩

/-- A context of eight tokens for one head of 32 values. -/
def smallShape : AttentionShape := ⟨1, 1, 32, 8, Nat.one_pos, by decide, by decide, by decide⟩

/-- A new table with an append of two tokens staged in a segment of two rows. -/
def stagedTable : KvState :=
  (after ((Call.prepareAppend 1 2 2).run fun _ => true) ⟨KvState.empty smallShape .f16, ⟨[], [], 0⟩⟩).state

theorem stagedTable_reachable : Reachable stagedTable :=
  (@Reachable.new smallShape .f16 ⟨[], [], 0⟩ _ _ rfl).call (.prepareAppend 1 2 2) (fun _ => true) ⟨[], [], 0⟩

theorem reachable_invariant_staged : stagedTable.Valid ∧
    Ends (stagedTable.readSpans 0) ⟨[], [], 1⟩
      (fun spans _ => ∃ view, KvReadView.new spans = .ok view ∧ view.Reads 0)
      (fun fault _ => (∃ message, fault = .error (.operation "allocate KV read spans" message)) ∨
        fault = .error (.operation "read KV spans" "layer is missing") ∧
          ∃ segment ∈ stagedTable.segments, segment.storage.layers ≤ 0) :=
  ⟨(reachable_invariant stagedTable_reachable).1,
    (reachable_invariant stagedTable_reachable).2 0 ⟨[], [], 1⟩⟩

/-- A call that fails on a reachable table leaves every part of it as it was. -/
theorem failed_call_restores {s : KvState} (h : Reachable s) (c : Call) (owned : Nat → Bool)
    (memory : Memory) {fault : Fault BackendError} {m' : Machine}
    (hrun : (c.run owned).run ⟨s, memory⟩ = .error fault m') : m'.state = s :=
  ((c.run_spec (m := ⟨s, memory⟩) h.valid).of_error hrun).2.1

/-- A larger append gives up the staged segment, cannot allocate another, and brings it back. -/
theorem failed_call_restores_staged : ∃ fault m',
    ((Call.prepareAppend 1 3 4).run fun _ => true).run
      ⟨stagedTable, ⟨[], [none, some (.memory "exhausted")], 1⟩⟩ = .error fault m' ∧
    m'.state = stagedTable :=
  ⟨_, _, rfl, failed_call_restores stagedTable_reachable (.prepareAppend 1 3 4) (fun _ => true)
    ⟨[], [none, some (.memory "exhausted")], 1⟩ rfl⟩

end Leone.Kv

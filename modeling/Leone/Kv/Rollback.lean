import Leone.Kv.State

/-!
# Undoing a staged change

A staged change only takes segments off the end of the table, puts new ones there, and changes
the committed counts of the ones that stay. Its record holds what it took off and the counts
from before, so the table from before can be put together again.
-/

namespace Leone.Kv

open Framework Framework.Method

/-- The record of a table before a change that took `removed` off its end. -/
def KvState.record (s : KvState) (removed : List KvSegment) : KvAppendRollback :=
  ⟨s.position, s.shape, s.revision, s.graphRevision, s.pending, s.segments.length,
    s.segments.map KvSegment.committedTokens, removed⟩

/-- The segment's address and storage, which a staged change leaves alone. -/
def KvSegment.place (segment : KvSegment) : Nat × KvStorage := (segment.logicalStart, segment.storage)

theorem recommit_place {segments before : List KvSegment} {more : List Nat}
    (h : segments.map KvSegment.place = before.map KvSegment.place) :
    recommit segments (before.map KvSegment.committedTokens ++ more) = before := by
  induction before generalizing segments with
  | nil =>
    rw [List.map_nil, List.map_eq_nil_iff] at h
    rw [h]
    rfl
  | cons b before ih =>
    cases segments with
    | nil => cases h
    | cons segment segments =>
      simp only [List.map_cons, List.cons.injEq, KvSegment.place, Prod.mk.injEq] at h
      simp only [List.map_cons, List.cons_append, recommit, ih h.2]
      obtain ⟨⟨hstart, hstorage⟩, -⟩ := h
      rw [hstart, hstorage]

/-- The change turned `s` into the staged table, and its record leads back to `s`. -/
def Staged.Undoes (t : Staged) (s : KvState) : Prop :=
  ∃ kept removed, s.segments = kept ++ removed.reverse ∧ t.rollback = s.record removed ∧
    (t.state.segments.take kept.length).map KvSegment.place = kept.map KvSegment.place ∧
    t.state.dtype = s.dtype

/-- The change so far only took segments off the end. -/
def Staged.Peels (t : Staged) (s : KvState) : Prop :=
  ∃ removed, s.segments = t.state.segments ++ removed.reverse ∧ t.rollback = s.record removed ∧
    t.state.dtype = s.dtype

theorem Staged.Undoes.restore {t : Staged} {s : KvState} (h : t.Undoes s) :
    t.state.restoreAppendPosition t.rollback = s := by
  obtain ⟨kept, removed, hs, hrollback, hplace, hdtype⟩ := h
  have hsurvivors : s.segments.length - removed.length = kept.length := by
    rw [hs, List.length_append, List.length_reverse]
    omega
  have hcommitted : s.segments.map KvSegment.committedTokens =
      kept.map KvSegment.committedTokens ++ removed.reverse.map KvSegment.committedTokens := by
    rw [hs, List.map_append]
  rw [hrollback, KvState.restoreAppendPosition, KvState.record]
  dsimp only
  rw [hsurvivors, hcommitted, recommit_place hplace, ← hs, hdtype]

theorem Staged.Peels.undoes {t : Staged} {s : KvState} (h : t.Peels s) : t.Undoes s := by
  obtain ⟨removed, hs, hrollback, hdtype⟩ := h
  refine ⟨t.state.segments, removed, hs, hrollback, ?_, hdtype⟩
  rw [List.take_length]

theorem KvState.peels_record (s : KvState) : Staged.Peels ⟨s, s.record []⟩ s :=
  ⟨[], by simp, rfl, rfl⟩

theorem Staged.Peels.pop {t : Staged} {s : KvState} {segment : KvSegment} (h : t.Peels s)
    (hlast : t.state.segments.getLast? = some segment) : (t.pop segment).Peels s := by
  obtain ⟨removed, hs, hrollback, hdtype⟩ := h
  refine ⟨removed ++ [segment], ?_, ?_, hdtype⟩
  · rw [hs, Staged.pop, List.reverse_append, ← List.append_assoc, List.reverse_singleton,
      List.dropLast_append_getLast? segment hlast]
  · rw [Staged.pop, hrollback]
    rfl

theorem Staged.Peels.detachPending {t : Staged} {s : KvState} (h : t.Peels s) :
    t.detachPending.2.Peels s := by
  unfold Staged.detachPending
  split
  · exact h
  · dsimp only
    have hdetached : Staged.Peels { t with state.pending := none } s := h
    split
    · exact hdetached
    · split
      · exact hdetached.pop (by assumption)
      · exact hdetached

/-- What a loop that takes segments off the end keeps. -/
theorem Staged.removeSegmentsAtOrAfter_induct {P : Staged → Prop} {position : Nat}
    (hpop : ∀ t segment, t.state.segments.getLast? = some segment →
      position ≤ segment.logicalStart → P t → P (t.pop segment)) (t : Staged) (ht : P t) :
    P (t.removeSegmentsAtOrAfter position).2 := by
  induction t using Staged.removeSegmentsAtOrAfter.induct position with
  | case1 t hlast =>
    rw [Staged.removeSegmentsAtOrAfter]
    split
    · exact ht
    · simp_all
  | case2 t segment hlast hle ih =>
    rw [Staged.removeSegmentsAtOrAfter]
    split
    · simp_all
    · rename_i last hsome
      obtain rfl : segment = last := Option.some.inj (hlast.symm.trans hsome)
      rw [if_pos hle]
      exact ih (hpop t segment hlast hle ht)
  | case3 t segment hlast hlt =>
    rw [Staged.removeSegmentsAtOrAfter]
    split
    · exact ht
    · rename_i last hsome
      obtain rfl : segment = last := Option.some.inj (hlast.symm.trans hsome)
      rw [if_neg hlt]
      exact ht

/-- The loop stops before a segment that starts below the position. -/
theorem Staged.removeSegmentsAtOrAfter_last {position : Nat} (t : Staged) (segment : KvSegment)
    (hlast : (t.removeSegmentsAtOrAfter position).2.state.segments.getLast? = some segment) :
    segment.logicalStart < position := by
  induction t using Staged.removeSegmentsAtOrAfter.induct position with
  | case1 t hnone =>
    rw [Staged.removeSegmentsAtOrAfter] at hlast
    split at hlast <;> simp_all
  | case2 t last hsome hle ih =>
    rw [Staged.removeSegmentsAtOrAfter] at hlast
    split at hlast
    · simp_all
    · rename_i last' hsome'
      obtain rfl : last = last' := Option.some.inj (hsome.symm.trans hsome')
      rw [if_pos hle] at hlast
      exact ih hlast
  | case3 t last hsome hlt =>
    rw [Staged.removeSegmentsAtOrAfter] at hlast
    split at hlast
    · simp_all
    · rename_i last' hsome'
      obtain rfl : last = last' := Option.some.inj (hsome.symm.trans hsome')
      rw [if_neg hlt, hsome, Option.some.injEq] at hlast
      rw [← hlast]
      exact Nat.lt_of_not_le hlt

theorem Staged.Peels.removeSegmentsAtOrAfter {t : Staged} {s : KvState} (position : Nat)
    (h : t.Peels s) : (t.removeSegmentsAtOrAfter position).2.Peels s := by
  apply Staged.removeSegmentsAtOrAfter_induct (P := fun t => t.Peels s) _ t h
  intro t segment hlast _ ht
  exact ht.pop hlast

theorem Staged.Peels.shortenTail {t : Staged} {s : KvState} (position : Nat) (h : t.Peels s) :
    Staged.Undoes { t with state := (t.state.shortenTail position).2 } s := by
  unfold KvState.shortenTail
  split
  · exact h.undoes
  · rename_i segment hlast
    dsimp only
    split
    · obtain ⟨removed, hs, hrollback, hdtype⟩ := h
      refine ⟨t.state.segments, removed, hs, hrollback, ?_, hdtype⟩
      have hsegments := List.dropLast_append_getLast? segment hlast
      rw [List.take_of_length_le]
      · conv_rhs => rw [← hsegments]
        simp [KvSegment.place]
      · rw [← hsegments]
        simp
    · exact h.undoes

theorem Staged.Peels.cut {t : Staged} {s : KvState} (position : Nat) (h : t.Peels s) :
    (t.cut position).2.Undoes s := by
  unfold Staged.cut
  exact (h.detachPending.removeSegmentsAtOrAfter position).shortenTail position

/-- What happens to the other fields of the table, or to segments past the end, is undone too. -/
theorem Staged.Undoes.extend {t : Staged} {s s' : KvState} (h : t.Undoes s)
    (hsegments : t.state.segments <+: s'.segments) (hdtype : s'.dtype = t.state.dtype) :
    Staged.Undoes ⟨s', t.rollback⟩ s := by
  obtain ⟨kept, removed, hs, hrollback, hplace, hdtype'⟩ := h
  obtain ⟨more, hmore⟩ := hsegments
  have hlen : kept.length ≤ t.state.segments.length := by
    have := congrArg List.length hplace
    simp only [List.length_map, List.length_take] at this
    omega
  refine ⟨kept, removed, hs, hrollback, ?_, hdtype.trans hdtype'⟩
  rw [← hmore, List.take_append_of_le_length hlen, hplace]

end Leone.Kv

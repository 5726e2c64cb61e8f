import Mathlib
import Leone.Chat.Matching

/-!
# Texts in chunks

The decoder writes the same text however its bytes are cut. The matcher stops at the first chunk
that completes a match, which is the first match of the whole text unless a later chunk completes
one that begins earlier.
-/

namespace Leone.Chat

open Framework Utf8

/-! ## The decoder -/

/-- The pieces that the chunks are written in, and the stream after them. -/
def Utf8Stream.pushAll (s : Utf8Stream) : List (List UInt8) → List (List UInt8) × Utf8Stream
  | [] => ([], s)
  | chunk :: chunks =>
    ((s.push chunk).1 ++ ((s.push chunk).2.pushAll chunks).1, ((s.push chunk).2.pushAll chunks).2)

/-- At most so many turns of the loop of `take`, none if it goes on after them. -/
def takeWithin (finalChunk : Bool) : Nat → List UInt8 → Option (List (List UInt8) × List UInt8)
  | 0, _ => none
  | turns + 1, pending =>
    match takeUtf8Piece pending finalChunk with
    | (true, rest, pieces) =>
      (takeWithin finalChunk turns rest).map fun last => (pieces ++ last.1, last.2)
    | (false, rest, pieces) => some (pieces, rest)

/-- The loop ends after at most one turn for each byte and one more. -/
theorem takeWithin_eq {turns : Nat} {pending : List UInt8} (finalChunk : Bool)
    (h : pending.length < turns) :
    takeWithin finalChunk turns pending = some (takeUtf8 pending finalChunk) := by
  induction turns generalizing pending with
  | zero => exact absurd h (Nat.not_lt_zero _)
  | succ turns ih =>
    rw [takeWithin, takeUtf8]
    split
    · next rest pieces hpiece =>
      have hlt := takeUtf8Piece_lt hpiece
      rw [ih (by omega)]
      split
      · next heq =>
        rw [hpiece] at heq
        cases heq
        rfl
      · next heq =>
        rw [hpiece] at heq
        cases heq
    · next rest pieces hpiece =>
      split
      · next heq =>
        rw [hpiece] at heq
        cases heq
      · next heq =>
        rw [hpiece] at heq
        cases heq
        rfl

theorem push_drain (s : Utf8Stream) (bytes : List UInt8) :
    ((s.push bytes).1.flatten, (s.push bytes).2.pending) = drain (s.pending ++ bytes) :=
  takeUtf8_drain _

/-- The stream after some chunks has written what `drain` writes and holds back what it does. -/
theorem pushAll_drain (chunks : List (List UInt8)) {s : Utf8Stream} {written bytes : List UInt8}
    (h : (written, s.pending) = drain bytes) :
    (written ++ (s.pushAll chunks).1.flatten, (s.pushAll chunks).2.pending) =
      drain (bytes ++ chunks.flatten) := by
  induction chunks generalizing s written bytes with
  | nil => simpa [Utf8Stream.pushAll] using h
  | cons chunk chunks ih =>
    have hnext : (written ++ (s.push chunk).1.flatten, (s.push chunk).2.pending) =
        drain (bytes ++ chunk) := by
      rw [drain_append, ← h]
      have hpush := push_drain s chunk
      rw [← hpush]
    have hrest := ih hnext
    rw [Utf8Stream.pushAll, List.flatten_append, List.flatten_cons, ← List.append_assoc,
      ← List.append_assoc]
    exact hrest

theorem readTail_incomplete_lt {ranges : List (UInt8 × UInt8)} {bytes : List UInt8} {more : Nat}
    (h : readTail ranges bytes more = .incomplete) : bytes.length < ranges.length := by
  induction ranges generalizing bytes more with
  | nil => cases h
  | cons range ranges ih =>
    cases bytes with
    | nil => exact Nat.succ_pos _
    | cons byte bytes =>
      rw [readTail] at h
      split at h
      · exact Nat.succ_lt_succ (ih h)
      · cases h

theorem tailRanges_length {first : UInt8} {ranges : List (UInt8 × UInt8)}
    (h : tailRanges first = some ranges) : ranges.length ≤ 3 := by
  unfold tailRanges at h
  repeat' split at h
  all_goals cases h
  all_goals decide

/-- No more than three bytes are ever held back. -/
theorem drain_pending_le (bytes : List UInt8) : (drain bytes).2.length ≤ 3 := by
  rcases drain_rest bytes with hnil | ⟨first, rest, heq, hchunk⟩
  · rw [hnil]
    exact Nat.zero_le _
  · rw [heq]
    unfold firstChunk at hchunk
    cases htail : tailRanges first with
    | none => simp [htail] at hchunk
    | some ranges =>
      rw [htail] at hchunk
      have hlt := readTail_incomplete_lt hchunk
      have hle := tailRanges_length htail
      rw [List.length_cons]
      omega

/-- The rest of a character is all that makes it one. -/
theorem readTail_take {ranges : List (UInt8 × UInt8)} {bytes : List UInt8} {more last : Nat}
    (h : readTail ranges bytes more = .valid last) :
    readTail ranges (bytes.take (last - more)) more = .valid last := by
  induction ranges generalizing bytes more with
  | nil => exact h
  | cons range ranges ih =>
    cases bytes with
    | nil => cases h
    | cons byte bytes =>
      rw [readTail] at h
      split at h
      · next hrange =>
        have hle := (readTail_le (.inl h)).1
        rw [show last - more = (last - (more + 1)) + 1 by omega, List.take_succ_cons, readTail,
          if_pos hrange]
        exact ih h
      · cases h

theorem firstChunk_take {first : UInt8} {bytes : List UInt8} {more : Nat}
    (h : firstChunk first bytes = .valid more) :
    firstChunk first (bytes.take more) = .valid more := by
  unfold firstChunk at h ⊢
  cases htail : tailRanges first with
  | none => simp [htail] at h
  | some ranges =>
    rw [htail] at h
    exact readTail_take h

/-- The bytes before an error are a text. -/
theorem fromUtf8_take_validUpTo {bytes : List UInt8} {e : Error} (h : fromUtf8 bytes = .error e) :
    fromUtf8 (bytes.take e.validUpTo) = .ok () := by
  fun_induction fromUtf8 bytes generalizing e with
  | case1 => cases h
  | case2 first bytes more hchunk ih =>
    cases hrest : fromUtf8 (bytes.drop more) with
    | ok => simp [hrest, Except.mapError] at h
    | error e' =>
      rw [hrest] at h
      cases h
      have hle := firstChunk_le (.inl hchunk)
      have htake : bytes.take (e'.validUpTo + more) =
          bytes.take more ++ (bytes.drop more).take e'.validUpTo := by
        rw [Nat.add_comm, List.take_add]
      have hlen : (bytes.take more).length = more := List.length_take_of_le hle
      have hhead := firstChunk_take hchunk
      show fromUtf8 (first :: bytes.take (e'.validUpTo + more)) = .ok ()
      rw [htake, fromUtf8, firstChunk_append (by simp [hhead]), hhead]
      dsimp only
      rw [List.drop_append_of_le_length hlen.ge, List.drop_of_length_le hlen.le, List.nil_append,
        ih hrest]
      rfl
  | case3 first bytes more hchunk =>
    cases h
    rw [List.take_zero, fromUtf8]
  | case4 first bytes hchunk =>
    cases h
    rw [List.take_zero, fromUtf8]

/-- What a step of the decoder writes is a text. -/
theorem takeUtf8Piece_valid {pending rest : List UInt8} {finalChunk goesOn : Bool}
    {pieces : List (List UInt8)} (h : takeUtf8Piece pending finalChunk = (goesOn, rest, pieces)) :
    ∀ piece ∈ pieces, fromUtf8 piece = .ok () := by
  have hreplacement : fromUtf8 replacement = .ok () := by decide +kernel
  unfold takeUtf8Piece at h
  split at h
  · next hok =>
    split at h
    · cases h
      simp
    · cases h
      simpa using hok
  · next e herror =>
    split at h
    · cases h
      simpa using fromUtf8_take_validUpTo herror
    · next hzero =>
      split at h
      · cases h
        simpa using hreplacement
      · next hnone =>
        split at h
        · cases h
          -- an unfinished character is one replacement
          have hlossy : fromUtf8Lossy pending = replacement := by
            have hdrain := (drain_of_first herror (by omega)).2 hnone
            have hrest := drain_rest pending
            rw [hdrain] at hrest
            rcases hrest with hnil | ⟨first, rest, heq, hchunk⟩
            · exact absurd hnil (fromUtf8_error herror).1
            · rw [show pending = first :: rest from heq, fromUtf8Lossy, hchunk]
          simpa [hlossy] using hreplacement
        · cases h
          simp

theorem takeUtf8_valid (pending : List UInt8) (finalChunk : Bool) :
    ∀ piece ∈ (takeUtf8 pending finalChunk).1, fromUtf8 piece = .ok () := by
  fun_induction takeUtf8 pending finalChunk with
  | case1 pending rest pieces hpiece ih =>
    intro piece hmem
    rcases List.mem_append.mp hmem with hhere | hlater
    · exact takeUtf8Piece_valid hpiece piece hhere
    · exact ih piece hlater
  | case2 pending rest pieces hpiece => exact takeUtf8Piece_valid hpiece

theorem pushAll_valid (s : Utf8Stream) (chunks : List (List UInt8)) :
    ∀ piece ∈ (s.pushAll chunks).1, fromUtf8 piece = .ok () := by
  induction chunks generalizing s with
  | nil => simp [Utf8Stream.pushAll]
  | cons chunk chunks ih =>
    intro piece hmem
    rcases List.mem_append.mp hmem with hhere | hlater
    · exact takeUtf8_valid _ _ piece hhere
    · exact ih _ piece hlater

/-- However a text is cut, its pieces are texts and together its lossy decoding, at most three
bytes wait for the next chunk, and every loop of `take` ends. -/
theorem decodes_chunks (chunks : List (List UInt8)) :
    let after := (Utf8Stream.mk []).pushAll chunks
    (after.1 ++ after.2.finish.1).flatten = fromUtf8Lossy chunks.flatten ∧
      (∀ piece ∈ after.1 ++ after.2.finish.1, fromUtf8 piece = .ok ()) ∧
      (∀ before, before <+: chunks → ((Utf8Stream.mk []).pushAll before).2.pending.length ≤ 3) ∧
      ∀ pending finalChunk,
        takeWithin finalChunk (pending.length + 1) pending = some (takeUtf8 pending finalChunk) := by
  intro after
  have hstart : (([] : List UInt8), (Utf8Stream.mk []).pending) = drain [] := by rw [drain]
  have hdrain : ∀ before : List (List UInt8), _ := fun before => pushAll_drain before hstart
  simp only [List.nil_append] at hdrain
  refine ⟨?_, ?_, ?_, ?_⟩
  · rw [List.flatten_append, fromUtf8Lossy_eq_drain chunks.flatten, ← hdrain chunks]
    congr 1
    exact takeUtf8_final _
  · intro piece hmem
    rcases List.mem_append.mp hmem with hpushed | hfinished
    · exact pushAll_valid _ _ piece hpushed
    · exact takeUtf8_valid _ _ piece hfinished
  · intro before _
    have hle := drain_pending_le before.flatten
    rw [← hdrain before] at hle
    exact hle
  · intro pending finalChunk
    exact takeWithin_eq finalChunk (Nat.lt_succ_self _)

/-! ## The matcher -/

/-- The bytes that are sent for chunks, and the matcher after them. -/
def StopMatcher.pushAll (m : StopMatcher) : List (List UInt8) → List UInt8 × StopMatcher
  | [] => ([], m)
  | chunk :: chunks =>
    ((m.push chunk).1 ++ ((m.push chunk).2.pushAll chunks).1, ((m.push chunk).2.pushAll chunks).2)

theorem matcher_pushAll_append (m : StopMatcher) (chunks more : List (List UInt8)) :
    m.pushAll (chunks ++ more) =
      ((m.pushAll chunks).1 ++ ((m.pushAll chunks).2.pushAll more).1,
        ((m.pushAll chunks).2.pushAll more).2) := by
  induction chunks generalizing m with
  | nil => rfl
  | cons chunk chunks ih => simp only [List.cons_append, StopMatcher.pushAll, ih, List.append_assoc]

/-- A matcher that has matched sends nothing more. -/
theorem pushAll_of_matched {m : StopMatcher} (h : m.matched = true) (chunks : List (List UInt8)) :
    m.pushAll chunks = ([], m) := by
  induction chunks with
  | nil => rfl
  | cons chunk chunks ih =>
    have hpush : m.push chunk = ([], m) := by simp [StopMatcher.push, h]
    rw [StopMatcher.pushAll, hpush, ih]
    rfl

/-- The first chunk that completes a match. -/
structure Completes (sequences : List (List UInt8)) (chunks before : List (List UInt8))
    (position : Nat) : Prop where
  prefix_chunks : before <+: chunks
  first : findStopPosition before.flatten sequences = some position
  none_before : ∀ shorter, shorter <+: before → shorter ≠ before →
    findStopPosition shorter.flatten sequences = none

/-- A matcher holds back what it must, or has stopped at the first chunk that completes a match. -/
theorem pushAll_outcome {sequences : List (List UInt8)}
    (hne : ∀ sequence ∈ sequences, sequence ≠ []) (chunks : List (List UInt8)) :
    let after := (StopMatcher.new sequences).pushAll chunks
    (after.2.matched = false ∧ Fed sequences after.2 after.1 chunks.flatten ∧
        ∀ before, before <+: chunks → findStopPosition before.flatten sequences = none) ∨
      after.2.matched = true ∧ ∃ before position, Completes sequences chunks before position ∧
        after.1 = before.flatten.take position := by
  induction chunks using List.reverseRecOn with
  | nil =>
    left
    refine ⟨rfl, fed_new hne, ?_⟩
    intro before hbefore
    rw [List.prefix_nil.mp hbefore]
    exact (findStopPosition_eq_none hne).mpr (held_nil hne).unmatched
  | append_singleton chunks chunk ih =>
    intro after
    have hafter : after = (((StopMatcher.new sequences).pushAll chunks).1 ++
        (((StopMatcher.new sequences).pushAll chunks).2.push chunk).1,
        (((StopMatcher.new sequences).pushAll chunks).2.push chunk).2) := by
      simp only [after, matcher_pushAll_append, StopMatcher.pushAll, List.append_nil]
    rcases ih with ⟨hmatched, hfed, hnone⟩ | ⟨hmatched, before, position, hcompletes, hsent⟩
    · have hpushed := push_fed hne hfed hmatched chunk
      have hflatten : (chunks ++ [chunk]).flatten = chunks.flatten ++ chunk := by simp
      have hiff := hpushed.matched_iff hne
      rw [hafter]
      cases hfind : findStopPosition (chunks.flatten ++ chunk) sequences with
      | none =>
        left
        rw [hfind] at hiff
        refine ⟨hiff, by rwa [hflatten], ?_⟩
        intro before hbefore
        rcases List.prefix_concat_iff.mp hbefore with heq | hshorter
        · rwa [heq, hflatten]
        · exact hnone before hshorter
      | some position =>
        right
        rw [hfind] at hiff
        refine ⟨hiff, chunks ++ [chunk], position, ⟨List.prefix_rfl, by rwa [hflatten], ?_⟩, ?_⟩
        · intro shorter hshorter hproper
          rcases List.prefix_concat_iff.mp hshorter with heq | hbefore
          · exact absurd heq hproper
          · exact hnone shorter hbefore
        · cases hpushed with
          | unmatched _ hunmatched =>
            rw [hiff] at hunmatched
            cases hunmatched
          | matched _ found hfound hsent =>
            rw [hfind] at hfound
            cases hfound
            rwa [hflatten]
    · right
      have hpush := pushAll_of_matched hmatched [chunk]
      have hlast : after = ((StopMatcher.new sequences).pushAll chunks) := by
        simp only [after, matcher_pushAll_append, hpush, List.append_nil]
      rw [hlast]
      exact ⟨hmatched, before, position,
        ⟨hcompletes.prefix_chunks.trans (List.prefix_append _ _), hcompletes.first,
          hcompletes.none_before⟩, hsent⟩

/-- No match that begins before the first one seen so far is completed by a later chunk. -/
def NotOvertaken (sequences : List (List UInt8)) (chunks : List (List UInt8)) : Prop :=
  ∀ before, before <+: chunks → ∀ position, OccursAt sequences before.flatten position →
    ∀ earlier, OccursAt sequences chunks.flatten earlier →
      ∃ first ≤ earlier, OccursAt sequences before.flatten first

/-- What a matcher does with a text does not depend on how the text is cut. -/
structure CutsAlike (sequences : List (List UInt8)) (chunks : List (List UInt8)) : Prop where
  text : ((StopMatcher.new sequences).pushAll chunks).1 ++
    ((StopMatcher.new sequences).pushAll chunks).2.finish.1 =
      (truncateAtStop chunks.flatten sequences).1
  hit : ((StopMatcher.new sequences).pushAll chunks).2.matched = true ↔
    ∃ position, OccursAt sequences chunks.flatten position
  silent : ∀ before more, chunks = before ++ more →
    ((StopMatcher.new sequences).pushAll before).2.matched = true →
      ((StopMatcher.new sequences).pushAll chunks).1 ++
        ((StopMatcher.new sequences).pushAll chunks).2.finish.1 =
          ((StopMatcher.new sequences).pushAll before).1
  unsent : ∀ before, before <+: chunks → ∀ position, OccursAt sequences chunks.flatten position →
    ((StopMatcher.new sequences).pushAll before).1.length ≤ position

section Cuts

variable {sequences : List (List UInt8)} {chunks before : List (List UInt8)} {position : Nat}

theorem flatten_prefix (h : before <+: chunks) : ∃ more, chunks.flatten = before.flatten ++ more := by
  obtain ⟨rest, rfl⟩ := h
  exact ⟨rest.flatten, List.flatten_append⟩

/-- The chunks that complete a match hold it whole. -/
theorem Completes.length (hne : ∀ sequence ∈ sequences, sequence ≠ [])
    (h : Completes sequences chunks before position) :
    OccursAt sequences before.flatten position ∧
      (before.flatten.take position).length = position := by
  obtain ⟨hoccurs, -⟩ := (findStopPosition_eq_some hne).mp h.first
  obtain ⟨sequence, hmem, hstarts⟩ := hoccurs
  have hle := hstarts.length_le
  have hpos := List.length_pos_of_ne_nil (hne sequence hmem)
  rw [List.length_drop] at hle
  rw [List.length_take]
  exact ⟨⟨sequence, hmem, hstarts⟩, by omega⟩

/-- A match that is not overtaken is the first of the whole text. -/
theorem NotOvertaken.le (hne : ∀ sequence ∈ sequences, sequence ≠ [])
    (h : NotOvertaken sequences chunks) {some : List (List UInt8)} (hsome : some <+: chunks)
    (hcompletes : Completes sequences some before position) {earlier : Nat}
    (hearlier : OccursAt sequences chunks.flatten earlier) : position ≤ earlier := by
  obtain ⟨hoccurs, hleast⟩ := (findStopPosition_eq_some hne).mp hcompletes.first
  obtain ⟨first, hle, hfirst⟩ :=
    h before (hcompletes.prefix_chunks.trans hsome) position hoccurs earlier hearlier
  by_contra hlt
  exact hleast first (by omega) hfirst

theorem NotOvertaken.first_match (hne : ∀ sequence ∈ sequences, sequence ≠ [])
    (h : NotOvertaken sequences chunks) (hcompletes : Completes sequences chunks before position) :
    findStopPosition chunks.flatten sequences = some position := by
  apply (findStopPosition_eq_some hne).mpr
  constructor
  · obtain ⟨more, hmore⟩ := flatten_prefix hcompletes.prefix_chunks
    obtain ⟨hoccurs, hlength⟩ := hcompletes.length hne
    rw [List.length_take] at hlength
    rw [hmore]
    exact hoccurs.append (by omega) more
  · intro earlier hlt hoccurs
    have hle := h.le hne List.prefix_rfl hcompletes hoccurs
    omega

/-- What a matcher has sent ends before the first match that is not overtaken. -/
theorem NotOvertaken.sent_le (hne : ∀ sequence ∈ sequences, sequence ≠ [])
    (h : NotOvertaken sequences chunks) (hbefore : before <+: chunks)
    (hoccurs : OccursAt sequences chunks.flatten position) :
    ((StopMatcher.new sequences).pushAll before).1.length ≤ position := by
  rcases pushAll_outcome hne before with
    ⟨hmatched, hfed, -⟩ | ⟨-, first, found, hcompletes, hsent⟩
  · cases hfed with
    | matched hmatched' =>
      rw [hmatched] at hmatched'
      cases hmatched'
    | unmatched _ _ hsent hheld =>
      obtain ⟨more, hmore⟩ := flatten_prefix hbefore
      have hle := (hheld.occurs.mp (hmore ▸ hoccurs)).1
      have hlength := congrArg List.length hsent
      rw [List.length_append] at hlength
      omega
  · rw [hsent, (hcompletes.length hne).2]
    exact h.le hne hbefore hcompletes hoccurs

theorem pushAll_finish_of_matched (hmatched :
    ((StopMatcher.new sequences).pushAll before).2.matched = true) (more : List (List UInt8)) :
    ((StopMatcher.new sequences).pushAll (before ++ more)).1 ++
        ((StopMatcher.new sequences).pushAll (before ++ more)).2.finish.1 =
      ((StopMatcher.new sequences).pushAll before).1 := by
  rw [matcher_pushAll_append, pushAll_of_matched hmatched]
  simp [StopMatcher.finish, hmatched]

theorem NotOvertaken.cutsAlike (hne : ∀ sequence ∈ sequences, sequence ≠ [])
    (h : NotOvertaken sequences chunks) : CutsAlike sequences chunks where
  text := by
    rcases pushAll_outcome hne chunks with
      ⟨-, hfed, -⟩ | ⟨hmatched, first, found, hcompletes, hsent⟩
    · exact finish_fed hne hfed
    · have hfind := h.first_match hne hcompletes
      obtain ⟨more, hmore⟩ := flatten_prefix hcompletes.prefix_chunks
      have hlength := (hcompletes.length hne).2
      rw [List.length_take] at hlength
      rw [StopMatcher.finish, if_pos hmatched, truncateAtStop, hfind, hsent, List.append_nil, hmore]
      exact (List.take_append_of_le_length (by omega)).symm
  hit := by
    rcases pushAll_outcome hne chunks with
      ⟨hmatched, -, hnone⟩ | ⟨hmatched, first, found, hcompletes, -⟩
    · have habsent := (findStopPosition_eq_none hne).mp (hnone chunks List.prefix_rfl)
      simp [hmatched, habsent]
    · have hfind := h.first_match hne hcompletes
      have hoccurs := ((findStopPosition_eq_some hne).mp hfind).1
      exact ⟨fun _ => ⟨found, hoccurs⟩, fun _ => hmatched⟩
  silent := by
    intro before more heq hmatched
    rw [heq]
    exact pushAll_finish_of_matched hmatched more
  unsent := fun _ hbefore _ hoccurs => h.sent_le hne hbefore hoccurs

/-- A matcher does what the search of the whole text does exactly when no match is overtaken. -/
theorem cutsAlike_iff (sequences : List (List UInt8))
    (hne : ∀ sequence ∈ sequences, sequence ≠ []) (chunks : List (List UInt8)) :
    CutsAlike sequences chunks ↔ NotOvertaken sequences chunks := by
  constructor
  · intro h before hbefore position hoccurs earlier hearlier
    rcases pushAll_outcome hne before with
      ⟨-, -, hnone⟩ | ⟨-, first, found, hcompletes, hsent⟩
    · have habsent := (findStopPosition_eq_none hne).mp (hnone before List.prefix_rfl)
      exact absurd hoccurs (habsent position)
    · obtain ⟨hfound, hlength⟩ := hcompletes.length hne
      have hle := h.unsent before hbefore earlier hearlier
      rw [hsent, hlength] at hle
      obtain ⟨more, hmore⟩ := flatten_prefix hcompletes.prefix_chunks
      rw [List.length_take] at hlength
      refine ⟨found, hle, ?_⟩
      rw [hmore]
      exact hfound.append (by omega) more
  · exact fun h => h.cutsAlike hne

/-- A match across two chunks. -/
theorem cutsAlike_iff_split :
    CutsAlike [[0x61, 0x62]] [[0x63, 0x61], [0x62, 0x63]] ↔
      NotOvertaken [[0x61, 0x62]] [[0x63, 0x61], [0x62, 0x63]] :=
  cutsAlike_iff _ (by decide) _

/-- The first chunk completes `bc`, and the second completes `abcd` from an earlier byte. -/
theorem not_cutsAlike :
    ¬ CutsAlike [[0x61, 0x62, 0x63, 0x64], [0x62, 0x63]] [[0x61, 0x62, 0x63], [0x64]] := by
  intro h
  have htext := h.text
  revert htext
  decide +kernel

end Cuts

end Leone.Chat

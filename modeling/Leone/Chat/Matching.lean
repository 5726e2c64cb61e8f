import Leone.Chat.Stop

/-!
# The matcher and the decoder of a stream

The matcher sends the bytes before the first match of everything it was given. It may hold bytes
back, but none that no match can use. The decoder writes the text of everything that was sent.
-/

namespace Leone.Chat

open Framework Utf8

/-! ## The first match -/

/-- A sequence stands at a position. -/
def OccursAt (sequences : List (List UInt8)) (bytes : List UInt8) (position : Nat) : Prop :=
  ∃ sequence ∈ sequences, sequence <+: bytes.drop position

theorem windowPosition_eq_some {bytes sequence : List UInt8} {position : Nat} (hne : sequence ≠ []) :
    windowPosition bytes sequence = some position ↔
      sequence <+: bytes.drop position ∧ ∀ earlier < position, ¬ sequence <+: bytes.drop earlier := by
  have hlen := List.length_pos_of_ne_nil hne
  have hwindow : ∀ start, ((bytes.drop start).take sequence.length == sequence) = true ↔
      sequence <+: bytes.drop start := by
    intro start
    rw [beq_iff_eq, List.prefix_iff_eq_take]
    exact eq_comm
  rw [windowPosition, List.find?_range_eq_some]
  simp only [hwindow, List.mem_range, Bool.not_eq_true', ← Bool.not_eq_true]
  constructor
  · exact fun h => ⟨h.1, h.2.2⟩
  · intro h
    refine ⟨h.1, ?_, h.2⟩
    have := h.1.length_le
    rw [List.length_drop] at this
    omega

theorem windowPosition_eq_none {bytes sequence : List UInt8} (hne : sequence ≠ []) :
    windowPosition bytes sequence = none ↔ ∀ position, ¬ sequence <+: bytes.drop position := by
  constructor
  · intro h position hposition
    have hexists : ∃ position, sequence <+: bytes.drop position := ⟨position, hposition⟩
    classical
    have hfirst := (windowPosition_eq_some hne).mpr
      ⟨Nat.find_spec hexists, fun earlier hearlier => Nat.find_min hexists hearlier⟩
    rw [h] at hfirst
    cases hfirst
  · intro h
    cases hsome : windowPosition bytes sequence with
    | none => rfl
    | some position => exact absurd ((windowPosition_eq_some hne).mp hsome).1 (h position)

section Sequences

variable {sequences : List (List UInt8)} (hne : ∀ sequence ∈ sequences, sequence ≠ [])

include hne

theorem findStopPosition_eq_some {bytes : List UInt8} {position : Nat} :
    findStopPosition bytes sequences = some position ↔
      OccursAt sequences bytes position ∧
        ∀ earlier < position, ¬ OccursAt sequences bytes earlier := by
  rw [findStopPosition, List.min?_eq_some_iff]
  simp only [List.mem_filterMap]
  constructor
  · intro h
    obtain ⟨⟨sequence, hmem, hsome⟩, hleast⟩ := h
    refine ⟨⟨sequence, hmem, ((windowPosition_eq_some (hne sequence hmem)).mp hsome).1⟩, ?_⟩
    intro earlier hearlier hoccurs
    obtain ⟨other, hother, hstarts⟩ := hoccurs
    cases hposition : windowPosition bytes other with
    | none => exact (windowPosition_eq_none (hne other hother)).mp hposition earlier hstarts
    | some first =>
      have hfirst := (windowPosition_eq_some (hne other hother)).mp hposition
      have hle := hleast first ⟨other, hother, hposition⟩
      exact hfirst.2 earlier (by omega) hstarts
  · intro h
    obtain ⟨⟨sequence, hmem, hstarts⟩, hleast⟩ := h
    refine ⟨⟨sequence, hmem, (windowPosition_eq_some (hne sequence hmem)).mpr
      ⟨hstarts, fun earlier hearlier hoccurs => hleast earlier hearlier ⟨sequence, hmem, hoccurs⟩⟩⟩, ?_⟩
    intro other hother
    obtain ⟨sequence', hmem', hsome⟩ := hother
    by_contra hlt
    exact hleast other (by omega)
      ⟨sequence', hmem', ((windowPosition_eq_some (hne sequence' hmem')).mp hsome).1⟩

theorem findStopPosition_eq_none {bytes : List UInt8} :
    findStopPosition bytes sequences = none ↔ ∀ position, ¬ OccursAt sequences bytes position := by
  constructor
  · intro h position hposition
    have hexists : ∃ position, OccursAt sequences bytes position := ⟨position, hposition⟩
    classical
    have hfirst := (findStopPosition_eq_some hne).mpr
      ⟨Nat.find_spec hexists, fun earlier hearlier => Nat.find_min hexists hearlier⟩
    rw [h] at hfirst
    cases hfirst
  · intro h
    cases hsome : findStopPosition bytes sequences with
    | none => rfl
    | some position => exact absurd ((findStopPosition_eq_some hne).mp hsome).1 (h position)

end Sequences

/-- A match of some bytes is one of any bytes that begin with them. -/
theorem OccursAt.append {sequences : List (List UInt8)} {bytes : List UInt8} {position : Nat}
    (h : OccursAt sequences bytes position) (hle : position ≤ bytes.length) (more : List UInt8) :
    OccursAt sequences (bytes ++ more) position := by
  obtain ⟨sequence, hmem, hstarts⟩ := h
  refine ⟨sequence, hmem, ?_⟩
  rw [List.drop_append_of_le_length hle]
  exact hstarts.trans (List.prefix_append _ _)

/-! ## What the matcher holds back -/

/-- The pending bytes end the text, the text has no match, and every match that is still to come
begins in the pending bytes. -/
structure Held (sequences : List (List UInt8)) (bytes pending : List UInt8) : Prop where
  suffix : pending <:+ bytes
  unmatched : ∀ position, ¬ OccursAt sequences bytes position
  begins : ∀ sequence ∈ sequences, ∀ count < sequence.length,
    sequence.take count <:+ bytes → count ≤ pending.length

theorem held_nil {sequences : List (List UInt8)} (hne : ∀ sequence ∈ sequences, sequence ≠ []) :
    Held sequences [] [] where
  suffix := List.suffix_rfl
  unmatched := by
    intro position hoccurs
    obtain ⟨sequence, hmem, hstarts⟩ := hoccurs
    rw [List.drop_nil, List.prefix_nil] at hstarts
    exact hne sequence hmem hstarts
  begins := by
    intro sequence hmem count hcount hsuffix
    have := hsuffix.length_le
    rw [List.length_take, List.length_nil] at this
    rw [List.length_nil]
    omega

/-- The start of a sequence, at the end of some bytes, is there without the bytes' last part. -/
theorem take_suffix_append {sequence bytes more : List UInt8} {count : Nat}
    (hcount : count ≤ sequence.length) (hmore : more.length ≤ count)
    (h : sequence.take count <:+ bytes ++ more) :
    sequence.take (count - more.length) <:+ bytes := by
  obtain ⟨before, heq⟩ := h
  refine ⟨before, ?_⟩
  have htake := congrArg (List.take bytes.length) heq
  rw [List.take_left] at htake
  have hlen := congrArg List.length heq
  simp only [List.length_append, List.length_take, Nat.min_eq_left hcount] at hlen
  rw [List.take_append, List.take_of_length_le (by omega), List.take_take] at htake
  rw [show count - more.length = min (bytes.length - before.length) count by omega]
  exact htake

/-- A match in the text after more bytes begins in the pending bytes. -/
theorem Held.occurs {sequences : List (List UInt8)} {bytes pending : List UInt8}
    (h : Held sequences bytes pending) {more : List UInt8} {position : Nat} :
    OccursAt sequences (bytes ++ more) position ↔
      bytes.length - pending.length ≤ position ∧
        OccursAt sequences (pending ++ more) (position - (bytes.length - pending.length)) := by
  obtain ⟨before, hbefore⟩ := h.suffix
  have hlen := congrArg List.length hbefore
  rw [List.length_append] at hlen
  have hdrop : ∀ start, bytes.length - pending.length ≤ start →
      (bytes ++ more).drop start =
        (pending ++ more).drop (start - (bytes.length - pending.length)) := by
    intro start hstart
    rw [← hbefore, List.append_assoc, List.drop_append, List.drop_of_length_le (by omega),
      List.nil_append]
    congr 1
    rw [List.length_append]
    omega
  constructor
  · intro hoccurs
    obtain ⟨sequence, hmem, hstarts⟩ := hoccurs
    have hle : bytes.length - pending.length ≤ position := by
      by_contra hlt
      rw [List.drop_append_of_le_length (by omega)] at hstarts
      by_cases hshort : sequence.length ≤ (bytes.drop position).length
      · -- the match ends in the old bytes
        exact h.unmatched position
          ⟨sequence, hmem, List.prefix_of_prefix_length_le hstarts (List.prefix_append _ _) hshort⟩
      · -- the match begins in the old bytes and ends in the new ones
        have htake : sequence.take (bytes.drop position).length = bytes.drop position := by
          obtain ⟨after, heq⟩ := hstarts
          have := congrArg (List.take (bytes.drop position).length) heq
          rwa [List.take_left, List.take_append_of_le_length (by omega)] at this
        have := h.begins sequence hmem (bytes.drop position).length (by omega)
          (by rw [htake]; exact List.drop_suffix _ _)
        rw [List.length_drop] at this
        omega
    exact ⟨hle, sequence, hmem, by rwa [← hdrop position hle]⟩
  · intro hoccurs
    obtain ⟨hle, sequence, hmem, hstarts⟩ := hoccurs
    exact ⟨sequence, hmem, by rwa [hdrop position hle]⟩

theorem le_suffixPrefixLength {bytes sequence : List UInt8} {count : Nat}
    (hcount : count < sequence.length) (h : sequence.take count <:+ bytes) :
    count ≤ suffixPrefixLength bytes sequence := by
  by_cases hzero : count = 0
  · omega
  · have hmem : count ∈ (List.range' 1 (sequence.length - 1)).reverse := by
      rw [List.mem_reverse, List.mem_range'_1]
      omega
    have hholds : (sequence.take count).isSuffixOf bytes = true := List.isSuffixOf_iff_suffix.mpr h
    rw [suffixPrefixLength]
    cases hfind : (List.range' 1 (sequence.length - 1)).reverse.find? fun length =>
        (sequence.take length).isSuffixOf bytes with
    | none => exact absurd hholds (List.find?_eq_none.mp hfind count hmem)
    | some first =>
      -- the lengths are tried from the greatest on
      obtain ⟨-, tried, rest, hsplit, htried⟩ := List.find?_eq_some_iff_append.mp hfind
      have hsorted : (tried ++ first :: rest).Pairwise (· > ·) := by
        rw [← hsplit, List.pairwise_reverse]
        exact List.pairwise_lt_range'
      rw [hsplit, List.mem_append, List.mem_cons] at hmem
      rw [Option.getD_some]
      rcases hmem with htried' | rfl | hrest
      · have := htried count htried'
        rw [hholds] at this
        cases this
      · exact Nat.le_refl _
      · have hlater := (List.pairwise_cons.mp (List.pairwise_append.mp hsorted).2.1).1 count hrest
        exact Nat.le_of_lt hlater

theorem suffixPrefixLength_le (bytes sequence : List UInt8) :
    suffixPrefixLength bytes sequence ≤ bytes.length := by
  rw [suffixPrefixLength]
  cases hfind : (List.range' 1 (sequence.length - 1)).reverse.find? fun length =>
      (sequence.take length).isSuffixOf bytes with
  | none => exact Nat.zero_le _
  | some first =>
    have hsuffix := List.isSuffixOf_iff_suffix.mp (List.find?_some
      (p := fun length => (sequence.take length).isSuffixOf bytes) hfind)
    have hmem := List.mem_of_find?_eq_some hfind
    rw [List.mem_reverse, List.mem_range'_1] at hmem
    have := hsuffix.length_le
    rw [List.length_take] at this
    rw [Option.getD_some]
    omega

/-! ## What the matcher sends -/

/-- What a matcher has sent of a text. -/
inductive Fed (sequences : List (List UInt8)) (m : StopMatcher) (sent bytes : List UInt8) : Prop
  | unmatched (hsequences : m.sequences = sequences) (hmatched : m.matched = false)
      (hsent : bytes = sent ++ m.pending) (hheld : Held sequences bytes m.pending)
  | matched (hmatched : m.matched = true) (position : Nat)
      (hposition : findStopPosition bytes sequences = some position)
      (hsent : sent = bytes.take position)

theorem fed_new {sequences : List (List UInt8)} (hne : ∀ sequence ∈ sequences, sequence ≠ []) :
    Fed sequences (StopMatcher.new sequences) [] [] := .unmatched rfl rfl rfl (held_nil hne)

/-- A matcher has matched exactly when the text has a match. -/
theorem Fed.matched_iff {sequences : List (List UInt8)}
    (hne : ∀ sequence ∈ sequences, sequence ≠ []) {m : StopMatcher} {sent bytes : List UInt8}
    (h : Fed sequences m sent bytes) :
    m.matched = (findStopPosition bytes sequences).isSome := by
  cases h with
  | unmatched hsequences hmatched hsent hheld =>
    rw [hmatched, (findStopPosition_eq_none hne).mpr hheld.unmatched]
    rfl
  | matched hmatched position hposition hsent =>
    rw [hmatched, hposition]
    rfl

/-- The length that a matcher holds back. -/
theorem hold_spec (pending : List UInt8) (sequences : List (List UInt8)) :
    (sequences.map (suffixPrefixLength pending)).max?.getD 0 ≤ pending.length ∧
      ∀ sequence ∈ sequences, suffixPrefixLength pending sequence ≤
        (sequences.map (suffixPrefixLength pending)).max?.getD 0 := by
  constructor
  · cases hmax : (sequences.map (suffixPrefixLength pending)).max? with
    | none => exact Nat.zero_le _
    | some hold =>
      obtain ⟨hmem, -⟩ := List.max?_eq_some_iff.mp hmax
      obtain ⟨sequence, -, rfl⟩ := List.mem_map.mp hmem
      exact suffixPrefixLength_le pending sequence
  · intro sequence hmem
    exact List.le_max?_getD_of_mem (List.mem_map_of_mem hmem)

theorem push_eq_some {m : StopMatcher} (hmatched : m.matched = false) {more : List UInt8}
    {position : Nat} (h : findStopPosition (m.pending ++ more) m.sequences = some position) :
    m.push more = ((m.pending ++ more).take position, { m with pending := [], matched := true }) := by
  simp [StopMatcher.push, hmatched, h]

theorem push_eq_none {m : StopMatcher} (hmatched : m.matched = false) {more : List UInt8}
    (h : findStopPosition (m.pending ++ more) m.sequences = none) :
    ∃ hold ≤ (m.pending ++ more).length,
      (∀ sequence ∈ m.sequences, suffixPrefixLength (m.pending ++ more) sequence ≤ hold) ∧
      m.push more = ((m.pending ++ more).take ((m.pending ++ more).length - hold),
        { m with pending := (m.pending ++ more).drop ((m.pending ++ more).length - hold) }) := by
  obtain ⟨hhold, hmax⟩ := hold_spec (m.pending ++ more) m.sequences
  refine ⟨_, hhold, hmax, ?_⟩
  simp only [StopMatcher.push, hmatched, h, Bool.false_eq_true, if_false]

/-- A matcher that has not matched sends what no match can use. -/
theorem push_fed {sequences : List (List UInt8)} (hne : ∀ sequence ∈ sequences, sequence ≠ [])
    {m : StopMatcher} {sent bytes : List UInt8} (h : Fed sequences m sent bytes)
    (hmatched : m.matched = false) (more : List UInt8) :
    Fed sequences (m.push more).2 (sent ++ (m.push more).1) (bytes ++ more) := by
  cases h with
  | matched hmatched' => simp [hmatched] at hmatched'
  | unmatched hsequences _ hsent hheld =>
    have hoffset : bytes.length - m.pending.length = sent.length := by
      rw [hsent, List.length_append]
      omega
    have htext : bytes ++ more = sent ++ (m.pending ++ more) := by
      rw [hsent, List.append_assoc]
    have hoccurs : ∀ position, OccursAt sequences (bytes ++ more) position ↔
        sent.length ≤ position ∧ OccursAt sequences (m.pending ++ more) (position - sent.length) := by
      intro position
      rw [hheld.occurs, hoffset]
    cases hposition : findStopPosition (m.pending ++ more) sequences with
    | some position =>
      rw [push_eq_some hmatched (hsequences ▸ hposition)]
      obtain ⟨hfirst, hearlier⟩ := (findStopPosition_eq_some hne).mp hposition
      refine .matched rfl (sent.length + position) ?_ ?_
      · apply (findStopPosition_eq_some hne).mpr
        refine ⟨(hoccurs _).mpr ⟨Nat.le_add_right _ _, by rwa [Nat.add_sub_cancel_left]⟩, ?_⟩
        intro earlier hlt hoccurs'
        obtain ⟨hle, hoccurs'⟩ := (hoccurs earlier).mp hoccurs'
        exact hearlier _ (by omega) hoccurs'
      · rw [htext]
        exact (List.take_length_add_append _).symm
    | none =>
      obtain ⟨hold, hhold, hmax, hpush⟩ := push_eq_none hmatched (hsequences ▸ hposition)
      rw [hpush]
      have hnone := (findStopPosition_eq_none hne).mp hposition
      refine .unmatched hsequences hmatched ?_ ⟨?_, ?_, ?_⟩
      · rw [htext, List.append_assoc, List.take_append_drop]
      · rw [htext]
        exact (List.drop_suffix _ _).trans (List.suffix_append _ _)
      · intro position hposition'
        exact hnone _ ((hoccurs position).mp hposition').2
      · intro sequence hmem count hcount hsuffix
        have hle : count ≤ (m.pending ++ more).length := by
          rw [List.length_append]
          by_cases hshort : count ≤ more.length
          · omega
          · have := hheld.begins sequence hmem (count - more.length) (by omega)
              (take_suffix_append (Nat.le_of_lt hcount) (by omega) hsuffix)
            omega
        have hpending : sequence.take count <:+ m.pending ++ more := by
          apply List.suffix_of_suffix_length_le hsuffix
          · rw [htext]
            exact List.suffix_append _ _
          · rw [List.length_take]
            omega
        have hbound := (le_suffixPrefixLength hcount hpending).trans
          (hmax sequence (hsequences ▸ hmem))
        rw [List.length_drop]
        omega

/-- At its end a matcher has sent the text up to the first match. -/
theorem finish_fed {sequences : List (List UInt8)} (hne : ∀ sequence ∈ sequences, sequence ≠ [])
    {m : StopMatcher} {sent bytes : List UInt8} (h : Fed sequences m sent bytes) :
    sent ++ m.finish.1 = (truncateAtStop bytes sequences).1 := by
  unfold truncateAtStop StopMatcher.finish
  cases h with
  | unmatched hsequences hmatched hsent hheld =>
    rw [(findStopPosition_eq_none hne).mpr hheld.unmatched, hmatched]
    exact hsent.symm
  | matched hmatched position hposition hsent =>
    rw [hposition, hmatched, hsent]
    exact List.append_nil _

/-! ## What the decoder writes -/

/-- A step of the decoder that goes on. -/
theorem takeUtf8Piece_true {pending rest : List UInt8} {finalChunk : Bool}
    {pieces : List (List UInt8)} (h : takeUtf8Piece pending finalChunk = (true, rest, pieces)) :
    drain pending = (pieces.flatten ++ (drain rest).1, (drain rest).2) := by
  unfold takeUtf8Piece at h
  split at h
  · split at h <;> cases h
  · next e herror =>
    split at h
    · cases h
      simpa using drain_of_error herror
    · next hzero =>
      split at h
      · next count hsome =>
        cases h
        simpa using (drain_of_first herror (by omega)).1 count hsome
      · split at h <;> cases h

/-- The last step of the decoder. -/
theorem takeUtf8Piece_false {pending rest : List UInt8} {finalChunk : Bool}
    {pieces : List (List UInt8)} (h : takeUtf8Piece pending finalChunk = (false, rest, pieces)) :
    if finalChunk then fromUtf8Lossy pending = pieces.flatten
    else drain pending = (pieces.flatten, rest) := by
  unfold takeUtf8Piece at h
  split at h
  · next hok =>
    have hdrain := drain_of_ok hok
    have htext := fromUtf8Lossy_eq_drain pending
    rw [hdrain, fromUtf8Lossy, List.append_nil] at htext
    split at h
    · next hempty =>
      cases h
      rw [htext, hdrain, hempty]
      split <;> rfl
    · cases h
      rw [htext, hdrain]
      simp
  · next e herror =>
    split at h
    · cases h
    · next hzero =>
      split at h
      · cases h
      · next hnone =>
        cases finalChunk with
        | true =>
          cases h
          simp
        | false =>
          cases h
          simpa using (drain_of_first herror (by omega)).2 hnone

theorem takeUtf8_drain (pending : List UInt8) :
    ((takeUtf8 pending false).1.flatten, (takeUtf8 pending false).2) = drain pending := by
  fun_induction takeUtf8 pending false with
  | case1 pending rest pieces hpiece ih =>
    rw [takeUtf8Piece_true hpiece, ← ih, List.flatten_append]
  | case2 pending rest pieces hpiece =>
    have := takeUtf8Piece_false hpiece
    rw [if_neg (by simp)] at this
    exact this.symm

theorem takeUtf8_final (pending : List UInt8) :
    (takeUtf8 pending true).1.flatten = fromUtf8Lossy pending := by
  fun_induction takeUtf8 pending true with
  | case1 pending rest pieces hpiece ih =>
    rw [fromUtf8Lossy_of_drain (takeUtf8Piece_true hpiece), ← ih, List.flatten_append]
  | case2 pending rest pieces hpiece =>
    have := takeUtf8Piece_false hpiece
    rw [if_pos rfl] at this
    exact this.symm

end Leone.Chat

import Mathlib

/-!
# Lossy decoding of UTF-8

A decoder that reads its bytes in pieces holds an unfinished character back until it is complete.
What it has written at the end is what the decoder of the whole text writes.
-/

namespace Framework

namespace Utf8

/-- How a text begins: with a character, with an invalid sequence or with an unfinished one. The
count is of the bytes after the first. -/
inductive Chunk
  | valid (more : ℕ)
  | invalid (more : ℕ)
  | incomplete
  deriving DecidableEq, Repr

def continuation : UInt8 × UInt8 := (0x80, 0xBF)

/-- The ranges of the bytes that complete a character, by its first byte. -/
def tailRanges (first : UInt8) : Option (List (UInt8 × UInt8)) :=
  if first < 0x80 then some []
  else if first < 0xC2 then none
  else if first < 0xE0 then some [continuation]
  else if first = 0xE0 then some [(0xA0, 0xBF), continuation]
  else if first = 0xED then some [(0x80, 0x9F), continuation]
  else if first < 0xF0 then some [continuation, continuation]
  else if first = 0xF0 then some [(0x90, 0xBF), continuation, continuation]
  else if first < 0xF4 then some [continuation, continuation, continuation]
  else if first = 0xF4 then some [(0x80, 0x8F), continuation, continuation]
  else none

def readTail : List (UInt8 × UInt8) → List UInt8 → ℕ → Chunk
  | [], _, more => .valid more
  | _ :: _, [], _ => .incomplete
  | range :: ranges, byte :: bytes, more =>
    if range.1 ≤ byte ∧ byte ≤ range.2 then readTail ranges bytes (more + 1) else .invalid more

def firstChunk (first : UInt8) (bytes : List UInt8) : Chunk :=
  match tailRanges first with
  | none => .invalid 0
  | some ranges => readTail ranges bytes 0

/-- The replacement character. -/
def replacement : List UInt8 := [0xEF, 0xBF, 0xBD]

/-- The text of a byte string, with a replacement for each maximal sequence that is no character. -/
def fromUtf8Lossy : List UInt8 → List UInt8
  | [] => []
  | first :: bytes =>
    match firstChunk first bytes with
    | .valid more => first :: bytes.take more ++ fromUtf8Lossy (bytes.drop more)
    | .invalid more => replacement ++ fromUtf8Lossy (bytes.drop more)
    | .incomplete => replacement
termination_by bytes => bytes.length
decreasing_by all_goals simp only [List.length_cons, List.length_drop]; omega

/-- The text up to an unfinished character, and that character's bytes. -/
def drain : List UInt8 → List UInt8 × List UInt8
  | [] => ([], [])
  | first :: bytes =>
    match firstChunk first bytes with
    | .valid more =>
      (first :: bytes.take more ++ (drain (bytes.drop more)).1, (drain (bytes.drop more)).2)
    | .invalid more => (replacement ++ (drain (bytes.drop more)).1, (drain (bytes.drop more)).2)
    | .incomplete => ([], first :: bytes)
termination_by bytes => bytes.length
decreasing_by all_goals simp only [List.length_cons, List.length_drop]; omega

/-- Where the first sequence that is no character starts, and its length unless it is unfinished. -/
structure Error where
  validUpTo : ℕ
  errorLen : Option ℕ
  deriving DecidableEq, Repr

def fromUtf8 : List UInt8 → Except Error Unit
  | [] => .ok ()
  | first :: bytes =>
    match firstChunk first bytes with
    | .valid more =>
      (fromUtf8 (bytes.drop more)).mapError fun e => { e with validUpTo := e.validUpTo + (more + 1) }
    | .invalid more => .error ⟨0, some (more + 1)⟩
    | .incomplete => .error ⟨0, none⟩
termination_by bytes => bytes.length
decreasing_by simp only [List.length_cons, List.length_drop]; omega

/-! ## The first chunk -/

theorem readTail_append {ranges : List (UInt8 × UInt8)} {bytes : List UInt8} {more : ℕ}
    (h : readTail ranges bytes more ≠ .incomplete) (rest : List UInt8) :
    readTail ranges (bytes ++ rest) more = readTail ranges bytes more := by
  induction ranges generalizing bytes more with
  | nil => simp [readTail]
  | cons range ranges ih =>
    cases bytes with
    | nil => exact absurd rfl h
    | cons byte bytes =>
      rw [readTail] at h
      rw [List.cons_append, readTail, readTail]
      split
      · next hrange =>
        rw [if_pos hrange] at h
        exact ih h
      · rfl

/-- A first chunk that is complete does not depend on what follows. -/
theorem firstChunk_append {first : UInt8} {bytes : List UInt8}
    (h : firstChunk first bytes ≠ .incomplete) (rest : List UInt8) :
    firstChunk first (bytes ++ rest) = firstChunk first bytes := by
  unfold firstChunk at h ⊢
  cases htail : tailRanges first with
  | none => rfl
  | some ranges =>
    rw [htail] at h
    exact readTail_append h rest

theorem readTail_le {ranges : List (UInt8 × UInt8)} {bytes : List UInt8} {more n : ℕ}
    (h : readTail ranges bytes more = .valid n ∨ readTail ranges bytes more = .invalid n) :
    more ≤ n ∧ n ≤ more + bytes.length := by
  induction ranges generalizing bytes more with
  | nil =>
    simp only [readTail, Chunk.valid.injEq, reduceCtorEq, or_false] at h
    omega
  | cons range ranges ih =>
    cases bytes with
    | nil => simp [readTail] at h
    | cons byte bytes =>
      rw [readTail] at h
      split at h
      · have := ih h
        rw [List.length_cons]
        omega
      · simp only [reduceCtorEq, Chunk.invalid.injEq, false_or] at h
        omega

theorem firstChunk_le {first : UInt8} {bytes : List UInt8} {n : ℕ}
    (h : firstChunk first bytes = .valid n ∨ firstChunk first bytes = .invalid n) :
    n ≤ bytes.length := by
  unfold firstChunk at h
  cases htail : tailRanges first with
  | none =>
    simp only [htail, reduceCtorEq, Chunk.invalid.injEq, false_or] at h
    omega
  | some ranges =>
    simp only [htail] at h
    have := (readTail_le h).2
    omega

def IsContinuation (byte : UInt8) : Prop := 0x80 ≤ byte ∧ byte ≤ 0xBF

/-- Every byte that completes a character is a continuation byte. -/
theorem tailRanges_continuation {first : UInt8} {ranges : List (UInt8 × UInt8)}
    (h : tailRanges first = some ranges) {range : UInt8 × UInt8} (hmem : range ∈ ranges) :
    0x80 ≤ range.1 ∧ range.2 ≤ 0xBF := by
  unfold tailRanges continuation at h
  repeat' split at h
  all_goals cases h
  all_goals simp only [List.mem_cons, List.not_mem_nil, or_false] at hmem
  all_goals rcases hmem with rfl | rfl | rfl <;> decide

/-- An unfinished character before a byte that cannot complete it is invalid. -/
theorem readTail_incomplete {ranges : List (UInt8 × UInt8)} {bytes : List UInt8} {more : ℕ}
    (hranges : ∀ range ∈ ranges, 0x80 ≤ range.1 ∧ range.2 ≤ 0xBF)
    (h : readTail ranges bytes more = .incomplete) {byte : UInt8} (hbyte : ¬ IsContinuation byte)
    (rest : List UInt8) :
    readTail ranges (bytes ++ byte :: rest) more = .invalid (more + bytes.length) := by
  induction ranges generalizing bytes more with
  | nil => cases h
  | cons range ranges ih =>
    obtain ⟨hrange, hranges⟩ := List.forall_mem_cons.mp hranges
    cases bytes with
    | nil =>
      rw [List.nil_append, readTail, if_neg, List.length_nil, Nat.add_zero]
      intro hwithin
      exact hbyte ⟨UInt8.le_trans hrange.1 hwithin.1, UInt8.le_trans hwithin.2 hrange.2⟩
    | cons head bytes =>
      rw [readTail] at h
      split at h
      · next hwithin =>
        rw [List.cons_append, readTail, if_pos hwithin, ih hranges h, List.length_cons]
        congr 1
        omega
      · cases h

theorem firstChunk_incomplete {first : UInt8} {bytes : List UInt8}
    (h : firstChunk first bytes = .incomplete) {byte : UInt8} (hbyte : ¬ IsContinuation byte)
    (rest : List UInt8) : firstChunk first (bytes ++ byte :: rest) = .invalid bytes.length := by
  unfold firstChunk at h ⊢
  cases htail : tailRanges first with
  | none => simp [htail] at h
  | some ranges =>
    rw [htail] at h
    have := readTail_incomplete (fun range hmem => tailRanges_continuation htail hmem) h hbyte rest
    rwa [Nat.zero_add] at this

theorem not_isContinuation_of_valid {first : UInt8} {bytes : List UInt8} {more : ℕ}
    (h : firstChunk first bytes = .valid more) : ¬ IsContinuation first := by
  intro hfirst
  have hnone : tailRanges first = none := by
    rw [tailRanges, if_neg (UInt8.not_lt.mpr hfirst.1),
      if_pos (UInt8.lt_of_le_of_lt hfirst.2 (by decide))]
  simp [firstChunk, hnone] at h

/-! ## Decoding in pieces -/

theorem drain_append (bytes rest : List UInt8) :
    drain (bytes ++ rest) = ((drain bytes).1 ++ (drain ((drain bytes).2 ++ rest)).1,
      (drain ((drain bytes).2 ++ rest)).2) := by
  fun_induction drain bytes with
  | case1 => rfl
  | case2 first bytes more hchunk ih =>
    have hle := firstChunk_le (.inl hchunk)
    rw [List.cons_append, drain, firstChunk_append (by simp [hchunk]), hchunk]
    simp only [List.take_append_of_le_length hle, List.drop_append_of_le_length hle, ih,
      List.append_assoc, List.cons_append]
  | case3 first bytes more hchunk ih =>
    have hle := firstChunk_le (.inr hchunk)
    rw [List.cons_append, drain, firstChunk_append (by simp [hchunk]), hchunk]
    simp only [List.drop_append_of_le_length hle, ih, List.append_assoc]
  | case4 first bytes hchunk => rfl

/-- The bytes that are held back are no complete text. -/
theorem drain_rest (bytes : List UInt8) :
    (drain bytes).2 = [] ∨
      ∃ first rest, (drain bytes).2 = first :: rest ∧ firstChunk first rest = .incomplete := by
  fun_induction drain bytes with
  | case1 => exact .inl rfl
  | case2 first bytes more hchunk ih => exact ih
  | case3 first bytes more hchunk ih => exact ih
  | case4 first bytes hchunk => exact .inr ⟨first, bytes, rfl, hchunk⟩

/-- The bytes that are held back are one replacement at the end of the text. -/
theorem fromUtf8Lossy_eq_drain (bytes : List UInt8) :
    fromUtf8Lossy bytes = (drain bytes).1 ++ fromUtf8Lossy (drain bytes).2 := by
  fun_induction drain bytes with
  | case1 => rfl
  | case2 first bytes more hchunk ih =>
    rw [fromUtf8Lossy, hchunk]
    simp only [ih, List.append_assoc, List.cons_append]
  | case3 first bytes more hchunk ih =>
    rw [fromUtf8Lossy, hchunk]
    simp only [ih, List.append_assoc]
  | case4 first bytes hchunk => rfl

/-- A text splits before every byte that starts a character. -/
theorem fromUtf8Lossy_append (bytes : List UInt8) {byte : UInt8} (hbyte : ¬ IsContinuation byte)
    (rest : List UInt8) :
    fromUtf8Lossy (bytes ++ byte :: rest) = fromUtf8Lossy bytes ++ fromUtf8Lossy (byte :: rest) := by
  fun_induction fromUtf8Lossy bytes with
  | case1 => rfl
  | case2 first bytes more hchunk ih =>
    have hle := firstChunk_le (.inl hchunk)
    rw [List.cons_append, fromUtf8Lossy, firstChunk_append (by simp [hchunk]), hchunk]
    simp only [List.take_append_of_le_length hle, List.drop_append_of_le_length hle, ih,
      List.append_assoc, List.cons_append]
  | case3 first bytes more hchunk ih =>
    have hle := firstChunk_le (.inr hchunk)
    rw [List.cons_append, fromUtf8Lossy, firstChunk_append (by simp [hchunk]), hchunk]
    simp only [List.drop_append_of_le_length hle, ih, List.append_assoc]
  | case4 first bytes hchunk =>
    rw [List.cons_append, fromUtf8Lossy, firstChunk_incomplete hchunk hbyte]
    simp only [List.drop_left]

/-- A valid text decodes to itself, whatever follows it. -/
theorem fromUtf8Lossy_valid {bytes : List UInt8} (h : fromUtf8 bytes = .ok ()) (rest : List UInt8) :
    fromUtf8Lossy (bytes ++ rest) = bytes ++ fromUtf8Lossy rest := by
  fun_induction fromUtf8 bytes with
  | case1 => rfl
  | case2 first bytes more hchunk ih =>
    have hle := firstChunk_le (.inl hchunk)
    have hvalid : fromUtf8 (bytes.drop more) = .ok () := by
      cases hrest : fromUtf8 (bytes.drop more) with
      | ok => rfl
      | error e => simp [hrest, Except.mapError] at h
    rw [List.cons_append, fromUtf8Lossy, firstChunk_append (by simp [hchunk]), hchunk]
    simp only [List.take_append_of_le_length hle, List.drop_append_of_le_length hle, ih hvalid]
    rw [List.cons_append, ← List.append_assoc, List.take_append_drop, List.cons_append]
  | case3 first bytes more hchunk => cases h
  | case4 first bytes hchunk => cases h

theorem not_isContinuation_of_fromUtf8 {first : UInt8} {bytes : List UInt8}
    (h : fromUtf8 (first :: bytes) = .ok ()) : ¬ IsContinuation first := by
  rw [fromUtf8] at h
  split at h
  · next more hchunk => exact not_isContinuation_of_valid hchunk
  · cases h
  · cases h

/-! ## The validator -/

theorem drain_of_ok {bytes : List UInt8} (h : fromUtf8 bytes = .ok ()) : drain bytes = (bytes, []) := by
  fun_induction fromUtf8 bytes with
  | case1 => rw [drain]
  | case2 first bytes more hchunk ih =>
    have hvalid : fromUtf8 (bytes.drop more) = .ok () := by
      cases hrest : fromUtf8 (bytes.drop more) with
      | ok => rfl
      | error e => simp [hrest, Except.mapError] at h
    rw [drain, hchunk]
    simp only [ih hvalid, List.cons_append, List.take_append_drop]
  | case3 first bytes more hchunk => cases h
  | case4 first bytes hchunk => cases h

theorem fromUtf8_error {bytes : List UInt8} {e : Error} (h : fromUtf8 bytes = .error e) :
    bytes ≠ [] ∧ ∀ count, e.errorLen = some count → 0 < count := by
  fun_induction fromUtf8 bytes generalizing e with
  | case1 => cases h
  | case2 first bytes more hchunk ih =>
    cases hrest : fromUtf8 (bytes.drop more) with
    | ok => simp [hrest, Except.mapError] at h
    | error e' =>
      rw [hrest] at h
      cases h
      exact ⟨List.cons_ne_nil _ _, (ih hrest).2⟩
  | case3 first bytes more hchunk =>
    cases h
    exact ⟨List.cons_ne_nil _ _, fun count hcount => by cases hcount; exact Nat.succ_pos _⟩
  | case4 first bytes hchunk =>
    cases h
    exact ⟨List.cons_ne_nil _ _, nofun⟩

/-- The valid bytes before an error decode to themselves. -/
theorem drain_of_error {bytes : List UInt8} {e : Error} (h : fromUtf8 bytes = .error e) :
    drain bytes = (bytes.take e.validUpTo ++ (drain (bytes.drop e.validUpTo)).1,
      (drain (bytes.drop e.validUpTo)).2) := by
  fun_induction fromUtf8 bytes generalizing e with
  | case1 => cases h
  | case2 first bytes more hchunk ih =>
    have hle := firstChunk_le (.inl hchunk)
    cases hrest : fromUtf8 (bytes.drop more) with
    | ok => simp [hrest, Except.mapError] at h
    | error e' =>
      rw [hrest] at h
      cases h
      have htake : bytes.take more ++ (bytes.drop more).take e'.validUpTo =
          bytes.take (e'.validUpTo + more) := by
        rw [Nat.add_comm, List.take_add]
      have hdrop : (bytes.drop more).drop e'.validUpTo = bytes.drop (e'.validUpTo + more) := by
        rw [List.drop_drop, Nat.add_comm]
      rw [drain, hchunk]
      show (first :: bytes.take more ++ (drain (bytes.drop more)).1, (drain (bytes.drop more)).2) =
        (first :: bytes.take (e'.validUpTo + more) ++ (drain (bytes.drop (e'.validUpTo + more))).1,
          (drain (bytes.drop (e'.validUpTo + more))).2)
      rw [ih hrest, hdrop, ← htake]
      simp only [List.cons_append, List.append_assoc]
  | case3 first bytes more hchunk =>
    cases h
    rfl
  | case4 first bytes hchunk =>
    cases h
    rfl

/-- An error at the start is one replacement, or an unfinished character. -/
theorem drain_of_first {bytes : List UInt8} {e : Error} (h : fromUtf8 bytes = .error e)
    (hfirst : e.validUpTo = 0) :
    (∀ count, e.errorLen = some count → drain bytes =
      (replacement ++ (drain (bytes.drop count)).1, (drain (bytes.drop count)).2)) ∧
      (e.errorLen = none → drain bytes = ([], bytes)) := by
  unfold fromUtf8 at h
  split at h
  · cases h
  · next first bytes =>
    split at h
    · next more hchunk =>
      cases hrest : fromUtf8 (bytes.drop more) with
      | ok => simp [hrest, Except.mapError] at h
      | error e' =>
        rw [hrest] at h
        cases h
        cases hfirst
    · next more hchunk =>
      cases h
      refine ⟨fun count hcount => ?_, nofun⟩
      cases hcount
      rw [drain, hchunk]
      rfl
    · next hchunk =>
      cases h
      refine ⟨nofun, fun _ => ?_⟩
      rw [drain, hchunk]

theorem fromUtf8Lossy_of_drain {bytes out rest : List UInt8}
    (h : drain bytes = (out ++ (drain rest).1, (drain rest).2)) :
    fromUtf8Lossy bytes = out ++ fromUtf8Lossy rest := by
  rw [fromUtf8Lossy_eq_drain bytes, h, fromUtf8Lossy_eq_drain rest, List.append_assoc]

end Utf8

end Framework

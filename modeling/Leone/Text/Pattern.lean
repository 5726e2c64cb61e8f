import Leone.Framework.Regex
import Leone.Text.RoundTrip

/-!
# The split pattern

The words of a text are the successive leftmost-first matches of one pattern. The scanner looks
ahead by hand where a backtracking matcher would try and give up.
-/

namespace Leone.Text

open Framework

/-! ## The pattern -/

/-- A letter of a contraction, in either ASCII case. -/
def caseless (letter c : Char) : Bool := c.toLower = letter

def contractionPattern : Regex Char :=
  .seq (.set (· = '\x27')) (.choice [.word [caseless 's'], .word [caseless 't'],
    .word [caseless 'm'], .word [caseless 'd'], .word [caseless 'r', caseless 'e'],
    .word [caseless 'v', caseless 'e'], .word [caseless 'l', caseless 'l']])

section Pattern

variable (category : Char → GeneralCategory)

/-- What may lead the letters of a word. -/
def isLead (c : Char) : Bool := !isNewline c && !isLetter category c && !isNumber category c

def letterPattern : Regex Char :=
  .seq (.opt (.set (isLead category))) (.plus (.set (isLetter category)))

def numberPattern (digitLimit : Nat) : Regex Char :=
  .seq (.set (isNumber category)) (.upTo (.set (isNumber category)) (digitLimit - 1))

def punctuationPattern : Regex Char :=
  .seq (.opt (.set (· = ' '))) (.seq (.plus (.set (isPunctuationCharacter category)))
    (.star (.set isNewline)))

def newlinePattern : Regex Char := .seq (.star (.set isWhitespace)) (.plus (.set isNewline))

/-- White space that no other character follows, so that a space before a word stays with it. -/
def trailingPattern : Regex Char :=
  .seq (.plus (.set isWhitespace)) (.notAhead (.set fun c => !isWhitespace c))

def whitespacePattern : Regex Char := .plus (.set isWhitespace)

/-- The alternatives of the split, in order. -/
def splitPattern (digitLimit : Nat) : Regex Char :=
  .choice [contractionPattern, letterPattern category, numberPattern category digitLimit,
    punctuationPattern category, newlinePattern, trailingPattern, whitespacePattern]

end Pattern

/-! ## The scanner matches each alternative -/

section Scanner

variable {characters : List Char}

theorem drop_scanWhile (p : Char → Bool) (stop : Nat) :
    characters.drop (scanWhile p (characters.drop stop) stop) =
      (characters.drop stop).dropWhile p := by
  generalize hrest : characters.drop stop = rest
  induction rest generalizing stop with
  | nil => exact hrest
  | cons c rest ih =>
    have hnext : characters.drop (stop + 1) = rest := by
      rw [← List.drop_drop, hrest]
      rfl
    rw [scanWhile, List.dropWhile_cons]
    split_ifs
    · exact ih (stop + 1) hnext
    · exact hrest

theorem first_upTo_scanWhile (p : Char → Bool) (limit stop : Nat) :
    (Regex.upTo (.set p) limit).first (characters.drop stop) =
      some (characters.drop (scanWhile p ((characters.drop stop).take limit) stop)) := by
  induction limit generalizing stop with
  | zero => rfl
  | succ limit ih =>
    rw [Regex.upTo, Regex.first_opt]
    cases hrest : characters.drop stop with
    | nil => rw [Regex.first_seq_set_nil, List.take_nil, scanWhile, hrest]; rfl
    | cons c rest =>
      have hnext : characters.drop (stop + 1) = rest := by
        rw [← List.drop_drop, hrest]
        rfl
      have hlater := ih (stop + 1)
      rw [hnext] at hlater
      rw [Regex.first_seq_set_cons, List.take_succ_cons, scanWhile]
      split_ifs
      · rw [hlater]
        rfl
      · rw [hrest]
        rfl

/-- A position inside the text, as the character there and what follows it. -/
theorem drop_position (position : Fin characters.length) :
    characters.drop position = characters.get position :: characters.drop (position + 1) :=
  List.drop_eq_getElem_cons position.isLt

theorem getElem?_next (position : Nat) :
    characters[position]? = (characters.drop position).head? := List.head?_drop.symm

theorem contractionEnd_first (position : Fin characters.length) :
    (contractionEnd characters position).map characters.drop =
      contractionPattern.first (characters.drop position) := by
  rw [drop_position, contractionPattern, Regex.first_seq_set_cons]
  unfold contractionEnd
  by_cases hquote : characters.get position = '\x27'
  · rw [if_neg (not_not.mpr hquote), if_pos (decide_eq_true hquote), getElem?_next]
    cases hrest : characters.drop (position + 1) with
    | nil => simp [Regex.word]
    | cons next rest =>
      have hnext : characters.drop (position + 2) = rest := by
        rw [show position.val + 2 = position + 1 + 1 from rfl, ← List.drop_drop, hrest]
        rfl
      have hthird : characters.drop (position + 3) = rest.tail := by
        rw [show position.val + 3 = position + 2 + 1 from rfl, ← List.drop_drop, hnext,
          List.drop_one]
      simp only [List.head?_cons, getElem?_next, hnext, Regex.first_choice_cons,
        Regex.first_choice_nil, Regex.word, Regex.first_seq_set_cons, Regex.first_empty, caseless,
        decide_eq_true_eq]
      by_cases hone : next.toLower ∈ ['s', 't', 'm', 'd']
      · rw [if_pos hone, Option.map_some, hnext]
        simp only [List.mem_cons, List.not_mem_nil, or_false] at hone
        rcases hone with h | h | h | h <;> simp [h]
      · rw [if_neg hone]
        simp only [List.mem_cons, List.not_mem_nil, or_false, not_or] at hone
        cases rest with
        | nil => simp [hone, Regex.first_seq_set_nil]
        | cons last rest =>
          simp only [List.head?_cons, Regex.first_seq_set_cons, Regex.first_empty,
            caseless, decide_eq_true_eq, hone.1, hone.2.1, hone.2.2.1, hone.2.2.2, if_false, Option.none_or]
          rw [List.tail_cons] at hthird
          by_cases htwo : (next.toLower, last.toLower) ∈ [('r', 'e'), ('v', 'e'), ('l', 'l')]
          · rw [if_pos htwo, Option.map_some, hthird]
            simp only [List.mem_cons, List.not_mem_nil, or_false, Prod.mk.injEq] at htwo
            rcases htwo with h | h | h <;> simp [h]
          · rw [if_neg htwo]
            simp only [List.mem_cons, List.not_mem_nil, or_false, Prod.mk.injEq, not_or,
              not_and] at htwo
            simp only [Option.map_none]
            split_ifs <;> simp_all
  · rw [if_pos hquote, if_neg (by simpa using hquote)]
    rfl

variable (category : Char → GeneralCategory)

theorem letterEnd_first (hnewline : ∀ c, isNewline c → ¬ isLetter category c)
    (position : Fin characters.length) :
    (letterEnd category characters position).map characters.drop =
      (letterPattern category).first (characters.drop position) := by
  have hscan : characters.drop (scanWhile (isLetter category)
      (characters.drop (position + 1)) (position + 1)) =
      (characters.drop (position + 1)).dropWhile (isLetter category) := drop_scanWhile _ _
  rw [drop_position, letterPattern, Regex.first_seq_opt, Regex.first_seq_set_cons,
    Regex.first_plus_set_cons, ← hscan]
  unfold letterEnd
  dsimp only
  rw [getElem?_next]
  generalize characters.get position = c at *
  have hseparate : isLetter category c → isNumber category c = false := by
    unfold isLetter isNumber
    cases category c <;> decide
  have hlead : isLetter category c → isNewline c = false := fun hletter =>
    Bool.eq_false_iff.mpr fun hn => hnewline c hn hletter
  by_cases hletter : isLetter category c
  · simp [isLead, hletter, hseparate hletter, hlead hletter]
  · cases hrest : characters.drop (position + 1) with
    | nil => simp [hletter]
    | cons next rest =>
      rw [hrest] at hscan
      rw [Regex.first_plus_set_cons, hscan]
      by_cases hnext : isLetter category next
      · rw [List.dropWhile_cons_of_pos hnext]
        by_cases hn : isNewline c <;> by_cases hm : isNumber category c <;>
          simp [isLead, hletter, hnext, hn, hm, hscan]
      · simp [hletter, hnext]

theorem numberEnd_first (position : Fin characters.length) (digitLimit : Nat) :
    (numberEnd category characters position digitLimit).map characters.drop =
      (numberPattern category digitLimit).first (characters.drop position) := by
  rw [drop_position, numberPattern, Regex.first_seq_set_cons, first_upTo_scanWhile]
  unfold numberEnd
  generalize characters.get position = c
  by_cases hnumber : isNumber category c <;> simp [hnumber]

theorem first_punctuation (start : Nat) :
    (Regex.seq (.plus (.set (isPunctuationCharacter category))) (.star (.set isNewline))).first
        (characters.drop start) =
      if (characters[start]?).any (isPunctuationCharacter category) then
        some (characters.drop (scanWhile isNewline
          (characters.drop (scanWhile (isPunctuationCharacter category)
            (characters.drop start) start))
          (scanWhile (isPunctuationCharacter category) (characters.drop start) start)))
      else none := by
  rw [Regex.first_seq_total fun s => by rw [Regex.first_star_set]; exact Option.some_ne_none _,
    drop_scanWhile, drop_scanWhile, getElem?_next]
  cases characters.drop start with
  | nil => rfl
  | cons c rest =>
    rw [Regex.first_plus_set_cons, List.head?_cons, Option.any_some]
    by_cases hc : isPunctuationCharacter category c
    · rw [if_pos hc, if_pos hc, List.dropWhile_cons_of_pos hc, Option.bind_some,
        Regex.first_star_set]
    · rw [if_neg hc, if_neg hc]
      rfl

theorem punctuationEnd_first (position : Fin characters.length) :
    (punctuationEnd category characters position).map characters.drop =
      (punctuationPattern category).first (characters.drop position) := by
  have hspace : isPunctuationCharacter category ' ' = false := by
    simp [isPunctuationCharacter, isWhitespace]
  rw [punctuationPattern, Regex.first_seq_opt, first_punctuation]
  unfold punctuationEnd
  dsimp only
  by_cases hc : characters.get position = ' '
  · have hget : characters[position.val]? = some ' ' := by
      rw [List.getElem?_eq_getElem position.isLt]
      exact congrArg some hc
    rw [if_pos hc, drop_position, hc, Regex.first_seq_set_cons, first_punctuation, hget]
    by_cases hnext : (characters[position.val + 1]?).any (isPunctuationCharacter category)
    · simp [hnext]
    · simp [hnext, hspace]
  · have hnone (r : Regex Char) :
        (Regex.seq (.set (· = ' ')) r).first (characters.drop position) = none := by
      rw [drop_position, Regex.first_seq_set_cons, decide_eq_false hc]
      rfl
    rw [if_neg hc, hnone, Option.none_or]
    cases (characters[position.val]?).any (isPunctuationCharacter category) <;> rfl

/-! ## Runs of white space -/

theorem isWhitespace_of_isNewline {c : Char} (h : isNewline c) : isWhitespace c := by
  simp only [isNewline, Bool.or_eq_true, decide_eq_true_eq] at h
  rcases h with rfl | rfl <;> decide

theorem first_newline_cons (c : Char) (rest : List Char) :
    newlinePattern.first (c :: rest) =
      if isWhitespace c then
        (newlinePattern.first rest).or (if isNewline c then some (rest.dropWhile isNewline) else none)
      else none := by
  rw [newlinePattern, Regex.first_seq_star_set_cons, Regex.first_plus_set_cons]
  by_cases hwhite : isWhitespace c
  · rw [if_pos hwhite, if_pos hwhite]
  · rw [if_neg hwhite, if_neg hwhite, if_neg fun hn => hwhite (isWhitespace_of_isNewline hn)]

/-- Without a newline in the white space ahead, the next character is no newline. -/
theorem dropWhile_newline {rest : List Char} (h : newlinePattern.first rest = none) :
    rest.dropWhile isNewline = rest := by
  cases rest with
  | nil => rfl
  | cons c rest =>
    apply List.dropWhile_cons_of_neg
    intro hn
    rw [first_newline_cons, if_pos (isWhitespace_of_isNewline hn), if_pos hn] at h
    simp at h

/-- The scan remembers the position after the last newline of the white space. -/
theorem scanWhitespace_newline (rest : List Char) (stop : Nat) (lastNewline : Option Nat)
    (hrest : characters.drop stop = rest) :
    (scanWhitespace rest stop lastNewline).2.map characters.drop =
      (newlinePattern.first rest).or (lastNewline.map characters.drop) := by
  induction rest generalizing stop lastNewline with
  | nil =>
    rw [newlinePattern, Regex.first_seq_star_set_nil, Regex.first_plus_set_nil]
    rfl
  | cons c rest ih =>
    have hnext : characters.drop (stop + 1) = rest := by
      rw [← List.drop_drop, hrest]
      rfl
    rw [scanWhitespace, first_newline_cons]
    by_cases hwhite : isWhitespace c
    · rw [if_pos hwhite, if_pos hwhite, ih _ _ hnext]
      by_cases hn : isNewline c
      · rw [if_pos hn, if_pos hn, Option.map_some, hnext]
        cases hfirst : newlinePattern.first rest with
        | none => rw [dropWhile_newline hfirst]; rfl
        | some _ => rfl
      · rw [if_neg hn, if_neg hn, Option.or_none]
    · rw [if_neg hwhite, if_neg hwhite]
      rfl

theorem scanWhitespace_stop (rest : List Char) (stop : Nat) (lastNewline : Option Nat) :
    (scanWhitespace rest stop lastNewline).1 = stop + (rest.takeWhile isWhitespace).length := by
  induction rest generalizing stop lastNewline with
  | nil => rfl
  | cons c rest ih =>
    rw [scanWhitespace, List.takeWhile_cons]
    by_cases hwhite : isWhitespace c
    · rw [if_pos hwhite, if_pos hwhite, ih, List.length_cons]
      omega
    · rw [if_neg hwhite, if_neg hwhite]
      rfl

/-- White space not followed by another character gives its last character back, unless it ends
the text. -/
theorem first_trailing (rest : List Char) :
    (Regex.seq (.star (.set isWhitespace)) (.notAhead (.set fun c => !isWhitespace c))).first rest =
      if rest.dropWhile isWhitespace = [] then some []
      else if 0 < (rest.takeWhile isWhitespace).length then
        some (rest.drop ((rest.takeWhile isWhitespace).length - 1))
      else none := by
  induction rest with
  | nil => rw [Regex.first_seq_star_set_nil]; rfl
  | cons c rest ih =>
    have hahead : (Regex.notAhead (.set fun c => !isWhitespace c)).first (c :: rest) =
        if isWhitespace c then some (c :: rest) else none := by
      rw [Regex.first_notAhead, Regex.first_set_cons]
      by_cases hwhite : isWhitespace c <;> simp [hwhite]
    rw [Regex.first_seq_star_set_cons, hahead, ih]
    by_cases hwhite : isWhitespace c
    · rw [if_pos hwhite, List.dropWhile_cons_of_pos hwhite, List.takeWhile_cons_of_pos hwhite,
        List.length_cons, Nat.add_sub_cancel, if_pos hwhite]
      by_cases hend : rest.dropWhile isWhitespace = []
      · rw [if_pos hend, if_pos hend]
        rfl
      · rw [if_neg hend, if_neg hend, if_pos (Nat.succ_pos _)]
        cases hlength : (rest.takeWhile isWhitespace).length with
        | zero => rfl
        | succ length => rfl
    · rw [if_neg hwhite, if_neg hwhite, List.dropWhile_cons_of_neg hwhite,
        List.takeWhile_cons_of_neg hwhite]
      rfl

theorem drop_takeWhile_length (p : Char → Bool) (rest : List Char) :
    rest.drop (rest.takeWhile p).length = rest.dropWhile p := by
  induction rest with
  | nil => rfl
  | cons c rest ih =>
    rw [List.takeWhile_cons, List.dropWhile_cons]
    split_ifs
    · exact ih
    · rfl

theorem whitespaceEnd_first (position : Fin characters.length)
    (hwhite : isWhitespace (characters.get position)) :
    some (characters.drop (whitespaceEnd characters position)) =
      (newlinePattern.first (characters.drop position)).or
        ((trailingPattern.first (characters.drop position)).or
          (whitespacePattern.first (characters.drop position))) := by
  have hnewline := scanWhitespace_newline (characters.drop position) position none rfl
  have hstop := scanWhitespace_stop (characters.drop position) position none
  unfold whitespaceEnd
  cases hscan : scanWhitespace (characters.drop position) position none with
  | mk stop lastNewline =>
    rw [hscan] at hnewline hstop
    cases lastNewline with
    | some newline =>
      rw [Option.map_none, Option.or_none] at hnewline
      rw [← hnewline]
      rfl
    | none =>
      rw [Option.map_none, Option.or_none] at hnewline
      rw [← hnewline, Option.none_or]
      dsimp only at hstop ⊢
      rw [drop_position, List.takeWhile_cons_of_pos hwhite, List.length_cons] at hstop
      rw [drop_position, trailingPattern, Regex.plus, Regex.first_seq_assoc,
        Regex.first_seq_set_cons, if_pos hwhite, first_trailing, whitespacePattern,
        Regex.first_plus_set_cons, if_pos hwhite]
      have hdrop : characters.drop stop =
          (characters.drop (position + 1)).dropWhile isWhitespace := by
        rw [← drop_takeWhile_length, List.drop_drop, hstop]
        congr 1
        omega
      have hempty : characters.drop stop = [] ↔ characters.length ≤ stop := List.drop_eq_nil_iff
      rw [← hdrop]
      by_cases hlong : 1 < stop - position ∧ stop < characters.length
      · rw [if_pos hlong, if_neg (by rw [hempty]; omega), if_pos (by omega), List.drop_drop]
        rw [Option.some_or]
        congr 2
        omega
      · rw [if_neg hlong, if_pos (by omega)]
        by_cases hend : characters.length ≤ stop
        · rw [if_pos (hempty.mpr hend), hempty.mpr hend]
          rfl
        · rw [if_neg (by rw [hempty]; exact hend), if_neg (by omega), Option.none_or]

/-! ## The scanner matches the pattern -/

/-- A character that no earlier alternative takes is white space. -/
theorem isWhitespace_of_none {position : Fin characters.length} {digitLimit : Nat}
    (hletter : letterEnd category characters position = none)
    (hnumber : numberEnd category characters position digitLimit = none)
    (hpunctuation : punctuationEnd category characters position = none) :
    isWhitespace (characters.get position) := by
  have hget : characters[position.val]? = some (characters.get position) :=
    List.getElem?_eq_getElem position.isLt
  unfold letterEnd at hletter
  unfold numberEnd at hnumber
  unfold punctuationEnd at hpunctuation
  dsimp only at hletter hpunctuation
  by_contra hwhite
  have hspace : characters.get position ≠ ' ' := by
    intro hc
    rw [hc] at hwhite
    exact hwhite (by decide)
  rw [if_neg hspace, hget, Option.any_some] at hpunctuation
  generalize characters.get position = c at *
  have hn : isNewline c = false :=
    Bool.eq_false_iff.mpr fun h => hwhite (isWhitespace_of_isNewline h)
  have hm : isNumber category c = false := by simpa using hnumber
  have hl : isLetter category c = false := by
    by_contra hl
    simp [hn, hm, Bool.eq_true_of_not_eq_false hl] at hletter
  simp [isPunctuationCharacter, hm, hl, hwhite] at hpunctuation

theorem pieceEnd_first (hnewline : ∀ c, isNewline c → ¬ isLetter category c)
    (position : Fin characters.length) (digitLimit : Nat) :
    (splitPattern category digitLimit).first (characters.drop position) =
      some (characters.drop (pieceEnd category characters position digitLimit)) := by
  simp only [splitPattern, Regex.first_choice_cons, Regex.first_choice_nil, Option.or_none,
    ← contractionEnd_first, ← letterEnd_first category hnewline, ← numberEnd_first,
    ← punctuationEnd_first]
  unfold pieceEnd
  cases contractionEnd characters position with
  | some stop => rfl
  | none =>
    cases hletter : letterEnd category characters position with
    | some stop => rfl
    | none =>
      cases hnumber : numberEnd category characters position digitLimit with
      | some stop => rfl
      | none =>
        cases hpunctuation : punctuationEnd category characters position with
        | some stop => rfl
        | none =>
          exact (whitespaceEnd_first position
            (isWhitespace_of_none category hletter hnumber hpunctuation)).symm

theorem bpePieces_eq_findAll (hnewline : ∀ c, isNewline c → ¬ isLetter category c)
    (characters : List Char) (digitLimit position : Nat) :
    bpePieces category characters digitLimit position =
      (splitPattern category digitLimit).findAll (characters.drop position) := by
  fun_induction bpePieces category characters digitLimit position with
  | case1 position h stop ih =>
    have hbounds := pieceEnd_bounds category characters ⟨position, h⟩ digitLimit
    have hfirst := pieceEnd_first category hnewline ⟨position, h⟩ digitLimit
    dsimp only at hbounds hfirst
    have hlt : (characters.drop stop).length < (characters.drop position).length := by
      rw [List.length_drop, List.length_drop]
      omega
    have htaken : (characters.drop position).length - (characters.drop stop).length =
        stop - position := by
      rw [List.length_drop, List.length_drop]
      omega
    rw [Regex.findAll_of_first hfirst hlt, htaken, ih]
  | case2 position h => rw [List.drop_eq_nil_of_le (not_lt.mp h), Regex.findAll]

/-- Every word has a character. -/
theorem ne_nil_of_mem_bpePieces (characters : List Char) (digitLimit position : Nat) :
    ∀ piece ∈ bpePieces category characters digitLimit position, piece ≠ [] := by
  fun_induction bpePieces category characters digitLimit position with
  | case1 position h stop ih =>
    have hbounds := pieceEnd_bounds category characters ⟨position, h⟩ digitLimit
    intro piece hpiece
    rcases List.mem_cons.mp hpiece with rfl | hpiece
    · rw [← List.length_pos_iff_ne_nil, List.length_take, List.length_drop]
      dsimp only at hbounds
      omega
    · exact ih piece hpiece
  | case2 position h => exact fun _ hpiece => absurd hpiece List.not_mem_nil

end Scanner

/-- The split loses nothing, has no empty word, and finds the words that the pattern matches. -/
theorem bpeSplit_eq_findAll (category : Char → GeneralCategory)
    (hdisjoint : ∀ c, isWhitespace c → ¬ isLetter category c) (text : String) (digitLimit : Nat) :
    bpeSplit category text digitLimit =
        ((splitPattern category digitLimit).findAll text.toList).map String.ofList ∧
      (∀ piece ∈ bpeSplit category text digitLimit, piece ≠ "") ∧
      String.join (bpeSplit category text digitLimit) = text := by
  refine ⟨?_, ?_, ?_⟩
  · rw [bpeSplit, bpePieces_eq_findAll category
      fun c hc => hdisjoint c (isWhitespace_of_isNewline hc)]
    rfl
  · intro piece hpiece
    obtain ⟨characters, hcharacters, rfl⟩ := List.mem_map.mp hpiece
    have hne := ne_nil_of_mem_bpePieces category text.toList digitLimit 0 characters hcharacters
    intro hempty
    exact hne (by simpa using congrArg String.toList hempty)
  · apply String.toList_injective
    have hflat := flatten_bpePieces category text.toList digitLimit 0
    rw [String.toList_join, bpeSplit, List.flatMap_map]
    simp only [String.toList_ofList]
    exact List.flatMap_id'.trans hflat

/-- The categories of the ASCII letters and digits. -/
def alphanumericCategory (character : Char) : GeneralCategory :=
  if character.isDigit then .decimalNumber else asciiCategory character

theorem alphanumericCategory_disjoint (c : Char) (hwhite : isWhitespace c) :
    ¬ isLetter alphanumericCategory c := by
  have halpha : ¬ c.isAlpha = true := by
    intro halpha
    simp only [isWhitespace, Bool.or_eq_true, Bool.and_eq_true, decide_eq_true_eq,
      Char.toNat] at hwhite
    simp only [Char.isAlpha, Char.isUpper, Char.isLower, Bool.or_eq_true, Bool.and_eq_true,
      decide_eq_true_eq, ge_iff_le, UInt32.le_iff_toNat_le] at halpha
    have hbounds : 'A'.val.toNat = 65 ∧ 'Z'.val.toNat = 90 ∧ 'a'.val.toNat = 97 ∧
        'z'.val.toNat = 122 := by decide
    omega
  unfold isLetter alphanumericCategory asciiCategory
  rw [if_neg halpha]
  split_ifs <;> decide

theorem bpeSplit_eq_findAll_alphanumeric :
    bpeSplit alphanumericCategory "Hello,  world\n42's" 1 =
        ((splitPattern alphanumericCategory 1).findAll "Hello,  world\n42's".toList).map
          String.ofList ∧
      (∀ piece ∈ bpeSplit alphanumericCategory "Hello,  world\n42's" 1, piece ≠ "") ∧
      String.join (bpeSplit alphanumericCategory "Hello,  world\n42's" 1) =
        "Hello,  world\n42's" :=
  bpeSplit_eq_findAll alphanumericCategory alphanumericCategory_disjoint "Hello,  world\n42's" 1

example : bpeSplit alphanumericCategory "Hello,  world\n42's" 1 =
    ["Hello", ",", " ", " world", "\n", "4", "2", "'s"] := by decide +kernel

example : bpeSplit alphanumericCategory "1234567" 3 = ["123", "456", "7"] := by decide +kernel

end Leone.Text

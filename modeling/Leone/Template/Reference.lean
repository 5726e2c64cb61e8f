import Leone.Template.Reader
import Leone.Template.Walk

/-!
# A printer and a parser of JSON

The reader and the compact printer together. What the reader reads it also reads in a longer text, so
it does not read the front of an object.
-/

namespace Leone.Template

open Text

/-! ## Reading a longer text -/

theorem readLiteral_append {place : ReadPlace} {text chars rest : List Char}
    (h : readLiteral place text = some (chars, rest)) (tail : List Char) :
    readLiteral place (text ++ tail) = some (chars, rest ++ tail) := by
  have hmap : ∀ {place : ReadPlace} {text : List Char} {f : List Char → List Char}
      {chars rest : List Char},
      (∀ {chars rest : List Char}, readLiteral place text = some (chars, rest) →
        readLiteral place (text ++ tail) = some (chars, rest ++ tail)) →
      (readLiteral place text).map (fun read => (f read.1, read.2)) = some (chars, rest) →
      (readLiteral place (text ++ tail)).map (fun read => (f read.1, read.2)) =
        some (chars, rest ++ tail) := by
    intro place text f chars rest hstep h
    rcases Option.map_eq_some_iff.mp h with ⟨read, hread, heq⟩
    cases heq
    rw [hstep hread]
    rfl
  induction text generalizing place chars rest with
  | nil => cases place <;> simp [readLiteral] at h
  | cons c text ih =>
    rw [List.cons_append]
    cases place with
    | plain =>
      rw [readLiteral] at h ⊢
      split_ifs at h ⊢ with hquote hbackslash
      · cases h
        rfl
      · exact ih h
      · exact hmap ih h
    | escape =>
      rw [readLiteral] at h ⊢
      split_ifs at h ⊢ with hletter
      · exact ih h
      · cases hescape : unescape c with
        | none =>
          rw [hescape] at h
          cases h
        | some d =>
          rw [hescape, Option.bind_some] at h
          exact hmap ih h
    | hex more value =>
      cases more with
      | zero =>
        rw [readLiteral] at h ⊢
        exact hmap ih h
      | succ more =>
        rw [readLiteral] at h ⊢
        exact ih h

theorem skip_append {text : List Char} (h : skip text ≠ []) (tail : List Char) :
    skip (text ++ tail) = skip text ++ tail := by
  induction text with
  | nil => exact absurd rfl h
  | cons c text ih =>
    rw [List.cons_append, skip, List.dropWhile_cons]
    rw [skip, List.dropWhile_cons] at h ⊢
    split_ifs at h ⊢ with hc
    · exact ih h
    · rfl

/-- A reader that reads on in a longer text, unless it stopped at the end of the text. -/
structure ReadsOn {α : Type} (read longer : List Char → Option (α × List Char)) : Prop where
  nil : read [] = none
  append : ∀ text x rest, read text = some (x, rest) → rest ≠ [] → ∀ tail,
    longer (text ++ tail) = some (x, rest ++ tail)

section Items

variable {α : Type} {read longer : List Char → Option (α × List Char)} {closing : Char}

/-- A reader that has read an item in front of more text reads it in a longer text. -/
theorem ReadsOn.skip (h : ReadsOn read longer) {text rest : List Char} {x : α}
    (hread : read (skip text) = some (x, rest)) (hrest : rest ≠ []) (tail : List Char) :
    longer (skip (text ++ tail)) = some (x, rest ++ tail) := by
  have hne : Template.skip text ≠ [] := by
    intro hnil
    rw [hnil, h.nil] at hread
    cases hread
  rw [skip_append hne]
  exact h.append _ _ _ hread hrest tail

theorem readItems_append (h : ReadsOn read longer) {turns turns' : Nat} (hturns : turns ≤ turns')
    {text : List Char} {xs : List α} {rest : List Char}
    (hitems : readItems read closing turns text = some (xs, rest)) (tail : List Char) :
    readItems longer closing turns' (text ++ tail) = some (xs, rest ++ tail) := by
  induction turns generalizing turns' text xs with
  | zero => cases hitems
  | succ turns ih =>
    cases turns' with
    | zero => omega
    | succ turns' =>
      rw [readItems] at hitems ⊢
      rcases Option.bind_eq_some_iff.mp hitems with ⟨item, hitem, hnext⟩
      cases hskip : skip item.2 with
      | nil =>
        rw [hskip] at hnext
        cases hnext
      | cons c after =>
        have hne : item.2 ≠ [] := by
          intro hnil
          rw [hnil] at hskip
          cases hskip
        have hlong : skip (item.2 ++ tail) = c :: (after ++ tail) := by
          rw [skip_append (by rw [hskip]; exact List.cons_ne_nil c after), hskip, List.cons_append]
        rw [h.skip hitem hne, Option.bind_some, hlong]
        rw [hskip] at hnext
        simp only at hnext ⊢
        split_ifs at hnext ⊢ with hcomma hclosing
        · rcases Option.map_eq_some_iff.mp hnext with ⟨items, hmore, heq⟩
          cases heq
          rw [ih (by omega) hmore]
          rfl
        · cases hnext
          rfl

theorem readBracket_append (h : ReadsOn read longer) {text : List Char} {xs : List α}
    {rest : List Char} (hbracket : readBracket read closing text = some (xs, rest))
    (tail : List Char) :
    readBracket longer closing (text ++ tail) = some (xs, rest ++ tail) := by
  rw [readBracket] at hbracket ⊢
  cases hskip : skip text with
  | nil =>
    rw [hskip] at hbracket
    cases hbracket
  | cons c after =>
    rw [skip_append (by rw [hskip]; exact List.cons_ne_nil c after), hskip]
    rw [hskip] at hbracket
    simp only [List.cons_append] at hbracket ⊢
    split_ifs at hbracket ⊢ with hclosing
    · cases hbracket
      rfl
    · exact readItems_append h (by rw [List.length_append]; omega) hbracket tail

end Items

theorem readField_append {read longer : List Char → Option (Value × List Char)}
    (h : ReadsOn read longer) : ReadsOn (readField read) (readField longer) where
  nil := rfl
  append := by
    intro text x rest hfield hrest tail
    cases text with
    | nil => cases hfield
    | cons c text =>
      rw [List.cons_append, readField]
      rw [readField] at hfield
      split_ifs at hfield ⊢ with hquote
      rcases Option.bind_eq_some_iff.mp hfield with ⟨key, hkey, hnext⟩
      rw [readLiteral_append hkey, Option.bind_some]
      cases hskip : skip key.2 with
      | nil =>
        rw [hskip] at hnext
        cases hnext
      | cons d after =>
        have hlong : skip (key.2 ++ tail) = d :: (after ++ tail) := by
          rw [skip_append (by rw [hskip]; exact List.cons_ne_nil d after), hskip, List.cons_append]
        rw [hlong]
        rw [hskip] at hnext
        simp only at hnext ⊢
        split_ifs at hnext ⊢ with hcolon
        rcases Option.map_eq_some_iff.mp hnext with ⟨value, hvalue, heq⟩
        cases heq
        rw [h.skip hvalue hrest]
        rfl

theorem readNumber_append {text rest : List Char} {value : Value}
    (h : readNumber text = some (value, rest)) (hrest : rest ≠ []) (tail : List Char) :
    readNumber (text ++ tail) = some (value, rest ++ tail) := by
  rw [readNumber] at h ⊢
  split_ifs at h with hdigits
  cases h
  have hstops : Stops (text.dropWhile isNumberChar ++ tail) := by
    intro c hc
    rw [List.head?_append_of_ne_nil _ hrest] at hc
    have hhead := List.head?_dropWhile_not isNumberChar text
    rw [Option.mem_def.mp hc] at hhead
    exact hhead
  have hsplit : text ++ tail = text.takeWhile isNumberChar ++ (text.dropWhile isNumberChar ++ tail) := by
    rw [← List.append_assoc, List.takeWhile_append_dropWhile]
  have hall : ∀ c ∈ text.takeWhile isNumberChar, isNumberChar c := fun c hc =>
    List.all_eq_true.mp List.all_takeWhile c hc
  have hnumber := takeWhile_number hall hstops
  rw [hsplit, hnumber.1, hnumber.2, if_neg hdigits]

theorem readWord_append {word text rest : List Char} {value read : Value}
    (h : readWord word value text = some (read, rest)) (tail : List Char) :
    readWord word value (text ++ tail) = some (read, rest ++ tail) := by
  rw [readWord] at h ⊢
  split_ifs at h with hword
  cases h
  have hstarts : word <+: text := List.isPrefixOf_iff_prefix.mp hword
  rw [if_pos (List.isPrefixOf_iff_prefix.mpr (hstarts.trans (List.prefix_append text tail))),
    List.drop_append_of_le_length hstarts.length_le]

/-- The reader reads a value in a longer text, and an object also where the text ends with it. -/
theorem readValue_append {fuel fuel' : Nat} (hfuel : fuel ≤ fuel') {text rest : List Char}
    {value : Value} (h : readValue fuel text = some (value, rest))
    (hrest : rest ≠ [] ∨ text.head? = some '\x7b') (tail : List Char) :
    readValue fuel' (text ++ tail) = some (value, rest ++ tail) := by
  induction fuel generalizing fuel' text value rest tail with
  | zero => cases h
  | succ fuel ih =>
    cases fuel' with
    | zero => omega
    | succ fuel' =>
      have hon : ReadsOn (readValue fuel) (readValue fuel') := by
        constructor
        · cases fuel <;> rfl
        · intro text x rest hread hne tail
          exact ih (Nat.le_of_succ_le_succ hfuel) hread (.inl hne) tail
      cases text with
      | nil => cases h
      | cons c text =>
        rw [List.cons_append, readValue]
        rw [readValue] at h
        split_ifs at h ⊢ with hquote harray hobject hnull htrue hfalse
        · rcases Option.map_eq_some_iff.mp h with ⟨read, hread, heq⟩
          cases heq
          rw [readLiteral_append hread]
          rfl
        · rcases Option.map_eq_some_iff.mp h with ⟨read, hread, heq⟩
          cases heq
          rw [readBracket_append hon hread]
          rfl
        · rcases Option.map_eq_some_iff.mp h with ⟨read, hread, heq⟩
          cases heq
          rw [readBracket_append (readField_append hon) hread]
          rfl
        · exact readWord_append h tail
        · exact readWord_append h tail
        · exact readWord_append h tail
        · rcases hrest with hne | hhead
          · exact readNumber_append h hne tail
          · exact absurd (Option.some.inj hhead) hobject

/-! ## The reader as a printer and parser of JSON -/

mutual

/-- Whether the numbers of a value can be written and its keys are in order. -/
def Value.sound : Value → Bool
  | .number text => text.toList.all isNumberChar && text ≠ ""
  | .array values => soundValues values
  | .object entries => decide ((entries.map Prod.fst).Pairwise (· < ·)) && soundFields entries
  | _ => true

def soundValues : List Value → Bool
  | [] => true
  | value :: values => value.sound && soundValues values

def soundFields : List (String × Value) → Bool
  | [] => true
  | (_, value) :: entries => value.sound && soundFields entries

end

/-- The walk over a text, by the value that is read from it. -/
def walkText (text : List Char) : Except String Unit :=
  match readText text with
  | none => .error "invalid JSON"
  | some value =>
    if value.sound then
      match visit 0 value 0 with
      | .ok _ => .ok ()
      | .error .nodeLimit => .error "JSON input exceeds the node limit"
      | .error .depthLimit => .error "JSON input exceeds the depth limit"
      | .error (.duplicateField key) => .error ("duplicate JSON field " ++ key)
    else .error "duplicate JSON field"

/-- The reader and the compact printer. -/
def referenceJson : SerdeJson :=
  { toString := fun value => String.ofList (compact value)
    fromStr := fun text => readText text.toList
    contentParts := fun _ => none
    rejectDuplicateKeys := fun text => walkText text.toList }

theorem compactValues_eq (values : List Value) : compactValues values = values.map compact := by
  induction values with
  | nil => rfl
  | cons value values ih => rw [compactValues, ih, List.map_cons]

theorem compactFields_eq (entries : List (String × Value)) :
    compactFields entries = entries.map fun entry => literal entry.1 ++ ':' :: compact entry.2 := by
  induction entries with
  | nil => rfl
  | cons entry entries ih => rw [compactFields, ih, List.map_cons]

theorem compact_layout {depth : Nat} {value : Value} (hsize : sizeOf value ≤ depth) :
    Layout NoGap depth value (compact value) := by
  induction depth generalizing value with
  | zero => cases value <;> simp at hsize
  | succ depth ih =>
    cases value with
    | null => rfl
    | bool value => rfl
    | number text => rfl
    | string text => rfl
    | array values =>
      simp only [Value.array.sizeOf_spec] at hsize
      refine ⟨values.map compact, ?_, by rw [compact, compactValues_eq]⟩
      rw [List.forall₂_map_right_iff]
      apply List.forall₂_same.mpr
      intro value hvalue
      have hlt := List.sizeOf_lt_of_mem hvalue
      exact ⟨[], _, [], rfl, rfl, ih (by omega), by simp⟩
    | object entries =>
      simp only [Value.object.sizeOf_spec] at hsize
      refine ⟨entries, _, .refl entries, ?_, by rw [compact, compactFields_eq]⟩
      rw [List.forall₂_map_right_iff]
      apply List.forall₂_same.mpr
      intro entry hentry
      have hlt := List.sizeOf_lt_of_mem hentry
      have hvalue : sizeOf entry.2 < sizeOf entry := by
        cases entry
        simp
      exact ⟨[], [], _, [], rfl, rfl, rfl, ih (by omega), by simp⟩

theorem readValue_lays {json : SerdeJson} {value : Value} {text : String}
    (hvalid : value.Valid json) (h : Lays Blank value text) :
    skip text.toList = text.toList ∧
      readValue (text.toList.length + 1) text.toList = some (value, []) := by
  rcases h with ⟨depth, hlayout⟩
  have hstops : Stops [] := fun c hc => by cases hc
  have hskip := skip_layout hvalid hlayout []
  have hread := readValue_layout hvalid hlayout (Nat.lt_succ_self _) hstops
  rw [List.append_nil] at hskip hread
  exact ⟨hskip, hread⟩

theorem readText_lays {json : SerdeJson} {value : Value} {text : String}
    (hvalid : value.Valid json) (h : Lays Blank value text) : readText text.toList = some value := by
  rcases readValue_lays hvalid h with ⟨hskip, hread⟩
  rw [readText, hskip, hread, Option.bind_some, if_pos (by rfl)]

/-- The front of the text of an object is not read. -/
theorem readText_cut {json : SerdeJson} {entries : List (String × Value)} {text front : String}
    (hvalid : (Value.object entries).Valid json) (h : Lays Blank (.object entries) text)
    (hfront : front.toList <+: text.toList) (hne : front ≠ text) : readText front.toList = none := by
  have hopen : ∃ rest, text.toList = '\x7b' :: rest := by
    rcases h with ⟨depth, hlayout⟩
    cases depth with
    | zero => exact hlayout.elim
    | succ depth =>
      rcases hlayout with ⟨fields, items, -, -, heq⟩
      exact ⟨_, heq⟩
  rcases hfront with ⟨tail, htail⟩
  rcases hopen with ⟨rest, hrest⟩
  cases hcons : front.toList with
  | nil => rfl
  | cons c chars =>
    have hc : c = '\x7b' := by
      rw [hcons, hrest, List.cons_append] at htail
      exact (List.cons.inj htail).1
    have hskip : skip (c :: chars) = c :: chars := skip_cons (by rw [hc]; rfl) chars
    cases hread : readValue ((c :: chars).length + 1) (c :: chars) with
    | none => rw [readText, hskip, hread, Option.bind_none]
    | some read =>
      exfalso
      have hlonger : readValue (text.toList.length + 1) ((c :: chars) ++ tail) =
          some (read.1, read.2 ++ tail) := by
        apply readValue_append _ hread (.inr (by rw [hc]; rfl))
        rw [← htail, hcons, List.length_append]
        omega
      rw [← hcons, htail, (readValue_lays hvalid h).2] at hlonger
      have hnil := (Prod.mk.inj (Option.some.inj hlonger)).2
      rw [(List.append_eq_nil_iff.mp hnil.symm).2, List.append_nil] at htail
      exact hne (String.toList_injective htail)

/-- The reader and the printer satisfy what is taken from `serde_json`. -/
theorem referenceJson_faithful : referenceJson.Faithful where
  prints := by
    intro value _
    refine ⟨sizeOf value, ?_⟩
    show Layout NoGap _ value (String.ofList (compact value)).toList
    rw [String.toList_ofList]
    exact compact_layout le_rfl
  parses := fun _ _ hvalid h => readText_lays hvalid h

theorem soundValues_iff {values : List Value} :
    soundValues values = true ↔ ∀ value ∈ values, value.sound = true := by
  induction values with
  | nil => simp [soundValues]
  | cons value values ih => rw [soundValues, Bool.and_eq_true, ih, List.forall_mem_cons]

theorem soundFields_iff {entries : List (String × Value)} :
    soundFields entries = true ↔ ∀ entry ∈ entries, entry.2.sound = true := by
  induction entries with
  | nil => simp [soundFields]
  | cons entry entries ih => rw [soundFields, Bool.and_eq_true, ih, List.forall_mem_cons]

/-- A number is read as it is written. -/
theorem readText_number {text : String} (hchars : ∀ c ∈ text.toList, isNumberChar c)
    (hne : text ≠ "") : readText text.toList = some (.number text) := by
  let echo : SerdeJson := { referenceJson with fromStr := fun text => some (.number text) }
  have hvalid : (Value.number text).Valid echo := ⟨hchars, hne, rfl⟩
  exact readText_lays hvalid ⟨1, rfl⟩

theorem sound_iff (value : Value) : value.sound = true ↔ value.Valid referenceJson := by
  induction value using Value.nested with
  | null => simp [Value.sound, Value.Valid]
  | bool value => simp [Value.sound, Value.Valid]
  | string text => simp [Value.sound, Value.Valid]
  | number text =>
    rw [Value.sound, Bool.and_eq_true, List.all_eq_true, decide_eq_true_eq]
    constructor
    · intro h
      exact ⟨h.1, h.2, readText_number h.1 h.2⟩
    · intro h
      exact ⟨h.1, h.2.1⟩
  | array values ih =>
    rw [Value.sound, soundValues_iff, Value.Valid, validValues_iff]
    exact forall₂_congr ih
  | object entries ih =>
    rw [Value.sound, Bool.and_eq_true, decide_eq_true_eq, soundFields_iff, Value.Valid,
      validFields_iff]
    exact and_congr_right fun _ => forall₂_congr ih

theorem walkText_eq_ok {text : List Char} :
    walkText text = .ok () ↔
      ∃ value, readText text = some value ∧ value.sound = true ∧ Accepted value := by
  unfold walkText Accepted
  cases readText text with
  | none => simp
  | some value =>
    by_cases hsound : value.sound = true
    · cases hvisit : visit 0 value 0 with
      | ok nodes => simp [hsound, hvisit]
      | error e => cases e <;> simp [hsound, hvisit]
    · simp [hsound]

end Leone.Template

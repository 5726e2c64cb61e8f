import Leone.Template.Spacing

/-!
# The formats of prompt JSON

The printers of the official templates sort the fields of objects and place their own white space.
Every text they write is a layout of the value, and the spaced texts are if the strings are ASCII.
-/

namespace Leone.Template

open Text

/-! ## The parts of the printers -/

theorem toList_intercalate (texts : List String) :
    (",".intercalate texts).toList = commas (texts.map String.toList) := by
  induction texts with
  | nil => rw [String.intercalate_nil]; rfl
  | cons text texts ih =>
    cases texts with
    | nil => rw [String.intercalate_singleton, List.map_singleton, commas_singleton]
    | cons other texts =>
      rw [String.intercalate_cons_cons, String.toList_append, String.toList_append, ih,
        List.map_cons, List.map_cons, List.map_cons, commas_cons_cons, List.append_assoc]
      rfl

theorem officialFields_eq (json : SerdeJson) (entries : List (String × Value)) :
    officialFields json entries = entries.map fun entry => (entry.1, officialJson json entry.2) := by
  induction entries with
  | nil => rw [officialFields, List.map_nil]
  | cons entry entries ih => rw [officialFields, ih, List.map_cons]

theorem officialJsons_eq (json : SerdeJson) (values : List Value) :
    officialJsons json values = values.map (officialJson json) := by
  induction values with
  | nil => rw [officialJsons, List.map_nil]
  | cons value values ih => rw [officialJsons, ih, List.map_cons]

theorem prettyFields_eq (json : SerdeJson) (level : Nat) (entries : List (String × Value)) :
    prettyFields json level entries =
      entries.map fun entry => (entry.1, prettyOfficialJsonAt json level entry.2) := by
  induction entries with
  | nil => rw [prettyFields, List.map_nil]
  | cons entry entries ih => rw [prettyFields, ih, List.map_cons]

theorem prettyValues_eq (json : SerdeJson) (level : Nat) (values : List Value) :
    prettyValues json level values = values.map (prettyOfficialJsonAt json level) := by
  induction values with
  | nil => rw [prettyValues, List.map_nil]
  | cons value values ih => rw [prettyValues, ih, List.map_cons]

/-- Sorting the written fields sorts the entries. -/
theorem sortFields_entries {print : Value → String} {S : String × Value → List Char → Prop}
    {write : String × String → List Char} {entries : List (String × Value)}
    (h : ∀ entry ∈ entries, S entry (write (entry.1, print entry.2))) :
    ∃ fields, fields.Perm entries ∧ List.Forall₂ S fields
      ((sortFields (entries.map fun entry => (entry.1, print entry.2))).map write) := by
  have hsorted : (sortFields (entries.map fun entry => (entry.1, print entry.2))).Perm
      (entries.map fun entry => (entry.1, print entry.2)) := List.mergeSort_perm _ _
  have hsame : List.Forall₂ (fun (field : String × String) (entry : String × Value) =>
      field = (entry.1, print entry.2)) (entries.map fun entry => (entry.1, print entry.2)) entries := by
    rw [List.forall₂_map_left_iff]
    exact List.forall₂_same.mpr fun _ _ => rfl
  rcases List.perm_comp_forall₂ hsorted hsame with ⟨fields, hfields, hperm⟩
  refine ⟨fields, hperm, ?_⟩
  rw [List.forall₂_map_right_iff]
  have hall : ∀ entry ∈ fields, S entry (write (entry.1, print entry.2)) :=
    fun entry hentry => h entry (hperm.mem_iff.mp hentry)
  clear hsorted hsame hperm
  generalize sortFields (entries.map fun entry => (entry.1, print entry.2)) = sorted at hfields
  induction hfields with
  | nil => exact .nil
  | cons hfield _ ih =>
    rw [List.forall_mem_cons] at hall
    exact .cons (hfield ▸ hall.1) (ih hall.2)

theorem scalar_cases (value : Value) :
    (∃ values, value = .array values) ∨ (∃ entries, value = .object entries) ∨
      (∀ values, value ≠ .array values) ∧ ∀ entries, value ≠ .object entries := by
  cases value <;> simp

section Scalar

variable {json : SerdeJson} {value : Value} (harray : ∀ values, value ≠ .array values)
  (hobject : ∀ entries, value ≠ .object entries)

include harray hobject

theorem officialJson_scalar : officialJson json value = json.toString value := by
  rw [officialJson]
  · exact hobject
  · exact harray

theorem prettyOfficialJsonAt_scalar (level : Nat) :
    prettyOfficialJsonAt json level value = json.toString value := by
  rw [prettyOfficialJsonAt]
  · exact hobject
  · exact harray

end Scalar

section Faithful

variable {json : SerdeJson} (hjson : json.Faithful)

include hjson

/-- A key is written as a literal. -/
theorem toString_key (key : String) : (json.toString (.string key)).toList = literal key := by
  rcases hjson.prints (.string key) trivial with ⟨depth, hlayout⟩
  cases depth with
  | zero => exact hlayout.elim
  | succ depth => exact hlayout

/-- The text of a value without parts is a layout at every depth. -/
theorem toString_scalar {value : Value} (hvalid : value.Valid json)
    (harray : ∀ values, value ≠ .array values) (hobject : ∀ entries, value ≠ .object entries)
    (gaps : List Char → Prop) (depth : Nat) :
    Layout gaps (depth + 1) value (json.toString value).toList := by
  rcases hjson.prints value hvalid with ⟨bound, hlayout⟩
  cases bound with
  | zero => exact hlayout.elim
  | succ bound =>
    cases value with
    | array values => exact absurd rfl (harray values)
    | object entries => exact absurd rfl (hobject entries)
    | null => exact hlayout
    | bool value => exact hlayout
    | number value => exact hlayout
    | string value => exact hlayout

theorem officialJson_layout {depth : Nat} {value : Value} (hsize : sizeOf value ≤ depth)
    (hvalid : value.Valid json) : Layout NoGap depth value (officialJson json value).toList := by
  induction depth generalizing value with
  | zero => cases value <;> simp at hsize
  | succ depth ih =>
    rcases scalar_cases value with ⟨values, rfl⟩ | ⟨entries, rfl⟩ | ⟨harray, hobject⟩
    · refine ⟨values.map fun value => (officialJson json value).toList, ?_, ?_⟩
      · rw [List.forall₂_map_right_iff]
        apply List.forall₂_same.mpr
        intro value hvalue
        have hlt := List.sizeOf_lt_of_mem hvalue
        have hvalid := validValues_iff.mp hvalid value hvalue
        simp only [Value.array.sizeOf_spec] at hsize
        exact ⟨[], _, [], rfl, rfl, ih (by omega) hvalid, by simp⟩
      · rw [officialJson, officialJsonArray, officialJsons_eq, String.toList_append,
          String.toList_append, toList_intercalate, List.map_map]
        rfl
    · have hfield : ∀ entry ∈ entries, FieldLayout NoGap (Layout NoGap depth) entry
          (json.toString (.string entry.1) ++ ":" ++ officialJson json entry.2).toList := by
        intro entry hentry
        have hlt := List.sizeOf_lt_of_mem hentry
        have hvalid := validFields_iff.mp hvalid.2 entry hentry
        simp only [Value.object.sizeOf_spec] at hsize
        have hvalue : sizeOf entry.2 < sizeOf entry := by
          cases entry
          simp
        refine ⟨[], [], _, [], rfl, rfl, rfl, ih (by omega) hvalid, ?_⟩
        rw [String.toList_append, String.toList_append, toString_key hjson]
        simp
      have hsorted : ∃ fields : List (String × Value), fields.Perm entries ∧
          List.Forall₂ (FieldLayout NoGap (Layout NoGap depth)) fields
            ((sortFields (entries.map fun entry => (entry.1, officialJson json entry.2))).map
              fun field => (json.toString (.string field.1) ++ ":" ++ field.2).toList) :=
        sortFields_entries hfield
      rcases hsorted with ⟨fields, hperm, hfields⟩
      refine ⟨fields, _, hperm, hfields, ?_⟩
      rw [officialJson, officialJsonObject, officialFields_eq, String.toList_append,
        String.toList_append, toList_intercalate, List.map_map]
      rfl
    · rw [officialJson_scalar harray hobject]
      exact toString_scalar hjson hvalid harray hobject _ _

end Faithful

/-! ## Indented brackets -/

/-- The lines of a bracket with their indent, the last one with what is in front of the bracket. -/
def padLines (indent closing : List Char) : List (List Char) → List (List Char)
  | [] => []
  | [line] => ['\n' :: (indent ++ line ++ '\n' :: closing)]
  | line :: lines => ('\n' :: (indent ++ line)) :: padLines indent closing lines

theorem padLines_cons_cons (indent closing line other : List Char) (lines : List (List Char)) :
    padLines indent closing (line :: other :: lines) =
      ('\n' :: (indent ++ line)) :: padLines indent closing (other :: lines) := rfl

theorem indentedLines_commas (level : Nat) (closing : List Char) {lines : List String}
    (hne : lines ≠ []) :
    '\n' :: ((indentedLines level lines).toList ++ closing) =
      commas (padLines (appendJsonIndent level).toList closing (lines.map String.toList)) := by
  induction lines with
  | nil => exact absurd rfl hne
  | cons line lines ih =>
    cases lines with
    | nil =>
      rw [List.map_singleton, padLines, commas_singleton, indentedLines, String.toList_append,
        String.toList_append]
      simp
    | cons other lines =>
      rw [List.map_cons, List.map_cons, padLines_cons_cons]
      have hrest := ih (List.cons_ne_nil other lines)
      cases hpad : padLines (appendJsonIndent level).toList closing
          ((other :: lines).map String.toList) with
      | nil =>
        rw [hpad] at hrest
        cases hrest
      | cons first others =>
        rw [List.map_cons] at hpad
        rw [hpad, commas_cons_cons, ← hpad, ← List.map_cons, ← hrest, indentedLines]
        · simp only [String.toList_append, List.append_assoc, List.cons_append]
          rfl
        · exact fun h => by cases h

theorem forall₂_padLines {α : Type} {S T : α → List Char → Prop} {indent closing : List Char}
    (hline : ∀ x line, S x line → T x ('\n' :: (indent ++ line)))
    (hlast : ∀ x line, S x line → T x ('\n' :: (indent ++ line ++ '\n' :: closing)))
    {xs : List α} {lines : List (List Char)} (h : List.Forall₂ S xs lines) :
    List.Forall₂ T xs (padLines indent closing lines) := by
  induction h with
  | nil => exact .nil
  | cons hx hrest ih =>
    cases hrest with
    | nil => exact .cons (hlast _ _ hx) .nil
    | cons _ _ => exact .cons (hline _ _ hx) ih

theorem blank_indent (level : Nat) : Blank (appendJsonIndent level).toList := by
  induction level with
  | zero => exact fun c hc => by cases hc
  | succ level ih =>
    rw [appendJsonIndent, String.toList_append]
    intro c hc
    rcases List.mem_append.mp hc with hc | hc
    · exact .inl (forall_chars (p := (· = ' ')) (by decide : "    ".toList.all (· = ' ')) c hc)
    · exact ih c hc

theorem blank_line {gap : List Char} (h : Blank gap) : Blank ('\n' :: gap) :=
  List.forall_mem_cons.mpr ⟨.inr rfl, h⟩

/-- The text of a bracket by its padded lines. -/
theorem toList_indentedBracket (opening closing : String) (level : Nat) (lines : List String) :
    (indentedBracket opening closing level lines).toList = opening.toList ++
      (commas (padLines (appendJsonIndent (level + 1)).toList (appendJsonIndent level).toList
        (lines.map String.toList)) ++ closing.toList) := by
  cases lines with
  | nil => rw [indentedBracket, String.toList_append]; rfl
  | cons line lines =>
    rw [← indentedLines_commas _ _ (List.cons_ne_nil line lines), indentedBracket]
    · simp only [String.toList_append, List.append_assoc, List.cons_append]
      rfl
    · exact fun h => by cases h

/-- A line of an object. -/
def FieldLine (layout : Value → List Char → Prop) (entry : String × Value) (line : List Char) :
    Prop :=
  ∃ inner, layout entry.2 inner ∧ line = literal entry.1 ++ ':' :: ' ' :: inner

section Pretty

variable {json : SerdeJson} (hjson : json.Faithful)

include hjson

theorem prettyOfficialJsonAt_layout {depth : Nat} {value : Value} (hsize : sizeOf value ≤ depth)
    (level : Nat) (hvalid : value.Valid json) :
    Layout Blank depth value (prettyOfficialJsonAt json level value).toList := by
  have hnone : Blank [] := fun c hc => by cases hc
  induction depth generalizing value level with
  | zero => cases value <;> simp at hsize
  | succ depth ih =>
    rcases scalar_cases value with ⟨values, rfl⟩ | ⟨entries, rfl⟩ | ⟨harray, hobject⟩
    · have hitems : List.Forall₂ (Layout Blank depth) values
          (values.map fun value => (prettyOfficialJsonAt json (level + 1) value).toList) := by
        rw [List.forall₂_map_right_iff]
        apply List.forall₂_same.mpr
        intro value hvalue
        have hlt := List.sizeOf_lt_of_mem hvalue
        simp only [Value.array.sizeOf_spec] at hsize
        exact ih (by omega) _ (validValues_iff.mp hvalid value hvalue)
      refine ⟨padLines (appendJsonIndent (level + 1)).toList (appendJsonIndent level).toList
        (values.map fun value => (prettyOfficialJsonAt json (level + 1) value).toList), ?_, ?_⟩
      · apply forall₂_padLines _ _ hitems
        · intro value line hline
          exact ⟨_, line, [], blank_line (blank_indent (level + 1)), hnone, hline, by simp⟩
        · intro value line hline
          exact ⟨_, line, _, blank_line (blank_indent (level + 1)), blank_line (blank_indent level),
            hline, rfl⟩
      · rw [prettyOfficialJsonAt, prettyValues_eq, toList_indentedBracket, List.map_map]
        rfl
    · have hfield : ∀ entry ∈ entries, FieldLine (Layout Blank depth) entry
          (json.toString (.string entry.1) ++ ": " ++
            prettyOfficialJsonAt json (level + 1) entry.2).toList := by
        intro entry hentry
        have hlt := List.sizeOf_lt_of_mem hentry
        have hvalue : sizeOf entry.2 < sizeOf entry := by
          cases entry
          simp
        simp only [Value.object.sizeOf_spec] at hsize
        refine ⟨_, ih (by omega) (level + 1) (validFields_iff.mp hvalid.2 entry hentry), ?_⟩
        rw [String.toList_append, String.toList_append, toString_key hjson, List.append_assoc]
        rfl
      have hsorted : ∃ fields : List (String × Value), fields.Perm entries ∧
          List.Forall₂ (FieldLine (Layout Blank depth)) fields
            ((sortFields (entries.map fun entry =>
                (entry.1, prettyOfficialJsonAt json (level + 1) entry.2))).map
              fun field => (json.toString (.string field.1) ++ ": " ++ field.2).toList) :=
        sortFields_entries hfield
      rcases hsorted with ⟨fields, hperm, hfields⟩
      refine ⟨fields, padLines (appendJsonIndent (level + 1)).toList (appendJsonIndent level).toList
        ((sortFields (entries.map fun entry =>
            (entry.1, prettyOfficialJsonAt json (level + 1) entry.2))).map
          fun field => (json.toString (.string field.1) ++ ": " ++ field.2).toList), hperm, ?_, ?_⟩
      · apply forall₂_padLines _ _ hfields
        · intro entry line hline
          rcases hline with ⟨inner, hinner, rfl⟩
          exact ⟨_, [' '], inner, [], blank_line (blank_indent (level + 1)),
            List.forall_mem_singleton.mpr (.inl rfl), hnone, hinner, by simp⟩
        · intro entry line hline
          rcases hline with ⟨inner, hinner, rfl⟩
          exact ⟨_, [' '], inner, _, blank_line (blank_indent (level + 1)),
            List.forall_mem_singleton.mpr (.inl rfl), blank_line (blank_indent level), hinner, by simp⟩
      · rw [prettyOfficialJsonAt, prettyOfficialObject, prettyFields_eq, toList_indentedBracket,
          List.map_map]
        rfl
    · rw [prettyOfficialJsonAt_scalar harray hobject]
      exact toString_scalar hjson hvalid harray hobject _ _

end Pretty

end Leone.Template

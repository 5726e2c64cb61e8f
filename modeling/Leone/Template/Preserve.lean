import Leone.Template.Reference

/-!
# What the prompt formats preserve

A format of prompt JSON preserves a value if its text differs from the compact one in white space
and in the order of keys only, and is read back as the value.
-/

namespace Leone.Template

open Text

structure Preserves (json : SerdeJson) (value : Value) (text : String) : Prop where
  layout : Lays Blank value text
  parses : json.fromStr text = some value

/-- All three formats preserve a value. -/
structure FormatsPreserve (json : SerdeJson) (value : Value) : Prop where
  spaced : Preserves json value (spacedJson json value)
  spacedValue : Preserves json value (spacedJsonValue json value)
  pretty : Preserves json value (prettyOfficialJson json value)

section Faithful

variable {json : SerdeJson} {value : Value}

theorem SerdeJson.Faithful.preserves (hjson : json.Faithful) {text : String}
    (hvalid : value.Valid json) (h : Lays Blank value text) : Preserves json value text :=
  ⟨h, hjson.parses value text hvalid h⟩

/-- The spacing pass writes a layout of the recoded value. -/
theorem spacedJsonText_lays {text : String} (hvalid : value.Valid json)
    (h : Lays NoGap value text) : Lays Blank value.recode (spacedJsonText text) := by
  rcases h with ⟨depth, hlayout⟩
  rcases spaced_layout hvalid hlayout with ⟨out, hout, hpass⟩
  refine ⟨depth, ?_⟩
  have hspaced : spacedJsonBytes outside (utf8Bytes text) = out := by
    simpa [spacedJsonBytes, bytesOf, utf8Bytes] using hpass []
  show Layout Blank depth value.recode
    (String.ofList (spacedJsonBytes outside (utf8Bytes text))).toList
  rw [String.toList_ofList, hspaced]
  exact hout

/-- A spaced text of a value is a text of it if and only if recoding keeps the value. -/
theorem preserves_spaced_iff (hjson : json.Faithful) {text : String} (hvalid : value.Valid json)
    (h : Lays NoGap value text) : Preserves json value (spacedJsonText text) ↔ value.Ascii := by
  have hlays := spacedJsonText_lays hvalid h
  rw [← recode_eq_iff hvalid]
  constructor
  · intro hpreserves
    have hparse := hjson.parses _ _ (recode_valid hvalid) hlays
    rw [hpreserves.parses] at hparse
    exact (Option.some.inj hparse).symm
  · intro hrecode
    rw [hrecode] at hlays
    exact hjson.preserves hvalid hlays

/-- The formats preserve a value if and only if its strings are ASCII. -/
theorem formatsPreserve_iff (hjson : json.Faithful) (hvalid : value.Valid json) :
    FormatsPreserve json value ↔ value.Ascii := by
  have hcompact : Lays NoGap value (json.toString value) := hjson.prints value hvalid
  have hofficial : Lays NoGap value (officialJson json value) :=
    ⟨sizeOf value, officialJson_layout hjson le_rfl hvalid⟩
  have hpretty : Lays Blank value (prettyOfficialJson json value) :=
    ⟨sizeOf value, prettyOfficialJsonAt_layout hjson le_rfl 0 hvalid⟩
  constructor
  · intro h
    exact (preserves_spaced_iff hjson hvalid hcompact).mp h.spaced
  · intro hascii
    exact ⟨(preserves_spaced_iff hjson hvalid hcompact).mpr hascii,
      (preserves_spaced_iff hjson hvalid hofficial).mpr hascii, hjson.preserves hvalid hpretty⟩

theorem formatsPreserve_city :
    FormatsPreserve referenceJson (.object [("city", .string "Bonn"), ("days", .array [.null])]) ↔
      Value.Ascii (.object [("city", .string "Bonn"), ("days", .array [.null])]) := by
  apply formatsPreserve_iff referenceJson_faithful
  exact ⟨by decide, trivial, ⟨trivial, trivial⟩, trivial⟩

/-- The spacing pass turns `é` into two characters. -/
theorem not_formatsPreserve : ¬ ∀ (json : SerdeJson) (value : Value), json.Faithful →
    value.Valid json → FormatsPreserve json value := by
  intro h
  have hvalid : Value.Valid referenceJson (.string "é") := trivial
  have hspaced := (h referenceJson (.string "é") referenceJson_faithful hvalid).spaced
  have hascii := (preserves_spaced_iff referenceJson_faithful hvalid
    (referenceJson_faithful.prints _ hvalid)).mp hspaced
  exact absurd (hascii "é" List.mem_cons_self 'é' (by decide)) (by decide)

end Faithful

end Leone.Template

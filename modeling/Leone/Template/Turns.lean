import Leone.Template.Document

/-!
# Which turns a prompt has

In the legacy mode the turn tokens of a prompt are those that the template puts there, and these
depend on the shape of the request only. In the official mode the markers that message texts spell
become tokens as well.
-/

namespace Leone.Template

open Framework Text

theorem marked_templateMarkers (architecture : ModelArchitecture) :
    Marked '<' ((templateMarkers architecture).map String.toList) := by
  cases architecture <;> decide +kernel

/-! ## Contents with Qwen markers -/

/-- What plain texts and Qwen markers have, and appending keeps, contents have as well. -/
theorem appendQwenContent_all {α : Type} {encoder : Encoder α} {P : List α → Prop} (hnil : P [])
    (happend : ∀ {a b}, P a → P b → P (a ++ b))
    (htoken : ∀ name ∈ qwenMarkers, ∀ a, token encoder name = .ok a → P a)
    (hpiece : ∀ text a, piece encoder text = .ok a → P a) (remaining : List Char) (a : List α)
    (h : appendQwenContent encoder remaining = .ok a) : P a := by
  induction hlength : remaining.length using Nat.strong_induction_on
    generalizing remaining a with
  | _ length ih =>
    rw [appendQwenContent] at h
    split at h
    · cases h
      exact hnil
    · split at h
      · exact hpiece _ a h
      · rename_i hit hnext
        have hmem := nextQwenMarker_mem hnext
        have hshort := length_drop_hit (by decide) hmem
        rw [bind_eq_ok] at h
        obtain ⟨before, hbefore, h⟩ := h
        rw [bind_eq_ok] at h
        obtain ⟨marker, hmarker, h⟩ := h
        rw [bind_eq_ok] at h
        obtain ⟨rest, hrest, h⟩ := h
        cases h
        have hname : String.ofList hit.2 ∈ qwenMarkers := by
          rw [mem_markerHits, List.mem_map] at hmem
          obtain ⟨⟨name, hname, hchars⟩, -⟩ := hmem
          rwa [← hchars, String.ofList_toList]
        apply happend
        · apply happend
          · unfold pieceBefore at hbefore
            split at hbefore
            · exact hpiece _ _ hbefore
            · cases hbefore
              exact hnil
          · exact htoken _ hname _ hmarker
        · exact ih _ (hlength ▸ hshort) _ _ hrest rfl

/-- Two encodings of one content correspond where those of its parts do. -/
theorem Respects.content {α β : Type} {names : List String} {e₁ : Encoder α} {e₂ : Encoder β}
    {R : List α → List β → Prop} (h : Respects True names e₁ e₂ R)
    (hnames : qwenMarkers ⊆ names) : RespectsContent True e₁ e₂ R := by
  intro remaining remaining' hsame
  rw [← hsame trivial]
  clear hsame remaining'
  induction hlength : remaining.length using Nat.strong_induction_on generalizing remaining with
  | _ length ih =>
    rw [appendQwenContent, appendQwenContent]
    split
    · exact .ok h.nil
    · split
      · exact h.text _
      · rename_i hit hnext
        have hmem := nextQwenMarker_mem hnext
        have hshort := length_drop_hit (by decide) hmem
        have hname : String.ofList hit.2 ∈ qwenMarkers := by
          rw [mem_markerHits, List.mem_map] at hmem
          obtain ⟨⟨name, hname, hchars⟩, -⟩ := hmem
          rwa [← hchars, String.ofList_toList]
        have hbefore : Related True R (pieceBefore e₁ remaining hit.1)
            (pieceBefore e₂ remaining hit.1) := by
          unfold pieceBefore
          split
          · exact h.text _
          · exact .ok h.nil
        apply hbefore.bind
        intro before before' hbefore
        apply (h.token _ (hnames hname)).bind
        intro marker marker' hmarker
        apply (ih _ (hlength ▸ hshort) _ rfl).bind
        intro rest rest' hrest
        exact .ok (h.append (h.append hbefore hmarker) hrest)

/-! ## Tokens of a sound tokenizer -/

section Sound

variable {category : Char → GeneralCategory} {t : Tokenizer}

/-- Names that share an identifier are equal, so a search by identifier finds the name itself. -/
theorem find?_tokenToId (h : t.Sound) {name : String} {id : Nat} (hid : t.tokenToId name = some id)
    (names : List String) :
    names.find? (fun other => t.tokenToId other = some id) =
      if name ∈ names then some name else none := by
  have hname : ∀ other, t.tokenToId other = some id ↔ other = name := by
    intro other
    constructor
    · intro hother
      have htoken := h.tokens other id hother
      rw [h.tokens name id hid] at htoken
      exact (Option.some.inj htoken).symm
    · intro heq
      rw [heq, hid]
  simp only [hname]
  induction names with
  | nil => rfl
  | cons other rest ih =>
    by_cases heq : other = name
    · simp [heq]
    · rw [List.find?_cons_of_neg (by simpa using heq), ih]
      simp [List.mem_cons, Ne.symm heq]

theorem token_ok {name : String} {a : List Nat}
    (h : token (encoderOf category t) name = .ok a) :
    ∃ id, t.tokenToId name = some id ∧ a = [id] := by
  unfold token encoderOf at h
  rw [bind_eq_ok] at h
  obtain ⟨id, hid, h⟩ := h
  cases h
  dsimp only at hid
  split at hid
  · rename_i found hfound
    cases hid
    exact ⟨id, hfound, rfl⟩
  · cases hid

theorem piece_ok {text : String} {a : List Nat} (h : piece (encoderOf category t) text = .ok a) :
    t.encodePiece category text = .ok a := by
  unfold piece encoderOf at h
  dsimp only at h
  split at h
  · rename_i ids hids
    cases h
    exact hids
  · cases h

theorem turnTokens_token (h : t.Sound) {name : String} {a : List Nat}
    (htoken : token (encoderOf category t) name = .ok a) :
    turnTokens t a = if name ∈ turnMarkers then [name] else [] := by
  obtain ⟨id, hid, rfl⟩ := token_ok htoken
  rw [turnTokens, List.filterMap_cons, turnToken, find?_tokenToId h hid]
  split_ifs
  · rfl
  · rfl

theorem turnTokens_piece (hplain : PlainPieces category t) {text : String} {a : List Nat}
    (h : piece (encoderOf category t) text = .ok a) : turnTokens t a = [] := by
  rw [turnTokens, List.filterMap_eq_nil_iff]
  intro id hid
  exact (hplain text a (piece_ok h) id hid).2

theorem turnTokens_append (a b : List Nat) :
    turnTokens t (a ++ b) = turnTokens t a ++ turnTokens t b :=
  List.filterMap_append

/-! ### Reading the tokens back -/

theorem templateMarkers_printable (architecture : ModelArchitecture) :
    ∀ name ∈ templateMarkers architecture,
      (∀ byte ∈ utf8Bytes name, byte.toFin ∈ printableBytes) ∧
        name.toList = (utf8Bytes name).map fun byte => Char.ofNat byte.toFin := by
  cases architecture <;> decide +kernel

/-- A token of a plain text reads back as its bytes, also where it is a marker. -/
theorem utf8Bytes_templateTextOfToken (h : t.Sound) {architecture : ModelArchitecture} {id : Nat}
    (hvisible : t.Visible id) {text : List Char} {bytes : List UInt8}
    (htext : templateTextOfToken t (templateMarkers architecture) id = .ok text)
    (hbytes : t.tokenBytes id = .ok bytes) : utf8Bytes (String.ofList text) = bytes := by
  unfold templateTextOfToken at htext
  split at htext
  · rename_i name hfind
    cases htext
    have hid : t.tokenToId name = some id := by simpa using List.find?_some hfind
    have hprintable := templateMarkers_printable architecture name (List.mem_of_find?_eq_some hfind)
    have hspells : name.toList = (utf8Bytes name).map fun byte => t.byteEncoder.get byte.toFin := by
      rw [h.encoder]
      apply hprintable.2.trans
      apply List.map_congr_left
      intro byte hbyte
      exact (byteMaps_printable (hprintable.1 byte hbyte)).symm
    rw [h.tokenBytes_eq hid hvisible hspells] at hbytes
    cases hbytes
    rw [String.ofList_toList]
  · rw [hbytes] at htext
    dsimp only at htext
    split at htext
    · rename_i text' hutf8
      cases htext
      rw [String.ofList_toList]
      exact utf8Bytes_of_fromUTF8? hutf8
    · cases htext

theorem templateTextFromTokens_append {markers : List String} {a b : List Nat} {text : List Char}
    (h : templateTextFromTokens t markers (a ++ b) = .ok text) :
    ∃ left right, templateTextFromTokens t markers a = .ok left ∧
      templateTextFromTokens t markers b = .ok right ∧ text = left ++ right := by
  induction a generalizing text with
  | nil => exact ⟨[], text, rfl, h, rfl⟩
  | cons id rest ih =>
    rw [List.cons_append, templateTextFromTokens, bind_eq_ok] at h
    obtain ⟨first, hfirst, h⟩ := h
    rw [bind_eq_ok] at h
    obtain ⟨more, hmore, h⟩ := h
    cases h
    obtain ⟨left, right, hleft, hright, rfl⟩ := ih hmore
    refine ⟨first ++ left, right, ?_, hright, (List.append_assoc _ _ _).symm⟩
    rw [templateTextFromTokens, bind_eq_ok]
    exact ⟨first, hfirst, bind_eq_ok.mpr ⟨left, hleft, rfl⟩⟩

/-- The tokens of a plain text read back as the text. -/
theorem templateTextFromTokens_piece (h : t.Sound) (hplain : PlainPieces category t)
    {architecture : ModelArchitecture} {plain : String} {a : List Nat} {text : List Char}
    (hpiece : piece (encoderOf category t) plain = .ok a)
    (htext : templateTextFromTokens t (templateMarkers architecture) a = .ok text) :
    text = plain.toList := by
  have hencode := piece_ok hpiece
  have hvisible := fun id hid => (hplain plain a hencode id hid).1
  obtain ⟨parts, hparts, hflat⟩ := h.encodePiece_inverse hencode hvisible
  have hbytes : utf8Bytes (String.ofList text) = parts.flatten := by
    rw [mapM_eq_ok] at hparts
    clear hflat hencode hpiece
    induction hparts generalizing text with
    | nil =>
      cases htext
      rfl
    | @cons id bytes rest more hid _ ih =>
      rw [templateTextFromTokens, bind_eq_ok] at htext
      obtain ⟨first, hfirst, htext⟩ := htext
      rw [bind_eq_ok] at htext
      obtain ⟨behind, hbehind, htext⟩ := htext
      cases htext
      have hhead := utf8Bytes_templateTextOfToken h (hvisible id List.mem_cons_self) hfirst hid
      rw [utf8Bytes_ofList] at hhead
      have htail := ih hbehind fun id hmem => hvisible id (List.mem_cons_of_mem _ hmem)
      rw [utf8Bytes_ofList] at htail
      rw [utf8Bytes_ofList, List.flatMap_append, List.flatten_cons, hhead, htail]
  rw [hflat] at hbytes
  rw [← utf8Bytes_injective hbytes, String.toList_ofList]

/-- The tokens of a template marker read back as the marker. -/
theorem templateTextFromTokens_token (h : t.Sound) {architecture : ModelArchitecture}
    {name : String} (hname : name ∈ templateMarkers architecture) {a : List Nat}
    {text : List Char} (htoken : token (encoderOf category t) name = .ok a)
    (htext : templateTextFromTokens t (templateMarkers architecture) a = .ok text) :
    text = name.toList := by
  obtain ⟨id, hid, rfl⟩ := token_ok htoken
  rw [templateTextFromTokens, bind_eq_ok] at htext
  obtain ⟨first, hfirst, htext⟩ := htext
  cases htext
  unfold templateTextOfToken at hfirst
  rw [find?_tokenToId h hid, if_pos hname] at hfirst
  cases hfirst
  rw [List.append_nil]

end Sound

end Leone.Template

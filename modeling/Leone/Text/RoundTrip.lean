import Leone.Text.Merge

/-!
# Decoding undoes encoding

A text is split into words, each word is spelled by its symbols, and each symbol is looked up in
the vocabulary. The lookup is a section of the token list, so the decoder finds the symbols again
and reads the bytes off them.
-/

namespace Leone.Text

open Framework Gguf

namespace Tokenizer

variable (category : Char → GeneralCategory) (t : Tokenizer)

def digitLimit : Nat :=
  match t.preTokenizer with
  | .qwen2 => 1
  | .llama3 => 3

/-- The identifiers of one word of a text. -/
def encodeWord (piece : String) : Except TokenizerError (List Nat) :=
  let encoded := String.ofList ((utf8Bytes piece).map fun byte => t.byteEncoder.get byte.toFin)
  (mergeWord t.merges encoded).mapM fun token =>
    match t.tokenToId token with
    | some id => .ok id
    | none => .error (.missingPiece token)

/-- Encode plain text without BOS and EOS tokens. -/
def encodePiece (text : String) : Except TokenizerError (List Nat) := do
  let words ← (bpeSplit category text t.digitLimit).mapM t.encodeWord
  return words.flatten

/-- Encode plain text and apply the BOS and EOS defaults. -/
def encode (text : String) : Except TokenizerError (List Nat) := do
  let start := if t.addBos then t.bos.toList else []
  let ids ← t.encodePiece category text
  let stop := if t.addEos then t.eos.toList else []
  return start ++ ids ++ stop

/-- The bytes of one token. Control and unused tokens have none. -/
def tokenBytes (id : Nat) : Except TokenizerError (List UInt8) :=
  match t.tokens[id]? with
  | none => .error (.tokenOutOfRange id t.tokens.length)
  | some token =>
    if t.tokenTypes[id]? = some .control ∨ t.tokenTypes[id]? = some .unused then .ok []
    else token.toList.mapM fun character =>
      match t.byteDecoder character with
      | some byte => .ok byte
      | none => .error (.invalidBytePiece id)

/-- The text of a list of tokens, without its control and unused tokens. -/
def decode (ids : List Nat) : Except TokenizerError String := do
  let bytes ← ids.mapM t.tokenBytes
  match String.fromUTF8? bytes.flatten.toByteArray with
  | some text => return text
  | none => throw .invalidUtf8

end Tokenizer

/-! ## The split loses nothing -/

theorem flatten_bpePieces (category : Char → GeneralCategory) (characters : List Char)
    (digitLimit position : Nat) :
    (bpePieces category characters digitLimit position).flatten = characters.drop position := by
  fun_induction bpePieces category characters digitLimit position with
  | case1 position h stop ih =>
    have hbounds := pieceEnd_bounds category characters ⟨position, h⟩ digitLimit
    have hstop : position ≤ stop := hbounds.1.le
    rw [List.flatten_cons, ih, ← Nat.add_sub_of_le hstop, ← List.drop_drop]
    simp
  | case2 position h => simp [List.drop_eq_nil_of_le (not_lt.mp h)]

theorem utf8Bytes_ofList (characters : List Char) :
    utf8Bytes (String.ofList characters) = characters.flatMap String.utf8EncodeChar := by
  rw [utf8Bytes, String.toList_ofList]

/-- The words of a text have its bytes. -/
theorem flatMap_bpeSplit (category : Char → GeneralCategory) (text : String) (digitLimit : Nat) :
    (bpeSplit category text digitLimit).flatMap utf8Bytes = utf8Bytes text := by
  have hpieces := flatten_bpePieces category text.toList digitLimit 0
  rw [bpeSplit, List.flatMap_map, utf8Bytes]
  rw [List.drop_zero] at hpieces
  conv_rhs => rw [← hpieces]
  simp only [utf8Bytes_ofList, List.flatMap_def, List.map_flatten, List.flatten_flatten,
    List.map_map, Function.comp_def]

/-! ## What loading guarantees -/

/-- The tables of a tokenizer agree: a token identifier leads back to its token, and the byte
decoder inverts the byte encoder. -/
structure Tokenizer.Sound (t : Tokenizer) : Prop where
  encoder : t.byteEncoder = byteMaps.1
  tokens : ∀ token id, t.tokenToId token = some id → t.tokens[id]? = some token
  bytes : ∀ byte : UInt8, t.byteDecoder (t.byteEncoder.get byte.toFin) = some byte

/-- The last identifier of a repeated token still leads back to it. -/
theorem loadTokenIds_sound {tokens : List String} {tokenToId : HashMap String Nat}
    (h : loadTokenIds tokens = .ok tokenToId) :
    ∀ token id, tokenToId token = some id → tokens[id]? = some token := by
  refine foldlM_invariant (P := fun table : HashMap String Nat =>
    ∀ token id, table token = some id → tokens[id]? = some token) h (by simp) ?_
  intro entry hmem table table' htable hstep token id hid
  split at hstep
  · rename_i id' hid'
    obtain ⟨-, rfl⟩ := tryFrom_eq_some.mp hid'
    cases hstep
    rw [HashMap.insert, Function.update_apply] at hid
    split_ifs at hid with heq
    · subst heq
      cases hid
      exact List.mem_zipIdx_iff_getElem?.mp hmem
    · exact htable token id hid
  · cases hstep

theorem loadVocabulary_sound {metadata : Metadata} {vocabulary : Vocabulary}
    (h : loadVocabulary metadata = .ok vocabulary) : ∀ token id,
      vocabulary.tokenToId token = some id → vocabulary.tokens[id]? = some token := by
  obtain ⟨tokens, -, h⟩ := bind_eq_ok.mp h
  obtain ⟨typeCodes, -, h⟩ := bind_eq_ok.mp h
  dsimp only at h
  split_ifs at h
  · cases h
  · cases h
  · cases h
  · obtain ⟨tokenTypes, -, h⟩ := bind_eq_ok.mp h
    obtain ⟨tokenToId, hids, h⟩ := bind_eq_ok.mp h
    cases h
    exact loadTokenIds_sound hids

/-- Inserting entries of distinct keys stores each of them. -/
theorem foldl_insert_eq {κ α β : Type} [DecidableEq κ] (key : β → κ) (value : β → α)
    {entries : List β} (table : HashMap κ α) (hnodup : (entries.map key).Nodup) :
    ∀ entry ∈ entries, entries.foldl (fun table entry => table.insert (key entry) (value entry))
      table (key entry) = some (value entry) := by
  induction entries generalizing table with
  | nil => simp
  | cons first entries ih =>
    rw [List.map_cons, List.nodup_cons] at hnodup
    have hkeep {rest : List β} {k : κ} {table : HashMap κ α} (hk : k ∉ rest.map key) :
        rest.foldl (fun table entry => table.insert (key entry) (value entry)) table k =
          table k := by
      induction rest generalizing table with
      | nil => rfl
      | cons entry rest ihrest =>
        rw [List.map_cons, List.mem_cons, not_or] at hk
        rw [List.foldl_cons, ihrest hk.2, HashMap.insert, Function.update_of_ne hk.1]
    intro entry hmem
    rcases List.mem_cons.mp hmem with rfl | hmem
    · rw [List.foldl_cons, hkeep hnodup.1, HashMap.insert, Function.update_self]
    · exact ih _ hnodup.2 entry hmem

/-! ### The byte map -/

theorem assignPrintable_spec (encoder : Vector Char 256) (assigned : Vector Bool 256)
    (bytes : List (Fin 256)) (byte : Fin 256) :
    (assignPrintable encoder assigned bytes).1.get byte =
        (if byte ∈ bytes then Char.ofNat byte else encoder.get byte) ∧
      (assignPrintable encoder assigned bytes).2.get byte =
        (decide (byte ∈ bytes) || assigned.get byte) := by
  induction bytes generalizing encoder assigned with
  | nil => simp [assignPrintable]
  | cons first rest ih =>
    obtain ⟨hencoder, hassigned⟩ := ih (encoder.set first (Char.ofNat first))
      (assigned.set first true)
    rw [assignPrintable, hencoder, hassigned]
    by_cases hmem : byte ∈ rest
    · simp [hmem]
    · by_cases hfirst : byte = first
      · subst hfirst
        simp [hmem, Vector.get_eq_getElem]
      · have hval : first.val ≠ byte.val := fun h => hfirst (Fin.ext h.symm)
        simp [hmem, hfirst, hval, Vector.get_eq_getElem]

theorem toNat_ofNat {k : Nat} (h : k < 0xd800) : (Char.ofNat k).toNat = k := by
  simp [Char.ofNat, Char.toNat, Nat.isValidChar, h, Char.ofNatAux]

/-- The bytes left over get different characters, all from `256 + extra` on. -/
theorem assignExtra_spec (assigned : Vector Bool 256) (encoder : Vector Char 256) (extra : Nat)
    (bytes : List (Fin 256)) (hnodup : bytes.Nodup) (hsmall : extra + bytes.length ≤ 1024) :
    (∀ byte, byte ∉ bytes ∨ assigned.get byte →
      (assignExtra assigned encoder extra bytes).get byte = encoder.get byte) ∧
    (∀ byte ∈ bytes, ¬ assigned.get byte →
      256 + extra ≤ ((assignExtra assigned encoder extra bytes).get byte).toNat) ∧
    ∀ byte ∈ bytes, ∀ byte' ∈ bytes, ¬ assigned.get byte → ¬ assigned.get byte' →
      (assignExtra assigned encoder extra bytes).get byte =
        (assignExtra assigned encoder extra bytes).get byte' → byte = byte' := by
  induction bytes generalizing encoder extra with
  | nil => simp [assignExtra]
  | cons first rest ih =>
    obtain ⟨hfresh, hnodup⟩ := List.nodup_cons.mp hnodup
    rw [List.length_cons] at hsmall
    by_cases hfirst : assigned.get first
    · simp only [assignExtra, if_pos hfirst]
      obtain ⟨hkeep, hge, hinj⟩ := ih encoder extra hnodup (by omega)
      have hrest {byte : Fin 256} (hmem : byte ∈ first :: rest) (hb : ¬ assigned.get byte) :
          byte ∈ rest := (List.mem_cons.mp hmem).resolve_left fun heq => hb (heq ▸ hfirst)
      refine ⟨fun byte hbyte => hkeep byte (hbyte.imp_left fun hnot hmem =>
        hnot (List.mem_cons_of_mem _ hmem)), fun byte hmem hb => hge byte (hrest hmem hb) hb,
        fun byte hmem byte' hmem' hb hb' => hinj byte (hrest hmem hb) byte' (hrest hmem' hb') hb hb'⟩
    · simp only [assignExtra, if_neg hfirst]
      obtain ⟨hkeep, hge, hinj⟩ := ih (encoder.set first (Char.ofNat (256 + extra))) (extra + 1)
        hnodup (by omega)
      have hself : ((assignExtra assigned (encoder.set first (Char.ofNat (256 + extra))) (extra + 1)
          rest).get first).toNat = 256 + extra := by
        rw [hkeep first (.inl hfresh)]
        simpa [Vector.get_eq_getElem] using toNat_ofNat (by omega)
      refine ⟨fun byte hbyte => ?_, fun byte hmem hb => ?_, fun byte hmem byte' hmem' hb hb' heq => ?_⟩
      · have hne : first ≠ byte := by
          rintro rfl
          exact hbyte.elim (fun hnot => hnot List.mem_cons_self) hfirst
        rw [hkeep byte (hbyte.imp_left fun hnot hmem => hnot (List.mem_cons_of_mem _ hmem))]
        have hval : first.val ≠ byte.val := fun h => hne (Fin.ext h)
        simp [hval, Vector.get_eq_getElem]
      · rcases List.mem_cons.mp hmem with rfl | hin
        · exact hself.ge
        · have h := hge byte hin hb
          omega
      · rcases List.mem_cons.mp hmem with rfl | hin
        · rcases List.mem_cons.mp hmem' with rfl | hin'
          · rfl
          · have h := hge byte' hin' hb'
            rw [← heq, hself] at h
            omega
        · rcases List.mem_cons.mp hmem' with rfl | hin'
          · have h := hge byte hin hb
            rw [heq, hself] at h
            omega
          · exact hinj byte hin byte' hin' hb hb' heq

/-- No two bytes share a character, once the printable bytes stand for themselves. -/
theorem assignExtra_injective {encoder : Vector Char 256} {assigned : Vector Bool 256}
    (h : ∀ byte : Fin 256, assigned.get byte → (encoder.get byte).toNat = byte)
    {byte byte' : Fin 256} (heq : (assignExtra assigned encoder 0 (List.finRange 256)).get byte =
      (assignExtra assigned encoder 0 (List.finRange 256)).get byte') : byte = byte' := by
  obtain ⟨hkeep, hge, hinj⟩ := assignExtra_spec assigned encoder 0 (List.finRange 256)
    (List.nodup_finRange 256) (by simp)
  generalize assignExtra assigned encoder 0 (List.finRange 256) = encoder' at *
  have hsmall (b : Fin 256) (hb : assigned.get b) : (encoder'.get b).toNat = b := by
    rw [hkeep b (.inr hb)]
    exact h b hb
  by_cases hb : assigned.get byte
  · have hval := hsmall byte hb
    by_cases hb' : assigned.get byte'
    · rw [heq, hsmall byte' hb'] at hval
      exact Fin.ext hval.symm
    · have hlarge := hge byte' (List.mem_finRange _) hb'
      rw [← heq] at hlarge
      omega
  · by_cases hb' : assigned.get byte'
    · have hval := hsmall byte' hb'
      have hlarge := hge byte (List.mem_finRange _) hb
      rw [heq] at hlarge
      omega
    · exact hinj byte (List.mem_finRange _) byte' (List.mem_finRange _) hb hb' heq

theorem assignPrintable_toNat {byte : Fin 256} (h : (assignPrintable (.replicate 256 '\x00')
      (.replicate 256 false) printableBytes).2.get byte) :
    ((assignPrintable (.replicate 256 '\x00') (.replicate 256 false)
      printableBytes).1.get byte).toNat = byte := by
  obtain ⟨hencoder, hassigned⟩ := assignPrintable_spec (.replicate 256 '\x00')
    (.replicate 256 false) printableBytes byte
  rw [hassigned] at h
  have hmem : byte ∈ printableBytes := by simpa [Vector.get_eq_getElem] using h
  rw [hencoder, if_pos hmem]
  exact toNat_ofNat (by omega)

theorem decoderMap_inverse {encoder : Vector Char 256}
    (hinj : ∀ byte byte' : Fin 256, encoder.get byte = encoder.get byte' → byte = byte')
    (byte : UInt8) : decoderMap encoder (encoder.get byte.toFin) = some byte := by
  have hnodup : (encoder.toList.zipIdx.map Prod.fst).Nodup := by
    rw [List.zipIdx_map_fst, List.nodup_iff_injective_getElem]
    intro i j hij
    have h := hinj ⟨i, by simpa using i.isLt⟩ ⟨j, by simpa using j.isLt⟩ (by simpa [Vector.get_eq_getElem] using hij)
    exact Fin.ext (by simpa using h)
  have hmem : (encoder.get byte.toFin, byte.toNat) ∈ encoder.toList.zipIdx := by
    rw [List.mem_zipIdx_iff_getElem?]
    simp [Vector.get_eq_getElem]
  have h := foldl_insert_eq Prod.fst (fun entry => UInt8.ofNat entry.2) (fun _ => none) hnodup
    _ hmem
  simpa [decoderMap] using h

/-- The printable bytes stand for themselves. -/
theorem byteMaps_printable {byte : Fin 256} (h : byte ∈ printableBytes) :
    byteMaps.1.get byte = Char.ofNat byte := by
  obtain ⟨hencoder, hassigned⟩ := assignPrintable_spec (.replicate 256 '\x00')
    (.replicate 256 false) printableBytes byte
  obtain ⟨hkeep, -⟩ := assignExtra_spec
    (assignPrintable (.replicate 256 '\x00') (.replicate 256 false) printableBytes).2
    (assignPrintable (.replicate 256 '\x00') (.replicate 256 false) printableBytes).1 0
    (List.finRange 256) (List.nodup_finRange 256) (by simp)
  rw [byteMaps, hkeep byte (.inr (by rw [hassigned]; simp [h])), hencoder, if_pos h]

theorem byteMaps_inverse (byte : UInt8) : byteMaps.2 (byteMaps.1.get byte.toFin) = some byte := by
  unfold byteMaps
  dsimp only
  refine decoderMap_inverse (fun _ _ heq => ?_) byte
  exact assignExtra_injective (fun _ => assignPrintable_toNat) heq

theorem Tokenizer.fromMetadata_sound {metadata : Metadata} {t : Tokenizer}
    (h : Tokenizer.fromMetadata metadata = .ok t) : t.Sound := by
  have hinverse := byteMaps_inverse
  unfold Tokenizer.fromMetadata at h
  generalize hmaps : byteMaps = maps at h hinverse
  obtain ⟨preTokenizer, -, h⟩ := bind_eq_ok.mp h
  obtain ⟨vocabulary, hvocabulary, h⟩ := bind_eq_ok.mp h
  obtain ⟨merges, -, h⟩ := bind_eq_ok.mp h
  obtain ⟨special, -, h⟩ := bind_eq_ok.mp h
  obtain rfl := Except.ok.inj h
  exact ⟨congrArg Prod.fst hmaps.symm, loadVocabulary_sound hvocabulary, hinverse⟩

/-! ## The round trip -/

/-- The identifier belongs to a token that the decoder does not skip. -/
def Tokenizer.Visible (t : Tokenizer) (id : Nat) : Prop :=
  t.tokenTypes[id]? ≠ some .control ∧ t.tokenTypes[id]? ≠ some .unused

instance (t : Tokenizer) (id : Nat) : Decidable (t.Visible id) :=
  inferInstanceAs (Decidable (_ ∧ _))

namespace Tokenizer.Sound

variable {t : Tokenizer}

/-- A visible token that spells encoded bytes decodes to those bytes. -/
theorem tokenBytes_eq (h : t.Sound) {id : Nat} {token : String} {bytes : List UInt8}
    (hid : t.tokenToId token = some id) (hvisible : t.Visible id)
    (hspells : token.toList = bytes.map fun byte => t.byteEncoder.get byte.toFin) :
    t.tokenBytes id = .ok bytes := by
  rw [tokenBytes, h.tokens token id hid]
  dsimp only
  rw [if_neg (not_or.mpr hvisible), hspells, mapM_eq_ok, List.forall₂_map_left_iff,
    List.forall₂_same]
  intro byte _
  rw [h.bytes]

/-- The identifiers of symbols that together spell encoded bytes decode to those bytes. -/
theorem mapM_tokenBytes (h : t.Sound) {symbols : List String} {ids : List Nat}
    {bytes : List UInt8} (hids : List.Forall₂ (fun token id => t.tokenToId token = some id)
      symbols ids) (hvisible : ∀ id ∈ ids, t.Visible id)
    (hspells : symbols.flatMap String.toList =
      bytes.map fun byte => t.byteEncoder.get byte.toFin) :
    ∃ parts, ids.mapM t.tokenBytes = .ok parts ∧ parts.flatten = bytes := by
  induction hids generalizing bytes with
  | nil =>
    rw [List.flatMap_nil, eq_comm, List.map_eq_nil_iff] at hspells
    exact ⟨[], rfl, hspells.symm⟩
  | @cons token id symbols ids hid _ ih =>
    rw [List.flatMap_cons, eq_comm, List.map_eq_append_iff] at hspells
    obtain ⟨first, rest, rfl, hfirst, hrest⟩ := hspells
    obtain ⟨parts, hparts, rfl⟩ := ih (fun id hmem => hvisible id (List.mem_cons_of_mem _ hmem))
      hrest.symm
    have htoken := h.tokenBytes_eq hid (hvisible id List.mem_cons_self) hfirst.symm
    refine ⟨first :: parts, ?_, rfl⟩
    rw [mapM_eq_ok] at hparts ⊢
    exact .cons htoken hparts

/-- The identifiers of one word decode to its bytes. -/
theorem encodeWord_inverse (h : t.Sound) {piece : String} {ids : List Nat}
    (hencode : t.encodeWord piece = .ok ids) (hvisible : ∀ id ∈ ids, t.Visible id) :
    ∃ parts, ids.mapM t.tokenBytes = .ok parts ∧ parts.flatten = utf8Bytes piece := by
  rw [encodeWord, mapM_eq_ok] at hencode
  refine h.mapM_tokenBytes (hencode.imp fun token id hid => ?_) hvisible ?_
  · split at hid
    · rename_i id' hsome
      rw [hsome, Except.ok.inj hid]
    · cases hid
  · rw [mergeWord_spells, String.toList_ofList]

/-- The identifiers of a list of words decode to their bytes, one word after the other. -/
theorem encodeWords_inverse (h : t.Sound) {pieces : List String} {words : List (List Nat)}
    (hencode : List.Forall₂ (fun piece ids => t.encodeWord piece = .ok ids) pieces words)
    (hvisible : ∀ id ∈ words.flatten, t.Visible id) :
    ∃ parts, words.flatten.mapM t.tokenBytes = .ok parts ∧
      parts.flatten = pieces.flatMap utf8Bytes := by
  induction hencode with
  | nil => exact ⟨[], rfl, rfl⟩
  | @cons piece ids pieces words hword _ ih =>
    rw [List.flatten_cons] at hvisible
    obtain ⟨parts, hparts, hflat⟩ := h.encodeWord_inverse hword
      fun id hmem => hvisible id (List.mem_append_left _ hmem)
    obtain ⟨parts', hparts', hflat'⟩ := ih fun id hmem => hvisible id (List.mem_append_right _ hmem)
    refine ⟨parts ++ parts', ?_, ?_⟩
    · rw [mapM_eq_ok] at hparts hparts' ⊢
      exact List.rel_append hparts hparts'
    · rw [List.flatten_append, hflat, hflat', List.flatMap_cons]

/-- The identifiers of a text decode to its bytes. -/
theorem encodePiece_inverse (h : t.Sound) {category : Char → GeneralCategory} {text : String}
    {ids : List Nat} (hencode : t.encodePiece category text = .ok ids)
    (hvisible : ∀ id ∈ ids, t.Visible id) :
    ∃ parts, ids.mapM t.tokenBytes = .ok parts ∧ parts.flatten = utf8Bytes text := by
  obtain ⟨words, hwords, heq⟩ := bind_eq_ok.mp hencode
  obtain rfl := Except.ok.inj heq
  obtain ⟨parts, hparts, hflat⟩ := h.encodeWords_inverse (mapM_eq_ok.mp hwords) hvisible
  rw [flatMap_bpeSplit] at hflat
  exact ⟨parts, hparts, hflat⟩

end Tokenizer.Sound

theorem toByteArray_utf8Bytes (text : String) :
    (utf8Bytes text).toByteArray = text.toByteArray := by
  conv_rhs => rw [← String.ofList_toList (s := text)]
  rw [String.toByteArray_ofList]
  rfl

/-- The bytes of a text are valid UTF-8 and spell the text. -/
theorem fromUTF8?_utf8Bytes (text : String) :
    String.fromUTF8? (utf8Bytes text).toByteArray = some text := by
  rw [toByteArray_utf8Bytes, String.fromUTF8?, dif_pos text.isValidUTF8]
  rfl

theorem utf8Bytes_injective : Function.Injective utf8Bytes := by
  intro text text' heq
  have htext := fromUTF8?_utf8Bytes text
  rw [heq, fromUTF8?_utf8Bytes] at htext
  exact (Option.some.inj htext).symm

/-- A text that bytes spell has these bytes. -/
theorem utf8Bytes_of_fromUTF8? {bytes : List UInt8} {text : String}
    (h : String.fromUTF8? bytes.toByteArray = some text) : utf8Bytes text = bytes := by
  rw [← List.toByteArray_inj, toByteArray_utf8Bytes]
  unfold String.fromUTF8? at h
  split_ifs at h
  cases h
  rfl

/-- The decoder reads the text back, and so do the bytes of its tokens. -/
structure Tokenizer.Decodes (t : Tokenizer) (ids : List Nat) (text : String) : Prop where
  decode : t.decode ids = .ok text
  bytes : ∃ parts, ids.mapM t.tokenBytes = .ok parts ∧ parts.flatten = utf8Bytes text

/-- Decoding undoes encoding, for every loaded vocabulary and every text whose identifiers are
all visible. -/
theorem decode_encodePiece (category : Char → GeneralCategory) (metadata : Metadata)
    (t : Tokenizer) (text : String) (ids : List Nat)
    (hload : Tokenizer.fromMetadata metadata = .ok t)
    (hencode : t.encodePiece category text = .ok ids)
    (hvisible : ∀ id ∈ ids, t.Visible id) : t.Decodes ids text := by
  obtain ⟨parts, hparts, hflat⟩ :=
    (Tokenizer.fromMetadata_sound hload).encodePiece_inverse hencode hvisible
  refine ⟨?_, parts, hparts, hflat⟩
  rw [Tokenizer.decode, hparts]
  change (match String.fromUTF8? parts.flatten.toByteArray with
    | some text => pure text
    | none => throw TokenizerError.invalidUtf8) = Except.ok text
  rw [hflat, fromUTF8?_utf8Bytes]
  rfl

/-- A vocabulary that holds one string twice. -/
def repeatedMetadata : Metadata :=
  ((((∅ : Metadata).insert "tokenizer.ggml.model" (.string "gpt2")).insert
    "tokenizer.ggml.pre" (.string "qwen2")).insert
    "tokenizer.ggml.tokens" (.array (.string ["a", "ab", "b", "ab"]))).insert
    "tokenizer.ggml.token_type" (.array (.int32 [1, 1, 1, 1])) |>.insert
    "tokenizer.ggml.merges" (.array (.string ["a b"]))

def asciiCategory (character : Char) : GeneralCategory :=
  if character.isAlpha then .lowercaseLetter else .other

theorem decode_encodePiece_repeated : ∃ t, Tokenizer.fromMetadata repeatedMetadata = .ok t ∧
    t.Decodes [3] "ab" := by
  have htables : (Tokenizer.fromMetadata repeatedMetadata).toOption.any (fun t =>
      t.digitLimit = 1 ∧ mergeWord t.merges "ab" = ["ab"] ∧ t.tokenToId "ab" = some 3 ∧
        ∀ id ∈ [3], t.Visible id) := by decide +kernel
  cases hload : Tokenizer.fromMetadata repeatedMetadata with
  | error e => simp [hload, Except.toOption] at htables
  | ok t =>
    simp only [hload, Except.toOption, Option.any_some, decide_eq_true_eq] at htables
    obtain ⟨hlimit, hmerge, hid, hvisible⟩ := htables
    refine ⟨t, rfl, decode_encodePiece asciiCategory repeatedMetadata t "ab" [3] hload ?_ hvisible⟩
    have hsplit : bpeSplit asciiCategory "ab" 1 = ["ab"] := by decide +kernel
    have hbytes : utf8Bytes "ab" = [97, 98] := by decide +kernel
    have hencoded : String.ofList ((utf8Bytes "ab").map fun byte => t.byteEncoder.get byte.toFin) =
        "ab" := by
      rw [(Tokenizer.fromMetadata_sound hload).encoder, hbytes, List.map_cons, List.map_cons,
        byteMaps_printable (by decide +kernel), byteMaps_printable (by decide +kernel)]
      rfl
    have hword : t.encodeWord "ab" = .ok [3] := by
      rw [Tokenizer.encodeWord, hencoded, hmerge, mapM_eq_ok]
      exact .cons (by rw [hid]) .nil
    rw [Tokenizer.encodePiece, hlimit, hsplit, bind_eq_ok]
    exact ⟨[[3]], mapM_eq_ok.mpr (.cons hword .nil), rfl⟩

end Leone.Text

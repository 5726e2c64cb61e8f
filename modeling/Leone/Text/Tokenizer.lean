import Mathlib
import Leone.Framework.Method
import Leone.Gguf.Types

/-!
# The byte-level BPE tokenizer

Loading the vocabulary and the merge table from GGUF metadata, splitting text into words,
merging the symbols of a word by rank, and decoding token identifiers. Allocation is taken to
succeed.
-/

namespace Leone.Text

open Framework Gguf

/-- The GGUF token type used by the GPT-2 vocabulary. -/
inductive TokenType
  | normal | unknown | control | userDefined | unused | byte
  deriving DecidableEq, Repr

/-- An error of loading or applying a GGUF tokenizer. -/
inductive TokenizerError
  | missing (key : String)
  | wrongType (key expected : String)
  | unsupported (model : String)
  | typeCount (tokens types : Nat)
  | tooManyTokens
  | tooManyMerges
  | invalidTokenType (token : Nat) (code : Int32)
  | invalidMerge (index : Nat)
  | specialOutOfRange (id tokens : Nat)
  | tokenOutOfRange (id tokens : Nat)
  | missingPiece (token : String)
  | invalidUtf8
  | invalidBytePiece (id : Nat)
  deriving DecidableEq

inductive PreTokenizer
  | qwen2 | llama3
  deriving DecidableEq, Repr

/-- A hash map, by the value it holds for each key. -/
abbrev HashMap (κ α : Type) := κ → Option α

def HashMap.insert {κ α : Type} [DecidableEq κ] (m : HashMap κ α) (k : κ) (v : α) : HashMap κ α :=
  Function.update m k (some v)

/-- The bytes of a text. -/
def utf8Bytes (text : String) : List UInt8 := text.toList.flatMap String.utf8EncodeChar

/-! ## Loading -/

def requiredString (metadata : Metadata) (key : String) : Except TokenizerError String :=
  match (metadata.get? key).bind MetadataValue.asStr with
  | some value => .ok value
  | none =>
    if metadata.contains key then .error (.wrongType key "string") else .error (.missing key)

def requiredStrings (metadata : Metadata) (key : String) : Except TokenizerError (List String) :=
  match metadata.get? key with
  | some (.array (.string values)) => .ok values
  | some _ => .error (.wrongType key "string array")
  | none => .error (.missing key)

def requiredI32 (metadata : Metadata) (key : String) : Except TokenizerError (List Int32) :=
  match metadata.get? key with
  | some (.array (.int32 values)) => .ok values
  | some _ => .error (.wrongType key "i32 array")
  | none => .error (.missing key)

def optionalId (metadata : Metadata) (key : String) (tokens : Nat) :
    Except TokenizerError (Option Nat) :=
  match metadata.get? key with
  | none => .ok none
  | some value =>
    match value.asU64 with
    | none => .error (.wrongType key "unsigned integer")
    | some id =>
      if tokens ≤ id then .error (.specialOutOfRange id tokens)
      else if id < 2 ^ 32 then .ok (some id)
      else .error (.specialOutOfRange id tokens)

def optionalBool (metadata : Metadata) (key : String) : Except TokenizerError (Option Bool) :=
  match metadata.get? key with
  | some (.bool value) => .ok (some value)
  | some _ => .error (.wrongType key "boolean")
  | none => .ok none

def loadPreTokenizer (metadata : Metadata) : Except TokenizerError PreTokenizer := do
  let model ← requiredString metadata "tokenizer.ggml.model"
  let pre ← requiredString metadata "tokenizer.ggml.pre"
  if model = "gpt2" ∧ pre = "qwen2" then return .qwen2
  else if model = "gpt2" ∧ pre = "llama-bpe" then return .llama3
  else throw (.unsupported (model ++ "/" ++ pre))

def tokenType (token : Nat) (code : Int32) : Except TokenizerError TokenType :=
  if code = 1 then .ok .normal
  else if code = 2 then .ok .unknown
  else if code = 3 then .ok .control
  else if code = 4 then .ok .userDefined
  else if code = 5 then .ok .unused
  else if code = 6 then .ok .byte
  else .error (.invalidTokenType token code)

def loadTokenTypes (typeCodes : List Int32) : Except TokenizerError (List TokenType) :=
  typeCodes.zipIdx.mapM fun entry => tokenType entry.2 entry.1

/-- The identifier of each token string. A repeated string keeps its last identifier. -/
def loadTokenIds (tokens : List String) : Except TokenizerError (HashMap String Nat) :=
  tokens.zipIdx.foldlM (fun tokenToId entry =>
    match tryFrom 32 entry.2 with
    | some id => .ok (tokenToId.insert entry.1 id)
    | none => .error .tooManyTokens) fun _ => none

/-- A loaded vocabulary. The two lists have one length, which loading checks. -/
structure Vocabulary where
  tokens : List String
  tokenTypes : List TokenType
  tokenToId : HashMap String Nat

def loadVocabulary (metadata : Metadata) : Except TokenizerError Vocabulary := do
  let tokens ← requiredStrings metadata "tokenizer.ggml.tokens"
  let typeCodes ← requiredI32 metadata "tokenizer.ggml.token_type"
  if tokens.length ≠ typeCodes.length then throw (.typeCount tokens.length typeCodes.length)
  if (tryFrom 32 tokens.length).isNone then throw .tooManyTokens
  let tokenTypes ← loadTokenTypes typeCodes
  let tokenToId ← loadTokenIds tokens
  return ⟨tokens, tokenTypes, tokenToId⟩

/-- The parts before and after the first separator. -/
def splitOnce (separator : Char) (text : String) : Option (String × String) :=
  match text.toList.span (· ≠ separator) with
  | (_, []) => none
  | (left, _ :: right) => some (String.ofList left, String.ofList right)

/-- The rank of each pair of symbols. A repeated pair keeps its last rank. -/
def loadMerges (metadata : Metadata) : Except TokenizerError (HashMap (String × String) Nat) := do
  let merges ← requiredStrings metadata "tokenizer.ggml.merges"
  merges.zipIdx.foldlM (fun ranks entry =>
    match splitOnce ' ' entry.1 with
    | none => .error (.invalidMerge entry.2)
    | some pair =>
      match tryFrom 32 entry.2 with
      | some rank => .ok (ranks.insert pair rank)
      | none => .error .tooManyMerges) fun _ => none

def loadSpecialTokens (metadata : Metadata) (tokenCount : Nat) :
    Except TokenizerError (Option Nat × Option Nat × Bool × Bool) := do
  let bos ← optionalId metadata "tokenizer.ggml.bos_token_id" tokenCount
  let eos ← optionalId metadata "tokenizer.ggml.eos_token_id" tokenCount
  let addBos ← optionalBool metadata "tokenizer.ggml.add_bos_token"
  let addEos ← optionalBool metadata "tokenizer.ggml.add_eos_token"
  return (bos, eos, addBos.getD false, addEos.getD false)

/-! ### The byte map -/

/-- The bytes that stand for themselves. -/
def printableBytes : List (Fin 256) :=
  (List.finRange 256).filter fun byte =>
    (0x21 ≤ byte.val ∧ byte.val ≤ 0x7e) ∨ (0xa1 ≤ byte.val ∧ byte.val ≤ 0xac) ∨
      (0xae ≤ byte.val ∧ byte.val ≤ 0xff)

/-- Give the bytes that stand for themselves their characters, and mark them. -/
def assignPrintable (encoder : Vector Char 256) (assigned : Vector Bool 256) :
    List (Fin 256) → Vector Char 256 × Vector Bool 256
  | [] => (encoder, assigned)
  | byte :: rest =>
    assignPrintable (encoder.set byte (Char.ofNat byte) byte.isLt)
      (assigned.set byte true byte.isLt) rest

/-- Give the bytes left over the characters from 256 on. -/
def assignExtra (assigned : Vector Bool 256) (encoder : Vector Char 256) (extra : Nat) :
    List (Fin 256) → Vector Char 256
  | [] => encoder
  | byte :: rest =>
    if assigned.get byte then assignExtra assigned encoder extra rest
    else
      assignExtra assigned (encoder.set byte (Char.ofNat (256 + extra)) byte.isLt) (extra + 1) rest

/-- The byte of every character of an encoder. -/
def decoderMap (encoder : Vector Char 256) : HashMap Char UInt8 :=
  encoder.toList.zipIdx.foldl (fun decoder entry => decoder.insert entry.1 (UInt8.ofNat entry.2))
    fun _ => none

/-- The character of every byte, and the byte of every such character. -/
def byteMaps : Vector Char 256 × HashMap Char UInt8 :=
  let printable := assignPrintable (.replicate 256 '\x00') (.replicate 256 false) printableBytes
  let encoder := assignExtra printable.2 printable.1 0 (List.finRange 256)
  (encoder, decoderMap encoder)

/-! ### The tokenizer -/

/-- A supported GPT-2 byte-level BPE loaded from GGUF metadata. -/
structure Tokenizer where
  tokens : List String
  tokenTypes : List TokenType
  tokenToId : HashMap String Nat
  merges : HashMap (String × String) Nat
  byteEncoder : Vector Char 256
  byteDecoder : HashMap Char UInt8
  bos : Option Nat
  eos : Option Nat
  addBos : Bool
  addEos : Bool
  preTokenizer : PreTokenizer

def Tokenizer.fromMetadata (metadata : Metadata) : Except TokenizerError Tokenizer := do
  let preTokenizer ← loadPreTokenizer metadata
  let vocabulary ← loadVocabulary metadata
  let merges ← loadMerges metadata
  let (bos, eos, addBos, addEos) ← loadSpecialTokens metadata vocabulary.tokens.length
  return {
    tokens := vocabulary.tokens
    tokenTypes := vocabulary.tokenTypes
    tokenToId := vocabulary.tokenToId
    merges
    byteEncoder := byteMaps.1
    byteDecoder := byteMaps.2
    bos, eos, addBos, addEos, preTokenizer }

/-! ## Splitting text into words -/

/-- The Unicode categories that the split rule distinguishes. -/
inductive GeneralCategory
  | uppercaseLetter | lowercaseLetter | titlecaseLetter | modifierLetter | otherLetter
  | decimalNumber | letterNumber | otherNumber
  | other
  deriving DecidableEq, Repr

/-- The characters with the Unicode property of white space. -/
def isWhitespace (character : Char) : Bool :=
  let code := character.toNat
  (0x9 ≤ code && code ≤ 0xd) || code = 0x20 || code = 0x85 || code = 0xa0 || code = 0x1680 ||
    (0x2000 ≤ code && code ≤ 0x200a) || code = 0x2028 || code = 0x2029 || code = 0x202f ||
    code = 0x205f || code = 0x3000

def isNewline (character : Char) : Bool := character = '\r' || character = '\n'

section Split

variable (category : Char → GeneralCategory)

def isLetter (character : Char) : Bool :=
  category character ∈ [GeneralCategory.uppercaseLetter, .lowercaseLetter, .titlecaseLetter,
    .modifierLetter, .otherLetter]

def isNumber (character : Char) : Bool :=
  category character ∈ [GeneralCategory.decimalNumber, .letterNumber, .otherNumber]

def isPunctuationCharacter (value : Char) : Bool :=
  !isWhitespace value && !isLetter category value && !isNumber category value

/-- The position after the characters that satisfy `p`, counted from `stop`. -/
def scanWhile (p : Char → Bool) : List Char → Nat → Nat
  | c :: rest, stop => if p c then scanWhile p rest (stop + 1) else stop
  | [], stop => stop

def contractionEnd (characters : List Char) (position : Fin characters.length) : Option Nat :=
  if characters.get position ≠ '\x27' then none
  else match characters[position.val + 1]? with
    | none => none
    | some next =>
      if next.toLower ∈ ['s', 't', 'm', 'd'] then some (position + 2)
      else match characters[position.val + 2]? with
        | none => none
        | some last =>
          if (next.toLower, last.toLower) ∈ [('r', 'e'), ('v', 'e'), ('l', 'l')] then
            some (position + 3)
          else none

def letterEnd (characters : List Char) (position : Fin characters.length) : Option Nat :=
  let character := characters.get position
  if isNewline character || isNumber category character || (!isLetter category character &&
      !(characters[position.val + 1]?).any (isLetter category)) then none
  else some (scanWhile (isLetter category) (characters.drop (position + 1)) (position + 1))

def numberEnd (characters : List Char) (position : Fin characters.length) (digitLimit : Nat) :
    Option Nat :=
  if !isNumber category (characters.get position) then none
  else some (scanWhile (isNumber category)
    ((characters.drop (position + 1)).take (digitLimit - 1)) (position + 1))

def punctuationEnd (characters : List Char) (position : Fin characters.length) : Option Nat :=
  let start := if characters.get position = ' ' then position.val + 1 else position
  if !(characters[start]?).any (isPunctuationCharacter category) then none
  else
    let stop := scanWhile (isPunctuationCharacter category) (characters.drop start) start
    some (scanWhile isNewline (characters.drop stop) stop)

/-- The position after a run of white space, and the position after its last newline. -/
def scanWhitespace : List Char → Nat → Option Nat → Nat × Option Nat
  | c :: rest, stop, lastNewline =>
    if isWhitespace c then
      scanWhitespace rest (stop + 1) (if isNewline c then some (stop + 1) else lastNewline)
    else (stop, lastNewline)
  | [], stop, lastNewline => (stop, lastNewline)

def whitespaceEnd (characters : List Char) (position : Fin characters.length) : Nat :=
  match scanWhitespace (characters.drop position) position none with
  | (_, some newline) => newline
  | (stop, none) =>
    if 1 < stop - position ∧ stop < characters.length then stop - 1
    else if position < stop then stop
    else position + 1

/-- The position after the word that starts at `position`. -/
def pieceEnd (characters : List Char) (position : Fin characters.length) (digitLimit : Nat) :
    Nat :=
  match contractionEnd characters position with
  | some stop => stop
  | none =>
    match letterEnd category characters position with
    | some stop => stop
    | none =>
      match numberEnd category characters position digitLimit with
      | some stop => stop
      | none =>
        match punctuationEnd category characters position with
        | some stop => stop
        | none => whitespaceEnd characters position

theorem le_scanWhile (p : Char → Bool) (rest : List Char) (stop : Nat) :
    stop ≤ scanWhile p rest stop ∧ scanWhile p rest stop ≤ stop + rest.length := by
  induction rest generalizing stop with
  | nil => exact ⟨le_rfl, le_rfl⟩
  | cons c rest ih =>
    simp only [scanWhile, List.length_cons]
    split_ifs
    · have h := ih (stop + 1)
      omega
    · omega

theorem lt_scanWhile {p : Char → Bool} {characters : List Char} {start : Nat}
    (h : (characters[start]?).any p) : start < scanWhile p (characters.drop start) start ∧
      scanWhile p (characters.drop start) start ≤ characters.length := by
  have hlt : start < characters.length := by
    by_contra hge
    rw [List.getElem?_eq_none (not_lt.mp hge)] at h
    cases h
  rw [List.getElem?_eq_getElem hlt, Option.any_some] at h
  rw [List.drop_eq_getElem_cons hlt, scanWhile, if_pos h]
  have hscan := le_scanWhile p (characters.drop (start + 1)) (start + 1)
  rw [List.length_drop] at hscan
  omega

/-- The scan of white space stops inside the text, and a newline it saw lies before its end. -/
theorem scanWhitespace_bounds (start : Nat) (rest : List Char) (stop : Nat)
    (lastNewline : Option Nat) (hstart : start ≤ stop)
    (hlast : ∀ newline ∈ lastNewline, start < newline ∧ newline ≤ stop) :
    let scanned := scanWhitespace rest stop lastNewline
    start ≤ scanned.1 ∧ scanned.1 ≤ stop + rest.length ∧
      ∀ newline ∈ scanned.2, start < newline ∧ newline ≤ scanned.1 := by
  induction rest generalizing stop lastNewline with
  | nil => exact ⟨hstart, le_rfl, hlast⟩
  | cons c rest ih =>
    simp only [scanWhitespace, List.length_cons]
    split_ifs with hwhite hnewline
    · have h := ih (stop + 1) (some (stop + 1)) (by omega) (by simp; omega)
      exact ⟨h.1, by omega, h.2.2⟩
    · have h := ih (stop + 1) lastNewline (by omega)
        fun newline hmem => ⟨(hlast newline hmem).1, by have := (hlast newline hmem).2; omega⟩
      exact ⟨h.1, by omega, h.2.2⟩
    · exact ⟨hstart, by omega, hlast⟩

theorem contractionEnd_bounds {characters : List Char} {position : Fin characters.length}
    {stop : Nat} (h : contractionEnd characters position = some stop) :
    position < stop ∧ stop ≤ characters.length := by
  have hlt {i : Nat} {c : Char} (hget : characters[i]? = some c) : i < characters.length :=
    (List.getElem?_eq_some_iff.mp hget).1
  unfold contractionEnd at h
  split_ifs at h
  split at h
  · cases h
  · rename_i hnext
    have hfirst := hlt hnext
    split_ifs at h
    · cases h
      omega
    · split at h
      · cases h
      · rename_i hlast
        have hsecond := hlt hlast
        split_ifs at h
        cases h
        omega

theorem letterEnd_bounds {characters : List Char} {position : Fin characters.length}
    {stop : Nat} (h : letterEnd category characters position = some stop) :
    position < stop ∧ stop ≤ characters.length := by
  have hscan := le_scanWhile (isLetter category) (characters.drop (position + 1)) (position + 1)
  rw [List.length_drop] at hscan
  unfold letterEnd at h
  dsimp only at h
  split_ifs at h
  cases h
  omega

theorem numberEnd_bounds {characters : List Char} {position : Fin characters.length}
    {digitLimit stop : Nat} (h : numberEnd category characters position digitLimit = some stop) :
    position < stop ∧ stop ≤ characters.length := by
  have hscan := le_scanWhile (isNumber category)
    ((characters.drop (position + 1)).take (digitLimit - 1)) (position + 1)
  rw [List.length_take, List.length_drop] at hscan
  unfold numberEnd at h
  split_ifs at h
  cases h
  omega

theorem punctuationEnd_bounds {characters : List Char} {position : Fin characters.length}
    {stop : Nat} (h : punctuationEnd category characters position = some stop) :
    position < stop ∧ stop ≤ characters.length := by
  unfold punctuationEnd at h
  dsimp only at h
  have hstart : position.val ≤
      if characters.get position = ' ' then position.val + 1 else position := by
    split_ifs <;> omega
  generalize (if characters.get position = ' ' then position.val + 1 else position) = start at *
  split_ifs at h with hnone
  cases h
  have hscan := lt_scanWhile (p := isPunctuationCharacter category) (by simpa using hnone)
  generalize scanWhile (isPunctuationCharacter category) (characters.drop start) start = inner at *
  have hnewlines := le_scanWhile isNewline (characters.drop inner) inner
  rw [List.length_drop] at hnewlines
  omega

theorem whitespaceEnd_bounds (characters : List Char) (position : Fin characters.length) :
    position < whitespaceEnd characters position ∧
      whitespaceEnd characters position ≤ characters.length := by
  have hscan := scanWhitespace_bounds position (characters.drop position) position none le_rfl
    (by simp)
  rw [List.length_drop] at hscan
  unfold whitespaceEnd
  split
  · rename_i stop newline heq
    rw [heq] at hscan
    have hnewline := hscan.2.2 newline rfl
    omega
  · rename_i stop heq
    rw [heq] at hscan
    split_ifs <;> omega

/-- Every word has a character and ends inside the text. -/
theorem pieceEnd_bounds (characters : List Char) (position : Fin characters.length)
    (digitLimit : Nat) : position < pieceEnd category characters position digitLimit ∧
      pieceEnd category characters position digitLimit ≤ characters.length := by
  unfold pieceEnd
  split
  · exact contractionEnd_bounds ‹_›
  · split
    · exact letterEnd_bounds category ‹_›
    · split
      · exact numberEnd_bounds category ‹_›
      · split
        · exact punctuationEnd_bounds category ‹_›
        · exact whitespaceEnd_bounds characters position

/-- The words of the text from `position` on. -/
def bpePieces (characters : List Char) (digitLimit position : Nat) : List (List Char) :=
  if h : position < characters.length then
    let stop := pieceEnd category characters ⟨position, h⟩ digitLimit
    (characters.drop position).take (stop - position) :: bpePieces characters digitLimit stop
  else []
termination_by characters.length - position
decreasing_by
  have hbounds := pieceEnd_bounds category characters ⟨position, h⟩ digitLimit
  dsimp only at hbounds
  omega

def bpeSplit (text : String) (digitLimit : Nat) : List String :=
  (bpePieces category text.toList digitLimit 0).map String.ofList

end Split

end Leone.Text

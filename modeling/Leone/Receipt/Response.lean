import Leone.Receipt.Hex

/-!
# Response receipts

A receipt signs the claim of a served response and carries its public key and its signature as text.
-/

namespace Leone.Receipt

open Framework

def responseSchemaVersion : UInt32 := 1

/-- Reuse and replay counts bound into one served response. -/
structure SessionReplayRecord where
  sessionId : String
  reuseClass : String
  cachedTokens : UInt64
  reusedTokens : UInt64
  replayedTokens : UInt64
  computedTokens : UInt64
  deriving DecidableEq

/-- The canonical fields signed for one served response. The time is in nanoseconds. -/
structure ResponseClaim where
  schemaVersion : UInt32
  receiptId : BitVec 128
  createdUtc : Int
  engineVersion : String
  modelSha256 : String
  requestSha256 : String
  promptTokensSha256 : String
  responseTokensSha256 : String
  transcriptSha256 : String
  seed : UInt64
  promptTokens : UInt64
  generatedTokens : UInt64
  finishReason : String
  cancelled : Bool
  session : SessionReplayRecord
  deriving DecidableEq

/-- An Ed25519 signature and its canonical response claim. -/
structure ResponseReceipt where
  claim : ResponseClaim
  publicKeyEd25519 : String
  signatureEd25519 : String
  deriving DecidableEq

/-! ## Libraries -/

/-- What receipts use of `serde_json`. -/
structure SerdeJson (ε : Type) where
  toVec : ResponseClaim → Except ε (List UInt8)
  toVecPretty : ResponseReceipt → Except ε (List UInt8)
  fromSlice : List UInt8 → Except ε ResponseReceipt

/-- A written receipt is read back from its text and a newline. -/
def SerdeJson.Lossless {ε : Type} (json : SerdeJson ε) : Prop :=
  ∀ receipt text, json.toVecPretty receipt = .ok text → json.fromSlice (text ++ [10]) = .ok receipt

/-- What receipts use of `ed25519_dalek`. -/
structure Ed25519 (SigningKey VerifyingKey : Type) where
  verifyingKey : SigningKey → List UInt8
  sign : SigningKey → List UInt8 → List UInt8
  fromBytes : List UInt8 → Option VerifyingKey
  verify : VerifyingKey → List UInt8 → List UInt8 → Bool

/-- Keys have 32 bytes, signatures 64, and what a key signs verifies with its public key. -/
structure Ed25519.Correct {SigningKey VerifyingKey : Type} (ed : Ed25519 SigningKey VerifyingKey) :
    Prop where
  keyLength : ∀ key, (ed.verifyingKey key).length = 32
  signatureLength : ∀ key payload, (ed.sign key payload).length = 64
  verifies : ∀ key payload, ∃ verifying, ed.fromBytes (ed.verifyingKey key) = some verifying ∧
    ed.verify verifying payload (ed.sign key payload) = true

/-! ## Receipts -/

section Receipts

variable {ε SigningKey VerifyingKey : Type}

def isDigest (digest : String) : Bool :=
  decide (digest.utf8ByteSize = 64) && digest.toList.all isAsciiHexdigit

def validateDigests : List (String × String) → Except (Error ε) Unit
  | [] => .ok ()
  | (name, digest) :: rest =>
    if isDigest digest then validateDigests rest
    else .error (.validation (name ++ " SHA-256 is invalid"))

def validateClaim (claim : ResponseClaim) : Except (Error ε) Unit :=
  if claim.schemaVersion ≠ responseSchemaVersion then
    .error (.validation ("response schema version is " ++ toString claim.schemaVersion ++
      ", expected " ++ toString responseSchemaVersion))
  else do
    validateDigests [("model", claim.modelSha256), ("request", claim.requestSha256),
      ("prompt tokens", claim.promptTokensSha256), ("response tokens", claim.responseTokensSha256),
      ("transcript", claim.transcriptSha256)]
    if claim.finishReason = "" then .error (.validation "response finish reason is empty")
    else if claim.session.sessionId = "" ∨ claim.session.reuseClass = "" then
      .error (.validation "response session record is incomplete")
    else .ok ()

/-- The result of a library call with its error as a receipt error. -/
def orJson {α : Type} (result : Except ε α) : Except (Error ε) α :=
  match result with
  | .ok value => .ok value
  | .error e => .error (.json e)

namespace ResponseReceipt

variable (json : SerdeJson ε) (ed : Ed25519 SigningKey VerifyingKey)

/-- Signs one checked claim with a local key. -/
def sign (claim : ResponseClaim) (key : SigningKey) : Except (Error ε) ResponseReceipt := do
  validateClaim claim
  let payload ← orJson (json.toVec claim)
  let signature := ed.sign key payload
  return ⟨claim, encodeHex (ed.verifyingKey key), encodeHex signature⟩

/-- Verifies the schema and signature against the embedded public key. -/
def verify (receipt : ResponseReceipt) : Except (Error ε) Unit := do
  validateClaim receipt.claim
  let publicKey ← decodeArray 32 receipt.publicKeyEd25519 "public key"
  let signature ← decodeArray 64 receipt.signatureEd25519 "signature"
  match ed.fromBytes publicKey with
  | none => .error (.validation "response public key is invalid")
  | some key => do
    let payload ← orJson (json.toVec receipt.claim)
    if ed.verify key payload signature then .ok ()
    else .error (.validation "response signature does not verify")

/-- Parses a receipt and verifies it against its embedded public key. -/
def fromJson (bytes : List UInt8) : Except (Error ε) ResponseReceipt := do
  let receipt ← orJson (json.fromSlice bytes)
  receipt.verify json ed
  return receipt

def toJson (receipt : ResponseReceipt) : Except (Error ε) (List UInt8) := do
  receipt.verify json ed
  let bytes ← orJson (json.toVecPretty receipt)
  return bytes ++ [10]

end ResponseReceipt

/-! ## One encoding -/

def asciiLowercase (value : String) : String := String.ofList (value.toList.map Char.toLower)

/-- A string is read exactly when it has two digits for each byte, and is then the written form of
these bytes up to case. -/
def OneEncoding (ε : Type) (n : Nat) (value field : String) : Prop :=
  ((∃ bytes, (decodeArray n value field : Except (Error ε) (List UInt8)) = .ok bytes) ↔
      value.toList.length = n * 2 ∧ ∀ c ∈ value.toList, isAsciiHexdigit c = true) ∧
    ∀ bytes, (decodeArray n value field : Except (Error ε) (List UInt8)) = .ok bytes →
      encodeHex bytes = asciiLowercase value

/-- A string of digits but for signs at even offsets, of which it has one. -/
def Signed (n : Nat) (value : String) : Prop :=
  value.toList.length = n * 2 ∧ Readable value.toList ∧ '+' ∈ value.toList

theorem oneEncoding_iff (n : Nat) (value field : String) :
    OneEncoding ε n value field ↔ ¬ Signed n value := by
  have hdecode : (∃ bytes, (decodeArray n value field : Except (Error ε) (List UInt8)) = .ok bytes) ↔
      value.toList.length = n * 2 ∧ Readable value.toList := by
    simp only [decodeArray_eq_ok]
    exact reads_iff
  have hnotDigit : isAsciiHexdigit '+' = false := by decide
  constructor
  · intro hone hsigned
    have hall := (hone.1.mp (hdecode.mpr ⟨hsigned.1, hsigned.2.1⟩)).2 '+' hsigned.2.2
    rw [hnotDigit] at hall
    cases hall
  · intro hsigned
    refine ⟨?_, ?_⟩
    · rw [hdecode]
      constructor
      · intro h
        refine ⟨h.1, ?_⟩
        intro c hc
        rcases List.mem_iff_getElem?.mp hc with ⟨i, hi⟩
        rcases h.2 i c hi with hdigit | hplus
        · exact hdigit
        · rw [hplus.1] at hc
          exact (hsigned ⟨h.1, h.2, hc⟩).elim
      · intro h
        refine ⟨h.1, ?_⟩
        intro i c hi
        exact .inl (h.2 c (List.mem_of_getElem? hi))
    · intro bytes hbytes
      rcases decodeArray_eq_ok.mp hbytes with ⟨hreads, hcount⟩
      have hreadable := reads_iff.mp ⟨bytes, hreads, hcount⟩
      rw [encodeHex, asciiLowercase, hreads.lower]
      intro hplus
      exact hsigned ⟨hreadable.1, hreadable.2, hplus⟩

theorem decodeArray_encodeHex (bytes : List UInt8) (field : String) :
    (decodeArray bytes.length (encodeHex bytes) field : Except (Error ε) (List UInt8)) =
      .ok bytes := by
  apply decodeArray_eq_ok.mpr
  rw [encodeHex, String.toList_ofList]
  exact ⟨Reads.encoded bytes, rfl⟩

/-! ## Signed receipts -/

variable {json : SerdeJson ε} {ed : Ed25519 SigningKey VerifyingKey}

/-- Two texts that are read as the same bytes. -/
def SameBytes (ε : Type) (n : Nat) (value value' field : String) : Prop :=
  ∃ bytes, (decodeArray n value field : Except (Error ε) (List UInt8)) = .ok bytes ∧
    (decodeArray n value' field : Except (Error ε) (List UInt8)) = .ok bytes

/-- Two texts with plus signs at the same places. -/
def SameSigns (value value' : String) : Prop :=
  ∀ i : Nat, value.toList[i]? = some '+' ↔ value'.toList[i]? = some '+'

theorem asciiLowercase_eq_iff {n : Nat} {value value' field : String}
    (h : SameBytes ε n value value' field) :
    asciiLowercase value = asciiLowercase value' ↔ SameSigns value value' := by
  rcases h with ⟨bytes, hvalue, hvalue'⟩
  have hreads := (decodeArray_eq_ok.mp hvalue).1
  have hreads' := (decodeArray_eq_ok.mp hvalue').1
  rw [asciiLowercase, asciiLowercase, String.ofList_inj]
  exact hreads.lower_eq_iff hreads'

/-- A signed receipt verifies. -/
theorem verify_sign (hed : ed.Correct) {claim : ResponseClaim} {key : SigningKey}
    {receipt : ResponseReceipt} (h : ResponseReceipt.sign json ed claim key = .ok receipt) :
    receipt.verify json ed = .ok () := by
  rw [ResponseReceipt.sign, bind_eq_ok] at h
  rcases h with ⟨_, hclaim, h⟩
  rw [bind_eq_ok] at h
  rcases h with ⟨payload, hpayload, h⟩
  cases h
  have hkey : (decodeArray 32 (encodeHex (ed.verifyingKey key)) "public key" :
      Except (Error ε) (List UInt8)) = .ok (ed.verifyingKey key) := by
    rw [← hed.keyLength key]
    exact decodeArray_encodeHex _ _
  have hsignature : (decodeArray 64 (encodeHex (ed.sign key payload)) "signature" :
      Except (Error ε) (List UInt8)) = .ok (ed.sign key payload) := by
    rw [← hed.signatureLength key payload]
    exact decodeArray_encodeHex _ _
  rcases hed.verifies key payload with ⟨verifying, hverifying, hverifies⟩
  simp only [ResponseReceipt.verify, bind_eq_ok]
  refine ⟨(), hclaim, _, hkey, _, hsignature, ?_⟩
  rw [hverifying]
  simp only [bind_eq_ok]
  exact ⟨payload, hpayload, if_pos hverifies⟩

theorem fromJson_toJson (hed : ed.Correct) (hjson : json.Lossless) {claim : ResponseClaim}
    {key : SigningKey} {receipt : ResponseReceipt}
    (h : ResponseReceipt.sign json ed claim key = .ok receipt) {text : List UInt8}
    (htext : json.toVecPretty receipt = .ok text) :
    receipt.toJson json ed = .ok (text ++ [10]) ∧
      ResponseReceipt.fromJson json ed (text ++ [10]) = .ok receipt := by
  have hverify := verify_sign hed h
  constructor
  · simp only [ResponseReceipt.toJson, bind_eq_ok, htext, orJson]
    exact ⟨(), hverify, text, rfl, rfl⟩
  · simp only [ResponseReceipt.fromJson, bind_eq_ok, hjson receipt text htext, orJson]
    exact ⟨receipt, rfl, (), hverify, rfl⟩

/-- What verifies says nothing about how the key and the signature are written. -/
theorem verify_sameBytes {receipt receipt' : ResponseReceipt}
    (hclaim : receipt.claim = receipt'.claim)
    (hkey : SameBytes ε 32 receipt.publicKeyEd25519 receipt'.publicKeyEd25519 "public key")
    (hsignature : SameBytes ε 64 receipt.signatureEd25519 receipt'.signatureEd25519 "signature")
    (h : receipt.verify json ed = .ok ()) : receipt'.verify json ed = .ok () := by
  rcases hkey with ⟨key, hkey, hkey'⟩
  rcases hsignature with ⟨signature, hsignature, hsignature'⟩
  rw [ResponseReceipt.verify, hkey, hsignature] at h
  rw [ResponseReceipt.verify, hkey', hsignature', ← hclaim]
  exact h

/-- Texts have one encoding unless they have signs, which are read as zeros. Receipts that are signed
here are read back as they were written. -/
theorem receipt_encoding_iff (json : SerdeJson ε) (ed : Ed25519 SigningKey VerifyingKey)
    (hed : ed.Correct) (hjson : json.Lossless) :
    (∀ n value field, OneEncoding ε n value field ↔ ¬ Signed n value) ∧
    (∀ bytes field, (decodeArray bytes.length (encodeHex bytes) field :
      Except (Error ε) (List UInt8)) = .ok bytes) ∧
    (∀ receipt receipt' : ResponseReceipt, receipt.verify json ed = .ok () →
      receipt'.verify json ed = .ok () → receipt.claim = receipt'.claim →
      SameBytes ε 32 receipt.publicKeyEd25519 receipt'.publicKeyEd25519 "public key" →
      SameBytes ε 64 receipt.signatureEd25519 receipt'.signatureEd25519 "signature" →
      ((asciiLowercase receipt.publicKeyEd25519 = asciiLowercase receipt'.publicKeyEd25519 ∧
          asciiLowercase receipt.signatureEd25519 = asciiLowercase receipt'.signatureEd25519) ↔
        SameSigns receipt.publicKeyEd25519 receipt'.publicKeyEd25519 ∧
          SameSigns receipt.signatureEd25519 receipt'.signatureEd25519)) ∧
    ∀ claim key receipt text, ResponseReceipt.sign json ed claim key = .ok receipt →
      json.toVecPretty receipt = .ok text → receipt.toJson json ed = .ok (text ++ [10]) ∧
        ResponseReceipt.fromJson json ed (text ++ [10]) = .ok receipt := by
  refine ⟨?_, ?_, ?_, ?_⟩
  · intro n value field
    exact oneEncoding_iff n value field
  · intro bytes field
    exact decodeArray_encodeHex bytes field
  · intro receipt receipt' _ _ _ hkey hsignature
    rw [asciiLowercase_eq_iff hkey, asciiLowercase_eq_iff hsignature]
  · intro claim key receipt text h htext
    exact fromJson_toJson hed hjson h htext

end Receipts

/-! ## A signed response -/

def repeated (c : Char) : String := String.ofList (List.replicate 64 c)

/-- A claim of one token. Its time is the first of September 2026. -/
def fixtureClaim : ResponseClaim where
  schemaVersion := 1
  receiptId := 0
  createdUtc := 1788220800000000000
  engineVersion := "fixture"
  modelSha256 := repeated 'a'
  requestSha256 := repeated 'b'
  promptTokensSha256 := repeated 'c'
  responseTokensSha256 := repeated 'd'
  transcriptSha256 := repeated 'e'
  seed := 0
  promptTokens := 1
  generatedTokens := 1
  finishReason := "length"
  cancelled := false
  session := ⟨"fixture", "cold", 0, 0, 0, 1⟩

/-- The public key of the signing key of 32 sevens. -/
def fixturePublicKey : List UInt8 :=
  [0xea, 0x4a, 0x6c, 0x63, 0xe2, 0x9c, 0x52, 0x0a, 0xbe, 0xf5, 0x50, 0x7b, 0x13, 0x2e, 0xc5, 0xf9,
    0x95, 0x47, 0x76, 0xae, 0xbe, 0xbe, 0x7b, 0x92, 0x42, 0x1e, 0xea, 0x69, 0x14, 0x46, 0xd2, 0x2c]

/-- What the key signs for the claim. -/
def fixtureSignature : List UInt8 :=
  [0xb4, 0x44, 0xd7, 0x35, 0x1f, 0x7c, 0xff, 0x94, 0x47, 0xe6, 0x4e, 0x31, 0x4c, 0x39, 0xe0, 0x37,
    0x8b, 0x84, 0x5d, 0xf4, 0xe6, 0xfc, 0xe9, 0xf4, 0xb9, 0x81, 0x51, 0x4c, 0xaa, 0xc4, 0xc6, 0xc1,
    0x25, 0xe0, 0x18, 0x77, 0x37, 0x7f, 0xa6, 0x14, 0xc1, 0x43, 0xb8, 0xb3, 0xe8, 0x6e, 0xa4, 0x97,
    0x2f, 0x91, 0xab, 0x42, 0xb6, 0x43, 0xb0, 0x57, 0x6b, 0x49, 0x29, 0xb9, 0x47, 0xb7, 0x36, 0x0c]

def fixtureReceipt : ResponseReceipt :=
  ⟨fixtureClaim, encodeHex fixturePublicKey, encodeHex fixtureSignature⟩

/-- An object with its fields, on lines of their own if there is a line break. -/
def objectText (newline indent close colon : String) (fields : List (String × String)) : String :=
  "\x7b" ++ newline ++ String.intercalate ("," ++ newline) (fields.map fun field =>
    indent ++ "\"" ++ field.1 ++ "\"" ++ colon ++ field.2) ++ newline ++ close ++ "\x7d"

def quoted (text : String) : String := "\"" ++ text ++ "\""

def sessionFields : List (String × String) :=
  [("session_id", quoted "fixture"), ("reuse_class", quoted "cold"), ("cached_tokens", "0"),
    ("reused_tokens", "0"), ("replayed_tokens", "0"), ("computed_tokens", "1")]

def claimFields (session : String) : List (String × String) :=
  [("schema_version", "1"), ("receipt_id", quoted "00000000-0000-0000-0000-000000000000"),
    ("created_utc", quoted "2026-09-01T00:00:00Z"), ("engine_version", quoted "fixture"),
    ("model_sha256", quoted (repeated 'a')), ("request_sha256", quoted (repeated 'b')),
    ("prompt_tokens_sha256", quoted (repeated 'c')),
    ("response_tokens_sha256", quoted (repeated 'd')), ("transcript_sha256", quoted (repeated 'e')),
    ("seed", "0"), ("prompt_tokens", "1"), ("generated_tokens", "1"),
    ("finish_reason", quoted "length"), ("cancelled", "false"), ("session", session)]

def fixturePayload : String :=
  objectText "" "" "" ":" (claimFields (objectText "" "" "" ":" sessionFields))

def fixtureText : String :=
  objectText "\n" "  " "" ": "
    [("claim", objectText "\n" "    " "  " ": "
        (claimFields (objectText "\n" "      " "    " ": " sessionFields))),
      ("public_key_ed25519", quoted fixtureReceipt.publicKeyEd25519),
      ("signature_ed25519", quoted fixtureReceipt.signatureEd25519)]

/-- A JSON library that writes one claim and one receipt. -/
def jsonOf (payload text : List UInt8) (receipt : ResponseReceipt) : SerdeJson Unit where
  toVec claim := if claim = receipt.claim then .ok payload else .error ()
  toVecPretty other := if other = receipt then .ok text else .error ()
  fromSlice bytes := if bytes = text ++ [10] then .ok receipt else .error ()

theorem toVecPretty_jsonOf (payload text : List UInt8) (receipt : ResponseReceipt) :
    (jsonOf payload text receipt).toVecPretty receipt = .ok text := by
  simp [jsonOf]

theorem jsonOf_lossless (payload text : List UInt8) (receipt : ResponseReceipt) :
    (jsonOf payload text receipt).Lossless := by
  intro other bytes h
  simp only [jsonOf] at h ⊢
  split_ifs at h with hother
  cases h
  rw [hother, if_pos rfl]

/-- Signing with one key. -/
def signer (key signature : List UInt8) : Ed25519 Unit Unit where
  verifyingKey _ := key
  sign _ _ := signature
  fromBytes bytes := if bytes = key then some () else none
  verify _ _ bytes := decide (bytes = signature)

theorem signer_correct {key signature : List UInt8} (hkey : key.length = 32)
    (hsignature : signature.length = 64) : (signer key signature).Correct where
  keyLength _ := hkey
  signatureLength _ _ := hsignature
  verifies _ _ := ⟨(), if_pos rfl, decide_eq_true rfl⟩

theorem sign_signer (payload text key signature : List UInt8) {claim : ResponseClaim}
    (hclaim : (validateClaim claim : Except (Error Unit) Unit) = .ok ()) :
    ResponseReceipt.sign (jsonOf payload text ⟨claim, encodeHex key, encodeHex signature⟩)
      (signer key signature) claim () = .ok ⟨claim, encodeHex key, encodeHex signature⟩ := by
  simp [ResponseReceipt.sign, hclaim, jsonOf, signer, orJson, bind_eq_ok, pure, Except.pure]

theorem isDigest_repeated {c : Char} (hc : isAsciiHexdigit c = true) (hascii : c.toNat < 128) :
    isDigest (repeated c) = true := by
  have hsize := utf8ByteSize_ascii (List.replicate 64 c) fun other hother => by
    rw [List.eq_of_mem_replicate hother]
    exact hascii
  rw [isDigest, repeated, hsize, String.toList_ofList]
  simp [hc]

theorem validateClaim_fixture : (validateClaim fixtureClaim : Except (Error Unit) Unit) = .ok () := by
  have ha := isDigest_repeated (c := 'a') (by decide) (by decide)
  have hb := isDigest_repeated (c := 'b') (by decide) (by decide)
  have hc := isDigest_repeated (c := 'c') (by decide) (by decide)
  have hd := isDigest_repeated (c := 'd') (by decide) (by decide)
  have he := isDigest_repeated (c := 'e') (by decide) (by decide)
  simp only [validateClaim, fixtureClaim, responseSchemaVersion, validateDigests, ha, hb, hc, hd, he]
  rfl

def fixtureJson : SerdeJson Unit :=
  jsonOf fixturePayload.toUTF8.data.toList fixtureText.toUTF8.data.toList fixtureReceipt

def fixtureEd25519 : Ed25519 Unit Unit := signer fixturePublicKey fixtureSignature

theorem receipt_encoding_fixture :
    fixtureReceipt.toJson fixtureJson fixtureEd25519 =
        .ok (fixtureText.toUTF8.data.toList ++ [10]) ∧
      ResponseReceipt.fromJson fixtureJson fixtureEd25519 (fixtureText.toUTF8.data.toList ++ [10]) =
        .ok fixtureReceipt :=
  (receipt_encoding_iff fixtureJson fixtureEd25519 (signer_correct rfl rfl)
    (jsonOf_lossless _ _ _)).2.2.2 fixtureClaim () fixtureReceipt _
    (sign_signer _ _ _ _ validateClaim_fixture) (toVecPretty_jsonOf _ _ _)

/-! ## A sign in a key -/

/-- The public key with a sign for the first digit of its eighth byte. -/
def signedPublicKey : String :=
  "ea4a6c63e29c52+abef5507b132ec5f9954776aebebe7b92421eea691446d22c"

def signedReceipt : ResponseReceipt := { fixtureReceipt with publicKeyEd25519 := signedPublicKey }

/-- Whether the characters are digits, and signs at even offsets. -/
def isReadable (cs : List Char) : Bool :=
  cs.zipIdx.all fun entry => isAsciiHexdigit entry.1 || decide (entry.1 = '+' ∧ entry.2 % 2 = 0)

theorem readable_of_isReadable {cs : List Char} (h : isReadable cs = true) : Readable cs := by
  intro i c hc
  have hentry := List.all_eq_true.mp h (c, i) (List.mem_zipIdx_iff_getElem?.mpr hc)
  simpa using hentry

theorem decodeArray_signedPublicKey : (decodeArray 32 signedPublicKey "public key" :
    Except (Error Unit) (List UInt8)) = .ok fixturePublicKey := by
  have hcheck : (decodeArray 32 signedPublicKey "public key" :
      Except (Error Unit) (List UInt8)).toOption = some fixturePublicKey := by decide +kernel
  cases h : (decodeArray 32 signedPublicKey "public key" : Except (Error Unit) (List UInt8)) with
  | error e =>
    rw [h] at hcheck
    cases hcheck
  | ok bytes =>
    rw [h] at hcheck
    rw [Option.some.inj hcheck]

theorem not_oneEncoding_signedPublicKey :
    ¬ OneEncoding Unit 32 signedPublicKey "public key" ∧
      fixtureReceipt.verify fixtureJson fixtureEd25519 = .ok () ∧
      signedReceipt.verify fixtureJson fixtureEd25519 = .ok () ∧
      asciiLowercase fixtureReceipt.publicKeyEd25519 ≠
        asciiLowercase signedReceipt.publicKeyEd25519 := by
  have hreadable : Readable signedPublicKey.toList := readable_of_isReadable (by decide +kernel)
  have hsigned : Signed 32 signedPublicKey := ⟨by decide +kernel, hreadable, by decide +kernel⟩
  have hverify : fixtureReceipt.verify fixtureJson fixtureEd25519 = .ok () :=
    verify_sign (signer_correct rfl rfl) (sign_signer _ _ _ _ validateClaim_fixture)
  have hkey : SameBytes Unit 32 fixtureReceipt.publicKeyEd25519 signedReceipt.publicKeyEd25519
      "public key" :=
    ⟨fixturePublicKey, decodeArray_encodeHex fixturePublicKey _, decodeArray_signedPublicKey⟩
  have hsignature : SameBytes Unit 64 fixtureReceipt.signatureEd25519
      signedReceipt.signatureEd25519 "signature" :=
    ⟨fixtureSignature, decodeArray_encodeHex fixtureSignature _,
      decodeArray_encodeHex fixtureSignature _⟩
  have hclaim : fixtureReceipt.claim = signedReceipt.claim := rfl
  refine ⟨?_, hverify, verify_sameBytes hclaim hkey hsignature hverify, by decide +kernel⟩
  rw [oneEncoding_iff, not_not]
  exact hsigned

end Leone.Receipt

import Mathlib
import Leone.Text.Constraint

/-!
# Constrained decoding completes an object

An admitted beginning is white space, or the beginning of a JSON object behind white space. Every
beginning of an object can be completed byte by byte. White space can be continued by an object
unless it holds a form feed, which is white space for the constraint but not for JSON.
-/

namespace Leone.Text

open Framework JsonObjectConstraint

/-! ## Admissible beginnings -/

section Prefix

variable {fromSlice : List UInt8 → JsonOutcome} {limit : Nat}

theorem isAsciiWhitespace_iff (byte : UInt8) :
    isAsciiWhitespace byte = true ↔ Json.isWhitespace byte = true ∨ byte = 0x0c := by
  simp only [isAsciiWhitespace, Json.isWhitespace, Bool.or_eq_true, beq_iff_eq]
  tauto

theorem step_formFeed : Json.step limit Json.start 0x0c = none := rfl

/-- Leading white space is read unless it holds a form feed. -/
theorem run_lead {lead : List UInt8} (h : ∀ byte ∈ lead, isAsciiWhitespace byte) :
    Json.run limit Json.start lead = if 0x0c ∈ lead then none else some Json.start := by
  induction lead with
  | nil => rfl
  | cons byte lead ih =>
    have hrest := ih fun b hb => h b (List.mem_cons_of_mem byte hb)
    rw [Json.run_cons]
    rcases (isAsciiWhitespace_iff byte).mp (h byte List.mem_cons_self) with hws | hff
    · have hne : (0x0c : UInt8) ≠ byte := by
        intro heq
        subst heq
        exact absurd hws (by decide)
      have hstep : Json.step limit Json.start byte = some Json.start := if_pos hws
      rw [hstep, Option.bind_some, hrest]
      simp [hne]
    · subst hff
      rw [step_formFeed]
      simp

theorem not_formFeed_of_run {lead rest : List UInt8} {state : Json.State}
    (hlead : ∀ byte ∈ lead, isAsciiWhitespace byte)
    (h : Json.run limit Json.start (lead ++ rest) = some state) : 0x0c ∉ lead := by
  intro hmem
  obtain ⟨middle, hmiddle⟩ := Json.run_of_append h
  rw [run_lead hlead, if_pos hmem] at hmiddle
  cases hmiddle

/-- The bytes begin with an opening brace behind white space. -/
def OpensObject (bytes : List UInt8) : Prop :=
  ∃ lead rest, bytes = lead ++ 0x7b :: rest ∧ ∀ byte ∈ lead, isAsciiWhitespace byte

theorem OpensObject.firstSignificant {bytes : List UInt8} (h : OpensObject bytes)
    {state : Json.State} (hrun : Json.run limit Json.start bytes = some state) :
    firstSignificant bytes = some 0x7b := by
  obtain ⟨lead, rest, rfl, hlead⟩ := h
  have hclean := not_formFeed_of_run hlead hrun
  rw [Text.firstSignificant, List.find?_append]
  have hnone : lead.find? (fun byte => !Json.isWhitespace byte) = none := by
    rw [List.find?_eq_none]
    intro byte hmem
    rcases (isAsciiWhitespace_iff byte).mp (hlead byte hmem) with hws | hff
    · simp [hws]
    · exact absurd (hff ▸ hmem) hclean
  rw [hnone]
  rfl

theorem find?_eq_none_iff {bytes : List UInt8} :
    bytes.find? (fun byte => !isAsciiWhitespace byte) = none ↔
      ∀ byte ∈ bytes, isAsciiWhitespace byte := by
  simp [List.find?_eq_none]

theorem opensObject_iff {bytes : List UInt8} :
    OpensObject bytes ↔ bytes.find? (fun byte => !isAsciiWhitespace byte) = some 0x7b := by
  rw [List.find?_eq_some_iff_append]
  constructor
  · rintro ⟨lead, rest, hbytes, hlead⟩
    exact ⟨rfl, lead, rest, hbytes, fun byte hmem => by simp [hlead byte hmem]⟩
  · rintro ⟨_, lead, rest, hbytes, hlead⟩
    exact ⟨lead, rest, hbytes, fun byte hmem => by simpa using hlead byte hmem⟩

/-- An admitted beginning, in terms of the reader. -/
def Beginning (limit : Nat) (bytes : List UInt8) : Prop :=
  (∀ byte ∈ bytes, isAsciiWhitespace byte) ∨
    (OpensObject bytes ∧ ∃ state, Json.run limit Json.start bytes = some state)

theorem validObjectPrefix_iff (hserde : ReadsJson fromSlice limit) (bytes : List UInt8) :
    validObjectPrefix fromSlice bytes = true ↔ Beginning limit bytes := by
  unfold validObjectPrefix Beginning
  rw [← find?_eq_none_iff, opensObject_iff]
  cases hfind : bytes.find? fun byte => !isAsciiWhitespace byte with
  | none => simp
  | some first =>
    by_cases hfirst : first = 0x7b
    · subst hfirst
      simp only [ne_eq, not_true_eq_false, if_false, reduceCtorEq, false_or, true_and]
      have hopens := opensObject_iff.mpr hfind
      constructor
      · intro hvalid
        cases hparse : fromSlice bytes with
        | object => obtain ⟨⟨state, hrun, _⟩, _⟩ := (hserde.object bytes).mp hparse; exact ⟨state, hrun⟩
        | eof => obtain ⟨state, hrun, _⟩ := (hserde.eof bytes).mp hparse; exact ⟨state, hrun⟩
        | other => simp [hparse] at hvalid
        | invalid => simp [hparse] at hvalid
      · rintro ⟨state, hrun⟩
        by_cases hfinal : state.final
        · have hobject := (hserde.object bytes).mpr
            ⟨⟨state, hrun, hfinal⟩, hopens.firstSignificant hrun⟩
          simp [hobject]
        · have heof := (hserde.eof bytes).mpr ⟨state, hrun, hfinal⟩
          simp [heof]
    · simp [hfirst]

theorem Beginning.of_append {xs ys : List UInt8} (h : Beginning limit (xs ++ ys)) :
    Beginning limit xs := by
  rcases h with hspace | ⟨⟨lead, rest, hbytes, hlead⟩, state, hrun⟩
  · exact Or.inl fun byte hmem => hspace byte (List.mem_append_left ys hmem)
  · rcases List.append_eq_append_iff.mp hbytes with ⟨between, hlead', _⟩ | ⟨between, hxs, hrest⟩
    · exact Or.inl fun byte hmem => hlead byte (hlead' ▸ List.mem_append_left between hmem)
    · cases between with
      | nil =>
        rw [List.append_nil] at hxs
        exact Or.inl (hxs ▸ hlead)
      | cons first between =>
        have hfirst := (List.cons.inj hrest).1
        subst hfirst
        exact Or.inr ⟨⟨lead, between, hxs, hlead⟩, Json.run_of_append hrun⟩

theorem isComplete_iff (hserde : ReadsJson fromSlice limit) (c : JsonObjectConstraint) :
    c.isComplete fromSlice = true ↔
      Json.Accepts limit c.bytes ∧ firstSignificant c.bytes = some 0x7b := by
  rw [isComplete, decide_eq_true_iff]
  exact hserde.object c.bytes

end Prefix

/-! ## Sequences of tokens -/

section Tokens

variable {fromSlice : List UInt8 → JsonOutcome} {limit : Nat} {tokenizer : Tokenizer}

/-- Text tokens whose bytes together are these. -/
inductive Spells (tokenizer : Tokenizer) : List Nat → List UInt8 → Prop
  | nil : Spells tokenizer [] []
  | cons {token : Nat} {tokens : List Nat} {piece bytes : List UInt8}
      (heos : some token ≠ tokenizer.eos) (hpiece : tokenizer.tokenBytes token = .ok piece)
      (hne : piece ≠ []) (hrest : Spells tokenizer tokens bytes) :
      Spells tokenizer (token :: tokens) (piece ++ bytes)

theorem exists_spells (hvocab : ByteVocabulary tokenizer) (bytes : List UInt8) :
    ∃ tokens, Spells tokenizer tokens bytes := by
  induction bytes with
  | nil => exact ⟨[], .nil⟩
  | cons byte bytes ih =>
    obtain ⟨token, heos, hpiece⟩ := hvocab.byteToken byte
    obtain ⟨tokens, hrest⟩ := ih
    exact ⟨token :: tokens, .cons heos hpiece (List.cons_ne_nil byte []) hrest⟩

theorem accept_eq_ok {c c' : JsonObjectConstraint} {token : Nat} :
    c.accept fromSlice tokenizer token = .ok c' ↔
      (some token = tokenizer.eos ∧ c.isComplete fromSlice = true ∧ c = c') ∨
      (some token ≠ tokenizer.eos ∧ ∃ piece, tokenizer.tokenBytes token = .ok piece ∧ piece ≠ [] ∧
        c.allowsBytes fromSlice piece = true ∧ { bytes := c.bytes ++ piece } = c') := by
  unfold accept
  by_cases heos : some token = tokenizer.eos
  · by_cases hcomplete : c.isComplete fromSlice = true <;> simp [heos, hcomplete]
  · cases hpiece : tokenizer.tokenBytes token with
    | error error => simp [heos]
    | ok piece =>
      by_cases hallowed : c.allowsBytes fromSlice piece = true
      · by_cases hempty : piece = [] <;> simp [heos, hallowed, hempty]
      · simp [heos, hallowed]

theorem accept_text {c : JsonObjectConstraint} {token : Nat} {piece : List UInt8}
    (heos : some token ≠ tokenizer.eos) (hpiece : tokenizer.tokenBytes token = .ok piece)
    (hne : piece ≠ []) :
    c.accept fromSlice tokenizer token =
      if validObjectPrefix fromSlice (c.bytes ++ piece) then .ok { bytes := c.bytes ++ piece }
      else .error .invalidTransition := by
  unfold accept
  rw [if_neg heos, hpiece]
  dsimp only [allowsBytes]
  by_cases hvalid : validObjectPrefix fromSlice (c.bytes ++ piece) = true <;> simp [hne, hvalid]

/-- Whether a sequence of text tokens is accepted depends on its bytes alone. -/
theorem acceptAll_spells (hserde : ReadsJson fromSlice limit) {tokens : List Nat}
    {bytes : List UInt8} (h : Spells tokenizer tokens bytes) (c : JsonObjectConstraint)
    (hc : validObjectPrefix fromSlice c.bytes = true) :
    c.acceptAll fromSlice tokenizer tokens =
      if validObjectPrefix fromSlice (c.bytes ++ bytes) then .ok { bytes := c.bytes ++ bytes }
      else .error .invalidTransition := by
  induction h generalizing c with
  | nil =>
    rw [List.append_nil, if_pos hc]
    rfl
  | @cons token tokens piece bytes heos hpiece hne _ ih =>
    rw [acceptAll, List.foldlM_cons, accept_text heos hpiece hne]
    by_cases hvalid : validObjectPrefix fromSlice (c.bytes ++ piece) = true
    · rw [if_pos hvalid, ← List.append_assoc]
      exact ih { bytes := c.bytes ++ piece } hvalid
    · have hlonger : validObjectPrefix fromSlice (c.bytes ++ (piece ++ bytes)) ≠ true := by
        intro hlonger
        rw [← List.append_assoc, validObjectPrefix_iff hserde] at hlonger
        exact hvalid ((validObjectPrefix_iff hserde _).mpr hlonger.of_append)
      rw [if_neg hvalid, if_neg hlonger]
      rfl

theorem acceptAll_cons {c c' : JsonObjectConstraint} {token : Nat} {tokens : List Nat}
    (h : c.acceptAll fromSlice tokenizer (token :: tokens) = .ok c') :
    ∃ middle, c.accept fromSlice tokenizer token = .ok middle ∧
      middle.acceptAll fromSlice tokenizer tokens = .ok c' := by
  rw [acceptAll, List.foldlM_cons] at h
  exact bind_eq_ok.mp h

theorem accept_valid {c c' : JsonObjectConstraint} {token : Nat}
    (hc : validObjectPrefix fromSlice c.bytes = true)
    (h : c.accept fromSlice tokenizer token = .ok c') :
    validObjectPrefix fromSlice c'.bytes = true ∧ ∃ more, c'.bytes = c.bytes ++ more := by
  rcases accept_eq_ok.mp h with ⟨_, _, rfl⟩ | ⟨_, piece, _, _, hallowed, rfl⟩
  · exact ⟨hc, [], (List.append_nil _).symm⟩
  · exact ⟨hallowed, piece, rfl⟩

/-- Along accepted tokens the bytes stay admissible and only grow. -/
theorem acceptAll_valid {c c' : JsonObjectConstraint} {tokens : List Nat}
    (hc : validObjectPrefix fromSlice c.bytes = true)
    (h : c.acceptAll fromSlice tokenizer tokens = .ok c') :
    validObjectPrefix fromSlice c'.bytes = true ∧ ∃ more, c'.bytes = c.bytes ++ more := by
  induction tokens generalizing c with
  | nil =>
    cases h
    exact ⟨hc, [], (List.append_nil _).symm⟩
  | cons token tokens ih =>
    obtain ⟨middle, hfirst, hrest⟩ := acceptAll_cons h
    obtain ⟨hmiddle, piece, hpiece⟩ := accept_valid hc hfirst
    obtain ⟨hvalid, more, hmore⟩ := ih hmiddle hrest
    exact ⟨hvalid, piece ++ more, by rw [hmore, hpiece, List.append_assoc]⟩

/-! ## Completing an object -/

/-- Accepted tokens lead to a complete object. -/
def Completable (fromSlice : List UInt8 → JsonOutcome) (tokenizer : Tokenizer)
    (c : JsonObjectConstraint) : Prop :=
  ∃ tokens c', c.acceptAll fromSlice tokenizer tokens = .ok c' ∧ c'.isComplete fromSlice = true

/-- No form feed stands in front of the value. -/
def CleanLead (bytes : List UInt8) : Prop := 0x0c ∉ bytes.takeWhile isAsciiWhitespace

theorem cleanLead_of_run {bytes : List UInt8} {state : Json.State}
    (h : Json.run limit Json.start bytes = some state) : CleanLead bytes := by
  rw [← List.takeWhile_append_dropWhile (p := isAsciiWhitespace) (l := bytes)] at h
  exact not_formFeed_of_run (fun byte hmem => List.mem_takeWhile_imp hmem) h

theorem Completable.cleanLead (hserde : ReadsJson fromSlice limit) {c : JsonObjectConstraint}
    (hc : validObjectPrefix fromSlice c.bytes = true) (h : Completable fromSlice tokenizer c) :
    CleanLead c.bytes := by
  obtain ⟨tokens, c', hrun, hcomplete⟩ := h
  obtain ⟨_, more, hmore⟩ := acceptAll_valid hc hrun
  obtain ⟨⟨state, hstate, _⟩, _⟩ := (isComplete_iff hserde c').mp hcomplete
  rw [hmore] at hstate
  obtain ⟨middle, hmiddle⟩ := Json.run_of_append hstate
  exact cleanLead_of_run hmiddle

/-- A text that completes the bytes completes the constraint. -/
theorem completable_of_accepts (hserde : ReadsJson fromSlice limit)
    (hvocab : ByteVocabulary tokenizer) {c : JsonObjectConstraint}
    (hc : validObjectPrefix fromSlice c.bytes = true) {rest : List UInt8}
    (hopens : OpensObject (c.bytes ++ rest)) (haccepts : Json.Accepts limit (c.bytes ++ rest)) :
    Completable fromSlice tokenizer c := by
  obtain ⟨tokens, hspells⟩ := exists_spells hvocab rest
  obtain ⟨state, hrun, hfinal⟩ := haccepts
  have hvalid := (validObjectPrefix_iff hserde _).mpr (Or.inr ⟨hopens, state, hrun⟩)
  refine ⟨tokens, { bytes := c.bytes ++ rest }, ?_, ?_⟩
  · rw [acceptAll_spells hserde hspells c hc, if_pos hvalid]
  · exact (isComplete_iff hserde _).mpr ⟨⟨state, hrun, hfinal⟩, hopens.firstSignificant hrun⟩

theorem OpensObject.append {bytes : List UInt8} (h : OpensObject bytes) (more : List UInt8) :
    OpensObject (bytes ++ more) := by
  obtain ⟨lead, rest, rfl, hlead⟩ := h
  exact ⟨lead, rest ++ more, by rw [List.append_assoc, List.cons_append], hlead⟩

theorem takeWhile_all {bytes : List UInt8} (h : ∀ byte ∈ bytes, isAsciiWhitespace byte) :
    bytes.takeWhile isAsciiWhitespace = bytes := List.takeWhile_eq_self_iff.mpr h

/-- Behind white space, `{}` is an object. -/
theorem accepts_braces (hlimit : 0 < limit) {bytes : List UInt8}
    (hspace : ∀ byte ∈ bytes, isAsciiWhitespace byte) (hclean : CleanLead bytes) :
    Json.Accepts limit (bytes ++ [0x7b, 0x7d]) := by
  rw [CleanLead, takeWhile_all hspace] at hclean
  refine ⟨{ stack := [], mode := .after }, ?_, rfl⟩
  have hbrace : Json.step limit Json.start 0x7b =
      some { stack := [.object], mode := .firstKey } := if_pos hlimit
  rw [Json.run_append, run_lead hspace, if_neg hclean, Option.bind_some, Json.run_cons, hbrace]
  rfl

theorem completable_of_cleanLead (hserde : ReadsJson fromSlice limit)
    (hvocab : ByteVocabulary tokenizer) {c : JsonObjectConstraint}
    (hc : validObjectPrefix fromSlice c.bytes = true) (hclean : CleanLead c.bytes) :
    Completable fromSlice tokenizer c := by
  rcases (validObjectPrefix_iff hserde _).mp hc with hspace | ⟨hopens, state, hrun⟩
  · exact completable_of_accepts hserde hvocab hc ⟨c.bytes, [0x7d], rfl, hspace⟩
      (accepts_braces hserde.limit_pos hspace hclean)
  · obtain ⟨rest, haccepts⟩ := Json.exists_accepts hrun
    exact completable_of_accepts hserde hvocab hc (hopens.append rest) haccepts

/-! ## The mask -/

/-- Some byte can come next, even behind a form feed. -/
theorem exists_allowed (hserde : ReadsJson fromSlice limit) {c : JsonObjectConstraint}
    (hc : validObjectPrefix fromSlice c.bytes = true) :
    ∃ byte, c.allowsBytes fromSlice [byte] = true := by
  rcases (validObjectPrefix_iff hserde _).mp hc with hspace | ⟨hopens, state, hrun⟩
  · refine ⟨0x20, (validObjectPrefix_iff hserde _).mpr (Or.inl ?_)⟩
    intro byte hmem
    rcases List.mem_append.mp hmem with hold | hnew
    · exact hspace byte hold
    · rw [List.mem_singleton.mp hnew]
      rfl
  · obtain ⟨byte, next, hstep⟩ := @Json.exists_step limit state
    have hnext : Json.run limit Json.start (c.bytes ++ [byte]) = some next := by
      rw [Json.run_append, hrun, Option.bind_some, Json.run_cons, hstep]
      rfl
    exact ⟨byte, (validObjectPrefix_iff hserde _).mpr (Or.inr ⟨hopens.append [byte], next, hnext⟩)⟩

theorem exists_admitted (hserde : ReadsJson fromSlice limit) (hvocab : ByteVocabulary tokenizer)
    {c : JsonObjectConstraint} (hc : validObjectPrefix fromSlice c.bytes = true) :
    ∃ token < tokenizer.tokens.length, c.admits fromSlice tokenizer token = .ok true := by
  obtain ⟨byte, hallowed⟩ := exists_allowed hserde hc
  obtain ⟨token, heos, hpiece⟩ := hvocab.byteToken byte
  refine ⟨token, ?_, ?_⟩
  · by_contra hlarge
    have hnone : tokenizer.tokens[token]? = none := List.getElem?_eq_none (not_lt.mp hlarge)
    rw [Tokenizer.tokenBytes, hnone] at hpiece
    cases hpiece
  · rw [admits, if_neg heos, hpiece]
    simp [hallowed]

variable {F : Type} {isFinite : F → Bool} {negInfinity : F}

theorem admits_ne_noValidToken (c : JsonObjectConstraint) (token : Nat) :
    c.admits fromSlice tokenizer token ≠ .error .noValidToken := by
  unfold admits
  split_ifs
  · exact nofun
  · cases tokenizer.tokenBytes token <;> simp

theorem maskFrom_ne_noValidToken (c : JsonObjectConstraint) {index : Nat} {logits : List F}
    (hbound : index + logits.length ≤ 2 ^ 32) :
    c.maskFrom fromSlice tokenizer isFinite negInfinity index logits ≠ .error .noValidToken := by
  induction logits generalizing index with
  | nil => exact nofun
  | cons logit rest ih =>
    rw [List.length_cons] at hbound
    have hindex : tryFrom 32 index = some index := tryFrom_eq_some.mpr ⟨by omega, rfl⟩
    have hrest := @ih (index + 1) (by omega)
    have hadmits := @admits_ne_noValidToken fromSlice tokenizer c index
    rw [maskFrom, hindex]
    dsimp only
    cases hadmitted : c.admits fromSlice tokenizer index with
    | error error => simpa [hadmitted] using hadmits
    | ok admitted =>
      dsimp only
      cases hmasked : c.maskFrom fromSlice tokenizer isFinite negInfinity (index + 1) rest with
      | error error => simpa [hmasked] using hrest
      | ok result =>
        dsimp only
        split_ifs <;> exact nofun

/-- An admitted token with a finite logit is counted. -/
theorem maskFrom_allowed {c : JsonObjectConstraint} {index : Nat} {logits masked : List F}
    {allowed : Nat}
    (h : c.maskFrom fromSlice tokenizer isFinite negInfinity index logits = .ok (masked, allowed))
    (hfinite : ∀ logit ∈ logits, isFinite logit = true) {token : Nat}
    (hlow : index ≤ token) (hhigh : token < index + logits.length)
    (hadmits : c.admits fromSlice tokenizer token = .ok true) : 0 < allowed := by
  induction logits generalizing index masked allowed with
  | nil => simp at hhigh; omega
  | cons logit rest ih =>
    rw [maskFrom] at h
    split at h
    · cases h
    · rename_i next hnext
      obtain ⟨_, rfl⟩ := tryFrom_eq_some.mp hnext
      split at h
      · cases h
      · rename_i admitted hadmitted
        split at h
        · cases h
        · rename_i later count hlater
          by_cases htoken : token = index
          · subst htoken
            have htrue : admitted = true := Except.ok.inj (hadmitted.symm.trans hadmits)
            rw [htrue, hfinite logit List.mem_cons_self] at h
            cases h
            exact Nat.succ_pos count
          · rw [List.length_cons] at hhigh
            have hcount := ih hlater (fun l hl => hfinite l (List.mem_cons_of_mem logit hl))
              (by omega) (by omega)
            split_ifs at h <;> cases h
            · exact Nat.succ_pos count
            · exact hcount

theorem mask_ne_noValidToken (hserde : ReadsJson fromSlice limit)
    (hvocab : ByteVocabulary tokenizer) {c : JsonObjectConstraint}
    (hc : validObjectPrefix fromSlice c.bytes = true) {logits : List F}
    (hlen : logits.length = tokenizer.tokens.length)
    (hfinite : ∀ logit ∈ logits, isFinite logit = true) :
    c.mask fromSlice tokenizer isFinite negInfinity logits ≠ .error .noValidToken := by
  have hsize := hvocab.size
  obtain ⟨token, htoken, hadmits⟩ := exists_admitted hserde hvocab hc
  have hloop : c.maskFrom fromSlice tokenizer isFinite negInfinity 0 logits ≠
      .error .noValidToken := maskFrom_ne_noValidToken c (by omega)
  unfold mask
  cases hmasked : c.maskFrom fromSlice tokenizer isFinite negInfinity 0 logits with
  | error error => simpa [hmasked] using hloop
  | ok result =>
    have hallowed := maskFrom_allowed hmasked hfinite (Nat.zero_le token) (by omega) hadmits
    dsimp only
    rw [if_neg hallowed.ne']
    exact nofun

end Tokens

/-! ## No dead end without a form feed -/

theorem validObjectPrefix_nil (fromSlice : List UInt8 → JsonOutcome) :
    validObjectPrefix fromSlice [] = true := rfl

/-- In every state that accepted tokens reach, an object can be completed exactly when no form
feed stands in front of the value. The mask admits some token in each of them, and acceptance
depends on the bytes of the tokens alone. -/
theorem completable_iff_cleanLead (fromSlice : List UInt8 → JsonOutcome) (limit : Nat)
    (hserde : ReadsJson fromSlice limit) (tokenizer : Tokenizer)
    (hvocab : ByteVocabulary tokenizer) :
    (∀ tokens c, new.acceptAll fromSlice tokenizer tokens = .ok c →
      (Completable fromSlice tokenizer c ↔ CleanLead c.bytes) ∧
      ∀ {F : Type} (isFinite : F → Bool) (negInfinity : F) (logits : List F),
        logits.length = tokenizer.tokens.length → (∀ logit ∈ logits, isFinite logit = true) →
        c.mask fromSlice tokenizer isFinite negInfinity logits ≠ .error .noValidToken) ∧
    ∀ first second bytes, Spells tokenizer first bytes → Spells tokenizer second bytes →
      new.acceptAll fromSlice tokenizer first = new.acceptAll fromSlice tokenizer second := by
  have hnew := validObjectPrefix_nil fromSlice
  constructor
  · intro tokens c hrun
    have hc := (acceptAll_valid hnew hrun).1
    refine ⟨⟨fun h => h.cleanLead hserde hc, completable_of_cleanLead hserde hvocab hc⟩, ?_⟩
    intro F isFinite negInfinity logits hlen hfinite
    exact mask_ne_noValidToken hserde hvocab hc hlen hfinite
  · intro first second bytes hfirst hsecond
    rw [acceptAll_spells hserde hfirst new hnew, acceptAll_spells hserde hsecond new hnew]

/-! ### A reader and a vocabulary -/

/-- The reader as a parser. -/
def readJson (limit : Nat) (bytes : List UInt8) : JsonOutcome :=
  match Json.run limit Json.start bytes with
  | none => .invalid
  | some state =>
    if state.final then
      if firstSignificant bytes = some 0x7b then .object else .other
    else .eof

theorem readJson_reads {limit : Nat} (hlimit : 0 < limit) : ReadsJson (readJson limit) limit where
  limit_pos := hlimit
  object bytes := by
    unfold readJson Json.Accepts
    cases Json.run limit Json.start bytes with
    | none => simp
    | some state =>
      by_cases hfinal : state.final <;> by_cases hopens : firstSignificant bytes = some 0x7b <;>
        simp [hfinal, hopens]
  other bytes := by
    unfold readJson Json.Accepts
    cases Json.run limit Json.start bytes with
    | none => simp
    | some state =>
      by_cases hfinal : state.final <;> by_cases hopens : firstSignificant bytes = some 0x7b <;>
        simp [hfinal, hopens]
  eof bytes := by
    unfold readJson Json.Unfinished
    cases Json.run limit Json.start bytes with
    | none => simp
    | some state =>
      by_cases hfinal : state.final <;> by_cases hopens : firstSignificant bytes = some 0x7b <;>
        simp [hfinal, hopens]

def byteTypes : List TokenType := List.replicate 256 .normal ++ [.control]

/-- A vocabulary of the single bytes and an end-of-sequence token. -/
def byteTokenizer : Tokenizer where
  tokens := byteMaps.1.toList.map String.singleton ++ ["<eos>"]
  tokenTypes := byteTypes
  tokenToId := fun _ => none
  merges := fun _ => none
  byteEncoder := byteMaps.1
  byteDecoder := byteMaps.2
  bos := none
  eos := some 256
  addBos := false
  addEos := false
  preTokenizer := .qwen2

theorem byteTokenizer_token {index : Nat} (h : index < 256) :
    byteTokenizer.tokens[index]? = some (String.singleton byteMaps.1[index]) := by
  have hlen : (byteMaps.1.toList.map String.singleton).length = 256 := by
    rw [List.length_map, Vector.length_toList]
  have hindex : index < (byteMaps.1.toList.map String.singleton).length := by
    rw [hlen]
    exact h
  have htokens : byteTokenizer.tokens = byteMaps.1.toList.map String.singleton ++ ["<eos>"] := by
    simp only [byteTokenizer]
  rw [htokens, List.getElem?_append_left hindex, List.getElem?_eq_getElem hindex, List.getElem_map,
    Vector.getElem_toList]

theorem byteTokenizer_type {index : Nat} (h : index < 256) :
    byteTokenizer.tokenTypes[index]? = some .normal := by
  have hindex : index < (List.replicate 256 TokenType.normal).length := by
    rw [List.length_replicate]
    exact h
  have htypes : byteTokenizer.tokenTypes = byteTypes := rfl
  rw [htypes, byteTypes, List.getElem?_append_left hindex, List.getElem?_replicate, if_pos h]

theorem tokenBytes_singleton {t : Tokenizer} {id : Nat} {character : Char} {byte : UInt8}
    (htoken : t.tokens[id]? = some (String.singleton character))
    (htype : t.tokenTypes[id]? = some .normal) (hbyte : t.byteDecoder character = some byte) :
    t.tokenBytes id = .ok [byte] := by
  rw [Tokenizer.tokenBytes, htoken]
  dsimp only
  rw [htype, if_neg (by decide), String.toList_singleton, List.mapM_cons, List.mapM_nil, hbyte]
  rfl

theorem byteTokenizer_bytes (byte : UInt8) : byteTokenizer.tokenBytes byte.toNat = .ok [byte] := by
  have hlt : byte.toNat < 256 := byte.toNat_lt
  have hsame : byteTokenizer.byteDecoder = byteMaps.2 := by simp only [byteTokenizer]
  have hdecoder := byteMaps_inverse byte
  rw [Vector.get_eq_getElem, ← hsame] at hdecoder
  exact tokenBytes_singleton (byteTokenizer_token hlt) (byteTokenizer_type hlt) hdecoder

theorem byteTokenizer_vocabulary : ByteVocabulary byteTokenizer where
  byteToken byte := by
    refine ⟨byte.toNat, ?_, byteTokenizer_bytes byte⟩
    have hlt : byte.toNat < 256 := byte.toNat_lt
    intro heos
    exact hlt.ne (Option.some.inj heos)
  eos := ⟨256, rfl⟩
  size := by
    have hlen : byteTokenizer.tokens.length = 257 := by
      change (byteMaps.1.toList.map String.singleton ++ ["<eos>"]).length = 257
      rw [List.length_append, List.length_map, Vector.length_toList]
      rfl
    omega

theorem completable_iff_cleanLead_bytes :
    (∀ tokens c, new.acceptAll (readJson 127) byteTokenizer tokens = .ok c →
      (Completable (readJson 127) byteTokenizer c ↔ CleanLead c.bytes) ∧
      ∀ {F : Type} (isFinite : F → Bool) (negInfinity : F) (logits : List F),
        logits.length = byteTokenizer.tokens.length → (∀ logit ∈ logits, isFinite logit = true) →
        c.mask (readJson 127) byteTokenizer isFinite negInfinity logits ≠ .error .noValidToken) ∧
    ∀ first second bytes, Spells byteTokenizer first bytes → Spells byteTokenizer second bytes →
      new.acceptAll (readJson 127) byteTokenizer first =
        new.acceptAll (readJson 127) byteTokenizer second :=
  completable_iff_cleanLead (readJson 127) 127 (readJson_reads (by decide)) byteTokenizer
    byteTokenizer_vocabulary

/-- A form feed is accepted, and no object can follow it. -/
theorem formFeed_dead_end : ReadsJson (readJson 127) 127 ∧ ByteVocabulary byteTokenizer ∧
    new.acceptAll (readJson 127) byteTokenizer [0x0c] = .ok { bytes := [0x0c] } ∧
      ¬ Completable (readJson 127) byteTokenizer { bytes := [0x0c] } := by
  have hserde : ReadsJson (readJson 127) 127 := readJson_reads (by decide)
  have hspells : Spells byteTokenizer [0x0c] ([0x0c] ++ []) :=
    .cons (by decide) (byteTokenizer_bytes 0x0c) (List.cons_ne_nil _ _) .nil
  have hrun := acceptAll_spells hserde hspells new rfl
  refine ⟨hserde, byteTokenizer_vocabulary, hrun, ?_⟩
  intro hcompletable
  have hclean := hcompletable.cleanLead hserde rfl
  exact hclean (by decide)

end Leone.Text

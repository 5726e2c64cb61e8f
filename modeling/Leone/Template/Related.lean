import Leone.Template.Model

/-!
# Two renderings of requests of one shape

The renderers decide by the roles, names and calls of the messages and never by their texts or by
the tokens they get. So two renderings of one request, by two encoders, agree part by part, and
two requests of one shape are rendered to parts that correspond.
-/

namespace Leone.Template

open Framework Text

variable {α β γ δ γ' δ' : Type}

/-- What two results have to do with each other. Where the inputs are the same one, the second
computation succeeds if the first one does. -/
def Related (same : Prop) (Q : γ → δ → Prop) (x : Except RuntimeError γ)
    (y : Except RuntimeError δ) : Prop :=
  ∀ a, x = .ok a → (same → ∃ b, y = .ok b) ∧ ∀ b, y = .ok b → Q a b

namespace Related

variable {same : Prop} {Q : γ → δ → Prop} {Q' : γ' → δ' → Prop}

theorem ok {a : γ} {b : δ} (h : Q a b) :
    Related same Q (Except.ok a : Except RuntimeError γ) (.ok b) := by
  intro a' ha
  cases ha
  exact ⟨fun _ => ⟨b, rfl⟩, fun b' hb => by cases hb; exact h⟩

theorem error {e : RuntimeError} {y : Except RuntimeError δ} :
    Related same Q (.error e) y := by
  intro a ha
  cases ha

theorem bind {x : Except RuntimeError γ} {y : Except RuntimeError δ}
    {f : γ → Except RuntimeError γ'} {g : δ → Except RuntimeError δ'} (h : Related same Q x y)
    (hnext : ∀ a b, Q a b → Related same Q' (f a) (g b)) : Related same Q' (x >>= f) (y >>= g) := by
  intro a' ha
  rw [bind_eq_ok] at ha
  obtain ⟨a, hx, hf⟩ := ha
  have hfirst := h a hx
  constructor
  · intro hs
    obtain ⟨b, hy⟩ := hfirst.1 hs
    obtain ⟨b', hg⟩ := (hnext a b (hfirst.2 b hy) a' hf).1 hs
    exact ⟨b', bind_eq_ok.mpr ⟨b, hy, hg⟩⟩
  · intro b' hb
    rw [bind_eq_ok] at hb
    obtain ⟨b, hy, hg⟩ := hb
    exact (hnext a b (hfirst.2 b hy) a' hf).2 b' hg

/-- The same computation, where the inputs are the same one. -/
theorem read {x y : Except RuntimeError γ} (h : same → x = y) :
    Related same (fun a b => same → a = b) x y := by
  intro a ha
  constructor
  · intro hs
    exact ⟨a, by rw [← h hs, ha]⟩
  · intro b hb hs
    rw [h hs, hb] at ha
    exact (Except.ok.inj ha).symm

/-- What every result of the first computation satisfies may be kept. -/
theorem keep {x : Except RuntimeError γ} {y : Except RuntimeError δ} {P : γ → Prop}
    (h : Related same Q x y) (hP : ∀ a, x = .ok a → P a) :
    Related same (fun a b => P a ∧ Q a b) x y :=
  fun a ha => ⟨(h a ha).1, fun b hb => ⟨hP a ha, (h a ha).2 b hb⟩⟩

theorem refl {x : Except RuntimeError γ} : Related same (· = ·) x x := by
  intro a ha
  rw [ha]
  exact ⟨fun _ => ⟨a, rfl⟩, fun b hb => by cases hb; rfl⟩

end Related

/-- Two messages of one shape, and whether they are the same one. -/
structure SameMessage (same : Prop) (message message' : Message) : Prop where
  role : message.role = message'.role
  name : message.name = message'.name
  toolCalls : message.toolCalls = message'.toolCalls
  toolCallId : message.toolCallId = message'.toolCallId
  eq : same → message = message'

/-- The two requests differ at most in the contents of their messages. -/
def SameShape (messages messages' : List Message) : Prop :=
  List.Forall₂ (SameMessage False) messages messages'

theorem SameMessage.messageRole {same : Prop} {message message' : Message}
    (h : SameMessage same message message') : messageRole message = messageRole message' := by
  rw [Template.messageRole, Template.messageRole, h.role]

/-- A relation between what two encoders produce that appending keeps, and that holds of the
template tokens among `names`, of plain texts and of contents with Qwen markers. -/
structure Respects (same : Prop) (names : List String) (e₁ : Encoder α) (e₂ : Encoder β)
    (R : List α → List β → Prop) : Prop where
  nil : R [] []
  append : ∀ {a a' : List α} {b b' : List β}, R a b → R a' b' → R (a ++ a') (b ++ b')
  token : ∀ name ∈ names, Related same R (token e₁ name) (token e₂ name)
  piece : ∀ text text' : String, (same → text = text') →
    Related same R (piece e₁ text) (piece e₂ text')

/-- The relation also holds of contents whose Qwen markers become tokens. -/
def RespectsContent (same : Prop) (e₁ : Encoder α) (e₂ : Encoder β)
    (R : List α → List β → Prop) : Prop :=
  ∀ text text' : List Char, (same → text = text') →
    Related same R (appendQwenContent e₁ text) (appendQwenContent e₂ text')

variable {json : SerdeJson} {same : Prop} {names : List String} {e₁ : Encoder α} {e₂ : Encoder β}
  {R : List α → List β → Prop}

namespace Respects

theorem concat (h : Respects same names e₁ e₂ R) {parts : List (Except RuntimeError (List α))}
    {parts' : List (Except RuntimeError (List β))}
    (hparts : List.Forall₂ (Related same R) parts parts') :
    Related same R (concat parts) (concat parts') := by
  induction hparts with
  | nil => exact .ok h.nil
  | cons hpart _ ih =>
    exact hpart.bind fun a b hab => ih.bind fun a' b' hab' => .ok (h.append hab hab')

theorem text (h : Respects same names e₁ e₂ R) (text : String) :
    Related same R (Template.piece e₁ text) (Template.piece e₂ text) :=
  h.piece text text fun _ => rfl

end Respects

/-! ## Messages of the Qwen family -/

section Qwen

variable (h : Respects same qwenTemplateMarkers e₁ e₂ R) (hcontent : RespectsContent same e₁ e₂ R)

include h hcontent

theorem appendQwenMessage_related (role : String) {content content' : String}
    (hsame : same → content = content') :
    Related same R (appendQwenMessage e₁ role content) (appendQwenMessage e₂ role content') := by
  apply h.concat
  apply List.Forall₂.cons (h.token _ (by decide))
  apply List.Forall₂.cons (h.text role)
  apply List.Forall₂.cons (h.text "\n")
  apply List.Forall₂.cons (hcontent _ _ fun hs => by rw [hsame hs])
  apply List.Forall₂.cons (h.token _ (by decide))
  exact .cons (h.text "\n") .nil

end Qwen

theorem appendLlamaMessage_related (h : Respects same llamaTemplateMarkers e₁ e₂ R)
    (role : String) {content content' : String} (hsame : same → content = content') :
    Related same R (appendLlamaMessage e₁ role content) (appendLlamaMessage e₂ role content') := by
  apply h.concat
  apply List.Forall₂.cons (h.token _ (by decide))
  apply List.Forall₂.cons (h.text role)
  apply List.Forall₂.cons (h.token _ (by decide))
  apply List.Forall₂.cons (h.text "\n\n")
  apply List.Forall₂.cons (h.piece _ _ hsame)
  exact .cons (h.token _ (by decide)) .nil

section Both

variable {architecture : ModelArchitecture}
  (h : Respects same (templateMarkers architecture) e₁ e₂ R)
  (hcontent : architecture = .qwen3 → RespectsContent same e₁ e₂ R)

include h hcontent

theorem appendChatMessage_related (role : String) {content content' : String}
    (hsame : same → content = content') :
    Related same R (appendChatMessage e₁ architecture role content)
      (appendChatMessage e₂ architecture role content') := by
  cases architecture with
  | qwen3 => exact appendQwenMessage_related h (hcontent rfl) role hsame
  | llama => exact appendLlamaMessage_related h role hsame

omit hcontent in
theorem appendChatSuffix_related :
    Related same R (appendChatSuffix e₁ architecture) (appendChatSuffix e₂ architecture) := by
  cases architecture with
  | qwen3 =>
    apply h.concat
    apply List.Forall₂.cons (h.token _ (by decide))
    apply List.Forall₂.cons (h.text "assistant")
    exact .cons (h.text "\n") .nil
  | llama =>
    apply h.concat
    apply List.Forall₂.cons (h.token _ (by decide))
    apply List.Forall₂.cons (h.text "assistant")
    apply List.Forall₂.cons (h.token _ (by decide))
    exact .cons (h.text "\n\n") .nil

theorem appendRegularChatMessage_related {message message' : Message}
    (hmessage : SameMessage same message message') :
    Related same R (appendRegularChatMessage json e₁ architecture message)
      (appendRegularChatMessage json e₂ architecture message') := by
  unfold appendRegularChatMessage
  rw [hmessage.messageRole, hmessage.name]
  apply Related.refl.bind
  intro role _ hrole
  subst hrole
  split
  · exact .error
  · apply (Related.read fun hs => by rw [hmessage.eq hs]).bind
    intro rendered rendered' hrendered
    exact appendChatMessage_related h hcontent role hrendered

theorem appendAssistantContinuation_related {message message' : Message}
    (hmessage : SameMessage same message message') :
    Related same R (appendAssistantContinuation json e₁ architecture message)
      (appendAssistantContinuation json e₂ architecture message') := by
  apply (Related.read fun hs => by rw [hmessage.eq hs]).bind
  intro content content' hsame
  cases architecture with
  | qwen3 =>
    apply h.concat
    apply List.Forall₂.cons (h.token _ (by decide))
    apply List.Forall₂.cons (h.text "assistant\n")
    exact .cons (hcontent rfl _ _ fun hs => by rw [hsame hs]) .nil
  | llama =>
    apply h.concat
    apply List.Forall₂.cons (h.token _ (by decide))
    apply List.Forall₂.cons (h.text "assistant")
    apply List.Forall₂.cons (h.token _ (by decide))
    apply List.Forall₂.cons (h.text "\n\n")
    exact .cons (h.piece _ _ hsame) .nil

/-! ### The legacy mode -/

omit h hcontent in
theorem toolResults_related {messages messages' : List Message}
    (hmessages : List.Forall₂ (SameMessage same) messages messages') :
    Related same (fun found found' => (same → found.1 = found'.1) ∧
        List.Forall₂ (SameMessage same) found.2 found'.2)
      (toolResults json messages) (toolResults json messages') := by
  induction hmessages with
  | nil => exact .ok ⟨fun _ => rfl, .nil⟩
  | @cons message message' rest rest' hmessage hrest ih =>
    unfold toolResults
    rw [hmessage.messageRole]
    apply Related.refl.bind
    intro role _ hrole
    subst hrole
    split
    · apply (Related.read fun hs => by rw [hmessage.eq hs]).bind
      intro result result' hresult
      apply ih.bind
      intro found found' hfound
      exact .ok ⟨fun hs => by rw [hresult hs, hfound.1 hs], hfound.2⟩
    · exact .ok ⟨fun _ => rfl, .cons hmessage hrest⟩

omit h hcontent in
/-- A group of results is found in the messages behind its first one. -/
theorem appendChatMessages_cons (encoder : Encoder α) (message : Message) (rest : List Message) :
    appendChatMessages json encoder architecture (message :: rest) = (do
      let role ← messageRole message
      if role = "tool" then
        let result ← renderMessageContent json message "tool"
        let found ← toolResults json rest
        let tokens ← appendChatMessage encoder architecture "user"
          ("\n".intercalate (result :: found.1))
        let more ← appendChatMessages json encoder architecture found.2
        return tokens ++ more
      else if rest = [] ∧ role = "assistant" ∧ message.toolCalls.isNone then
        appendAssistantContinuation json encoder architecture message
      else
        let tokens ← appendRegularChatMessage json encoder architecture message
        let more ← appendChatMessages json encoder architecture rest
        return tokens ++ more) := by
  rw [appendChatMessages]
  congr
  funext role
  congr
  funext result
  split
  · rename_i hresults
    rw [hresults]
    rfl
  · rename_i hresults
    rw [hresults]
    rfl

theorem appendChatMessages_related {messages messages' : List Message}
    (hmessages : List.Forall₂ (SameMessage same) messages messages') :
    Related same R (appendChatMessages json e₁ architecture messages)
      (appendChatMessages json e₂ architecture messages') := by
  -- by the number of messages: a group of results takes several at once
  induction hlength : messages.length using Nat.strong_induction_on
    generalizing messages messages' with
  | _ length ih =>
    cases hmessages with
    | nil =>
      rw [appendChatMessages, appendChatMessages]
      exact .ok h.nil
    | @cons message message' rest rest' hmessage hrest =>
      rw [appendChatMessages_cons, appendChatMessages_cons, hmessage.messageRole]
      apply Related.refl.bind
      intro role _ hrole
      subst hrole
      have hempty : rest = [] ↔ rest' = [] := by
        rw [← List.length_eq_zero_iff, ← List.length_eq_zero_iff, hrest.length_eq]
      simp only [hempty, hmessage.toolCalls]
      split
      · apply (Related.read fun hs => by rw [hmessage.eq hs]).bind
        intro result result' hresult
        apply ((toolResults_related hrest).keep fun _ => length_toolResults json).bind
        intro found found' hfound
        have hresults : same → "\n".intercalate (result :: found.1) =
            "\n".intercalate (result' :: found'.1) := fun hs => by
          rw [hresult hs, hfound.2.1 hs]
        apply (appendChatMessage_related h hcontent "user" hresults).bind
        intro tokens tokens' htokens
        have hshort : found.2.length < length := by
          rw [← hlength, List.length_cons]
          exact Nat.lt_succ_of_le hfound.1
        apply (ih _ hshort hfound.2.2 rfl).bind
        intro more more' hmore
        exact .ok (h.append htokens hmore)
      · split
        · exact appendAssistantContinuation_related h hcontent hmessage
        · apply (appendRegularChatMessage_related h hcontent hmessage).bind
          intro tokens tokens' htokens
          apply (ih rest.length (by simp [← hlength]) hrest rfl).bind
          intro more more' hmore
          exact .ok (h.append htokens hmore)

theorem appendChatMessagesWithTools_related {messages messages' : List Message}
    (hmessages : List.Forall₂ (SameMessage same) messages messages')
    (toolPrompt : Option String) :
    Related same R (appendChatMessagesWithTools json e₁ architecture messages toolPrompt)
      (appendChatMessagesWithTools json e₂ architecture messages' toolPrompt) := by
  cases toolPrompt with
  | none => exact appendChatMessages_related h hcontent hmessages
  | some toolPrompt =>
    have hprompt := appendChatMessage_related h hcontent "system" fun _ : same =>
      Eq.refl toolPrompt
    cases hmessages with
    | nil => exact hprompt
    | @cons first first' rest rest' hfirst hrest =>
      unfold appendChatMessagesWithTools
      dsimp only
      rw [hfirst.messageRole, hfirst.name]
      apply Related.refl.bind
      intro role _ hrole
      subst hrole
      split
      · split
        · exact .error
        · apply (Related.read fun hs => by rw [hfirst.eq hs]).bind
          intro content content' hsame
          apply h.concat
          apply List.Forall₂.cons
          · exact appendChatMessage_related h hcontent "system" fun hs => by rw [hsame hs]
          · exact .cons (appendChatMessages_related h hcontent hrest) .nil
      · apply h.concat
        apply List.Forall₂.cons hprompt
        exact .cons (appendChatMessages_related h hcontent (.cons hfirst hrest)) .nil

omit h hcontent in
theorem getLast?_related {messages messages' : List Message}
    (hmessages : List.Forall₂ (SameMessage same) messages messages')
    {p : Message → Bool} (hp : ∀ message message', SameMessage same message message' →
      p message = p message') : messages.getLast?.any p = messages'.getLast?.any p := by
  induction hmessages with
  | nil => rfl
  | @cons message message' rest rest' hmessage hrest ih =>
    cases hrest with
    | nil => exact hp _ _ hmessage
    | cons _ _ =>
      rw [List.getLast?_cons_cons, List.getLast?_cons_cons]
      exact ih

omit hcontent in
theorem appendChatSuffixIfNeeded_related {messages messages' : List Message}
    (hmessages : List.Forall₂ (SameMessage same) messages messages') :
    Related same R (appendChatSuffixIfNeeded e₁ architecture messages)
      (appendChatSuffixIfNeeded e₂ architecture messages') := by
  have hlast : continuesAssistant messages = continuesAssistant messages' :=
    getLast?_related hmessages fun message message' hmessage => by rw [hmessage.messageRole]
  unfold appendChatSuffixIfNeeded
  rw [hlast]
  split
  · exact .ok h.nil
  · exact appendChatSuffix_related h

theorem chatTokensLegacy_related {messages messages' : List Message}
    (hmessages : List.Forall₂ (SameMessage same) messages messages')
    (tools : Option (List ToolDefinition)) (toolChoice : Option Value) :
    Related same R (chatTokensLegacy json e₁ architecture messages tools toolChoice)
      (chatTokensLegacy json e₂ architecture messages' tools toolChoice) := by
  have hbegin : Related same R (appendChatPrefix e₁ architecture)
      (appendChatPrefix e₂ architecture) := by
    cases architecture with
    | qwen3 => exact .ok h.nil
    | llama => exact h.token _ (by decide)
  apply hbegin.bind
  intro begin begin' hbegin
  apply Related.refl.bind
  intro toolPrompt _ hprompt
  subst hprompt
  apply (appendChatMessagesWithTools_related h hcontent hmessages toolPrompt).bind
  intro body body' hbody
  apply (appendChatSuffixIfNeeded_related h hmessages).bind
  intro suffix suffix' hsuffix
  exact .ok (h.append (h.append hbegin hbody) hsuffix)

end Both

/-! ## The official Qwen template -/

theorem startsWithSystem_related {messages messages' : List Message}
    (hmessages : List.Forall₂ (SameMessage same) messages messages') :
    startsWithSystem messages = startsWithSystem messages' := by
  cases hmessages with
  | nil => rfl
  | cons hfirst _ => simp only [startsWithSystem, List.head?_cons, Option.any_some, hfirst.role]

theorem endsWithAssistant_related {messages messages' : List Message}
    (hmessages : List.Forall₂ (SameMessage same) messages messages') :
    endsWithAssistant messages = endsWithAssistant messages' :=
  getLast?_related hmessages fun message message' hmessage => by rw [hmessage.role]

/-- What is left behind a first message of the system corresponds. -/
theorem afterSystem_related {messages messages' : List Message}
    (hmessages : List.Forall₂ (SameMessage same) messages messages') :
    List.Forall₂ (SameMessage same)
      (if startsWithSystem messages then messages.tail else messages)
      (if startsWithSystem messages' then messages'.tail else messages') := by
  rw [startsWithSystem_related hmessages]
  split
  · cases hmessages with
    | nil => exact .nil
    | cons _ hrest => exact hrest
  · exact hmessages

section Qwen

variable (h : Respects same qwenTemplateMarkers e₁ e₂ R) (hcontent : RespectsContent same e₁ e₂ R)

include h hcontent

theorem appendQwenToolSystem_related {messages messages' : List Message}
    (hmessages : List.Forall₂ (SameMessage same) messages messages')
    (tools : List ToolDefinition) (toolChoice : Option Value) :
    Related same R (appendQwenToolSystem json e₁ messages tools toolChoice)
      (appendQwenToolSystem json e₂ messages' tools toolChoice) := by
  unfold appendQwenToolSystem
  have hintroduction : same → messages = messages' := by
    intro hs
    rw [← List.forall₂_eq_eq_eq]
    exact hmessages.imp fun _ _ hmessage => hmessage.eq hs
  apply (Related.read fun hs => by rw [hintroduction hs]).bind
  intro introduction introduction' hsame
  dsimp only
  apply Related.refl.bind
  intro instruction _ hinstruction
  subst hinstruction
  apply appendQwenMessage_related h hcontent "system"
  intro hs
  rw [hsame hs]

theorem appendOfficialQwenPrefix_related {messages messages' : List Message}
    (hmessages : List.Forall₂ (SameMessage same) messages messages')
    (tools : Option (List ToolDefinition)) (toolChoice : Option Value) :
    Related same (fun a b => R a.1 b.1 ∧ List.Forall₂ (SameMessage same) a.2 b.2)
      (appendOfficialQwenPrefix json e₁ messages tools toolChoice)
      (appendOfficialQwenPrefix json e₂ messages' tools toolChoice) := by
  cases tools with
  | some tools =>
    apply (appendQwenToolSystem_related h hcontent hmessages tools toolChoice).bind
    intro tokens tokens' htokens
    exact .ok ⟨htokens, afterSystem_related hmessages⟩
  | none =>
    cases hmessages with
    | nil => exact .ok ⟨h.nil, .nil⟩
    | @cons first first' rest rest' hfirst hrest =>
      unfold appendOfficialQwenPrefix
      dsimp only
      rw [hfirst.role]
      split
      · have hregular : Related same R (appendRegularChatMessage json e₁ .qwen3 first)
            (appendRegularChatMessage json e₂ .qwen3 first') :=
          appendRegularChatMessage_related h (fun _ => hcontent) hfirst
        apply hregular.bind
        intro tokens tokens' htokens
        exact .ok ⟨htokens, hrest⟩
      · exact .ok ⟨h.nil, .cons hfirst hrest⟩

theorem appendOfficialQwenToolResult_related {message message' : Message}
    (hmessage : SameMessage same message message') :
    Related same R (appendOfficialQwenToolResult json e₁ message)
      (appendOfficialQwenToolResult json e₂ message') := by
  apply (Related.read fun hs => by rw [hmessage.eq hs]).bind
  intro content content' hsame
  apply h.concat
  apply List.Forall₂.cons (h.text "\n<tool_response>\n")
  apply List.Forall₂.cons (hcontent _ _ fun hs => by rw [hsame hs])
  exact .cons (h.text "\n</tool_response>") .nil

theorem appendOfficialQwenToolResults_related {messages messages' : List Message}
    (hmessages : List.Forall₂ (SameMessage same) messages messages') :
    Related same (fun a b => R a.1 b.1 ∧ List.Forall₂ (SameMessage same) a.2 b.2)
      (appendOfficialQwenToolResults json e₁ messages)
      (appendOfficialQwenToolResults json e₂ messages') := by
  induction hmessages with
  | nil => exact .ok ⟨h.nil, .nil⟩
  | @cons message message' rest rest' hmessage hrest ih =>
    unfold appendOfficialQwenToolResults
    rw [hmessage.messageRole]
    apply Related.refl.bind
    intro role _ hrole
    subst hrole
    split
    · apply (appendOfficialQwenToolResult_related h hcontent hmessage).bind
      intro tokens tokens' htokens
      apply ih.bind
      intro found found' hfound
      exact .ok ⟨h.append htokens hfound.1, hfound.2⟩
    · exact .ok ⟨h.nil, .cons hmessage hrest⟩

theorem appendOfficialQwenAssistantMessage_related {message message' : Message}
    (hmessage : SameMessage same message message') (continuation : Bool) :
    Related same R (appendOfficialQwenAssistantMessage json e₁ message continuation)
      (appendOfficialQwenAssistantMessage json e₂ message' continuation) := by
  unfold appendOfficialQwenAssistantMessage
  rw [hmessage.toolCalls]
  split
  · apply (Related.read fun hs => by rw [hmessage.eq hs]).bind
    intro content content' hsame
    apply h.concat
    apply List.Forall₂.cons (h.token _ (by decide))
    apply List.Forall₂.cons (h.text "assistant\n")
    apply List.Forall₂.cons (h.token _ (by decide))
    apply List.Forall₂.cons (h.text "\n\n")
    apply List.Forall₂.cons (h.token _ (by decide))
    apply List.Forall₂.cons (h.text "\n\n")
    exact .cons (hcontent _ _ fun hs => by rw [hsame hs]) .nil
  · split
    · unfold appendOfficialQwenToolCalls
      apply (Related.read fun hs => by rw [hmessage.eq hs]).bind
      intro content content' hsame
      apply (Related.read fun hs => by rw [hsame hs, hmessage.toolCalls]).bind
      intro rendered rendered' hrendered
      exact appendQwenMessage_related h hcontent "assistant" hrendered
    · apply (Related.read fun hs => by rw [hmessage.eq hs]).bind
      intro content content' hsame
      exact appendQwenMessage_related h hcontent "assistant" hsame

omit h hcontent in
/-- A group of results is rendered from the messages behind its first one. -/
theorem appendOfficialQwenMessages_cons (encoder : Encoder α) (message : Message)
    (rest : List Message) :
    appendOfficialQwenMessages json encoder (message :: rest) = (do
      let role ← messageRole message
      if role = "tool" then
        let start ← token encoder imStart
        let user ← piece encoder "user"
        let result ← appendOfficialQwenToolResult json encoder message
        let found ← appendOfficialQwenToolResults json encoder rest
        let stop ← concat [token encoder imEnd, piece encoder "\n"]
        let more ← appendOfficialQwenMessages json encoder found.2
        return start ++ user ++ result ++ found.1 ++ stop ++ more
      else if role = "assistant" then
        let tokens ← appendOfficialQwenAssistantMessage json encoder message rest.isEmpty
        let more ← appendOfficialQwenMessages json encoder rest
        return tokens ++ more
      else
        let content ← messageText json message.content
        let tokens ← appendQwenMessage encoder role content
        let more ← appendOfficialQwenMessages json encoder rest
        return tokens ++ more) := by
  rw [appendOfficialQwenMessages]
  congr
  funext role
  congr
  funext start
  congr
  funext user
  congr
  funext result
  split
  · rename_i hresults
    rw [hresults]
    rfl
  · rename_i hresults
    rw [hresults]
    rfl

theorem appendOfficialQwenMessages_related {messages messages' : List Message}
    (hmessages : List.Forall₂ (SameMessage same) messages messages') :
    Related same R (appendOfficialQwenMessages json e₁ messages)
      (appendOfficialQwenMessages json e₂ messages') := by
  induction hlength : messages.length using Nat.strong_induction_on
    generalizing messages messages' with
  | _ length ih =>
    cases hmessages with
    | nil =>
      rw [appendOfficialQwenMessages, appendOfficialQwenMessages]
      exact .ok h.nil
    | @cons message message' rest rest' hmessage hrest =>
      have hnext := ih rest.length (by simp [← hlength]) hrest rfl
      have hempty : rest.isEmpty = rest'.isEmpty := by
        cases hrest with
        | nil => rfl
        | cons _ _ => rfl
      rw [appendOfficialQwenMessages_cons, appendOfficialQwenMessages_cons, hmessage.messageRole,
        hempty]
      apply Related.refl.bind
      intro role _ hrole
      subst hrole
      split
      · apply (h.token imStart (by decide)).bind
        intro start start' hstart
        apply (h.text "user").bind
        intro user user' huser
        apply (appendOfficialQwenToolResult_related h hcontent hmessage).bind
        intro result result' hresult
        apply ((appendOfficialQwenToolResults_related h hcontent hrest).keep
          fun _ => length_appendOfficialQwenToolResults json e₁).bind
        intro found found' hfound
        apply (h.concat (.cons (h.token imEnd (by decide)) (.cons (h.text "\n") .nil))).bind
        intro stop stop' hstop
        have hshort : found.2.length < length := by
          rw [← hlength, List.length_cons]
          exact Nat.lt_succ_of_le hfound.1
        apply (ih _ hshort hfound.2.2 rfl).bind
        intro more more' hmore
        have hgroup := h.append (h.append (h.append hstart huser) hresult) hfound.2.1
        exact .ok (h.append (h.append hgroup hstop) hmore)
      · split
        · apply (appendOfficialQwenAssistantMessage_related h hcontent hmessage _).bind
          intro tokens tokens' htokens
          apply hnext.bind
          intro more more' hmore
          exact .ok (h.append htokens hmore)
        · apply (Related.read fun hs => by rw [hmessage.eq hs]).bind
          intro content content' hsame
          apply (appendQwenMessage_related h hcontent role hsame).bind
          intro tokens tokens' htokens
          apply hnext.bind
          intro more more' hmore
          exact .ok (h.append htokens hmore)

theorem chatTokensOfficialQwen_related {messages messages' : List Message}
    (hmessages : List.Forall₂ (SameMessage same) messages messages')
    (tools : Option (List ToolDefinition)) (toolChoice : Option Value) :
    Related same R (chatTokensOfficialQwen json e₁ messages tools toolChoice)
      (chatTokensOfficialQwen json e₂ messages' tools toolChoice) := by
  apply (appendOfficialQwenPrefix_related h hcontent hmessages _ toolChoice).bind
  intro found found' hfound
  apply (appendOfficialQwenMessages_related h hcontent hfound.2).bind
  intro body body' hbody
  have hsuffix : Related same R (appendOfficialQwenSuffix e₁ messages)
      (appendOfficialQwenSuffix e₂ messages') := by
    unfold appendOfficialQwenSuffix
    rw [endsWithAssistant_related hmessages]
    split
    · exact .ok h.nil
    · show Related same R (appendChatSuffix e₁ .qwen3) (appendChatSuffix e₂ .qwen3)
      exact appendChatSuffix_related h
  apply hsuffix.bind
  intro suffix suffix' hsuffix
  exact .ok (h.append (h.append hfound.1 hbody) hsuffix)

end Qwen

/-! ## The official Llama template -/

section Llama

variable (h : Respects same llamaTemplateMarkers e₁ e₂ R)

include h

theorem appendLlamaHeader_related (role : String) :
    Related same R (appendLlamaHeader e₁ role) (appendLlamaHeader e₂ role) := by
  apply h.concat
  apply List.Forall₂.cons (h.token _ (by decide))
  apply List.Forall₂.cons (h.text role)
  exact .cons (h.token _ (by decide)) .nil

/-- A header with the blank line behind it. -/
theorem openHeader_related (role : String) :
    Related same R (concat [appendLlamaHeader e₁ role, piece e₁ "\n\n"])
      (concat [appendLlamaHeader e₂ role, piece e₂ "\n\n"]) := by
  apply h.concat
  apply List.Forall₂.cons (appendLlamaHeader_related h role)
  exact .cons (h.text "\n\n") .nil

theorem appendLlamaOfficialSystem_related {messages messages' : List Message}
    (hmessages : List.Forall₂ (SameMessage same) messages messages')
    (tools : Option (List ToolDefinition)) :
    Related same R (appendLlamaOfficialSystem json e₁ messages tools)
      (appendLlamaOfficialSystem json e₂ messages' tools) := by
  have hsystem : Related same R (appendLlamaOfficialSystemMessage json e₁ messages)
      (appendLlamaOfficialSystemMessage json e₂ messages') := by
    unfold appendLlamaOfficialSystemMessage
    cases hmessages with
    | nil => exact .ok h.nil
    | cons hfirst _ =>
      dsimp only
      rw [hfirst.role]
      split
      · apply (Related.read fun hs => by rw [hfirst.eq hs]).bind
        intro text text' hsame
        exact h.piece _ _ fun hs => by rw [hsame hs]
      · exact .ok h.nil
  apply h.concat
  apply List.Forall₂.cons (appendLlamaHeader_related h "system")
  apply List.Forall₂.cons (h.text "\n\n")
  apply List.Forall₂.cons
  · split
    · exact h.text _
    · exact .ok h.nil
  · apply List.Forall₂.cons (h.text _)
    apply List.Forall₂.cons (h.text _)
    apply List.Forall₂.cons hsystem
    exact .cons (h.token _ (by decide)) .nil

theorem appendLlamaOfficialToolInstruction_related (tools : List ToolDefinition)
    (toolChoice : Option Value) :
    Related same R (appendLlamaOfficialToolInstruction json e₁ tools toolChoice)
      (appendLlamaOfficialToolInstruction json e₂ tools toolChoice) := by
  apply h.concat
  apply List.Forall₂.cons (h.text _)
  apply List.Forall₂.cons (h.text _)
  induction offeredTools tools toolChoice with
  | nil => exact .nil
  | cons tool rest ih => exact .cons (h.text _) (.cons (h.text _) ih)

theorem appendLlamaOfficialFirstUser_related {messages messages' : List Message}
    (hmessages : List.Forall₂ (SameMessage same) messages messages')
    (tools : Option (List ToolDefinition)) (toolChoice : Option Value) :
    Related same (fun a b => R a.1 b.1 ∧ List.Forall₂ (SameMessage same) a.2 b.2)
      (appendLlamaOfficialFirstUser json e₁ messages tools toolChoice)
      (appendLlamaOfficialFirstUser json e₂ messages' tools toolChoice) := by
  cases tools with
  | none => exact .ok ⟨h.nil, hmessages⟩
  | some tools =>
    cases hmessages with
    | nil => exact .error
    | @cons message message' rest rest' hmessage hrest =>
      unfold appendLlamaOfficialFirstUser
      dsimp only
      rw [hmessage.role]
      split
      · apply (appendLlamaHeader_related h "user").bind
        intro header header' hheader
        apply (appendLlamaOfficialToolInstruction_related h tools toolChoice).bind
        intro instruction instruction' hinstruction
        apply (Related.read fun hs => by rw [hmessage.eq hs]).bind
        intro text text' hsame
        apply (h.piece _ _ fun hs => by rw [hsame hs]).bind
        intro content content' hcontent
        apply (h.token llamaEot (by decide)).bind
        intro stop stop' hstop
        exact .ok ⟨h.append (h.append (h.append hheader hinstruction) hcontent) hstop, hrest⟩
      · exact .error

theorem appendOfficialLlamaMessage_related {message message' : Message}
    (hmessage : SameMessage same message message') (continuation : Bool) :
    Related same R (appendOfficialLlamaMessage json e₁ message continuation)
      (appendOfficialLlamaMessage json e₂ message' continuation) := by
  unfold appendOfficialLlamaMessage
  rw [hmessage.messageRole, hmessage.toolCalls]
  apply Related.refl.bind
  intro role _ hrole
  subst hrole
  split
  · unfold appendLlamaOfficialToolCall
    rw [hmessage.toolCalls]
    split
    · apply Related.refl.bind
      intro arguments _ harguments
      subst harguments
      apply h.concat
      apply List.Forall₂.cons (appendLlamaHeader_related h "assistant")
      apply List.Forall₂.cons (h.text "\n\n")
      apply List.Forall₂.cons (h.text _)
      exact .cons (h.token _ (by decide)) .nil
    · exact .error
  · split
    · apply (openHeader_related h "ipython").bind
      intro begin begin' hbegin
      apply (Related.read fun hs => by rw [hmessage.eq hs]).bind
      intro content content' hsame
      have hrest := h.concat (.cons (h.piece (json.toString (.string content))
        (json.toString (.string content')) fun hs => by rw [hsame hs])
        (.cons (h.token llamaEot (by decide)) .nil))
      apply hrest.bind
      intro rest rest' hrest
      exact .ok (h.append hbegin hrest)
    · split
      · apply (openHeader_related h "assistant").bind
        intro begin begin' hbegin
        apply (Related.read fun hs => by rw [hmessage.eq hs]).bind
        intro content content' hsame
        apply (h.piece (trim content) (trim content') fun hs => by rw [hsame hs]).bind
        intro rest rest' hrest
        exact .ok (h.append hbegin hrest)
      · apply (Related.read fun hs => by rw [hmessage.eq hs]).bind
        intro content content' hsame
        exact appendLlamaMessage_related h role fun hs => by rw [hsame hs]

theorem appendOfficialLlamaMessages_related {messages messages' : List Message}
    (hmessages : List.Forall₂ (SameMessage same) messages messages') :
    Related same R (appendOfficialLlamaMessages json e₁ messages)
      (appendOfficialLlamaMessages json e₂ messages') := by
  induction hmessages with
  | nil => exact .ok h.nil
  | @cons message message' rest rest' hmessage hrest ih =>
    have hempty : rest.isEmpty = rest'.isEmpty := by
      cases hrest with
      | nil => rfl
      | cons _ _ => rfl
    unfold appendOfficialLlamaMessages
    rw [hempty]
    apply (appendOfficialLlamaMessage_related h hmessage _).bind
    intro tokens tokens' htokens
    apply ih.bind
    intro more more' hmore
    exact .ok (h.append htokens hmore)

theorem chatTokensOfficialLlama_related {messages messages' : List Message}
    (hmessages : List.Forall₂ (SameMessage same) messages messages')
    (tools : Option (List ToolDefinition)) (toolChoice : Option Value) :
    Related same R (chatTokensOfficialLlama json e₁ messages tools toolChoice)
      (chatTokensOfficialLlama json e₂ messages' tools toolChoice) := by
  unfold chatTokensOfficialLlama
  generalize officialTools tools toolChoice = offered
  apply (appendLlamaOfficialSystem_related h hmessages offered).bind
  intro system system' hsystem
  apply (appendLlamaOfficialFirstUser_related h (afterSystem_related hmessages) offered
    toolChoice).bind
  intro found found' hfound
  apply (appendOfficialLlamaMessages_related h hfound.2).bind
  intro body body' hbody
  rw [endsWithAssistant_related hmessages]
  split
  · exact .ok (h.append (h.append hsystem hfound.1) hbody)
  · apply (openHeader_related h "assistant").bind
    intro suffix suffix' hsuffix
    exact .ok (h.append (h.append (h.append hsystem hfound.1) hbody) hsuffix)

end Llama

theorem renderOfficial_related {architecture : ModelArchitecture}
    (h : Respects same (templateMarkers architecture) e₁ e₂ R)
    (hcontent : architecture = .qwen3 → RespectsContent same e₁ e₂ R)
    {messages messages' : List Message}
    (hmessages : List.Forall₂ (SameMessage same) messages messages')
    (tools : Option (List ToolDefinition)) (toolChoice : Option Value) :
    Related same R (renderOfficial json e₁ architecture messages tools toolChoice)
      (renderOfficial json e₂ architecture messages' tools toolChoice) := by
  cases architecture with
  | qwen3 => exact chatTokensOfficialQwen_related h (hcontent rfl) hmessages tools toolChoice
  | llama => exact chatTokensOfficialLlama_related h hmessages tools toolChoice

end Leone.Template

import Leone.Template.Calls

/-!
# Tool calls that return

Calls are rendered one a line and parsed back. They return if no string in their arguments holds the
end tag and the walk over each call stays in its limits. The official renderer writes the arguments
through the spacing pass, so there the strings must be ASCII as well.
-/

namespace Leone.Template

open Framework Text

/-! ## Several calls -/

/-- Calls behind a text, one a line. -/
def behindText (calls : List RenderedCall) : List Char := calls.flatMap fun call => '\n' :: call.chars

def linesText : List RenderedCall → List Char
  | [] => []
  | call :: calls => call.chars ++ behindText calls

theorem behindText_cons (call : RenderedCall) (calls : List RenderedCall) :
    behindText (call :: calls) = '\n' :: linesText (call :: calls) := by
  rw [behindText, List.flatMap_cons, List.cons_append, linesText, behindText]

theorem linesText_head (call : RenderedCall) (calls : List RenderedCall) :
    ∃ rest, linesText (call :: calls) = '<' :: rest := ⟨_, rfl⟩

theorem linesText_last (call : RenderedCall) (calls : List RenderedCall) :
    ∃ front, linesText (call :: calls) = front ++ ['>'] := by
  induction calls generalizing call with
  | nil =>
    have hlast : toolCallEnd.toList = "</tool_call".toList ++ ['>'] := rfl
    rw [linesText, behindText, List.flatMap_nil, List.append_nil, RenderedCall.chars, callText, hlast]
    exact ⟨toolCallStart.toList ++ '\n' :: (envelopeText call.name call.text ++
      '\n' :: "</tool_call".toList), by simp⟩
  | cons next calls ih =>
    rcases ih next with ⟨front, hfront⟩
    rw [linesText, behindText_cons, hfront]
    exact ⟨call.chars ++ '\n' :: front, by simp⟩

theorem trim_linesText (call : RenderedCall) (calls : List RenderedCall) :
    trim (String.ofList (linesText (call :: calls))) = String.ofList (linesText (call :: calls)) := by
  have hnone : ∀ c ∈ ([] : List Char), isWhitespace c := fun c hc => by cases hc
  have htrim := trim_around hnone hnone (by decide) (by decide) (linesText_head call calls)
    (linesText_last call calls)
  rwa [List.nil_append, List.append_nil] at htrim

/-- Behind a call the next ones follow without the line break. -/
theorem trim_behindText (calls : List RenderedCall) :
    trim (String.ofList (behindText calls)) = String.ofList (linesText calls) := by
  cases calls with
  | nil => rfl
  | cons call calls =>
    have hnone : ∀ c ∈ ([] : List Char), isWhitespace c := fun c hc => by cases hc
    have htrim := trim_around newline_whitespace hnone (by decide) (by decide)
      (linesText_head call calls) (linesText_last call calls)
    rw [List.append_nil] at htrim
    rw [behindText_cons]
    exact htrim

theorem length_le_behindText (calls : List RenderedCall) :
    calls.length ≤ (behindText calls).length := by
  induction calls with
  | nil => exact le_rfl
  | cons call calls ih =>
    rw [behindText, List.flatMap_cons, List.length_append, List.length_cons, List.length_cons]
    rw [behindText] at ih
    omega

theorem length_le_linesText (calls : List RenderedCall) :
    calls.length ≤ (linesText calls).length := by
  cases calls with
  | nil => exact le_rfl
  | cons call calls =>
    have hchars : 1 ≤ call.chars.length := by
      rw [RenderedCall.chars, callText, List.length_append]
      exact Nat.le_add_right_of_le (by decide)
    rw [linesText, List.length_append, List.length_cons]
    have hmore := length_le_behindText calls
    omega

theorem forall₂_both {α β : Type} {R S : α → β → Prop} {xs : List α} {ys : List β}
    (hR : List.Forall₂ R xs ys) (hS : List.Forall₂ S xs ys) : ∀ x ∈ xs, ∃ y, R x y ∧ S x y := by
  induction hR with
  | nil => intro x hx; cases hx
  | cons hxy _ ih =>
    cases hS with
    | cons hxy' hrest =>
      rw [List.forall_mem_cons]
      exact ⟨⟨_, hxy, hxy'⟩, ih hrest⟩

/-- A parsed call that is a rendered one. -/
structure ReadBack (json : SerdeJson) (rendered : RenderedCall) (parsed : GeneratedToolCall) : Prop where
  name : parsed.function.name = rendered.name
  arguments : parsed.function.arguments = json.toString rendered.arguments

section Run

variable {json : SerdeJson} (hjson : json.Strict) {newId : Nat → String}
  {offered : Option (List ToolDefinition)} {choice : Option Value}
  (hchoice : namedToolChoice choice = none)

include hjson hchoice in
theorem parseTaggedToolCalls_sound {calls : List RenderedCall}
    (hcalls : ∀ call ∈ calls, call.Sound json offered) {turns : Nat} (hturns : calls.length ≤ turns)
    {index : Nat} {parsed : List GeneratedToolCall}
    (h : parseTaggedToolCalls json newId offered choice turns index (String.ofList (linesText calls)) =
      .ok parsed) :
    (∀ call ∈ calls, Kept call.arguments) ∧ List.Forall₂ (ReadBack json) calls parsed := by
  induction calls generalizing turns index parsed with
  | nil =>
    have hnil : parsed = [] := by
      cases turns with
      | zero => exact (Except.ok.inj h).symm
      | succ turns =>
        rw [parseTaggedToolCalls, if_pos (by rfl)] at h
        exact (Except.ok.inj h).symm
    rw [hnil]
    exact ⟨fun call hcall => (by cases hcall), .nil⟩
  | cons call calls ih =>
    cases turns with
    | zero => simp at hturns
    | succ turns =>
      rcases linesText_head call calls with ⟨rest, hhead⟩
      have hne : String.ofList (linesText (call :: calls)) ≠ "" := by
        rw [hhead]
        exact fun heq => by cases String.ofList_injective heq
      rw [parseTaggedToolCalls, if_neg hne, bind_eq_ok] at h
      rcases h with ⟨first, hfirst, hmore⟩
      rw [linesText, parseGeneratedToolCall_iff hjson hchoice (hcalls call List.mem_cons_self)] at hfirst
      rcases hfirst with ⟨hkept, rfl⟩
      rcases bind_eq_ok.mp hmore with ⟨others, hothers, heq⟩
      rw [trim_behindText] at hothers
      cases heq
      have hlater := ih (fun other hother => hcalls other (List.mem_cons_of_mem call hother))
        (Nat.le_of_succ_le_succ hturns) hothers
      exact ⟨List.forall_mem_cons.mpr ⟨hkept, hlater.1⟩, .cons ⟨rfl, rfl⟩ hlater.2⟩

include hjson hchoice in
theorem parseTaggedToolCalls_kept {calls : List RenderedCall}
    (hcalls : ∀ call ∈ calls, call.Sound json offered) (hkept : ∀ call ∈ calls, Kept call.arguments)
    (turns index : Nat) :
    ∃ parsed, parseTaggedToolCalls json newId offered choice turns index
      (String.ofList (linesText calls)) = .ok parsed := by
  induction turns generalizing calls index with
  | zero => exact ⟨[], rfl⟩
  | succ turns ih =>
    cases calls with
    | nil => exact ⟨[], by rw [parseTaggedToolCalls, if_pos (by rfl)]⟩
    | cons call calls =>
      rw [List.forall_mem_cons] at hcalls hkept
      rcases linesText_head call calls with ⟨rest, hhead⟩
      have hne : String.ofList (linesText (call :: calls)) ≠ "" := by
        rw [hhead]
        exact fun heq => by cases String.ofList_injective heq
      have hfirst := (parseGeneratedToolCall_iff hjson hchoice hcalls.1 (newId index)
        (behindText calls)).mpr ⟨hkept.1, rfl⟩
      rcases ih hcalls.2 hkept.2 (index + 1) with ⟨others, hothers⟩
      refine ⟨generatedToolCall json (newId index) call.name call.arguments :: others, ?_⟩
      rw [parseTaggedToolCalls, if_neg hne, linesText]
      exact bind_eq_ok.mpr ⟨_, hfirst,
        bind_eq_ok.mpr ⟨others, by rw [trim_behindText]; exact hothers, rfl⟩⟩

theorem parseGeneratedToolCalls_eq (call : RenderedCall) (calls : List RenderedCall) :
    parseGeneratedToolCalls json newId offered choice (String.ofList (linesText (call :: calls))) =
      (parseTaggedToolCalls json newId offered choice
        (String.ofList (linesText (call :: calls))).length 0
        (String.ofList (linesText (call :: calls)))).map some := by
  have hstarts : toolCallStart.toList.isPrefixOf (linesText (call :: calls)) = true := by
    rw [List.isPrefixOf_iff_prefix, linesText, RenderedCall.chars, callText, List.append_assoc]
    exact List.prefix_append _ _
  have hbrace : ¬ ['\x7b'].isPrefixOf (linesText (call :: calls)) = true := by
    rcases linesText_head call calls with ⟨rest, hhead⟩
    rw [hhead]
    exact fun h => by cases h
  rw [parseGeneratedToolCalls, trim_linesText, String.toList_ofList, if_neg hbrace, if_pos hstarts]

end Run

/-! ## Rendering -/

theorem renderToolCalls_behind {render : RequestToolCall → Except RuntimeError String}
    {view : RequestToolCall → RenderedCall} {calls : List RequestToolCall}
    (h : ∀ call ∈ calls, render call = .ok (String.ofList (view call).chars)) {content : String}
    (hcontent : content ≠ "") :
    renderToolCalls render content calls =
      .ok (content ++ String.ofList (behindText (calls.map view))) := by
  induction calls generalizing content with
  | nil => rw [renderToolCalls, List.map_nil, behindText, List.flatMap_nil, String.ofList_nil,
      String.append_empty]
  | cons call calls ih =>
    rw [List.forall_mem_cons] at h
    have hnext : content ++ "\n" ++ String.ofList (view call).chars ≠ "" := by
      intro heq
      have hlist := congrArg String.toList heq
      rw [String.toList_append, String.toList_append] at hlist
      exact hcontent (String.toList_eq_nil_iff.mp
        (List.append_eq_nil_iff.mp (List.append_eq_nil_iff.mp hlist).1).1)
    rw [renderToolCalls, h.1]
    show renderToolCalls render
      ((if content ≠ "" then content ++ "\n" else content) ++ String.ofList (view call).chars) calls = _
    rw [if_pos hcontent, ih h.2 hnext]
    congr 1
    apply String.toList_injective
    simp [behindText]

theorem renderToolCalls_lines {render : RequestToolCall → Except RuntimeError String}
    {view : RequestToolCall → RenderedCall} {calls : List RequestToolCall}
    (h : ∀ call ∈ calls, render call = .ok (String.ofList (view call).chars)) :
    renderToolCalls render "" calls = .ok (String.ofList (linesText (calls.map view))) := by
  cases calls with
  | nil => rfl
  | cons call calls =>
    rw [List.forall_mem_cons] at h
    have hnext : String.ofList (view call).chars ≠ "" := fun heq => by
      cases String.ofList_injective heq
    rw [renderToolCalls, h.1]
    show renderToolCalls render ("" ++ String.ofList (view call).chars) calls = _
    rw [String.empty_append, renderToolCalls_behind h.2 hnext, List.map_cons, linesText,
      String.ofList_append]

/-- The arguments of a call, if they are a JSON object. -/
def RequestToolCall.value (json : SerdeJson) (call : RequestToolCall) : Value :=
  match parseRequestToolArguments json call.function.arguments with
  | .ok value => value
  | .error _ => .null

/-- A call of an offered function with a valid name and arguments that are a JSON object. -/
structure ValidCall (json : SerdeJson) (offered : Option (List ToolDefinition))
    (call : RequestToolCall) : Prop where
  kind : call.kind = "function"
  name : validateFunctionName call.function.name = .ok ()
  offered : ∃ tools, offered = some tools ∧ ∃ tool ∈ tools, tool.function.name = call.function.name
  arguments : ∃ value, parseRequestToolArguments json call.function.arguments = .ok value

/-- A parsed call with the name of a rendered one and with equal arguments. -/
structure SameCall (json : SerdeJson) (call : RequestToolCall) (parsed : GeneratedToolCall) :
    Prop where
  name : parsed.function.name = call.function.name
  arguments : ∃ value, parseRequestToolArguments json call.function.arguments = .ok value ∧
    json.fromStr parsed.function.arguments = some value

/-- The calls are rendered, and the text is parsed as the same calls. -/
def Returns (json : SerdeJson) (newId : Nat → String) (offered : Option (List ToolDefinition))
    (choice : Option Value)
    (render : String → List RequestToolCall → Except RuntimeError String)
    (calls : List RequestToolCall) : Prop :=
  ∃ text parsed, render "" calls = .ok text ∧
    parseGeneratedToolCalls json newId offered choice text = .ok (some parsed) ∧
      List.Forall₂ (SameCall json) calls parsed

section Returns

variable {json : SerdeJson} {offered : Option (List ToolDefinition)}

theorem ValidCall.parse {call : RequestToolCall} (h : ValidCall json offered call) :
    parseRequestToolArguments json call.function.arguments = .ok (call.value json) := by
  rcases h.arguments with ⟨value, hvalue⟩
  rw [RequestToolCall.value, hvalue]

theorem parseRequestToolArguments_eq_ok {arguments : String} {value : Value}
    (h : parseRequestToolArguments json arguments = .ok value) :
    json.rejectDuplicateKeys arguments = .ok () ∧ json.fromStr arguments = some value ∧
      value.asObject.isSome := by
  unfold parseRequestToolArguments at h
  cases hreject : json.rejectDuplicateKeys arguments with
  | error message =>
    rw [hreject] at h
    cases h
  | ok _ =>
    cases hparse : json.fromStr arguments with
    | none =>
      rw [hreject, hparse] at h
      cases h
    | some read =>
      rw [hreject, hparse] at h
      cases hobject : read.asObject with
      | none =>
        simp only [hobject] at h
        cases h
      | some entries =>
        simp only [hobject] at h
        cases h
        exact ⟨rfl, rfl, by rw [hobject]; rfl⟩

/-- A valid name is not empty and holds no tag. -/
theorem validateFunctionName_eq_ok {name : String} (h : validateFunctionName name = .ok ()) :
    name ≠ "" ∧ ¬ Tagged name.toList := by
  unfold validateFunctionName at h
  split_ifs at h with hcheck
  simp only [Bool.or_eq_true, decide_eq_true_eq, Bool.not_eq_true', not_or,
    Bool.not_eq_false] at hcheck
  refine ⟨hcheck.1.1, not_tagged ?_⟩
  intro hmem
  have hbyte : (0x3c : UInt8) ∈ utf8Bytes name :=
    List.mem_flatMap.mpr ⟨'<', hmem, by decide⟩
  exact absurd (List.all_eq_true.mp hcheck.2 _ hbyte) (by decide)

/-- A renderer returns the calls if and only if they are kept and it renders their arguments. -/
theorem returns_iff (hjson : json.Strict) {newId : Nat → String} {choice : Option Value}
    (hchoice : namedToolChoice choice = none)
    {render : RequestToolCall → Except RuntimeError String} {view : RequestToolCall → RenderedCall}
    {calls : List RequestToolCall} (hne : calls ≠ [])
    (hcalls : ∀ call ∈ calls, ValidCall json offered call)
    (hrender : ∀ call ∈ calls, render call = .ok (String.ofList (view call).chars))
    (hsound : ∀ call ∈ calls, (view call).Sound json offered)
    (hname : ∀ call, (view call).name = call.function.name) :
    Returns json newId offered choice (renderToolCalls render) calls ↔
      ∀ call ∈ calls, Kept (view call).arguments ∧ (view call).arguments = call.value json := by
  have hlines := renderToolCalls_lines hrender
  have hsounds : ∀ part ∈ calls.map view, part.Sound json offered := List.forall_mem_map.mpr hsound
  have hread : ∀ call ∈ calls, ∀ parsed, ReadBack json (view call) parsed →
      json.fromStr parsed.function.arguments = some (view call).arguments := by
    intro call hcall parsed hparsed
    have hvalid := (hsound call hcall).valid
    rw [hparsed.arguments]
    exact hjson.parses _ _ hvalid (hjson.prints _ hvalid).blank
  have hparse : ∀ parsed, parseGeneratedToolCalls json newId offered choice
      (String.ofList (linesText (calls.map view))) = .ok (some parsed) ↔
        parseTaggedToolCalls json newId offered choice
          (String.ofList (linesText (calls.map view))).length 0
          (String.ofList (linesText (calls.map view))) = .ok parsed := by
    intro parsed
    rcases List.exists_cons_of_ne_nil hne with ⟨first, rest, rfl⟩
    rw [List.map_cons, parseGeneratedToolCalls_eq]
    cases parseTaggedToolCalls json newId offered choice _ 0 _ <;> simp [Except.map]
  have hturns : (calls.map view).length ≤ (String.ofList (linesText (calls.map view))).length := by
    rw [String.length_ofList]
    exact length_le_linesText _
  rw [Returns, hlines]
  constructor
  · intro h
    rcases h with ⟨text, parsed, htext, hread', hsame⟩
    cases htext
    have hback := parseTaggedToolCalls_sound hjson hchoice hsounds hturns ((hparse parsed).mp hread')
    intro call hcall
    refine ⟨hback.1 (view call) (List.mem_map_of_mem hcall), ?_⟩
    rcases forall₂_both hsame (List.forall₂_map_left_iff.mp hback.2) call hcall with
      ⟨other, hother, hview⟩
    rcases hother.arguments with ⟨value, hvalue, hfrom⟩
    rw [hread call hcall other hview] at hfrom
    rw [(hcalls call hcall).parse] at hvalue
    rw [Option.some.inj hfrom, Except.ok.inj hvalue]
  · intro h
    have hkept : ∀ part ∈ calls.map view, Kept part.arguments :=
      List.forall_mem_map.mpr fun call hcall => (h call hcall).1
    rcases parseTaggedToolCalls_kept hjson hchoice hsounds hkept
      (String.ofList (linesText (calls.map view))).length 0 with ⟨parsed, hparsed⟩
    have hback := parseTaggedToolCalls_sound hjson hchoice hsounds hturns hparsed
    refine ⟨_, parsed, rfl, (hparse parsed).mpr hparsed, ?_⟩
    apply forall₂_mem (List.forall₂_map_left_iff.mp hback.2)
    intro call hcall other _ hother
    refine ⟨hother.name.trans (hname call), call.value json, (hcalls call hcall).parse, ?_⟩
    rw [hread call hcall other hother, (h call hcall).2]

/-- Both renderers write a call as the layout of an object. -/
theorem callText_string (hjson : json.Strict) (name arguments : String) :
    "<tool_call>\n\x7b\"name\": " ++ json.toString (.string name) ++ ", \"arguments\": " ++ arguments ++
      "\x7d\n</tool_call>" = String.ofList (callText name arguments.toList) := by
  have hname : literal "name" = "\"name\"".toList := by decide
  have harguments : literal "arguments" = "\"arguments\"".toList := by decide
  apply String.toList_injective
  simp only [String.toList_append, String.toList_ofList, toString_key hjson.toFaithful, callText,
    envelopeText, commas_cons_cons, commas_singleton, hname, harguments, toolCallStart, toolCallEnd]
  simp

def requestView (json : SerdeJson) (call : RequestToolCall) : RenderedCall :=
  ⟨call.function.name, (json.toString (call.value json)).toList, call.value json⟩

def officialView (json : SerdeJson) (call : RequestToolCall) : RenderedCall :=
  ⟨call.function.name, (spacedJson json (call.value json)).toList, (call.value json).recode⟩

section Views

variable (hjson : json.Strict) {call : RequestToolCall} (hcall : ValidCall json offered call)

include hcall in
theorem ValidCall.namesOneFunction : namesOneFunction call = true := by
  rw [Template.namesOneFunction, hcall.kind]
  simpa using (validateFunctionName_eq_ok hcall.name).1

include hjson hcall in
theorem renderRequestToolCall_eq :
    renderRequestToolCall json call = .ok (String.ofList (requestView json call).chars) := by
  unfold renderRequestToolCall
  rw [hcall.namesOneFunction, hcall.parse]
  exact congrArg Except.ok (callText_string hjson call.function.name (json.toString (call.value json)))

include hjson hcall in
theorem renderOfficialToolCall_eq :
    renderOfficialToolCall json call = .ok (String.ofList (officialView json call).chars) := by
  unfold renderOfficialToolCall
  rw [hcall.namesOneFunction, hcall.parse]
  exact congrArg Except.ok
    (callText_string hjson call.function.name (spacedJson json (call.value json)))

include hjson hcall in
theorem value_valid : (call.value json).Valid json := by
  have hparse := parseRequestToolArguments_eq_ok hcall.parse
  exact (hjson.reads _ _ hparse.1 hparse.2.1).1

include hjson hcall in
theorem requestView_sound : (requestView json call).Sound json offered := by
  have hname := validateFunctionName_eq_ok hcall.name
  exact
    { lays := (hjson.prints _ (value_valid hjson hcall)).blank
      valid := value_valid hjson hcall
      object := (parseRequestToolArguments_eq_ok hcall.parse).2.2
      named := hname.1
      untagged := hname.2
      offered := hcall.offered }

include hjson hcall in
theorem officialView_sound : (officialView json call).Sound json offered := by
  have hname := validateFunctionName_eq_ok hcall.name
  have hvalid := value_valid hjson hcall
  have hobject : (call.value json).recode.asObject.isSome := by
    have hobject := (parseRequestToolArguments_eq_ok hcall.parse).2.2
    cases hvalue : call.value json with
    | object entries => rfl
    | null => rw [hvalue] at hobject; cases hobject
    | bool value => rw [hvalue] at hobject; cases hobject
    | number text => rw [hvalue] at hobject; cases hobject
    | string text => rw [hvalue] at hobject; cases hobject
    | array values => rw [hvalue] at hobject; cases hobject
  exact
    { lays := spacedJsonText_lays hvalid (hjson.prints _ hvalid)
      valid := recode_valid hvalid
      object := hobject
      named := hname.1
      untagged := hname.2
      offered := hcall.offered }

end Views

section Iff

variable (hjson : json.Strict) {newId : Nat → String} {choice : Option Value}
  (hchoice : namedToolChoice choice = none) {calls : List RequestToolCall} (hne : calls ≠ [])
  (hcalls : ∀ call ∈ calls, ValidCall json offered call)

include hjson hchoice hne hcalls

theorem requestReturns_iff :
    Returns json newId offered choice (renderRequestToolCalls json) calls ↔
      ∀ call ∈ calls, Kept (call.value json) := by
  apply (returns_iff hjson hchoice hne hcalls
    (fun call hcall => renderRequestToolCall_eq hjson (hcalls call hcall))
    (fun call hcall => requestView_sound hjson (hcalls call hcall)) fun _ => rfl).trans
  apply forall₂_congr
  intro call hcall
  exact and_iff_left rfl

theorem officialReturns_iff :
    Returns json newId offered choice (renderOfficialToolCalls json) calls ↔
      ∀ call ∈ calls, Kept (call.value json) ∧ (call.value json).Ascii := by
  apply (returns_iff hjson hchoice hne hcalls
    (fun call hcall => renderOfficialToolCall_eq hjson (hcalls call hcall))
    (fun call hcall => officialView_sound hjson (hcalls call hcall)) fun _ => rfl).trans
  apply forall₂_congr
  intro call hcall
  show Kept (call.value json).recode ∧ (call.value json).recode = call.value json ↔ _
  rw [← recode_eq_iff (value_valid hjson (hcalls call hcall))]
  constructor
  · intro h
    exact ⟨h.2 ▸ h.1, h.2⟩
  · intro h
    rw [h.2]
    exact ⟨h.1, rfl⟩

/-- Calls return through the compact renderer if and only if they are kept, and through the official
one if and only if their strings are ASCII as well. -/
theorem toolCalls_return_iff :
    (Returns json newId offered choice (renderRequestToolCalls json) calls ↔
      ∀ call ∈ calls, Kept (call.value json)) ∧
    (Returns json newId offered choice (renderOfficialToolCalls json) calls ↔
      ∀ call ∈ calls, Kept (call.value json) ∧ (call.value json).Ascii) :=
  ⟨requestReturns_iff hjson hchoice hne hcalls, officialReturns_iff hjson hchoice hne hcalls⟩

end Iff

/-- The text of an object is read as arguments. -/
theorem parseRequestToolArguments_toString (hjson : json.Strict) {entries : List (String × Value)}
    (hvalid : (Value.object entries).Valid json) (haccepted : Accepted (.object entries)) :
    parseRequestToolArguments json (json.toString (.object entries)) = .ok (.object entries) := by
  have hlays := (hjson.prints _ hvalid).blank
  unfold parseRequestToolArguments
  rw [(hjson.walks _ _ hvalid hlays).mpr haccepted, hjson.parses _ _ hvalid hlays]
  rfl

end Returns

/-! ## One call -/

/-- The weather of a city. -/
def weatherCall (city : String) : RequestToolCall :=
  { id := "call_0"
    kind := "function"
    function :=
      { name := "weather"
        arguments := referenceJson.toString (.object [("city", .string city)]) } }

def weatherTools : Option (List ToolDefinition) :=
  some [{ kind := "function"
          function := { name := "weather", description := none, parameters := none, strict := none } }]

theorem parse_weatherCall (city : String) :
    parseRequestToolArguments referenceJson (weatherCall city).function.arguments =
      .ok (.object [("city", .string city)]) := by
  have hvalid : (Value.object [("city", .string city)]).Valid referenceJson :=
    ⟨List.pairwise_singleton _ _, trivial, trivial⟩
  apply parseRequestToolArguments_toString referenceJson_strict hvalid
  rw [accepted_iff hvalid]
  exact ⟨(by decide : 4 ≤ maxJsonNodes), (by decide : 1 ≤ maxJsonDepth)⟩

theorem value_weatherCall (city : String) :
    (weatherCall city).value referenceJson = .object [("city", .string city)] := by
  rw [RequestToolCall.value, parse_weatherCall]

theorem weatherCall_valid (city : String) : ValidCall referenceJson weatherTools (weatherCall city) where
  kind := rfl
  name := (by rw [validateFunctionName, if_neg (by decide)] : validateFunctionName "weather" = .ok ())
  offered := ⟨_, rfl, _, List.mem_cons_self, rfl⟩
  arguments := ⟨_, parse_weatherCall city⟩

theorem weatherCalls_return :
    (Returns referenceJson toString weatherTools none (renderRequestToolCalls referenceJson)
        [weatherCall "Bonn"] ↔
      ∀ call ∈ [weatherCall "Bonn"], Kept (call.value referenceJson)) ∧
    (Returns referenceJson toString weatherTools none (renderOfficialToolCalls referenceJson)
        [weatherCall "Bonn"] ↔
      ∀ call ∈ [weatherCall "Bonn"], Kept (call.value referenceJson) ∧
        (call.value referenceJson).Ascii) :=
  toolCalls_return_iff referenceJson_strict rfl (List.cons_ne_nil _ _)
    (List.forall_mem_singleton.mpr (weatherCall_valid "Bonn"))

/-- The official renderer loses the name of a city. -/
theorem not_toolCalls_return : ¬ ∀ (json : SerdeJson) (newId : Nat → String)
    (offered : Option (List ToolDefinition)) (choice : Option Value) (calls : List RequestToolCall),
    json.Strict → namedToolChoice choice = none → calls ≠ [] →
      (∀ call ∈ calls, ValidCall json offered call) →
        Returns json newId offered choice (renderRequestToolCalls json) calls ∧
          Returns json newId offered choice (renderOfficialToolCalls json) calls := by
  intro h
  have hcalls := List.forall_mem_singleton.mpr (weatherCall_valid "Zürich")
  have hreturns := (h referenceJson toString weatherTools none [weatherCall "Zürich"]
    referenceJson_strict rfl (List.cons_ne_nil _ _) hcalls).2
  rw [officialReturns_iff referenceJson_strict rfl (List.cons_ne_nil _ _) hcalls] at hreturns
  have hascii := (hreturns _ List.mem_cons_self).2
  rw [value_weatherCall] at hascii
  exact absurd (hascii "Zürich" (by simp [Value.strings, stringsOfFields]) 'ü' (by decide)) (by decide)

end Leone.Template

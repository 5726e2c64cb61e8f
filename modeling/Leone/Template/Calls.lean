import Mathlib
import Leone.Template.Preserve
import Leone.Template.Tags

/-!
# Rendered calls that are read back

The renderers write a call as the layout of an object between tags. The parser takes the text up to
the first end tag, walks over it and reads it.
-/

namespace Leone.Template

open Framework Text

/-! ## Trimming -/

theorem trim_eq (text : List Char) :
    trim (String.ofList text) = String.ofList ((text.dropWhile isWhitespace).rdropWhile isWhitespace) := by
  rw [trim, String.toList_ofList]
  rfl

/-- White space around a text goes. -/
theorem trim_around {before behind : List Char} {first last : Char} {core : List Char}
    (hbefore : ∀ c ∈ before, isWhitespace c) (hbehind : ∀ c ∈ behind, isWhitespace c)
    (hfirst : isWhitespace first = false) (hlast : isWhitespace last = false)
    (hcons : ∃ rest, core = first :: rest) (hconcat : ∃ front, core = front ++ [last]) :
    trim (String.ofList (before ++ core ++ behind)) = String.ofList core := by
  rcases hcons with ⟨rest, hcons⟩
  rcases hconcat with ⟨front, hconcat⟩
  have hdrop : (before ++ core ++ behind).dropWhile isWhitespace = core ++ behind := by
    rw [List.append_assoc, List.dropWhile_append_of_pos hbefore, hcons, List.cons_append,
      List.dropWhile_cons_of_neg (by rw [hfirst]; exact Bool.false_ne_true)]
  have hrdrop : (core ++ behind).rdropWhile isWhitespace = core := by
    rw [List.rdropWhile, List.reverse_append, List.dropWhile_append_of_pos]
    · rw [hconcat, List.reverse_append, List.reverse_singleton, List.singleton_append,
        List.dropWhile_cons_of_neg (by rw [hlast]; exact Bool.false_ne_true), List.reverse_cons,
        List.reverse_reverse]
    · intro c hc
      exact hbehind c (List.mem_reverse.mp hc)
  rw [trim_eq, hdrop, hrdrop]

/-- A cut text is a part of the front of the text behind the white space. -/
theorem trim_cut {before text : List Char} {first : Char} (hbefore : ∀ c ∈ before, isWhitespace c)
    (hfirst : isWhitespace first = false) (hcons : ∃ rest, text = first :: rest) (length : Nat) :
    (trim (String.ofList (before ++ text.take length))).toList <+: text.take length := by
  rcases hcons with ⟨rest, rfl⟩
  rw [trim_eq, String.toList_ofList, List.dropWhile_append_of_pos hbefore]
  have hdrop : ((first :: rest).take length).dropWhile isWhitespace = (first :: rest).take length := by
    cases length with
    | zero => rfl
    | succ length =>
      rw [List.take_succ_cons,
        List.dropWhile_cons_of_neg (by rw [hfirst]; exact Bool.false_ne_true)]
  rw [hdrop]
  exact List.rdropWhile_prefix _ _

/-! ## The text of a call -/

/-- The object of a call, with the text of its arguments. -/
def envelopeText (name : String) (arguments : List Char) : List Char :=
  '\x7b' :: (commas [literal "name" ++ ':' :: ([' '] ++ literal name),
    [' '] ++ literal "arguments" ++ ':' :: ([' '] ++ arguments)] ++ ['\x7d'])

def callText (name : String) (arguments : List Char) : List Char :=
  toolCallStart.toList ++ '\n' :: (envelopeText name arguments ++ '\n' :: toolCallEnd.toList)

/-- The value of a call. -/
def envelope (name : String) (arguments : Value) : Value :=
  .object [("arguments", arguments), ("name", .string name)]

theorem envelope_layout {name : String} {arguments : Value} {text : List Char} {depth : Nat}
    (h : Layout Blank depth arguments text) :
    Layout Blank (depth + 1) (envelope name arguments) (envelopeText name text) := by
  have hnone : Blank [] := fun c hc => by cases hc
  have hspace : Blank [' '] := List.forall_mem_singleton.mpr (.inl rfl)
  refine ⟨[("name", .string name), ("arguments", arguments)], _, .swap _ _ [], ?_, rfl⟩
  apply List.Forall₂.cons
  · refine ⟨[], [' '], literal name, [], hnone, hspace, hnone, ?_, by simp⟩
    cases depth with
    | zero => exact h.elim
    | succ depth => rfl
  · apply List.Forall₂.cons
    · exact ⟨[' '], [' '], text, [], hspace, hspace, hnone, h, by simp⟩
    · exact .nil

theorem envelope_valid {json : SerdeJson} {name : String} {arguments : Value}
    (h : arguments.Valid json) : (envelope name arguments).Valid json :=
  ⟨(by decide : ["arguments", "name"].Pairwise (· < ·)), h, trivial, trivial⟩

theorem nodes_envelope (name : String) (arguments : Value) :
    (envelope name arguments).nodes = arguments.nodes + 5 := by
  simp only [envelope, Value.nodes, nodesOfFields]

theorem nesting_envelope (name : String) (arguments : Value) :
    (envelope name arguments).nesting = arguments.nesting + 1 := by
  simp only [envelope, Value.nesting, nestingOfFields]
  omega

theorem strings_envelope (name : String) (arguments : Value) :
    (envelope name arguments).strings = "arguments" :: (arguments.strings ++ ["name", name]) := by
  simp [envelope, Value.strings, stringsOfFields]

/-- The walk over a call stays in its limits, and no string of its arguments holds the end tag. -/
structure Kept (arguments : Value) : Prop where
  nodes : arguments.nodes + 5 ≤ maxJsonNodes
  nesting : arguments.nesting < maxJsonDepth
  untagged : ∀ text ∈ arguments.strings, ¬ Tagged text.toList

/-- What the parser takes from `serde_json` beside reading layouts: the walk over a text is that over
its value, a text that it accepts is read as a value that can be written, and the front of the text
of an object is no text of a value. -/
structure SerdeJson.Strict (json : SerdeJson) : Prop extends json.Faithful where
  reads : ∀ (text : String) (value : Value), json.rejectDuplicateKeys text = .ok () →
    json.fromStr text = some value → value.Valid json ∧ Accepted value
  walks : ∀ (value : Value) (text : String), value.Valid json → Lays Blank value text →
    (json.rejectDuplicateKeys text = .ok () ↔ Accepted value)
  cuts : ∀ (entries : List (String × Value)) (text front : String),
    (Value.object entries).Valid json → Lays Blank (.object entries) text →
      front.toList <+: text.toList → front ≠ text → json.fromStr front = none

/-- The reader and the printer satisfy this, too. -/
theorem referenceJson_strict : referenceJson.Strict where
  toFaithful := referenceJson_faithful
  reads := by
    intro text value hwalk hread
    rcases walkText_eq_ok.mp hwalk with ⟨read, hread', hsound, haccepted⟩
    cases hread.symm.trans hread'
    exact ⟨(sound_iff value).mp hsound, haccepted⟩
  walks := by
    intro value text hvalid hlays
    have hread := readText_lays hvalid hlays
    have hsound := (sound_iff value).mpr hvalid
    show walkText text.toList = .ok () ↔ _
    rw [walkText_eq_ok, hread]
    simp [hsound]
  cuts := fun _ _ _ hvalid hlays hfront hne => readText_cut hvalid hlays hfront hne

/-! ## Splitting off a call -/

section Split

variable {name : String} {arguments : List Char}

theorem envelopeText_head (name : String) (arguments : List Char) :
    ∃ rest, envelopeText name arguments = '\x7b' :: rest := ⟨_, rfl⟩

theorem envelopeText_last (name : String) (arguments : List Char) :
    ∃ front, envelopeText name arguments = front ++ ['\x7d'] := by
  rw [envelopeText, ← List.cons_append]
  exact ⟨_, rfl⟩

theorem newline_whitespace : ∀ c ∈ ['\n'], isWhitespace c := forall_chars (by decide)

theorem body_eq (name : String) (arguments more : List Char) :
    (callText name arguments ++ more).drop toolCallStart.length =
      '\n' :: (envelopeText name arguments ++ '\n' :: (toolCallEnd.toList ++ more)) := by
  have hlength : toolCallStart.length = toolCallStart.toList.length := rfl
  rw [callText, List.append_assoc, hlength, List.drop_left]
  simp

theorem splitToolCall_eq {name : String} {arguments more : List Char} {stop : Nat}
    (hfind : findMarker toolCallEnd.toList
      ('\n' :: (envelopeText name arguments ++ '\n' :: (toolCallEnd.toList ++ more))) = some stop) :
    splitToolCall (String.ofList (callText name arguments ++ more)) =
      .ok (String.ofList (('\n' :: (envelopeText name arguments ++
          '\n' :: (toolCallEnd.toList ++ more))).take stop),
        trim (String.ofList (('\n' :: (envelopeText name arguments ++
          '\n' :: (toolCallEnd.toList ++ more))).drop (stop + toolCallEnd.length)))) := by
  have hstarts : toolCallStart.toList.isPrefixOf (callText name arguments ++ more) = true := by
    rw [List.isPrefixOf_iff_prefix, callText, List.append_assoc]
    exact List.prefix_append _ _
  simp only [splitToolCall, String.toList_ofList, if_pos hstarts, body_eq, hfind]

/-- Without an end tag inside, a call ends with its own. -/
theorem splitToolCall_untagged (h : ¬ Tagged (envelopeText name arguments)) (more : List Char) :
    splitToolCall (String.ofList (callText name arguments ++ more)) =
      .ok (String.ofList (['\n'] ++ envelopeText name arguments ++ ['\n']),
        trim (String.ofList more)) := by
  have hfront : ¬ toolCallEnd.toList <:+: '\n' :: envelopeText name arguments := by
    intro htag
    exact h ((@tagged_behind ['\n'] _ (by decide)).mp htag)
  have hnewline : '\n' ∉ toolCallEnd.toList := by decide
  have hfind := @findMarker_behind _ _ _ more _ _ hnewline toolCallEnd_ne_nil hfront
  rw [List.cons_append] at hfind
  have hlength : toolCallEnd.length = toolCallEnd.toList.length := rfl
  have hsplit : '\n' :: (envelopeText name arguments ++ '\n' :: (toolCallEnd.toList ++ more)) =
      (['\n'] ++ envelopeText name arguments ++ ['\n']) ++ (toolCallEnd.toList ++ more) := by simp
  have hstop : ('\n' :: envelopeText name arguments).length + 1 =
      (['\n'] ++ envelopeText name arguments ++ ['\n']).length := by simp
  rw [splitToolCall_eq hfind, hsplit, hstop, List.take_left, hlength, ← List.length_append, ← List.append_assoc,
    List.drop_left]

/-- An end tag inside cuts the call there. -/
theorem splitToolCall_tagged (h : Tagged (envelopeText name arguments)) (more : List Char) :
    ∃ length, length < (envelopeText name arguments).length ∧ ∃ rest,
      splitToolCall (String.ofList (callText name arguments ++ more)) =
        .ok (String.ofList (['\n'] ++ (envelopeText name arguments).take length), rest) := by
  have hlayout : toolCallEnd.toList <:+: '\n' :: envelopeText name arguments := List.infix_cons h
  rcases findMarker_le hlayout ('\n' :: (toolCallEnd.toList ++ more)) with ⟨stop, hfind, hle⟩
  rw [List.cons_append] at hfind
  have hlength : toolCallEnd.toList.length = 12 := rfl
  have hpos : 0 < stop := by
    apply Nat.pos_of_ne_zero
    intro hzero
    have hstarts := (findMarker_eq_some hfind).1
    rw [hzero, List.take_zero, List.nil_append] at hstarts
    cases hstarts
  rcases Nat.exists_eq_succ_of_ne_zero hpos.ne' with ⟨length, rfl⟩
  rw [List.length_cons, hlength] at hle
  refine ⟨length, by omega, ?_⟩
  rw [splitToolCall_eq hfind, List.take_succ_cons, List.take_append_of_le_length (by omega)]
  exact ⟨_, rfl⟩

end Split

/-! ## Reading one call -/

/-- A call that is rendered: its name, the text of its arguments and the value of that text. -/
structure RenderedCall where
  name : String
  text : List Char
  arguments : Value

def RenderedCall.chars (call : RenderedCall) : List Char := callText call.name call.text

structure RenderedCall.Sound (json : SerdeJson) (offered : Option (List ToolDefinition))
    (call : RenderedCall) : Prop where
  lays : ∃ depth, Layout Blank depth call.arguments call.text
  valid : call.arguments.Valid json
  object : call.arguments.asObject.isSome
  named : call.name ≠ ""
  untagged : ¬ Tagged call.name.toList
  offered : ∃ tools, offered = some tools ∧ ∃ tool ∈ tools, tool.function.name = call.name

theorem parseGeneratedToolValue_eq_ok {json : SerdeJson} {text : String} {value : Value} :
    parseGeneratedToolValue json text = .ok value ↔
      json.rejectDuplicateKeys text = .ok () ∧ json.fromStr text = some value := by
  unfold parseGeneratedToolValue
  cases json.rejectDuplicateKeys text with
  | error message => simp
  | ok _ => cases json.fromStr text <;> simp

section Call

variable {json : SerdeJson} (hjson : json.Strict) {offered : Option (List ToolDefinition)}
  {choice : Option Value} (hchoice : namedToolChoice choice = none) {call : RenderedCall}
  (hcall : call.Sound json offered)

include hcall in
theorem generatedToolArguments_envelope :
    generatedToolArguments (envelope call.name call.arguments) = .ok call.arguments := by
  have hobject : ¬ call.arguments.asObject.isNone = true := by
    rw [Option.isNone_eq_false_iff.mpr hcall.object]
    exact Bool.false_ne_true
  show argumentsOfFields [("arguments", call.arguments)] = _
  rw [argumentsOfFields, if_neg hobject]

include hchoice hcall in
theorem generatedToolName_envelope :
    generatedToolName offered choice (envelope call.name call.arguments) = .ok call.name := by
  have hfield : generatedToolNameField (envelope call.name call.arguments) = .ok call.name := by
    have hname : ((List.lookup "name" [("arguments", call.arguments),
        ("name", Value.string call.name)]).bind Value.asStr).filter (· ≠ "") = some call.name := by
      show (some call.name).filter _ = _
      rw [Option.filter_some, if_pos (by simpa using hcall.named)]
    simp only [generatedToolNameField, envelope, Value.asObject, hname]
  have hoffered : (offered.any fun tools => tools.any fun tool => tool.function.name = call.name) = true := by
    rcases hcall.offered with ⟨tools, rfl, tool, htool, hname⟩
    exact List.any_eq_true.mpr ⟨tool, htool, decide_eq_true hname⟩
  rw [generatedToolName, hfield]
  show (validateGeneratedToolName offered choice call.name >>= fun _ => .ok call.name) = _
  rw [validateGeneratedToolName, if_pos hoffered, validateNamedGeneratedToolName, hchoice]
  rfl

include hcall in
/-- The limits of a call and its strings, by the text between its tags. -/
theorem kept_iff :
    Kept call.arguments ↔ Accepted (envelope call.name call.arguments) ∧
      ¬ Tagged (envelopeText call.name call.text) := by
  rcases hcall.lays with ⟨depth, hlayout⟩
  have hvalid : (envelope call.name call.arguments).Valid json := envelope_valid hcall.valid
  have harguments : ¬ Tagged "arguments".toList := not_tagged (by decide)
  have hname : ¬ Tagged "name".toList := not_tagged (by decide)
  rw [accepted_iff hvalid, nodes_envelope, nesting_envelope,
    tagged_layout hvalid (envelope_layout hlayout), strings_envelope]
  constructor
  · intro h
    refine ⟨⟨h.nodes, h.nesting⟩, ?_⟩
    intro htag
    rcases htag with ⟨text, htext, htag⟩
    simp only [List.mem_cons, List.mem_append, List.not_mem_nil, or_false] at htext
    rcases htext with rfl | htext | rfl | rfl
    · exact harguments htag
    · exact h.untagged text htext htag
    · exact hname htag
    · exact hcall.untagged htag
  · intro h
    refine ⟨h.1.1, h.1.2, ?_⟩
    intro text htext htag
    exact h.2 ⟨text, List.mem_cons_of_mem _ (List.mem_append_left _ htext), htag⟩

include hjson hcall in
theorem parseGeneratedToolValue_envelope {value : Value} :
    parseGeneratedToolValue json (String.ofList (envelopeText call.name call.text)) = .ok value ↔
      Accepted (envelope call.name call.arguments) ∧ value = envelope call.name call.arguments := by
  rcases hcall.lays with ⟨depth, hlayout⟩
  have hvalid : (envelope call.name call.arguments).Valid json := envelope_valid hcall.valid
  have hlays : Lays Blank (envelope call.name call.arguments)
      (String.ofList (envelopeText call.name call.text)) := by
    refine ⟨depth + 1, ?_⟩
    rw [String.toList_ofList]
    exact envelope_layout hlayout
  rw [parseGeneratedToolValue_eq_ok, hjson.walks _ _ hvalid hlays, hjson.parses _ _ hvalid hlays,
    Option.some.injEq, eq_comm (a := value)]

include hjson hcall in
/-- The front of a call is not read. -/
theorem parseGeneratedToolValue_cut {length : Nat}
    (hlength : length < (envelopeText call.name call.text).length) (value : Value) :
    parseGeneratedToolValue json
        (trim (String.ofList (['\n'] ++ (envelopeText call.name call.text).take length))) ≠
      .ok value := by
  rcases hcall.lays with ⟨depth, hlayout⟩
  have hlays : Lays Blank (envelope call.name call.arguments)
      (String.ofList (envelopeText call.name call.text)) := by
    refine ⟨depth + 1, ?_⟩
    rw [String.toList_ofList]
    exact envelope_layout hlayout
  have hfront := trim_cut newline_whitespace (by decide) (envelopeText_head call.name call.text) length
  intro hparse
  have hnone := hjson.cuts _ _
    (trim (String.ofList (['\n'] ++ (envelopeText call.name call.text).take length)))
    (envelope_valid hcall.valid) hlays
    (by rw [String.toList_ofList]; exact hfront.trans (List.take_prefix _ _)) ?_
  · rw [parseGeneratedToolValue_eq_ok, hnone] at hparse
    cases hparse.2
  · intro heq
    rw [heq, String.toList_ofList] at hfront
    have hle := hfront.length_le
    rw [List.length_take] at hle
    omega

include hjson hchoice hcall in
/-- A call is read if and only if it is kept, and then as it was rendered. -/
theorem parseGeneratedToolCall_iff (id : String) (more : List Char)
    {result : GeneratedToolCall × String} :
    parseGeneratedToolCall json offered choice id (String.ofList (call.chars ++ more)) = .ok result ↔
      Kept call.arguments ∧ result =
        (generatedToolCall json id call.name call.arguments, trim (String.ofList more)) := by
  have hfields : ∀ fields, parseGeneratedToolFields json offered choice
      (String.ofList (['\n'] ++ envelopeText call.name call.text ++ ['\n'])) = .ok fields ↔
        Accepted (envelope call.name call.arguments) ∧ fields = (call.name, call.arguments) := by
    intro fields
    have htrim := trim_around newline_whitespace newline_whitespace (by decide) (by decide)
      (envelopeText_head call.name call.text) (envelopeText_last call.name call.text)
    rw [parseGeneratedToolFields, htrim, bind_eq_ok]
    simp only [parseGeneratedToolValue_envelope hjson hcall]
    constructor
    · intro h
      rcases h with ⟨_, ⟨haccepted, rfl⟩, hrest⟩
      rw [generatedToolName_envelope hchoice hcall, generatedToolArguments_envelope hcall] at hrest
      exact ⟨haccepted, (Except.ok.inj hrest).symm⟩
    · intro h
      rcases h with ⟨haccepted, rfl⟩
      refine ⟨_, ⟨haccepted, rfl⟩, ?_⟩
      rw [generatedToolName_envelope hchoice hcall, generatedToolArguments_envelope hcall]
      rfl
  rw [parseGeneratedToolCall, bind_eq_ok, kept_iff hcall, RenderedCall.chars]
  by_cases htag : Tagged (envelopeText call.name call.text)
  · rcases splitToolCall_tagged htag more with ⟨length, hlength, rest, hsplit⟩
    constructor
    · intro h
      rcases h with ⟨parts, hparts, hrest⟩
      rw [hsplit] at hparts
      cases hparts
      rcases bind_eq_ok.mp hrest with ⟨fields, hread, _⟩
      rcases bind_eq_ok.mp hread with ⟨value, hvalue, _⟩
      exact absurd hvalue (parseGeneratedToolValue_cut hjson hcall hlength value)
    · intro h
      exact absurd htag h.1.2
  · rw [splitToolCall_untagged htag]
    constructor
    · intro h
      rcases h with ⟨parts, hparts, hrest⟩
      cases hparts
      rcases bind_eq_ok.mp hrest with ⟨fields, hread, heq⟩
      rcases (hfields fields).mp hread with ⟨haccepted, rfl⟩
      exact ⟨⟨haccepted, htag⟩, (Except.ok.inj heq).symm⟩
    · intro h
      rcases h with ⟨⟨haccepted, _⟩, rfl⟩
      refine ⟨_, rfl, bind_eq_ok.mpr ⟨_, (hfields _).mpr ⟨haccepted, rfl⟩, rfl⟩⟩

end Call

end Leone.Template

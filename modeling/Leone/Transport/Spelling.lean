import Leone.Transport.Output

/-!
# The responses that parts spell

The engine writes the parts of one response in their order. What is left of them when chunks are taken
out still begins a response, and the fallback ends one.
-/

namespace Leone.Transport

open Framework Http

/-- The bytes of parts, one behind the other. -/
def spell (parts : List Part) : List UInt8 := parts.flatMap Part.bytes

/-- A chunk with its payload. -/
def Part.IsChunk : Part → Prop
  | chunk _ _ => True
  | _ => False

/-- A part that ends a response. -/
def Part.Closes : Part → Prop
  | last | whole _ _ => True
  | _ => False

/-- Parts of one response in their order, up to some point. -/
inductive Spelled : List Part → Prop
  | nothing : Spelled []
  | body (lines : Head) (chunked : lines.Chunked) (chunks : List Part)
      (hchunks : ∀ part ∈ chunks, part.IsChunk) : Spelled (.head lines chunked :: chunks)
  | closed (lines : Head) (chunked : lines.Chunked) (chunks : List Part)
      (hchunks : ∀ part ∈ chunks, part.IsChunk) : Spelled (.head lines chunked :: chunks ++ [.last])
  | whole (response : List UInt8) (complete : Response response) : Spelled [.whole response complete]

/-- What the engine has begun to write in a phase. -/
inductive Spells : Phase → List Part → Prop
  | start : Spells .start []
  | marked : Spells .marked []
  | answering : Spells .answering []
  | streaming (lines : Head) (chunked : lines.Chunked) (chunks : List Part)
      (hchunks : ∀ part ∈ chunks, part.IsChunk) : Spells .streaming (.head lines chunked :: chunks)
  | closing (lines : Head) (chunked : lines.Chunked) (chunks : List Part)
      (hchunks : ∀ part ∈ chunks, part.IsChunk) : Spells .closing (.head lines chunked :: chunks)
  | closed (lines : Head) (chunked : lines.Chunked) (chunks : List Part)
      (hchunks : ∀ part ∈ chunks, part.IsChunk) :
      Spells .finished (.head lines chunked :: chunks ++ [.last])
  | whole (response : List UInt8) (complete : Response response) :
      Spells .finished [.whole response complete]
  | lostAll : Spells .lost []
  | lost (lines : Head) (chunked : lines.Chunked) (chunks : List Part)
      (hchunks : ∀ part ∈ chunks, part.IsChunk) : Spells .lost (.head lines chunked :: chunks)

theorem Spells.spelled {phase : Phase} {parts : List Part} (h : Spells phase parts) :
    Spelled parts := by
  cases h with
  | start | marked | answering | lostAll => exact .nothing
  | streaming lines chunked chunks hchunks | closing lines chunked chunks hchunks
  | lost lines chunked chunks hchunks => exact .body lines chunked chunks hchunks
  | closed lines chunked chunks hchunks => exact .closed lines chunked chunks hchunks
  | whole response complete => exact .whole response complete

theorem Spells.unbegun {phase : Phase} {parts : List Part} (h : Spells phase parts)
    (hphase : phase = .start) : parts = [] := by
  subst hphase
  cases h
  rfl

theorem Spells.begun {parts : List Part} (h : Spells .streaming parts) : parts ≠ [] := by
  cases h
  simp

theorem isChunk_append {chunks : List Part} (h : ∀ part ∈ chunks, part.IsChunk)
    (payload : List UInt8) (full : payload ≠ []) :
    ∀ part ∈ chunks ++ [.chunk payload full], part.IsChunk := by
  intro part hpart
  rcases List.mem_append.mp hpart with hpart | hpart
  · exact h part hpart
  · rw [List.mem_singleton.mp hpart]
    trivial

/-- The part of the next phase continues what was written. -/
theorem Spells.next {phase phase' : Phase} {parts : List Part} {part : Part} (h : Spells phase parts)
    (hnext : phase.next part = some phase') : Spells phase' (parts ++ [part]) := by
  cases h with
  | start | lostAll | lost | closed | whole => cases part <;> cases hnext
  | marked =>
    cases part with
    | head lines chunked =>
      cases hnext
      exact .streaming lines chunked [] (by simp)
    | chunk | last | whole => cases hnext
  | answering =>
    cases part with
    | head lines chunked =>
      cases hnext
      exact .closing lines chunked [] (by simp)
    | whole response complete =>
      cases hnext
      exact .whole response complete
    | chunk | last => cases hnext
  | streaming lines chunked chunks hchunks =>
    cases part with
    | chunk payload full =>
      cases hnext
      rw [List.cons_append]
      exact .streaming lines chunked _ (isChunk_append hchunks payload full)
    | head | last | whole => cases hnext
  | closing lines chunked chunks hchunks =>
    cases part with
    | chunk payload full =>
      cases hnext
      rw [List.cons_append]
      exact .closing lines chunked _ (isChunk_append hchunks payload full)
    | last =>
      cases hnext
      exact .closed lines chunked chunks hchunks
    | head | whole => cases hnext

/-! ## The bytes -/

theorem spell_append (parts more : List Part) : spell (parts ++ more) = spell parts ++ spell more :=
  List.flatMap_append

/-- The payloads of a list of chunks. -/
theorem spell_chunks {chunks : List Part} (h : ∀ part ∈ chunks, part.IsChunk) :
    ∃ payloads : List (List UInt8), (∀ payload ∈ payloads, payload ≠ []) ∧
      spell chunks = payloads.flatMap Http.chunk := by
  induction chunks with
  | nil => exact ⟨[], by simp, rfl⟩
  | cons part chunks ih =>
    rw [List.forall_mem_cons] at h
    obtain ⟨payloads, hfull, hspell⟩ := ih h.2
    cases part with
    | chunk payload full =>
      refine ⟨payload :: payloads, ?_, ?_⟩
      · intro other hother
        rcases List.mem_cons.mp hother with rfl | hother
        · exact full
        · exact hfull other hother
      · rw [spell, List.flatMap_cons, List.flatMap_cons, ← hspell]
        rfl
    | head | last | whole => exact h.1.elim

/-- The response to a request whose deadline expired before it was answered. -/
theorem response_requestTimeout : Response requestTimeoutResponse := by
  let lines : Head := ⟨[Http.ascii "HTTP/1.1 408 Request Timeout",
    Http.ascii "Content-Type: application/json", Http.ascii "Content-Length: 105",
    Http.ascii "Connection: close"], ⟨_, rfl, by decide +kernel⟩, by decide +kernel⟩
  let body := Http.ascii ("\x7b\"error\":\x7b\"message\":\"the request deadline expired\"," ++
    "\"type\":\"request_timeout\",\"code\":\"transport-deadline\"\x7d\x7d")
  have hsized : lines.Sized body.length := by
    unfold Head.Sized
    decide +kernel
  have hwhole : ¬ lines.Chunked := by
    unfold Head.Chunked
    decide +kernel
  have hbytes : lines.bytes ++ body = requestTimeoutResponse := by decide +kernel
  exact hbytes ▸ Response.sized lines hwhole body hsized

theorem Spelled.isPartial {parts : List Part} (h : Spelled parts) : Partial (spell parts) := by
  cases h with
  | nothing => exact ⟨_, response_requestTimeout, List.nil_prefix⟩
  | body lines chunked chunks hchunks =>
    obtain ⟨payloads, hfull, hspell⟩ := spell_chunks hchunks
    have hbody := isPartial_chunks lines chunked hfull
    rwa [← hspell] at hbody
  | closed lines chunked chunks hchunks =>
    obtain ⟨payloads, hfull, hspell⟩ := spell_chunks hchunks
    have hclosed := (Response.chunked lines chunked payloads hfull).isPartial
    rw [← hspell] at hclosed
    rw [spell_append]
    simpa [spell, Part.bytes] using hclosed
  | whole response complete =>
    have hwhole := complete.isPartial
    simpa [spell, Part.bytes] using hwhole

/-- Parts that close a response spell a complete one. -/
theorem Spelled.response {parts : List Part} (h : Spelled parts)
    (hcloses : ∃ part ∈ parts, part.Closes) : Response (spell parts) := by
  obtain ⟨part, hpart, hcloses⟩ := hcloses
  cases h with
  | nothing => cases hpart
  | body lines chunked chunks hchunks =>
    rcases List.mem_cons.mp hpart with rfl | hpart
    · exact hcloses.elim
    · have hchunk := hchunks part hpart
      cases part with
      | chunk => exact hcloses.elim
      | head | last | whole => exact hchunk.elim
  | closed lines chunked chunks hchunks =>
    obtain ⟨payloads, hfull, hspell⟩ := spell_chunks hchunks
    have hclosed := Response.chunked lines chunked payloads hfull
    rw [← hspell] at hclosed
    rw [spell_append]
    simpa [spell, Part.bytes] using hclosed
  | whole response complete => simpa [spell, Part.bytes] using complete

theorem Spells.finished {parts : List Part} (h : Spells .finished parts) :
    ∃ part ∈ parts, part.Closes := by
  cases h with
  | closed lines chunked chunks hchunks => exact ⟨.last, by simp, trivial⟩
  | whole response complete => exact ⟨.whole response complete, by simp, trivial⟩

/-- The fallback ends a stream that has begun. -/
theorem response_streamTimeout (lines : Head) (chunked : lines.Chunked) {chunks : List Part}
    (hchunks : ∀ part ∈ chunks, part.IsChunk) :
    Response (spell (.head lines chunked :: chunks) ++ streamTimeoutResponse) := by
  obtain ⟨payloads, hfull, hspell⟩ := spell_chunks hchunks
  let expired := Http.ascii
    "data: \x7b\"error\":\x7b\"message\":\"the request deadline expired\"\x7d\x7d\n\n"
  let done := Http.ascii "data: [DONE]\n\n"
  have hfull' : ∀ payload ∈ payloads ++ [expired, done], payload ≠ [] := by
    intro payload hpayload
    rcases List.mem_append.mp hpayload with hpayload | hpayload
    · exact hfull payload hpayload
    · rcases List.mem_cons.mp hpayload with rfl | hpayload
      · decide
      · rw [List.mem_singleton.mp hpayload]
        decide
  have hclosed := Response.chunked lines chunked (payloads ++ [expired, done]) hfull'
  rw [List.flatMap_append, ← hspell] at hclosed
  simpa [spell, Part.bytes, streamTimeoutResponse, expired, done] using hclosed

/-! ## Parts that are left out -/

/-- Parts without some of their chunks. -/
inductive Thinned : List Part → List Part → Prop
  | nil : Thinned [] []
  | keep (part : Part) {parts kept : List Part} (h : Thinned parts kept) :
      Thinned (part :: parts) (part :: kept)
  | drop (part : Part) (hchunk : part.IsChunk) {parts kept : List Part} (h : Thinned parts kept) :
      Thinned (part :: parts) kept

theorem Thinned.chunks {parts kept : List Part} (h : Thinned parts kept)
    (hchunks : ∀ part ∈ parts, part.IsChunk) : ∀ part ∈ kept, part.IsChunk := by
  induction h with
  | nil => exact hchunks
  | keep part _ ih =>
    rw [List.forall_mem_cons] at hchunks ⊢
    exact ⟨hchunks.1, ih hchunks.2⟩
  | drop part _ _ ih => exact ih (List.forall_mem_cons.mp hchunks).2

theorem Thinned.subset {parts kept : List Part} (h : Thinned parts kept) : kept ⊆ parts := by
  induction h with
  | nil => exact List.Subset.refl _
  | keep part _ ih => exact List.cons_subset_cons part ih
  | drop part _ _ ih => exact List.subset_cons_of_subset part ih

theorem Thinned.closes {parts kept : List Part} (h : Thinned parts kept) {part : Part}
    (hpart : part ∈ parts) (hcloses : part.Closes) : part ∈ kept := by
  induction h with
  | nil => exact hpart
  | keep other _ ih =>
    rcases List.mem_cons.mp hpart with rfl | hpart
    · exact List.mem_cons_self
    · exact List.mem_cons_of_mem other (ih hpart)
  | drop other hchunk _ ih =>
    rcases List.mem_cons.mp hpart with rfl | hpart
    · cases part with
      | chunk => exact hcloses.elim
      | head | last | whole => exact hchunk.elim
    · exact ih hpart

theorem Thinned.closed {chunks kept : List Part} (h : Thinned (chunks ++ [.last]) kept)
    (hchunks : ∀ part ∈ chunks, part.IsChunk) :
    ∃ chunks', (∀ part ∈ chunks', part.IsChunk) ∧ kept = chunks' ++ [.last] := by
  induction chunks generalizing kept with
  | nil =>
    cases h with
    | keep _ h =>
      cases h
      exact ⟨[], by simp, rfl⟩
    | drop _ hchunk => exact hchunk.elim
  | cons part chunks ih =>
    rw [List.forall_mem_cons] at hchunks
    cases h with
    | keep _ h =>
      obtain ⟨chunks', hchunks', rfl⟩ := ih h hchunks.2
      exact ⟨part :: chunks', List.forall_mem_cons.mpr ⟨hchunks.1, hchunks'⟩, rfl⟩
    | drop _ _ h => exact ih h hchunks.2

/-- A response in its order is one without some of its chunks as well. -/
theorem Spelled.thinned {parts kept : List Part} (h : Spelled parts) (hkept : Thinned parts kept) :
    Spelled kept := by
  cases h with
  | nothing =>
    cases hkept
    exact .nothing
  | body lines chunked chunks hchunks =>
    cases hkept with
    | keep _ hkept => exact .body lines chunked _ (hkept.chunks hchunks)
    | drop _ hchunk => exact hchunk.elim
  | closed lines chunked chunks hchunks =>
    cases hkept with
    | keep _ hkept =>
      obtain ⟨chunks', hchunks', rfl⟩ := Thinned.closed hkept hchunks
      exact .closed lines chunked chunks' hchunks'
    | drop _ hchunk => exact hchunk.elim
  | whole response complete =>
    cases hkept with
    | keep _ hkept =>
      cases hkept
      exact .whole response complete
    | drop _ hchunk => exact hchunk.elim

/-- What was begun of a response in its order. -/
theorem Spelled.begun {parts first : List Part} (h : Spelled parts) (hle : first <+: parts) :
    Spelled first := by
  cases h with
  | nothing =>
    rw [List.prefix_nil.mp hle]
    exact .nothing
  | body lines chunked chunks hchunks =>
    cases first with
    | nil => exact .nothing
    | cons part rest =>
      obtain ⟨rfl, hrest⟩ := List.cons_prefix_cons.mp hle
      exact .body lines chunked rest fun part hpart => hchunks part (hrest.subset hpart)
  | closed lines chunked chunks hchunks =>
    cases first with
    | nil => exact .nothing
    | cons part rest =>
      obtain ⟨rfl, hrest⟩ := List.cons_prefix_cons.mp hle
      rcases List.prefix_concat_iff.mp hrest with rfl | hrest
      · exact .closed lines chunked chunks hchunks
      · exact .body lines chunked rest fun part hpart => hchunks part (hrest.subset hpart)
  | whole response complete =>
    cases first with
    | nil => exact .nothing
    | cons part rest =>
      obtain ⟨rfl, hrest⟩ := List.cons_prefix_cons.mp hle
      rw [List.prefix_nil.mp hrest]
      exact .whole response complete

end Leone.Transport

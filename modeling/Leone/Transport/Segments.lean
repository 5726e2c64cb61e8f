import Leone.Transport.Request
import Leone.Chat.Matching

/-!
# Requests in pieces

The bytes of a request arrive in pieces. The head is complete with the piece that brings its last
byte, and what that piece brings of the body counts against the limit of the head.
-/

namespace Leone.Transport

open Framework Utf8

/-- The bytes that one call of `read` brings. -/
abbrev Piece := {bytes : Bytes // bytes ≠ [] ∧ bytes.length ≤ 8192}

def received (pieces : List Piece) : Bytes := pieces.flatMap Subtype.val

@[simp] theorem received_nil : received [] = [] := rfl

@[simp] theorem received_cons (piece : Piece) (pieces : List Piece) :
    received (piece :: pieces) = piece.val ++ received pieces := rfl

/-- A request within the limits: a head that ends at its first blank line and the body whose length
the head gives. -/
structure WireRequest where
  head : Bytes
  body : Bytes
  method : Bytes
  path : Bytes
  headers : Headers
  ends : Chat.windowPosition head blankLine = some (head.length - 4)
  head_le : head.length ≤ maxHeaderBytes
  parses : parseRequestHead head = .ok (method, path, headers)
  content : requestContentLength headers = .ok body.length
  body_le : body.length ≤ maxBodyBytes

def WireRequest.request (wire : WireRequest) : HttpRequest :=
  ⟨wire.method, wire.path, wire.headers, wire.body⟩

/-- The buffer when a length is reached, and the pieces that are left then. -/
def arrival (length : Nat) : Bytes → List Piece → Bytes × List Piece
  | buffer, [] => (buffer, [])
  | buffer, piece :: pieces =>
    if length ≤ (buffer ++ piece.val).length then (buffer ++ piece.val, pieces)
    else arrival length (buffer ++ piece.val) pieces

theorem arrival_received (length : Nat) (buffer : Bytes) (pieces : List Piece) :
    (arrival length buffer pieces).1 ++ received (arrival length buffer pieces).2 =
      buffer ++ received pieces := by
  induction pieces generalizing buffer with
  | nil => rfl
  | cons piece pieces ih =>
    rw [arrival]
    by_cases hlength : length ≤ (buffer ++ piece.val).length
    · rw [if_pos hlength, received_cons, List.append_assoc]
    · rw [if_neg hlength, ih, received_cons, List.append_assoc]

theorem arrival_length {length : Nat} {buffer : Bytes} {pieces : List Piece}
    (hlength : length ≤ (buffer ++ received pieces).length) :
    length ≤ (arrival length buffer pieces).1.length := by
  induction pieces generalizing buffer with
  | nil =>
    rw [received_nil, List.append_nil] at hlength
    exact hlength
  | cons piece pieces ih =>
    rw [arrival]
    by_cases hreached : length ≤ (buffer ++ piece.val).length
    · rw [if_pos hreached]
      exact hreached
    · rw [if_neg hreached]
      apply ih
      rw [List.append_assoc]
      exact hlength

/-! ## The head -/

section Head

variable {head : Bytes} (hends : Chat.windowPosition head blankLine = some (head.length - 4))

include hends

theorem blankLine_at : blankLine <+: head.drop (head.length - 4) :=
  ((Chat.windowPosition_eq_some (by decide)).mp hends).1

theorem four_le_head : 4 ≤ head.length := by
  have hlength := (blankLine_at hends).length_le
  rw [List.length_drop, show blankLine.length = 4 from rfl] at hlength
  omega

/-- A beginning of the head that is not all of it has no blank line. -/
theorem windowPosition_short {buffer : Bytes} (hbuffer : buffer <+: head)
    (hlt : buffer.length < head.length) : Chat.windowPosition buffer blankLine = none := by
  apply (Chat.windowPosition_eq_none (by decide)).mpr
  intro position hposition
  have hlength := hposition.length_le
  rw [List.length_drop, show blankLine.length = 4 from rfl] at hlength
  apply ((Chat.windowPosition_eq_some (by decide)).mp hends).2 position (by omega)
  exact hposition.trans (hbuffer.drop position)

/-- The first blank line of a text that begins with the head is the one that ends the head. -/
theorem windowPosition_long {buffer : Bytes} (hbuffer : head <+: buffer) :
    Chat.windowPosition buffer blankLine = some (head.length - 4) := by
  have hfour := four_le_head hends
  apply (Chat.windowPosition_eq_some (by decide)).mpr
  constructor
  · exact (blankLine_at hends).trans (hbuffer.drop _)
  · intro position hposition hblank
    apply ((Chat.windowPosition_eq_some (by decide)).mp hends).2 position hposition
    apply List.prefix_of_prefix_length_le hblank (hbuffer.drop position)
    rw [List.length_drop, show blankLine.length = 4 from rfl]
    omega

theorem readRequestHeaders_short (hmax : head.length ≤ maxHeaderBytes) {pieces : List Piece}
    {buffer : Bytes} (hpieces : buffer ++ received pieces <+: head)
    (hlt : (buffer ++ received pieces).length < head.length) :
    readRequestHeaders (pieces.map .data) buffer = .ok none := by
  induction pieces generalizing buffer with
  | nil => rfl
  | cons piece pieces ih =>
    rw [received_cons, ← List.append_assoc] at hpieces hlt
    have hbuffer : (buffer ++ piece.val).length < head.length := by
      rw [List.length_append] at hlt
      omega
    have hblank := windowPosition_short hends
      ((List.prefix_append _ (received pieces)).trans hpieces) hbuffer
    rw [List.map_cons, readRequestHeaders]
    simp only [if_neg (show ¬ maxHeaderBytes < (buffer ++ piece.val).length by omega), hblank]
    exact ih hpieces hlt

/-- The head is complete with the piece that brings its last byte. All that has arrived then must
be within the limit. -/
theorem readRequestHeaders_long (hmax : head.length ≤ maxHeaderBytes) {pieces : List Piece}
    {buffer : Bytes} (hpieces : head <+: buffer ++ received pieces)
    (hlt : buffer.length < head.length) :
    readRequestHeaders (pieces.map .data) buffer =
      if maxHeaderBytes < (arrival head.length buffer pieces).1.length then
        .error (invalidData "HTTP headers exceed 64 KiB")
      else .ok (some ((arrival head.length buffer pieces).1, head.length,
        (arrival head.length buffer pieces).2.map .data)) := by
  induction pieces generalizing buffer with
  | nil =>
    have hlength := hpieces.length_le
    rw [received_nil, List.append_nil] at hlength
    omega
  | cons piece pieces ih =>
    have hfour := four_le_head hends
    rw [received_cons, ← List.append_assoc] at hpieces
    rw [List.map_cons, readRequestHeaders, arrival]
    by_cases hreached : head.length ≤ (buffer ++ piece.val).length
    · have hhead : head <+: buffer ++ piece.val :=
        List.prefix_of_prefix_length_le hpieces (List.prefix_append _ _) hreached
      simp only [windowPosition_long hends hhead, if_pos hreached]
      rw [Nat.sub_add_cancel hfour]
    · have hbuffer : buffer ++ piece.val <+: head :=
        List.prefix_of_prefix_length_le (List.prefix_append _ _) hpieces (by omega)
      have hblank := windowPosition_short hends hbuffer (by omega)
      simp only [if_neg (show ¬ maxHeaderBytes < (buffer ++ piece.val).length by omega), hblank,
        if_neg hreached]
      exact ih hpieces (by omega)

end Head

/-! ## The body -/

theorem readRequestBody_long {headerEnd contentLength : Nat} {pieces : List Piece} {buffer : Bytes}
    (hlength : contentLength ≤ (buffer ++ received pieces).length - headerEnd) :
    ∃ bytes, readRequestBody headerEnd contentLength (pieces.map .data) buffer = .ok bytes ∧
      buffer <+: bytes ∧ bytes <+: buffer ++ received pieces ∧
      contentLength ≤ bytes.length - headerEnd := by
  induction pieces generalizing buffer with
  | nil =>
    rw [received_nil, List.append_nil] at hlength ⊢
    refine ⟨buffer, ?_, List.prefix_refl _, List.prefix_refl _, hlength⟩
    unfold readRequestBody
    rw [if_pos hlength]
  | cons piece pieces ih =>
    unfold readRequestBody
    by_cases hreached : contentLength ≤ buffer.length - headerEnd
    · exact ⟨buffer, by rw [if_pos hreached], List.prefix_refl _, List.prefix_append _ _, hreached⟩
    · rw [received_cons, ← List.append_assoc] at hlength ⊢
      rcases ih hlength with ⟨bytes, hread, hbuffer, hbytes, hcontent⟩
      refine ⟨bytes, ?_, (List.prefix_append _ _).trans hbuffer, hbytes, hcontent⟩
      rw [if_neg hreached]
      exact hread

theorem readRequestBody_short {headerEnd contentLength : Nat} {pieces : List Piece} {buffer : Bytes}
    (hlength : (buffer ++ received pieces).length - headerEnd < contentLength) :
    readRequestBody headerEnd contentLength (pieces.map .data) buffer =
      .error ⟨.unexpectedEof, "HTTP body ended early"⟩ := by
  induction pieces generalizing buffer with
  | nil =>
    rw [received_nil, List.append_nil] at hlength
    unfold readRequestBody
    rw [if_neg (by omega), List.map_nil]
  | cons piece pieces ih =>
    rw [received_cons, ← List.append_assoc] at hlength
    have hshort : buffer.length ≤ (buffer ++ piece.val ++ received pieces).length := by
      simp only [List.length_append]
      omega
    unfold readRequestBody
    rw [if_neg (by omega), List.map_cons]
    exact ih hlength

/-! ## The request -/

/-- What a stream gives that begins with a request, or with a part of it. -/
structure ReadsAs (wire : WireRequest) (pieces : List Piece) : Prop where
  inHead : received pieces <+: wire.head → received pieces ≠ wire.head →
    readRequest (pieces.map .data) = .ok none
  inBody : wire.head <+: received pieces →
    (received pieces).length < (wire.head ++ wire.body).length →
    ∃ error, readRequest (pieces.map .data) = .error error
  whole : wire.head ++ wire.body <+: received pieces →
    readRequest (pieces.map .data) = .ok (some wire.request)

/-- The bytes received with the piece that completes the head are within the limit of the head. -/
def HeadFits (wire : WireRequest) (pieces : List Piece) : Prop :=
  (arrival wire.head.length [] pieces).1.length ≤ maxHeaderBytes

section Request

variable {wire : WireRequest} {pieces : List Piece}

theorem readRequest_inHead (hpieces : received pieces <+: wire.head)
    (hne : received pieces ≠ wire.head) : readRequest (pieces.map .data) = .ok none := by
  have hlt : (received pieces).length < wire.head.length := by
    apply Nat.lt_of_le_of_ne hpieces.length_le
    intro hlength
    exact hne (hpieces.eq_of_length hlength)
  rw [readRequest, readRequestHeaders_short wire.ends wire.head_le hpieces hlt]
  rfl

/-- After the head, the reads go on until the body is complete. -/
theorem readRequest_head (hpieces : wire.head <+: received pieces) :
    readRequest (pieces.map .data) =
      if maxHeaderBytes < (arrival wire.head.length [] pieces).1.length then
        .error (invalidData "HTTP headers exceed 64 KiB")
      else
        (readRequestBody wire.head.length wire.body.length
          ((arrival wire.head.length [] pieces).2.map .data)
          (arrival wire.head.length [] pieces).1).map fun bytes =>
            some ⟨wire.method, wire.path, wire.headers,
              (bytes.drop wire.head.length).take wire.body.length⟩ := by
  have hfour := four_le_head wire.ends
  rw [readRequest, readRequestHeaders_long wire.ends wire.head_le hpieces (by simp; omega)]
  by_cases hfits : maxHeaderBytes < (arrival wire.head.length [] pieces).1.length
  · rw [if_pos hfits, if_pos hfits]
    rfl
  · rw [if_neg hfits, if_neg hfits]
    have harrival := arrival_received wire.head.length [] pieces
    have hreached := arrival_length (by simpa using hpieces.length_le :
      wire.head.length ≤ ([] ++ received pieces).length)
    have hhead : (arrival wire.head.length [] pieces).1.take wire.head.length = wire.head := by
      rw [← List.prefix_iff_eq_take.mp]
      apply List.prefix_of_prefix_length_le hpieces _ hreached
      rw [← List.nil_append (received pieces), ← harrival]
      exact List.prefix_append _ _
    simp only [bind, Except.bind, hhead, wire.parses, wire.content,
      if_neg (Nat.not_lt.mpr wire.body_le), pure, Except.pure]
    cases readRequestBody wire.head.length wire.body.length
      ((arrival wire.head.length [] pieces).2.map .data)
      (arrival wire.head.length [] pieces).1 <;> rfl

theorem readRequest_inBody (hpieces : wire.head <+: received pieces)
    (hlt : (received pieces).length < (wire.head ++ wire.body).length) :
    ∃ error, readRequest (pieces.map .data) = .error error := by
  rw [readRequest_head hpieces]
  by_cases hfits : maxHeaderBytes < (arrival wire.head.length [] pieces).1.length
  · exact ⟨_, by rw [if_pos hfits]⟩
  · rw [if_neg hfits, readRequestBody_short]
    · exact ⟨_, rfl⟩
    · rw [arrival_received, List.nil_append]
      rw [List.length_append] at hlt
      have := hpieces.length_le
      omega

theorem readRequest_whole (hpieces : wire.head ++ wire.body <+: received pieces)
    (hfits : HeadFits wire pieces) :
    readRequest (pieces.map .data) = .ok (some wire.request) := by
  rw [readRequest_head ((List.prefix_append _ _).trans hpieces), if_neg (Nat.not_lt.mpr hfits)]
  have harrival := arrival_received wire.head.length [] pieces
  have hlength := hpieces.length_le
  rw [List.length_append] at hlength
  have hbody : wire.body.length ≤ ((arrival wire.head.length [] pieces).1 ++
      received (arrival wire.head.length [] pieces).2).length - wire.head.length := by
    rw [harrival, List.nil_append]
    omega
  rcases readRequestBody_long hbody with ⟨bytes, hread, hbuffer, hbytes, hcontent⟩
  rw [harrival, List.nil_append] at hbytes
  have hreached := arrival_length (by simpa using (by omega) :
    wire.head.length ≤ ([] ++ received pieces).length)
  have hread' : wire.head ++ wire.body <+: bytes := by
    apply List.prefix_of_prefix_length_le hpieces hbytes
    rw [List.length_append]
    have := hbuffer.length_le
    omega
  rcases hread' with ⟨rest, rfl⟩
  rw [hread, Except.map, List.append_assoc, List.drop_left, List.take_left]
  rfl

/-- A request reads the same however it is cut, if and only if the piece that completes the head
does not take what has arrived of the body past the limit of the head. -/
theorem readsAs_iff (wire : WireRequest) (pieces : List Piece) :
    ReadsAs wire pieces ↔
      (wire.head ++ wire.body <+: received pieces → HeadFits wire pieces) := by
  constructor
  · intro hreads hpieces
    by_contra hfits
    have hwhole := hreads.whole hpieces
    rw [readRequest_head ((List.prefix_append _ _).trans hpieces),
      if_pos (Nat.not_le.mp hfits)] at hwhole
    cases hwhole
  · intro hfits
    exact {
      inHead := readRequest_inHead
      inBody := readRequest_inBody
      whole := fun hpieces => readRequest_whole hpieces (hfits hpieces) }

end Request

/-! ## A request that is cut badly -/

theorem splitBy_run {separator : Bytes → Nat} {run : Bytes}
    (hrun : ∀ byte ∈ run, ∀ rest, separator (byte :: rest) = 0) (rest piece : Bytes) :
    splitBy separator (run ++ rest) piece 0 = splitBy separator rest (run.reverse ++ piece) 0 := by
  induction run generalizing piece with
  | nil => rfl
  | cons byte run ih =>
    have hbyte := hrun byte List.mem_cons_self (run ++ rest)
    rw [List.cons_append, splitBy, hbyte]
    simp only [ih (fun other hother => hrun other (List.mem_cons_of_mem byte hother)),
      List.reverse_cons, List.append_assoc, List.cons_append, List.nil_append]

theorem fromUtf8_ascii {text : Bytes} (htext : ∀ byte ∈ text, byte < 0x80) :
    fromUtf8 text = .ok () := by
  induction text with
  | nil => rw [fromUtf8]
  | cons byte text ih =>
    have hbyte : firstChunk byte text = .valid 0 := by
      simp only [firstChunk, tailRanges, if_pos (htext byte List.mem_cons_self), readTail]
    rw [fromUtf8, hbyte]
    simp only [List.drop_zero, ih fun other hother => htext other (List.mem_cons_of_mem byte hother)]
    rfl

/-- A blank line does not start in a text without a carriage return. -/
theorem blankLine_after {line rest : Bytes} (hline : 0x0D ∉ line) {position : Nat}
    (hblank : blankLine <+: (line ++ rest).drop position) :
    ∃ offset, position = line.length + offset ∧ blankLine <+: rest.drop offset := by
  by_cases hposition : position < line.length
  · rcases hblank with ⟨tail, htail⟩
    rw [List.drop_append_of_le_length (by omega), List.drop_eq_getElem_cons hposition] at htail
    have hreturn := (List.cons.inj htail).1
    exact absurd (hreturn ▸ List.getElem_mem hposition) hline
  · refine ⟨position - line.length, by omega, ?_⟩
    rw [List.drop_append, List.drop_eq_nil_of_le (by omega), List.nil_append] at hblank
    exact hblank

theorem arrival_last {length : Nat} {buffer : Bytes} {pieces : List Piece}
    (hlt : (buffer ++ received pieces).length < length) (last : Piece)
    (hlast : length ≤ (buffer ++ received pieces ++ last.val).length) :
    arrival length buffer (pieces ++ [last]) = (buffer ++ received pieces ++ last.val, []) := by
  induction pieces generalizing buffer with
  | nil =>
    rw [received_nil, List.append_nil] at hlast ⊢
    rw [List.nil_append, arrival, if_pos hlast]
  | cons piece pieces ih =>
    rw [received_cons, ← List.append_assoc] at hlt hlast ⊢
    have hpiece : (buffer ++ piece.val).length < length := by
      rw [List.length_append] at hlt
      omega
    rw [List.cons_append, arrival, if_neg (by omega), ih hlt hlast]

/-- A request line with a long query. -/
def queryLine (n : Nat) : Bytes :=
  ascii "POST /v1/responses?" ++ (List.replicate n 0x61 ++ ascii " HTTP/1.1")

def lengthLines : Bytes := ascii "\r\nContent-Length: 8000\r\n\r\n"

def lengthHeader : Headers := (∅ : Headers).insert (ascii "content-length") (ascii "8000")

section QueryLine

variable (n : Nat)

theorem mem_queryLine {byte : UInt8} (hbyte : byte ∈ queryLine n) :
    byte < 0x80 ∧ byte ≠ 0x0D := by
  rw [queryLine, List.mem_append, List.mem_append, List.mem_replicate] at hbyte
  have hfirst : ∀ byte ∈ ascii "POST /v1/responses?", byte < 0x80 ∧ byte ≠ 0x0D := by
    decide +kernel
  have hlast : ∀ byte ∈ ascii " HTTP/1.1", byte < 0x80 ∧ byte ≠ 0x0D := by
    decide +kernel
  rcases hbyte with hbyte | hbyte | hbyte
  · exact hfirst byte hbyte
  · rw [hbyte.2]
    decide
  · exact hlast byte hbyte

theorem split_queryLine :
    split [0x0D, 0x0A] (queryLine n ++ lengthLines) =
      [queryLine n, ascii "Content-Length: 8000", [], []] := by
  have hrun : ∀ byte ∈ queryLine n, ∀ rest : Bytes,
      (if [0x0D, 0x0A].isPrefixOf (byte :: rest) then ([0x0D, 0x0A] : Bytes).length else 0) = 0 := by
    intro byte hbyte rest
    have hne : (0x0D : UInt8) ≠ byte := (mem_queryLine n hbyte).2.symm
    simp [List.isPrefixOf, hne]
  have hlines : ∀ piece : Bytes, splitBy
      (fun rest => if [0x0D, 0x0A].isPrefixOf rest then ([0x0D, 0x0A] : Bytes).length else 0)
      lengthLines piece 0 = [piece.reverse, ascii "Content-Length: 8000", [], []] := by
    intro piece
    rfl
  rw [split, splitBy_run hrun, hlines]
  simp

theorem parseRequestLine_queryLine :
    parseRequestLine (queryLine n) = .ok (ascii "POST", ascii "/v1/responses") := by
  have hrun : ∀ byte ∈ List.replicate n (0x61 : UInt8), ∀ rest : Bytes,
      Chat.whitespaceLength (byte :: rest) = 0 := by
    intro byte hbyte rest
    rw [List.eq_of_mem_replicate hbyte]
    rfl
  have hfirst : ∀ rest : Bytes, splitBy Chat.whitespaceLength (ascii "POST /v1/responses?" ++ rest) [] 0 =
      ascii "POST" :: splitBy Chat.whitespaceLength rest (ascii "/v1/responses?").reverse 0 := by
    intro rest
    rfl
  have hlast : ∀ piece : Bytes, splitBy Chat.whitespaceLength (ascii " HTTP/1.1") piece 0 =
      [piece.reverse, ascii "HTTP/1.1"] := by
    intro piece
    rfl
  have hwords : splitWhitespace (queryLine n) =
      [ascii "POST", ascii "/v1/responses?" ++ List.replicate n 0x61, ascii "HTTP/1.1"] := by
    rw [splitWhitespace, queryLine, hfirst, splitBy_run hrun, hlast]
    simp [ascii]
  rw [parseRequestLine, hwords]
  rfl

theorem parseRequestHead_queryLine :
    parseRequestHead (queryLine n ++ lengthLines) =
      .ok (ascii "POST", ascii "/v1/responses", lengthHeader) := by
  have hlines : ∀ byte ∈ lengthLines, byte < 0x80 := by decide +kernel
  have hascii : ∀ byte ∈ queryLine n ++ lengthLines, byte < 0x80 := by
    intro byte hbyte
    rcases List.mem_append.mp hbyte with hbyte | hbyte
    · exact (mem_queryLine n hbyte).1
    · exact hlines byte hbyte
  have hheaders : parseRequestHeaders [ascii "Content-Length: 8000", [], []] = .ok lengthHeader := by
    decide +kernel
  simp only [parseRequestHead, fromUtf8_ascii hascii, split_queryLine, parseRequestLine_queryLine,
    hheaders]
  rfl

theorem windowPosition_queryLine :
    Chat.windowPosition (queryLine n ++ lengthLines) blankLine =
      some ((queryLine n ++ lengthLines).length - 4) := by
  have hlength : lengthLines.length = 26 := by decide +kernel
  have hend : blankLine <+: lengthLines.drop 22 := by decide +kernel
  have hfirst : ∀ offset < 22, ¬ blankLine <+: lengthLines.drop offset := by decide +kernel
  rw [List.length_append, hlength, show (queryLine n).length + 26 - 4 = (queryLine n).length + 22 by
    omega]
  apply (Chat.windowPosition_eq_some (by decide)).mpr
  constructor
  · rw [List.drop_length_add_append]
    exact hend
  · intro position hposition hblank
    have hline : 0x0D ∉ queryLine n := fun hmem => (mem_queryLine n hmem).2 rfl
    rcases blankLine_after hline hblank with ⟨offset, rfl, hoffset⟩
    exact hfirst offset (by omega) hoffset

theorem length_queryLine : (queryLine n).length = n + 28 := by
  have hfirst : (ascii "POST /v1/responses?").length = 19 := by decide +kernel
  have hlast : (ascii " HTTP/1.1").length = 9 := by decide +kernel
  rw [queryLine, List.length_append, List.length_append, List.length_replicate, hfirst, hlast]
  omega

end QueryLine

/-- A request with a head of almost 64 KiB. -/
def longRequest : WireRequest where
  head := queryLine 64000 ++ lengthLines
  body := List.replicate 8000 0x20
  method := ascii "POST"
  path := ascii "/v1/responses"
  headers := lengthHeader
  ends := windowPosition_queryLine 64000
  head_le := by
    rw [List.length_append, length_queryLine, show lengthLines.length = 26 by decide +kernel]
    decide
  parses := parseRequestHead_queryLine 64000
  content := by
    rw [List.length_replicate]
    decide +kernel
  body_le := by
    rw [List.length_replicate]
    decide

/-- A piece of one byte over and over. -/
def runPiece (n : Nat) (byte : UInt8) (hn : 0 < n ∧ n ≤ 8192) : Piece :=
  ⟨List.replicate n byte, by
    constructor
    · intro hnil
      have hlength := congrArg List.length hnil
      rw [List.length_replicate, List.length_nil] at hlength
      omega
    · rw [List.length_replicate]
      exact hn.2⟩

theorem received_runPieces (n : Nat) (byte : UInt8) (hn : 0 < n ∧ n ≤ 8192) (count : Nat) :
    received (List.replicate count (runPiece n byte hn)) = List.replicate (count * n) byte := by
  induction count with
  | zero => rw [Nat.zero_mul, List.replicate_zero, List.replicate_zero, received_nil]
  | succ count ih =>
    rw [List.replicate_succ, received_cons, ih, runPiece, List.replicate_append_replicate,
      Nat.succ_mul, Nat.add_comm]

/-- The last piece begins with the end of the head and brings the body. -/
def lastPiece : Piece :=
  ⟨ascii " HTTP/1.1" ++ (lengthLines ++ List.replicate 8000 0x20), by
    constructor
    · exact List.append_ne_nil_of_left_ne_nil (by decide +kernel) _
    · rw [List.length_append, List.length_append, List.length_replicate,
        show (ascii " HTTP/1.1").length = 9 by decide +kernel,
        show lengthLines.length = 26 by decide +kernel]
      decide⟩

def longPieces : List Piece :=
  ⟨ascii "POST /v1/responses?", by decide +kernel⟩ ::
    List.replicate 8 (runPiece 8000 0x61 (by decide))

theorem received_longPieces :
    received longPieces = ascii "POST /v1/responses?" ++ List.replicate 64000 0x61 := by
  rw [longPieces, received_cons, received_runPieces]

theorem received_append (pieces others : List Piece) :
    received (pieces ++ others) = received pieces ++ received others :=
  List.flatMap_append

theorem not_readsAs : ¬ ∀ wire pieces, ReadsAs wire pieces := by
  intro hall
  have hpieces : received (longPieces ++ [lastPiece]) = longRequest.head ++ longRequest.body := by
    simp only [received_append, received_longPieces, received_cons, received_nil, List.append_nil,
      lastPiece, longRequest, queryLine, List.append_assoc]
  have hfirst : (received longPieces).length = 64019 := by
    rw [received_longPieces, List.length_append, List.length_replicate,
      show (ascii "POST /v1/responses?").length = 19 by decide +kernel]
  have hlast : lastPiece.val.length = 8035 := by
    rw [lastPiece, List.length_append, List.length_append, List.length_replicate,
      show (ascii " HTTP/1.1").length = 9 by decide +kernel,
      show lengthLines.length = 26 by decide +kernel]
  have hhead : longRequest.head.length = 64054 := by
    rw [longRequest, List.length_append, length_queryLine,
      show lengthLines.length = 26 by decide +kernel]
  have harrival : arrival longRequest.head.length [] (longPieces ++ [lastPiece]) =
      ([] ++ received longPieces ++ lastPiece.val, []) := by
    apply arrival_last
    · rw [List.nil_append, hfirst, hhead]
      decide
    · rw [List.nil_append, List.length_append, hfirst, hlast, hhead]
      decide
  have hwhole := (hall longRequest (longPieces ++ [lastPiece])).whole
    (hpieces ▸ List.prefix_refl _)
  have hlimit : maxHeaderBytes <
      (arrival longRequest.head.length [] (longPieces ++ [lastPiece])).1.length := by
    rw [harrival, List.nil_append, List.length_append, hfirst, hlast]
    decide
  rw [readRequest_head (hpieces ▸ List.prefix_append _ _), if_pos hlimit] at hwhole
  cases hwhole

end Leone.Transport

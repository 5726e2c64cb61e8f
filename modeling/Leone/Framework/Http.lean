import Mathlib.Data.List.Basic
import Mathlib.Data.List.Infix

/-!
# The framing of an HTTP/1.1 response

A response is a head and a body, whose length the head gives, or which comes in chunks up to the
empty one.
-/

namespace Framework.Http

/-- The bytes of an ASCII text. -/
def ascii (text : String) : List UInt8 := text.toList.map fun c => UInt8.ofNat c.toNat

def lineBreak : List UInt8 := [0x0d, 0x0a]

/-- The lines of a response head. The first one is the status line. -/
structure Head where
  lines : List (List UInt8)
  status : ∃ line ∈ lines.head?, ascii "HTTP/1.1 " <+: line
  plain : ∀ line ∈ lines, line ≠ [] ∧ 0x0d ∉ line ∧ 0x0a ∉ line

namespace Head

def bytes (head : Head) : List UInt8 := (head.lines.flatMap fun line => line ++ lineBreak) ++ lineBreak

/-- The head announces a body in chunks. -/
def Chunked (head : Head) : Prop := ascii "Transfer-Encoding: chunked" ∈ head.lines

/-- The head announces a body of this length. -/
def Sized (head : Head) (length : Nat) : Prop :=
  ascii ("Content-Length: " ++ toString length) ∈ head.lines

theorem starts (head : Head) : ascii "HTTP/1.1 " <+: head.bytes := by
  obtain ⟨line, hline, hstarts⟩ := head.status
  rw [bytes]
  cases hlines : head.lines with
  | nil =>
    rw [hlines] at hline
    cases hline
  | cons first rest =>
    rw [hlines, List.head?_cons, Option.mem_some_iff] at hline
    subst hline
    rw [List.flatMap_cons, List.append_assoc, List.append_assoc]
    exact hstarts.trans (List.prefix_append first _)

end Head

/-- The hexadecimal digits of a length. -/
def hex (length : Nat) : List UInt8 := (Nat.toDigits 16 length).map fun c => UInt8.ofNat c.toNat

def chunk (payload : List UInt8) : List UInt8 :=
  hex payload.length ++ lineBreak ++ payload ++ lineBreak

def lastChunk : List UInt8 := ascii "0\x0d\n\x0d\n"

/-- A complete response. A chunk of a body is not empty, since the empty one ends it. -/
inductive Response : List UInt8 → Prop
  | chunked (head : Head) (h : head.Chunked) (payloads : List (List UInt8))
      (hfull : ∀ payload ∈ payloads, payload ≠ []) :
      Response (head.bytes ++ payloads.flatMap chunk ++ lastChunk)
  | sized (head : Head) (hwhole : ¬ head.Chunked) (body : List UInt8) (h : head.Sized body.length) :
      Response (head.bytes ++ body)

theorem Response.starts {bytes : List UInt8} (h : Response bytes) :
    ascii "HTTP/1.1 " <+: bytes := by
  cases h with
  | chunked head _ payloads _ =>
    rw [List.append_assoc]
    exact head.starts.trans (List.prefix_append _ _)
  | sized head _ body _ => exact head.starts.trans (List.prefix_append _ _)

/-- What has been sent of a response so far. -/
def Partial (bytes : List UInt8) : Prop := ∃ response, Response response ∧ bytes <+: response

theorem Partial.of_le {bytes more : List UInt8} (h : Partial more) (hle : bytes <+: more) :
    Partial bytes := by
  obtain ⟨response, hresponse, hmore⟩ := h
  exact ⟨response, hresponse, hle.trans hmore⟩

theorem Response.isPartial {bytes : List UInt8} (h : Response bytes) : Partial bytes :=
  ⟨bytes, h, List.prefix_refl bytes⟩

/-- The head and some chunks are the beginning of a response. -/
theorem isPartial_chunks (head : Head) (h : head.Chunked) {payloads : List (List UInt8)}
    (hfull : ∀ payload ∈ payloads, payload ≠ []) :
    Partial (head.bytes ++ payloads.flatMap chunk) :=
  ⟨_, .chunked head h payloads hfull, List.prefix_append _ _⟩

end Framework.Http

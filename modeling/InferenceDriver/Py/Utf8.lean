/-
# `Py.Utf8` — bytes read as text, with replacement

`bytes.decode("utf-8", "replace")`.  Where a character begins it is read;
where none does, the longest run of bytes that could have begun one is read
as a single U+FFFD, and reading goes on after it.  What the encoding of a
text is, and reading one character of it, are the core library's.

`decode_encode` is the one law the lines of a child need: a text that was
written in UTF-8 is read back.
-/
import Mathlib.Data.List.DropRight
import InferenceDriver.Py.Text

namespace InferenceDriver

/-- `text.encode("utf-8")`. -/
def encodeUtf8 (text : Text) : List UInt8 := text.flatMap String.utf8EncodeChar

namespace Utf8

/-- The character that begins a run of bytes. -/
def char? (bytes : List UInt8) : Option Char := bytes.toByteArray.utf8DecodeChar? 0

def isContinuation (b : UInt8) : Bool := 0x80 ≤ b && b ≤ 0xBF

/-- The second bytes that may follow a first one of three or four bytes. -/
def mayFollow (first second : UInt8) : Bool :=
  if first = 0xE0 then 0xA0 ≤ second && second ≤ 0xBF
  else if first = 0xED then 0x80 ≤ second && second ≤ 0x9F
  else if first = 0xF0 then 0x90 ≤ second && second ≤ 0xBF
  else if first = 0xF4 then 0x80 ≤ second && second ≤ 0x8F
  else 0xE0 ≤ first && first ≤ 0xF4 && isContinuation second

/-- How many bytes, after a first one that begins no character, belong to
what could have begun one. -/
def stub (first : UInt8) : List UInt8 → Nat
  | second :: third :: _ =>
      if !mayFollow first second then 0
      else if 0xF0 ≤ first && isContinuation third then 2 else 1
  | [second] => if mayFollow first second then 1 else 0
  | [] => 0

/-- How many bytes, after the first, one character of the text is read from. -/
def width (first : UInt8) (rest : List UInt8) : Nat :=
  match char? (first :: rest) with
  | some c => c.utf8Size - 1
  | none => stub first rest

end Utf8

open Utf8

/-- `bytes.decode("utf-8", "replace")`. -/
def decodeUtf8 : List UInt8 → Text
  | [] => []
  | first :: rest => (char? (first :: rest)).getD '\uFFFD' :: decodeUtf8 (rest.drop (width first rest))
termination_by bytes => bytes.length
decreasing_by
  rw [List.length_drop, List.length_cons]
  omega

/-- `str.rstrip`. -/
def rstrip (s : Text) : Text := s.rdropWhile isspace

namespace Utf8

theorem char?_encode (c : Char) (rest : List UInt8) : char? (String.utf8EncodeChar c ++ rest) = some c := by
  rw [char?, List.toByteArray_append]
  exact ByteArray.utf8DecodeChar?_utf8EncodeChar_append

end Utf8

theorem decodeUtf8_append (c : Char) (rest : List UInt8) :
    decodeUtf8 (String.utf8EncodeChar c ++ rest) = c :: decodeUtf8 rest := by
  have hlen := String.length_utf8EncodeChar c
  have hchar := char?_encode c rest
  cases hb : String.utf8EncodeChar c with
  | nil =>
      rw [hb] at hlen
      exact absurd hlen.symm (Nat.ne_of_gt c.utf8Size_pos)
  | cons first more =>
      rw [hb, List.cons_append] at hchar
      rw [hb, List.length_cons] at hlen
      have hwidth : width first (more ++ rest) = more.length := by
        rw [width, hchar]
        show c.utf8Size - 1 = more.length
        omega
      rw [List.cons_append, decodeUtf8, hchar, hwidth, List.drop_left]
      rfl

/-- A text that was encoded is read back. -/
theorem decode_encode (text : Text) : decodeUtf8 (encodeUtf8 text) = text := by
  induction text with
  | nil => rw [encodeUtf8, List.flatMap_nil, decodeUtf8]
  | cons c text ih => rw [encodeUtf8, List.flatMap_cons, decodeUtf8_append, ← encodeUtf8, ih]

-- `E2 82` could begin `€`; `C0` and `FF` begin nothing.
example : decodeUtf8 [0x61, 0xE2, 0x82, 0xC0, 0xFF, 0xC3, 0xA9] =
    ['a', '\uFFFD', '\uFFFD', '\uFFFD', 'é'] := by
  decide +kernel

end InferenceDriver

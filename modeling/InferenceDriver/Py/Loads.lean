/-
# `Py.Loads` — `json.loads`, of a text and of bytes

Bytes are read in the encoding they look to be in, and strictly: a byte that
belongs to no character is an error, and no `JSONDecodeError`.  A half of a
surrogate pair is read as one (`surrogatepass`).  A text must not begin with
a byte order mark.  The grammar itself is `JSONDecoder.decode`, a parameter.
-/
import InferenceDriver.Py.Json
import InferenceDriver.Py.Utf8

namespace InferenceDriver

/-- What is read of a document. -/
inductive JsonRead where
  | value (v : Json)
  /-- `JSONDecodeError`. -/
  | invalid
  /-- Another `ValueError`: too many digits, or no text. -/
  | refused
  /-- `RecursionError`. -/
  | tooDeep

structure Decoder where
  /-- `JSONDecoder().decode`. -/
  decode : Text → JsonRead
  /-- The half of a surrogate pair with this number. -/
  half : Nat → Char

/-! ## Encodings -/

inductive Encoding where
  | utf8
  | utf8sig
  | utf16
  | utf16be
  | utf16le
  | utf32
  | utf32be
  | utf32le
deriving DecidableEq

/-- `json.detect_encoding`. -/
def detectEncoding (b : List UInt8) : Encoding :=
  if [0x00, 0x00, 0xFE, 0xFF].isPrefixOf b ∨ [0xFF, 0xFE, 0x00, 0x00].isPrefixOf b then .utf32
  else if [0xFE, 0xFF].isPrefixOf b ∨ [0xFF, 0xFE].isPrefixOf b then .utf16
  else if [0xEF, 0xBB, 0xBF].isPrefixOf b then .utf8sig
  else
    match b with
    | b₀ :: b₁ :: b₂ :: b₃ :: _ =>
        if b₀ = 0 then if b₁ = 0 then .utf32be else .utf16be
        else if b₁ = 0 then if b₂ = 0 ∧ b₃ = 0 then .utf32le else .utf16le
        else .utf8
    | [b₀, b₁] => if b₀ = 0 then .utf16be else if b₁ = 0 then .utf16le else .utf8
    | _ => .utf8

namespace Decoder

/-- A parser that knows these documents, for texts of whole characters. -/
def ofTable (documents : List (String × Json)) : Decoder where
  decode text :=
    match documents.find? fun d => d.1.toList = text with
    | some d => .value d.2
    | none => .invalid
  half _ := '\uFFFD'

variable (D : Decoder)

def isHigh (u : Nat) : Bool := 0xD800 ≤ u && u ≤ 0xDBFF

def isLow (u : Nat) : Bool := 0xDC00 ≤ u && u ≤ 0xDFFF

/-- A character, or half of a pair. -/
def single (u : Nat) : Char := if isHigh u || isLow u then D.half u else Char.ofNat u

/-- The half of a pair that three bytes of UTF-8 are. -/
def halfAt (first : UInt8) : List UInt8 → Option Nat
  | second :: third :: _ =>
      if first = 0xED ∧ 0xA0 ≤ second ∧ second ≤ 0xBF ∧ Utf8.isContinuation third then
        some (0xD000 + (second.toNat - 0x80) * 64 + (third.toNat - 0x80))
      else none
  | _ => none

/-- `decode("utf-8", "surrogatepass")`. -/
def utf8 : List UInt8 → Option Text
  | [] => some []
  | first :: rest =>
      match Utf8.char? (first :: rest) with
      | some c => (utf8 (rest.drop (c.utf8Size - 1))).map (c :: ·)
      | none =>
          match halfAt first rest with
          | some u => (utf8 (rest.drop 2)).map (D.half u :: ·)
          | none => none
termination_by bytes => bytes.length
decreasing_by
  all_goals (rw [List.length_drop, List.length_cons]; omega)

/-- Two bytes at a time. -/
def units (big : Bool) : List UInt8 → Option (List Nat)
  | [] => some []
  | [_] => none
  | a :: b :: rest =>
      (units big rest).map ((if big then a.toNat * 256 + b.toNat else b.toNat * 256 + a.toNat) :: ·)

def ofUnits : List Nat → Text
  | [] => []
  | [u] => [D.single u]
  | u :: v :: rest =>
      if isHigh u ∧ isLow v then
        Char.ofNat (0x10000 + (u - 0xD800) * 1024 + (v - 0xDC00)) :: ofUnits rest
      else D.single u :: ofUnits (v :: rest)

def utf16 (big : Bool) (bytes : List UInt8) : Option Text := (units big bytes).map D.ofUnits

/-- Four bytes at a time. -/
def utf32 (big : Bool) : List UInt8 → Option Text
  | [] => some []
  | a :: b :: c :: d :: rest =>
      let u := if big then ((a.toNat * 256 + b.toNat) * 256 + c.toNat) * 256 + d.toNat
        else ((d.toNat * 256 + c.toNat) * 256 + b.toNat) * 256 + a.toNat
      if u ≤ 0x10FFFF then (utf32 big rest).map (D.single u :: ·) else none
  | _ => none

/-- `bytes.decode(encoding, "surrogatepass")`; none is a `UnicodeDecodeError`. -/
def text (encoding : Encoding) (bytes : List UInt8) : Option Text :=
  match encoding with
  | .utf8 => D.utf8 bytes
  | .utf8sig => D.utf8 (bytes.drop 3)
  | .utf16 => D.utf16 ([0xFE, 0xFF].isPrefixOf bytes) (bytes.drop 2)
  | .utf16be => D.utf16 true bytes
  | .utf16le => D.utf16 false bytes
  | .utf32 => D.utf32 ([0x00, 0x00, 0xFE, 0xFF].isPrefixOf bytes) (bytes.drop 4)
  | .utf32be => D.utf32 true bytes
  | .utf32le => D.utf32 false bytes

/-! ## `json.loads` -/

/-- `json.loads`, of a `str`. -/
def loads (text : Text) : JsonRead :=
  match text with
  | '\uFEFF' :: _ => .invalid
  | text => D.decode text

/-- `json.loads`, of `bytes`. -/
def loadsBytes (bytes : List UInt8) : JsonRead :=
  match D.text (detectEncoding bytes) bytes with
  | some text => D.decode text
  | none => .refused

end Decoder

/-! ## Lines -/

/-- `splitlines`, for what ends a line; a line feed right after a carriage
return ends none. -/
def splitLines {α : Type} [DecidableEq α] (cr lf : α) (ends : α → Bool) : Bool → List α → List (List α)
  | _, [] => []
  | afterCr, c :: cs =>
      if c = lf ∧ afterCr = true then splitLines cr lf ends false cs
      else if ends c then [] :: splitLines cr lf ends (c = cr) cs
      else
        match splitLines cr lf ends false cs with
        | [] => [[c]]
        | line :: lines => (c :: line) :: lines

/-- `bytes.splitlines`. -/
def splitBytes (bytes : List UInt8) : List (List UInt8) :=
  splitLines 0x0D 0x0A (fun b => b = 0x0D || b = 0x0A) false bytes

/-- What ends a line of a `str`. -/
def endsLine (c : Char) : Bool :=
  let n := c.toNat
  (10 ≤ n && n ≤ 13) || (28 ≤ n && n ≤ 30) || n == 0x85 || n == 0x2028 || n == 0x2029

/-- `str.splitlines`. -/
def splitText (text : Text) : List Text := splitLines '\r' '\n' endsLine false text

/-- `bytes.strip`. -/
def stripBytes (bytes : List UInt8) : List UInt8 := Words.strip (fun b => (9 ≤ b && b ≤ 13) || b == 32) bytes

-- A carriage return ends a line of bytes, and the line feed after it none.
example : splitBytes [0x61, 0x0D, 0x0A, 0x62, 0x0D, 0x63] = [[0x61], [0x62], [0x63]] := by decide

end InferenceDriver

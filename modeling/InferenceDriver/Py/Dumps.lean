/-
# `Py.Dumps` — the texts of JSON values

`json.dumps`, which writes ASCII only, and the `model_dump_json` of
pydantic, which escapes what must be and nothing else.  Both are one writer
with two styles.  The text of a float is a parameter: its repr tells two
floats apart, and no float from an integer.  A zero has no sign here.

What such a text is good for: no value's text holds the end of a line
(`dumps_line`), and two values that differ have different texts, whatever
comes after them (`splits_dumps`, `dumps_injective`).
-/
import InferenceDriver.Lib.EventStream
import InferenceDriver.Lib.Splits
import InferenceDriver.Py.Json

namespace InferenceDriver

open EventStream Written

/-! ## Characters in a string -/

def hexDigits : Text := "0123456789abcdef".toList

def hexDigit (n : Nat) : Char := hexDigits.getD n '0'

/-- `{n:04x}`. -/
def hex4 (n : Nat) : Text :=
  [hexDigit (n / 4096 % 16), hexDigit (n / 256 % 16), hexDigit (n / 16 % 16), hexDigit (n % 16)]

/-- The letter a character has after a backslash, where it has one. -/
def short (c : Char) : Option Char :=
  if c = '"' then some '"'
  else if c = '\\' then some '\\'
  else if c = '\n' then some 'n'
  else if c = '\r' then some 'r'
  else if c = '\t' then some 't'
  else if c = '\x0c' then some 'f'
  else if c = '\x08' then some 'b'
  else none

/-- `ESCAPE_ASCII` of `json.encoder`. -/
def escapeAscii (c : Char) : Text :=
  match short c with
  | some letter => ['\\', letter]
  | none =>
      if 32 ≤ c.toNat ∧ c.toNat ≤ 126 then [c]
      else if c.toNat < 0x10000 then '\\' :: 'u' :: hex4 c.toNat
      else
        '\\' :: 'u' :: hex4 (0xD800 + (c.toNat - 0x10000) / 1024) ++
          '\\' :: 'u' :: hex4 (0xDC00 + (c.toNat - 0x10000) % 1024)

/-- What `model_dump_json` escapes. -/
def escapeControl (c : Char) : Text :=
  match short c with
  | some letter => ['\\', letter]
  | none => if c.toNat < 32 then '\\' :: 'u' :: hex4 c.toNat else [c]

/-! ## Reading a character back -/

def hexValue (c : Char) : Nat := hexDigits.idxOf c

def read4 (a b c d : Char) : Nat := ((hexValue a * 16 + hexValue b) * 16 + hexValue c) * 16 + hexValue d

def unshort (letter : Char) : Option Char :=
  if letter = '"' then some '"'
  else if letter = '\\' then some '\\'
  else if letter = 'n' then some '\n'
  else if letter = 'r' then some '\r'
  else if letter = 't' then some '\t'
  else if letter = 'f' then some '\x0c'
  else if letter = 'b' then some '\x08'
  else none

/-- The second half of a pair. -/
def unescapeLow (high : Nat) : Text → Option (Char × Text)
  | '\\' :: 'u' :: a :: b :: c :: d :: rest =>
      some (Char.ofNat (0x10000 + (high - 0xD800) * 1024 + (read4 a b c d - 0xDC00)), rest)
  | _ => none

/-- One character of a string, and the rest of it. -/
def unescape : Text → Option (Char × Text)
  | [] => none
  | c :: rest =>
      if c ≠ '\\' then some (c, rest)
      else
        match rest with
        | 'u' :: a :: b :: c :: d :: rest =>
            if 0xD800 ≤ read4 a b c d ∧ read4 a b c d ≤ 0xDBFF then unescapeLow (read4 a b c d) rest
            else some (Char.ofNat (read4 a b c d), rest)
        | letter :: rest => (unshort letter).map (·, rest)
        | [] => none

theorem hexValue_hexDigit {n : Nat} (h : n < 16) : hexValue (hexDigit n) = n := by
  have all : ∀ n : Fin 16, hexValue (hexDigit n) = n := by decide
  exact all ⟨n, h⟩

theorem read4_hex4 {n : Nat} (h : n < 0x10000) :
    read4 (hexDigit (n / 4096 % 16)) (hexDigit (n / 256 % 16)) (hexDigit (n / 16 % 16)) (hexDigit (n % 16)) = n := by
  have digit (m : Nat) : hexValue (hexDigit (m % 16)) = m % 16 := hexValue_hexDigit (Nat.mod_lt m (by decide))
  rw [read4, digit, digit, digit, digit]
  omega

theorem unshort_short {c letter : Char} (h : short c = some letter) : unshort letter = some c ∧ letter ≠ 'u' := by
  unfold short at h
  repeat' split at h
  all_goals cases h
  all_goals subst_vars
  all_goals decide

theorem unescape_plain {c : Char} (h : c ≠ '\\') (rest : Text) : unescape (c :: rest) = some (c, rest) := if_pos h

theorem unescape_short {c letter : Char} (h : short c = some letter) (rest : Text) :
    unescape (['\\', letter] ++ rest) = some (c, rest) := by
  obtain ⟨hback, hu⟩ := unshort_short h
  have heq : unescape ('\\' :: letter :: rest) = (unshort letter).map (·, rest) := by
    rw [unescape, if_neg (not_not_intro rfl)]
    exact fun _ _ _ _ _ heq _ => hu heq
  rw [List.cons_append, List.cons_append, List.nil_append, heq, hback]
  rfl

theorem unescape_hex {n : Nat} (h : n < 0x10000) (rest : Text) :
    unescape ('\\' :: 'u' :: hex4 n ++ rest) =
      if 0xD800 ≤ n ∧ n ≤ 0xDBFF then unescapeLow n rest else some (Char.ofNat n, rest) := by
  have heq : unescape ('\\' :: 'u' :: hexDigit (n / 4096 % 16) :: hexDigit (n / 256 % 16) :: hexDigit (n / 16 % 16) ::
      hexDigit (n % 16) :: rest) = if 0xD800 ≤ n ∧ n ≤ 0xDBFF then unescapeLow n rest else some (Char.ofNat n, rest) := by
    rw [unescape, if_neg (not_not_intro rfl)]
    simp only [read4_hex4 h]
  exact heq

theorem unescapeLow_hex4 {high n : Nat} (h : n < 0x10000) (rest : Text) :
    unescapeLow high ('\\' :: 'u' :: hex4 n ++ rest) =
      some (Char.ofNat (0x10000 + (high - 0xD800) * 1024 + (n - 0xDC00)), rest) := by
  have heq : unescapeLow high ('\\' :: 'u' :: hexDigit (n / 4096 % 16) :: hexDigit (n / 256 % 16) ::
      hexDigit (n / 16 % 16) :: hexDigit (n % 16) :: rest) =
        some (Char.ofNat (0x10000 + (high - 0xD800) * 1024 + (n - 0xDC00)), rest) := by
    simp only [unescapeLow, read4_hex4 h]
  exact heq

theorem not_backslash {c : Char} (h : short c = none) : c ≠ '\\' := by
  rintro rfl
  cases h

/-- One character of a string, however it is escaped. -/
structure Escape where
  text : Char → Text
  /-- It is read back. -/
  read : ∀ c rest, unescape (text c ++ rest) = some (c, rest)
  /-- It ends neither the string nor its line. -/
  inside : ∀ c, OneLine (text c)
  unquoted : ∀ c, (text c).head? ≠ some '"' ∧ text c ≠ []

theorem hexDigit_safe (n : Nat) : hexDigit (n % 16) ≠ '\n' ∧ hexDigit (n % 16) ≠ '\r' := by
  have all : ∀ n : Fin 16, hexDigit n ≠ '\n' ∧ hexDigit n ≠ '\r' := by decide
  exact all ⟨n % 16, Nat.mod_lt n (by decide)⟩

theorem hex4_safe (n : Nat) : OneLine ('\\' :: 'u' :: hex4 n) := by
  intro d hd
  simp only [hex4, List.mem_cons, List.not_mem_nil, or_false] at hd
  obtain rfl | rfl | rfl | rfl | rfl | rfl := hd
  · decide
  · decide
  · exact hexDigit_safe _
  · exact hexDigit_safe _
  · exact hexDigit_safe _
  · exact hexDigit_safe _

theorem short_safe {c letter : Char} (h : short c = some letter) : OneLine ['\\', letter] := by
  unfold short at h
  repeat' split at h
  all_goals cases h
  all_goals decide

theorem plain_safe {c : Char} (h : short c = none) : OneLine [c] := by
  intro d hd
  cases List.mem_singleton.mp hd
  refine ⟨?_, ?_⟩
  · rintro rfl
    cases h
  · rintro rfl
    cases h

theorem read_hex {c : Char} (h : c.toNat < 0x10000) (rest : Text) :
    unescape ('\\' :: 'u' :: hex4 c.toNat ++ rest) = some (c, rest) := by
  have hvalid : c.toNat < 0xD800 ∨ 0xDFFF < c.toNat ∧ c.toNat < 0x110000 := c.valid
  rw [unescape_hex h, if_neg (by omega), Char.ofNat_toNat]

/-- A character outside the first plane is two halves. -/
theorem read_pair {c : Char} (h : ¬ c.toNat < 0x10000) (rest : Text) :
    unescape (('\\' :: 'u' :: hex4 (0xD800 + (c.toNat - 0x10000) / 1024) ++
      '\\' :: 'u' :: hex4 (0xDC00 + (c.toNat - 0x10000) % 1024)) ++ rest) = some (c, rest) := by
  have hvalid : c.toNat < 0xD800 ∨ 0xDFFF < c.toNat ∧ c.toNat < 0x110000 := c.valid
  have hhigh : (c.toNat - 0x10000) / 1024 < 0x400 := by omega
  have hlow : (c.toNat - 0x10000) % 1024 < 0x400 := Nat.mod_lt _ (by decide)
  have hsum : 0x10000 + (0xD800 + (c.toNat - 0x10000) / 1024 - 0xD800) * 1024 +
      (0xDC00 + (c.toNat - 0x10000) % 1024 - 0xDC00) = c.toNat := by omega
  rw [List.append_assoc, unescape_hex (by omega), if_pos (by omega), unescapeLow_hex4 (by omega), hsum,
    Char.ofNat_toNat]

theorem unquoted_backslash (text : Text) :
    ('\\' :: text).head? ≠ some '"' ∧ '\\' :: text ≠ [] :=
  ⟨fun h => absurd (Option.some.inj h) (by decide), List.cons_ne_nil _ _⟩

theorem unquoted_plain {c : Char} (h : short c = none) : [c].head? ≠ some '"' ∧ [c] ≠ [] := by
  refine ⟨fun hq => ?_, List.cons_ne_nil _ _⟩
  cases Option.some.inj hq
  cases h

/-- `ensure_ascii`. -/
def Escape.ascii : Escape where
  text := escapeAscii
  read c rest := by
    unfold escapeAscii
    cases h : short c with
    | some letter => exact unescape_short h rest
    | none =>
        simp only
        split
        · exact unescape_plain (not_backslash h) rest
        · split
          · rename_i hlow
            exact read_hex hlow rest
          · rename_i hlow
            exact read_pair hlow rest
  inside c := by
    unfold escapeAscii
    cases h : short c with
    | some letter => exact short_safe h
    | none =>
        simp only
        split
        · exact plain_safe h
        · split
          · exact hex4_safe _
          · exact (hex4_safe _).append (hex4_safe _)
  unquoted c := by
    unfold escapeAscii
    cases h : short c with
    | some letter => exact unquoted_backslash _
    | none =>
        simp only
        split
        · exact unquoted_plain h
        · split
          · exact unquoted_backslash _
          · exact unquoted_backslash _

/-- What `model_dump_json` writes of a character. -/
def Escape.control : Escape where
  text := escapeControl
  read c rest := by
    unfold escapeControl
    cases h : short c with
    | some letter => exact unescape_short h rest
    | none =>
        simp only
        split
        · rename_i hlow
          exact read_hex (hlow.trans (by decide)) rest
        · exact unescape_plain (not_backslash h) rest
  inside c := by
    unfold escapeControl
    cases h : short c with
    | some letter => exact short_safe h
    | none =>
        simp only
        split
        · exact hex4_safe _
        · exact plain_safe h
  unquoted c := by
    unfold escapeControl
    cases h : short c with
    | some letter => exact unquoted_backslash _
    | none =>
        simp only
        split
        · exact unquoted_backslash _
        · exact unquoted_plain h

/-! ## Values -/

/-- The repr of a finite float. -/
structure FloatRepr where
  text : ℚ → Text
  injective : ∀ x y, text x = text y → x = y
  letters : ∀ x, ∀ c ∈ text x, c.isDigit = true ∨ c = '.' ∨ c = 'e' ∨ c = '+' ∨ c = '-'
  /-- It is not the text of an integer. -/
  marked : ∀ x, '.' ∈ text x ∨ 'e' ∈ text x

/-- A way of writing values. -/
structure Style where
  escape : Escape
  float : FloatRepr
  /-- Whether a comma and a colon are followed by a blank. -/
  blank : Bool

variable (S : Style)

/-- `json.dumps`. -/
def Style.dumps (float : FloatRepr) : Style := ⟨.ascii, float, true⟩

/-- `model_dump_json`. -/
def Style.modelDumpJson (float : FloatRepr) : Style := ⟨.control, float, false⟩

def Style.gap : Text := if S.blank then [' '] else []

def quoted (text : Text) : Text := '"' :: text.flatMap S.escape.text ++ ['"']

def intText (n : Int) : Text := (toString n).toList

def infinity (negative : Bool) : Text := (if negative then "-Infinity" else "Infinity").toList

def floatText : PyFloat → Text
  | .fin q => S.float.text q
  | .inf negative => infinity negative
  | .nan => "NaN".toList

mutual

/-- The text of a value. -/
def dumps : Json → Text
  | .null => "null".toList
  | .bool true => "true".toList
  | .bool false => "false".toList
  | .int n => intText n
  | .float x => floatText S x
  | .str s => quoted S s
  | .arr [] => ['[', ']']
  | .arr (v :: vs) => '[' :: dumps v ++ dumpsItems vs
  | .obj [] => ['\x7b', '\x7d']
  | .obj ((k, v) :: fields) => '\x7b' :: quoted S k ++ ':' :: S.gap ++ dumps v ++ dumpsFields fields

/-- The rest of a list. -/
def dumpsItems : List Json → Text
  | [] => [']']
  | v :: vs => ',' :: S.gap ++ dumps v ++ dumpsItems vs

/-- The rest of a dict. -/
def dumpsFields : List (Text × Json) → Text
  | [] => ['\x7d']
  | (k, v) :: fields => ',' :: S.gap ++ quoted S k ++ ':' :: S.gap ++ dumps v ++ dumpsFields fields

end

/-! ## No end of a line -/

theorem gap_line : OneLine S.gap := by
  unfold Style.gap
  split
  · exact OneLine.cons (by decide) fun _ h => absurd h List.not_mem_nil
  · exact fun _ h => absurd h List.not_mem_nil

theorem quoted_line (text : Text) : OneLine (quoted S text) := by
  refine .append (.cons (by decide) fun d hd => ?_) (.cons (by decide) fun _ h => absurd h List.not_mem_nil)
  obtain ⟨c, -, hc⟩ := List.mem_flatMap.mp hd
  exact S.escape.inside c d hc

/-- A letter of a number. -/
def numeric (c : Char) : Bool :=
  c.isDigit || ['.', 'e', '+', '-', 'N', 'a', 'I', 'n', 'f', 'i', 't', 'y'].contains c

theorem intText_ofNat (n : Nat) : intText (.ofNat n) = Nat.toDigits 10 n := Nat.toList_repr

theorem intText_negSucc (n : Nat) : intText (.negSucc n) = '-' :: Nat.toDigits 10 (n + 1) := by
  have h : intText (.negSucc n) = ("-" ++ (n + 1).repr).toList := rfl
  rw [h, String.toList_append, Nat.toList_repr]
  rfl

theorem isDigit_toDigits {n : Nat} {c : Char} (h : c ∈ Nat.toDigits 10 n) : c.isDigit = true :=
  Nat.isDigit_of_mem_toDigits (by decide) (by decide) h

theorem intText_letters (n : Int) : ∀ c ∈ intText n, c.isDigit = true ∨ c = '-' := by
  intro c hc
  cases n with
  | ofNat n =>
      rw [intText_ofNat] at hc
      exact .inl (isDigit_toDigits hc)
  | negSucc n =>
      rw [intText_negSucc, List.mem_cons] at hc
      exact hc.elim .inr fun hd => .inl (isDigit_toDigits hd)

theorem toDigits_injective {m n : Nat} (h : Nat.toDigits 10 m = Nat.toDigits 10 n) : m = n := by
  have hread := congrArg (fun digits => Nat.ofDigitChars 10 digits 0) h
  simpa only [Nat.ofDigitChars_ten_toDigits] using hread

theorem minus_not_digit (n : Nat) (rest : Text) : Nat.toDigits 10 n ≠ '-' :: rest := by
  intro h
  have hminus : '-' ∈ Nat.toDigits 10 n := by
    rw [h]
    exact List.mem_cons_self
  exact absurd (isDigit_toDigits hminus) (by decide)

theorem intText_injective (m n : Int) (h : intText m = intText n) : m = n := by
  cases m with
  | ofNat m =>
      cases n with
      | ofNat n =>
          rw [intText_ofNat, intText_ofNat] at h
          rw [toDigits_injective h]
      | negSucc n =>
          rw [intText_ofNat, intText_negSucc] at h
          exact absurd h (minus_not_digit _ _)
  | negSucc m =>
      cases n with
      | ofNat n =>
          rw [intText_ofNat, intText_negSucc] at h
          exact absurd h.symm (minus_not_digit _ _)
      | negSucc n =>
          rw [intText_negSucc, intText_negSucc] at h
          have := toDigits_injective (List.cons.inj h).2
          rw [Nat.succ.inj this]

theorem floatText_numeric (x : PyFloat) : ∀ c ∈ floatText S x, numeric c = true := by
  intro c hc
  cases x with
  | fin q =>
      rcases S.float.letters q c hc with h | h | h | h | h
      · rw [numeric, h, Bool.true_or]
      · rw [h]; decide
      · rw [h]; decide
      · rw [h]; decide
      · rw [h]; decide
  | inf negative =>
      have all : ∀ negative, (infinity negative).all numeric = true := by decide
      exact List.all_eq_true.mp (all negative) c hc
  | nan =>
      have all : "NaN".toList.all numeric = true := by decide
      exact List.all_eq_true.mp all c hc

theorem intText_numeric (n : Int) : ∀ c ∈ intText n, numeric c = true := by
  intro c hc
  rcases intText_letters n c hc with h | h
  · rw [numeric, h, Bool.true_or]
  · rw [h]; decide

theorem numeric_line {text : Text} (h : ∀ c ∈ text, numeric c = true) : OneLine text := by
  intro c hc
  refine ⟨?_, ?_⟩
  · rintro rfl
    cases h _ hc
  · rintro rfl
    cases h _ hc

variable {S}

mutual

theorem dumps_line : ∀ v : Json, OneLine (dumps S v)
  | .null => by unfold dumps; decide
  | .bool true => by unfold dumps; decide
  | .bool false => by unfold dumps; decide
  | .int n => by unfold dumps; exact numeric_line (intText_numeric n)
  | .float x => by unfold dumps; exact numeric_line (floatText_numeric S x)
  | .str s => by unfold dumps; exact quoted_line S s
  | .arr [] => by unfold dumps; decide
  | .arr (v :: vs) => by
      unfold dumps
      exact ((dumps_line v).cons (by decide)).append (dumpsItems_line vs)
  | .obj [] => by unfold dumps; decide
  | .obj ((k, v) :: fields) => by
      unfold dumps
      exact ((((quoted_line S k).cons (by decide)).append ((gap_line S).cons (by decide))).append
        (dumps_line v)).append (dumpsFields_line fields)

theorem dumpsItems_line : ∀ vs : List Json, OneLine (dumpsItems S vs)
  | [] => by unfold dumpsItems; decide
  | v :: vs => by
      unfold dumpsItems
      exact (((gap_line S).cons (by decide)).append (dumps_line v)).append (dumpsItems_line vs)

theorem dumpsFields_line : ∀ fields : List (Text × Json), OneLine (dumpsFields S fields)
  | [] => by unfold dumpsFields; decide
  | (k, v) :: fields => by
      unfold dumpsFields
      exact (((((gap_line S).cons (by decide)).append (quoted_line S k)).append
        ((gap_line S).cons (by decide))).append (dumps_line v)).append (dumpsFields_line fields)

end

/-! ## Values are told apart -/

/-- A number, of either kind. -/
def numberText (S : Style) : Int ⊕ PyFloat → Text := Sum.elim intText (floatText S)

/-- What may follow a value. -/
def Stops (text : Text) : Prop := ∀ c, text.head? = some c → numeric c = false

theorem mem_infinity : ∀ negative, 'I' ∈ infinity negative := by decide

theorem int_not_float (n : Int) (x : PyFloat) : intText n ≠ floatText S x := by
  intro h
  have hdigit (c : Char) (hc : c ∈ floatText S x) : c.isDigit = true ∨ c = '-' := by
    rw [← h] at hc
    exact intText_letters n c hc
  cases x with
  | fin q =>
      rcases S.float.marked q with hm | hm
      · exact absurd (hdigit '.' hm) (by decide)
      · exact absurd (hdigit 'e' hm) (by decide)
  | inf negative => exact absurd (hdigit 'I' (mem_infinity negative)) (by decide)
  | nan => exact absurd (hdigit 'N' List.mem_cons_self) (by decide)

/-- No word has the letters of a finite float. -/
theorem fin_not_word {q : ℚ} {word : Text} {c : Char} (hc : c ∈ word)
    (hword : ¬ (c.isDigit = true ∨ c = '.' ∨ c = 'e' ∨ c = '+' ∨ c = '-')) : S.float.text q ≠ word := by
  rintro rfl
  exact hword (S.float.letters q c hc)

theorem floatText_injective (x y : PyFloat) (h : floatText S x = floatText S y) : x = y := by
  have finite (q : ℚ) (z : PyFloat) (h : S.float.text q = floatText S z) : .fin q = z := by
    cases z with
    | fin r => rw [S.float.injective q r h]
    | inf negative => exact absurd h (fin_not_word (mem_infinity negative) (by decide))
    | nan => exact absurd h (fin_not_word (c := 'N') List.mem_cons_self (by decide))
  cases x with
  | fin q => exact finite q y h
  | inf m =>
      cases y with
      | fin r => exact (finite r _ h.symm).symm
      | inf n => rw [(by decide : ∀ m n, infinity m = infinity n → m = n) m n h]
      | nan => exact absurd h ((by decide : ∀ m, infinity m ≠ "NaN".toList) m)
  | nan =>
      cases y with
      | fin r => exact (finite r _ h.symm).symm
      | inf n => exact absurd h.symm ((by decide : ∀ m, infinity m ≠ "NaN".toList) n)
      | nan => rfl

theorem numberText_injective (a b : Int ⊕ PyFloat) (h : numberText S a = numberText S b) : a = b := by
  cases a with
  | inl m =>
      cases b with
      | inl n => rw [intText_injective m n h]
      | inr y => exact absurd h (int_not_float m y)
  | inr x =>
      cases b with
      | inl n => exact absurd h.symm (int_not_float n x)
      | inr y => rw [floatText_injective x y h]

theorem splits_number : Splits Stops (numberText S) := by
  refine .of_letters numeric (fun a => ?_) numberText_injective
  cases a with
  | inl n => exact intText_numeric n
  | inr x => exact floatText_numeric S x

theorem splits_quoted : Splits Anything (quoted S) := by
  have hcode : Splits Anything S.escape.text := .of_reader unescape fun c rest _ => S.escape.read c rest
  have hstop : ∀ c r, ¬ Begins '"' (S.escape.text c ++ r) := by
    intro c r h
    obtain ⟨hq, hne⟩ := S.escape.unquoted c
    rw [Begins, List.head?_append_of_ne_nil _ hne] at h
    exact hq h
  intro a b r s _ _ heq
  have htail : a.flatMap S.escape.text ++ ('"' :: r) = b.flatMap S.escape.text ++ ('"' :: s) := by
    simpa only [quoted, List.cons_append, List.append_assoc, List.nil_append, List.cons.injEq, true_and] using heq
  have before (t : Text) : Begins '"' ('"' :: t) := rfl
  obtain ⟨hab, hrs⟩ := hcode.flatMap hstop a b _ _ (before r) (before s) htail
  exact ⟨hab, (List.cons.inj hrs).2⟩

/-- What the first letter of a value's text says of it. -/
inductive Kind where
  | null
  | yes
  | no
  | number
  | str
  | arr
  | obj
  | none
deriving DecidableEq

def kindOf (c : Char) : Kind :=
  if c = 'n' then .null
  else if c = 't' then .yes
  else if c = 'f' then .no
  else if c = '"' then .str
  else if c = '[' then .arr
  else if c = '\x7b' then .obj
  else if numeric c then .number
  else .none

def Json.kind : Json → Kind
  | .null => .null
  | .bool true => .yes
  | .bool false => .no
  | .int _ | .float _ => .number
  | .str _ => .str
  | .arr _ => .arr
  | .obj _ => .obj

theorem kindOf_number {c : Char} (h : c.isDigit = true ∨ c ∈ ['.', 'e', '+', '-', 'N', 'I']) :
    kindOf c = .number := by
  obtain h | h := h
  · have hne (d : Char) (hd : d.isDigit = false) : c ≠ d := by
      rintro rfl
      rw [h] at hd
      cases hd
    unfold kindOf
    rw [if_neg (hne _ (by decide)), if_neg (hne _ (by decide)), if_neg (hne _ (by decide)), if_neg (hne _ (by decide)),
      if_neg (hne _ (by decide)), if_neg (hne _ (by decide)), numeric, h, Bool.true_or, if_pos rfl]
  · have all : ['.', 'e', '+', '-', 'N', 'I'].all (fun c => kindOf c = .number) = true := by decide
    exact of_decide_eq_true (List.all_eq_true.mp all c h)

/-- The text of a value begins with a letter of its kind. -/
def Leads (S : Style) (v : Json) : Prop := ∃ c t, dumps S v = c :: t ∧ kindOf c = v.kind

theorem intText_lead (n : Int) : ∃ c t, intText n = c :: t ∧ kindOf c = .number := by
  cases h : intText n with
  | nil =>
      cases n with
      | ofNat n =>
          rw [intText_ofNat] at h
          exact absurd h Nat.toDigits_ne_nil
      | negSucc n =>
          rw [intText_negSucc] at h
          cases h
  | cons c t =>
      refine ⟨c, t, rfl, kindOf_number ?_⟩
      rcases intText_letters n c (by rw [h]; exact List.mem_cons_self) with hd | rfl
      · exact .inl hd
      · exact .inr (by decide)

theorem floatText_lead (x : PyFloat) : ∃ c t, floatText S x = c :: t ∧ kindOf c = .number := by
  cases x with
  | fin q =>
      cases h : S.float.text q with
      | nil =>
          have hm := S.float.marked q
          rw [h] at hm
          exact absurd hm (by decide)
      | cons c t =>
          refine ⟨c, t, h, kindOf_number ?_⟩
          rcases S.float.letters q c (by rw [h]; exact List.mem_cons_self) with hd | rfl | rfl | rfl | rfl
          · exact .inl hd
          · exact .inr (by decide)
          · exact .inr (by decide)
          · exact .inr (by decide)
          · exact .inr (by decide)
  | inf negative =>
      cases negative with
      | true => exact ⟨_, _, rfl, rfl⟩
      | false => exact ⟨_, _, rfl, rfl⟩
  | nan => exact ⟨_, _, rfl, rfl⟩

theorem leads (v : Json) : Leads S v := by
  cases v with
  | null => exact ⟨_, _, by rw [dumps]; rfl, rfl⟩
  | bool b =>
      cases b with
      | true => exact ⟨_, _, by rw [dumps]; rfl, rfl⟩
      | false => exact ⟨_, _, by rw [dumps]; rfl, rfl⟩
  | int n =>
      obtain ⟨c, t, h, hk⟩ := intText_lead n
      exact ⟨c, t, by rw [dumps, h], hk⟩
  | float x =>
      obtain ⟨c, t, h, hk⟩ := floatText_lead (S := S) x
      exact ⟨c, t, by rw [dumps, h], hk⟩
  | str s => exact ⟨_, _, by rw [dumps]; rfl, rfl⟩
  | arr vs =>
      cases vs with
      | nil => exact ⟨_, _, by rw [dumps], rfl⟩
      | cons v vs => exact ⟨_, _, by rw [dumps]; rfl, rfl⟩
  | obj fields =>
      cases fields with
      | nil => exact ⟨_, _, by rw [dumps], rfl⟩
      | cons field fields => exact ⟨_, _, by rw [dumps]; rfl, rfl⟩

/-- Texts that begin alike are of one kind. -/
theorem kind_eq {v w : Json} {r s : Text} (h : dumps S v ++ r = dumps S w ++ s) : v.kind = w.kind := by
  obtain ⟨c, t, hv, hc⟩ := leads (S := S) v
  obtain ⟨d, u, hw, hd⟩ := leads (S := S) w
  rw [hv, hw] at h
  rw [← hc, ← hd, (List.cons.inj h).1]

/-- No value begins as a list ends. -/
theorem not_closing {v : Json} {r s : Text} : dumps S v ++ r ≠ ']' :: s := by
  intro h
  obtain ⟨c, t, hv, hc⟩ := leads (S := S) v
  rw [hv] at h
  rw [(List.cons.inj h).1] at hc
  cases v with
  | bool b => cases b <;> cases hc
  | _ => cases hc

theorem stops_cons {c : Char} (h : numeric c = false) (text : Text) : Stops (c :: text) := by
  intro d hd
  rw [← Option.some.inj hd]
  exact h

theorem stops_items (vs : List Json) (r : Text) : Stops (dumpsItems S vs ++ r) := by
  cases vs with
  | nil =>
      rw [dumpsItems]
      exact stops_cons (by decide) _
  | cons v vs =>
      rw [dumpsItems]
      exact stops_cons (by decide) _

theorem stops_fields (fields : List (Text × Json)) (r : Text) : Stops (dumpsFields S fields ++ r) := by
  cases fields with
  | nil =>
      rw [dumpsFields]
      exact stops_cons (by decide) _
  | cons field fields =>
      rw [dumpsFields]
      exact stops_cons (by decide) _

/-- A value that is all there is of its kind. -/
theorem splits_word {v : Json} (h : ∀ w : Json, w.kind = v.kind → w = v) : SplitsAt Stops (dumps S) v := by
  intro w r s _ _ heq
  obtain rfl := h w (kind_eq heq).symm
  exact ⟨rfl, List.append_cancel_left heq⟩

theorem splits_numeral {v : Json} {a : Int ⊕ PyFloat} (hv : dumps S v = numberText S a)
    (h : ∀ w : Json, w.kind = .number → ∃ b, dumps S w = numberText S b ∧ (a = b → v = w)) (hk : v.kind = .number) :
    SplitsAt Stops (dumps S) v := by
  intro w r s hr hs heq
  obtain ⟨b, hw, hab⟩ := h w ((kind_eq heq).symm.trans hk)
  rw [hv, hw] at heq
  obtain ⟨hnumber, hrest⟩ := splits_number a b r s hr hs heq
  exact ⟨hab hnumber, hrest⟩

theorem splits_int (n : Int) : SplitsAt Stops (dumps S) (.int n) := by
  refine splits_numeral (a := .inl n) (by rw [dumps]; rfl) (fun w hw => ?_) rfl
  cases w with
  | int m => exact ⟨.inl m, by rw [dumps]; rfl, fun h => by rw [Sum.inl.inj h]⟩
  | float x => exact ⟨.inr x, by rw [dumps]; rfl, fun h => by cases h⟩
  | bool b => cases b <;> cases hw
  | _ => cases hw

theorem splits_float (x : PyFloat) : SplitsAt Stops (dumps S) (.float x) := by
  refine splits_numeral (a := .inr x) (by rw [dumps]; rfl) (fun w hw => ?_) rfl
  cases w with
  | int m => exact ⟨.inl m, by rw [dumps]; rfl, fun h => by cases h⟩
  | float y => exact ⟨.inr y, by rw [dumps]; rfl, fun h => by rw [Sum.inr.inj h]⟩
  | bool b => cases b <;> cases hw
  | _ => cases hw

theorem splits_str (text : Text) : SplitsAt Stops (dumps S) (.str text) := by
  intro w r s _ _ heq
  have hk := kind_eq heq
  cases w with
  | str other =>
      rw [dumps, dumps] at heq
      obtain ⟨rfl, hrest⟩ := splits_quoted text other r s trivial trivial heq
      exact ⟨rfl, hrest⟩
  | bool b => cases b <;> cases hk
  | _ => cases hk

mutual

theorem splits_value : ∀ v : Json, SplitsAt Stops (dumps S) v
  | .null => splits_word fun w hw => by
      cases w with
      | null => rfl
      | bool b => cases b <;> cases hw
      | _ => cases hw
  | .bool b => splits_word fun w hw => by
      cases w with
      | bool b' => cases b <;> cases b' <;> first | rfl | cases hw
      | _ => cases b <;> cases hw
  | .int n => splits_int n
  | .float x => splits_float x
  | .str text => splits_str text
  | .arr [] => fun w r s _ _ heq => by
      have hk := kind_eq heq
      cases w with
      | arr ws =>
          cases ws with
          | nil => exact ⟨rfl, List.append_cancel_left heq⟩
          | cons w ws =>
              simp only [dumps, List.cons_append, List.append_assoc, List.nil_append, List.cons.injEq, true_and] at heq
              exact absurd heq.symm not_closing
      | bool b => cases b <;> cases hk
      | _ => cases hk
  | .arr (v :: vs) => fun w r s _ _ heq => by
      have hk := kind_eq heq
      cases w with
      | arr ws =>
          cases ws with
          | nil =>
              simp only [dumps, List.cons_append, List.append_assoc, List.nil_append, List.cons.injEq, true_and] at heq
              exact absurd heq not_closing
          | cons w ws =>
              simp only [dumps, List.cons_append, List.append_assoc, List.cons.injEq, true_and] at heq
              obtain ⟨rfl, hitems⟩ := splits_value v w _ _ (stops_items vs r) (stops_items ws s) heq
              obtain ⟨rfl, hrest⟩ := splits_items vs ws r s trivial trivial hitems
              exact ⟨rfl, hrest⟩
      | bool b => cases b <;> cases hk
      | _ => cases hk
  | .obj [] => fun w r s _ _ heq => by
      have hk := kind_eq heq
      cases w with
      | obj fields =>
          cases fields with
          | nil => exact ⟨rfl, List.append_cancel_left heq⟩
          | cons field fields =>
              simp only [dumps, quoted, List.cons_append, List.append_assoc, List.cons.injEq] at heq
              exact absurd heq.2.1 (by decide)
      | bool b => cases b <;> cases hk
      | _ => cases hk
  | .obj ((k, v) :: fields) => fun w r s _ _ heq => by
      have hk := kind_eq heq
      cases w with
      | obj others =>
          cases others with
          | nil =>
              simp only [dumps, quoted, List.cons_append, List.append_assoc, List.cons.injEq] at heq
              exact absurd heq.2.1 (by decide)
          | cons other others =>
              obtain ⟨l, w⟩ := other
              simp only [dumps, List.cons_append, List.append_assoc, List.cons.injEq, true_and] at heq
              obtain ⟨rfl, hrest⟩ := splits_quoted k l _ _ trivial trivial heq
              simp only [List.cons.injEq, true_and, List.append_cancel_left_eq] at hrest
              obtain ⟨rfl, hfields⟩ := splits_value v w _ _ (stops_fields fields r) (stops_fields others s) hrest
              obtain ⟨rfl, hlast⟩ := splits_fields fields others r s trivial trivial hfields
              exact ⟨rfl, hlast⟩
      | bool b => cases b <;> cases hk
      | _ => cases hk

theorem splits_items : ∀ vs : List Json, SplitsAt Anything (dumpsItems S) vs
  | [] => fun ws r s _ _ heq => by
      cases ws with
      | nil => exact ⟨rfl, List.append_cancel_left heq⟩
      | cons w ws =>
          rw [dumpsItems, dumpsItems] at heq
          exact absurd (List.cons.inj heq).1 (by decide)
  | v :: vs => fun ws r s _ _ heq => by
      cases ws with
      | nil =>
          rw [dumpsItems, dumpsItems] at heq
          exact absurd (List.cons.inj heq).1 (by decide)
      | cons w ws =>
          simp only [dumpsItems, List.cons_append, List.append_assoc, List.cons.injEq, true_and,
            List.append_cancel_left_eq] at heq
          obtain ⟨rfl, hitems⟩ := splits_value v w _ _ (stops_items vs r) (stops_items ws s) heq
          obtain ⟨rfl, hrest⟩ := splits_items vs ws r s trivial trivial hitems
          exact ⟨rfl, hrest⟩

theorem splits_fields : ∀ fields : List (Text × Json), SplitsAt Anything (dumpsFields S) fields
  | [] => fun others r s _ _ heq => by
      cases others with
      | nil => exact ⟨rfl, List.append_cancel_left heq⟩
      | cons other others =>
          rw [dumpsFields, dumpsFields] at heq
          exact absurd (List.cons.inj heq).1 (by decide)
  | (k, v) :: fields => fun others r s _ _ heq => by
      cases others with
      | nil =>
          rw [dumpsFields, dumpsFields] at heq
          exact absurd (List.cons.inj heq).1 (by decide)
      | cons other others =>
          obtain ⟨l, w⟩ := other
          simp only [dumpsFields, List.cons_append, List.append_assoc, List.cons.injEq, true_and,
            List.append_cancel_left_eq] at heq
          obtain ⟨rfl, hrest⟩ := splits_quoted k l _ _ trivial trivial heq
          simp only [List.cons.injEq, true_and, List.append_cancel_left_eq] at hrest
          obtain ⟨rfl, hfields⟩ := splits_value v w _ _ (stops_fields fields r) (stops_fields others s) hrest
          obtain ⟨rfl, hlast⟩ := splits_fields fields others r s trivial trivial hfields
          exact ⟨rfl, hlast⟩

end

/-- A value's text is told apart from every other's, and from what follows it. -/
theorem splits_dumps : Splits Stops (dumps S) := splits_value

theorem dumps_injective {v w : Json} (h : dumps S v = dumps S w) : v = w := by
  have hnil : Stops [] := fun c hc => by cases hc
  exact splits_dumps.injective hnil h

/-! ## A repr -/

/-- A float as its numerator and one less than its denominator: an integral
one as it is written. -/
def FloatRepr.plain : FloatRepr where
  text q := intText q.num ++ '.' :: Nat.toDigits 10 (q.den - 1)
  injective x y h := by
    have hsplits : Splits (fun t : Text => ∀ c, t.head? = some c → (c.isDigit || c = '-') = false) intText := by
      refine .of_letters (fun c => c.isDigit || c = '-') (fun n c hc => ?_) intText_injective
      rcases intText_letters n c hc with hd | rfl
      · rw [hd, Bool.true_or]
      · rfl
    have hpoint (t : Text) (c : Char) (hc : ('.' :: t).head? = some c) : (c.isDigit || c = '-') = false := by
      cases hc
      rfl
    obtain ⟨hnum, hrest⟩ := hsplits x.num y.num _ _ (hpoint _) (hpoint _) h
    have hden := toDigits_injective (List.cons.inj hrest).2
    have hx := x.den_pos
    have hy := y.den_pos
    exact Rat.ext hnum (by omega)
  letters q c hc := by
    rcases List.mem_append.mp hc with hn | hd
    · rcases intText_letters q.num c hn with h | h
      · exact .inl h
      · exact .inr (.inr (.inr (.inr h)))
    · rcases List.mem_cons.mp hd with h | h
      · exact .inr (.inl h)
      · exact .inl (isDigit_toDigits h)
  marked q := .inl (List.mem_append_right _ List.mem_cons_self)

end InferenceDriver

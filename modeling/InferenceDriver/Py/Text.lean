/-
# `Py.Text` — text as the interpreter sees it

A `Text` is the list of its characters.  What the source asks of Unicode is
little: `str.lower`, `str.isalnum`, `str.strip`, and the case folding of
`re.IGNORECASE`.  The two tables behind `lower` and `isalnum` are the
Unicode character database, a parameter (`Ucd`) with the facts about it
that the code rests on: what it says of ASCII, and of the three characters
outside ASCII that the case mappings send into it,

    U+0130  İ   lower-cases to TWO characters, `i` and U+0307
    U+0131  ı   lower-cases to itself, but `re.IGNORECASE` lets `i` match it
    U+212A  K   (Kelvin) lower-cases to `k`

Whitespace is a closed list and is written out.  `str.lower` also turns a
final capital sigma into `ς` rather than `σ`; neither letter occurs in
anything the source compares with, so `lower` takes each character alone.
-/
import InferenceDriver.Lib.Words

namespace InferenceDriver

abbrev Text := List Char

instance : LawfulBEq Text := inferInstance

/-- `str.isspace` of one character. -/
def isspace (c : Char) : Bool :=
  let n := c.toNat
  (9 ≤ n && n ≤ 13) || (28 ≤ n && n ≤ 32) || n == 0x85 || n == 0xA0 || n == 0x1680 ||
    (0x2000 ≤ n && n ≤ 0x200A) || n == 0x2028 || n == 0x2029 || n == 0x202F ||
    n == 0x205F || n == 0x3000

/-- `str.strip`. -/
def strip (s : Text) : Text := Words.strip isspace s

/-- `text.partition(c)`; none where `c` is not in it. -/
def partition (c : Char) (text : Text) : Text × Option Text :=
  (text.takeWhile fun d => d ≠ c, (text.dropWhile fun d => d ≠ c).tail?)

theorem partition_append {c : Char} {before : Text} (h : c ∉ before) (after : Text) :
    partition c (before ++ c :: after) = (before, some after) := by
  have hall : ∀ d ∈ before, decide (d ≠ c) = true := fun d hd => decide_eq_true fun he => h (he ▸ hd)
  have hlast : ¬ decide (c ≠ c) = true := fun hn => of_decide_eq_true hn rfl
  rw [partition, List.takeWhile_append_of_pos hall, List.dropWhile_append_of_pos hall, List.takeWhile_cons,
    List.dropWhile_cons, if_neg hlast, if_neg hlast, List.append_nil]
  rfl

theorem eq_of_partition {c : Char} {text after : Text} (h : (partition c text).2 = some after) :
    text = (partition c text).1 ++ c :: after := by
  have hsplit : (partition c text).1 ++ text.dropWhile (fun d => d ≠ c) = text := List.takeWhile_append_dropWhile
  have htail : (text.dropWhile fun d => d ≠ c).tail? = some after := h
  have hhead := List.head?_dropWhile_not (fun d => decide (d ≠ c)) text
  cases hd : text.dropWhile fun d => d ≠ c with
  | nil =>
      rw [hd] at htail
      cases htail
  | cons d rest =>
      rw [hd] at htail hhead hsplit
      cases htail
      have hc : d = c := not_not.mp (of_decide_eq_false hhead)
      exact (hc ▸ hsplit).symm

/-- The Unicode character database, as far as the source reads it. -/
structure Ucd where
  /-- `str.lower` of one character. -/
  lower : Char → Text
  /-- `str.isalnum` of one character. -/
  alnum : Char → Bool
  lower_dotted : lower 'İ' = ['i', '\u0307']
  lower_single : ∀ c, c ≠ 'İ' → ∃ d, lower c = [d]
  lower_ascii : ∀ c, c.toNat < 128 → lower c = [c.toLower]
  lower_kelvin : lower '\u212A' = ['k']
  lower_dotless : ∀ c, lower c = ['ı'] ↔ c = 'ı'
  of_lower_ascii : ∀ c p, p.toNat < 128 → lower c = [p] → c.toNat < 128 ∨ c = '\u212A'
  alnum_ascii : ∀ c, c.toNat < 128 → alnum c = c.isAlphanum
  alnum_kelvin : alnum '\u212A' = true
  alnum_dotted : alnum 'İ' = true
  alnum_dotless : alnum 'ı' = true
  not_space : ∀ c, alnum c = true → isspace c = false

namespace Ucd

variable (U : Ucd)

/-- `str.lower`. -/
def lowerText (s : Text) : Text := s.flatMap U.lower

/-- What `\w` matches. -/
def word (c : Char) : Bool := U.alnum c || c == '_'

/-- The one-character lower case `re.IGNORECASE` compares by: the first
character of the full mapping. -/
def simpleLower (c : Char) : Char := (U.lower c).headD c

/-- A literal character of a pattern under `re.IGNORECASE`: `i` also
matches the dotless `ı`. -/
def foldMatch (p c : Char) : Bool :=
  U.simpleLower c == p || (p == 'i' && U.simpleLower c == 'ı')

/-- A character that reads as `p` once lower-cased. -/
def lowerIs (p c : Char) : Bool := Words.maps U.lower p c

theorem lowerIs_iff {p c : Char} : U.lowerIs p c = true ↔ U.lower c = [p] := by
  simp [lowerIs, Words.maps]

theorem simpleLower_of_lowerIs {p c : Char} (h : U.lowerIs p c = true) :
    U.simpleLower c = p := by
  rw [simpleLower, U.lowerIs_iff.mp h]; rfl

theorem foldMatch_of_lowerIs {p c : Char} (h : U.lowerIs p c = true) :
    U.foldMatch p c = true := by
  simp [foldMatch, U.simpleLower_of_lowerIs h]

/-! ## ASCII

Each fact about a character below 128 is a check of 128 cases. -/

/-- An ASCII character that is no letter is the lower case of itself alone. -/
theorem toLower_eq_punct {c p : Char} (hc : c.toNat < 128) (hp : p.isAlphanum = false)
    (h : c.toLower = p) : c = p := by
  have all : ∀ n : Fin 128, (Char.ofNat n).toLower.isAlphanum = false →
      (Char.ofNat n).toLower = Char.ofNat n := by decide
  have hn := all ⟨c.toNat, hc⟩
  simp only [Char.ofNat_toNat] at hn
  rw [← h] at hp ⊢
  exact (hn hp).symm

theorem isAlphanum_of_toLower {c p : Char} (hc : c.toNat < 128) (hp : p.isAlphanum = true)
    (h : c.toLower = p) : c.isAlphanum = true := by
  have all : ∀ n : Fin 128, (Char.ofNat n).toLower.isAlphanum = true →
      (Char.ofNat n).isAlphanum = true := by decide
  have hn := all ⟨c.toNat, hc⟩
  simp only [Char.ofNat_toNat] at hn
  exact hn (h ▸ hp)

/-- A punctuation character is read only where it stands. -/
theorem lowerIs_punct {p c : Char} (hp : p.toNat < 128) (hn : p.isAlphanum = false) :
    U.lowerIs p c = true ↔ c = p := by
  rw [U.lowerIs_iff]
  constructor
  · intro h
    rcases U.of_lower_ascii c p hp h with hc | rfl
    · rw [U.lower_ascii c hc] at h
      exact toLower_eq_punct hc hn (by simpa using h)
    · rw [U.lower_kelvin] at h
      have : p = 'k' := by simpa using h.symm
      subst this
      exact absurd hn (by decide)
  · rintro rfl
    have all : ∀ n : Fin 128, (Char.ofNat n).isAlphanum = false →
        (Char.ofNat n).toLower = Char.ofNat n := by decide
    have hl := all ⟨c.toNat, hp⟩
    simp only [Char.ofNat_toNat] at hl
    rw [U.lower_ascii c hp, hl hn]

/-- A character that reads as an ASCII letter is a word character. -/
theorem word_of_lowerIs {p c : Char} (hp : p.toNat < 128) (hn : p.isAlphanum = true)
    (h : U.lowerIs p c = true) : U.word c = true := by
  rw [U.lowerIs_iff] at h
  rcases U.of_lower_ascii c p hp h with hc | rfl
  · rw [U.lower_ascii c hc] at h
    have := isAlphanum_of_toLower hc hn (by simpa using h)
    simp [word, U.alnum_ascii c hc, this]
  · simp [word, U.alnum_kelvin]

theorem word_ascii {c : Char} (hc : c.toNat < 128) :
    U.word c = (c.isAlphanum || c == '_') := by
  rw [word, U.alnum_ascii c hc]

/-- What `re.IGNORECASE` adds to `str.lower`: the dotted and the dotless
letter read as `i`. -/
theorem foldMatch_iff {p c : Char} :
    U.foldMatch p c = true ↔ U.lowerIs p c = true ∨ (p = 'i' ∧ (c = 'İ' ∨ c = 'ı')) := by
  by_cases hd : c = 'İ'
  · subst hd
    have hs : U.simpleLower 'İ' = 'i' := by simp [simpleLower, U.lower_dotted]
    have hl : U.lowerIs p 'İ' = false := by
      simp [lowerIs, Words.maps, U.lower_dotted]
    simp only [foldMatch, hs, hl, Bool.or_eq_true, beq_iff_eq, Bool.and_eq_true]
    constructor
    · rintro (h | ⟨h, -⟩)
      · exact Or.inr ⟨h.symm, Or.inl trivial⟩
      · exact Or.inr ⟨h, Or.inl trivial⟩
    · rintro (h | ⟨h, -⟩)
      · cases h
      · exact Or.inl h.symm
  · obtain ⟨d, hl⟩ := U.lower_single c hd
    have hs : U.simpleLower c = d := by simp [simpleLower, hl]
    have hi : d = 'ı' ↔ c = 'ı' := by
      rw [← U.lower_dotless c, hl]; simp
    simp only [foldMatch, hs, U.lowerIs_iff, hl, Bool.or_eq_true, beq_iff_eq, Bool.and_eq_true,
      List.cons.injEq, and_true, hi, hd, false_or]

theorem foldMatch_punct {p c : Char} (hp : p.toNat < 128) (hn : p.isAlphanum = false) :
    U.foldMatch p c = true ↔ c = p := by
  rw [U.foldMatch_iff, U.lowerIs_punct hp hn]
  constructor
  · rintro (h | ⟨rfl, -⟩)
    · exact h
    · exact absurd hn (by decide)
  · exact Or.inl

theorem word_of_foldMatch {p c : Char} (hp : p.toNat < 128) (hn : p.isAlphanum = true)
    (h : U.foldMatch p c = true) : U.word c = true := by
  rcases U.foldMatch_iff.mp h with h | ⟨-, rfl | rfl⟩
  · exact U.word_of_lowerIs hp hn h
  · simp [word, U.alnum_dotted]
  · simp [word, U.alnum_dotless]

/-- No word character is trimmed. -/
theorem isspace_of_word {c : Char} (h : U.word c = true) : isspace c = false := by
  simp only [word, Bool.or_eq_true, beq_iff_eq] at h
  rcases h with h | rfl
  · exact U.not_space c h
  · decide

end Ucd

/-! ## The database on ASCII

The smallest database: it agrees with the interpreter's on ASCII and on the
three characters above, and leaves every other character alone. -/

def Ucd.basic : Ucd where
  lower c :=
    if c = 'İ' then ['i', '\u0307']
    else if c = '\u212A' then ['k']
    else if c.toNat < 128 then [c.toLower]
    else [c]
  alnum c :=
    if c.toNat < 128 then c.isAlphanum
    else c = 'İ' || c = 'ı' || c = '\u212A'
  lower_dotted := by simp
  lower_single c hc := by
    rw [if_neg hc]
    split
    · exact ⟨'k', rfl⟩
    · split
      · exact ⟨c.toLower, rfl⟩
      · exact ⟨c, rfl⟩
  lower_ascii c hc := by
    have h₁ : c ≠ 'İ' := by rintro rfl; exact absurd hc (by decide)
    have h₂ : c ≠ '\u212A' := by rintro rfl; exact absurd hc (by decide)
    rw [if_neg h₁, if_neg h₂, if_pos hc]
  lower_kelvin := by decide
  lower_dotless c := by
    have all : ∀ n : Fin 128, (Char.ofNat n).toLower ≠ 'ı' := by decide
    constructor
    · intro h
      split at h
      · simp at h
      · split at h
        · exact absurd h (by decide)
        · split at h
          · rename_i hc
            have := all ⟨c.toNat, hc⟩
            simp only [Char.ofNat_toNat] at this
            exact absurd (by simpa using h) this
          · simpa using h
    · rintro rfl; decide
  of_lower_ascii c p hp h := by
    split at h
    · simp at h
    · split at h
      · rename_i hc; exact Or.inr hc
      · split at h
        · rename_i hc; exact Or.inl hc
        · have : c = p := by simpa using h
          exact Or.inl (this ▸ hp)
  alnum_ascii c hc := by rw [if_pos hc]
  alnum_kelvin := by decide
  alnum_dotted := by decide
  alnum_dotless := by decide
  not_space c h := by
    split at h
    · rename_i hc
      have all : ∀ n : Fin 128, (Char.ofNat n).isAlphanum = true →
          isspace (Char.ofNat n) = false := by decide
      have := all ⟨c.toNat, hc⟩
      simp only [Char.ofNat_toNat] at this
      exact this h
    · simp only [Bool.or_eq_true, decide_eq_true_eq] at h
      rcases h with (rfl | rfl) | rfl <;> decide

end InferenceDriver

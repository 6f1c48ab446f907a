/-
# `Catalogue.Patterns` — which of an account's models the operator's patterns keep

`matches` is the source's: a pattern without a star is compared, one with a
star is cut at its stars, the pieces escaped and joined by `.*`, and the
whole value matched against that.  `matches_iff` is what it comes to,
`Glob`: a star stands for any text, every other character for itself.
-/
import InferenceDriver.Lib.Backtrack
import InferenceDriver.Py.Text

namespace InferenceDriver.Catalogue

open Backtrack

/-! ## What a pattern means -/

/-- A star stands for any run of characters, every other character for itself. -/
inductive Glob : Text → Text → Prop where
  | nil : Glob [] []
  | star (gap : Text) {pattern value : Text} :
      Glob pattern value → Glob ('*' :: pattern) (gap ++ value)
  | char {c : Char} {pattern value : Text} :
      c ≠ '*' → Glob pattern value → Glob (c :: pattern) (c :: value)

theorem glob_nil_iff {value : Text} : Glob [] value ↔ value = [] := by
  constructor
  · intro h; cases h; rfl
  · rintro rfl; exact .nil

theorem glob_star_iff {pattern value : Text} :
    Glob ('*' :: pattern) value ↔ ∃ gap rest, value = gap ++ rest ∧ Glob pattern rest := by
  constructor
  · intro h
    cases h with
    | star gap h => exact ⟨gap, _, rfl, h⟩
    | char hc _ => exact absurd rfl hc
  · rintro ⟨gap, rest, rfl, h⟩
    exact .star gap h

theorem glob_char_iff {c : Char} (hc : c ≠ '*') {pattern value : Text} :
    Glob (c :: pattern) value ↔ ∃ rest, value = c :: rest ∧ Glob pattern rest := by
  constructor
  · intro h
    cases h with
    | star gap h => exact absurd rfl hc
    | char _ h => exact ⟨_, rfl, h⟩
  · rintro ⟨rest, rfl, h⟩
    exact .char hc h

/-- A pattern without a star matches itself. -/
theorem glob_iff_eq : ∀ {pattern value : Text}, '*' ∉ pattern → (Glob pattern value ↔ pattern = value)
  | [], _, _ => glob_nil_iff.trans eq_comm
  | c :: pattern, value, h => by
      obtain ⟨hc, h⟩ := not_or.mp (mt List.mem_cons.mpr h)
      rw [glob_char_iff (Ne.symm hc)]
      constructor
      · rintro ⟨rest, rfl, hr⟩
        rw [(glob_iff_eq h).mp hr]
      · rintro rfl
        exact ⟨pattern, rfl, (glob_iff_eq h).mpr rfl⟩

/-- A pattern with its stars replaced by texts, the first by the first. -/
def filled : Text → List Text → Text
  | [], _ => []
  | c :: pattern, gaps =>
      if c = '*' then gaps.headD [] ++ filled pattern gaps.tail else c :: filled pattern gaps

/-- What a pattern matches is what replacing its stars makes of it. -/
theorem glob_iff_filled {pattern value : Text} :
    Glob pattern value ↔ ∃ gaps : List Text, gaps.length = pattern.count '*' ∧ filled pattern gaps = value := by
  induction pattern generalizing value with
  | nil =>
      rw [glob_nil_iff]
      constructor
      · rintro rfl
        exact ⟨[], rfl, rfl⟩
      · rintro ⟨gaps, -, rfl⟩
        rfl
  | cons c pattern ih =>
      rcases eq_or_ne c '*' with rfl | hc
      · rw [glob_star_iff, List.count_cons_self]
        constructor
        · rintro ⟨gap, rest, rfl, h⟩
          obtain ⟨gaps, hlength, rfl⟩ := ih.mp h
          exact ⟨gap :: gaps, congrArg Nat.succ hlength, if_pos rfl⟩
        · rintro ⟨gaps, hlength, rfl⟩
          obtain ⟨gap, gaps, rfl⟩ := List.exists_cons_of_length_eq_add_one hlength
          exact ⟨gap, _, if_pos rfl, ih.mpr ⟨gaps, Nat.succ.inj hlength, rfl⟩⟩
      · rw [glob_char_iff hc, List.count_cons_of_ne hc]
        constructor
        · rintro ⟨rest, rfl, h⟩
          obtain ⟨gaps, hlength, rfl⟩ := ih.mp h
          exact ⟨gaps, hlength, if_neg hc⟩
        · rintro ⟨gaps, hlength, rfl⟩
          exact ⟨_, if_neg hc, ih.mpr ⟨gaps, hlength, rfl⟩⟩

/-! ## What the source computes -/

/-- `re.escape(part)`: each character for itself. -/
def escape (part : Text) : Re Char := Re.chars (part.map fun c d => d = c)

/-- `".*".join(parts)`; under `re.DOTALL` a dot is any character. -/
def joined : List Text → Re Char
  | [] => .eps
  | [part] => escape part
  | part :: parts => .seq (escape part) (.seq (.star fun _ => true) (joined parts))

/-- No pattern here looks at words, groups or line ends. -/
def plain : Flavour Char := ⟨fun _ => false, fun c d => c = d, fun c => c = '\n'⟩

/-- `re.fullmatch`: some way through reads the whole value. -/
def fullmatch (r : Re Char) (value : Text) : Bool :=
  (run plain r ⟨none, value, none⟩).any fun k => k.rest.isEmpty

/-- `matches(pattern, value)`. -/
def «matches» (pattern value : Text) : Bool :=
  if '*' ∉ pattern then pattern = value
  else fullmatch (joined (pattern.splitOn '*')) value

/-- `exposed_by(include, exclude, model_id)`. -/
def exposedBy («include» exclude : List Text) (modelId : Text) : Bool :=
  if !«include».any fun p => «matches» p modelId then false
  else !exclude.any fun p => «matches» p modelId

/-! ## The one is the other -/

/-- A pattern gets through from a cursor. -/
def Through (r : Re Char) (k : Cursor Char) : Prop := ∃ k' ∈ run plain r k, k'.rest = []

/-- A greedy run of anything may stop anywhere. -/
theorem greedy_any (P : Text → Prop) (g : Option Text) : ∀ (value : Text) (prev : Option Char),
    (∃ k ∈ greedy (fun _ => true) g prev value, P k.rest) ↔ ∃ gap rest, value = gap ++ rest ∧ P rest
  | [], prev => by
      constructor
      · rintro ⟨k, hk, hP⟩
        cases List.mem_singleton.mp hk
        exact ⟨[], [], rfl, hP⟩
      · rintro ⟨gap, rest, h, hP⟩
        obtain ⟨-, rfl⟩ := List.append_eq_nil_iff.mp h.symm
        exact ⟨_, List.mem_singleton.mpr rfl, hP⟩
  | c :: cs, prev => by
      have ih := greedy_any P g cs (some c)
      constructor
      · rintro ⟨k, hk, hP⟩
        rcases List.mem_append.mp hk with hk | hk
        · obtain ⟨gap, rest, rfl, hP⟩ := ih.mp ⟨k, hk, hP⟩
          exact ⟨c :: gap, rest, rfl, hP⟩
        · cases List.mem_singleton.mp hk
          exact ⟨[], c :: cs, rfl, hP⟩
      · rintro ⟨gap, rest, h, hP⟩
        cases gap with
        | nil =>
            cases h
            exact ⟨_, List.mem_append_right _ (List.mem_singleton.mpr rfl), hP⟩
        | cons d gap =>
            obtain ⟨rfl, rfl⟩ := List.cons.inj h
            obtain ⟨k, hk, hP⟩ := ih.mpr ⟨gap, rest, rfl, hP⟩
            exact ⟨k, List.mem_append_left _ hk, hP⟩

theorem through_seq {r s : Re Char} {k : Cursor Char} :
    Through (.seq r s) k ↔ ∃ k₁ ∈ run plain r k, Through s k₁ := by
  constructor
  · rintro ⟨k', hk, hr⟩
    obtain ⟨k₁, h₁, hk⟩ := List.mem_flatMap.mp hk
    exact ⟨k₁, h₁, k', hk, hr⟩
  · rintro ⟨k₁, h₁, k', hk, hr⟩
    exact ⟨k', List.mem_flatMap.mpr ⟨k₁, h₁, hk⟩, hr⟩

theorem mem_run_chr {p : Char → Bool} {k k₁ : Cursor Char} :
    k₁ ∈ run plain (.chr p) k ↔
      ∃ d rest, k.rest = d :: rest ∧ p d = true ∧ k₁ = ⟨some d, rest, k.group⟩ := by
  obtain ⟨prev, rest, g⟩ := k
  cases rest with
  | nil => simp [run]
  | cons d rest => by_cases hp : p d = true <;> simp [run, hp]

/-- A character at the head of the first piece is read first. -/
theorem run_joined_cons (c : Char) (part : Text) (parts : List Text) (k : Cursor Char) :
    run plain (joined ((c :: part) :: parts)) k =
      run plain (.seq (.chr fun d => d = c) (joined (part :: parts))) k := by
  cases parts with
  | nil => rfl
  | cons q parts =>
      show ((run plain (.chr fun d => d = c) k).flatMap (run plain (escape part))).flatMap _ = _
      rw [List.flatMap_assoc]
      rfl

/-- A star opens an empty piece, and a run of anything. -/
theorem run_joined_star (part : Text) (parts : List Text) (k : Cursor Char) :
    run plain (joined ([] :: part :: parts)) k =
      run plain (.seq (.star fun _ => true) (joined (part :: parts))) k := by
  show [k].flatMap _ = _
  rw [List.flatMap_singleton]

/-- The pieces of a pattern, joined, get through what the pattern matches;
by the pattern's characters. -/
theorem through_iff : ∀ (pattern : Text) (k : Cursor Char),
    Through (joined (pattern.splitOn '*')) k ↔ Glob pattern k.rest
  | [], k => by
      rw [List.splitOn_nil, glob_nil_iff]
      constructor
      · rintro ⟨k', hk, hr⟩
        cases List.mem_singleton.mp hk
        exact hr
      · intro hr
        exact ⟨k, List.mem_singleton.mpr rfl, hr⟩
  | c :: pattern, k => by
      have ih := through_iff pattern
      obtain ⟨part, parts, hs⟩ := List.exists_cons_of_ne_nil (List.splitOn_ne_nil '*' pattern)
      rw [hs] at ih
      rw [List.splitOn_cons_eq_if_modifyHead, hs]
      by_cases hc : c = '*'
      · subst hc
        rw [if_pos (beq_self_eq_true '*'), Through, run_joined_star, ← Through, through_seq,
          glob_star_iff, ← greedy_any (Glob pattern) k.group k.rest k.prev]
        simp only [ih]
        rfl
      · rw [if_neg (by simpa using hc), List.modifyHead_cons, Through, run_joined_cons, ← Through,
          through_seq, glob_char_iff hc]
        constructor
        · rintro ⟨k₁, h₁, ht⟩
          obtain ⟨d, rest, hr, hd, rfl⟩ := mem_run_chr.mp h₁
          cases of_decide_eq_true hd
          exact ⟨rest, hr, (ih _).mp ht⟩
        · rintro ⟨rest, hr, hg⟩
          exact ⟨_, mem_run_chr.mpr ⟨c, rest, hr, decide_eq_true rfl, rfl⟩, (ih _).mpr hg⟩

/-- A pattern matches as its characters say, with `*` the only one that is
not itself: `[`, `?` and `.` are ordinary. -/
theorem matches_iff (pattern value : Text) : «matches» pattern value = true ↔ Glob pattern value := by
  rw [«matches»]
  by_cases h : '*' ∈ pattern
  · rw [if_neg (not_not_intro h), ← through_iff pattern ⟨none, value, none⟩]
    simp only [fullmatch, Through, List.any_eq_true, List.isEmpty_iff]
  · rw [if_pos h, decide_eq_true_iff, glob_iff_eq h]

/-- The default include, `*` alone, keeps every model. -/
theorem matches_star (value : Text) : «matches» ['*'] value = true :=
  (matches_iff _ _).mpr (by simpa using Glob.star value .nil)

/-- Kept: some include pattern matches and no exclude pattern does. -/
theorem exposedBy_iff («include» exclude : List Text) (modelId : Text) :
    exposedBy «include» exclude modelId = true ↔
      (∃ p ∈ «include», Glob p modelId) ∧ ∀ p ∈ exclude, ¬Glob p modelId := by
  have hin : («include».any fun p => «matches» p modelId) = true ↔ ∃ p ∈ «include», Glob p modelId := by
    simp only [List.any_eq_true, matches_iff]
  have hout : (!exclude.any fun p => «matches» p modelId) = true ↔ ∀ p ∈ exclude, ¬Glob p modelId := by
    simp only [Bool.not_eq_true', List.any_eq_false, matches_iff]
  rw [exposedBy, ← hin, ← hout]
  cases «include».any fun p => «matches» p modelId <;> simp

/-- **A star is any text, and nothing else is special**; and what is kept is
what some include pattern matches and no exclude pattern does. -/
theorem exposed_fills (pattern value : Text) («include» exclude : List Text) (modelId : Text) :
    («matches» pattern value = true ↔
      ∃ gaps : List Text, gaps.length = pattern.count '*' ∧ filled pattern gaps = value) ∧
    (exposedBy «include» exclude modelId = true ↔
      (∃ p ∈ «include», «matches» p modelId = true) ∧ ∀ p ∈ exclude, ¬ «matches» p modelId = true) := by
  refine ⟨(matches_iff pattern value).trans glob_iff_filled, ?_⟩
  simp only [exposedBy_iff, matches_iff]

example : exposedBy ["anthropic/*".toList, "gpt-?".toList] ["*:free".toList] "anthropic/opus".toList = true ∧
    exposedBy ["anthropic/*".toList] ["*:free".toList] "anthropic/opus:free".toList = false ∧
    exposedBy ["gpt-?".toList] [] "gpt-4".toList = false := by
  decide

end InferenceDriver.Catalogue

/-
# `Thinking.Scan` — what a text with thinking tags says, read once from left to right

Both readers of `Thinking.Filter` are compared with a third, abstract one,
which has no buffer, no chunk and no pattern.  It reads a text from left to
right:

    outside   copy characters until an opening tag: `<` and a name, read to
              its end, that is `think` or `thinking`
    tag       skip to the first `>` …
    inside    … and on through the first closing tag of that name
    after     go on outside

and drops everything from an opening tag that has no `>` or no close.  A
text is thus its VISIBLE part and, at most, one unterminated tag
(`reading`).  Nothing copied is ever read again.

The reader is generic in how a character of a name is recognised (`ok`):
the filter lower-cases (`Ucd.lowerIs`), the patterns fold
(`Ucd.foldMatch`), and they differ on two letters.
-/
import InferenceDriver.Thinking.Filter

namespace InferenceDriver.Thinking

variable (U : Ucd)

/-- The thinking name a word spells, if any. -/
def named (ok : Char → Char → Bool) (w : Text) : Option Text :=
  thinkNames.find? fun n => Words.prefixBy ok n w == some []

/-- An opening tag at the head of a text: its name, and the text after it. -/
def opens (ok : Char → Char → Bool) : Text → Option (Text × Text)
  | [] => none
  | c :: t =>
      if c = '<' then (named ok (t.takeWhile U.word)).map fun n => (n, t.dropWhile U.word)
      else none

/-- The text after the first `>`. -/
def afterGt (s : Text) : Option Text := (Backtrack.after (fun c => c == '>') s).map (·.2)

/-- Where the first closing tag of `n` is. -/
def closeAt (ok : Char → Char → Bool) (n s : Text) : Option Nat :=
  Words.findBy ok (closeTag n) s

/-- The text after the first closing tag of `n`. -/
def afterClose (ok : Char → Char → Bool) (n s : Text) : Option Text :=
  (closeAt ok n s).map fun j => s.drop (j + (closeTag n).length)

/-- The text after the block whose opening tag is named `n` and goes on
with `s`. -/
def afterBlock (ok : Char → Char → Bool) (n s : Text) : Option Text :=
  (afterGt s).bind (afterClose ok n)

theorem length_dropWhile_le (p : Char → Bool) : ∀ s : Text, (s.dropWhile p).length ≤ s.length
  | [] => Nat.le_refl _
  | c :: cs => by
      simp only [List.dropWhile_cons]
      split
      · exact Nat.le_succ_of_le (length_dropWhile_le p cs)
      · exact Nat.le_refl _

theorem length_after {q : Char → Bool} : ∀ {s : Text} {x : Char × Text},
    Backtrack.after q s = some x → x.2.length < s.length
  | [], _, h => by simp [Backtrack.after_nil] at h
  | c :: cs, x, h => by
      simp only [Backtrack.after_cons] at h
      split at h
      · cases h; exact Nat.lt_succ_self _
      · exact Nat.lt_succ_of_lt (length_after h)

theorem length_afterGt {s r : Text} (h : afterGt s = some r) : r.length < s.length := by
  obtain ⟨x, hx, rfl⟩ := Option.map_eq_some_iff.mp h
  exact length_after hx

theorem length_afterClose {ok : Char → Char → Bool} {n s r : Text}
    (h : afterClose ok n s = some r) : r.length ≤ s.length := by
  obtain ⟨j, -, rfl⟩ := Option.map_eq_some_iff.mp h
  simp

variable {U}

theorem opens_eq_some {ok : Char → Char → Bool} {s n t : Text} (h : opens U ok s = some (n, t)) :
    ∃ s', s = '<' :: s' ∧ named ok (s'.takeWhile U.word) = some n ∧ t = s'.dropWhile U.word := by
  cases s with
  | nil => simp [opens] at h
  | cons c s' =>
      simp only [opens] at h
      split at h
      · rename_i hc
        subst hc
        obtain ⟨n', hn, he⟩ := Option.map_eq_some_iff.mp h
        cases he
        exact ⟨s', rfl, hn, rfl⟩
      · simp at h

theorem length_opens {ok : Char → Char → Bool} {s n t : Text} (h : opens U ok s = some (n, t)) :
    t.length < s.length := by
  obtain ⟨s', rfl, -, rfl⟩ := opens_eq_some h
  exact Nat.lt_succ_of_le (length_dropWhile_le _ s')

theorem length_afterBlock {ok : Char → Char → Bool} {n s r : Text}
    (h : afterBlock ok n s = some r) : r.length < s.length := by
  obtain ⟨s₂, h₂, hr⟩ := Option.bind_eq_some_iff.mp h
  exact Nat.lt_of_le_of_lt (length_afterClose hr) (length_afterGt h₂)

theorem mem_of_after {q : Char → Bool} : ∀ {s : Text} {x : Char × Text} {c : Char},
    Backtrack.after q s = some x → c ∈ x.2 → c ∈ s
  | [], _, _, h, _ => by simp [Backtrack.after_nil] at h
  | d :: cs, x, c, h, hm => by
      simp only [Backtrack.after_cons] at h
      split at h
      · cases h; exact List.mem_cons_of_mem _ hm
      · exact List.mem_cons_of_mem _ (mem_of_after h hm)

theorem mem_of_afterGt {s r : Text} {c : Char} (h : afterGt s = some r) (hm : c ∈ r) :
    c ∈ s := by
  obtain ⟨x, hx, rfl⟩ := Option.map_eq_some_iff.mp h
  exact mem_of_after hx hm

theorem mem_of_opens {ok : Char → Char → Bool} {s n t : Text} {c : Char}
    (h : opens U ok s = some (n, t)) (hm : c ∈ t) : c ∈ s := by
  obtain ⟨s', rfl, -, rfl⟩ := opens_eq_some h
  exact List.mem_cons_of_mem _ ((List.dropWhile_sublist _).mem hm)

variable (U)

/-- The reading of a text: what is visible, and the unterminated opening
tag with everything after it, when there is one. -/
def reading (ok : Char → Char → Bool) (s : Text) : Text × Option Text :=
  match s with
  | [] => ([], none)
  | c :: cs =>
      match _ho : opens U ok (c :: cs) with
      | none => (c :: (reading ok cs).1, (reading ok cs).2)
      | some (n, t) =>
          match _hb : afterBlock ok n t with
          | none => ([], some (c :: cs))
          | some r => reading ok r
  termination_by s.length
  decreasing_by
    · simp
    · exact Nat.lt_trans (length_afterBlock _hb) (length_opens _ho)

/-- The visible part of a text, as the filter recognises tags. -/
def visible (s : Text) : Text := (reading U U.lowerIs s).1

@[simp] theorem reading_nil (ok : Char → Char → Bool) : reading U ok [] = ([], none) := by
  rw [reading]

theorem reading_cons (ok : Char → Char → Bool) (c : Char) (cs : Text) :
    reading U ok (c :: cs) =
      match opens U ok (c :: cs) with
      | none => (c :: (reading U ok cs).1, (reading U ok cs).2)
      | some (n, t) => (afterBlock ok n t).elim ([], some (c :: cs)) (reading U ok) := by
  rw [reading]
  split
  · rename_i ho
    rw [ho]
  · rename_i n t ho
    rw [ho]
    split
    · rename_i hb
      exact (congrArg (Option.elim · ([], some (c :: cs)) (reading U ok)) hb).symm
    · rename_i r hb
      exact (congrArg (Option.elim · ([], some (c :: cs)) (reading U ok)) hb).symm

theorem reading_copy {ok : Char → Char → Bool} {c : Char} {cs : Text}
    (h : opens U ok (c :: cs) = none) :
    reading U ok (c :: cs) = (c :: (reading U ok cs).1, (reading U ok cs).2) := by
  rw [reading_cons, h]

theorem reading_block {ok : Char → Char → Bool} {s n t r : Text}
    (h : opens U ok s = some (n, t)) (hr : afterBlock ok n t = some r) :
    reading U ok s = reading U ok r := by
  obtain ⟨s', rfl, -, -⟩ := opens_eq_some h
  rw [reading_cons, h]
  exact congrArg (Option.elim · _ (reading U ok)) hr

theorem reading_tail {ok : Char → Char → Bool} {s n t : Text}
    (h : opens U ok s = some (n, t)) (hr : afterBlock ok n t = none) :
    reading U ok s = ([], some s) := by
  obtain ⟨s', rfl, -, -⟩ := opens_eq_some h
  rw [reading_cons, h]
  exact congrArg (Option.elim · _ (reading U ok)) hr

@[simp] theorem visible_nil : visible U [] = [] := by simp [visible]

theorem visible_copy {c : Char} {cs : Text} (h : opens U U.lowerIs (c :: cs) = none) :
    visible U (c :: cs) = c :: visible U cs := by
  simp [visible, reading_copy U h]

theorem visible_block {s n t r : Text} (h : opens U U.lowerIs s = some (n, t))
    (hr : afterBlock U.lowerIs n t = some r) : visible U s = visible U r := by
  simp [visible, reading_block U h hr]

theorem visible_tail {s n t : Text} (h : opens U U.lowerIs s = some (n, t))
    (hr : afterBlock U.lowerIs n t = none) : visible U s = [] := by
  simp [visible, reading_tail U h hr]

/-! ## Names -/

theorem mem_thinkNames {n : Text} :
    n ∈ thinkNames ↔ n = "thinking".toList ∨ n = "think".toList := by
  simp [thinkNames]

theorem named_mem {ok : Char → Char → Bool} {w n : Text} (h : named ok w = some n) :
    n ∈ thinkNames ∧ Words.prefixBy ok n w = some [] :=
  ⟨List.mem_of_find?_eq_some h, by simpa using List.find?_some h⟩

/-- A word spells at most one of the two names: they differ in length. -/
theorem named_of_prefix {ok : Char → Char → Bool} {w n : Text} (hn : n ∈ thinkNames)
    (h : Words.prefixBy ok n w = some []) : named ok w = some n := by
  have hw := Words.prefixBy_length h
  rcases mem_thinkNames.mp hn with rfl | rfl
  · simp only [named, thinkNames, List.find?_cons, h]
    simp
  · have hno : Words.prefixBy ok "thinking".toList w ≠ some [] := by
      intro h'
      have hw' := Words.prefixBy_length h'
      simp only [List.length_nil] at hw hw'
      have e₁ : "think".toList.length = 5 := rfl
      have e₂ : "thinking".toList.length = 8 := rfl
      omega
    have hb : (Words.prefixBy ok "thinking".toList w == some []) = false := by
      simpa using hno
    simp only [named, thinkNames, List.find?_cons, hb, h]
    simp

/-! ## What a piece of text says of its continuation -/

/-- The first `>` of a text is found behind anything that has none. -/
theorem afterGt_append {a : Text} (h : '>' ∉ a) (b : Text) : afterGt (a ++ b) = afterGt b := by
  induction a with
  | nil => rfl
  | cons c cs ih =>
      simp only [List.mem_cons, not_or] at h
      have hc : (c == '>') = false := by simpa using Ne.symm h.1
      have := ih h.2
      simpa only [afterGt, List.cons_append, Backtrack.after_cons, hc, Bool.false_eq_true, if_false]
        using this

theorem afterGt_append_some {a t : Text} (h : afterGt a = some t) (b : Text) :
    afterGt (a ++ b) = some (t ++ b) := by
  induction a with
  | nil => simp [afterGt, Backtrack.after_nil] at h
  | cons c cs ih =>
      simp only [afterGt, List.cons_append, Backtrack.after_cons] at h ih ⊢
      split at h
      · rename_i hc
        rw [if_pos hc]
        cases h; rfl
      · rename_i hc
        rw [if_neg hc]
        exact ih h

theorem afterGt_eq_none {s : Text} : afterGt s = none ↔ '>' ∉ s := by
  induction s with
  | nil => simp [afterGt, Backtrack.after_nil]
  | cons c cs ih =>
      by_cases hc : c = '>'
      · simp [afterGt, Backtrack.after_cons, hc]
      · have hb : (c == '>') = false := by simpa using hc
        simp only [afterGt, Backtrack.after_cons, hb, Bool.false_eq_true, if_false, List.mem_cons,
          not_or] at ih ⊢
        rw [ih]
        exact ⟨fun h => ⟨Ne.symm hc, h⟩, fun h => h.2⟩

theorem afterGt_find : ∀ s : Text,
    afterGt s = (Words.find [('>' : Char)] s).map fun j => s.drop (j + 1)
  | [] => by simp [afterGt, Backtrack.after_nil, Words.find]
  | c :: cs => by
      have ih := afterGt_find cs
      by_cases hc : c = '>'
      · subst hc; simp [afterGt, Backtrack.after_cons, Words.find]
      · have h₁ : (c == '>') = false := by simpa using hc
        have h₂ : List.isPrefixOf [('>' : Char)] (c :: cs) = false := by
          simp [List.isPrefixOf_cons_cons, Ne.symm hc]
        simp only [afterGt, Backtrack.after_cons, h₁, Words.find, h₂, Bool.false_eq_true,
          if_false] at ih ⊢
        rw [ih]
        cases Words.find [('>' : Char)] cs <;> simp

variable {U} in
/-- An opening tag has no `>`, so the `>` that ends it is the first one
after its name. -/
theorem afterGt_of_opens {ok : Char → Char → Bool} {s n t : Text}
    (h : opens U ok s = some (n, t)) : afterGt s = afterGt t := by
  obtain ⟨s', rfl, -, rfl⟩ := opens_eq_some h
  have hgt : U.word '>' = false := by
    rw [U.word_ascii (by decide)]; decide
  have hw : '>' ∉ ('<' :: s'.takeWhile U.word) := by
    intro hm
    rcases List.mem_cons.mp hm with hm | hm
    · cases hm
    · have := List.mem_takeWhile_imp hm
      rw [hgt] at this
      cases this
  have := afterGt_append hw (s'.dropWhile U.word)
  rwa [List.cons_append, List.takeWhile_append_dropWhile] at this

end InferenceDriver.Thinking

/-
# `Thinking.Batch` — what the two patterns delete

`first_thinkBlockRe` and `first_thinkTailRe`: at a place of the text, the
first way through `_THINK_BLOCK_RE` ends where a complete block ends
(`blockAfter`), and `_THINK_TAIL_RE` takes everything from an opening tag
on (`tailAfter`).  Backtracking decides nothing else: `\b` admits at most
one of the two names, `[^>]*>` stops at the first `>`, and `.*?` stops at
the first closing tag.

So `strip_thinking_blocks` is two deletions of functions
(`stripThinkingBlocks_eq`): all complete blocks, and then everything from
the first opening tag that is LEFT — which may be one that only came
together when a block in its middle was removed.
-/
import InferenceDriver.Thinking.Stream

namespace InferenceDriver.Thinking

open Backtrack (Re Cursor run first eat)

variable (U : Ucd)

/-- How a captured name is compared with the name of a closing tag. -/
def simpleIs (p c : Char) : Bool := U.simpleLower c == p

/-- The name at the head of a text that begins with `<`. -/
def tagName (s : Text) : Text := (s.drop 1).takeWhile U.word

/-- The text after the complete block at the head of a text, as
`_THINK_BLOCK_RE` delimits it. -/
def blockAfter (s : Text) : Option Text :=
  (opens U U.foldMatch s).bind fun x =>
    afterBlock (simpleIs U) ((tagName U s).map U.simpleLower) x.2

/-- What `_THINK_TAIL_RE` leaves of a text that begins with an opening tag. -/
def tailAfter (s : Text) : Option Text := (opens U U.foldMatch s).map fun _ => []

variable {U}

/-! ## Literals -/

theorem run_lit (w : String) (k : Cursor Char) :
    run (flavour U) (lit U w) k =
      match eat U.foldMatch w.toList k.prev k.rest with
      | none => []
      | some (prev, rest) => [⟨prev, rest, k.group⟩] := by
  have h : ∀ (ps : List Char) (prev : Option Char) (s : Text),
      eat (fun p c => p c) (ps.map U.foldMatch) prev s = eat U.foldMatch ps prev s := by
    intro ps
    induction ps with
    | nil => intro prev s; rfl
    | cons p ps ih =>
        intro prev s
        cases s with
        | nil => rfl
        | cons c cs => simp only [List.map_cons, eat, ih]
  rw [lit, Backtrack.run_chars, h]
  cases eat U.foldMatch w.toList k.prev k.rest <;> rfl

/-- The last character a literal reads is accepted for its last place. -/
theorem eat_last {ok : Char → Char → Bool} {q : Char} : ∀ {l : List Char} {prev p : Option Char}
    {s r : Text}, eat ok (l ++ [q]) prev s = some (p, r) → ∃ c, p = some c ∧ ok q c = true
  | [], _, _, [], _, h => by simp [eat] at h
  | [], _, _, c :: cs, _, h => by
      simp only [List.nil_append, eat] at h
      split at h
      · rename_i hc
        cases h
        exact ⟨c, rfl, hc⟩
      · simp at h
  | _ :: _, _, _, [], _, h => by simp [eat] at h
  | _ :: ps, _, _, c :: cs, _, h => by
      simp only [List.cons_append, eat] at h
      split at h
      · exact eat_last h
      · simp at h

theorem eat_prefix {ok : Char → Char → Bool} {ps : List Char} {prev p : Option Char} {s r : Text}
    (h : eat ok ps prev s = some (p, r)) : Words.prefixBy ok ps s = some r := by
  rw [← Words.eat_eq_prefixBy ok ps prev s, h]; rfl

theorem eat_prefix_none {ok : Char → Char → Bool} {ps : List Char} {prev : Option Char} {s : Text}
    (h : eat ok ps prev s = none) : Words.prefixBy ok ps s = none := by
  rw [← Words.eat_eq_prefixBy ok ps prev s, h]; rfl

theorem eat_lt (p : Option Char) (t : Text) :
    eat U.foldMatch "<".toList p ('<' :: t) = some (some '<', t) := by
  have h : U.foldMatch '<' '<' = true := (U.foldMatch_punct (by decide) (by decide)).mpr rfl
  show (if U.foldMatch '<' '<' then some (some '<', t) else none) = _
  rw [h]; rfl

theorem eat_ne_lt (p : Option Char) {c : Char} (t : Text) (hc : c ≠ '<') :
    eat U.foldMatch "<".toList p (c :: t) = none := by
  have h : U.foldMatch '<' c = false := by
    rw [← Bool.not_eq_true, U.foldMatch_punct (by decide) (by decide)]; exact hc
  show (if U.foldMatch '<' c then some (some c, t) else none) = _
  rw [h]; rfl

/-! ## Names -/

/-- A place of a thinking name is filled by word characters only. -/
theorem word_of_name {n : Text} (hn : n ∈ thinkNames) {p c : Char} (hp : p ∈ n)
    (h : U.foldMatch p c = true) : U.word c = true := by
  have all : n.all (fun p => decide (p.toNat < 128) && p.isAlphanum) = true := by
    rcases mem_thinkNames.mp hn with rfl | rfl <;> decide
  have hp' := List.all_eq_true.mp all p hp
  rw [Bool.and_eq_true, decide_eq_true_eq] at hp'
  exact U.word_of_foldMatch hp'.1 hp'.2 h

/-- A word read at the head of a text, with no word character behind it, is
the whole run of word characters there. -/
theorem prefix_iff_run {ok : Char → Char → Bool} : ∀ {n t t' : Text},
    (∀ p ∈ n, ∀ c, ok p c = true → U.word c = true) →
      ((Words.prefixBy ok n t = some t' ∧ t'.head?.any U.word = false) ↔
        (Words.prefixBy ok n (t.takeWhile U.word) = some [] ∧ t' = t.dropWhile U.word))
  | [], [], t', _ => by
      simp only [Words.prefixBy, List.takeWhile_nil, List.dropWhile_nil, Option.some.injEq]
      constructor
      · rintro ⟨rfl, -⟩; exact ⟨trivial, rfl⟩
      · rintro ⟨-, rfl⟩; exact ⟨rfl, rfl⟩
  | [], c :: cs, t', _ => by
      simp only [Words.prefixBy, Option.some.injEq, List.takeWhile_cons, List.dropWhile_cons]
      cases hc : U.word c with
      | true =>
          constructor
          · rintro ⟨rfl, h⟩; simp [hc] at h
          · rintro ⟨h, -⟩; simp at h
      | false =>
          constructor
          · rintro ⟨rfl, -⟩; simp
          · rintro ⟨-, rfl⟩; simp [hc]
  | p :: ps, [], t', _ => by simp [Words.prefixBy]
  | p :: ps, c :: cs, t', h => by
      have ih := @prefix_iff_run ok ps cs t'
        fun q hq => h q (List.mem_cons_of_mem _ hq)
      simp only [Words.prefixBy]
      by_cases hp : ok p c = true
      · have hw := h p List.mem_cons_self c hp
        simp only [hp, hw, if_true, List.takeWhile_cons, List.dropWhile_cons, Words.prefixBy]
        exact ih
      · simp only [hp, List.takeWhile_cons]
        cases U.word c <;> simp [Words.prefixBy, hp]

variable (U) in
/-- The way through a word, as the list the matcher keeps. -/
def reads (n : Text) (p : Option Char) (t : Text) (g : Option Text) : List (Cursor Char) :=
  match eat U.foldMatch n p t with
  | none => []
  | some (p', t') => [⟨p', t', g⟩]

variable (U) in
/-- The test `\b` makes at a cursor. -/
def boundAt (k : Cursor Char) : Bool := Backtrack.atBound U.word k.prev k.rest

/-- A name followed by `\b` is the whole run of word characters. -/
theorem reads_bound {n : Text} (hn : n ∈ thinkNames) (p : Option Char) (t : Text)
    (g : Option Text) :
    ∃ last, (reads U n p t g).filter (boundAt U) =
      if Words.prefixBy U.foldMatch n (t.takeWhile U.word) = some [] then
        [⟨last, t.dropWhile U.word, g⟩] else [] := by
  have hw : ∀ q ∈ n, ∀ c, U.foldMatch q c = true → U.word c = true :=
    fun q hq c => word_of_name hn hq
  cases he : eat U.foldMatch n p t with
  | none =>
      refine ⟨none, ?_⟩
      rw [if_neg]
      · simp only [reads, he, List.filter_nil]
      · intro h
        obtain ⟨h', -⟩ := (prefix_iff_run hw).mpr ⟨h, rfl⟩
        rw [eat_prefix_none he] at h'
        cases h'
  | some x =>
      obtain ⟨p', t'⟩ := x
      refine ⟨p', ?_⟩
      have hp : Words.prefixBy U.foldMatch n t = some t' := eat_prefix he
      obtain ⟨c, rfl, hc⟩ : ∃ c, p' = some c ∧ U.word c = true := by
        rcases mem_thinkNames.mp hn with rfl | rfl
        · obtain ⟨c, hc, h⟩ := eat_last (l := "thinkin".toList) (q := 'g') he
          exact ⟨c, hc, hw 'g' (by decide) c h⟩
        · obtain ⟨c, hc, h⟩ := eat_last (l := "thin".toList) (q := 'k') he
          exact ⟨c, hc, hw 'k' (by decide) c h⟩
      have hb : boundAt U ⟨some c, t', g⟩ = !(t'.head?.any U.word) := by
        simp only [boundAt, Backtrack.atBound, Option.any_some, hc]
        cases Option.any U.word t'.head? <;> rfl
      cases ha : t'.head?.any U.word with
      | true =>
          rw [if_neg]
          · simp only [reads, he, List.filter_cons, hb, ha, Bool.not_true, Bool.false_eq_true,
              if_false, List.filter_nil]
          · intro h
            obtain ⟨h', hd⟩ := (prefix_iff_run hw).mpr ⟨h, rfl⟩
            rw [hp] at h'
            cases h'
            rw [ha] at hd
            cases hd
      | false =>
          obtain ⟨h, rfl⟩ := (prefix_iff_run hw).mp ⟨hp, ha⟩
          rw [if_pos h]
          simp only [reads, he, List.filter_cons, hb, ha, Bool.not_false, if_true, List.filter_nil]

variable (U) in
/-- `think(?:ing)?`. -/
def nameRe : Re Char := .seq (lit U "think") (.opt (lit U "ing"))

theorem eat_concat {ok : Char → Char → Bool} : ∀ (ps qs : List Char) (p : Option Char) (s : Text),
    eat ok (ps ++ qs) p s = (eat ok ps p s).bind fun x => eat ok qs x.1 x.2
  | [], _, _, _ => rfl
  | _ :: _, _, _, [] => rfl
  | q :: ps, qs, _, c :: cs => by
      simp only [List.cons_append, eat]
      split
      · exact eat_concat ps qs (some c) cs
      · rfl

/-- The longer name is tried first. -/
theorem run_nameRe (p : Option Char) (t : Text) (g : Option Text) :
    run (flavour U) (nameRe U) ⟨p, t, g⟩ =
      reads U "thinking".toList p t g ++ reads U "think".toList p t g := by
  have split : "thinking".toList = "think".toList ++ "ing".toList := by decide
  rw [nameRe, run, run_lit, reads, reads, split, eat_concat]
  cases eat U.foldMatch "think".toList p t with
  | none => rfl
  | some x =>
      simp only [List.flatMap_cons, List.flatMap_nil, List.append_nil, Option.bind_some, Re.opt, run,
        run_lit]

/-- The ways through a name and `\b`: one, when the run of word characters
spells a thinking name. -/
theorem name_bound (p : Option Char) (t : Text) (g : Option Text) :
    ∃ last, (run (flavour U) (nameRe U) ⟨p, t, g⟩).filter (boundAt U) =
      match named U.foldMatch (t.takeWhile U.word) with
      | none => []
      | some _ => [⟨last, t.dropWhile U.word, g⟩] := by
  have hthinking : "thinking".toList ∈ thinkNames := by decide
  have hthink : "think".toList ∈ thinkNames := by decide
  obtain ⟨l₁, h₁⟩ := reads_bound hthinking p t g
  obtain ⟨l₂, h₂⟩ := reads_bound hthink p t g
  rw [run_nameRe, List.filter_append, h₁, h₂]
  by_cases hl : Words.prefixBy U.foldMatch "thinking".toList (t.takeWhile U.word) = some []
  · have hs : ¬ Words.prefixBy U.foldMatch "think".toList (t.takeWhile U.word) = some [] := by
      intro hs
      have e := (Words.prefixBy_length hl).symm.trans (Words.prefixBy_length hs)
      exact absurd e (by decide)
    rw [if_pos hl, if_neg hs, named_of_prefix hthinking hl]
    exact ⟨l₁, rfl⟩
  · rw [if_neg hl]
    by_cases hs : Words.prefixBy U.foldMatch "think".toList (t.takeWhile U.word) = some []
    · rw [if_pos hs, named_of_prefix hthink hs]
      exact ⟨l₂, rfl⟩
    · rw [if_neg hs]
      cases hn : named U.foldMatch (t.takeWhile U.word) with
      | none => exact ⟨none, rfl⟩
      | some n =>
          obtain ⟨hm, hp⟩ := named_mem hn
          rcases mem_thinkNames.mp hm with rfl | rfl
          · exact absurd hp hl
          · exact absurd hp hs

/-! ## The block pattern -/

theorem flatMap_bound (r : Re Char) : ∀ l : List (Cursor Char),
    l.flatMap (run (flavour U) (.seq .bound r)) =
      (l.filter (boundAt U)).flatMap (run (flavour U) r)
  | [] => rfl
  | k :: l => by
      rw [List.flatMap_cons, flatMap_bound r l, List.filter_cons, run, run]
      show List.flatMap _ (if boundAt U k then [k] else []) ++ _ = _
      cases boundAt U k with
      | true => simp only [if_true, List.flatMap_cons, List.flatMap_nil, List.append_nil]
      | false => simp only [Bool.false_eq_true, if_false, List.flatMap_nil, List.nil_append]

/-- The group and `\b`: the name that is captured is the run of word
characters. -/
theorem run_group_bound (r : Re Char) (p : Option Char) (t : Text) :
    ∃ last, run (flavour U) (.seq (.group (nameRe U)) (.seq .bound r)) ⟨p, t, none⟩ =
      match named U.foldMatch (t.takeWhile U.word) with
      | none => []
      | some _ => run (flavour U) r ⟨last, t.dropWhile U.word, some (t.takeWhile U.word)⟩ := by
  obtain ⟨last, h⟩ := name_bound p t none
  refine ⟨last, ?_⟩
  have hb : ∀ g : Cursor Char → Option Text,
      (boundAt U ∘ fun k : Cursor Char => { k with group := g k }) = boundAt U := fun _ => rfl
  rw [run, flatMap_bound, run, List.filter_map, hb, h]
  cases named U.foldMatch (t.takeWhile U.word) with
  | none => rfl
  | some _ =>
      have hlen : t.take (t.length - (t.dropWhile U.word).length) = t.takeWhile U.word := by
        have e := List.takeWhile_append_dropWhile (p := U.word) (l := t)
        have hl := congrArg List.length e
        rw [List.length_append] at hl
        have take : ∀ a b : Text, a ++ b = t → t.take a.length = a := by
          rintro a b rfl; exact List.take_left
        rw [show t.length - (t.dropWhile U.word).length = (t.takeWhile U.word).length by omega]
        exact take _ _ e
      simp only [List.map_cons, List.map_nil, List.flatMap_cons, List.flatMap_nil, List.append_nil,
        hlen]

theorem run_lit_gt : run (flavour U) (lit U ">") = run (flavour U) (.chr fun c => c == '>') := by
  funext k
  obtain ⟨p, s, g⟩ := k
  rw [run_lit, run]
  cases s with
  | nil => rfl
  | cons c cs =>
      have hc : U.foldMatch '>' c = (c == '>') := by
        rw [Bool.eq_iff_iff, U.foldMatch_punct (by decide) (by decide), beq_iff_eq]
      have he : eat U.foldMatch ">".toList p (c :: cs) =
          if U.foldMatch '>' c then some (some c, cs) else none := rfl
      rw [he, hc]
      show _ = if (c == '>') = true then [Cursor.mk (some c) cs g] else []
      cases c == '>' <;> rfl

/-- `[^>]*>` reads up to the first `>`. -/
theorem run_to_gt (r : Re Char) (p : Option Char) (t : Text) (g : Option Text) :
    run (flavour U) (.seq (.star fun c => !(c == '>')) (.seq (lit U ">") r)) ⟨p, t, g⟩ =
      match Backtrack.after (fun c => c == '>') t with
      | none => []
      | some (c, rest) => run (flavour U) r ⟨some c, rest, g⟩ := by
  have hs := Backtrack.star_chr (flavour U) (fun c => c == '>') g t p
  rw [run]
  show List.flatMap (fun k => (run (flavour U) (lit U ">") k).flatMap (run (flavour U) r))
    (Backtrack.greedy (fun c => !(c == '>')) g p t) = _
  rw [← List.flatMap_assoc, run_lit_gt, hs]
  cases Backtrack.after (fun c => c == '>') t with
  | none => rfl
  | some x => simp only [List.flatMap_cons, List.flatMap_nil, List.append_nil]

/-- `</\1>`. -/
theorem run_close (w : Text) (p : Option Char) (s : Text) :
    ((run (flavour U) (.seq (lit U "</") (.seq .backref (lit U ">"))) ⟨p, s, some w⟩).head?).map
        (·.rest) =
      Words.prefixBy (simpleIs U) (closeTag (w.map U.simpleLower)) s := by
  have hpunct : ∀ q : Char, q ≠ 'i' → U.foldMatch q = simpleIs U q := by
    intro q hq
    have : (q == 'i') = false := by simpa using hq
    funext c
    simp only [Ucd.foldMatch, simpleIs, this, Bool.false_and, Bool.or_false]
  have hlit : ∀ (ps : Text) (u : Text), 'i' ∉ ps →
      Words.prefixBy U.foldMatch ps u = Words.prefixBy (simpleIs U) ps u := by
    intro ps u hps
    exact Words.prefixBy_congr fun q hq c _ => by
      rw [hpunct q fun e => hps (e ▸ hq)]
  have hback : ∀ (ps u : Text) (q : Option Char), (eat (flavour U).same ps q u).map (·.2) =
      Words.prefixBy (simpleIs U) (ps.map U.simpleLower) u := by
    intro ps
    induction ps with
    | nil => intro u q; rfl
    | cons a ps ih =>
        intro u q
        cases u with
        | nil => rfl
        | cons c cs =>
            have e : (flavour U).same a c = simpleIs U (U.simpleLower a) c := by
              simp only [flavour, simpleIs, Bool.beq_comm]
            simp only [eat, List.map_cons, Words.prefixBy, e]
            split
            · exact ih cs (some c)
            · rfl
  have h₁ := hlit "</".toList s (by decide)
  rw [run, run_lit, closeTag, Words.prefixBy_concat, Words.prefixBy_concat, ← h₁,
    ← Words.eat_eq_prefixBy U.foldMatch _ p s]
  cases eat U.foldMatch "</".toList p s with
  | none => rfl
  | some x =>
      have h₂ := hback w x.2 x.1
      simp only [List.flatMap_cons, List.flatMap_nil, List.append_nil, Option.map_some,
        Option.bind_some, run]
      rw [← h₂]
      cases eat (flavour U).same w x.1 x.2 with
      | none => rfl
      | some y =>
          simp only [List.flatMap_cons, List.flatMap_nil, List.append_nil, Option.map_some,
            Option.bind_some]
          rw [run_lit, ← hlit ">".toList y.2 (by decide), ← Words.eat_eq_prefixBy U.foldMatch _ y.1]
          cases eat U.foldMatch ">".toList y.1 y.2 <;> rfl

/-- The first place where a word is read. -/
theorem search_upto (ok : Char → Char → Bool) (n : Text) : ∀ s : Text,
    Backtrack.search (Words.prefixBy ok (closeTag n)) s = afterClose ok n s
  | [] => by
      have h : Words.prefixBy ok (closeTag n) [] = none := by
        cases h : closeTag n with
        | nil => exact absurd h (closeTag_ne_nil n)
        | cons _ _ => rfl
      simp only [Backtrack.search, afterClose, closeAt, Words.findBy, h, Option.isSome_none,
        Bool.false_eq_true, if_false, Option.map_none]
  | c :: cs => by
      have ih := search_upto ok n cs
      cases h : Words.prefixBy ok (closeTag n) (c :: cs) with
      | none =>
          simp only [Backtrack.search, h, ih, afterClose, closeAt, Words.findBy, Option.none_or,
            Option.isSome_none, Bool.false_eq_true, if_false, Option.map_map]
          cases Words.findBy ok (closeTag n) cs with
          | none => rfl
          | some j =>
              simp only [Option.map_some, Function.comp_apply, Nat.add_right_comm j 1,
                List.drop_succ_cons]
      | some r =>
          simp only [Backtrack.search, h, afterClose, closeAt, Words.findBy, Option.isSome_some,
            if_true, Option.map_some, Nat.zero_add, Option.some_or, Words.prefixBy_drop h]

/-- **The block pattern matches what a block is.** -/
theorem first_thinkBlockRe (prev : Option Char) (s : Text) :
    (first (flavour U) (thinkBlockRe U) ⟨prev, s, none⟩).map (·.rest) = blockAfter U s := by
  rw [first, thinkBlockRe, run, run_lit]
  cases s with
  | nil => rfl
  | cons c t =>
      by_cases hc : c = '<'
      · subst hc
        have he := eat_lt (U := U) prev t
        obtain ⟨last, h⟩ := run_group_bound (U := U) (.seq (.star fun c => !(c == '>'))
          (.seq (lit U ">") (.seq (.lazyStar fun _ => true) (.seq (lit U "</")
            (.seq .backref (lit U ">")))))) (some '<') t
        simp only [he, List.flatMap_cons, List.flatMap_nil, List.append_nil]
        rw [← nameRe, h, blockAfter]
        simp only [opens, if_true]
        cases named U.foldMatch (t.takeWhile U.word) with
        | none => rfl
        | some n =>
            simp only [run_to_gt, Option.map_some, Option.bind_some, afterBlock, afterGt]
            cases Backtrack.after (fun c => c == '>') (t.dropWhile U.word) with
            | none => rfl
            | some x =>
                have := Backtrack.reluctant_search (run_close (U := U) (t.takeWhile U.word)) x.2
                  (some x.1)
                rw [search_upto] at this
                exact this
      · simp only [eat_ne_lt prev t hc, blockAfter, opens, if_neg hc, List.flatMap_nil]
        rfl

/-! ## The tail pattern -/

theorem flatMap_head {α β : Type} {l : List α} {x : α} {f : α → List β} {y : β}
    (hl : l.head? = some x) (hf : f x = [y]) : (l.flatMap f).head? = some y := by
  obtain ⟨l', rfl⟩ := List.head?_eq_some_iff.mp hl
  simp only [List.flatMap_cons, hf, List.singleton_append, List.head?_cons]

/-- `.*$` takes the rest of the text. -/
theorem first_all (p : Option Char) (t : Text) (g : Option Text) :
    ((run (flavour U) (.seq (.star fun _ => true) .eos) ⟨p, t, g⟩).head?).map (·.rest) =
      some [] := by
  obtain ⟨last, h⟩ := Backtrack.greedy_all_head g t p
  have h' : ((run (flavour U) (.star fun _ => true) ⟨p, t, g⟩).flatMap
      (run (flavour U) .eos)).head? = some ⟨last, [], g⟩ := flatMap_head h rfl
  rw [run, h']; rfl

theorem lit_think (p : Option Char) (s : Text) (g : Option Text) :
    run (flavour U) (lit U "<think") ⟨p, s, g⟩ =
      (run (flavour U) (lit U "<") ⟨p, s, g⟩).flatMap (run (flavour U) (lit U "think")) := by
  have split : "<think".toList = "<".toList ++ "think".toList := by decide
  rw [run_lit, run_lit, split, eat_concat]
  cases eat U.foldMatch "<".toList p s with
  | none => rfl
  | some x =>
      simp only [Option.bind_some, List.flatMap_cons, List.flatMap_nil, List.append_nil, run_lit]

/-- **The tail pattern takes an opening tag and everything after it.** -/
theorem first_thinkTailRe (prev : Option Char) (s : Text) :
    (first (flavour U) (thinkTailRe U) ⟨prev, s, none⟩).map (·.rest) = tailAfter U s := by
  have hassoc : run (flavour U) (thinkTailRe U) ⟨prev, s, none⟩ =
      (run (flavour U) (lit U "<") ⟨prev, s, none⟩).flatMap fun k =>
        ((run (flavour U) (nameRe U) k).filter (boundAt U)).flatMap
          (run (flavour U) (.seq (.star fun _ => true) .eos)) := by
    rw [thinkTailRe, run, lit_think, List.flatMap_assoc]
    congr 1
    funext k
    rw [← flatMap_bound, nameRe, run, List.flatMap_assoc]
    rfl
  rw [first, hassoc, run_lit]
  cases s with
  | nil => rfl
  | cons c t =>
      by_cases hc : c = '<'
      · subst hc
        obtain ⟨last, h⟩ := name_bound (U := U) (some '<') t none
        have he := eat_lt (U := U) prev t
        simp only [he, List.flatMap_cons, List.flatMap_nil, List.append_nil, h, tailAfter, opens,
          if_true]
        cases named U.foldMatch (t.takeWhile U.word) with
        | none => rfl
        | some n =>
            simp only [List.flatMap_cons, List.flatMap_nil, List.append_nil, Option.map_some,
              first_all]
      · simp only [eat_ne_lt prev t hc, tailAfter, opens, if_neg hc, List.flatMap_nil]
        rfl

/-- **`strip_thinking_blocks` as two deletions.** -/
theorem stripThinkingBlocks_eq (s : Text) :
    stripThinkingBlocks U s =
      strip (Backtrack.cut (tailAfter U) (Backtrack.cut (blockAfter U) s)) := by
  rw [stripThinkingBlocks, Backtrack.sub_eq_cut first_thinkBlockRe,
    Backtrack.sub_eq_cut first_thinkTailRe]

end InferenceDriver.Thinking

/-
# `Lib.Backtrack` — a backtracking regular-expression matcher, as the list of its successes

A backtracking engine tries the alternatives of a pattern in a fixed order
and returns the first way through.  Here a pattern denotes the LIST of all
ways through, in the order an engine tries them, so the engine's answer is
the head of the list: sequencing is `flatMap`, an alternative is `++`, a
greedy repetition lists the longest run first and a lazy one the shortest.
The order carries all of the backtracking, and nothing else has to be
modelled.

Only single characters are repeated (`[^>]*`, `.*`, `.*?`), which is what
keeps `run` structural, and there is one capturing group.

`sub` deletes every match, left to right, as a substitution by the empty
string does.  Its equations live in `cut`, which forgets the fuel: a
pattern that does not look at the character before it is a function `m`
from the rest of the text to the rest after the match, and `sub` is then
`cut m` (`sub_eq_cut`).
-/
import Mathlib.Data.List.Basic

namespace Backtrack

variable {α β : Type}

/-- How an engine compares characters: `word` for `\b`, `same` for a
backreference, `newline` for the newline `$` may stand before. -/
structure Flavour (α : Type) where
  word : α → Bool
  same : α → α → Bool
  newline : α → Bool

/-- Where a match stands: the character just consumed, the text still to
read, and what the group captured. -/
structure Cursor (α : Type) where
  prev : Option α
  rest : List α
  group : Option (List α) := none

inductive Re (α : Type) where
  | eps
  | chr (p : α → Bool)
  | seq (r s : Re α)
  | alt (r s : Re α)
  | star (p : α → Bool)
  | lazyStar (p : α → Bool)
  | group (r : Re α)
  | backref
  | bound
  | eos

/-- A literal: one class after another. -/
def Re.chars (ps : List (α → Bool)) : Re α :=
  ps.foldr (fun p r => .seq (.chr p) r) .eps

/-- `r?`, greedy. -/
def Re.opt (r : Re α) : Re α := .alt r .eps

/-- `p*`: the longest run first. -/
def greedy (p : α → Bool) (g : Option (List α)) : Option α → List α → List (Cursor α)
  | prev, [] => [⟨prev, [], g⟩]
  | prev, c :: cs =>
      if p c then greedy p g (some c) cs ++ [⟨prev, c :: cs, g⟩]
      else [⟨prev, c :: cs, g⟩]

theorem greedy_nil (p : α → Bool) (g : Option (List α)) (prev : Option α) : greedy p g prev [] = [⟨prev, [], g⟩] := rfl

theorem greedy_cons (p : α → Bool) (g : Option (List α)) (prev : Option α) (c : α) (cs : List α) :
    greedy p g prev (c :: cs) =
      if p c then greedy p g (some c) cs ++ [⟨prev, c :: cs, g⟩] else [⟨prev, c :: cs, g⟩] := rfl

/-- `p*?`: the shortest run first. -/
def reluctant (p : α → Bool) (g : Option (List α)) : Option α → List α → List (Cursor α)
  | prev, [] => [⟨prev, [], g⟩]
  | prev, c :: cs =>
      ⟨prev, c :: cs, g⟩ :: if p c then reluctant p g (some c) cs else []

/-- A word eaten character by character, each one accepted by `ok` for its
place in the pattern; the last character read is kept. -/
def eat (ok : β → α → Bool) : List β → Option α → List α → Option (Option α × List α)
  | [], prev, s => some (prev, s)
  | _ :: _, _, [] => none
  | g :: gs, _, c :: cs => if ok g c then eat ok gs (some c) cs else none

/-- `\b`: exactly one of the two neighbours is a word character. -/
def atBound (word : α → Bool) (prev : Option α) (rest : List α) : Bool :=
  (prev.any word) != (rest.head?.any word)

/-- Every way through a pattern from a cursor, in the order it is tried. -/
def run (F : Flavour α) : Re α → Cursor α → List (Cursor α)
  | .eps, k => [k]
  | .chr p, k =>
      match k.rest with
      | [] => []
      | c :: cs => if p c then [⟨some c, cs, k.group⟩] else []
  | .seq r s, k => (run F r k).flatMap (run F s)
  | .alt r s, k => run F r k ++ run F s k
  | .star p, k => greedy p k.group k.prev k.rest
  | .lazyStar p, k => reluctant p k.group k.prev k.rest
  | .group r, k =>
      (run F r k).map fun k' =>
        { k' with group := some (k.rest.take (k.rest.length - k'.rest.length)) }
  | .backref, k =>
      match k.group with
      | none => []
      | some g =>
          match eat F.same g k.prev k.rest with
          | none => []
          | some (prev, rest) => [⟨prev, rest, k.group⟩]
  | .bound, k => if atBound F.word k.prev k.rest then [k] else []
  | .eos, k =>
      match k.rest with
      | [] => [k]
      | [c] => if F.newline c then [k] else []
      | _ => []

theorem run_chr_nil (F : Flavour α) (p : α → Bool) (prev : Option α) (g : Option (List α)) :
    run F (.chr p) ⟨prev, [], g⟩ = [] := rfl

theorem run_chr_cons (F : Flavour α) (p : α → Bool) (prev : Option α) (c : α) (cs : List α) (g : Option (List α)) :
    run F (.chr p) ⟨prev, c :: cs, g⟩ = if p c then [⟨some c, cs, g⟩] else [] := rfl

theorem run_seq (F : Flavour α) (r s : Re α) (k : Cursor α) :
    run F (.seq r s) k = (run F r k).flatMap (run F s) := rfl

/-- The match at a cursor: the first way through. -/
def first (F : Flavour α) (r : Re α) (k : Cursor α) : Option (Cursor α) :=
  (run F r k).head?

/-- Substitution by the empty text, left to right.  An empty match deletes
nothing, so the character at hand is copied. -/
def subAux (F : Flavour α) (r : Re α) : Nat → Option α → List α → List α
  | 0, _, s => s
  | _ + 1, _, [] => []
  | n + 1, prev, c :: cs =>
      match first F r ⟨prev, c :: cs, none⟩ with
      | some k =>
          if k.rest.length ≤ cs.length then subAux F r n k.prev k.rest
          else c :: subAux F r n (some c) cs
      | none => c :: subAux F r n (some c) cs

/-- Every iteration reads a character, so the length is fuel enough. -/
def sub (F : Flavour α) (r : Re α) (s : List α) : List α :=
  subAux F r s.length none s

/-! ## Deleting the matches of a function -/

/-- Delete what `m` matches, left to right; `m s` is the text after the
match that starts at the head of `s`. -/
def cut (m : List α → Option (List α)) : List α → List α
  | [] => []
  | c :: cs =>
      match m (c :: cs) with
      | some r => if _ : r.length ≤ cs.length then cut m r else c :: cut m cs
      | none => c :: cut m cs
  termination_by s => s.length
  decreasing_by all_goals simp_wf <;> omega

@[simp] theorem cut_nil (m : List α → Option (List α)) : cut m [] = [] := by
  rw [cut]

theorem cut_cons (m : List α → Option (List α)) (c : α) (cs : List α) :
    cut m (c :: cs) =
      (m (c :: cs)).elim (c :: cut m cs) fun r => if r.length ≤ cs.length then cut m r else c :: cut m cs := by
  rw [cut]
  cases m (c :: cs) with
  | none => rfl
  | some r => rfl

theorem cut_cons_none {m : List α → Option (List α)} {c : α} {cs : List α}
    (h : m (c :: cs) = none) : cut m (c :: cs) = c :: cut m cs := by
  rw [cut_cons, h, Option.elim_none]

theorem cut_cons_some {m : List α → Option (List α)} {c : α} {cs r : List α}
    (h : m (c :: cs) = some r) (hr : r.length ≤ cs.length) :
    cut m (c :: cs) = cut m r := by
  rw [cut_cons, h, Option.elim_some, if_pos hr]

/-- A match that reads nothing deletes nothing. -/
theorem cut_cons_empty {m : List α → Option (List α)} {c : α} {cs r : List α}
    (h : m (c :: cs) = some r) (hr : ¬ r.length ≤ cs.length) :
    cut m (c :: cs) = c :: cut m cs := by
  rw [cut_cons, h, Option.elim_some, if_neg hr]

/-- A pattern whose match does not depend on the character before it
deletes exactly what its match function says. -/
theorem subAux_eq_cut {F : Flavour α} {r : Re α} {m : List α → Option (List α)}
    (hm : ∀ prev s, (first F r ⟨prev, s, none⟩).map (·.rest) = m s) :
    ∀ (n : Nat) (prev : Option α) (s : List α), s.length ≤ n →
      subAux F r n prev s = cut m s := by
  intro n
  induction n with
  | zero =>
      intro prev s hs
      have : s = [] := List.length_eq_zero_iff.mp (by omega)
      subst this
      simp [subAux]
  | succ n ih =>
      intro prev s hs
      cases s with
      | nil => simp [subAux]
      | cons c cs =>
          have hc := hm prev (c :: cs)
          have hcs : cs.length ≤ n := by simpa using hs
          cases hf : first F r ⟨prev, c :: cs, none⟩ with
          | none =>
              rw [hf] at hc
              rw [cut_cons_none hc.symm]
              simp only [subAux, hf]
              rw [ih (some c) cs hcs]
          | some k =>
              rw [hf] at hc
              have hk : m (c :: cs) = some k.rest := hc.symm
              by_cases hl : k.rest.length ≤ cs.length
              · rw [cut_cons_some hk hl]
                simp only [subAux, hf, if_pos hl]
                exact ih k.prev k.rest (by omega)
              · rw [cut_cons_empty hk hl]
                simp only [subAux, hf, if_neg hl]
                rw [ih (some c) cs hcs]

theorem sub_eq_cut {F : Flavour α} {r : Re α} {m : List α → Option (List α)}
    (hm : ∀ prev s, (first F r ⟨prev, s, none⟩).map (·.rest) = m s) (s : List α) :
    sub F r s = cut m s :=
  subAux_eq_cut hm s.length none s (Nat.le_refl _)

/-! ## The rules a caller computes a match with -/

variable (F : Flavour α)

/-- A literal has one way through or none. -/
theorem run_chars : ∀ (ps : List (α → Bool)) (k : Cursor α),
    run F (Re.chars ps) k =
      match eat (fun p c => p c) ps k.prev k.rest with
      | none => []
      | some (prev, rest) => [⟨prev, rest, k.group⟩]
  | [], _ => rfl
  | p :: ps, ⟨prev, [], g⟩ => rfl
  | p :: ps, ⟨prev, c :: cs, g⟩ => by
      have ih := run_chars ps ⟨some c, cs, g⟩
      simp only [Re.chars, List.foldr_cons, run, eat] at ih ⊢
      by_cases hp : p c = true
      · simpa only [hp, if_true, List.flatMap_cons, List.flatMap_nil, List.append_nil] using ih
      · simp [hp]

/-- The text after the first character that `q` accepts. -/
def after (q : α → Bool) : List α → Option (α × List α)
  | [] => none
  | c :: cs => if q c then some (c, cs) else after q cs

theorem after_nil (q : α → Bool) : after q [] = none := rfl

theorem after_cons (q : α → Bool) (c : α) (cs : List α) :
    after q (c :: cs) = if q c then some (c, cs) else after q cs := rfl

/-- A greedy run of everything but `q`, then one `q`: the run ends at the
first `q`, since the engine can neither pass it nor stop before it. -/
theorem star_chr (q : α → Bool) (g : Option (List α)) :
    ∀ (s : List α) (prev : Option α),
      (greedy (fun c => !q c) g prev s).flatMap (run F (.chr q)) =
        match after q s with
        | none => []
        | some (c, rest) => [⟨some c, rest, g⟩]
  | [], _ => rfl
  | c :: cs, prev => by
      by_cases hq : q c = true
      · simp [greedy_cons, hq, run_chr_cons, after_cons]
      · have ih := star_chr q g cs (some c)
        simp only [greedy_cons, hq, Bool.not_false, if_true, List.flatMap_append, ih, after_cons]
        cases after q cs <;> simp [run_chr_cons, hq]

/-- The first place from which `m` matches, and what it leaves. -/
def search (m : List α → Option (List α)) : List α → Option (List α)
  | [] => m []
  | c :: cs => (m (c :: cs)).or (search m cs)

/-- A lazy run of anything, then a pattern `k` that does not look back:
the first place where `k` matches. -/
theorem reluctant_search {k : Cursor α → List (Cursor α)} {m : List α → Option (List α)}
    {g : Option (List α)}
    (hm : ∀ prev s, ((k ⟨prev, s, g⟩).head?).map (·.rest) = m s) :
    ∀ (s : List α) (prev : Option α),
      (((reluctant (fun _ => true) g prev s).flatMap k).head?).map (·.rest) = search m s
  | [], prev => by simp [reluctant, search, hm]
  | c :: cs, prev => by
      have ih := reluctant_search hm cs (some c)
      have hc := hm prev (c :: cs)
      simp only [reluctant, if_true, List.flatMap_cons, List.head?_append, search, ← hc]
      cases hk : (k ⟨prev, c :: cs, g⟩).head? with
      | none => simpa using ih
      | some x => simp

/-- What a greedy run of anything tries first is the whole text. -/
theorem greedy_all_head (g : Option (List α)) : ∀ (s : List α) (prev : Option α),
    ∃ last, (greedy (fun _ => true) g prev s).head? = some ⟨last, [], g⟩
  | [], prev => ⟨prev, rfl⟩
  | c :: cs, prev => by
      obtain ⟨last, h⟩ := greedy_all_head g cs (some c)
      exact ⟨last, by simp [greedy_cons, List.head?_append, h]⟩

/-- What a greedy run leaves: the text, after any part of it that is of the class. -/
theorem mem_greedy {p : α → Bool} {g : Option (List α)} : ∀ {s : List α} {prev : Option α} {rest : List α},
    (∃ k ∈ greedy p g prev s, k.rest = rest) ↔ ∃ u, (∀ c ∈ u, p c = true) ∧ s = u ++ rest
  | [], prev, rest => by
      rw [greedy_nil]
      constructor
      · rintro ⟨k, hk, rfl⟩
        rw [List.mem_singleton.mp hk]
        exact ⟨[], fun c hc => (by cases hc), rfl⟩
      · rintro ⟨u, -, hs⟩
        exact ⟨_, List.mem_cons_self, (List.append_eq_nil_iff.mp hs.symm).2.symm⟩
  | c :: cs, prev, rest => by
      have hstop : ∀ {k : Cursor α}, k = ⟨prev, c :: cs, g⟩ → k.rest = rest →
          ∃ u, (∀ d ∈ u, p d = true) ∧ c :: cs = u ++ rest := by
        rintro k rfl hrest
        exact ⟨[], fun d hd => (by cases hd), hrest⟩
      rw [greedy_cons]
      cases hc : p c with
      | false =>
          rw [if_neg Bool.false_ne_true]
          constructor
          · rintro ⟨k, hk, hrest⟩
            exact hstop (List.mem_singleton.mp hk) hrest
          · rintro ⟨u, hu, hs⟩
            cases u with
            | nil => exact ⟨_, List.mem_cons_self, hs⟩
            | cons d u =>
                rw [List.cons_append, List.cons.injEq] at hs
                exact absurd (hu d List.mem_cons_self) (by rw [← hs.1, hc]; exact Bool.false_ne_true)
      | true =>
          rw [if_pos rfl]
          constructor
          · rintro ⟨k, hk, hrest⟩
            rcases List.mem_append.mp hk with hk | hk
            · obtain ⟨u, hu, hs⟩ := mem_greedy.mp ⟨k, hk, hrest⟩
              refine ⟨c :: u, fun d hd => ?_, by rw [hs, List.cons_append]⟩
              rcases List.mem_cons.mp hd with rfl | hd
              · exact hc
              · exact hu d hd
            · exact hstop (List.mem_singleton.mp hk) hrest
          · rintro ⟨u, hu, hs⟩
            cases u with
            | nil => exact ⟨_, List.mem_append_right _ List.mem_cons_self, hs⟩
            | cons d u =>
                rw [List.cons_append, List.cons.injEq] at hs
                obtain ⟨k, hk, hrest⟩ := mem_greedy.mpr ⟨u, fun d hd => hu d (List.mem_cons_of_mem _ hd), hs.2⟩
                exact ⟨k, List.mem_append_left _ hk, hrest⟩

/-- `p+$`: one or more of the class, and the end, which may stand before a newline. -/
theorem first_plus_eos {F : Flavour α} {p : α → Bool} {prev : Option α} {s : List α} {g : Option (List α)} :
    (first F (.seq (.chr p) (.seq (.star p) .eos)) ⟨prev, s, g⟩).isSome = true ↔
      ∃ u, u ≠ [] ∧ (∀ c ∈ u, p c = true) ∧ (s = u ∨ ∃ n, F.newline n = true ∧ s = u ++ [n]) := by
  have hend : ∀ k : Cursor α, run F .eos k ≠ [] ↔ k.rest = [] ∨ ∃ n, F.newline n = true ∧ k.rest = [n] := by
    rintro ⟨prev', rest, g'⟩
    rcases rest with _ | ⟨c, _ | ⟨d, rest⟩⟩
    · simp [run]
    · simp [run]
    · simp [run]
  rw [first, List.isSome_head?, run_seq]
  cases s with
  | nil =>
      rw [run_chr_nil]
      constructor
      · intro h
        exact absurd rfl h
      · rintro ⟨u, hu, -, hs | ⟨n, -, hs⟩⟩
        · exact absurd hs.symm hu
        · exact absurd hs.symm (List.append_ne_nil_of_right_ne_nil u (List.cons_ne_nil n []))
  | cons c cs =>
      rw [run_chr_cons]
      cases hc : p c with
      | false =>
          rw [if_neg Bool.false_ne_true, List.flatMap_nil]
          constructor
          · intro h
            exact absurd rfl h
          · rintro ⟨u, hu, hall, hs⟩
            cases u with
            | nil => exact absurd rfl hu
            | cons d u =>
                have hd : c = d := by
                  rcases hs with hs | ⟨n, -, hs⟩
                  · exact (List.cons.inj hs).1
                  · exact (List.cons.inj hs).1
                exact absurd (hall d List.mem_cons_self) (by rw [← hd, hc]; exact Bool.false_ne_true)
      | true =>
          rw [if_pos rfl, List.flatMap_singleton, run_seq, Ne, List.flatMap_eq_nil_iff, not_forall]
          constructor
          · rintro ⟨k, hk⟩
            rw [Classical.not_imp] at hk
            obtain ⟨u, hu, hs⟩ := mem_greedy.mp ⟨k, hk.1, rfl⟩
            have hs : cs = u ++ k.rest := hs
            have hall : ∀ d ∈ c :: u, p d = true := by
              intro d hd
              rcases List.mem_cons.mp hd with rfl | hd
              · exact hc
              · exact hu d hd
            refine ⟨c :: u, List.cons_ne_nil c u, hall, ?_⟩
            rcases (hend k).mp hk.2 with hrest | ⟨n, hn, hrest⟩
            · left
              rw [hs, hrest, List.append_nil]
            · refine Or.inr ⟨n, hn, ?_⟩
              rw [hs, hrest, List.cons_append]
          · rintro ⟨u, hu, hall, hs⟩
            cases u with
            | nil => exact absurd rfl hu
            | cons d u =>
                have hu : ∀ e ∈ u, p e = true := fun e he => hall e (List.mem_cons_of_mem _ he)
                rcases hs with hs | ⟨n, hn, hs⟩
                · obtain ⟨k, hk, hrest⟩ := mem_greedy.mpr
                    ⟨u, hu, (List.cons.inj hs).2.trans (List.append_nil u).symm⟩
                  exact ⟨k, Classical.not_imp.mpr ⟨hk, (hend k).mpr (Or.inl hrest)⟩⟩
                · obtain ⟨k, hk, hrest⟩ := mem_greedy.mpr ⟨u, hu, (List.cons.inj hs).2⟩
                  exact ⟨k, Classical.not_imp.mpr ⟨hk, (hend k).mpr (Or.inr ⟨n, hn, hrest⟩)⟩⟩

end Backtrack

/-
# `Lib.Words` — searching a text and trimming it

Substring search (`find`), the same search when a pattern is compared
through a map `f` that sends a character to a short word (`findBy`,
`find_flatMap`), and the two trims (`strip`).

The lemma about `flatMap` is the one that matters: searching the IMAGE of
a text and using the index found as an index into the TEXT is right only
as far as every character in front of the hit has an image of length one.
`find_flatMap` says what the index counts: the length of the image of what
precedes the hit.
-/
import Mathlib.Data.List.DropRight
import InferenceDriver.Lib.Backtrack

namespace Words

variable {α β : Type}

/-- The rest of a text once a word has been read at its head, each place
of the word accepting a character by `ok`. -/
def prefixBy (ok : β → α → Bool) : List β → List α → Option (List α)
  | [], s => some s
  | _ :: _, [] => none
  | p :: ps, c :: cs => if ok p c then prefixBy ok ps cs else none

theorem prefixBy_nil (ok : β → α → Bool) (s : List α) : prefixBy ok [] s = some s := rfl

theorem prefixBy_cons_nil (ok : β → α → Bool) (p : β) (ps : List β) : prefixBy ok (p :: ps) [] = none := rfl

theorem prefixBy_cons_cons (ok : β → α → Bool) (p : β) (ps : List β) (c : α) (cs : List α) :
    prefixBy ok (p :: ps) (c :: cs) = if ok p c then prefixBy ok ps cs else none := rfl

theorem prefixBy_length {ok : β → α → Bool} : ∀ {ps : List β} {s r : List α},
    prefixBy ok ps s = some r → s.length = ps.length + r.length
  | [], s, r, h => by simp only [prefixBy_nil, Option.some.injEq] at h; simp [h]
  | _ :: _, [], r, h => by simp [prefixBy_cons_nil] at h
  | p :: ps, c :: cs, r, h => by
      simp only [prefixBy_cons_cons] at h
      split at h
      · have := prefixBy_length h
        simp only [List.length_cons]; omega
      · simp at h

theorem prefixBy_drop {ok : β → α → Bool} : ∀ {ps : List β} {s r : List α},
    prefixBy ok ps s = some r → s.drop ps.length = r
  | [], _, _, h => Option.some.inj h
  | _ :: _, [], r, h => by simp [prefixBy_cons_nil] at h
  | p :: ps, c :: cs, r, h => by
      simp only [prefixBy_cons_cons] at h
      split at h
      · show cs.drop ps.length = r
        exact prefixBy_drop h
      · simp at h

/-- Reading a word and then some more text: what is behind the word plays
no part in whether it is there. -/
theorem prefixBy_append {ok : β → α → Bool} : ∀ {ps : List β} {s r : List α} (t : List α),
    prefixBy ok ps s = some r → prefixBy ok ps (s ++ t) = some (r ++ t)
  | [], s, r, t, h => by simp only [prefixBy_nil, Option.some.injEq] at h ⊢; rw [h]
  | _ :: _, [], r, t, h => by simp [prefixBy_cons_nil] at h
  | p :: ps, c :: cs, r, t, h => by
      simp only [prefixBy_cons_cons, List.cons_append] at h ⊢
      split at h
      · rename_i hp
        rw [if_pos hp]
        exact prefixBy_append t h
      · simp at h

/-- A text long enough to hold the word decides whether it is there. -/
theorem prefixBy_append_none {ok : β → α → Bool} : ∀ {ps : List β} {s : List α} (t : List α),
    prefixBy ok ps s = none → ps.length ≤ s.length → prefixBy ok ps (s ++ t) = none
  | [], s, t, h, _ => by simp [prefixBy_nil] at h
  | _ :: _, [], t, _, hl => by simp at hl
  | p :: ps, c :: cs, t, h, hl => by
      simp only [prefixBy_cons_cons, List.cons_append] at h ⊢
      split at h
      · rename_i hp
        rw [if_pos hp]
        exact prefixBy_append_none t h (by simpa using hl)
      · rename_i hp
        rw [if_neg hp]

theorem prefixBy_congr {ok ok' : β → α → Bool} : ∀ {ps : List β} {s : List α},
    (∀ p ∈ ps, ∀ c ∈ s, ok p c = ok' p c) → prefixBy ok ps s = prefixBy ok' ps s
  | [], _, _ => rfl
  | _ :: _, [], _ => rfl
  | p :: ps, c :: cs, h => by
      simp only [prefixBy_cons_cons, h p List.mem_cons_self c List.mem_cons_self]
      split
      · exact prefixBy_congr fun q hq d hd =>
          h q (List.mem_cons_of_mem _ hq) d (List.mem_cons_of_mem _ hd)
      · rfl

theorem prefixBy_mono {ok ok' : β → α → Bool} (h : ∀ p c, ok p c = true → ok' p c = true) :
    ∀ {ps : List β} {s r : List α}, prefixBy ok ps s = some r → prefixBy ok' ps s = some r
  | [], _, _, hp => hp
  | _ :: _, [], _, hp => by simp [prefixBy_cons_nil] at hp
  | p :: ps, c :: cs, r, hp => by
      simp only [prefixBy_cons_cons] at hp ⊢
      split at hp
      · rename_i hc
        rw [if_pos (h p c hc)]
        exact prefixBy_mono h hp
      · simp at hp

/-- A word that is read to the end of a text is the text, each character
mapped to the place it fills. -/
theorem prefixBy_map {ok : β → α → Bool} {f : α → β} (h : ∀ p c, ok p c = true → f c = p) :
    ∀ {ps : List β} {s : List α}, prefixBy ok ps s = some [] → s.map f = ps
  | [], s, hp => by
      have : s = [] := Option.some.inj hp
      rw [this]; rfl
  | _ :: _, [], hp => by simp [prefixBy_cons_nil] at hp
  | p :: ps, c :: cs, hp => by
      simp only [prefixBy_cons_cons] at hp
      split at hp
      · rename_i hc
        rw [List.map_cons, h p c hc, prefixBy_map h hp]
      · simp at hp

theorem prefixBy_concat {ok : β → α → Bool} : ∀ (ps qs : List β) (s : List α),
    prefixBy ok (ps ++ qs) s = (prefixBy ok ps s).bind (prefixBy ok qs)
  | [], _, _ => rfl
  | _ :: _, _, [] => rfl
  | p :: ps, qs, c :: cs => by
      simp only [List.cons_append, prefixBy_cons_cons]
      split
      · exact prefixBy_concat ps qs cs
      · rfl

theorem eat_eq_prefixBy (ok : β → α → Bool) : ∀ (ps : List β) (prev : Option α) (s : List α),
    (Backtrack.eat ok ps prev s).map (·.2) = prefixBy ok ps s
  | [], _, _ => rfl
  | _ :: _, _, [] => rfl
  | p :: ps, _, c :: cs => by
      simp only [Backtrack.eat, prefixBy_cons_cons]
      split
      · exact eat_eq_prefixBy ok ps (some c) cs
      · rfl

/-! ## Substring search -/

/-- The index of the first occurrence of a word. -/
def find [DecidableEq β] (pat : List β) : List β → Option Nat
  | [] => if pat = [] then some 0 else none
  | c :: cs => if pat.isPrefixOf (c :: cs) then some 0 else (find pat cs).map (· + 1)

/-- The first place where a word is read through `ok`. -/
def findBy (ok : β → α → Bool) (pat : List β) : List α → Option Nat
  | [] => if (prefixBy ok pat []).isSome then some 0 else none
  | c :: cs =>
      if (prefixBy ok pat (c :: cs)).isSome then some 0 else (findBy ok pat cs).map (· + 1)

theorem findBy_nil (ok : β → α → Bool) (pat : List β) :
    findBy ok pat [] = if (prefixBy ok pat []).isSome then some 0 else none := rfl

theorem findBy_cons (ok : β → α → Bool) (pat : List β) (c : α) (cs : List α) :
    findBy ok pat (c :: cs) =
      if (prefixBy ok pat (c :: cs)).isSome then some 0 else (findBy ok pat cs).map (· + 1) := rfl

/-- Text in front of which the word does not begin is skipped. -/
theorem findBy_drop {ok : β → α → Bool} {pat : List β} : ∀ {d : Nat} {s : List α},
    d ≤ s.length → (∀ i < d, prefixBy ok pat (s.drop i) = none) →
      findBy ok pat s = (findBy ok pat (s.drop d)).map (· + d)
  | 0, s, _, _ => by simp
  | d + 1, [], hd, _ => by simp at hd
  | d + 1, c :: cs, hd, h => by
      have h₀ : prefixBy ok pat (c :: cs) = none := by simpa using h 0 (Nat.succ_pos d)
      have ih := findBy_drop (d := d) (s := cs) (by simpa using hd)
        fun i hi => by simpa using h (i + 1) (by omega)
      simp only [findBy_cons, h₀, Option.isSome_none, Bool.false_eq_true, if_false, List.drop_succ_cons,
        ih, Option.map_map]
      congr 1

/-- `findBy` stops at the first hit: there is one there, and none before. -/
theorem findBy_some {ok : β → α → Bool} {pat : List β} : ∀ {s : List α} {j : Nat},
    findBy ok pat s = some j →
      (prefixBy ok pat (s.drop j)).isSome ∧
        ∀ i < j, prefixBy ok pat (s.drop i) = none
  | [], j, h => by
      simp only [findBy_nil] at h
      split at h
      · cases h; simpa using ‹_›
      · simp at h
  | c :: cs, j, h => by
      simp only [findBy_cons] at h
      split at h
      · rename_i hp
        cases h
        exact ⟨by simpa using hp, fun i hi => absurd hi (Nat.not_lt_zero i)⟩
      · rename_i hp
        obtain ⟨k, hk, rfl⟩ := Option.map_eq_some_iff.mp h
        obtain ⟨hit, before⟩ := findBy_some hk
        refine ⟨by simpa using hit, fun i hi => ?_⟩
        cases i with
        | zero => simpa using hp
        | succ i => simpa using before i (by omega)

theorem findBy_none {ok : β → α → Bool} {pat : List β} : ∀ {s : List α},
    findBy ok pat s = none → ∀ i, prefixBy ok pat (s.drop i) = none
  | [], h, i => by
      simp only [findBy_nil] at h
      split at h
      · simp at h
      · rename_i hp
        simpa using hp
  | c :: cs, h, i => by
      simp only [findBy_cons] at h
      split at h
      · simp at h
      · rename_i hp
        cases i with
        | zero => simpa using hp
        | succ i => simpa using findBy_none (Option.map_eq_none_iff.mp h) i

theorem findBy_length {ok : β → α → Bool} {pat : List β} : ∀ {s : List α} {j : Nat},
    findBy ok pat s = some j → j + pat.length ≤ s.length
  | [], j, h => by
      simp only [findBy_nil] at h
      split at h
      · rename_i hp
        obtain ⟨r, hr⟩ := Option.isSome_iff_exists.mp hp
        have := prefixBy_length hr
        cases h
        simp only [List.length_nil] at this ⊢
        omega
      · simp at h
  | c :: cs, j, h => by
      simp only [findBy_cons] at h
      split at h
      · rename_i hp
        obtain ⟨r, hr⟩ := Option.isSome_iff_exists.mp hp
        have := prefixBy_length hr
        cases h
        omega
      · obtain ⟨k, hk, rfl⟩ := Option.map_eq_some_iff.mp h
        have := findBy_length hk
        simp only [List.length_cons]
        omega

/-- What is found stays the first hit when text is appended. -/
theorem findBy_append {ok : β → α → Bool} {pat : List β} (t : List α) :
    ∀ {s : List α} {j : Nat}, findBy ok pat s = some j → findBy ok pat (s ++ t) = some j
  | [], j, h => by
      simp only [findBy_nil] at h
      split at h
      · rename_i hp
        cases pat with
        | nil => cases h; cases t <;> simp [findBy_nil, findBy_cons, prefixBy_nil]
        | cons p ps => simp [prefixBy_cons_nil] at hp
      · simp at h
  | c :: cs, j, h => by
      have hl := findBy_length h
      simp only [findBy_cons] at h
      split at h
      · rename_i hp
        obtain ⟨r, hr⟩ := Option.isSome_iff_exists.mp hp
        have := prefixBy_append t hr
        cases h
        rw [List.cons_append] at this ⊢
        simp [findBy_cons, this]
      · rename_i hp
        obtain ⟨k, hk, rfl⟩ := Option.map_eq_some_iff.mp h
        have hn := prefixBy_append_none t (by simpa using hp) (by omega)
        rw [List.cons_append] at hn ⊢
        simp [findBy_cons, hn, findBy_append t hk]

theorem findBy_congr {ok ok' : β → α → Bool} {pat : List β} : ∀ {s : List α},
    (∀ p ∈ pat, ∀ c ∈ s, ok p c = ok' p c) → findBy ok pat s = findBy ok' pat s
  | [], h => by simp only [findBy_nil, prefixBy_congr h]
  | c :: cs, h => by
      simp only [findBy_cons, prefixBy_congr h,
        findBy_congr fun p hp d hd => h p hp d (List.mem_cons_of_mem _ hd)]

/-- A word as the classes of its characters. -/
theorem prefixBy_literal [DecidableEq α] : ∀ (ps s : List α),
    prefixBy (fun (p : α → Bool) c => p c) (ps.map fun p c => decide (p = c)) s =
      prefixBy (fun p c => p = c) ps s
  | [], s => rfl
  | _ :: _, [] => rfl
  | p :: ps, c :: cs => by
      rw [List.map_cons, prefixBy_cons_cons, prefixBy_cons_cons, prefixBy_literal ps cs]

theorem prefixBy_mem [DecidableEq α] : ∀ {ps s r : List α},
    prefixBy (fun p c => p = c) ps s = some r → ∀ c ∈ ps, c ∈ s
  | [], _, _, _, c, hc => by cases hc
  | _ :: _, [], r, h, _, _ => by cases h
  | p :: ps, c :: cs, r, h, d, hd => by
      simp only [prefixBy_cons_cons] at h
      split at h
      · rename_i hp
        rcases List.mem_cons.mp hd with rfl | hd
        · rw [of_decide_eq_true hp]
          exact List.mem_cons_self
        · exact List.mem_cons_of_mem _ (prefixBy_mem h d hd)
      · cases h

/-- A word with a character that the text does not have is not in it. -/
theorem findBy_eq_none [DecidableEq α] {pat s : List α} {c : α} (hp : c ∈ pat) (hs : c ∉ s) :
    findBy (fun p c => p = c) pat s = none := by
  cases hf : findBy (fun p c => p = c) pat s with
  | none => rfl
  | some j =>
      obtain ⟨r, hr⟩ := Option.isSome_iff_exists.mp (findBy_some hf).1
      exact absurd (List.mem_of_mem_drop (prefixBy_mem hr c hp)) hs

/-- Text without the first character of a word is skipped. -/
theorem findBy_append_of_not_mem [DecidableEq α] {p : α} (ps : List α) :
    ∀ {s : List α} (t : List α), p ∉ s →
      findBy (fun p c => p = c) (p :: ps) (s ++ t) =
        (findBy (fun p c => p = c) (p :: ps) t).map (· + s.length)
  | [], t, _ => by simp
  | c :: cs, t, h => by
      rw [List.mem_cons, not_or] at h
      obtain ⟨hc, hs⟩ := h
      have ih := findBy_append_of_not_mem ps t hs
      have hnone : prefixBy (fun p c => p = c) (p :: ps) (c :: (cs ++ t)) = none := by
        rw [prefixBy_cons_cons, if_neg (by simpa using hc)]
      rw [List.cons_append, findBy_cons, hnone, ih, if_neg (by simp), Option.map_map]
      simp [Function.comp_def, Nat.add_assoc]

/-- Every character has an image of one character, or of two of which the
second is not in the word and the first does not end it: an occurrence of
the word in the image then begins and ends between characters. -/
def Whole (f : α → List β) (pat : List β) : Prop :=
  ∀ c, (∃ d, f c = [d]) ∨ ∃ x y, f c = [x, y] ∧ y ∉ pat ∧ pat.getLast? ≠ some x

theorem Whole.tail {f : α → List β} {p : β} {ps : List β} (h : Whole f (p :: ps)) :
    Whole f ps := by
  intro e
  rcases h e with hd | ⟨x, y, he, hy, hl⟩
  · exact Or.inl hd
  · refine Or.inr ⟨x, y, he, fun hm => hy (List.mem_cons_of_mem _ hm), ?_⟩
    cases ps with
    | nil => simp
    | cons q qs => simpa [List.getLast?_cons_cons] using hl

section Image
variable [DecidableEq β]

/-- A character accepted at a place of the word: its image is that place. -/
def maps (f : α → List β) (p : β) (c : α) : Bool := f c = [p]

theorem isPrefixOf_flatMap {f : α → List β} : ∀ {pat : List β} {s : List α},
    Whole f pat → pat.isPrefixOf (s.flatMap f) = (prefixBy (maps f) pat s).isSome
  | [], _, _ => by simp [prefixBy_nil]
  | p :: ps, [], _ => by simp [prefixBy_cons_nil]
  | p :: ps, c :: cs, h => by
      have hps : Whole f ps := h.tail
      rcases h c with ⟨d, hd⟩ | ⟨x, y, he, hy, hl⟩
      · have ih := isPrefixOf_flatMap (s := cs) hps
        simp only [List.flatMap_cons, hd, List.singleton_append, List.isPrefixOf_cons_cons,
          prefixBy_cons_cons, maps, List.cons.injEq, and_true, decide_eq_true_eq]
        by_cases hpd : p = d
        · simp [hpd, ih]
        · simp [hpd, Ne.symm hpd]
      · have hm : maps f p c = false := by simp [maps, he]
        simp only [List.flatMap_cons, he, List.cons_append, List.nil_append,
          List.isPrefixOf_cons_cons, prefixBy_cons_cons, hm]
        by_cases hpx : p = x
        · cases ps with
          | nil => exact absurd (by simp [hpx]) hl
          | cons q qs =>
              have hqy : q ≠ y := fun e => hy (by simp [e])
              simp [List.isPrefixOf_cons_cons, hqy]
        · simp [hpx]

/-- A word that is read across the end of `a` begins with the image of `a`. -/
theorem image_of_straddle {f : α → List β} : ∀ {pat : List β} {a b : List α},
    (prefixBy (maps f) pat (a ++ b)).isSome → a.length ≤ pat.length →
      (a.flatMap f).isPrefixOf pat = true ∧ (a.flatMap f).length = a.length
  | _, [], _, _, _ => by simp
  | [], _ :: _, _, _, hl => by simp at hl
  | p :: ps, c :: cs, b, h, hl => by
      simp only [List.cons_append, prefixBy_cons_cons] at h
      split at h
      · rename_i hp
        obtain ⟨h₁, h₂⟩ := image_of_straddle h (by simpa using hl)
        have hc : f c = [p] := by simpa [maps] using hp
        constructor
        · simpa [hc] using h₁
        · simp [hc, h₂]
      · simp at h

/-- A text spells a word through `f` when its image is the word. -/
theorem flatMap_eq_iff {f : α → List β} : ∀ {pat : List β} {s : List α},
    Whole f pat → (∀ c, f c ≠ []) → (s.flatMap f = pat ↔ prefixBy (maps f) pat s = some [])
  | [], [], _, _ => by simp [prefixBy_nil]
  | [], c :: cs, _, hne => by simp [prefixBy_nil, hne c]
  | p :: ps, [], _, _ => by simp [prefixBy_cons_nil]
  | p :: ps, c :: cs, h, hne => by
      have hps : Whole f ps := h.tail
      rcases h c with ⟨d, hd⟩ | ⟨x, y, he, hy, -⟩
      · have ih := flatMap_eq_iff (s := cs) hps hne
        simp only [List.flatMap_cons, hd, List.singleton_append, List.cons.injEq, prefixBy_cons_cons,
          maps, and_true, decide_eq_true_eq]
        by_cases hpd : d = p
        · simp [hpd, ih]
        · simp [hpd]
      · have hm : maps f p c = false := by simp [maps, he]
        simp only [List.flatMap_cons, he, List.cons_append, List.nil_append, List.cons.injEq,
          prefixBy_cons_cons, hm, Bool.false_eq_true, if_false, reduceCtorEq, iff_false, not_and]
        rintro - rfl
        exact hy (by simp)

/-- **What an index into the image counts.**  The first occurrence of the
word in the image of `s` is at the image of the text before the first
place where the word is read in `s`. -/
theorem find_flatMap {f : α → List β} {pat : List β} (hne : pat ≠ []) (h : Whole f pat) :
    ∀ s : List α, find pat (s.flatMap f) =
      (findBy (maps f) pat s).map fun j => ((s.take j).flatMap f).length
  | [] => by
      cases pat with
      | nil => exact absurd rfl hne
      | cons p ps => simp [find, findBy_nil, prefixBy_cons_nil]
  | c :: cs => by
      have ih := find_flatMap hne h cs
      have hpre := isPrefixOf_flatMap (s := c :: cs) h
      have hstep : ∀ o : Option Nat,
          (o.map fun j => ((cs.take j).flatMap f).length).map (· + (f c).length) =
            (o.map (· + 1)).map fun j => (((c :: cs).take j).flatMap f).length := by
        intro o
        cases o with
        | none => rfl
        | some j => simp [Nat.add_comm]
      rcases h c with ⟨d, hd⟩ | ⟨x, y, he, hy, hl⟩
      · simp only [List.flatMap_cons, hd, List.singleton_append] at hpre ⊢
        simp only [find, findBy_cons, hpre, ih]
        split
        · simp
        · simpa [hd] using hstep (findBy (maps f) pat cs)
      · simp only [List.flatMap_cons, he, List.cons_append, List.nil_append] at hpre ⊢
        have hno : (prefixBy (maps f) pat (c :: cs)).isSome = false := by
          cases pat with
          | nil => exact absurd rfl hne
          | cons p ps => simp [prefixBy_cons_cons, maps, he]
        have hy' : pat.isPrefixOf (y :: cs.flatMap f) = false := by
          cases pat with
          | nil => exact absurd rfl hne
          | cons p ps =>
              have : p ≠ y := fun e => hy (by simp [e])
              simp [List.isPrefixOf_cons_cons, this]
        simp only [find, findBy_cons, hpre, hno, hy', ih, Bool.false_eq_true, if_false]
        have := hstep (findBy (maps f) pat cs)
        simp only [he, List.length_cons, List.length_nil] at this
        rw [← this]
        cases findBy (maps f) pat cs <;> simp

/-- Behind characters with one-character images, the index counts
characters. -/
theorem find_flatMap_of_single {f : α → List β} {pat : List β} (hne : pat ≠ [])
    (h : Whole f pat) {s : List α}
    (hs : ∀ j, findBy (maps f) pat s = some j → ∀ c ∈ s.take j, (f c).length = 1) :
    find pat (s.flatMap f) = findBy (maps f) pat s := by
  rw [find_flatMap hne h]
  cases hj : findBy (maps f) pat s with
  | none => rfl
  | some j =>
      have hle : j ≤ s.length := by
        by_contra hgt
        have hit := (findBy_some hj).1
        have hbefore := (findBy_some hj).2 s.length (by omega)
        rw [List.drop_eq_nil_of_le (by omega)] at hit hbefore
        simp [hbefore] at hit
      have hone : ∀ l : List α, (∀ c ∈ l, (f c).length = 1) → (l.flatMap f).length = l.length := by
        intro l
        induction l with
        | nil => intro _; rfl
        | cons c cs ih =>
            intro hl
            have hc := hl c List.mem_cons_self
            have hcs := ih fun d hd => hl d (List.mem_cons_of_mem _ hd)
            simp only [List.flatMap_cons, List.length_append, hcs, hc, List.length_cons]
            omega
      rw [Option.map_some, hone _ (hs j hj), List.length_take, Nat.min_eq_left hle]

end Image

/-! ## Trimming -/

/-- Both ends trimmed of the characters in `sp`. -/
def strip (sp : α → Bool) (s : List α) : List α := (s.dropWhile sp).rdropWhile sp

@[simp] theorem strip_nil (sp : α → Bool) : strip sp ([] : List α) = [] := rfl

/-- A character that is not trimmed keeps everything between it and the
front in place. -/
theorem rdropWhile_append_cons {sp : α → Bool} {x : α} (hx : sp x = false) (a b : List α) :
    (a ++ x :: b).rdropWhile sp = a ++ x :: b.rdropWhile sp := by
  induction b using List.reverseRecOn with
  | nil => simp [hx]
  | append_singleton b c ih =>
      have e : a ++ x :: (b ++ [c]) = (a ++ x :: b) ++ [c] := by simp
      rw [e, List.rdropWhile_concat, List.rdropWhile_concat]
      split
      · exact ih
      · simp

theorem dropWhile_append_cons {sp : α → Bool} {x : α} (hx : sp x = false) (a b : List α) :
    ∃ a', (a ++ x :: b).dropWhile sp = a' ++ x :: b ∧ a.dropWhile sp = a' := by
  induction a with
  | nil => exact ⟨[], by simp [hx], rfl⟩
  | cons c cs ih =>
      by_cases hc : sp c = true
      · simpa [List.dropWhile_cons, hc] using ih
      · exact ⟨c :: cs, by simp [hc], by simp [hc]⟩

/-- A trim takes away trimmed characters only. -/
theorem countP_strip (sp : α → Bool) (s : List α) :
    (strip sp s).countP (fun c => !sp c) = s.countP fun c => !sp c := by
  have hd : ∀ l : List α, (l.dropWhile sp).countP (fun c => !sp c) = l.countP fun c => !sp c := by
    intro l
    induction l with
    | nil => rfl
    | cons c cs ih =>
        cases hc : sp c with
        | true => rw [List.dropWhile_cons_of_pos hc, ih, List.countP_cons_of_neg (by simp [hc])]
        | false => rw [List.dropWhile_cons_of_neg (by simp [hc])]
  have hr : ∀ l : List α, (l.rdropWhile sp).countP (fun c => !sp c) = l.countP fun c => !sp c := by
    intro l
    rw [List.rdropWhile, List.countP_reverse, hd, List.countP_reverse]
  rw [strip, hr, hd]

/-- The trim around a character that is not trimmed. -/
theorem strip_append_cons {sp : α → Bool} {x : α} (hx : sp x = false) (a b : List α) :
    strip sp (a ++ x :: b) = a.dropWhile sp ++ x :: b.rdropWhile sp := by
  obtain ⟨a', h, rfl⟩ := dropWhile_append_cons hx a b
  rw [strip, h, rdropWhile_append_cons hx]

/-- A text that goes on with a character that is not trimmed has a longer
trim: the two cannot be equal. -/
theorem strip_append_cons_ne {sp : α → Bool} {x : α} (hx : sp x = false) (a b : List α) :
    strip sp (a ++ x :: b) ≠ strip sp a := by
  intro h
  have hl := congrArg List.length h
  rw [strip_append_cons hx] at hl
  have hle : (strip sp a).length ≤ (a.dropWhile sp).length :=
    (List.rdropWhile_prefix sp _).length_le
  simp only [List.length_append, List.length_cons] at hl
  omega

theorem strip_idem (sp : α → Bool) (s : List α) : strip sp (strip sp s) = strip sp s := by
  by_cases h : ∃ x ∈ s, sp x = false
  · obtain ⟨x, hm, hx⟩ := h
    obtain ⟨a, b, rfl⟩ := List.append_of_mem hm
    rw [strip_append_cons hx, strip_append_cons hx]
    have h1 : (a.dropWhile sp).dropWhile sp = a.dropWhile sp := List.dropWhile_idempotent sp a
    have h2 : (b.rdropWhile sp).rdropWhile sp = b.rdropWhile sp := List.rdropWhile_idempotent sp b
    rw [h1, h2]
  · have hs : s.dropWhile sp = [] := by
      rw [List.dropWhile_eq_nil_iff]
      intro x hm
      by_contra hx
      exact h ⟨x, hm, by simpa using hx⟩
    simp [strip, hs]

end Words

/-
# `Lib.Search` — the first of several words, in a text that comes in pieces

A reader that stops at the first of several words looks for them again with
every piece that comes, and must not pass on an end of the text that may
still become one of them.  `Waiting` is what it has to keep of the text for
that: an end of it at least as long as any beginning of a word that the
text ends in.  Then what it finds in the part it kept is what is found in
the text so far (`Waiting.first`), whatever the pieces.

What it finds may still depend on the pieces, for a word that begins later
may be complete earlier.  `found_eq_iff` says for which texts it does not.
-/
import Mathlib.Data.List.Infix
import Mathlib.Data.Nat.Find
import InferenceDriver.Lib.Words

namespace Search

variable {α : Type}

theorem infix_iff_drop {w s : List α} : w <:+: s ↔ ∃ j, w <+: s.drop j := by
  constructor
  · rintro ⟨a, b, rfl⟩
    refine ⟨a.length, ?_⟩
    rw [List.append_assoc, List.drop_left]
    exact List.prefix_append w b
  · rintro ⟨j, hj⟩
    exact hj.isInfix.trans (List.drop_suffix j s).isInfix

/-- What is left of an end of a text when the last piece is taken off. -/
theorem take_suffix {u a b : List α} (h : u <:+ a ++ b) (hlen : b.length ≤ u.length) :
    u.take (u.length - b.length) <:+ a := by
  obtain ⟨x, hx⟩ := h
  have hlengths := congrArg List.length hx
  rw [List.length_append, List.length_append] at hlengths
  have htake := congrArg (List.take a.length) hx
  rw [List.take_left, List.take_append, List.take_of_length_le (by omega)] at htake
  exact ⟨x, by rwa [show a.length - x.length = u.length - b.length by omega] at htake⟩

variable [DecidableEq α]

/-! ## The first of several words -/

/-- The word that stands first in a text and where; of two that stand in
one place, the one that is listed first. -/
def first (words : List (List α)) (s : List α) : Option (ℕ × List α) :=
  (words.filterMap fun w => (Words.find w s).map fun i => (i, w)).minOn? (·.1)

/-- What is said of it. -/
structure First (words : List (List α)) (s : List α) (i : ℕ) (w : List α) : Prop where
  mem : w ∈ words
  here : w <+: s.drop i
  before : ∀ v ∈ words, ∀ j, v <+: s.drop j → i ≤ j
  listed : ∀ v ∈ words, v <+: s.drop i → words.idxOf w ≤ words.idxOf v

theorem find_eq_some_iff {w : List α} (hw : w ≠ []) : ∀ {s : List α} {i : ℕ},
    Words.find w s = some i ↔ w <+: s.drop i ∧ ∀ j < i, ¬ w <+: s.drop j
  | [], i => by
      rw [Words.find, if_neg hw, List.drop_nil, List.prefix_nil]
      exact ⟨fun h => (by cases h), fun h => absurd h.1 hw⟩
  | c :: cs, i => by
      rw [Words.find]
      split
      · rename_i hp
        have hp := List.isPrefixOf_iff_prefix.mp hp
        constructor
        · intro h
          cases h
          exact ⟨hp, fun j hj => absurd hj (Nat.not_lt_zero j)⟩
        · rintro ⟨-, hbefore⟩
          cases i with
          | zero => rfl
          | succ i => exact absurd hp (hbefore 0 (Nat.succ_pos i))
      · rename_i hp
        rw [List.isPrefixOf_iff_prefix] at hp
        rw [Option.map_eq_some_iff]
        constructor
        · rintro ⟨k, hk, rfl⟩
          obtain ⟨hhere, hbefore⟩ := (find_eq_some_iff hw).mp hk
          refine ⟨hhere, fun j hj => ?_⟩
          cases j with
          | zero => exact hp
          | succ j => exact hbefore j (Nat.lt_of_succ_lt_succ hj)
        · rintro ⟨hhere, hbefore⟩
          cases i with
          | zero => exact absurd hhere hp
          | succ i =>
              exact ⟨i, (find_eq_some_iff hw).mpr
                ⟨hhere, fun j hj => hbefore (j + 1) (Nat.succ_lt_succ hj)⟩, rfl⟩

theorem find_eq_none_iff {w : List α} (hw : w ≠ []) {s : List α} :
    Words.find w s = none ↔ ∀ j, ¬ w <+: s.drop j := by
  constructor
  · intro h j hj
    -- the least place is found
    have hex : ∃ j, w <+: s.drop j := ⟨j, hj⟩
    have hfound := (find_eq_some_iff hw).mpr ⟨Nat.find_spec hex, fun k hk => Nat.find_min hex hk⟩
    rw [h] at hfound
    cases hfound
  · intro h
    cases hf : Words.find w s with
    | none => rfl
    | some i => exact absurd ((find_eq_some_iff hw).mp hf).1 (h i)

theorem first_cons (w : List α) (ws : List (List α)) (s : List α) :
    first (w :: ws) s = match Words.find w s, first ws s with
      | none, p => p
      | some i, none => some (i, w)
      | some i, some p => some (if i ≤ p.1 then (i, w) else p) := by
  rw [first, List.filterMap_cons]
  cases Words.find w s with
  | none => rfl
  | some i =>
      simp only [Option.map_some]
      rw [List.minOn?_cons]
      change some (Option.elim (first ws s) _ _) = _
      cases first ws s with
      | none => rfl
      | some p => rfl

theorem not_of_first_eq_none {words : List (List α)} (hne : [] ∉ words) {s : List α}
    (h : first words s = none) : ∀ w ∈ words, ∀ j, ¬ w <+: s.drop j := by
  induction words with
  | nil => exact fun w hw => absurd hw List.not_mem_nil
  | cons v vs ih =>
      obtain ⟨hv, hvs⟩ := not_or.mp (mt List.mem_cons.mpr hne)
      rw [first_cons] at h
      cases hf : Words.find v s with
      | some i =>
          rw [hf] at h
          cases hr : first vs s with
          | none => rw [hr] at h; cases h
          | some p => rw [hr] at h; cases h
      | none =>
          rw [hf] at h
          intro w hw
          rcases List.mem_cons.mp hw with rfl | hw
          · exact (find_eq_none_iff (Ne.symm hv)).mp hf
          · exact ih hvs h w hw

theorem first_spec {words : List (List α)} (hne : [] ∉ words) {s : List α} {i : ℕ} {w : List α}
    (h : first words s = some (i, w)) : First words s i w := by
  induction words generalizing i w with
  | nil => cases h
  | cons v vs ih =>
      obtain ⟨hv, hvs⟩ := not_or.mp (mt List.mem_cons.mpr hne)
      have later : ∀ {u : List α}, u ∈ vs → u ≠ v → (v :: vs).idxOf u = vs.idxOf u + 1 := fun _ hu => by
        rw [List.idxOf_cons_ne _ (Ne.symm hu)]
      rw [first_cons] at h
      cases hf : Words.find v s with
      | none =>
          rw [hf] at h
          have hnot := (find_eq_none_iff (Ne.symm hv)).mp hf
          obtain ⟨hmem, hhere, hbefore, hlisted⟩ := ih hvs h
          have hwv : w ≠ v := fun heq => hnot i (heq ▸ hhere)
          refine ⟨List.mem_cons_of_mem _ hmem, hhere, fun u hu j hj => ?_, fun u hu hj => ?_⟩
          · rcases List.mem_cons.mp hu with rfl | hu
            · exact absurd hj (hnot j)
            · exact hbefore u hu j hj
          · rcases List.mem_cons.mp hu with rfl | hu
            · exact absurd hj (hnot i)
            · rw [later hmem hwv, later hu fun heq => hnot i (heq ▸ hj)]
              exact Nat.succ_le_succ (hlisted u hu hj)
      | some k =>
          rw [hf] at h
          obtain ⟨hk, hbeforek⟩ := (find_eq_some_iff (Ne.symm hv)).mp hf
          -- the head is found at `k`: it is first, or what is first in the tail stands before it
          have head : (∀ u ∈ vs, ∀ j, u <+: s.drop j → k ≤ j) → First (v :: vs) s k v := fun hle => by
            refine ⟨List.mem_cons_self, hk, fun u hu j hj => ?_, fun u _ _ => ?_⟩
            · rcases List.mem_cons.mp hu with rfl | hu
              · exact Nat.le_of_not_lt fun hlt => hbeforek j hlt hj
              · exact hle u hu j hj
            · rw [List.idxOf_cons_self]
              exact Nat.zero_le _
          cases hr : first vs s with
          | none =>
              rw [hr] at h
              cases h
              exact head fun u hu j hj => absurd hj (not_of_first_eq_none hvs hr u hu j)
          | some p =>
              rw [hr] at h
              obtain ⟨hmem, hhere, hbefore, hlisted⟩ := ih hvs hr
              have h := Option.some.inj h
              split at h
              · rename_i hle
                cases h
                exact head fun u hu j hj => le_trans hle (hbefore u hu j hj)
              · rename_i hlt
                have hlt := Nat.lt_of_not_le hlt
                cases h
                have hnot : ¬ v <+: s.drop i := hbeforek i hlt
                refine ⟨List.mem_cons_of_mem _ hmem, hhere, fun u hu j hj => ?_, fun u hu hj => ?_⟩
                · rcases List.mem_cons.mp hu with rfl | hu
                  · exact Nat.le_of_not_lt fun hji => hbeforek j (lt_trans hji hlt) hj
                  · exact hbefore u hu j hj
                · rcases List.mem_cons.mp hu with rfl | hu
                  · exact absurd hj hnot
                  · rw [later hmem fun heq => hnot (heq ▸ hhere), later hu fun heq => hnot (heq ▸ hj)]
                    exact Nat.succ_le_succ (hlisted u hu hj)

/-- There is one such word at most. -/
theorem First.unique {words : List (List α)} {s : List α} {i j : ℕ} {w v : List α}
    (h : First words s i w) (h' : First words s j v) : (i, w) = (j, v) := by
  have hij : i = j := le_antisymm (h.before v h'.mem j h'.here) (h'.before w h.mem i h.here)
  subst hij
  have hidx : words.idxOf w = words.idxOf v :=
    le_antisymm (h.listed v h'.mem h'.here) (h'.listed w h.mem h.here)
  rw [(List.idxOf_inj h.mem).mp hidx]

theorem first_eq_some_iff {words : List (List α)} (hne : [] ∉ words) {s : List α} {i : ℕ} {w : List α} :
    first words s = some (i, w) ↔ First words s i w := by
  refine ⟨first_spec hne, fun h => ?_⟩
  cases hf : first words s with
  | none => exact absurd h.here (not_of_first_eq_none hne hf w h.mem i)
  | some p => exact congrArg some ((first_spec hne hf).unique h)

theorem first_eq_none_iff {words : List (List α)} (hne : [] ∉ words) {s : List α} :
    first words s = none ↔ ∀ w ∈ words, ¬ w <:+: s := by
  constructor
  · intro h w hw hin
    obtain ⟨j, hj⟩ := infix_iff_drop.mp hin
    exact not_of_first_eq_none hne h w hw j hj
  · intro h
    cases hf : first words s with
    | none => rfl
    | some p =>
        have hp := first_spec hne hf
        exact absurd (infix_iff_drop.mpr ⟨_, hp.here⟩) (h _ hp.mem)

/-! ## A text that comes in pieces -/

/-- The length of the longest end of a text that is the beginning of a
word, and not all of it. -/
def held (words : List (List α)) (s : List α) : ℕ :=
  (words.flatMap fun w =>
    (List.range' 1 (min w.length (s.length + 1) - 1)).filter fun n => w.take n <:+ s).max?.getD 0

theorem le_held {words : List (List α)} {s w : List α} (hw : w ∈ words) {n : ℕ} (hn : n < w.length)
    (h : w.take n <:+ s) : n ≤ held words s := by
  cases n with
  | zero => exact Nat.zero_le _
  | succ n =>
      have hlen : n + 1 ≤ s.length := by
        have hle := h.length_le
        rwa [List.length_take_of_le (Nat.le_of_lt hn)] at hle
      have hmem : n + 1 ∈ words.flatMap fun w =>
          (List.range' 1 (min w.length (s.length + 1) - 1)).filter fun n => w.take n <:+ s := by
        refine List.mem_flatMap.mpr ⟨w, hw, List.mem_filter.mpr ⟨?_, decide_eq_true h⟩⟩
        rw [List.mem_range'_1]
        omega
      rw [held]
      exact List.le_max?_getD_of_mem hmem

theorem held_le (words : List (List α)) (s : List α) : held words s ≤ s.length := by
  rw [held]
  cases hm : (words.flatMap fun w =>
      (List.range' 1 (min w.length (s.length + 1) - 1)).filter fun n => w.take n <:+ s).max? with
  | none => exact Nat.zero_le _
  | some n =>
      obtain ⟨w, -, hn⟩ := List.mem_flatMap.mp (List.max?_mem hm)
      have hn := List.mem_range'_1.mp (List.mem_filter.mp hn).1
      rw [Option.getD_some]
      omega

/-- What a reader has passed over and what it keeps: no word has been seen,
and any beginning of one that the text ends in is kept. -/
structure Waiting (words : List (List α)) (seen kept : List α) : Prop where
  unseen : ∀ w ∈ words, ¬ w <:+: seen
  suffix : kept <:+ seen
  enough : ∀ w ∈ words, ∀ n < w.length, w.take n <:+ seen → n ≤ kept.length

omit [DecidableEq α] in
theorem waiting_nil {words : List (List α)} (hne : [] ∉ words) : Waiting words [] [] where
  unseen w hw h := hne (List.infix_nil.mp h ▸ hw)
  suffix := List.suffix_rfl
  enough w hw n hn h := by
    rw [List.suffix_nil, List.take_eq_nil_iff] at h
    rcases h with rfl | rfl
    · exact Nat.zero_le _
    · exact absurd hw hne

section

variable {words : List (List α)} {passed kept : List α}

omit [DecidableEq α] in
/-- A word that is complete with a new piece begins in what is kept. -/
theorem Waiting.begins (h : Waiting words (passed ++ kept) kept) {w piece : List α} (hw : w ∈ words) {j : ℕ}
    (hj : w <+: (passed ++ kept ++ piece).drop j) : passed.length ≤ j := by
  refine Nat.le_of_not_lt fun hlt => ?_
  have hdrop : (passed ++ kept ++ piece).drop j = (passed ++ kept).drop j ++ piece :=
    List.drop_append_of_le_length (by rw [List.length_append]; omega)
  rw [hdrop] at hj
  have hfront : (passed ++ kept).drop j <+: (passed ++ kept).drop j ++ piece := List.prefix_append _ _
  rcases Nat.lt_or_ge ((passed ++ kept).drop j).length w.length with hlen | hlen
  · -- what the text ends in from there on is a beginning of the word
    have hbegin := List.prefix_iff_eq_take.mp (List.prefix_of_prefix_length_le hfront hj (Nat.le_of_lt hlen))
    have hkept := h.enough w hw _ hlen (hbegin ▸ List.drop_suffix _ _)
    rw [List.length_drop, List.length_append] at hkept
    omega
  · have hin := List.prefix_of_prefix_length_le hj hfront hlen
    exact h.unseen w hw (hin.isInfix.trans (List.drop_suffix _ _).isInfix)

omit [DecidableEq α] in
theorem prefix_drop_shift {w rest : List α} {j : ℕ} :
    w <+: (passed ++ rest).drop (passed.length + j) ↔ w <+: rest.drop j := by
  rw [List.drop_append, List.drop_eq_nil_of_le (Nat.le_add_right _ _), Nat.add_sub_cancel_left, List.nil_append]

/-- What is found in what was kept and the new piece is what is found in the
text so far. -/
theorem Waiting.first (h : Waiting words (passed ++ kept) kept) (hne : [] ∉ words) (piece : List α) :
    Search.first words (passed ++ kept ++ piece) =
      (Search.first words (kept ++ piece)).map fun p => (passed.length + p.1, p.2) := by
  have inside : ∀ w ∈ words, ∀ j, w <+: (passed ++ kept ++ piece).drop j →
      ∃ k, j = passed.length + k ∧ w <+: (kept ++ piece).drop k := by
    intro w hw j hj
    obtain ⟨k, rfl⟩ := Nat.exists_eq_add_of_le (h.begins hw hj)
    rw [List.append_assoc] at hj
    exact ⟨k, rfl, prefix_drop_shift.mp hj⟩
  cases hf : Search.first words (kept ++ piece) with
  | none =>
      refine (first_eq_none_iff hne).mpr fun w hw hin => ?_
      obtain ⟨j, hj⟩ := infix_iff_drop.mp hin
      obtain ⟨k, -, hk⟩ := inside w hw j hj
      exact (first_eq_none_iff hne).mp hf w hw (infix_iff_drop.mpr ⟨k, hk⟩)
  | some p =>
      have hp := first_spec hne hf
      refine (first_eq_some_iff hne).mpr ⟨hp.mem, ?_, fun v hv j hj => ?_, fun v hv hj => ?_⟩
      · rw [List.append_assoc]
        exact prefix_drop_shift.mpr hp.here
      · obtain ⟨k, rfl, hk⟩ := inside v hv j hj
        exact Nat.add_le_add_left (hp.before v hv k hk) _
      · rw [List.append_assoc] at hj
        exact hp.listed v hv (prefix_drop_shift.mp hj)

/-- Where nothing is found, the longest end that may become a word is kept. -/
theorem Waiting.next (h : Waiting words (passed ++ kept) kept) (hne : [] ∉ words) {piece : List α}
    (hnone : Search.first words (kept ++ piece) = none) :
    Waiting words (passed ++ kept ++ piece)
      ((kept ++ piece).drop ((kept ++ piece).length - held words (kept ++ piece))) where
  unseen := (first_eq_none_iff hne).mp (by rw [h.first hne, hnone]; rfl)
  suffix := by
    rw [List.append_assoc]
    exact (List.drop_suffix _ _).trans (List.suffix_append _ _)
  enough w hw n hn hend := by
    have hlen := held_le words (kept ++ piece)
    have hword : (w.take n).length = n := List.length_take_of_le (Nat.le_of_lt hn)
    have hfits : n ≤ (kept ++ piece).length := by
      rcases Nat.lt_or_ge n piece.length with hshort | hlong
      · rw [List.length_append]
        omega
      · -- the part of the beginning that lies in front of the piece was kept
        have hpart := take_suffix hend (hlong.trans_eq hword.symm)
        rw [hword, List.take_take, Nat.min_eq_left (Nat.sub_le _ _)] at hpart
        have hkept := h.enough w hw _ (by omega) hpart
        rw [List.length_append]
        omega
    have hin : w.take n <:+ kept ++ piece := by
      rw [List.append_assoc] at hend
      exact List.suffix_of_suffix_length_le hend (List.suffix_append _ _) (hword.trans_le hfits)
    rw [List.length_drop]
    exact le_trans (le_held hw hn hin) (by omega)

end

/-! ## Where the pieces do not matter -/

/-- What is found in a text that comes in pieces, and the text in front of it. -/
def found (words : List (List α)) (seen : List α) : List (List α) → Option (List α × List α)
  | [] => none
  | piece :: pieces =>
      match first words (seen ++ piece) with
      | some (i, w) => some ((seen ++ piece).take i, w)
      | none => found words (seen ++ piece) pieces

/-- The word that is complete first; of those complete at one place, the longest. -/
structure Soonest (words : List (List α)) (s : List α) (i : ℕ) (w : List α) : Prop where
  mem : w ∈ words
  here : w <+: s.drop i
  soonest : ∀ v ∈ words, ∀ j, v <+: s.drop j →
    i + w.length < j + v.length ∨ i + w.length = j + v.length ∧ i ≤ j

/-- The word that is complete first stands first. -/
def Settled (words : List (List α)) (s : List α) : Prop :=
  ∀ i w, Soonest words s i w → First words s i w

omit [DecidableEq α] in
theorem prefix_drop_take {w s : List α} (hw : w ≠ []) {i e : ℕ} :
    w <+: (s.take e).drop i ↔ w <+: s.drop i ∧ i + w.length ≤ e := by
  have hpos := List.length_pos_of_ne_nil hw
  rw [List.drop_take, List.prefix_take_iff]
  exact and_congr_right fun _ => by omega

omit [DecidableEq α] in
theorem end_le {w s : List α} {i : ℕ} (hw : w ≠ []) (h : w <+: s.drop i) : i + w.length ≤ s.length := by
  have hpos := List.length_pos_of_ne_nil hw
  have hle := h.length_le
  rw [List.length_drop] at hle
  omega

section

variable {words : List (List α)} {s : List α}

/-- What stands first still does in a part of the text that it is in. -/
theorem First.take (h : First words s i w) (hne : [] ∉ words) {e : ℕ} (he : i + w.length ≤ e) :
    First words (s.take e) i w where
  mem := h.mem
  here := (prefix_drop_take fun hnil => hne (hnil ▸ h.mem)).mpr ⟨h.here, he⟩
  before v hv j hj := h.before v hv j ((prefix_drop_take fun hnil => hne (hnil ▸ hv)).mp hj).1
  listed v hv hj := h.listed v hv ((prefix_drop_take fun hnil => hne (hnil ▸ hv)).mp hj).1

/-- Up to where it is complete, the word that is complete first stands first. -/
theorem Soonest.first {i : ℕ} {w : List α} (h : Soonest words s i w) (hne : [] ∉ words) :
    First words (s.take (i + w.length)) i w where
  mem := h.mem
  here := (prefix_drop_take fun hnil => hne (hnil ▸ h.mem)).mpr ⟨h.here, le_rfl⟩
  before v hv j hj := by
    obtain ⟨hj, hend⟩ := (prefix_drop_take fun hnil => hne (hnil ▸ hv)).mp hj
    rcases h.soonest v hv j hj with hlt | ⟨-, hle⟩
    · omega
    · exact hle
  listed v hv hj := by
    obtain ⟨hj, hend⟩ := (prefix_drop_take fun hnil => hne (hnil ▸ hv)).mp hj
    have hlen : w.length = v.length := by
      rcases h.soonest v hv i hj with hlt | ⟨heq, -⟩
      · omega
      · omega
    rw [(List.prefix_of_prefix_length_le h.here hj hlen.le).eq_of_length hlen]

theorem exists_soonest {v : List α} (hv : v ∈ words) {j : ℕ} (hj : v <+: s.drop j) :
    ∃ i w, Soonest words s i w := by
  classical
  have hends : ∃ e i w, w ∈ words ∧ w <+: s.drop i ∧ i + w.length = e := ⟨_, j, v, hv, hj, rfl⟩
  obtain ⟨i, w, hw, hi, he⟩ := Nat.find_spec hends
  have hstarts : ∃ i w, w ∈ words ∧ w <+: s.drop i ∧ i + w.length = Nat.find hends := ⟨i, w, hw, hi, he⟩
  obtain ⟨w, hw, hi, he⟩ := Nat.find_spec hstarts
  refine ⟨Nat.find hstarts, w, hw, hi, fun v hv j hj => ?_⟩
  rcases (Nat.find_min' hends ⟨j, v, hv, hj, rfl⟩).lt_or_eq with hlt | heq
  · exact Or.inl (he.trans_lt hlt)
  · exact Or.inr ⟨he.trans heq, Nat.find_min' hstarts ⟨v, hv, hj, heq.symm⟩⟩

theorem found_eq_none_iff (hne : [] ∉ words) : ∀ {pieces : List (List α)} {seen : List α},
    (∀ w ∈ words, ¬ w <:+: seen) →
      (found words seen pieces = none ↔ ∀ w ∈ words, ¬ w <:+: seen ++ pieces.flatten)
  | [], seen, hseen => by
      rw [List.flatten_nil, List.append_nil]
      exact ⟨fun _ => hseen, fun _ => rfl⟩
  | piece :: pieces, seen, hseen => by
      rw [found, List.flatten_cons, ← List.append_assoc]
      cases hf : first words (seen ++ piece) with
      | none => exact found_eq_none_iff hne ((first_eq_none_iff hne).mp hf)
      | some p =>
          refine ⟨fun h => (by cases h), fun h => ?_⟩
          have hp := first_spec hne hf
          have hin := infix_iff_drop.mpr ⟨_, hp.here⟩
          exact absurd (hin.trans (List.prefix_append _ _).isInfix) (h _ hp.mem)

/-- What is found stands first in a part of the text. -/
theorem found_eq_some (hne : [] ∉ words) : ∀ {pieces : List (List α)} {seen before w : List α},
    found words seen pieces = some (before, w) →
      ∃ i e, First words ((seen ++ pieces.flatten).take e) i w ∧ i + w.length ≤ e ∧
        before = (seen ++ pieces.flatten).take i
  | [], _, _, _, h => by cases h
  | piece :: pieces, seen, before, w, h => by
      rw [found] at h
      rw [List.flatten_cons, ← List.append_assoc]
      cases hf : first words (seen ++ piece) with
      | none =>
          rw [hf] at h
          exact found_eq_some hne h
      | some p =>
          rw [hf] at h
          cases h
          have hp := first_spec hne hf
          have hend := end_le (fun hnil => hne (hnil ▸ hp.mem)) hp.here
          refine ⟨p.1, (seen ++ piece).length, ?_, hend, ?_⟩
          · rwa [List.take_left]
          · exact (List.take_append_of_le_length (by omega)).symm

theorem found_two (hne : [] ∉ words) {i : ℕ} {w : List α} (h : Soonest words s i w) :
    found words [] [s.take (i + w.length), s.drop (i + w.length)] = some (s.take i, w) := by
  rw [found, List.nil_append, (first_eq_some_iff hne).mpr (h.first hne)]
  simp only
  rw [List.take_take, Nat.min_eq_left (Nat.le_add_right _ _)]

/-- **Where a text is cut does not matter** to what is found in it if and
only if the word that is complete first stands first. -/
theorem found_eq_iff (hne : [] ∉ words) :
    (∀ pieces pieces' : List (List α), pieces.flatten = s → pieces'.flatten = s →
      found words [] pieces = found words [] pieces') ↔ Settled words s := by
  constructor
  · intro h i w hsoon
    have hcut := h [s.take (i + w.length), s.drop (i + w.length)] [s]
      (by rw [List.flatten_cons, List.flatten_singleton, List.take_append_drop]) List.flatten_singleton
    rw [found_two hne hsoon, found, List.nil_append] at hcut
    cases hf : first words s with
    | none => exact absurd (infix_iff_drop.mpr ⟨i, hsoon.here⟩) ((first_eq_none_iff hne).mp hf w hsoon.mem)
    | some p =>
        have hp := first_spec hne hf
        rw [hf] at hcut
        obtain ⟨hbefore, rfl⟩ := Prod.mk.inj (Option.some.inj hcut)
        have hi := end_le (fun hnil => hne (hnil ▸ hsoon.mem)) hsoon.here
        have hj := end_le (fun hnil => hne (hnil ▸ hp.mem)) hp.here
        have hlen := congrArg List.length hbefore
        rw [List.length_take_of_le (by omega), List.length_take_of_le (by omega)] at hlen
        exact hlen ▸ hp
  · intro h pieces pieces' hp hp'
    have hnil : ∀ w ∈ words, ¬ w <:+: [] := (waiting_nil hne).unseen
    -- either reader finds what stands first in the whole text
    have finds : ∀ ps : List (List α), ps.flatten = s → ∀ i w, Soonest words s i w →
        found words [] ps = some (s.take i, w) := by
      intro ps hps i w hsoon
      cases hf : found words [] ps with
      | none =>
          have hnone := (found_eq_none_iff hne hnil).mp hf w hsoon.mem
          rw [List.nil_append, hps] at hnone
          exact absurd (infix_iff_drop.mpr ⟨i, hsoon.here⟩) hnone
      | some p =>
          obtain ⟨j, e, hfirst, he, hbefore⟩ := found_eq_some hne (show _ = some (p.1, p.2) from hf)
          rw [List.nil_append, hps] at hfirst hbefore
          have hj := ((prefix_drop_take fun hnil => hne (hnil ▸ hfirst.mem)).mp hfirst.here).1
          have hend : i + w.length ≤ e := by
            rcases hsoon.soonest _ hfirst.mem j hj with hlt | ⟨heq, -⟩
            · omega
            · omega
          obtain ⟨rfl, rfl⟩ := Prod.mk.inj (((h i w hsoon).take hne hend).unique hfirst)
          rw [← hbefore]
    by_cases hsome : ∃ i w, Soonest words s i w
    · obtain ⟨i, w, hsoon⟩ := hsome
      rw [finds pieces hp i w hsoon, finds pieces' hp' i w hsoon]
    · have none_of : ∀ ps : List (List α), ps.flatten = s → found words [] ps = none := by
        intro ps hps
        refine (found_eq_none_iff hne hnil).mpr fun w hw hin => ?_
        rw [List.nil_append, hps] at hin
        obtain ⟨j, hj⟩ := infix_iff_drop.mp hin
        exact hsome (exists_soonest hw hj)
      rw [none_of pieces hp, none_of pieces' hp']

end

end Search

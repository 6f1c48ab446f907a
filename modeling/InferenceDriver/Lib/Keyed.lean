/-
# `Lib.Keyed` — sorting by a key, and what a stable sort keeps

`sortBy key l` is `l` in the order of its keys, and elements of one key stay
in the order they had.  So two elements that stand one before the other in
the sorted list have keys that say so, or the same key and stood so before
(`sortBy_before`); elements picked out that all have one key are left as
they were (`filter_sortBy`); and a list that is a permutation and strictly
in order is the sorted list (`sortBy_eq`).
-/
import Mathlib.Data.List.Sort

namespace Keyed

open List

variable {α κ : Type} [LinearOrder κ] {key : α → κ}

/-- `sorted(l, key=key)`. -/
def sortBy (key : α → κ) (l : List α) : List α := l.insertionSort fun a b => key a ≤ key b

instance total_key (key : α → κ) : Std.Total fun a b => key a ≤ key b := ⟨fun a b => le_total (key a) (key b)⟩

instance trans_key (key : α → κ) : IsTrans α fun a b => key a ≤ key b := ⟨fun _ _ _ => le_trans⟩

theorem sortBy_perm (key : α → κ) (l : List α) : (sortBy key l).Perm l := List.perm_insertionSort _ l

theorem mem_sortBy {l : List α} {a : α} : a ∈ sortBy key l ↔ a ∈ l := (sortBy_perm key l).mem_iff

theorem length_sortBy (key : α → κ) (l : List α) : (sortBy key l).length = l.length :=
  (sortBy_perm key l).length_eq

theorem sortBy_pairwise (key : α → κ) (l : List α) : (sortBy key l).Pairwise fun a b => key a ≤ key b :=
  List.pairwise_insertionSort _ l

theorem sortBy_of_pairwise {l : List α} (h : l.Pairwise fun a b => key a ≤ key b) : sortBy key l = l :=
  h.insertionSort_eq

/-- Sorting what is sorted changes nothing. -/
theorem sortBy_sortBy (key : α → κ) (l : List α) : sortBy key (sortBy key l) = sortBy key l :=
  sortBy_of_pairwise (sortBy_pairwise key l)

/-! ## Stability -/

/-- What is picked out by one key stays as it was. -/
theorem filter_sortBy {p : α → Bool} {l : List α}
    (h : ∀ a ∈ l, ∀ b ∈ l, p a = true → p b = true → key a = key b) :
    (sortBy key l).filter p = l.filter p := by
  have hsorted : (l.filter p).Pairwise fun a b => key a ≤ key b := by
    refine List.pairwise_of_forall_mem_list fun a ha b hb => ?_
    obtain ⟨ha, hpa⟩ := List.mem_filter.mp ha
    obtain ⟨hb, hpb⟩ := List.mem_filter.mp hb
    exact (h a ha b hb hpa hpb).le
  have hsub := (List.sublist_insertionSort hsorted List.filter_sublist).filter p
  rw [List.filter_filter] at hsub
  simp only [Bool.and_self] at hsub
  exact (hsub.eq_of_length ((sortBy_perm key l).filter p).length_eq.symm).symm

/-- Two elements of a list, one before the other. -/
theorem before_or {l : List α} {a b : α} (ha : a ∈ l) (hb : b ∈ l) (hne : a ≠ b) : [a, b] <+ l ∨ [b, a] <+ l := by
  induction l with
  | nil => cases ha
  | cons x l ih =>
      rcases List.mem_cons.mp ha with rfl | ha'
      · have hb' := (List.mem_cons.mp hb).resolve_left (Ne.symm hne)
        exact .inl (.cons_cons a (List.singleton_sublist.mpr hb'))
      · rcases List.mem_cons.mp hb with rfl | hb'
        · exact .inr (.cons_cons b (List.singleton_sublist.mpr ha'))
        · exact (ih ha' hb').imp (.cons x) (.cons x)

/-- Where a stable sort puts one element before another. -/
theorem sortBy_before {l : List α} {a b : α} (h : [a, b] <+ sortBy key l) :
    key a < key b ∨ key a = key b ∧ [a, b] <+ l := by
  have hle : key a ≤ key b := List.pairwise_iff_forall_sublist.mp (sortBy_pairwise key l) h
  rcases hle.lt_or_eq with hlt | heq
  · exact .inl hlt
  · refine .inr ⟨heq, ?_⟩
    have hsub := h.filter fun c => decide (key c = key a)
    rw [filter_sortBy fun c _ d _ hc hd => (of_decide_eq_true hc).trans (of_decide_eq_true hd).symm] at hsub
    have hab : [a, b].filter (fun c => decide (key c = key a)) = [a, b] := by
      refine List.filter_eq_self.mpr fun c hc => decide_eq_true ?_
      rcases List.mem_pair.mp hc with rfl | rfl
      · rfl
      · exact heq.symm
    rw [hab] at hsub
    exact hsub.trans List.filter_sublist

/-- And where it must. -/
theorem before_sortBy {l : List α} {a b : α} (ha : a ∈ l) (hb : b ∈ l) (hne : a ≠ b)
    (h : key a < key b ∨ key a = key b ∧ [a, b] <+ l) : [a, b] <+ sortBy key l := by
  rcases h with hlt | ⟨heq, hsub⟩
  · refine (before_or (mem_sortBy.mpr ha) (mem_sortBy.mpr hb) hne).resolve_right fun hba => ?_
    exact hlt.not_ge (List.pairwise_iff_forall_sublist.mp (sortBy_pairwise key l) hba)
  · exact List.pair_sublist_insertionSort heq.le hsub

/-- Of what is there once, two are one. -/
theorem eq_of_countP {p : α → Bool} {l : List α} (h : l.countP p = 1) {a b : α} (ha : a ∈ l) (hb : b ∈ l)
    (hpa : p a = true) (hpb : p b = true) : a = b := by
  by_contra hne
  have two : ∀ c d, p c = true → p d = true → ¬ [c, d] <+ l := by
    intro c d hc hd hsub
    have hle := hsub.countP_le (p := p)
    rw [h, List.countP_cons_of_pos hc, List.countP_cons_of_pos hd] at hle
    exact absurd hle (by simp)
  exact (before_or ha hb hne).elim (two a b hpa hpb) (two b a hpb hpa)

/-! ## Lists side by side -/

theorem forall₂_left {β : Type} {R : α → β → Prop} {l : List α} {m : List β} (h : List.Forall₂ R l m) {b : β}
    (hb : b ∈ m) : ∃ a ∈ l, R a b := by
  induction h with
  | nil => cases hb
  | cons hab _ ih =>
      rcases List.mem_cons.mp hb with rfl | hb
      · exact ⟨_, List.mem_cons_self, hab⟩
      · obtain ⟨a, ha, hab⟩ := ih hb
        exact ⟨a, List.mem_cons_of_mem _ ha, hab⟩

theorem forall₂_right {β : Type} {R : α → β → Prop} {l : List α} {m : List β} (h : List.Forall₂ R l m) {a : α}
    (ha : a ∈ l) : ∃ b ∈ m, R a b :=
  forall₂_left h.flip ha

/-! ## What the sorted list is -/

/-- A list in order is its permutation in strict order. -/
theorem eq_of_perm {l m : List α} (hperm : l.Perm m) (hl : l.Pairwise fun a b => key a ≤ key b)
    (hm : m.Pairwise fun a b => key a < key b) : l = m := by
  have hinj : ∀ a ∈ m, ∀ b ∈ m, key a = key b → a = b := by
    intro a ha b hb heq
    by_contra hne
    rcases before_or ha hb hne with h | h
    · exact (List.pairwise_iff_forall_sublist.mp hm h).ne heq
    · exact (List.pairwise_iff_forall_sublist.mp hm h).ne heq.symm
  refine hperm.eq_of_pairwise ?_ hl (hm.imp le_of_lt)
  intro a b ha hb hab hba
  exact hinj a (hperm.mem_iff.mp ha) b hb (le_antisymm hab hba)

theorem sortBy_eq {l m : List α} (hperm : m.Perm l) (hm : m.Pairwise fun a b => key a < key b) :
    sortBy key l = m :=
  eq_of_perm ((sortBy_perm key l).trans hperm.symm) (sortBy_pairwise key l) hm

/-- A list in which nothing that fails a test stands before what passes it
is what passes, and then what fails. -/
theorem filter_append_filter {p : α → Bool} {l : List α}
    (h : ∀ a b, [a, b] <+ l → p b = true → p a = true) : l = l.filter p ++ l.filter fun a => !p a := by
  induction l with
  | nil => rfl
  | cons a l ih =>
      have hrest := ih fun b c hbc => h b c (hbc.cons a)
      cases ha : p a with
      | true =>
          rw [List.filter_cons_of_pos ha, List.filter_cons_of_neg (by rw [ha]; exact Bool.false_ne_true),
            List.cons_append, ← hrest]
      | false =>
          have hnone : l.filter p = [] := by
            refine List.filter_eq_nil_iff.mpr fun b hb hpb => ?_
            have := h a b (.cons_cons a (List.singleton_sublist.mpr hb)) hpb
            exact Bool.false_ne_true (ha.symm.trans this)
          rw [List.filter_cons_of_neg (by rw [ha]; exact Bool.false_ne_true), hnone, List.nil_append,
            List.filter_cons_of_pos (by rw [ha]; rfl)]
          rw [hnone, List.nil_append] at hrest
          rw [← hrest]

end Keyed

/-
# `Lib.Newest` — the last of a list, and what is still good

Something that keeps the last `n` of what it is given, and throws away what
has gone off.  What is good is good until the end of the list: the newer,
the longer it lasts.  Then it makes no difference which is done first
(`filter_rtake`), nor whether what was dropped is dropped again before the
next one comes (`rtake_erased`), and an element is among the last `n` when
fewer than `n` stand after it (`mem_rtake`).
-/
import Mathlib.Data.List.DropRight
import Mathlib.Data.List.Nodup

namespace Newest

variable {α κ : Type}

theorem rtake_append {l m : List α} {n : Nat} (h : n ≤ m.length) : (l ++ m).rtake n = m.rtake n := by
  rw [List.rtake, List.rtake, List.length_append, List.drop_append, List.drop_eq_nil_of_le (by omega),
    List.nil_append]
  congr 1
  omega

theorem rtake_of_length_le {l : List α} {n : Nat} (h : l.length ≤ n) : l.rtake n = l := by
  rw [List.rtake, Nat.sub_eq_zero_of_le h, List.drop_zero]

theorem rtake_suffix (l : List α) (n : Nat) : l.rtake n <:+ l := List.drop_suffix _ _

/-- Dropping what is off, and dropping the old. -/
theorem filter_rtake {p : α → Bool} {l : List α} (h : l.Pairwise fun a b => p a = true → p b = true) (n : Nat) :
    (l.rtake n).filter p = (l.filter p).rtake n := by
  induction l with
  | nil => rw [List.rtake_nil, List.filter_nil, List.rtake_nil]
  | cons a l ih =>
      obtain ⟨ha, hl⟩ := List.pairwise_cons.mp h
      cases hp : p a with
      | true =>
          have hall : ∀ b ∈ a :: l, p b = true := by
            intro b hb
            rcases List.mem_cons.mp hb with rfl | hb
            · exact hp
            · exact ha b hb hp
          rw [List.filter_eq_self.mpr hall, List.filter_eq_self.mpr]
          exact fun b hb => hall b ((rtake_suffix _ n).subset hb)
      | false =>
          rw [List.filter_cons_of_neg (by rw [hp]; exact Bool.false_ne_true), ← ih hl]
          rcases Nat.lt_or_ge l.length n with hlt | hge
          · rw [rtake_of_length_le hlt.le, rtake_of_length_le (Nat.succ_le_of_lt hlt),
              List.filter_cons_of_neg (by rw [hp]; exact Bool.false_ne_true)]
          · exact congrArg (List.filter p) (rtake_append (l := [a]) hge)

section Keys

variable [DecidableEq κ] {key : α → κ}

/-- The list without what has one key. -/
def erased (key : α → κ) (k : κ) (l : List α) : List α := l.filter fun a => !(key a = k)

/-- Of different keys, at most one is that. -/
theorem length_erased {l : List α} (h : (l.map key).Nodup) (k : κ) : l.length ≤ (erased key k l).length + 1 := by
  induction l with
  | nil => exact Nat.zero_le _
  | cons a l ih =>
      rw [List.map_cons, List.nodup_cons] at h
      rcases eq_or_ne (key a) k with rfl | hk
      · have hself : erased key (key a) l = l := by
          refine List.filter_eq_self.mpr fun b hb => ?_
          rw [decide_eq_false fun heq => h.1 (List.mem_map.mpr ⟨b, hb, heq⟩)]
          rfl
        have hcons : erased key (key a) (a :: l) = erased key (key a) l := List.filter_cons_of_neg (by simp)
        rw [hcons, hself]
        exact le_refl _
      · rw [erased, List.filter_cons_of_pos (by simpa using hk)]
        exact Nat.succ_le_succ (ih h.2)

/-- What was dropped is not missed when the next one comes. -/
theorem rtake_erased {l : List α} (h : (l.map key).Nodup) (k : κ) (a : α) (n : Nat) :
    (erased key k (l.rtake n) ++ [a]).rtake n = (erased key k l ++ [a]).rtake n := by
  rcases Nat.lt_or_ge n l.length with hlt | hge
  · have hsplit : l.take (l.length - n) ++ l.rtake n = l := List.take_append_drop _ l
    have hlength : (l.rtake n).length = n := by
      rw [List.rtake, List.length_drop]
      omega
    have hnodup : ((l.rtake n).map key).Nodup := h.sublist ((rtake_suffix l n).sublist.map key)
    have hle := length_erased hnodup k
    have hroom : n ≤ (erased key k (l.rtake n) ++ [a]).length := by
      rw [List.length_append, List.length_singleton]
      omega
    have hall : erased key k l = erased key k (l.take (l.length - n)) ++ erased key k (l.rtake n) :=
      (congrArg (erased key k) hsplit).symm.trans (List.filter_append _ _)
    rw [hall, List.append_assoc]
    exact (rtake_append hroom).symm
  · rw [rtake_of_length_le hge]

end Keys

/-- An element is among the last when few stand after it. -/
theorem mem_rtake {l m : List α} {a : α} (h : (l ++ a :: m).Nodup) {n : Nat} :
    a ∈ (l ++ a :: m).rtake n ↔ m.length < n := by
  rcases Nat.lt_or_ge m.length n with hlt | hge
  · refine ⟨fun _ => hlt, fun _ => ?_⟩
    have hsuffix : a :: m <:+ (l ++ a :: m).rtake n := by
      refine List.suffix_of_suffix_length_le (List.suffix_append l (a :: m)) (rtake_suffix _ n) ?_
      rw [List.rtake, List.length_drop, List.length_append, List.length_cons]
      omega
    exact hsuffix.subset List.mem_cons_self
  · refine ⟨fun hmem => ?_, fun hlt => absurd hlt (Nat.not_lt_of_ge hge)⟩
    rw [← List.singleton_append, ← List.append_assoc, rtake_append hge] at hmem
    have ha := (List.nodup_append.mp h).2.1
    exact absurd ((rtake_suffix m n).subset hmem) (List.nodup_cons.mp ha).1

end Newest

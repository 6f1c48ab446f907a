/-
# `Lib.Backoff` — waiting longer after each failure

Something is tried again and again.  After a success it waits the whole
interval; after a failure what it is prepared to wait, which grows with
each, as far as the interval lets it.  The interval may be another at every
try.

No wait is longer than the interval (`Try.wait_le`) or shorter than the first
(`first_le_wait`), and the wait after some failures in a row is the grown
one, cut at an interval: between the least there has been and the one in
force (`wait_streak`).
-/
import Mathlib.Logic.Function.Iterate
import Mathlib.Order.MinMax

namespace Backoff

variable {T : Type} [LinearOrder T]

structure Policy (T : Type) [LinearOrder T] where
  /-- The wait after one failure. -/
  first : T
  grow : T → T
  monotone : Monotone grow
  le_grow : ∀ t, first ≤ t → t ≤ grow t

/-- How a try ended, and the interval there is then. -/
structure Try (T : Type) where
  ok : Bool
  interval : T

/-- What is waited after a try. -/
def Try.wait (retry : T) (t : Try T) : T := if t.ok then t.interval else min retry t.interval

/-- No wait is longer than the interval. -/
theorem Try.wait_le (retry : T) (t : Try T) : t.wait retry ≤ t.interval := by
  unfold Try.wait
  split
  · exact le_rfl
  · exact min_le_right _ _

theorem Try.wait_failed {t : Try T} (h : t.ok = false) (retry : T) : t.wait retry = min retry t.interval := by
  rw [Try.wait, if_neg (by rw [h]; exact Bool.false_ne_true)]

namespace Policy

variable (P : Policy T)

/-- What it is then prepared to wait. -/
def next (retry : T) (t : Try T) : T := if t.ok then P.first else min (P.grow retry) t.interval

def after (retry : T) (tries : List (Try T)) : T := tries.foldl P.next retry

/-- The wait after so many failures and one more, were there no interval. -/
def grown (n : Nat) : T := P.grow^[n] P.first

variable {P}

theorem first_le_wait {retry : T} {t : Try T} (hr : P.first ≤ retry) (ht : P.first ≤ t.interval) :
    P.first ≤ t.wait retry := by
  unfold Try.wait
  split
  · exact ht
  · exact le_min hr ht

theorem next_failed {t : Try T} (h : t.ok = false) (retry : T) : P.next retry t = min (P.grow retry) t.interval := by
  rw [next, if_neg (by rw [h]; exact Bool.false_ne_true)]

theorem first_le_next {retry : T} {t : Try T} (hr : P.first ≤ retry) (ht : P.first ≤ t.interval) :
    P.first ≤ P.next retry t := by
  unfold next
  split
  · exact le_rfl
  · exact le_min (hr.trans (P.le_grow retry hr)) ht

theorem first_le_after {retry : T} {tries : List (Try T)} (hr : P.first ≤ retry)
    (h : ∀ t ∈ tries, P.first ≤ t.interval) : P.first ≤ P.after retry tries := by
  induction tries generalizing retry with
  | nil => exact hr
  | cons t tries ih =>
      have ht := first_le_next hr (h t List.mem_cons_self)
      exact ih ht fun u hu => h u (List.mem_cons_of_mem t hu)

/-- A success forgets what was before it. -/
theorem after_success (retry : T) {earlier : List (Try T)} (h : ∀ t ∈ earlier.getLast?, t.ok = true) :
    earlier = [] ∨ P.after retry earlier = P.first := by
  rcases List.eq_nil_or_concat earlier with rfl | ⟨before, t, rfl⟩
  · exact .inl rfl
  · have ht : t.ok = true := h t (by rw [List.concat_eq_append]; exact List.getLast?_concat)
    refine .inr ?_
    rw [List.concat_eq_append, after, List.foldl_append, List.foldl_cons, List.foldl_nil, next, if_pos ht]

theorem grown_succ (n : Nat) : P.grown (n + 1) = P.grow (P.grown n) := Function.iterate_succ_apply' P.grow n P.first

/-- Failures in a row grow a wait no further than the policy says. -/
theorem after_le_grown {failed : List (Try T)} (h : ∀ t ∈ failed, t.ok = false) {retry : T} {n : Nat}
    (hr : retry ≤ P.grown n) : P.after retry failed ≤ P.grown (n + failed.length) := by
  induction failed generalizing retry n with
  | nil => exact hr
  | cons t failed ih =>
      have ht : P.next retry t = min (P.grow retry) t.interval := next_failed (h t List.mem_cons_self) retry
      have hgrown : P.next retry t ≤ P.grown (n + 1) := by
        rw [ht, grown_succ]
        exact (min_le_left _ _).trans (P.monotone hr)
      have hrest := ih (fun u hu => h u (List.mem_cons_of_mem t hu)) hgrown
      rwa [Nat.add_assoc, Nat.add_comm 1] at hrest

/-- And as far, or as far as the least interval. -/
theorem grown_le_after {least : T} (hleast : P.first ≤ least) {failed : List (Try T)}
    (h : ∀ t ∈ failed, t.ok = false) (hi : ∀ t ∈ failed, least ≤ t.interval) {retry : T} {n : Nat}
    (hr : min (P.grown n) least ≤ retry) : min (P.grown (n + failed.length)) least ≤ P.after retry failed := by
  induction failed generalizing retry n with
  | nil => exact hr
  | cons t failed ih =>
      have ht : P.next retry t = min (P.grow retry) t.interval := next_failed (h t List.mem_cons_self) retry
      have hgrow : min (P.grown (n + 1)) least ≤ P.grow retry := by
        calc min (P.grown (n + 1)) least ≤ min (P.grow (P.grown n)) (P.grow least) :=
              min_le_min (grown_succ n).le (P.le_grow least hleast)
          _ = P.grow (min (P.grown n) least) := (P.monotone.map_min).symm
          _ ≤ P.grow retry := P.monotone hr
      have hgrown : min (P.grown (n + 1)) least ≤ P.next retry t := by
        rw [ht]
        exact le_min hgrow ((min_le_right _ _).trans (hi t List.mem_cons_self))
      have hrest := ih (fun u hu => h u (List.mem_cons_of_mem t hu)) (fun u hu => hi u (List.mem_cons_of_mem t hu))
        hgrown
      rwa [Nat.add_assoc, Nat.add_comm 1] at hrest

/-- The wait after failures in a row and one more. -/
theorem wait_streak {least : T} (hleast : P.first ≤ least) {failed : List (Try T)} (h : ∀ t ∈ failed, t.ok = false)
    (hi : ∀ t ∈ failed, least ≤ t.interval) {t : Try T} (ht : t.ok = false) (hit : least ≤ t.interval) :
    min (P.grown failed.length) least ≤ t.wait (P.after P.first failed) ∧
      t.wait (P.after P.first failed) ≤ min (P.grown failed.length) t.interval := by
  have hupper := after_le_grown (P := P) h (n := 0) le_rfl
  have hlower := grown_le_after hleast h hi (n := 0) (min_le_left (P.grown 0) least)
  rw [Nat.zero_add] at hupper hlower
  rw [Try.wait_failed ht]
  exact ⟨le_min hlower ((min_le_right _ _).trans hit), le_min ((min_le_left _ _).trans hupper) (min_le_right _ _)⟩

end Policy

end Backoff

/-
# `Lib.Sweep` — going through a list, rewriting as one goes

A `sweep` goes through a list from the front with an accumulator.  Of each
element it leaves something in the element's place, and it goes on with a new
accumulator or stops with an error; what comes after an error stays as it
was.  This is the loop that edits a list in place and raises half way.

One rule for what a sweep leaves (`forall₂_left`), one for what it has gone
through when it did not stop (`steps_of_ok`), and one for sweeping what a
sweep left (`again`).
-/
import Mathlib.Data.List.Forall2

namespace InferenceDriver

variable {α σ ε : Type}

/-- What is left of an element, and the accumulator or the error. -/
abbrev Swept (α σ ε : Type) := α × Except ε σ

/-- The elements from the `i`-th on. -/
def sweep (step : Nat → σ → α → Swept α σ ε) (i : Nat) (acc : σ) : List α → Swept (List α) σ ε
  | [] => ([], .ok acc)
  | a :: rest =>
      match step i acc a with
      | (a, .error e) => (a :: rest, .error e)
      | (a, .ok acc) =>
          let swept := sweep step (i + 1) acc rest
          (a :: swept.1, swept.2)

namespace Sweep

variable {step : Nat → σ → α → Swept α σ ε}

theorem sweep_of_error {i : Nat} {acc : σ} {a a' : α} {e : ε} (h : step i acc a = (a', .error e))
    (rest : List α) : sweep step i acc (a :: rest) = (a' :: rest, .error e) := by
  rw [sweep, h]

theorem sweep_of_ok {i : Nat} {acc acc' : σ} {a a' : α} (h : step i acc a = (a', .ok acc'))
    (rest : List α) : sweep step i acc (a :: rest) =
      (a' :: (sweep step (i + 1) acc' rest).1, (sweep step (i + 1) acc' rest).2) := by
  rw [sweep, h]

/-- Each element is left as a step leaves it, or as it was. -/
theorem forall₂_left {R : α → α → Prop} (hrefl : ∀ a, R a a)
    (hstep : ∀ i acc a, R a (step i acc a).1) (i : Nat) (acc : σ) (as : List α) :
    List.Forall₂ R as (sweep step i acc as).1 := by
  induction as generalizing i acc with
  | nil => exact .nil
  | cons a rest ih =>
      have ha := hstep i acc a
      cases h : step i acc a with
      | mk a' r =>
          rw [h] at ha
          cases r with
          | error e =>
              rw [sweep_of_error h]
              exact .cons ha (List.forall₂_same.mpr fun b _ => hrefl b)
          | ok acc' =>
              rw [sweep_of_ok h]
              exact .cons ha (ih (i + 1) acc')

variable (step) in
/-- The steps of a sweep that did not stop: where it was, what it had and
what it took, in order. -/
inductive Steps : Nat → σ → List α → List α → σ → Prop where
  | nil (i : Nat) (acc : σ) : Steps i acc [] [] acc
  | cons {i : Nat} {acc acc' acc'' : σ} {a a' : α} {rest rest' : List α} :
      step i acc a = (a', .ok acc') → Steps (i + 1) acc' rest rest' acc'' →
      Steps i acc (a :: rest) (a' :: rest') acc''

theorem steps_of_ok {i : Nat} {acc acc' : σ} {as as' : List α}
    (h : sweep step i acc as = (as', .ok acc')) : Steps step i acc as as' acc' := by
  induction as generalizing i acc as' with
  | nil =>
      cases h
      exact .nil i _
  | cons a rest ih =>
      cases ha : step i acc a with
      | mk a' r =>
          cases r with
          | error e =>
              rw [sweep_of_error ha] at h
              cases h
          | ok acc₁ =>
              rw [sweep_of_ok ha] at h
              cases hr : sweep step (i + 1) acc₁ rest with
              | mk rest' r' =>
                  rw [hr] at h
                  cases h
                  exact .cons ha (ih hr)

theorem Steps.sweep_eq {i : Nat} {acc acc' : σ} {as as' : List α} (h : Steps step i acc as as' acc') :
    sweep step i acc as = (as', .ok acc') := by
  induction h with
  | nil i acc => rfl
  | cons ha _ ih => rw [sweep_of_ok ha, ih]

/-- **What was gone through**: when each step makes the accumulator what
`plus` makes it, found the element good and kept an invariant, so did the
sweep. -/
theorem Steps.spec {plus : σ → α → σ} {Good : α → Prop} {Inv : σ → Prop}
    (hstep : ∀ {i acc a a' acc'}, step i acc a = (a', .ok acc') →
      acc' = plus acc a ∧ Good a ∧ (Inv acc → Inv acc'))
    {i : Nat} {acc acc' : σ} {as as' : List α} (h : Steps step i acc as as' acc') :
    acc' = as.foldl plus acc ∧ (∀ a ∈ as, Good a) ∧ (Inv acc → Inv acc') := by
  induction h with
  | nil i acc => exact ⟨rfl, fun a ha => (by cases ha), id⟩
  | cons ha _ ih =>
      obtain ⟨rfl, hgood, hinv⟩ := hstep ha
      obtain ⟨hfold, hall, hinvs⟩ := ih
      refine ⟨hfold, fun b hb => ?_, fun h => hinvs (hinv h)⟩
      rcases List.mem_cons.mp hb with rfl | hb
      · exact hgood
      · exact hall b hb

variable (step) in
/-- **Sweeping what a sweep left** leaves it, with the same accumulator, when
each step does so. -/
theorem again (hstep : ∀ {i acc a a' acc'}, step i acc a = (a', .ok acc') → step i acc a' = (a', .ok acc'))
    {i : Nat} {acc acc' : σ} {as as' : List α} (h : sweep step i acc as = (as', .ok acc')) :
    sweep step i acc as' = (as', .ok acc') := by
  refine Steps.sweep_eq ?_
  induction steps_of_ok h with
  | nil i acc => exact .nil i acc
  | cons ha hrest ih => exact .cons (hstep ha) (ih hrest.sweep_eq)

end Sweep

end InferenceDriver

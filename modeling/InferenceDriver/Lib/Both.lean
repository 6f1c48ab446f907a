/-
# `Lib.Both` — two chains of checks that fail alike

Two programs over the same input AGREE when both fail, with errors of
whatever kind, or both succeed with related results.  `Both R` is that
relation, for the relation `R` on the results; it is kept by each way to
put chains together, so two chains with the same joints are compared joint
by joint.
-/
import Mathlib.Logic.Basic

namespace Checks

variable {ε ε' ε'' α β γ α' β' : Type} {R : α → β → Prop} {S : α' → β' → Prop}

inductive Both (R : α → β → Prop) : Except ε α → Except ε' β → Prop where
  | ok {a : α} {b : β} : R a b → Both R (.ok a) (.ok b)
  | error {e : ε} {e' : ε'} : Both R (.error e) (.error e')

theorem Both.refl (x : Except ε α) : Both Eq x x := by
  cases x with
  | error e => exact .error
  | ok a => exact .ok rfl

theorem Both.mono {R' : α → β → Prop} {x : Except ε α} {y : Except ε' β} (h : Both R x y)
    (hR : ∀ a b, R a b → R' a b) : Both R' x y := by
  cases h with
  | ok h => exact .ok (hR _ _ h)
  | error => exact .error

theorem Both.isOk_eq {x : Except ε α} {y : Except ε' β} (h : Both R x y) : x.isOk = y.isOk := by
  cases h with
  | ok h => rfl
  | error => rfl

theorem Both.eq_ok {a : α} {y : Except ε' α} (h : Both Eq (.ok a : Except ε α) y) : y = .ok a := by
  cases h with
  | ok h => rw [h]

theorem Both.eq_error {e : ε} {y : Except ε' α} (h : Both Eq (.error e : Except ε α) y) : ∃ e', y = .error e' := by
  cases h with
  | error => exact ⟨_, rfl⟩

theorem Both.comp {T : β → γ → Prop} {x : Except ε α} {y : Except ε' β} {z : Except ε'' γ}
    (h : Both R x y) (h' : Both T y z) : Both (fun a c => ∃ b, R a b ∧ T b c) x z := by
  cases h with
  | ok h =>
      cases h' with
      | ok h' => exact .ok ⟨_, h, h'⟩
  | error =>
      cases h' with
      | error => exact .error

theorem Both.map {x : Except ε α} {y : Except ε' β} {f : α → α'} {g : β → β'} (h : Both R x y)
    (hfg : ∀ a b, R a b → S (f a) (g b)) : Both S (f <$> x) (g <$> y) := by
  cases h with
  | ok h => exact .ok (hfg _ _ h)
  | error => exact .error

theorem Both.map_left {T : α' → β → Prop} {x : Except ε α} {y : Except ε' β} {f : α → α'} (h : Both R x y)
    (hf : ∀ a b, R a b → T (f a) b) : Both T (f <$> x) y := by
  cases h with
  | ok h => exact .ok (hf _ _ h)
  | error => exact .error

theorem Both.bind {x : Except ε α} {y : Except ε' β} {f : α → Except ε α'} {g : β → Except ε' β'}
    (h : Both R x y) (hfg : ∀ a b, R a b → Both S (f a) (g b)) : Both S (x >>= f) (y >>= g) := by
  cases h with
  | ok h => exact hfg _ _ h
  | error => exact .error

/-- Two loops over one list. -/
theorem Both.foldlM {ι : Type} {f : α → ι → Except ε α} {g : β → ι → Except ε' β}
    (step : ∀ a b i, R a b → Both R (f a i) (g b i)) (l : List ι) {a : α} {b : β} (h : R a b) :
    Both R (l.foldlM f a) (l.foldlM g b) := by
  induction l generalizing a b with
  | nil => exact .ok h
  | cons i l ih =>
      rw [List.foldlM_cons, List.foldlM_cons]
      exact (step a b i h).bind fun a' b' h' => ih h'

end Checks

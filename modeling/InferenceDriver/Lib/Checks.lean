/-
# `Lib.Checks` — chains of checks that end at the first failure

A function that validates its input is a `do` block in `Except`: it reads,
checks, and throws at the first thing that is wrong.  `bind_eq_ok` takes a
chain apart from the front when it is known to have succeeded, and
`ensure_eq_ok` says what a check that passed has established, so what an
accepted input satisfies is read off the block line by line.
-/
import Mathlib.Logic.Basic

namespace Checks

variable {ε α β : Type}

/-- `if not c: raise e`. -/
def ensure (c : Prop) [Decidable c] (e : ε) : Except ε Unit := if c then .ok () else .error e

@[simp] theorem ensure_eq_ok {c : Prop} [Decidable c] {e : ε} {u : Unit} :
    ensure c e = .ok u ↔ c := by
  unfold ensure
  split
  · rename_i h; exact ⟨fun _ => h, fun _ => rfl⟩
  · rename_i h; exact ⟨fun h' => (by cases h'), fun h' => absurd h' h⟩

theorem ensure_of {c : Prop} [Decidable c] {e : ε} (h : c) : ensure c e = .ok () :=
  ensure_eq_ok.mpr h

theorem bind_eq_ok {x : Except ε α} {f : α → Except ε β} {b : β} :
    (x >>= f) = .ok b ↔ ∃ a, x = .ok a ∧ f a = .ok b := by
  cases x with
  | error e => exact ⟨fun h => (by cases h), fun ⟨_, h, _⟩ => (by cases h)⟩
  | ok a => exact ⟨fun h => ⟨a, rfl, h⟩, fun ⟨_, h, hf⟩ => by cases h; exact hf⟩

theorem pure_eq_ok {a b : α} : (pure a : Except ε α) = .ok b ↔ a = b :=
  ⟨fun h => by cases h; rfl, fun h => by rw [h]; rfl⟩

theorem map_eq_ok {x : Except ε α} {f : α → β} {b : β} :
    (f <$> x) = .ok b ↔ ∃ a, x = .ok a ∧ f a = b := by
  cases x with
  | error e => exact ⟨fun h => (by cases h), fun ⟨_, h, _⟩ => (by cases h)⟩
  | ok a =>
      exact ⟨fun h => ⟨a, rfl, Except.ok.inj h⟩,
        fun ⟨_, h, hf⟩ => by cases h; exact congrArg Except.ok hf⟩

/-- A value that may be missing. -/
def require (x : Option α) (e : ε) : Except ε α :=
  match x with
  | none => .error e
  | some a => .ok a

@[simp] theorem require_eq_ok {x : Option α} {e : ε} {a : α} : require x e = .ok a ↔ x = some a := by
  cases x with
  | none => exact ⟨fun h => (by cases h), fun h => (by cases h)⟩
  | some b =>
      exact ⟨fun h => congrArg some (Except.ok.inj h), fun h => congrArg Except.ok (Option.some.inj h)⟩

/-- What each step of a loop keeps, the loop keeps. -/
theorem foldlM_rule {step : β → α → Except ε β} {I : β → Prop} {l : List α}
    (keep : ∀ b a b', I b → step b a = .ok b' → I b') {b b' : β} (h : I b)
    (hl : l.foldlM step b = .ok b') : I b' := by
  induction l generalizing b with
  | nil => cases pure_eq_ok.mp hl; exact h
  | cons a l ih =>
      rw [List.foldlM_cons, bind_eq_ok] at hl
      obtain ⟨b₁, h₁, hl⟩ := hl
      exact ih (keep b a b₁ h h₁) hl

/-- Whether a chain succeeded, with a value that passes a test. -/
def passes (p : α → Bool) (x : Except ε α) : Bool :=
  match x with
  | .error _ => false
  | .ok a => p a

theorem passes_iff {p : α → Bool} {x : Except ε α} :
    passes p x = true ↔ ∃ a, x = .ok a ∧ p a = true := by
  cases x with
  | error e => exact ⟨fun h => (by cases h), fun ⟨_, h, _⟩ => (by cases h)⟩
  | ok a => exact ⟨fun h => ⟨a, rfl, h⟩, fun ⟨_, h, hp⟩ => by cases h; exact hp⟩

end Checks

/-
# `Lib.Lts` — runs of a labelled transition system, and the rule for their invariants

A system has initial states and a partial step function: `step s l` is the
state after the step labelled `l`, or `none` where that step cannot be
taken.  Interleavings of concurrent activities are runs whose labels name
the activity that moves.

`Run M ok` collects the states reached by steps that all meet a condition
`ok` on the state before and the label, so a result about every run is one
about `Reach M`, where the condition is `True`, and a result about the runs
that keep out of trouble names the trouble in `ok`.
-/
import Mathlib.Logic.Basic

namespace Lts

variable {S L : Type}

structure System (S L : Type) where
  init : S → Prop
  step : S → L → Option S

/-- The states reached from an initial one by steps that all meet `ok`. -/
inductive Run (M : System S L) (ok : S → L → Prop) : S → Prop where
  | start {s : S} : M.init s → Run M ok s
  | next {s s' : S} {l : L} : Run M ok s → ok s l → M.step s l = some s' → Run M ok s'

/-- The states reached by any steps. -/
def Reach (M : System S L) : S → Prop := Run M fun _ _ => True

variable {M : System S L} {ok : S → L → Prop}

theorem Reach.next {s s' : S} {l : L} (h : Reach M s) (hs : M.step s l = some s') : Reach M s' :=
  Run.next h trivial hs

/-- What holds at the start and is kept by every step that meets the
condition holds in every state reached by such steps. -/
theorem Run.invariant {I : S → Prop} (start : ∀ s, M.init s → I s)
    (step : ∀ s l s', I s → ok s l → M.step s l = some s' → I s') {s : S} (h : Run M ok s) : I s := by
  induction h with
  | start h => exact start _ h
  | next _ hok hs ih => exact step _ _ _ ih hok hs

theorem Reach.invariant {I : S → Prop} (start : ∀ s, M.init s → I s)
    (step : ∀ s l s', I s → M.step s l = some s' → I s') {s : S} (h : Reach M s) : I s :=
  Run.invariant start (fun s l s' hi _ hs => step s l s' hi hs) h

/-- The end of a computed sequence of steps is reached. -/
theorem Reach.foldlM {s s' : S} {ls : List L} (h : Reach M s)
    (hs : ls.foldlM M.step s = some s') : Reach M s' := by
  induction ls generalizing s with
  | nil => cases hs; exact h
  | cons l ls ih =>
      obtain ⟨s₁, h₁, hs⟩ := Option.bind_eq_some_iff.mp hs
      exact ih (h.next h₁) hs

/-! ## Runs from a state, and what their steps put out -/

/-- The system, started in one state. -/
def System.at (M : System S L) (s : S) : System S L where
  init := fun s' => s' = s
  step := M.step

theorem Run.reach {s s' : S} (hs : Reach M s) (h : Run (M.at s) ok s') : Reach M s' := by
  induction h with
  | start h => exact h ▸ hs
  | next _ _ hstep ih => exact ih.next hstep

/-- The states reached, each with what the steps to it have put out. -/
inductive Logged {O : Type} (M : System S L) (out : S → L → List O) : List O → S → Prop where
  | start {s : S} : M.init s → Logged M out [] s
  | next {s s' : S} {l : L} {log : List O} : Logged M out log s → M.step s l = some s' →
      Logged M out (log ++ out s l) s'

variable {O : Type} {out : S → L → List O} {log : List O}

theorem Logged.reach {s : S} (h : Logged M out log s) : Reach M s := by
  induction h with
  | start h => exact Run.start h
  | next _ hs ih => exact ih.next hs

/-- Every run has a log. -/
theorem Reach.logged (out : S → L → List O) {s : S} (h : Reach M s) : ∃ log, Logged M out log s := by
  induction h with
  | start h => exact ⟨[], .start h⟩
  | next _ _ hs ih =>
      obtain ⟨log, hlog⟩ := ih
      exact ⟨_, hlog.next hs⟩

/-- The rule for invariants that speak of the log. -/
theorem Logged.invariant {I : List O → S → Prop} (start : ∀ s, M.init s → I [] s)
    (step : ∀ log s l s', Reach M s → I log s → M.step s l = some s' → I (log ++ out s l) s') {s : S}
    (h : Logged M out log s) : I log s := by
  induction h with
  | start h => exact start _ h
  | next hlog hs ih => exact step _ _ _ _ hlog.reach ih hs

end Lts

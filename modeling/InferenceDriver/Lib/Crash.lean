/-
# `Lib.Crash` — programs that may stop after any system call

A program asks a machine to do one thing after another.  How each goes is
the machine's answer; where the answers end, the machine has stopped.  What
is proved of a program is proved for every list of answers (`Holds`): what
is so when it returns, when it raises, and wherever it stops.

There is one rule for each way to put programs together, so a proof follows
the program, and names what holds between two of its steps.
-/
import Mathlib.Logic.Basic

namespace Crash

variable {γ σ ε α β : Type}

/-! ## Programs -/

/-- How a program ends. -/
inductive End (ε α : Type) where
  | returned (a : α)
  | raised (e : ε)
  /-- The machine stopped. -/
  | stopped

/-- What becomes of the machine's answers and its state. -/
def Prog (γ σ ε α : Type) : Type := List γ → σ → End ε α × List γ × σ

namespace Prog

def ret (a : α) : Prog γ σ ε α := fun answers s => (.returned a, answers, s)

def raise (e : ε) : Prog γ σ ε α := fun answers s => (.raised e, answers, s)

/-- One system call. -/
def call (step : γ → σ → Except ε α × σ) : Prog γ σ ε α
  | [], s => (.stopped, [], s)
  | answer :: answers, s =>
      match step answer s with
      | (.ok a, s') => (.returned a, answers, s')
      | (.error e, s') => (.raised e, answers, s')

def andThen (p : Prog γ σ ε α) (f : α → Prog γ σ ε β) : Prog γ σ ε β := fun answers s =>
  match p answers s with
  | (.returned a, answers', s') => f a answers' s'
  | (.raised e, answers', s') => (.raised e, answers', s')
  | (.stopped, answers', s') => (.stopped, answers', s')

/-- `try` and `except`. -/
def rescue (p : Prog γ σ ε α) (handler : ε → Prog γ σ ε α) : Prog γ σ ε α := fun answers s =>
  match p answers s with
  | (.raised e, answers', s') => handler e answers' s'
  | ended => ended

instance monad : Monad (Prog γ σ ε) where
  pure := ret
  bind := andThen

end Prog

/-! ## What holds of them -/

/-- What is so in a state, by how the program ended there. -/
def End.Meets (post : α → σ → Prop) (exc : ε → σ → Prop) (crash : σ → Prop) (s : σ) : End ε α → Prop
  | .returned a => post a s
  | .raised e => exc e s
  | .stopped => crash s

/-- From where `pre` holds: `post` where it returns, `exc` where it raises,
`crash` where it stops, whatever the machine answers. -/
def Holds (pre : σ → Prop) (p : Prog γ σ ε α) (post : α → σ → Prop) (exc : ε → σ → Prop) (crash : σ → Prop) : Prop :=
  ∀ answers s, pre s → (p answers s).1.Meets post exc crash (p answers s).2.2

namespace Holds

variable {pre pre' crash : σ → Prop} {post : α → σ → Prop} {mid : β → σ → Prop} {exc exc' : ε → σ → Prop}

theorem ret {a : α} (h : ∀ s, pre s → post a s) : Holds pre (pure a : Prog γ σ ε α) post exc crash :=
  fun _ s hs => h s hs

theorem raise {e : ε} (h : ∀ s, pre s → exc e s) : Holds pre (Prog.raise e : Prog γ σ ε α) post exc crash :=
  fun _ s hs => h s hs

/-- A system call: it may be where the machine stops, or it goes as it is answered. -/
theorem call {step : γ → σ → Except ε α × σ} (hcrash : ∀ s, pre s → crash s)
    (hok : ∀ answer s a s', pre s → step answer s = (.ok a, s') → post a s')
    (herror : ∀ answer s e s', pre s → step answer s = (.error e, s') → exc e s') :
    Holds pre (Prog.call step) post exc crash := by
  intro answers s hs
  cases answers with
  | nil => exact hcrash s hs
  | cons answer answers =>
      rw [Prog.call]
      rcases h : step answer s with ⟨result, s'⟩
      cases result with
      | ok a => exact hok answer s a s' hs h
      | error e => exact herror answer s e s' hs h

theorem bind {p : Prog γ σ ε β} {f : β → Prog γ σ ε α} (hp : Holds pre p mid exc crash)
    (hf : ∀ b, Holds (mid b) (f b) post exc crash) : Holds pre (p >>= f) post exc crash := by
  intro answers s hs
  have hmeets := hp answers s hs
  show ((Prog.andThen p f) answers s).1.Meets post exc crash ((Prog.andThen p f) answers s).2.2
  rw [Prog.andThen]
  rcases h : p answers s with ⟨ended, answers', s'⟩
  rw [h] at hmeets
  cases ended with
  | returned b => exact hf b answers' s' hmeets
  | raised e => exact hmeets
  | stopped => exact hmeets

theorem rescue {p : Prog γ σ ε α} {handler : ε → Prog γ σ ε α} (hp : Holds pre p post exc' crash)
    (hhandler : ∀ e, Holds (exc' e) (handler e) post exc crash) : Holds pre (p.rescue handler) post exc crash := by
  intro answers s hs
  have hmeets := hp answers s hs
  rw [Prog.rescue]
  rcases h : p answers s with ⟨ended, answers', s'⟩
  rw [h] at hmeets
  cases ended with
  | returned a => exact hmeets
  | raised e => exact hhandler e answers' s' hmeets
  | stopped => exact hmeets

theorem weaken {p : Prog γ σ ε α} (hp : Holds pre p post exc crash) (h : ∀ s, pre' s → pre s) :
    Holds pre' p post exc crash := fun answers s hs => hp answers s (h s hs)

end Holds

end Crash

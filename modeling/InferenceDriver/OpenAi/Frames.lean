/-
# `OpenAi.Frames` — what is sent before the terminal frame

Each step of a stream sends frames that are not terminal, and when the
thinking is off none of them is reasoning.  That is so of a run that raises
too: it says what a reader has seen when it does.
-/
import InferenceDriver.OpenAi.Stream

namespace InferenceDriver.OpenAi

open Checks Thinking

variable (E : Env) (U : Ucd) (q : Setup)

/-- A frame that may come before the terminal one. -/
def passing (c : Chunk) : Bool :=
  match c with
  | .done _ => false
  | .reasoning _ => !q.off
  | _ => true

def Passing (sent : List Chunk) : Prop := ∀ c ∈ sent, passing q c = true

section Sends

variable {α β : Type}

/-- A part of a run all of whose frames may come before the terminal one. -/
def Sends (view : α → List Chunk) (x : Except Raised α) : Prop :=
  match x with
  | .ok a => Passing q (view a)
  | .error raised => Passing q raised.sent

variable {q}

end Sends

variable {E U q}

/-! ## One choice of a frame -/

section Choice

variable {s : Locals}

end Choice

/-! ## One line -/

section Line

variable {s : Locals}

/-- The state a line leaves. -/
def Next.sent (n : Next) : List Chunk :=
  match n with
  | .again s => s.sent
  | .last s => s.sent

end Line

/-! ## The run -/

end InferenceDriver.OpenAi

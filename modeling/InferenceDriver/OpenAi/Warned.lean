/-
# `OpenAi.Warned` — what is left out of a request is said once

Each field that a body leaves out is said in the log (`_warn_dropped` and
the two beside it), once for a model and a field in the life of an engine,
whatever it learns between two requests.
-/
import InferenceDriver.OpenAi.Sent
import InferenceDriver.Lib.Once

namespace InferenceDriver.OpenAi.Settings

open Once

/-- A line of the log: a model, the field that is omitted, and why. -/
structure Line where
  model : Text
  field : Text
  why : Why

/-- What `_warned_dropped` holds of a line. -/
def Line.key (line : Line) : Text × Text := (line.model, line.field)

/-- What an engine has learned, and what it has said. -/
structure Life where
  state : State
  log : List Line

/-- A body is asked for, by a request or by a count; or the engine learns something. -/
inductive Event where
  | body (t : Target) (r : Request) (forced : Option Tool)
  | learns (state : State)

namespace Engine

variable (e : Engine) (quoted : Text → Text)

/-- What one body leaves out. -/
def omits (s : State) (t : Target) (r : Request) (forced : Option Tool) : List Line :=
  match e.payloadFor quoted s t r forced with
  | .error _ => []
  | .ok (_, left) => left.map fun field => ⟨t.id, field.1, field.2⟩

def step (life : Life) : Event → Life
  | .body t r forced => { life with log := tellAll Line.key life.log (e.omits quoted life.state t r forced) }
  | .learns state => { life with state }

/-- The life of an engine. -/
def after (life : Life) (events : List Event) : Life := events.foldl (e.step quoted) life

/-- All that the bodies leave out, in their order. -/
def omitted : State → List Event → List Line
  | _, [] => []
  | s, .body t r forced :: events => e.omits quoted s t r forced ++ omitted s events
  | _, .learns state :: events => omitted state events

variable {e quoted}

/-- The log says what was left out. -/
theorem log_after (life : Life) (events : List Event) :
    (e.after quoted life events).log = tellAll Line.key life.log (e.omitted quoted life.state events) := by
  induction events generalizing life with
  | nil => rfl
  | cons event events ih =>
      refine (ih (e.step quoted life event)).trans ?_
      cases event with
      | body t r forced =>
          rw [omitted, tellAll_append]
          rfl
      | learns state => rfl

/-- A field of a model is said once, where it is first left out. -/
theorem warned_once (s : State) (events : List Event) :
    ((e.after quoted ⟨s, []⟩ events).log.map Line.key).Nodup ∧
      ∀ line, line ∈ (e.after quoted ⟨s, []⟩ events).log ↔
        ((e.omitted quoted s events).find? fun first => first.key = line.key) = some line := by
  rw [log_after]
  exact ⟨nodup_said _, fun line => mem_tellAll⟩

end Engine

end InferenceDriver.OpenAi.Settings

/-
# `Routes.Stream` — the SSE route

`generate_stream` of `routes/generate.py` around the stream of an engine:
the first frame decides whether the response is opened at all; once it is,
each frame is an event, a `CliError` is an `error` event, and any other
exception leaves the connection cut.
-/
import InferenceDriver.OpenAi.Stream

namespace InferenceDriver.Routes

open OpenAi

/-- `_frame`, as far as which event it is. -/
inductive Event where
  | progress
  | token
  | done
  | error
deriving DecidableEq, Repr

def frame (chunk : Chunk) : Event :=
  match chunk with
  | .done _ => .done
  | .progress _ => .progress
  | _ => .token

/-- How the body of an opened response comes to its end. -/
structure Body where
  events : List Event
  /-- An exception went through. -/
  cut : Bool

/-- `isinstance(e, CliError)`. -/
def isCliError (failure : Failure) : Bool :=
  match failure with
  | .uncaught => false
  | _ => true

/-- What is sent of an engine's stream; none when the response is never
opened, since nothing came before the first exception. -/
def events (run : Except Raised (List Chunk)) : Option Body :=
  match run with
  | .ok [] => some { events := [], cut := false }
  | .ok chunks => some { events := chunks.map frame, cut := false }
  | .error { sent := [], .. } => none
  | .error { failure, sent } =>
      if isCliError failure then some { events := sent.map frame ++ [.error], cut := false }
      else some { events := sent.map frame, cut := true }

/-- A stream of frames that are not terminal, and then one that is or a
`CliError`. -/
def Ends (run : Except Raised (List Chunk)) : Prop :=
  match run with
  | .ok chunks => ∃ frames r, chunks = frames ++ [.done r] ∧ ∀ c ∈ frames, c.isDone = false
  | .error raised => isCliError raised.failure = true ∧ ∀ c ∈ raised.sent, c.isDone = false

end InferenceDriver.Routes

/-
# `OpenAi.Raw` — the three wires of a raw completion, whole and in frames

A raw completion is asked of one of three endpoints, and its answer is read
by `_complete` when it comes whole and by `_complete_stream` when it comes
in frames.

`whole_eq_frames` is that the two readers agree: the frames' texts one
after the other are the answer's text, the last reason and the last count
on them are the answer's own, and the two results say the same.

`sound_iff` is about any lines at all.  A stream is SOUND when it ends in
one terminal frame or raises a `CliError`, and never ends in a terminal
frame when the backend has reported an error.  `_complete_stream` has no
eye for a report: a frame with an `error` is a frame without text, and a
terminator after it closes the answer; and a frame of another shape than
the endpoint's raises what is no `CliError`.  `Tame` is exactly the lines
on which neither happens.
-/
import InferenceDriver.OpenAi.Completion
import InferenceDriver.OpenAi.Generate

namespace InferenceDriver.OpenAi

open Checks

variable (E : Env) (q : Setup) (kind : Completion)

/-! ## Lines and frames -/

/-- The frame of a line, if it has one. -/
def lineFrame (text : Text) : Option Obj :=
  if isRawDone kind text then none
  else
    match (rawData kind text).map E.loads with
    | some (.value (.obj frame)) => some frame
    | _ => none

def framesOf (lines : List Text) : List Obj := lines.filterMap (lineFrame E kind)

/-- A line after which the answer is finished. -/
def closes (text : Text) : Bool :=
  isRawDone kind text || (lineFrame E kind text).any fun frame => (rawReason kind frame).isSome

/-- The text of a frame, unless it is empty. -/
def pieceIn (frame : Obj) : List Json :=
  if (rawPiece kind frame).truthy then [rawPiece kind frame] else []

/-- The pieces of text on the lines. -/
def pieces (lines : List Text) : List Json := (framesOf E kind lines).flatMap (pieceIn kind)

/-- A frame that reports an error, and no choice: what `_stream_failure`
ends a chat stream on, and Ollama's own report. -/
def reportsError (frame : Obj) : Bool := (frame.get "error").truthy && (frame.item? "choices").isNone

variable {E q kind}

variable (E q kind)

variable {E q kind}

/-- The whole answer's result and the terminal frame's say the same. -/
structure Same (r r' : GenerateResponse) : Prop where
  content : r.content = r'.content
  finishReason : r.finishReason = r'.finishReason
  usage : r.usage = r'.usage

/-- What `_complete_stream` promises of these lines: one terminal frame, at
the end, and none when an error was reported; or a `CliError`. -/
def Sound (E : Env) (kind : Completion) (arrivals : List Arrival) (x : Except Raised (List Chunk)) : Prop :=
  match x with
  | .ok chunks =>
      (∃ frames r, chunks = frames ++ [.done r] ∧ ∀ c ∈ frames, c.isDone = false) ∧
        ∀ frame ∈ framesOf E kind (rawLines arrivals).1, reportsError frame = false
  | .error raised => raised.failure ≠ .uncaught

end InferenceDriver.OpenAi

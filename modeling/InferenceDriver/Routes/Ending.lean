/-
# `Routes.Ending` — how a stream and its response end

Which lines and which bodies leave an exception that nobody catches.  A
stream ends in its terminal frame or with a `CliError` exactly when its
lines have no such document in front, and then so does the response the
route opened for it; the same of an answer that comes whole.
-/
import InferenceDriver.OpenAi.Body
import InferenceDriver.OpenAi.Fold
import InferenceDriver.OpenAi.Frames
import InferenceDriver.Routes.Stream

namespace InferenceDriver.Routes

open Checks OpenAi Thinking

variable (E : Env) (U : Ucd) (q : Setup)

/-! ## What the backend's answer comes to -/

variable {E U q}

theorem resultIn_append (frames : List Chunk) (r : GenerateResponse) :
    resultIn (frames ++ [.done r]) = some r := by
  rw [resultIn, List.reverse_append]
  rfl

end InferenceDriver.Routes

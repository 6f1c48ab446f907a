/-
# `Catalogue.Overlay` — what OpenRouter lists of images and videos

`with_openrouter_images` and `with_openrouter_videos`: two more listings of
the same provider, laid over the account's.  Each is authoritative for one
surface: a model serves it when the listing has an entry of its id, with
what that entry lists.  They are one function (`overlay`) with two readers,
`openrouter_caps` of `images_out` and of `videos_out`.
-/
import InferenceDriver.Catalogue.Rows
import InferenceDriver.Http.Table

namespace InferenceDriver.Catalogue

open Checks OpenAi Rows

variable (L : Reader)

/-! ## Images -/

/-- What the name of a line says. -/
structure Line where
  per : VideoPriceUnit
  cents : Bool := true
  res : Option Text := none
  audio : Option Bool := none
  firstFrame : Option Bool := none

/-- `int(text)`, of a text of digits. -/
def intOf (digits : Text) : Except Raised Nat :=
  match digits.mapM L.decimal with
  | some values =>
      if digits ≠ [] ∧ digits.length ≤ 4300 then .ok (values.foldl (fun n d => 10 * n + d) 0)
      else .error .valueError
  | none => .error .valueError

/-- `text.isdigit()`. -/
def isdigit (text : Text) : Bool := text != [] && text.all L.isdigit

end InferenceDriver.Catalogue

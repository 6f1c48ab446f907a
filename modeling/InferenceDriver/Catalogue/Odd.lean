/-
# `Catalogue.Odd` — what one odd row costs

The readers of a listing are meant to pass over what they cannot read: one
odd row must not cost the others.  They do, as long as every row is one of
these (`SoundRow`): not a model's; or one whose modalities can be looped
over, whose id is not empty, none of whose texts has half a surrogate pair,
and whose entries in the other listings keep the bounds of the contract.
Then what comes of the listing is what comes of its rows, each read alone.
Any other row raises, and there is no list at all (`rows_alone`).
-/
import InferenceDriver.Catalogue.Overlay

namespace InferenceDriver.Catalogue

open Checks OpenAi Rows

/-! ## Texts -/

variable {L : Reader}

variable (L) in
/-- A row that is read as a model of this id. -/
structure IsModel (retired : String) (row : Json) (id : Text) (entry : Obj) : Prop where
  row : row = .obj entry
  id : entry.get "id" = .str id
  current : shutDown L entry retired = false

theorem IsModel.unique {retired : String} {row : Json} {id id' : Text} {entry entry' : Obj}
    (h : IsModel L retired row id entry) (h' : IsModel L retired row id' entry') : id' = id ∧ entry' = entry := by
  have hentry : entry' = entry := Json.obj.inj (h'.row.symm.trans h.row)
  refine ⟨?_, hentry⟩
  have hid := h'.id
  rw [hentry, h.id] at hid
  exact (Json.str.inj hid).symm

end InferenceDriver.Catalogue

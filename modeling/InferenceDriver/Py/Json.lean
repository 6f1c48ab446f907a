/-
# `Py.Json` — the values `json.loads` makes

The values of a JSON document as the interpreter holds them, and what the
source asks of a value it has not checked yet: `d.get(key)` and `d[key]`,
whether it counts as true, and `int` of it.  A `dict` is the list of its
items, no key twice.
-/
import Mathlib.Data.Rat.Defs
import InferenceDriver.Py.Text

namespace InferenceDriver

/-- A `float`; `json.loads` also reads `Infinity` and `NaN`. -/
inductive PyFloat where
  | fin (q : ℚ)
  | inf (negative : Bool)
  | nan
deriving DecidableEq

inductive Json where
  | null
  | bool (b : Bool)
  | int (n : Int)
  | float (x : PyFloat)
  | str (s : Text)
  | arr (items : List Json)
  | obj (fields : List (Text × Json))

/-- A `dict` with string keys. -/
abbrev Obj := List (Text × Json)

namespace Obj

/-- `d[key]`; none is a `KeyError`. -/
def item? (o : Obj) (key : String) : Option Json := (o.find? fun f => f.1 = key.toList).map (·.2)

/-- `d.get(key)`: `None` when the key is not there, or is and holds `null`. -/
def get (o : Obj) (key : String) : Json := (o.item? key).getD .null

end Obj

namespace Json

/-- A dict display. -/
def ofFields (fields : List (String × Json)) : Json := .obj (fields.map fun f => (f.1.toList, f.2))

/-- What is under a key of a dict display. -/
theorem get_ofFields (fields : List (String × Json)) (key : String) :
    Obj.get (fields.map fun f => (f.1.toList, f.2)) key =
      ((fields.find? fun f => f.1 = key).map (·.2)).getD .null := by
  have hkey : ((fun f : Text × Json => decide (f.1 = key.toList)) ∘ fun f : String × Json => (f.1.toList, f.2)) =
      fun f => decide (f.1 = key) := by
    funext f
    exact decide_eq_decide.mpr String.toList_inj
  rw [Obj.get, Obj.item?, List.find?_map, hkey, Option.map_map]
  rfl

def ofString (s : String) : Json := .str s.toList

/-- `value == s`, for a string `s`. -/
def isStr (v : Json) (s : Text) : Bool :=
  match v with
  | str s' => s' = s
  | _ => false

theorem isStr_iff {v : Json} {s : Text} : v.isStr s = true ↔ v = .str s := by
  cases v with
  | str t => exact ⟨fun h => congrArg Json.str (of_decide_eq_true h), fun h => decide_eq_true (Json.str.inj h)⟩
  | _ => exact ⟨fun h => (by cases h), fun h => (by cases h)⟩

/-- `value is None`. -/
def isNull : Json → Bool
  | null => true
  | _ => false

@[simp] theorem isNull_eq_false {v : Json} : v.isNull = false ↔ v ≠ .null := by
  cases v <;> simp [isNull]

/-- Whether `if value:` holds. -/
def truthy : Json → Bool
  | null => false
  | bool b => b
  | int n => n ≠ 0
  | float (.fin q) => q ≠ 0
  | float _ => true
  | str s => s ≠ []
  | arr items => items ≠ []
  | obj fields => fields ≠ []

/-- `int(value)`, given `int` of a string; none where it raises. -/
def toInt (ofText : Text → Option Int) : Json → Option Int
  | bool b => some (if b then 1 else 0)
  | int n => some n
  | float (.fin q) => some (q.num.tdiv q.den)
  | str s => ofText s
  | _ => none

end Json

end InferenceDriver

/-
# `Py.Float` — `float`, of the values of a JSON document

A whole number becomes the nearest double, of two as near the one with the
even significand; one that would be too large is an `OverflowError`.  What
`float` makes of a text is a parameter (`ofText`, none where it is a
`ValueError`); of anything else but a number it is a `TypeError`.
-/
import Mathlib
import InferenceDriver.Py.Json

namespace InferenceDriver

/-- `float(n)`. -/
def floatOfInt (n : Int) : Option ℚ :=
  let unit := 2 ^ (n.natAbs.size - 53)
  let low := n.natAbs / unit
  let rest := n.natAbs % unit
  let significand := if unit < 2 * rest ∨ unit = 2 * rest ∧ low % 2 = 1 then low + 1 else low
  if significand * unit < 2 ^ 1024 then some (n.sign * (significand * unit : ℕ)) else none

/-- `float(value)`; none is the exception it raises. -/
def floatOf (ofText : Text → Option PyFloat) : Json → Option PyFloat
  | .bool b => some (.fin (if b then 1 else 0))
  | .int n => (floatOfInt n).map .fin
  | .float x => some x
  | .str s => ofText s
  | _ => none

/-- Of two doubles as near, the even one. -/
example : floatOfInt (2 ^ 53 + 1) = some (2 ^ 53) ∧ floatOfInt (-(2 ^ 53 + 3)) = some (-(2 ^ 53 + 4)) := by
  decide +kernel

end InferenceDriver

/-
# `Py.Value` — the values a configuration holds

What `yaml.safe_load` makes of a document: the values of JSON, mappings
whose keys may be any value, and the scalars YAML has besides.  `Value.eq`
is `==`, to which `1`, `1.0` and `True` are alike.
-/
import Mathlib
import InferenceDriver.Py.Json

namespace InferenceDriver

inductive Value where
  | null
  | bool (b : Bool)
  | int (n : Int)
  | float (x : PyFloat)
  | str (s : Text)
  | seq (items : List Value)
  | map (items : List (Value × Value))
  /-- A date, a time or bytes: the name of its type, and how it is written. -/
  | other (kind text : Text)

namespace Value

def isNull : Value → Bool
  | null => true
  | _ => false

theorem isNull_iff {v : Value} : v.isNull = true ↔ v = .null := by
  cases v <;> simp [isNull]

/-- `value == s`, for a string `s`. -/
def isStr (v : Value) (s : Text) : Bool :=
  match v with
  | str s' => s' = s
  | _ => false

/-- The value under a string key; of a key that is there twice, the later. -/
def lookup (items : List (Value × Value)) (key : Text) : Option Value :=
  (items.reverse.find? fun e => e.1.isStr key).map (·.2)

/-- Whether `if value:` holds. -/
def truthy : Value → Bool
  | null => false
  | bool b => b
  | int n => n ≠ 0
  | float (.fin q) => q ≠ 0
  | float _ => true
  | str s => s ≠ []
  | seq items => !items.isEmpty
  | map items => !items.isEmpty
  | other _ text => text ≠ []

/-- `type(value).__name__`. -/
def typeName : Value → Text
  | null => "NoneType".toList
  | bool _ => "bool".toList
  | int _ => "int".toList
  | float _ => "float".toList
  | str _ => "str".toList
  | seq _ => "list".toList
  | map _ => "dict".toList
  | other kind _ => kind

/-! ## Equality -/

/-- The number a value is; a `bool` is one. -/
def number : Value → Option PyFloat
  | bool b => some (.fin (if b then 1 else 0))
  | int n => some (.fin n)
  | float x => some x
  | _ => none

def sameNumber : PyFloat → PyFloat → Bool
  | .fin a, .fin b => a = b
  | .inf a, .inf b => a = b
  | _, _ => false

/-- `==` of values that hold no others. -/
def scalarEq (a b : Value) : Bool :=
  match a, b with
  | null, null => true
  | str s, str t => s = t
  | other k s, other l t => k = l && s = t
  | a, b =>
      match a.number, b.number with
      | some x, some y => sameNumber x y
      | _, _ => false

mutual

/-- `==`. -/
def eq : Value → Value → Bool
  | seq xs, seq ys => eqAll xs ys
  | map xs, map ys => xs.length = ys.length && within xs ys
  | a, b => scalarEq a b

def eqAll : List Value → List Value → Bool
  | [], [] => true
  | x :: xs, y :: ys => eq x y && eqAll xs ys
  | _, _ => false

/-- Each item of a mapping is one of another. -/
def within : List (Value × Value) → List (Value × Value) → Bool
  | [], _ => true
  | (k, v) :: rest, ys => ys.any (fun e => eq k e.1 && eq v e.2) && within rest ys

end

end Value

end InferenceDriver

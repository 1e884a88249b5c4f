/-
JSON values as Python's `json` module reads them.

Numbers with a fraction or an exponent are floats, and so are the names `NaN`, `Infinity` and
`-Infinity`, which the module accepts.  An object is the list of its keys and values, with one
value for each key.  `truthy` is what `if value:` asks, and `get` is the method of a dictionary,
which no other value has.
-/
import Mathlib.Data.Rat.Defs
import Mathlib.Tactic.Common

/-- A float: its exact value, or one of those that are not numbers. -/
inductive PyFloat
  | finite (q : ℚ)
  | inf
  | negInf
  | nan
deriving DecidableEq, Repr

/-- A JSON value. -/
inductive Json
  | null
  | bool (b : Bool)
  | int (n : ℤ)
  | float (x : PyFloat)
  | str (s : List Char)
  | arr (values : List Json)
  | obj (fields : List (List Char × Json))

namespace Json

/-- `bool(value)` -/
def truthy : Json → Bool
  | null => false
  | bool b => b
  | int n => n ≠ 0
  | float x => x ≠ .finite 0
  | str s => s ≠ []
  | arr values => !values.isEmpty
  | obj fields => !fields.isEmpty

/-- `isinstance(value, dict)` -/
def isObj : Json → Bool
  | obj _ => true
  | _ => false

/-- `type(value).__name__` -/
def typeName : Json → List Char
  | null => "NoneType".toList
  | bool _ => "bool".toList
  | int _ => "int".toList
  | float _ => "float".toList
  | str _ => "str".toList
  | arr _ => "list".toList
  | obj _ => "dict".toList

/-- `fields.get(key)`, if the key is there -/
def lookup (key : List Char) : List (List Char × Json) → Option Json
  | [] => none
  | field :: fields => if field.1 = key then some field.2 else lookup key fields

/-- `value.get(key, default)`; only a dictionary has the method. -/
def getD (value : Json) (key : List Char) (default : Json) : Option Json :=
  match value with
  | obj fields => some ((lookup key fields).getD default)
  | _ => none

/-- `value or {}` -/
def orEmpty (value : Json) : Json := if value.truthy then value else obj []

lemma isSome_getD (value : Json) (key : List Char) (default : Json) :
    (value.getD key default).isSome = value.isObj := by
  cases value <;> rfl

end Json

/-
JSON values as Python holds them.

A string is its code points; `json.loads` lets a lone surrogate stand in one, and reads `NaN` and
`Infinity`.  A response cannot hold either: it is written in UTF-8 and without those floats.
`renders` says of a value that it can be written.
-/
import Mathlib
import PalaceDaemon.Lib.Json

/-- A string of Python: its code points. -/
abbrev PyStr := List ℕ

namespace PyStr

/-- The string of a literal. -/
def of (s : String) : PyStr := s.toList.map Char.toNat

/-- `s.encode("utf-8")` does not raise. -/
def encodes (s : PyStr) : Bool := s.all fun c => c < 0xD800 || 0xE000 ≤ c

/-- `part in s` -/
def includes (part s : PyStr) : Bool := decide (part <:+: s)

@[simp]
lemma encodes_of (s : String) : encodes (of s) = true := by
  simp only [encodes, of, List.all_map, List.all_eq_true, Function.comp_apply]
  intro c _
  have hc := c.valid
  simp only [UInt32.isValidChar, Nat.isValidChar] at hc
  simp only [Bool.or_eq_true, decide_eq_true_eq, Char.toNat]
  omega

lemma of_injective : Function.Injective of := by
  intro s t h
  apply String.toList_injective
  refine List.map_injective_iff.2 (fun _ _ hc => ?_) h
  exact Char.ext (UInt32.toNat_inj.1 hc)

@[simp]
lemma of_inj {s t : String} : of s = of t ↔ s = t := of_injective.eq_iff

@[simp]
lemma encodes_append (s t : PyStr) : encodes (s ++ t) = (encodes s && encodes t) :=
  List.all_append

end PyStr

/-- A JSON value. -/
inductive PyJson
  | null
  | bool (b : Bool)
  | int (n : ℤ)
  | float (x : PyFloat)
  | str (s : PyStr)
  | arr (values : List PyJson)
  | obj (fields : List (PyStr × PyJson))

namespace PyJson

/-- `isinstance(value, dict)` -/
def isObj : PyJson → Bool
  | obj _ => true
  | _ => false

/-- `hash(value)` does not raise. -/
def hashable : PyJson → Bool
  | arr _ => false
  | obj _ => false
  | _ => true

/-- `value == text` -/
def isText (value : PyJson) (text : String) : Bool :=
  match value with
  | str s => s = PyStr.of text
  | _ => false

/-- The value of a key, if it is there. -/
def field? (value : PyJson) (key : String) : Option PyJson :=
  match value with
  | obj fields => fields.lookup (PyStr.of key)
  | _ => none

/-- `value.get(key)` -/
def get (value : PyJson) (key : String) : PyJson := (value.field? key).getD null

/-- The entries of a dictionary; any other value has none. -/
def fieldsOf : PyJson → List (PyStr × PyJson)
  | obj fields => fields
  | _ => []

/-- `fields[key] = value` -/
def setField (key : PyStr) (value : PyJson) : List (PyStr × PyJson) → List (PyStr × PyJson)
  | [] => [(key, value)]
  | f :: fields => if f.1 = key then (key, value) :: fields else f :: setField key value fields

/-- `list(value)`, unless it raises. -/
def iterated : PyJson → Option (List PyJson)
  | str s => some (s.map fun c => str [c])
  | arr values => some values
  | obj fields => some (fields.map fun f => str f.1)
  | _ => none

mutual

/-- The value can be written in a response. -/
def renders : PyJson → Bool
  | null => true
  | bool _ => true
  | int _ => true
  | float (.finite _) => true
  | float _ => false
  | str s => PyStr.encodes s
  | arr values => rendersAll values
  | obj fields => rendersFields fields

def rendersAll : List PyJson → Bool
  | [] => true
  | v :: values => renders v && rendersAll values

def rendersFields : List (PyStr × PyJson) → Bool
  | [] => true
  | f :: fields => PyStr.encodes f.1 && renders f.2 && rendersFields fields

end

end PyJson

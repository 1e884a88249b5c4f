/-
Python's `==` and `>=` on the values that JSON can hold.

Numbers compare by value, and a boolean is a number; texts compare by their code points and
arrays element by element.  Other values, and values of different kinds, are equal or not but
in no order.
-/
import Mathlib
import PalaceDaemon.Lib.PyValue

namespace PyFloat

/-- `x <= y` -/
def le : PyFloat → PyFloat → Bool
  | nan, _ => false
  | _, nan => false
  | negInf, _ => true
  | _, inf => true
  | finite p, finite q => p ≤ q
  | _, _ => false

end PyFloat

namespace Json

/-- The value of a number. -/
def number : Json → Option PyFloat
  | bool b => some (.finite (if b then 1 else 0))
  | int n => some (.finite n)
  | float x => some x
  | _ => none

mutual

/-- `v == w` -/
def eq : Json → Json → Bool
  | null, null => true
  | str s, str t => s = t
  | arr vs, arr ws => eqItems vs ws
  | obj fields, obj fields' => fields.length = fields'.length && eqFields fields fields'
  | v, w =>
      match v.number, w.number with
      | some x, some y => x.le y && y.le x
      | _, _ => false

/-- Two arrays of the same length with equal elements. -/
def eqItems : List Json → List Json → Bool
  | [], [] => true
  | v :: vs, w :: ws => eq v w && eqItems vs ws
  | _, _ => false

/-- The other object has each of the fields. -/
def eqFields : List (List Char × Json) → List (List Char × Json) → Bool
  | [], _ => true
  | (k, v) :: fields, fields' =>
      (match lookup k fields' with
        | some w => eq v w
        | none => false) && eqFields fields fields'

end

mutual

/-- `v >= w` -/
def ge : Json → Json → Except PyExc Bool
  | str s, str t => .ok (t ≤ s)
  | arr vs, arr ws => geItems vs ws
  | v, w =>
      match v.number, w.number with
      | some x, some y => .ok (y.le x)
      | _, _ => .error .typeError

/-- The first elements that differ decide. -/
def geItems : List Json → List Json → Except PyExc Bool
  | _, [] => .ok true
  | [], _ :: _ => .ok false
  | v :: vs, w :: ws => if eq v w then geItems vs ws else ge v w

end

/-- Two values that `>=` can compare. -/
def Comparable (v w : Json) : Prop := ∃ b, ge v w = .ok b

/-- Any two texts are in order. -/
lemma comparable_str (s t : List Char) : Comparable (str s) (str t) := ⟨decide (t ≤ s), by
  rw [ge.eq_def]⟩

end Json

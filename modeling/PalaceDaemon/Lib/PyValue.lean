/-
Python's `int()` and its dictionary keys, on the values that JSON can hold.

`int` truncates a float, reads the decimal digits of a text, and has no result for null, an array
or an object.  Of a text it takes the spaces at both ends away, the separators U+001C to U+001F not
among them, and it refuses more than 4300 digits.  A key of a dictionary has to be hashable: an
array and an object are not.  Two keys are the same when Python finds them equal, so a number is
the same key as a boolean or a float of its value.
-/
import Mathlib.Data.List.DropRight
import PalaceDaemon.Lib.Json
import PalaceDaemon.Lib.PyText

/-- The exceptions that reading a value can raise. -/
inductive PyExc
  | attributeError
  | keyError
  | typeError
  | valueError
  | overflowError
deriving DecidableEq, Repr

namespace PyText

/-- The value of a decimal digit, in ASCII or elsewhere. -/
def digitValue (c : Char) : ℕ :=
  match (48 :: zeros).find? fun z => z ≤ c.toNat && c.toNat < z + 10 with
  | some z => c.toNat - z
  | none => 0

/-- The spaces around a numeral: those of `str.isspace` without U+001C to U+001F. -/
def isNumeralSpace (c : Char) : Bool := isSpace c && !(28 ≤ c.toNat && c.toNat ≤ 31)

/-- `sys.get_int_max_str_digits()` -/
def maxStrDigits : ℕ := 4300

/-- `int(s)`, if it does not raise `ValueError`: a sign, and digits with single underscores between
them. -/
def toInt (s : List Char) : Option ℤ :=
  let body := (s.dropWhile isNumeralSpace).rdropWhile isNumeralSpace
  let digits := if body.head?.any (· ∈ ['+', '-']) then body.tail else body
  let groups := digits.splitOn '_'
  if (groups.all fun g => g ≠ [] ∧ g.all isDecimal = true) ∧
      groups.flatten.length ≤ maxStrDigits then
    let n : ℕ := groups.flatten.foldl (fun n c => n * 10 + digitValue c) 0
    some (if body.head? = some '-' then -n else n)
  else none

end PyText

namespace Json

/-- `int(value)` -/
def toInt : Json → Except PyExc ℤ
  | null => .error .typeError
  | bool b => .ok (if b then 1 else 0)
  | int n => .ok n
  | float (.finite q) => .ok (q.num.tdiv q.den)
  | float .nan => .error .valueError
  | float _ => .error .overflowError
  | str s =>
      match PyText.toInt s with
      | some n => .ok n
      | none => .error .valueError
  | arr _ => .error .typeError
  | obj _ => .error .typeError

/-- `value or 0` -/
def orZero (value : Json) : Json := if value.truthy then value else int 0

/-- A value as a key of a dictionary. -/
inductive Key
  | none
  | number (x : PyFloat)
  | text (s : List Char)
deriving DecidableEq, Repr

/-- `hash(value)`, by what it is the same key as. -/
def key : Json → Except PyExc Key
  | null => .ok .none
  | bool b => .ok (.number (.finite (if b then 1 else 0)))
  | int n => .ok (.number (.finite n))
  | float x => .ok (.number x)
  | str s => .ok (.text s)
  | arr _ => .error .typeError
  | obj _ => .error .typeError

end Json

/-! ### Computations that can raise -/

namespace Except

lemma isOk_iff {α ε : Type*} {x : Except ε α} : x.isOk = true ↔ ∃ a, x = .ok a := by
  cases x with
  | ok a => exact iff_of_true rfl ⟨a, rfl⟩
  | error exc => exact iff_of_false (by rintro ⟨⟩) (by rintro ⟨a, ha⟩; cases ha)

variable {α β ε : Type}

lemma mapM_ok {f : α → Except ε β} {xs : List α} {ys : List β}
    (h : xs.mapM f = .ok ys) : ys.length = xs.length ∧ (∀ x ∈ xs, ∃ y ∈ ys, f x = .ok y) ∧
      ∀ y ∈ ys, ∃ x ∈ xs, f x = .ok y := by
  induction xs generalizing ys with
  | nil =>
      obtain rfl := Except.ok.inj h
      exact ⟨rfl, nofun, nofun⟩
  | cons x xs ih =>
      rw [List.mapM_cons] at h
      cases hx : f x with
      | error exc =>
          rw [hx] at h
          cases h
      | ok y =>
          cases hxs : xs.mapM f with
          | error exc =>
              rw [hx, hxs] at h
              cases h
          | ok zs =>
              rw [hx, hxs] at h
              obtain rfl : y :: zs = ys := Except.ok.inj h
              obtain ⟨hlength, himage, hsource⟩ := ih hxs
              refine ⟨congrArg (· + 1) hlength, fun z hz => ?_, fun z hz => ?_⟩
              · rcases List.mem_cons.1 hz with rfl | hz
                · exact ⟨y, List.mem_cons_self, hx⟩
                · obtain ⟨w, hw, hfw⟩ := himage z hz
                  exact ⟨w, List.mem_cons_of_mem _ hw, hfw⟩
              · rcases List.mem_cons.1 hz with rfl | hz
                · exact ⟨x, List.mem_cons_self, hx⟩
                · obtain ⟨w, hw, hfw⟩ := hsource z hz
                  exact ⟨w, List.mem_cons_of_mem _ hw, hfw⟩

lemma mapM_total {f : α → Except ε β} {xs : List α}
    (h : ∀ x ∈ xs, ∃ y, f x = .ok y) : ∃ ys, xs.mapM f = .ok ys := by
  induction xs with
  | nil => exact ⟨[], rfl⟩
  | cons x xs ih =>
      obtain ⟨y, hy⟩ := h x List.mem_cons_self
      obtain ⟨ys, hys⟩ := ih fun z hz => h z (List.mem_cons_of_mem _ hz)
      refine ⟨y :: ys, ?_⟩
      rw [List.mapM_cons, hy, hys]
      rfl

end Except

/-
Python's floats, as far as their range goes.

A result is exact while it is in the range of a double, and infinite beyond: what rounding does to
the last place is left out.  An integer that is out of range cannot be made a float.
-/
import Mathlib.Algebra.Order.Ring.Rat
import Mathlib.Tactic.Linarith
import Mathlib.Tactic.NormNum
import PalaceDaemon.Lib.PyValue
import PalaceDaemon.Lib.PyOrder

namespace PyFloat

/-- The least number that rounds to infinity. -/
def limit : ℚ := 2 ^ 1024 - 2 ^ 970

lemma limit_pos : 0 < limit :=
  sub_pos.2 (pow_lt_pow_right₀ (by norm_num) (by norm_num))

lemma lt_limit {q : ℚ} (h : q < 2 ^ 970) : q < limit := by
  have hlimit : limit = 2 ^ 970 * (2 ^ 54 - 1) := by
    rw [limit, mul_sub, mul_one, ← pow_add]
  have hpos : (0 : ℚ) ≤ 2 ^ 970 := pow_nonneg (by norm_num) 970
  calc q < 2 ^ 970 * 1 := h.trans_eq (mul_one _).symm
    _ ≤ 2 ^ 970 * (2 ^ 54 - 1) := mul_le_mul_of_nonneg_left (by norm_num) hpos
    _ = limit := hlimit.symm

/-- A number as a float. -/
def ofRat (q : ℚ) : PyFloat :=
  if limit ≤ q then inf else if q ≤ -limit then negInf else finite q

/-- `float` of the text of a number. -/
def ofText : PyFloat → PyFloat
  | finite q => ofRat q
  | x => x

/-- `x - y` -/
def sub : PyFloat → PyFloat → PyFloat
  | finite x, finite y => ofRat (x - y)
  | nan, _ => nan
  | _, nan => nan
  | inf, inf => nan
  | inf, _ => inf
  | negInf, negInf => nan
  | negInf, _ => negInf
  | finite _, inf => negInf
  | finite _, negInf => inf

/-- `x < y` -/
def lt : PyFloat → PyFloat → Bool
  | finite x, finite y => x < y
  | negInf, finite _ => true
  | negInf, inf => true
  | finite _, inf => true
  | _, _ => false

/-- `int(x)` does not raise. -/
def isFinite : PyFloat → Bool
  | finite _ => true
  | _ => false

/-- `max(0.0, x)` -/
def maxZero (x : PyFloat) : PyFloat := if lt (finite 0) x then x else finite 0

lemma ofRat_cases (q : ℚ) : limit ≤ q ∧ ofRat q = inf ∨ q ≤ -limit ∧ ofRat q = negInf ∨
    -limit < q ∧ q < limit ∧ ofRat q = finite q := by
  rw [ofRat]
  split_ifs with hhigh hlow
  · exact .inl ⟨hhigh, rfl⟩
  · exact .inr (.inl ⟨hlow, rfl⟩)
  · exact .inr (.inr ⟨not_le.1 hlow, not_le.1 hhigh, rfl⟩)

/-- A difference is positive when the second number is the smaller. -/
lemma lt_zero_sub_iff (x y : PyFloat) : lt (finite 0) (sub x y) = true ↔ lt y x = true := by
  cases x <;> cases y <;> try simp [sub, lt]
  case finite.finite a b =>
    rcases ofRat_cases (a - b) with ⟨h, hq⟩ | ⟨h, hq⟩ | ⟨-, -, hq⟩
    · have := limit_pos
      simp only [hq, true_iff]
      linarith
    · have := limit_pos
      simp only [hq, Bool.false_eq_true, false_iff, not_lt]
      linarith
    · simp [hq]

/-- What a positive difference from infinity is. -/
lemma inf_sub_eq {y : PyFloat} (h : lt (finite 0) (sub inf y) = true) : sub inf y = inf := by
  cases y <;> first | rfl | exact absurd h nofun

/-- What is left of a number after a positive or negative part is taken away. -/
lemma le_sub_iff {i t : ℚ} (hi : i < limit) {y : PyFloat}
    (hpos : lt (finite 0) (sub (finite i) (sub (finite t) y)) = true) :
    le (sub (finite i) (sub (finite t) y)) (finite i) = true ↔ le y (finite t) = true := by
  cases y
  case inf => simp [sub, le]
  case negInf => simp [sub, lt] at hpos
  case nan => simp [sub, lt] at hpos
  case finite a =>
    have hle : le (finite a) (finite t) = true ↔ a ≤ t := by
      simp [le]
    rw [hle]
    rcases ofRat_cases (t - a) with ⟨h, hq⟩ | ⟨h, hq⟩ | ⟨-, -, hq⟩
    · simp [sub, hq, lt] at hpos
    · have := limit_pos
      simp only [sub, hq, le, Bool.false_eq_true, false_iff, not_le]
      linarith
    · simp only [sub, hq] at hpos ⊢
      rcases ofRat_cases (i - (t - a)) with ⟨h', hq'⟩ | ⟨h', hq'⟩ | ⟨-, -, hq'⟩
      · simp only [hq', le, Bool.false_eq_true, false_iff, not_le]
        linarith
      · simp [hq', lt] at hpos
      · simp only [hq', le, decide_eq_true_eq]
        constructor <;> intro h <;> linarith

lemma isFinite_of_le {x : PyFloat} {q : ℚ} (hpos : lt (finite 0) x = true)
    (hle : le x (finite q) = true) : x.isFinite = true := by
  cases x <;> first | rfl | simp [le, lt] at hle hpos

/-- A setting that a text gives is in range. -/
lemma maxZero_ofText_lt {x : PyFloat} {q : ℚ} (h : maxZero (ofText x) = finite q) : q < limit := by
  rw [maxZero] at h
  split_ifs at h
  · rcases x with a | _ | _ | _
    · rcases ofRat_cases a with ⟨-, hq⟩ | ⟨-, hq⟩ | ⟨-, hlt, hq⟩
      · rw [ofText, hq] at h
        cases h
      · rw [ofText, hq] at h
        cases h
      · rw [ofText, hq] at h
        cases h
        exact hlt
    · cases h
    · cases h
    · cases h
  · cases h
    exact limit_pos

end PyFloat

namespace Json

/-- `float(value)`, where `parse` reads the text of a number. -/
def toFloat (parse : List Char → Option PyFloat) : Json → Except PyExc PyFloat
  | bool b => .ok (.finite (if b then 1 else 0))
  | int n =>
    if -PyFloat.limit < n ∧ n < PyFloat.limit then .ok (.finite n) else .error .overflowError
  | float x => .ok x
  | str s => match parse s with
    | some x => .ok x
    | none => .error .valueError
  | _ => .error .typeError

/-- `value == number`, for a number. -/
def equals (value : Json) (q : ℚ) : Bool :=
  match value with
  | bool b => (if b then 1 else 0) = q
  | int n => n = q
  | float (.finite x) => x = q
  | _ => false

end Json

/-
Texts, as the methods of Python's `str` and its regular expressions take them.

A text is the list of its code points.
-/
import Mathlib.Data.List.TakeWhile
import Mathlib.Tactic.Common

namespace PyText

/-- A shortcut for the tests of membership in a list of texts. -/
instance lawfulBEqText : LawfulBEq (List Char) := List.instLawfulBEq

/-- `str.isspace` of a character, and the class `\s` of a regular expression -/
def isSpace (c : Char) : Bool :=
  c.toNat ∈ [9, 10, 11, 12, 13, 28, 29, 30, 31, 32, 0x85, 0xA0, 0x1680, 0x2028, 0x2029, 0x202F,
    0x205F, 0x3000] ∨ 0x2000 ≤ c.toNat ∧ c.toNat ≤ 0x200A

/-- The decimal digits outside ASCII: the code points of the digits zero. -/
def zeros : List ℕ :=
  [0x660, 0x6F0, 0x7C0, 0x966, 0x9E6, 0xA66, 0xAE6, 0xB66, 0xBE6, 0xC66, 0xCE6, 0xD66, 0xDE6,
    0xE50, 0xED0, 0xF20, 0x1040, 0x1090, 0x17E0, 0x1810, 0x1946, 0x19D0, 0x1A80, 0x1A90, 0x1B50,
    0x1BB0, 0x1C40, 0x1C50, 0xA620, 0xA8D0, 0xA900, 0xA9D0, 0xA9F0, 0xAA50, 0xABF0, 0xFF10,
    0x104A0, 0x10D30, 0x11066, 0x110F0, 0x11136, 0x111D0, 0x112F0, 0x11450, 0x114D0, 0x11650,
    0x116C0, 0x11730, 0x118E0, 0x11950, 0x11C50, 0x11D50, 0x11DA0, 0x16A60, 0x16AC0, 0x16B50,
    0x1D7CE, 0x1D7D8, 0x1D7E2, 0x1D7EC, 0x1D7F6, 0x1E140, 0x1E2F0, 0x1E950, 0x1FBF0]

/-- The class `\d` of a regular expression -/
def isDecimal (c : Char) : Bool :=
  if c.toNat < 128 then c.isDigit else zeros.any fun z => z ≤ c.toNat && c.toNat < z + 10

/-- `str.strip` -/
def strip (s : List Char) : List Char := ((s.dropWhile isSpace).reverse.dropWhile isSpace).reverse

/-- `s[start:stop]` with indices that are not negative -/
def slice (s : List Char) (start stop : ℕ) : List Char := (s.take stop).drop start

lemma strip_eq_self {s : List Char} (hfirst : ∀ c ∈ s.head?, isSpace c = false)
    (hlast : ∀ c ∈ s.getLast?, isSpace c = false) : strip s = s := by
  have hdrop : ∀ {l : List Char}, (∀ c ∈ l.head?, isSpace c = false) → l.dropWhile isSpace = l := by
    intro l hl
    cases l with
    | nil => rfl
    | cons c l => rw [List.dropWhile_cons_of_neg (by simp [hl c rfl])]
  rw [strip, hdrop hfirst, hdrop (by simpa using hlast), List.reverse_reverse]

lemma isSpace_of_strip {s : List Char} (h : strip s = []) : ∀ c ∈ s, isSpace c = true := by
  rw [strip, List.reverse_eq_nil_iff, List.dropWhile_eq_nil_iff] at h
  have hdrop : s.dropWhile isSpace = [] := by
    rcases hs : s.dropWhile isSpace with _ | ⟨c, cs⟩
    · rfl
    · have hc : isSpace c = true := h c (by simp [hs])
      have hhead := List.head?_dropWhile_not isSpace s
      simp [hs, hc] at hhead
  exact List.dropWhile_eq_nil_iff.1 hdrop

lemma length_slice {s : List Char} {start stop : ℕ} (hstop : stop ≤ s.length) :
    (slice s start stop).length = stop - start := by
  rw [slice, List.length_drop, List.length_take, Nat.min_eq_left hstop]

lemma getElem?_slice {s : List Char} {start stop i : ℕ} (h : start + i < stop) :
    (slice s start stop)[i]? = s[start + i]? := by
  rw [slice, List.getElem?_drop, List.getElem?_take_of_lt h]

lemma head?_slice {s : List Char} {start stop : ℕ} (h : start < stop) :
    (slice s start stop).head? = s[start]? := by
  rw [List.head?_eq_getElem?]
  exact getElem?_slice h

lemma getLast?_slice {s : List Char} {start stop : ℕ} (h : start < stop) (hstop : stop ≤ s.length) :
    (slice s start stop).getLast? = s[stop - 1]? := by
  rw [List.getLast?_eq_getElem?, length_slice hstop, getElem?_slice (by omega)]
  congr 1
  omega

end PyText

/-
Python's `int(s)` and `str(n)` between strings and integers.

`int` takes signs, spaces around the numeral, underscores between digits and the decimal digits of
any script; both refuse numerals of more digits than `maxStrDigits`.  `readInt_strInt` says that
what `str` writes is read back.
-/
import PalaceDaemon.Lib.JsonText
import PalaceDaemon.Lib.PyJson
import PalaceDaemon.Lib.PyValue

namespace PyText

/-- `str(n)`, if it does not raise `ValueError` -/
def strInt (n : ℤ) : Option (List Char) :=
  if (Nat.toDigits 10 n.natAbs).length ≤ maxStrDigits then some (Json.dumpsInt n) else none

end PyText

namespace PyStr

/-- `int(s)`, if it does not raise `ValueError` -/
def readInt (s : PyStr) : Option ℤ :=
  if s.encodes then PyText.toInt (s.map Char.ofNat) else none

/-- `str(n)`, if it does not raise `ValueError` -/
def strInt (n : ℤ) : Option PyStr := (PyText.strInt n).map fun s => s.map Char.toNat

end PyStr

namespace PyText

lemma digitValue_of_isDigit {c : Char} (h : c.isDigit = true) :
    digitValue c = c.toNat - '0'.toNat := by
  have hrange : 48 ≤ c.toNat ∧ c.toNat ≤ 57 := Char.isDigit_iff_toNat.1 h
  rw [digitValue, List.find?_cons_of_pos]
  · rfl
  · simp only [Bool.and_eq_true, decide_eq_true_eq]
    omega

lemma isDecimal_of_isDigit {c : Char} (h : c.isDigit = true) : isDecimal c = true := by
  have hrange : 48 ≤ c.toNat ∧ c.toNat ≤ 57 := Char.isDigit_iff_toNat.1 h
  rw [isDecimal, if_pos (by omega), h]

lemma isSpace_of_isDigit {c : Char} (h : c.isDigit = true) : isSpace c = false := by
  have hrange : 48 ≤ c.toNat ∧ c.toNat ≤ 57 := Char.isDigit_iff_toNat.1 h
  simp only [isSpace, List.mem_cons, List.not_mem_nil, or_false, decide_eq_false_iff_not]
  omega

/-- The value of digits, as it is put together from the left. -/
lemma foldl_digitValue {ds : List Char} (h : ∀ c ∈ ds, c.isDigit = true) (n : ℕ) :
    ds.foldl (fun n c => n * 10 + digitValue c) n = Nat.ofDigitChars 10 ds n := by
  induction ds generalizing n with
  | nil => rfl
  | cons c ds ih =>
    rw [List.foldl_cons, Nat.ofDigitChars_cons, digitValue_of_isDigit (h c List.mem_cons_self),
      ih (fun d hd => h d (List.mem_cons_of_mem c hd)), mul_comm n 10]

lemma toDigits_isDigit (n : ℕ) : ∀ c ∈ Nat.toDigits 10 n, c.isDigit = true := fun _ hc =>
  Nat.isDigit_of_mem_toDigits (by omega) le_rfl hc

lemma isDigit_or_minus {n : ℤ} {c : Char} (h : c ∈ Json.dumpsInt n) :
    c.isDigit = true ∨ c = '-' := by
  rw [Json.dumpsInt] at h
  split_ifs at h
  · rcases List.mem_cons.1 h with rfl | h
    · exact Or.inr rfl
    · exact Or.inl (toDigits_isDigit _ c h)
  · exact Or.inl (toDigits_isDigit _ c h)

/-- What is written of an integer has no spaces. -/
lemma isSpace_of_mem_dumpsInt {n : ℤ} {c : Char} (h : c ∈ Json.dumpsInt n) : isSpace c = false := by
  rcases isDigit_or_minus h with h | rfl
  · exact isSpace_of_isDigit h
  · decide

lemma strip_dumpsInt (n : ℤ) : strip (Json.dumpsInt n) = Json.dumpsInt n :=
  strip_eq_self (fun _ hc => isSpace_of_mem_dumpsInt (List.mem_of_mem_head? hc))
    (fun _ hc => isSpace_of_mem_dumpsInt (List.mem_of_mem_getLast? hc))

lemma dropWhile_dumpsInt (n : ℤ) :
    ((Json.dumpsInt n).dropWhile isNumeralSpace).rdropWhile isNumeralSpace = Json.dumpsInt n := by
  have hspace : ∀ c ∈ Json.dumpsInt n, isNumeralSpace c = false := fun c hc => by
    rw [isNumeralSpace, isSpace_of_mem_dumpsInt hc, Bool.false_and]
  have hfirst : (Json.dumpsInt n).dropWhile isNumeralSpace = Json.dumpsInt n :=
    List.dropWhile_eq_self_iff.2 fun hpos => by
      rw [hspace _ (List.getElem_mem hpos)]
      decide
  rw [hfirst, List.rdropWhile_eq_self_iff]
  intro hne
  rw [hspace _ (List.getLast_mem hne)]
  decide

/-- Digits alone are read as their value. -/
lemma groups_toDigits (n : ℕ) : (Nat.toDigits 10 n).splitOn '_' = [Nat.toDigits 10 n] := by
  refine List.splitOnP_eq_singleton fun c hc => ?_
  have hdigit := toDigits_isDigit n c hc
  rw [beq_eq_false_iff_ne]
  rintro rfl
  cases hdigit

/-- **Read back.**  `int` reads what `str` writes. -/
theorem toInt_strInt {n : ℤ} {s : List Char} (h : strInt n = some s) :
    toInt s = some n ∧ strip s = s := by
  rw [strInt] at h
  split_ifs at h with hlength
  obtain rfl := Option.some.inj h
  refine ⟨?_, strip_dumpsInt n⟩
  have hdigits := toDigits_isDigit n.natAbs
  have hall : (Nat.toDigits 10 n.natAbs).all isDecimal = true :=
    List.all_eq_true.2 fun c hc => isDecimal_of_isDigit (hdigits c hc)
  have hvalue : (Nat.toDigits 10 n.natAbs).foldl (fun n c => n * 10 + digitValue c) 0 =
      n.natAbs := by
    rw [foldl_digitValue hdigits, Nat.ofDigitChars_ten_toDigits]
  have hne := Nat.toDigits_ne_nil (n := n.natAbs) (b := 10)
  rw [toInt, dropWhile_dumpsInt]
  by_cases hn : n < 0
  · have hform : Json.dumpsInt n = '-' :: Nat.toDigits 10 n.natAbs := if_pos hn
    have hsign : (some '-').any (fun c => decide (c ∈ ['+', '-'])) = true := by decide
    simp only [hform, List.head?_cons, hsign, if_true, List.tail_cons, groups_toDigits,
      List.all_cons, List.all_nil, Bool.and_true, List.flatten_cons, List.flatten_nil,
      List.append_nil, hvalue]
    rw [if_pos ⟨by simp [hne, hall], hlength⟩]
    congr 1
    omega
  · have hform : Json.dumpsInt n = Nat.toDigits 10 n.natAbs := if_neg hn
    obtain ⟨c, ds, hds⟩ := List.exists_cons_of_ne_nil hne
    have hc : c.isDigit = true := hdigits c (by rw [hds]; exact List.mem_cons_self)
    have hhead : (Nat.toDigits 10 n.natAbs).head? = some c := by rw [hds]; rfl
    have hsign : (some c).any (fun c => decide (c ∈ ['+', '-'])) = false := by
      simp only [Option.any_some, List.mem_cons, List.not_mem_nil, or_false,
        decide_eq_false_iff_not, not_or]
      constructor <;> rintro rfl <;> cases hc
    have hminus : ¬ (some c = some '-') := by
      rintro h
      cases h
      cases hc
    simp only [hform, hhead, hsign, Bool.false_eq_true, if_false, groups_toDigits,
      List.all_cons, List.all_nil, Bool.and_true, List.flatten_cons, List.flatten_nil,
      List.append_nil, hvalue, hminus]
    rw [if_pos ⟨by simp [hne, hall], hlength⟩]
    congr 1
    omega

end PyText

namespace PyStr

/-- The characters of a string that comes from characters. -/
lemma map_ofNat_toNat (cs : List Char) : (cs.map Char.toNat).map Char.ofNat = cs := by
  rw [List.map_map]
  exact (List.map_congr_left fun c _ => Char.ofNat_toNat c).trans (List.map_id cs)

lemma encodes_map_toNat (cs : List Char) : encodes (cs.map Char.toNat) = true := by
  have h := encodes_of (String.ofList cs)
  rwa [of, String.toList_ofList] at h

/-- What `str` writes is read back, and has no dot. -/
lemma readInt_strInt {n : ℤ} {s : PyStr} (h : strInt n = some s) :
    readInt s = some n ∧ '.'.toNat ∉ s := by
  obtain ⟨cs, hcs, rfl⟩ := Option.map_eq_some_iff.1 h
  constructor
  · rw [readInt, map_ofNat_toNat, if_pos (encodes_map_toNat _), (PyText.toInt_strInt hcs).1]
  · intro hmem
    obtain ⟨c, hc, heq⟩ := List.mem_map.1 hmem
    have hdot : c = '.' := Char.ext (UInt32.toNat_inj.1 heq)
    rw [PyText.strInt] at hcs
    split_ifs at hcs
    obtain rfl := Option.some.inj hcs
    rw [hdot] at hc
    rcases PyText.isDigit_or_minus hc with h | h
    · cases h
    · cases h

end PyStr

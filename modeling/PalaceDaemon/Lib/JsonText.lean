/-
The text of a JSON value, as `json.dumps` writes it and `json.loads` reads it.

`dumps` writes ASCII: every other character is an escape, and one outside the basic plane is a
pair of them.  `loads` reads any JSON, with white space between the tokens, and builds an object
the way a dictionary is built: a later value of a key replaces the earlier one.  It has no result
where the module raises, and the interpreter's limit on the digits of an integer is left out.
What is written for a float and what is read from its text are parameters.

The main result is the round trip (`loads_dumps`): a value without floats, whose objects have
every key once, is read back from its text.
-/
import Mathlib.Data.List.TakeDrop
import Mathlib.Tactic.IntervalCases
import PalaceDaemon.Lib.Json

namespace Json

/-! ### Writing -/

/-- A digit of `'{0:04x}'` -/
def hexDigit (n : ℕ) : Char := if n < 10 then Char.ofNat (48 + n) else Char.ofNat (87 + n)

/-- The escape of a code unit. -/
def escapeUnit (n : ℕ) : List Char :=
  ['\\', 'u', hexDigit (n / 4096 % 16), hexDigit (n / 256 % 16), hexDigit (n / 16 % 16),
    hexDigit (n % 16)]

/-- The characters that have an escape of one letter. -/
def shortEscapes : List (Char × Char) :=
  [('"', '"'), ('\\', '\\'), ('\n', 'n'), ('\r', 'r'), ('\t', 't'), ('\x0c', 'f'), ('\x08', 'b')]

/-- `py_encode_basestring_ascii`, on one character -/
def escapeChar (c : Char) : List Char :=
  match shortEscapes.lookup c with
  | some letter => ['\\', letter]
  | none =>
      if 32 ≤ c.toNat ∧ c.toNat ≤ 126 then [c]
      else if c.toNat < 0x10000 then escapeUnit c.toNat
      else escapeUnit (0xD800 + (c.toNat - 0x10000) / 0x400) ++
        escapeUnit (0xDC00 + (c.toNat - 0x10000) % 0x400)

/-- A text in quotes. -/
def dumpsText (s : List Char) : List Char := '"' :: s.flatMap escapeChar ++ ['"']

/-- `int.__repr__` -/
def dumpsInt (n : ℤ) : List Char :=
  if n < 0 then '-' :: Nat.toDigits 10 n.natAbs else Nat.toDigits 10 n.natAbs

section Dumps

variable (floatRepr : PyFloat → List Char)

mutual

/-- `json.dumps` -/
def dumps : Json → List Char
  | null => "null".toList
  | bool true => "true".toList
  | bool false => "false".toList
  | int n => dumpsInt n
  | float x => floatRepr x
  | str s => dumpsText s
  | arr [] => ['[', ']']
  | arr (v :: vs) => '[' :: dumps v ++ dumpsItems vs
  | obj [] => ['{', '}']
  | obj ((k, v) :: fields) => '{' :: dumpsText k ++ ": ".toList ++ dumps v ++ dumpsFields fields

/-- What follows the first element of an array. -/
def dumpsItems : List Json → List Char
  | [] => [']']
  | v :: vs => ", ".toList ++ dumps v ++ dumpsItems vs

/-- What follows the first field of an object. -/
def dumpsFields : List (List Char × Json) → List Char
  | [] => ['}']
  | (k, v) :: fields =>
      ", ".toList ++ dumpsText k ++ ": ".toList ++ dumps v ++ dumpsFields fields

end

end Dumps

/-! ### Reading -/

/-- White space between tokens -/
def isBlank (c : Char) : Bool := c ∈ [' ', '\t', '\n', '\r']

/-- What is left after the white space. -/
def skipBlanks (s : List Char) : List Char := s.dropWhile isBlank

/-- The value of a hexadecimal digit. -/
def hexValue (c : Char) : Option ℕ :=
  if 48 ≤ c.toNat ∧ c.toNat ≤ 57 then some (c.toNat - 48)
  else if 97 ≤ c.toNat ∧ c.toNat ≤ 102 then some (c.toNat - 87)
  else if 65 ≤ c.toNat ∧ c.toNat ≤ 70 then some (c.toNat - 55)
  else none

/-- The code unit of an escape, after the letter `u`. -/
def readUnit : List Char → Option (ℕ × List Char)
  | a :: b :: c :: d :: rest =>
      match hexValue a, hexValue b, hexValue c, hexValue d with
      | some a, some b, some c, some d => some (((a * 16 + b) * 16 + c) * 16 + d, rest)
      | _, _, _, _ => none
  | _ => none

/-- The escapes of one letter, by their letters; a solidus may be escaped too. -/
def letterEscapes : List (Char × Char) :=
  ('/', '/') :: shortEscapes.map fun e => (e.2, e.1)

/-- The second half of a character outside the basic plane, whose first half is `high`.  A half
without the other is a text of Python's that has no characters, and is not read here. -/
def readLow (high : ℕ) : List Char → Option (Char × List Char)
  | '\\' :: 'u' :: s =>
      match readUnit s with
      | some (low, rest) =>
          if 0xDC00 ≤ low ∧ low < 0xE000 then
            some (Char.ofNat (0x10000 + (high - 0xD800) * 0x400 + (low - 0xDC00)), rest)
          else none
      | none => none
  | _ => none

/-- A character of a text, or its escape. -/
def readChar : List Char → Option (Char × List Char)
  | '\\' :: 'u' :: s =>
      match readUnit s with
      | some (n, rest) =>
          if 0xD800 ≤ n ∧ n < 0xDC00 then readLow n rest
          else if 0xDC00 ≤ n ∧ n < 0xE000 then none
          else some (Char.ofNat n, rest)
      | none => none
  | '\\' :: letter :: rest => (letterEscapes.lookup letter).map fun c => (c, rest)
  | c :: rest => if 32 ≤ c.toNat ∧ c ≠ '\\' then some (c, rest) else none
  | [] => none

/-- The characters of a text up to the quote that ends it, when there are at most `n`. -/
def readText : ℕ → List Char → Option (List Char × List Char)
  | 0, _ => none
  | n + 1, s =>
      match s with
      | '"' :: rest => some ([], rest)
      | _ =>
          match readChar s with
          | some (c, rest) => (readText n rest).map fun r => (c :: r.1, r.2)
          | none => none

/-- `fields[key] = value` -/
def set (key : List Char) (value : Json) : List (List Char × Json) → List (List Char × Json)
  | [] => [(key, value)]
  | field :: fields =>
      if field.1 = key then (key, value) :: fields else field :: set key value fields

/-- The dictionary of the given keys and values, in the order they are set. -/
def dict (pairs : List (List Char × Json)) : List (List Char × Json) :=
  pairs.foldl (fun fields pair => set pair.1 pair.2 fields) []

section Loads

variable (floatOf : List Char → PyFloat)

/-- The digits a number begins with: one zero, or as many as there are. -/
def readDigits (s : List Char) : List Char × List Char :=
  match s with
  | '0' :: rest => (['0'], rest)
  | _ => s.span Char.isDigit

/-- The fraction of a number, if it has one. -/
def readFraction : List Char → List Char × List Char
  | '.' :: s =>
      if s.head?.any Char.isDigit then ('.' :: (s.span Char.isDigit).1, (s.span Char.isDigit).2)
      else ([], '.' :: s)
  | s => ([], s)

/-- The exponent of a number, if it has one. -/
def readExponent : List Char → List Char × List Char
  | e :: s =>
      let sign := s.take (if s.head?.any (· ∈ ['+', '-']) then 1 else 0)
      let digits := (s.drop sign.length).span Char.isDigit
      if e ∈ ['e', 'E'] ∧ digits.1 ≠ [] then (e :: sign ++ digits.1, digits.2) else ([], e :: s)
  | [] => ([], [])

/-- A number: an integer, unless it has a fraction or an exponent. -/
def readNumber (s : List Char) : Option (Json × List Char) :=
  let sign := s.takeWhile (· = '-')
  let (digits, s') := readDigits (s.drop sign.length)
  if 1 < sign.length ∨ digits = [] then none
  else
    let (fraction, s'') := readFraction s'
    let (exponent, rest) := readExponent s''
    if fraction = [] ∧ exponent = [] then
      some (int (if sign = [] then (Nat.ofDigitChars 10 digits 0 : ℤ)
        else -(Nat.ofDigitChars 10 digits 0 : ℤ)), rest)
    else some (float (floatOf (sign ++ digits ++ fraction ++ exponent)), rest)

/-- The names of values. -/
def names : List (List Char × Json) :=
  [("null".toList, null), ("true".toList, bool true), ("false".toList, bool false),
    ("NaN".toList, float .nan), ("Infinity".toList, float .inf),
    ("-Infinity".toList, float .negInf)]

/-- The name that a text begins with. -/
def readName (s : List Char) : Option (Json × List Char) :=
  (names.find? fun name => name.1.isPrefixOf s).map fun name => (name.2, s.drop name.1.length)

mutual

/-- `scan_once`: a value, when it is at most `n` deep and long. -/
def readValue : ℕ → List Char → Option (Json × List Char)
  | 0, _ => none
  | n + 1, s =>
      match s with
      | '"' :: rest => (readText n rest).map fun r => (str r.1, r.2)
      | '[' :: rest =>
          match skipBlanks rest with
          | ']' :: rest => some (arr [], rest)
          | rest =>
              match readValue n rest with
              | some (v, rest) => (readItems n rest).map fun r => (arr (v :: r.1), r.2)
              | none => none
      | '{' :: rest =>
          match skipBlanks rest with
          | '}' :: rest => some (obj [], rest)
          | rest => (readFields n rest).map fun r => (obj (dict r.1), r.2)
      | _ =>
          match readName s with
          | some r => some r
          | none => readNumber floatOf s

/-- The rest of an array, after one of its elements. -/
def readItems : ℕ → List Char → Option (List Json × List Char)
  | 0, _ => none
  | n + 1, s =>
      match skipBlanks s with
      | ']' :: rest => some ([], rest)
      | ',' :: rest =>
          match readValue n (skipBlanks rest) with
          | some (v, rest) => (readItems n rest).map fun r => (v :: r.1, r.2)
          | none => none
      | _ => none

/-- A field of an object and the ones after it. -/
def readFields : ℕ → List Char → Option (List (List Char × Json) × List Char)
  | 0, _ => none
  | n + 1, s =>
      match s with
      | '"' :: rest =>
          match readText n rest with
          | some (key, rest) =>
              match skipBlanks rest with
              | ':' :: rest =>
                  match readValue n (skipBlanks rest) with
                  | some (v, rest) =>
                      match skipBlanks rest with
                      | '}' :: rest => some ([(key, v)], rest)
                      | ',' :: rest =>
                          (readFields n (skipBlanks rest)).map fun r => ((key, v) :: r.1, r.2)
                      | _ => none
                  | none => none
              | _ => none
          | none => none
      | _ => none

end

/-- `json.loads` -/
def loads (s : List Char) : Option Json :=
  match readValue floatOf (s.length + 1) (skipBlanks s) with
  | some (v, rest) => if skipBlanks rest = [] then some v else none
  | none => none

end Loads

/-! ### The round trip of a text -/

lemma hexValue_hexDigit {n : ℕ} (hn : n < 16) : hexValue (hexDigit n) = some n := by
  interval_cases n <;> rfl

lemma readUnit_escape {n : ℕ} (hn : n < 0x10000) (rest : List Char) :
    readUnit (hexDigit (n / 4096 % 16) :: hexDigit (n / 256 % 16) :: hexDigit (n / 16 % 16) ::
      hexDigit (n % 16) :: rest) = some (n, rest) := by
  have h : ∀ m, hexValue (hexDigit (m % 16)) = some (m % 16) := fun m =>
    hexValue_hexDigit (Nat.mod_lt _ (by norm_num))
  simp only [readUnit, h, Option.some.injEq, Prod.mk.injEq, and_true]
  omega

lemma lookup_mem {α β : Type*} [DecidableEq α] {a : α} {b : β} {l : List (α × β)}
    (h : l.lookup a = some b) : (a, b) ∈ l := by
  induction l with
  | nil => cases h
  | cons x l ih =>
      rw [List.lookup_cons] at h
      by_cases hx : a = x.1
      · rw [hx, beq_self_eq_true] at h
        rw [← Option.some.inj h, hx]
        exact List.mem_cons_self
      · rw [beq_eq_false_iff_ne.2 hx] at h
        exact List.mem_cons_of_mem _ (ih h)

/-- An escape begins with a character that is not the quote. -/
lemma escapeChar_eq_cons (c : Char) : ∃ a l, escapeChar c = a :: l ∧ a ≠ '"' := by
  unfold escapeChar
  split
  · exact ⟨'\\', _, rfl, by decide⟩
  · next hnone =>
      split_ifs
      · refine ⟨c, [], rfl, ?_⟩
        rintro rfl
        cases hnone
      · exact ⟨'\\', _, rfl, by decide⟩
      · exact ⟨'\\', _, rfl, by decide⟩

lemma readChar_of_ne {c : Char} (hc : c ≠ '\\') (rest : List Char) :
    readChar (c :: rest) = if 32 ≤ c.toNat then some (c, rest) else none := by
  rw [readChar.eq_def]
  split
  · next h => exact absurd (List.cons.inj h).1 hc
  · next h => exact absurd (List.cons.inj h).1 hc
  · next h =>
      obtain ⟨rfl, rfl⟩ := List.cons.inj h
      simp [hc]
  · next h => cases h

lemma readChar_escapeUnit {n : ℕ} (hn : n < 0x10000) (rest : List Char) :
    readChar (escapeUnit n ++ rest) =
      if 0xD800 ≤ n ∧ n < 0xDC00 then readLow n rest
      else if 0xDC00 ≤ n ∧ n < 0xE000 then none
      else some (Char.ofNat n, rest) := by
  show (match readUnit (_ :: _ :: _ :: _ :: rest) with
    | some (n, rest) =>
        if 0xD800 ≤ n ∧ n < 0xDC00 then readLow n rest
        else if 0xDC00 ≤ n ∧ n < 0xE000 then none
        else some (Char.ofNat n, rest)
    | none => none) = _
  rw [readUnit_escape hn]

lemma readLow_escapeUnit {high low : ℕ} (hlow : 0xDC00 ≤ low ∧ low < 0xE000) (rest : List Char) :
    readLow high (escapeUnit low ++ rest) =
      some (Char.ofNat (0x10000 + (high - 0xD800) * 0x400 + (low - 0xDC00)), rest) := by
  show (match readUnit (_ :: _ :: _ :: _ :: rest) with
    | some (low, rest) =>
        if 0xDC00 ≤ low ∧ low < 0xE000 then
          some (Char.ofNat (0x10000 + (high - 0xD800) * 0x400 + (low - 0xDC00)), rest)
        else none
    | none => none) = _
  rw [readUnit_escape (by omega)]
  exact if_pos hlow

lemma not_surrogate (c : Char) :
    c.toNat < 0xD800 ∨ 0xDFFF < c.toNat ∧ c.toNat < 0x110000 := c.valid

/-- An escaped character is read back. -/
lemma readChar_escapeChar (c : Char) (rest : List Char) :
    readChar (escapeChar c ++ rest) = some (c, rest) := by
  have hvalid := not_surrogate c
  unfold escapeChar
  split
  · next letter hletter =>
      have hmem := lookup_mem hletter
      simp only [shortEscapes, List.mem_cons, Prod.mk.injEq, List.not_mem_nil, or_false] at hmem
      rcases hmem with ⟨rfl, rfl⟩ | ⟨rfl, rfl⟩ | ⟨rfl, rfl⟩ | ⟨rfl, rfl⟩ | ⟨rfl, rfl⟩ | ⟨rfl, rfl⟩ |
        ⟨rfl, rfl⟩ <;> rfl
  · next hnone =>
      split_ifs with hplain hbasic
      · have hne : c ≠ '\\' := by
          rintro rfl
          cases hnone
        rw [List.singleton_append, readChar_of_ne hne, if_pos hplain.1]
      · rw [readChar_escapeUnit hbasic, if_neg (by omega), if_neg (by omega), Char.ofNat_toNat]
      · -- two code units, the first of them a high one
        rw [List.append_assoc, readChar_escapeUnit (by omega), if_pos (by omega),
          readLow_escapeUnit (by omega)]
        have hchar : 0x10000 + (0xD800 + (c.toNat - 0x10000) / 0x400 - 0xD800) * 0x400 +
            (0xDC00 + (c.toNat - 0x10000) % 0x400 - 0xDC00) = c.toNat := by
          omega
        rw [hchar, Char.ofNat_toNat]

lemma readText_succ {n : ℕ} {s : List Char} (hs : s.head? ≠ some '"') :
    readText (n + 1) s = match readChar s with
      | some (c, rest) => (readText n rest).map fun r => (c :: r.1, r.2)
      | none => none := by
  rw [readText]
  rintro rest rfl
  exact hs rfl

/-- The characters of a text are read back. -/
lemma readText_dumps (s rest : List Char) {n : ℕ} (hn : s.length < n) :
    readText n (s.flatMap escapeChar ++ '"' :: rest) = some (s, rest) := by
  induction s generalizing n with
  | nil =>
      obtain ⟨m, rfl⟩ := Nat.exists_eq_succ_of_ne_zero (Nat.ne_of_gt hn)
      rfl
  | cons c s ih =>
      obtain ⟨m, rfl⟩ := Nat.exists_eq_succ_of_ne_zero (Nat.ne_of_gt (Nat.zero_lt_of_lt hn))
      obtain ⟨a, l, ha, hne⟩ := escapeChar_eq_cons c
      rw [List.flatMap_cons, List.append_assoc, readText_succ (by rw [ha]; simpa using hne),
        readChar_escapeChar]
      simp only
      rw [ih (by simpa using hn)]
      rfl
/-! ### The round trip of a value -/

/-- A value that is read back: no floats, and no key twice in an object. -/
inductive Plain : Json → Prop
  | null : Plain null
  | bool (b : Bool) : Plain (bool b)
  | int (n : ℤ) : Plain (int n)
  | str (s : List Char) : Plain (str s)
  | arr {values : List Json} (h : ∀ v ∈ values, Plain v) : Plain (arr values)
  | obj {fields : List (List Char × Json)} (h : ∀ f ∈ fields, Plain f.2)
      (hkeys : (fields.map Prod.fst).Nodup) : Plain (obj fields)

/-- What may follow a value: nothing that would continue a number. -/
def Ends (rest : List Char) : Prop :=
  ∀ c ∈ rest.head?, c.isDigit = false ∧ c ≠ '.' ∧ c ≠ 'e' ∧ c ≠ 'E'

lemma toDigits_head {n : ℕ} (hn : n ≠ 0) : (Nat.toDigits 10 n).head? ≠ some '0' := by
  induction n using Nat.strongRecOn with
  | ind n ih =>
      rw [Nat.toDigits_eq_if (by norm_num)]
      split_ifs with hlt
      · have hne : ∀ m, m < 10 → m ≠ 0 → m.digitChar ≠ '0' := by decide
        simpa using hne n hlt hn
      · have hne := Nat.toDigits_ne_nil (n := n / 10) (b := 10)
        obtain ⟨d, ds, hds⟩ := List.exists_cons_of_ne_nil hne
        have hhead := ih (n / 10) (by omega) (by omega)
        rw [hds] at hhead ⊢
        exact hhead

lemma readDigits_toDigits (n : ℕ) {rest : List Char} (hrest : Ends rest) :
    readDigits (Nat.toDigits 10 n ++ rest) = (Nat.toDigits 10 n, rest) := by
  by_cases hn : n = 0
  · rw [hn, Nat.toDigits_zero]
    rfl
  · have hhead := toDigits_head hn
    have hdigits : ∀ c ∈ Nat.toDigits 10 n, c.isDigit = true := fun c hc =>
      Nat.isDigit_of_mem_toDigits (by norm_num) le_rfl hc
    have hstop : rest.dropWhile Char.isDigit = rest ∧ rest.takeWhile Char.isDigit = [] := by
      cases rest with
      | nil => exact ⟨rfl, rfl⟩
      | cons c rest =>
          have hc : ¬ c.isDigit = true := by simp [(hrest c rfl).1]
          exact ⟨List.dropWhile_cons_of_neg hc, List.takeWhile_cons_of_neg hc⟩
    have hne : ∀ l, Nat.toDigits 10 n ++ rest ≠ '0' :: l := by
      rintro l hl
      obtain ⟨d, ds, hds⟩ := List.exists_cons_of_ne_nil (Nat.toDigits_ne_nil (n := n) (b := 10))
      rw [hds, List.cons_append] at hl
      rw [hds, (List.cons.inj hl).1] at hhead
      exact hhead rfl
    rw [readDigits]
    · rw [List.span_eq_takeWhile_dropWhile, List.takeWhile_append_of_pos hdigits,
        List.dropWhile_append_of_pos hdigits, hstop.1, hstop.2, List.append_nil]
    · exact hne

lemma readFraction_of_ends {rest : List Char} (hrest : Ends rest) :
    readFraction rest = ([], rest) := by
  cases rest with
  | nil => rfl
  | cons c rest =>
      have hc := (hrest c rfl).2.1
      rw [readFraction]
      rintro s hs
      exact hc (List.cons.inj hs).1

lemma readExponent_of_ends {rest : List Char} (hrest : Ends rest) :
    readExponent rest = ([], rest) := by
  cases rest with
  | nil => rfl
  | cons c rest =>
      obtain ⟨-, -, he, hE⟩ := hrest c rfl
      rw [readExponent]
      simp [he, hE]

variable {floatRepr : PyFloat → List Char} {floatOf : List Char → PyFloat}

lemma readNumber_dumpsInt (n : ℤ) {rest : List Char} (hrest : Ends rest) :
    readNumber floatOf (dumpsInt n ++ rest) = some (int n, rest) := by
  obtain ⟨d, ds, hds⟩ := List.exists_cons_of_ne_nil
    (Nat.toDigits_ne_nil (n := n.natAbs) (b := 10))
  have hd : ¬ d = '-' := by
    have hdigit := Nat.isDigit_of_mem_toDigits (b := 10) (n := n.natAbs) (by norm_num) le_rfl
      (hds ▸ List.mem_cons_self)
    rintro rfl
    cases hdigit
  have hread := readDigits_toDigits n.natAbs hrest
  have hsign : (Nat.toDigits 10 n.natAbs ++ rest).takeWhile (· = '-') = [] := by
    rw [hds]
    simp [hd]
  rw [dumpsInt]
  split_ifs with hneg
  · have hsign' : ('-' :: (Nat.toDigits 10 n.natAbs ++ rest)).takeWhile (· = '-') = ['-'] := by
      rw [List.takeWhile_cons_of_pos (by simp), hsign]
    simp only [readNumber, List.cons_append, hsign', List.length_singleton, List.drop_succ_cons,
      List.drop_zero, hread, readFraction_of_ends hrest, readExponent_of_ends hrest]
    simp [Nat.toDigits_ne_nil, Nat.ofDigitChars_ten_toDigits, abs_of_neg hneg]
  · simp only [readNumber, hsign, List.length_nil, List.drop_zero, hread,
      readFraction_of_ends hrest, readExponent_of_ends hrest]
    simp [Nat.toDigits_ne_nil, Nat.ofDigitChars_ten_toDigits]
    omega

/-! A value begins with a character that is not white space, and is not empty. -/

lemma toDigits_cons (n : ℕ) :
    ∃ c l, Nat.toDigits 10 n = c :: l ∧ c.isDigit = true := by
  obtain ⟨d, ds, hds⟩ := List.exists_cons_of_ne_nil (Nat.toDigits_ne_nil (n := n) (b := 10))
  exact ⟨d, ds, hds, Nat.isDigit_of_mem_toDigits (by norm_num) le_rfl (hds ▸ List.mem_cons_self)⟩

/-- What a value begins with. -/
lemma dumps_cons (floatRepr : PyFloat → List Char) {v : Json} (hv : Plain v) :
    ∃ c l, dumps floatRepr v = c :: l ∧ isBlank c = false ∧ c ≠ ']' := by
  have hdigit : ∀ c : Char, c.isDigit = true → isBlank c = false ∧ c ≠ ']' := by
    intro c hc
    have hval : 48 ≤ c.toNat := by
      simp only [Char.isDigit, Bool.and_eq_true, decide_eq_true_eq] at hc
      exact hc.1
    refine ⟨?_, ?_⟩
    · simp only [isBlank, List.mem_cons, List.not_mem_nil, or_false, decide_eq_false_iff_not]
      rintro (rfl | rfl | rfl | rfl) <;> exact absurd hval (by decide)
    · rintro rfl
      cases hc
  cases hv with
  | null => exact ⟨'n', _, rfl, rfl, by decide⟩
  | bool b => cases b with
    | true => exact ⟨'t', _, rfl, rfl, by decide⟩
    | false => exact ⟨'f', _, rfl, rfl, by decide⟩
  | int n =>
      simp only [dumps, dumpsInt]
      split_ifs
      · exact ⟨'-', _, rfl, rfl, by decide⟩
      · obtain ⟨c, l, hcl, hc⟩ := toDigits_cons n.natAbs
        exact ⟨c, l, hcl, hdigit c hc⟩
  | str s => exact ⟨'"', _, rfl, rfl, by decide⟩
  | @arr values _ => cases values with
    | nil => exact ⟨'[', _, rfl, rfl, by decide⟩
    | cons v vs =>
        exact ⟨'[', dumps floatRepr v ++ dumpsItems floatRepr vs, by simp [dumps], rfl, by decide⟩
  | @obj fields _ _ => cases fields with
    | nil => exact ⟨'{', _, rfl, rfl, by decide⟩
    | cons f fs => exact ⟨'{', _, by simp [dumps]; rfl, rfl, by decide⟩

lemma skipBlanks_cons {c : Char} {s : List Char} (hc : isBlank c = false) :
    skipBlanks (c :: s) = c :: s :=
  List.dropWhile_cons_of_neg (by simp [hc])

/-- No name begins like an integer. -/
lemma readName_dumpsInt (n : ℤ) (rest : List Char) : readName (dumpsInt n ++ rest) = none := by
  obtain ⟨c, l, hcl, hc⟩ := toDigits_cons n.natAbs
  have hne : 'n' ≠ c ∧ 't' ≠ c ∧ 'f' ≠ c ∧ 'N' ≠ c ∧ 'I' ≠ c ∧ '-' ≠ c := by
    refine ⟨?_, ?_, ?_, ?_, ?_, ?_⟩ <;> (rintro rfl; cases hc)
  obtain ⟨hn, ht, hf, hN, hI, hminus⟩ := hne
  rw [readName, Option.map_eq_none_iff, List.find?_eq_none, dumpsInt, hcl]
  simp only [names, List.mem_cons, List.not_mem_nil, or_false]
  rintro name (rfl | rfl | rfl | rfl | rfl | rfl) <;> split_ifs <;>
    simp [List.isPrefixOf, hn, ht, hf, hN, hI, hminus]

lemma readValue_int {n : ℕ} (k : ℤ) {rest : List Char} (hrest : Ends rest) :
    readValue floatOf (n + 1) (dumpsInt k ++ rest) = some (int k, rest) := by
  obtain ⟨c, l, hcl, hc⟩ := toDigits_cons k.natAbs
  have hne : ∀ d ∈ ['"', '[', '{'], ∀ s, dumpsInt k ++ rest ≠ d :: s := by
    intro d hd s hs
    rw [dumpsInt, hcl] at hs
    split_ifs at hs
    · rw [← (List.cons.inj hs).1] at hd
      exact absurd hd (by decide)
    · rw [← (List.cons.inj hs).1] at hd
      simp only [List.mem_cons, List.not_mem_nil, or_false] at hd
      rcases hd with rfl | rfl | rfl <;> cases hc
  rw [readValue]
  · rw [readName_dumpsInt, readNumber_dumpsInt k hrest]
  · exact fun s hs => hne _ (by decide) s hs
  · exact fun s hs => hne _ (by decide) s hs
  · exact fun s hs => hne _ (by decide) s hs

lemma skipBlanks_dumps (floatRepr : PyFloat → List Char) {v : Json} (hv : Plain v)
    (rest : List Char) :
    skipBlanks (dumps floatRepr v ++ rest) = dumps floatRepr v ++ rest := by
  obtain ⟨c, l, hcl, hblank, -⟩ := dumps_cons floatRepr hv
  rw [hcl, List.cons_append, skipBlanks_cons hblank]

lemma ends_cons {c : Char} (hc : c.isDigit = false ∧ c ≠ '.' ∧ c ≠ 'e' ∧ c ≠ 'E')
    (s : List Char) : Ends (c :: s) := by
  rintro d hd
  cases hd
  exact hc

lemma ends_dumpsItems (values : List Json) (rest : List Char) :
    Ends (dumpsItems floatRepr values ++ rest) := by
  cases values with
  | nil => exact ends_cons (by decide) rest
  | cons v values => exact ends_cons (by decide) _

lemma ends_dumpsFields (fields : List (List Char × Json)) (rest : List Char) :
    Ends (dumpsFields floatRepr fields ++ rest) := by
  cases fields with
  | nil => exact ends_cons (by decide) rest
  | cons f fields => exact ends_cons (by decide) _

variable (floatRepr floatOf) in
/-- The value is read back from its text, whatever follows it. -/
def ReadBack (v : Json) : Prop :=
  ∀ {n : ℕ} {rest : List Char}, (dumps floatRepr v).length < n → Ends rest →
    readValue floatOf n (dumps floatRepr v ++ rest) = some (v, rest)

/-- The elements of an array after the first are read back when each of them is. -/
lemma readItems_dumps {values : List Json} (hplain : ∀ v ∈ values, Plain v)
    (hread : ∀ v ∈ values, ReadBack floatRepr floatOf v) :
    ∀ {n : ℕ} {rest : List Char}, (dumpsItems floatRepr values).length < n →
      readItems floatOf n (dumpsItems floatRepr values ++ rest) = some (values, rest) := by
  induction values with
  | nil =>
      rintro (_ | n) rest hn
      · cases hn
      · rfl
  | cons v values ih =>
      rintro (_ | n) rest hn
      · cases hn
      · have htail := @ih (fun w hw => hplain w (List.mem_cons_of_mem _ hw))
          (fun w hw => hread w (List.mem_cons_of_mem _ hw)) n rest
        have hsep : ", ".toList.length = 2 := rfl
        simp only [dumpsItems, List.length_append, hsep] at hn
        have hstep : readItems floatOf (n + 1) (dumpsItems floatRepr (v :: values) ++ rest) =
            match readValue floatOf n
                (skipBlanks (dumps floatRepr v ++ (dumpsItems floatRepr values ++ rest))) with
            | some (v, rest) => (readItems floatOf n rest).map fun r => (v :: r.1, r.2)
            | none => none := by
          rw [dumpsItems, List.append_assoc, List.append_assoc]
          rfl
        rw [hstep, skipBlanks_dumps floatRepr (hplain v List.mem_cons_self),
          hread v List.mem_cons_self (by omega) (ends_dumpsItems values rest)]
        simp only
        rw [htail (by omega)]
        rfl

/-- The text of a field and of the ones after it. -/
def dumpsField (floatRepr : PyFloat → List Char) (f : List Char × Json)
    (fields : List (List Char × Json)) : List Char :=
  dumpsText f.1 ++ ": ".toList ++ dumps floatRepr f.2 ++ dumpsFields floatRepr fields

lemma length_le_flatMap (s : List Char) : s.length ≤ (s.flatMap escapeChar).length := by
  induction s with
  | nil => exact le_rfl
  | cons c s ih =>
      obtain ⟨a, l, hal, -⟩ := escapeChar_eq_cons c
      rw [List.flatMap_cons, hal, List.length_cons, List.length_append, List.length_cons]
      omega

lemma dumpsText_append (s rest : List Char) :
    dumpsText s ++ rest = '"' :: (s.flatMap escapeChar ++ '"' :: rest) := by
  simp [dumpsText]

lemma readFields_step {n : ℕ} {key s : List Char} (hn : key.length < n) :
    readFields floatOf (n + 1) (dumpsText key ++ ':' :: ' ' :: s) =
      match readValue floatOf n (skipBlanks s) with
      | some (v, rest) =>
          match skipBlanks rest with
          | '}' :: rest => some ([(key, v)], rest)
          | ',' :: rest =>
              (readFields floatOf n (skipBlanks rest)).map fun r => ((key, v) :: r.1, r.2)
          | _ => none
      | none => none := by
  have htext := readText_dumps key (':' :: ' ' :: s) hn
  rw [dumpsText_append, readFields, htext]
  rfl

lemma dumpsField_append (f : List Char × Json) (fields : List (List Char × Json))
    (rest : List Char) :
    dumpsField floatRepr f fields ++ rest = dumpsText f.1 ++ ':' :: ' ' ::
      (dumps floatRepr f.2 ++ (dumpsFields floatRepr fields ++ rest)) := by
  simp [dumpsField]

lemma length_dumpsField (floatRepr : PyFloat → List Char) (f : List Char × Json)
    (fields : List (List Char × Json)) :
    f.1.length + (dumps floatRepr f.2).length + (dumpsFields floatRepr fields).length + 4 ≤
      (dumpsField floatRepr f fields).length := by
  have h := length_le_flatMap f.1
  simp only [dumpsField, dumpsText, List.length_append, List.length_cons, List.length_nil,
    String.length_toList]
  have hsep : ": ".length = 2 := rfl
  omega

/-- The fields of an object are read back when each of their values is. -/
lemma readFields_dumps {fields : List (List Char × Json)} :
    ∀ {f : List Char × Json} (_ : ∀ g ∈ f :: fields, Plain g.2)
    (_ : ∀ g ∈ f :: fields, ReadBack floatRepr floatOf g.2) {n : ℕ} {rest : List Char},
      (dumpsField floatRepr f fields).length < n →
      readFields floatOf n (dumpsField floatRepr f fields ++ rest) = some (f :: fields, rest) := by
  induction fields with
  | nil =>
      rintro f hplain hread (_ | n) rest hn
      · cases hn
      · have hlength := length_dumpsField floatRepr f []
        rw [dumpsField_append, readFields_step (by omega),
          skipBlanks_dumps floatRepr (hplain f (by simp)),
          hread f (by simp) (by omega) (ends_dumpsFields [] rest)]
        rfl
  | cons g fields ih =>
      rintro f hplain hread (_ | n) rest hn
      · cases hn
      · have hlength := length_dumpsField floatRepr f (g :: fields)
        have hfields : dumpsFields floatRepr (g :: fields) =
            ',' :: ' ' :: dumpsField floatRepr g fields := by
          simp [dumpsFields, dumpsField]
        have hlength' := congrArg List.length hfields
        simp only [List.length_cons] at hlength'
        rw [dumpsField_append, readFields_step (by omega),
          skipBlanks_dumps floatRepr (hplain f (by simp)),
          hread f (by simp) (by omega) (ends_dumpsFields _ rest), hfields]
        have hskip : skipBlanks (' ' :: (dumpsField floatRepr g fields ++ rest)) =
            dumpsField floatRepr g fields ++ rest := rfl
        show Option.map _
          (readFields floatOf n (skipBlanks (' ' :: (dumpsField floatRepr g fields ++ rest)))) = _
        rw [hskip, ih (fun h hh => hplain h (List.mem_cons_of_mem _ hh))
          (fun h hh => hread h (List.mem_cons_of_mem _ hh)) (by omega)]
        rfl

lemma set_of_not_mem {fields : List (List Char × Json)} {key : List Char}
    (h : key ∉ fields.map Prod.fst) (value : Json) :
    set key value fields = fields ++ [(key, value)] := by
  induction fields with
  | nil => rfl
  | cons f fields ih =>
      rw [List.map_cons, List.mem_cons, not_or] at h
      rw [set, if_neg (Ne.symm h.1), ih h.2, List.cons_append]

lemma lookup_set_of_ne {fields : List (List Char × Json)} {key key' : List Char}
    (h : key' ≠ key) (value : Json) : lookup key' (set key value fields) = lookup key' fields := by
  induction fields with
  | nil => simp [set, lookup, Ne.symm h]
  | cons f fields ih =>
      by_cases hf : f.1 = key
      · simp [set, lookup, hf, Ne.symm h]
      · simp only [set, if_neg hf, lookup, ih]

lemma lookup_set_self (fields : List (List Char × Json)) (key : List Char) (value : Json) :
    lookup key (set key value fields) = some value := by
  induction fields with
  | nil => simp [set, lookup]
  | cons f fields ih =>
      by_cases hf : f.1 = key
      · simp [set, lookup, hf]
      · simp only [set, if_neg hf, lookup, ih]

lemma mem_set {fields : List (List Char × Json)} {key : List Char} {value : Json}
    {f : List Char × Json} (h : f ∈ set key value fields) : f = (key, value) ∨ f ∈ fields := by
  induction fields with
  | nil => exact .inl (List.mem_singleton.1 h)
  | cons g fields ih =>
      rw [set] at h
      split_ifs at h
      · exact (List.mem_cons.1 h).imp id (List.mem_cons_of_mem _)
      · rcases List.mem_cons.1 h with rfl | hmem
        · exact .inr List.mem_cons_self
        · exact (ih hmem).imp id (List.mem_cons_of_mem _)

/-- The keys of a dictionary stay different. -/
lemma nodup_set {fields : List (List Char × Json)} (h : (fields.map Prod.fst).Nodup)
    (key : List Char) (value : Json) : ((set key value fields).map Prod.fst).Nodup := by
  induction fields with
  | nil => simp [set]
  | cons f fields ih =>
      rw [List.map_cons, List.nodup_cons] at h
      rw [set]
      split_ifs with hf
      · rw [List.map_cons, List.nodup_cons]
        exact ⟨hf ▸ h.1, h.2⟩
      · rw [List.map_cons, List.nodup_cons]
        refine ⟨fun hmem => ?_, ih h.2⟩
        obtain ⟨g, hg, heq⟩ := List.mem_map.1 hmem
        rcases mem_set hg with rfl | hg
        · exact hf heq.symm
        · exact h.1 (heq ▸ List.mem_map_of_mem hg)

/-- A field that is set keeps the object one that is read back. -/
lemma Plain.set {fields : List (List Char × Json)} (h : Plain (.obj fields)) (key : List Char)
    {value : Json} (hvalue : Plain value) : Plain (.obj (Json.set key value fields)) := by
  cases h with
  | obj hfields hkeys =>
      refine .obj (fun f hf => ?_) (nodup_set hkeys key value)
      rcases mem_set hf with rfl | hf
      · exact hvalue
      · exact hfields f hf

/-- Setting keys that are all different gives them in their order. -/
lemma dict_of_nodup {pairs : List (List Char × Json)} (h : (pairs.map Prod.fst).Nodup) :
    dict pairs = pairs := by
  have hfold : ∀ (pairs fields : List (List Char × Json)),
      ((fields ++ pairs).map Prod.fst).Nodup →
      pairs.foldl (fun fields pair => set pair.1 pair.2 fields) fields = fields ++ pairs := by
    intro pairs
    induction pairs with
    | nil => exact fun fields _ => (List.append_nil fields).symm
    | cons p pairs ih =>
        intro fields hnodup
        have hnew : p.1 ∉ fields.map Prod.fst := by
          rw [List.map_append, List.map_cons, List.nodup_append] at hnodup
          exact fun hmem => hnodup.2.2 _ hmem _ List.mem_cons_self rfl
        rw [List.foldl_cons, set_of_not_mem hnew, ih _ (by simpa using hnodup), List.append_assoc]
        rfl
  exact hfold pairs [] h

lemma readValue_arr {n : ℕ} {s : List Char} (hs : skipBlanks s = s) (hne : s.head? ≠ some ']') :
    readValue floatOf (n + 1) ('[' :: s) =
      match readValue floatOf n s with
      | some (v, rest) => (readItems floatOf n rest).map fun r => (arr (v :: r.1), r.2)
      | none => none := by
  rw [readValue, hs]
  split
  · exact absurd rfl hne
  · rfl

lemma readValue_obj {n : ℕ} {s : List Char} (hs : skipBlanks s = s) (hne : s.head? ≠ some '}') :
    readValue floatOf (n + 1) ('{' :: s) =
      (readFields floatOf n s).map fun r => (obj (dict r.1), r.2) := by
  rw [readValue, hs]
  split
  · exact absurd rfl hne
  · rfl

/-- The length that a value takes is enough to read it. -/
lemma readValue_dumps (floatRepr : PyFloat → List Char) (floatOf : List Char → PyFloat) {v : Json}
    (hv : Plain v) : ReadBack floatRepr floatOf v := by
  induction hv with
  | null =>
      rintro (_ | n) rest hn -
      · cases hn
      · rfl
  | bool b =>
      rintro (_ | n) rest hn -
      · cases hn
      · cases b <;> rfl
  | int k =>
      rintro (_ | n) rest hn hrest
      · cases hn
      · exact readValue_int k hrest
  | str s =>
      rintro (_ | n) rest hn -
      · cases hn
      · have hlength := length_le_flatMap s
        simp only [dumps, dumpsText, List.length_append, List.length_cons, List.length_nil] at hn
        rw [dumps, dumpsText_append, readValue, readText_dumps s rest (by omega)]
        rfl
  | @arr values h ih =>
      rintro (_ | n) rest hn -
      · cases hn
      · cases values with
        | nil => rfl
        | cons v values =>
            have hv : Plain v := h v List.mem_cons_self
            obtain ⟨c, l, hcl, -, hne⟩ := dumps_cons floatRepr hv
            simp only [dumps, List.length_append, List.length_cons] at hn
            rw [dumps, List.cons_append, List.cons_append, List.append_assoc,
              readValue_arr (skipBlanks_dumps floatRepr hv _) (by rw [hcl]; simpa using hne),
              ih v List.mem_cons_self (by omega) (ends_dumpsItems values rest)]
            simp only
            rw [readItems_dumps (fun w hw => h w (List.mem_cons_of_mem _ hw))
              (fun w hw => ih w (List.mem_cons_of_mem _ hw)) (by omega)]
            rfl
  | @obj fields h hkeys ih =>
      rintro (_ | n) rest hn -
      · cases hn
      · cases fields with
        | nil => rfl
        | cons f fields =>
            have hdumps : dumps floatRepr (obj (f :: fields)) =
                '{' :: dumpsField floatRepr f fields := by
              simp [dumps, dumpsField]
            have hhead : (dumpsField floatRepr f fields ++ rest).head? ≠ some '}' := by
              rw [dumpsField_append, dumpsText_append]
              simp
            rw [hdumps, List.length_cons] at hn
            rw [hdumps, List.cons_append, readValue_obj rfl hhead,
              readFields_dumps h ih (by omega)]
            simp only [Option.map_some, dict_of_nodup hkeys]

/-- **A value is read back from its text.** -/
theorem loads_dumps {v : Json} (hv : Plain v) : loads floatOf (dumps floatRepr v) = some v := by
  have hread := @readValue_dumps floatRepr floatOf v hv ((dumps floatRepr v).length + 1) []
    (Nat.lt_succ_self _) nofun
  have hskip := skipBlanks_dumps floatRepr hv []
  rw [List.append_nil] at hread hskip
  rw [loads, hskip, hread]
  rfl

end Json

/-
Base64 with the URL-safe alphabet, without padding.

`encode` gives the characters of the bytes, six bits each, and leaves the padding out.  `decode`
adds the padding again and then reads the characters as Python's `binascii.a2b_base64` does when
it is not strict: it skips what is not in the alphabet, takes the characters of the standard
alphabet as well, stops at the padding that completes a quadruple, and fails when the text ends
inside one.
-/
import Mathlib

namespace Base64

/-- The character of six bits. -/
def charOf (n : ℕ) : Char :=
  if n < 26 then Char.ofNat (65 + n)
  else if n < 52 then Char.ofNat (97 + (n - 26))
  else if n < 62 then Char.ofNat (48 + (n - 52))
  else if n = 62 then '-' else '_'

/-- The six bits of a character. -/
def valueOf (c : Char) : Option ℕ :=
  if c.isUpper then some (c.toNat - 65)
  else if c.isLower then some (c.toNat - 97 + 26)
  else if c.isDigit then some (c.toNat - 48 + 52)
  else if c = '-' ∨ c = '+' then some 62
  else if c = '_' ∨ c = '/' then some 63
  else none

/-- The bytes in base64. -/
def encode : List UInt8 → List Char
  | [] => []
  | [a] => [charOf (a.toNat / 4), charOf (a.toNat % 4 * 16)]
  | [a, b] => [charOf (a.toNat / 4), charOf (a.toNat % 4 * 16 + b.toNat / 16),
      charOf (b.toNat % 16 * 4)]
  | a :: b :: c :: rest =>
      charOf (a.toNat / 4) :: charOf (a.toNat % 4 * 16 + b.toNat / 16) ::
        charOf (b.toNat % 16 * 4 + c.toNat / 64) :: charOf (c.toNat % 64) :: encode rest

/-- How far the reading of a quadruple has got. -/
structure Progress where
  /-- How many characters of the quadruple were read. -/
  quad : ℕ
  /-- The bits of them that are not in a byte yet. -/
  left : ℕ
  pads : ℕ
  out : List UInt8

/-- Six more bits. -/
def Progress.push (s : Progress) (v : ℕ) : Progress :=
  match s.quad with
  | 0 => { s with quad := 1, left := v, pads := 0 }
  | 1 => ⟨2, v % 16, 0, s.out ++ [UInt8.ofNat (s.left * 4 + v / 16)]⟩
  | 2 => ⟨3, v % 4, 0, s.out ++ [UInt8.ofNat (s.left * 16 + v / 4)]⟩
  | _ => ⟨0, 0, 0, s.out ++ [UInt8.ofNat (s.left * 64 + v)]⟩

/-- `binascii.a2b_base64` from some progress on. -/
def read (s : Progress) : List Char → Option (List UInt8)
  | [] => if s.quad = 0 then some s.out else none
  | c :: cs =>
      if c = '=' then
        if 2 ≤ s.quad then
          if 4 ≤ s.quad + (s.pads + 1) then some s.out
          else read { s with pads := s.pads + 1 } cs
        else read s cs
      else match valueOf c with
        | none => read s cs
        | some v => read (s.push v) cs

/-- The padding of so many characters: `"=" * (-n % 4)`. -/
def padding (n : ℕ) : List Char := List.replicate ((4 - n % 4) % 4) '='

/-- The bytes of a text, padded before it is read. -/
def decode (cs : List Char) : Option (List UInt8) := read ⟨0, 0, 0, []⟩ (cs ++ padding cs.length)

/-! ### Reading what was written -/

lemma valueOf_charOf {n : ℕ} (h : n < 64) : valueOf (charOf n) = some n := by
  have hall : ∀ n : Fin 64, valueOf (charOf n) = some n.val := by decide
  exact hall ⟨n, h⟩

lemma charOf_ne_pad {n : ℕ} (h : n < 64) : charOf n ≠ '=' := by
  have hall : ∀ n : Fin 64, charOf n ≠ '=' := by decide
  exact hall ⟨n, h⟩

lemma read_charOf {s : Progress} {n : ℕ} (h : n < 64) (cs : List Char) :
    read s (charOf n :: cs) = read (s.push n) cs := by
  rw [read, if_neg (charOf_ne_pad h), valueOf_charOf h]

/-- The byte whose bits are put together again. -/
lemma ofNat_eq {a : UInt8} {n : ℕ} (h : n = a.toNat) : UInt8.ofNat n = a := by
  rw [h, UInt8.ofNat_toNat]

/-- Reading the characters of some bytes, with any other padding of the right length after
them, gives the bytes. -/
lemma read_encode (bs out : List UInt8) (pads : ℕ) :
    read ⟨0, 0, pads, out⟩ (encode bs ++ padding (encode bs).length) = some (out ++ bs) := by
  induction bs using encode.induct generalizing out pads with
  | case1 => simp [encode, padding, read]
  | case2 a =>
      have ha := a.toNat_lt
      have hbyte : UInt8.ofNat (a.toNat / 4 * 4 + a.toNat % 4 * 16 / 16) = a :=
        ofNat_eq (by omega)
      show read _ (charOf _ :: charOf _ :: ['=', '=']) = _
      rw [read_charOf (by omega), read_charOf (by omega)]
      simp only [Progress.push, hbyte]
      simp [read]
  | case3 a b =>
      have ha := a.toNat_lt
      have hb := b.toNat_lt
      have hbyte : UInt8.ofNat (a.toNat / 4 * 4 + (a.toNat % 4 * 16 + b.toNat / 16) / 16) = a :=
        ofNat_eq (by omega)
      have hbyte' : UInt8.ofNat ((a.toNat % 4 * 16 + b.toNat / 16) % 16 * 16 +
          b.toNat % 16 * 4 / 4) = b := ofNat_eq (by omega)
      show read _ (charOf _ :: charOf _ :: charOf _ :: ['=']) = _
      rw [read_charOf (by omega), read_charOf (by omega), read_charOf (by omega)]
      simp only [Progress.push, hbyte, hbyte']
      simp [read]
  | case4 a b c rest ih =>
      have ha := a.toNat_lt
      have hb := b.toNat_lt
      have hc := c.toNat_lt
      have hbyte : UInt8.ofNat (a.toNat / 4 * 4 + (a.toNat % 4 * 16 + b.toNat / 16) / 16) = a :=
        ofNat_eq (by omega)
      have hbyte' : UInt8.ofNat ((a.toNat % 4 * 16 + b.toNat / 16) % 16 * 16 +
          (b.toNat % 16 * 4 + c.toNat / 64) / 4) = b := ofNat_eq (by omega)
      have hbyte'' : UInt8.ofNat ((b.toNat % 16 * 4 + c.toNat / 64) % 4 * 64 + c.toNat % 64) = c :=
        ofNat_eq (by omega)
      have hpadding : padding (encode (a :: b :: c :: rest)).length =
          padding (encode rest).length := by
        have hmod : ((encode rest).length + 1 + 1 + 1 + 1) % 4 = (encode rest).length % 4 := by
          omega
        simp only [encode, padding, List.length_cons, hmod]
      rw [hpadding]
      show read _ (charOf _ :: charOf _ :: charOf _ :: charOf _ :: (encode rest ++ _)) = _
      rw [read_charOf (by omega), read_charOf (by omega), read_charOf (by omega),
        read_charOf (by omega)]
      simp only [Progress.push, hbyte, hbyte', hbyte'']
      rw [ih]
      simp

/-- **Round trip.**  What was encoded is decoded to the same bytes. -/
theorem decode_encode (bs : List UInt8) : decode (encode bs) = some bs := by
  rw [decode, read_encode, List.nil_append]

/-- Some bytes give some characters. -/
lemma encode_ne_nil {bs : List UInt8} (h : bs ≠ []) : encode bs ≠ [] := by
  match bs with
  | [] => exact absurd rfl h
  | [a] => simp [encode]
  | [a, b] => simp [encode]
  | a :: b :: c :: rest => simp [encode]

/-- The characters are ASCII. -/
lemma toNat_lt_of_mem_encode {bs : List UInt8} {c : Char} (h : c ∈ encode bs) : c.toNat < 128 := by
  have hall : ∀ n : Fin 64, (charOf n).toNat < 128 := by decide
  have hchar : ∀ {n : ℕ}, n < 64 → (charOf n).toNat < 128 := fun hn => hall ⟨_, hn⟩
  induction bs using encode.induct with
  | case1 => cases h
  | case2 a =>
      have ha := a.toNat_lt
      simp only [encode, List.mem_cons, List.not_mem_nil, or_false] at h
      rcases h with rfl | rfl <;> exact hchar (by omega)
  | case3 a b =>
      have ha := a.toNat_lt
      have hb := b.toNat_lt
      simp only [encode, List.mem_cons, List.not_mem_nil, or_false] at h
      rcases h with rfl | rfl | rfl <;> exact hchar (by omega)
  | case4 a b d rest ih =>
      have ha := a.toNat_lt
      have hb := b.toNat_lt
      have hd := d.toNat_lt
      simp only [encode, List.mem_cons] at h
      rcases h with rfl | rfl | rfl | rfl | h
      · exact hchar (by omega)
      · exact hchar (by omega)
      · exact hchar (by omega)
      · exact hchar (by omega)
      · exact ih h

/-! ### The texts that are written -/

/-- The character is one that is written. -/
def isUrlSafe (c : Char) : Bool := (valueOf c).isSome && c ≠ '+' && c ≠ '/'

/-- The text has only characters that are written, no quadruple with one of them, and no bits
besides those of the bytes. -/
def canonical : List Char → Bool
  | [] => true
  | [_] => false
  | [c, d] => isUrlSafe c && isUrlSafe d && (valueOf d).any (· % 16 = 0)
  | [c, d, e] => isUrlSafe c && isUrlSafe d && isUrlSafe e && (valueOf e).any (· % 4 = 0)
  | c :: d :: e :: f :: rest =>
      isUrlSafe c && isUrlSafe d && isUrlSafe e && isUrlSafe f && canonical rest

lemma isUrlSafe_charOf {n : ℕ} (h : n < 64) : isUrlSafe (charOf n) = true := by
  have hall : ∀ n : Fin 64, isUrlSafe (charOf n) = true := by decide
  exact hall ⟨n, h⟩

/-- The characters of one of the ranges. -/
lemma ofNat_range {c : Char} {base n : ℕ} (h : base ≤ c.toNat) (hn : n = c.toNat - base) :
    c = Char.ofNat (base + n) := by
  rw [hn, Nat.add_sub_cancel' h, Char.ofNat_toNat]

/-- A character that is written is that of its bits. -/
lemma exists_charOf {c : Char} (h : isUrlSafe c = true) : ∃ v < 64, c = charOf v := by
  simp only [isUrlSafe, Bool.and_eq_true, decide_eq_true_eq] at h
  obtain ⟨⟨hsome, hplus⟩, hslash⟩ := h
  rw [valueOf] at hsome
  split_ifs at hsome with hupper hlower hdigit hminus hline
  · have hrange : 65 ≤ c.toNat ∧ c.toNat ≤ 90 := by
      simpa [Char.isUpper, UInt32.le_iff_toNat_le, ← Char.toNat_val] using hupper
    refine ⟨c.toNat - 65, by omega, ?_⟩
    rw [charOf, if_pos (by omega)]
    exact ofNat_range hrange.1 rfl
  · have hrange : 97 ≤ c.toNat ∧ c.toNat ≤ 122 := by
      simpa [Char.isLower, UInt32.le_iff_toNat_le, ← Char.toNat_val] using hlower
    refine ⟨c.toNat - 97 + 26, by omega, ?_⟩
    rw [charOf, if_neg (by omega), if_pos (by omega)]
    exact ofNat_range hrange.1 (by omega)
  · have hrange : 48 ≤ c.toNat ∧ c.toNat ≤ 57 := Char.isDigit_iff_toNat.1 hdigit
    refine ⟨c.toNat - 48 + 52, by omega, ?_⟩
    rw [charOf, if_neg (by omega), if_neg (by omega), if_pos (by omega)]
    exact ofNat_range hrange.1 (by omega)
  · exact ⟨62, by omega, hminus.resolve_right hplus⟩
  · exact ⟨63, by omega, hline.resolve_right hslash⟩
  · cases hsome

lemma canonical_encode (bs : List UInt8) : canonical (encode bs) = true := by
  induction bs using encode.induct with
  | case1 => rfl
  | case2 a =>
      have ha := a.toNat_lt
      rw [encode, canonical, isUrlSafe_charOf (by omega), isUrlSafe_charOf (by omega),
        valueOf_charOf (by omega)]
      simp
  | case3 a b =>
      have ha := a.toNat_lt
      have hb := b.toNat_lt
      rw [encode, canonical, isUrlSafe_charOf (by omega), isUrlSafe_charOf (by omega),
        isUrlSafe_charOf (by omega), valueOf_charOf (by omega)]
      simp
  | case4 a b c rest ih =>
      have ha := a.toNat_lt
      have hb := b.toNat_lt
      have hc := c.toNat_lt
      rw [encode, canonical, isUrlSafe_charOf (by omega), isUrlSafe_charOf (by omega),
        isUrlSafe_charOf (by omega), isUrlSafe_charOf (by omega), ih]
      rfl

/-- **What is written.**  The texts that some bytes are written as are the canonical ones. -/
theorem canonical_iff (cs : List Char) : canonical cs = true ↔ ∃ bs, cs = encode bs := by
  constructor
  · intro h
    induction cs using canonical.induct with
    | case1 => exact ⟨[], rfl⟩
    | case2 c => cases h
    | case3 c d =>
      simp only [canonical, Bool.and_eq_true] at h
      obtain ⟨v, hv, rfl⟩ := exists_charOf h.1.1
      obtain ⟨w, hw, rfl⟩ := exists_charOf h.1.2
      have hbits : w % 16 = 0 := by simpa [valueOf_charOf hw] using h.2
      refine ⟨[UInt8.ofNat (v * 4 + w / 16)], ?_⟩
      have hbyte : (UInt8.ofNat (v * 4 + w / 16)).toNat = v * 4 + w / 16 := by
        rw [UInt8.toNat_ofNat']
        omega
      rw [encode, hbyte, show (v * 4 + w / 16) / 4 = v by omega,
        show (v * 4 + w / 16) % 4 * 16 = w by omega]
    | case4 c d e =>
      simp only [canonical, Bool.and_eq_true] at h
      obtain ⟨v, hv, rfl⟩ := exists_charOf h.1.1.1
      obtain ⟨w, hw, rfl⟩ := exists_charOf h.1.1.2
      obtain ⟨x, hx, rfl⟩ := exists_charOf h.1.2
      have hbits : x % 4 = 0 := by simpa [valueOf_charOf hx] using h.2
      refine ⟨[UInt8.ofNat (v * 4 + w / 16), UInt8.ofNat (w % 16 * 16 + x / 4)], ?_⟩
      have hbyte : (UInt8.ofNat (v * 4 + w / 16)).toNat = v * 4 + w / 16 := by
        rw [UInt8.toNat_ofNat']
        omega
      have hbyte' : (UInt8.ofNat (w % 16 * 16 + x / 4)).toNat = w % 16 * 16 + x / 4 := by
        rw [UInt8.toNat_ofNat']
        omega
      rw [encode, hbyte, hbyte', show (v * 4 + w / 16) / 4 = v by omega,
        show (v * 4 + w / 16) % 4 * 16 + (w % 16 * 16 + x / 4) / 16 = w by omega,
        show (w % 16 * 16 + x / 4) % 16 * 4 = x by omega]
    | case5 c d e f rest ih =>
      simp only [canonical, Bool.and_eq_true] at h
      obtain ⟨bs, rfl⟩ := ih h.2
      obtain ⟨v, hv, rfl⟩ := exists_charOf h.1.1.1.1
      obtain ⟨w, hw, rfl⟩ := exists_charOf h.1.1.1.2
      obtain ⟨x, hx, rfl⟩ := exists_charOf h.1.1.2
      obtain ⟨y, hy, rfl⟩ := exists_charOf h.1.2
      refine ⟨UInt8.ofNat (v * 4 + w / 16) :: UInt8.ofNat (w % 16 * 16 + x / 4) ::
        UInt8.ofNat (x % 4 * 64 + y) :: bs, ?_⟩
      have hbyte : (UInt8.ofNat (v * 4 + w / 16)).toNat = v * 4 + w / 16 := by
        rw [UInt8.toNat_ofNat']
        omega
      have hbyte' : (UInt8.ofNat (w % 16 * 16 + x / 4)).toNat = w % 16 * 16 + x / 4 := by
        rw [UInt8.toNat_ofNat']
        omega
      have hbyte'' : (UInt8.ofNat (x % 4 * 64 + y)).toNat = x % 4 * 64 + y := by
        rw [UInt8.toNat_ofNat']
        omega
      rw [encode, hbyte, hbyte', hbyte'', show (v * 4 + w / 16) / 4 = v by omega,
        show (v * 4 + w / 16) % 4 * 16 + (w % 16 * 16 + x / 4) / 16 = w by omega,
        show (w % 16 * 16 + x / 4) % 16 * 4 + (x % 4 * 64 + y) / 64 = x by omega,
        show (x % 4 * 64 + y) % 64 = y by omega]
  · rintro ⟨bs, rfl⟩
    exact canonical_encode bs

end Base64

/-
What the tokens of a text have.

The tokens stand one after the other in the text (`Placed`), none of them begins or ends with a
blank, and the depth of each is the number of brackets that are open there (`Nested`).
-/
import Mathlib
import PalaceDaemon.Cypher.Rewrite
import PalaceDaemon.Lib.Grammar

namespace PalaceDaemon.Cypher

open PyText Grammar

/-! ### The text of a token -/

/-- The text is not empty and has no blank at its ends. -/
structure Solid (text : Text) : Prop where
  ne_nil : text ≠ []
  first : ∀ c ∈ text.head?, isSpace c = false
  last : ∀ c ∈ text.getLast?, isSpace c = false

lemma isSpace_iff {c : Char} : isSpace c = true ↔
    c.toNat ∈ [9, 10, 11, 12, 13, 28, 29, 30, 31, 32, 0x85, 0xA0, 0x1680, 0x2028, 0x2029, 0x202F,
      0x205F, 0x3000] ∨ 0x2000 ≤ c.toNat ∧ c.toNat ≤ 0x200A := decide_eq_true_iff

/-- The blanks are before the digits and letters of ASCII or after them. -/
lemma isSpace_of_code {c : Char} (h : 33 ≤ c.toNat ∧ c.toNat < 128) : isSpace c = false := by
  by_contra hspace
  rw [Bool.not_eq_false, isSpace_iff] at hspace
  simp only [List.mem_cons, List.not_mem_nil, or_false] at hspace
  omega

lemma isSpace_of_isIdentChar {c : Char} (h : isIdentChar c = true) : isSpace c = false := by
  refine isSpace_of_code ?_
  have hcode : c.toNat = c.val.toNat := rfl
  have hA : 'A'.val.toNat = 65 := rfl
  have hZ : 'Z'.val.toNat = 90 := rfl
  have ha : 'a'.val.toNat = 97 := rfl
  have hz : 'z'.val.toNat = 122 := rfl
  have h0 : '0'.val.toNat = 48 := rfl
  have h9 : '9'.val.toNat = 57 := rfl
  simp only [isIdentChar, isIdentStart, Char.isAlpha, Char.isUpper, Char.isLower, Char.isDigit,
    Bool.or_eq_true, Bool.and_eq_true, decide_eq_true_eq, UInt32.le_iff_toNat_le, ge_iff_le] at h
  rcases h with (h | rfl) | h
  · omega
  · decide
  · omega

lemma isSpace_of_isDecimal {c : Char} (h : isDecimal c = true) : isSpace c = false := by
  by_contra hspace
  rw [Bool.not_eq_false, isSpace_iff] at hspace
  rw [isDecimal] at h
  split_ifs at h with hascii
  · have hident := isSpace_of_isIdentChar (c := c) (by simp [isIdentChar, h])
    rw [← Bool.not_eq_true, isSpace_iff] at hident
    exact hident hspace
  · rcases hspace with hspace | hspace
    · simp only [List.mem_cons, List.not_mem_nil, or_false] at hspace
      rcases hspace with hc | hc | hc | hc | hc | hc | hc | hc | hc | hc | hc | hc | hc | hc | hc |
        hc | hc | hc <;>
      · rw [hc] at h
        exact absurd h (by decide)
    · simp only [zeros, List.any_cons, List.any_nil, Bool.or_eq_true, Bool.and_eq_true,
        decide_eq_true_eq, Bool.false_eq_true, or_false] at h
      omega

/-- A text of one kind of characters after its first one. -/
lemma solid_takeWhile {p : Char → Bool} {c : Char} (hc : isSpace c = false)
    (hp : ∀ d, p d = true → isSpace d = false) (cs : Text) : Solid (c :: cs.takeWhile p) where
  ne_nil := List.cons_ne_nil _ _
  first d hd := by
    obtain rfl : c = d := by simpa using hd
    exact hc
  last d hd := by
    rcases List.mem_cons.1 (List.mem_of_getLast? hd) with rfl | hmem
    · exact hc
    · exact hp d (List.mem_takeWhile_imp hmem)

lemma take_takeWhile {p : Char → Bool} (c : Char) (cs : Text) :
    (c :: cs).take (1 + (cs.takeWhile p).length) = c :: cs.takeWhile p := by
  rw [Nat.add_comm, List.take_succ_cons, ← List.prefix_iff_eq_take.1 (List.takeWhile_prefix p)]

lemma stringLength_spec {quote : Char} {cs : Text} {n : ℕ} (h : stringLength quote cs = some n) :
    0 < n ∧ n ≤ cs.length ∧ (cs.take n).getLast? = some quote := by
  -- a step further into the text
  have hlater : ∀ {k : ℕ} {c : Char} {rest : Text},
      0 < k ∧ k ≤ rest.length ∧ (rest.take k).getLast? = some quote →
      0 < k + 1 ∧ k + 1 ≤ (c :: rest).length ∧
        ((c :: rest).take (k + 1)).getLast? = some quote := by
    rintro k c rest ⟨hpos, hle, hlast⟩
    refine ⟨Nat.succ_pos k, Nat.succ_le_succ hle, ?_⟩
    rw [List.take_succ_cons, List.getLast?_cons, hlast]
    rfl
  induction cs using stringLength.induct quote generalizing n with
  | case1 => cases h
  | case2 c cs ih =>
      obtain ⟨k, hk, rfl⟩ := Option.map_eq_some_iff.1 h
      exact hlater (hlater (ih hk))
  | case3 => cases h
  | case4 cs hescape hend =>
      rw [stringLength.eq_4 _ _ _ hescape hend, if_pos rfl] at h
      obtain rfl := Option.some.inj h
      exact ⟨one_pos, Nat.succ_pos _, rfl⟩
  | case5 c cs hescape hend hne ih =>
      rw [stringLength.eq_4 _ _ _ hescape hend, if_neg hne] at h
      obtain ⟨k, hk, rfl⟩ := Option.map_eq_some_iff.1 h
      exact hlater (ih hk)

lemma solid_singleton {c : Char} (hc : isSpace c = false) : Solid [c] where
  ne_nil := List.cons_ne_nil _ _
  first d hd := by
    obtain rfl : c = d := by simpa using hd
    exact hc
  last d hd := by
    obtain rfl : c = d := by simpa using hd
    exact hc

/-- The digits of a number before and after its point. -/
lemma numLength_eq (cs : Text) : numLength cs = (cs.takeWhile isDecimal).length ∨
    ∃ fraction rest, fraction ≠ [] ∧ (∀ d ∈ fraction, isDecimal d = true) ∧
      cs = cs.takeWhile isDecimal ++ '.' :: (fraction ++ rest) ∧
      numLength cs = (cs.takeWhile isDecimal).length + 1 + fraction.length := by
  rw [numLength]
  split_ifs with hnone
  · exact .inl rfl
  · rcases hdrop : cs.drop (cs.takeWhile isDecimal).length with _ | ⟨d, rest⟩
    · simp [hdrop] at hnone
    · by_cases hd : d = '.'
      · subst hd
        simp only [hdrop] at hnone ⊢
        refine .inr ⟨rest.takeWhile isDecimal, rest.dropWhile isDecimal, hnone,
          fun d hd => List.mem_takeWhile_imp hd, ?_, rfl⟩
        rw [List.takeWhile_append_dropWhile, ← hdrop]
        have hwhole := List.prefix_iff_eq_take.1 (List.takeWhile_prefix isDecimal (l := cs))
        nth_rewrite 1 [← List.take_append_drop (cs.takeWhile isDecimal).length cs]
        rw [← hwhole]
      · simp [hdrop, hd] at hnone

lemma numLength_spec {c : Char} (hc : isDecimal c = true) (cs : Text) :
    0 < numLength (c :: cs) ∧ numLength (c :: cs) ≤ (c :: cs).length ∧
      Solid ((c :: cs).take (numLength (c :: cs))) := by
  have hwhole : (c :: cs).takeWhile isDecimal = c :: cs.takeWhile isDecimal :=
    List.takeWhile_cons_of_pos hc
  have hsolid := solid_takeWhile (isSpace_of_isDecimal hc) (fun d => isSpace_of_isDecimal) cs
  rcases numLength_eq (c :: cs) with hn | ⟨fraction, rest, hne, hdigits, hsplit, hn⟩
  · rw [hn, hwhole]
    refine ⟨Nat.succ_pos _, Nat.succ_le_succ (List.takeWhile_prefix isDecimal).length_le, ?_⟩
    rw [List.length_cons, Nat.add_comm, take_takeWhile]
    exact hsolid
  · rw [hwhole] at hn hsplit
    have hlength := congrArg List.length hsplit
    simp only [List.length_append, List.length_cons] at hlength hn
    have htake : (c :: cs).take (numLength (c :: cs)) =
        c :: (cs.takeWhile isDecimal ++ '.' :: fraction) := by
      have hlater : (c :: cs) = (c :: (cs.takeWhile isDecimal ++ '.' :: fraction)) ++ rest := by
        simpa using hsplit
      generalize numLength (c :: cs) = n at hn
      rw [hlater]
      refine List.take_left' ?_
      simp only [List.length_cons, List.length_append]
      omega
    refine ⟨by omega, by simp only [List.length_cons]; omega, ?_⟩
    rw [htake]
    refine ⟨List.cons_ne_nil _ _, hsolid.first, fun d hd => ?_⟩
    obtain ⟨e, he⟩ : ∃ e, fraction.getLast? = some e :=
      Option.isSome_iff_exists.1 (by simpa using hne)
    have hlast : (c :: (cs.takeWhile isDecimal ++ '.' :: fraction)).getLast? = some e := by
      simp [List.getLast?_cons, List.getLast?_append, he]
    obtain rfl : e = d := Option.mem_unique hlast hd
    exact isSpace_of_isDecimal (hdigits e (List.mem_of_getLast? he))

/-- A match takes something, and what is kept has no blank at its ends. -/
lemma matchAt_spec {c : Char} {cs : Text} {kind : Kind} {n : ℕ} (h : matchAt c cs = (kind, n)) :
    0 < n ∧ n ≤ (c :: cs).length ∧
      (kind ≠ .ws → kind ≠ .comment → Solid ((c :: cs).take n)) := by
  have hsome : ∀ p : Char → Bool, 0 < 1 + (cs.takeWhile p).length ∧
      1 + (cs.takeWhile p).length ≤ (c :: cs).length := by
    intro p
    have hle := (List.takeWhile_prefix p (l := cs)).length_le
    simp only [List.length_cons]
    omega
  rw [matchAt] at h
  split_ifs at h with hspace hcomment hquote hparam hident hdigit
  · obtain ⟨rfl, rfl⟩ := Prod.mk.inj h
    exact ⟨(hsome _).1, (hsome _).2, fun hws => absurd rfl hws⟩
  · obtain ⟨rfl, rfl⟩ := Prod.mk.inj h
    exact ⟨(hsome _).1, (hsome _).2, fun _ hno => absurd rfl hno⟩
  · have hc : isSpace c = false := by simpa using hspace
    rcases hlength : stringLength c cs with _ | k
    · rw [hlength] at h
      obtain ⟨rfl, rfl⟩ := Prod.mk.inj h
      exact ⟨one_pos, Nat.succ_pos _, fun _ _ => solid_singleton hc⟩
    · rw [hlength] at h
      obtain ⟨rfl, rfl⟩ := Prod.mk.inj h
      obtain ⟨hpos, hle, hlast⟩ := stringLength_spec hlength
      refine ⟨by omega, by simp only [List.length_cons]; omega, fun _ _ => ?_⟩
      rw [Nat.add_comm, List.take_succ_cons]
      refine ⟨List.cons_ne_nil _ _, ?_, ?_⟩
      · rintro d hd
        obtain rfl : c = d := by simpa using hd
        exact hc
      · rintro d hd
        rw [List.getLast?_cons, hlast] at hd
        obtain rfl : c = d := by simpa using hd
        exact hc
  · obtain ⟨rfl, rfl⟩ := Prod.mk.inj h
    refine ⟨(hsome _).1, (hsome _).2, fun _ _ => ?_⟩
    rw [take_takeWhile]
    exact solid_takeWhile (by simpa using hspace) (fun d => isSpace_of_isIdentChar) cs
  · obtain ⟨rfl, rfl⟩ := Prod.mk.inj h
    refine ⟨(hsome _).1, (hsome _).2, fun _ _ => ?_⟩
    rw [take_takeWhile]
    exact solid_takeWhile (by simpa using hspace) (fun d => isSpace_of_isIdentChar) cs
  · obtain ⟨rfl, rfl⟩ := Prod.mk.inj h
    obtain ⟨hpos, hle, hsolid⟩ := numLength_spec hdigit cs
    exact ⟨hpos, hle, fun _ _ => hsolid⟩
  · obtain ⟨rfl, rfl⟩ := Prod.mk.inj h
    exact ⟨one_pos, Nat.succ_pos _, fun _ _ => solid_singleton (by simpa using hspace)⟩

/-- The identifiers are the matches that begin with a letter. -/
lemma kind_matchAt {c : Char} {cs : Text} {kind : Kind} {n : ℕ} (h : matchAt c cs = (kind, n)) :
    kind = .ident ↔ isIdentStart c = true := by
  have hother : isIdentStart c = false → kind ≠ .ident →
      (kind = .ident ↔ isIdentStart c = true) := by
    rintro hc hkind
    exact ⟨fun heq => absurd heq hkind, fun heq => absurd (hc.symm.trans heq) Bool.false_ne_true⟩
  rw [matchAt] at h
  split_ifs at h with hspace hcomment hquote hparam hident hdigit
  · obtain ⟨rfl, -⟩ := Prod.mk.inj h
    refine hother (Bool.eq_false_iff.2 fun hstart => ?_) nofun
    have hno := isSpace_of_isIdentChar (c := c) (by rw [isIdentChar, hstart, Bool.true_or])
    exact Bool.false_ne_true (hno.symm.trans hspace)
  · obtain ⟨rfl, -⟩ := Prod.mk.inj h
    obtain ⟨rfl, -⟩ := hcomment
    exact hother (by decide) nofun
  · have hc : isIdentStart c = false := by rcases hquote with rfl | rfl <;> decide
    rcases hlength : stringLength c cs with _ | k <;>
    · rw [hlength] at h
      obtain ⟨rfl, -⟩ := Prod.mk.inj h
      exact hother hc nofun
  · obtain ⟨rfl, -⟩ := Prod.mk.inj h
    obtain ⟨rfl, -⟩ := hparam
    exact hother (by decide) nofun
  · obtain ⟨rfl, -⟩ := Prod.mk.inj h
    exact ⟨fun _ => hident, fun _ => rfl⟩
  · obtain ⟨rfl, -⟩ := Prod.mk.inj h
    exact hother (Bool.eq_false_iff.2 hident) nofun
  · obtain ⟨rfl, -⟩ := Prod.mk.inj h
    exact hother (Bool.eq_false_iff.2 hident) nofun

/-! ### Where the tokens stand -/

/-- The lexeme stands in the text. -/
structure Lexeme.Placed (src : Text) (l : Lexeme) : Prop where
  lt : l.start < l.stop
  le : l.stop ≤ src.length
  text : l.text = slice src l.start l.stop
  solid : l.kind ≠ .ws → l.kind ≠ .comment → Solid l.text
  ident : ∀ c ∈ l.text.head?, l.kind = .ident ↔ isIdentStart c = true

lemma finditer_spec (fuel : ℕ) (before rest : Text) :
    (∀ l ∈ finditer fuel before.length rest, before.length ≤ l.start ∧
      l.Placed (before ++ rest)) ∧
    (finditer fuel before.length rest).Pairwise fun l m => l.stop ≤ m.start := by
  induction fuel generalizing before rest with
  | zero => exact ⟨fun l hl => absurd hl List.not_mem_nil, .nil⟩
  | succ fuel ih =>
      rcases rest with _ | ⟨c, cs⟩
      · exact ⟨fun l hl => absurd hl List.not_mem_nil, .nil⟩
      · rcases hmatch : matchAt c cs with ⟨kind, n⟩
        obtain ⟨hpos, hle, hsolid⟩ := matchAt_spec hmatch
        -- the rest of the matches begin after this one
        have hlength : (before ++ (c :: cs).take n).length = before.length + n := by
          rw [List.length_append, List.length_take, Nat.min_eq_left hle]
        obtain ⟨hmem, hpairwise⟩ := ih (before ++ (c :: cs).take n) ((c :: cs).drop n)
        rw [List.append_assoc, List.take_append_drop, hlength] at hmem
        rw [hlength] at hpairwise
        rw [finditer, hmatch]
        refine ⟨fun l hl => ?_, List.pairwise_cons.2 ⟨fun m hm => (hmem m hm).1, hpairwise⟩⟩
        rcases List.mem_cons.1 hl with rfl | hl
        · refine ⟨le_rfl, ⟨Nat.lt_add_of_pos_right hpos, ?_, ?_, hsolid, fun d hd => ?_⟩⟩
          · rw [List.length_append]
            exact Nat.add_le_add_left hle _
          · show (c :: cs).take n =
              ((before ++ c :: cs).take (before.length + n)).drop before.length
            rw [List.take_length_add_append, List.drop_left]
          · obtain ⟨k, rfl⟩ := Nat.exists_eq_succ_of_ne_zero hpos.ne'
            obtain rfl : c = d := by simpa using hd
            exact kind_matchAt hmatch
        · obtain ⟨hstart, hplaced⟩ := hmem l hl
          exact ⟨by omega, hplaced⟩

/-- The lexeme of a token. -/
def Tok.lexeme (t : Tok) : Lexeme := ⟨t.kind, t.text, t.start, t.stop⟩

/-- The lexeme is kept as a token. -/
def Lexeme.kept (l : Lexeme) : Bool := l.kind ≠ .ws && l.kind ≠ .comment

lemma lexemes_of_tokenize {stack : List Text} {ls : List Lexeme} {toks : List Tok}
    (h : tokenizeFrom stack ls = some toks) : toks.map Tok.lexeme = ls.filter Lexeme.kept := by
  induction ls generalizing stack toks with
  | nil =>
      rw [tokenizeFrom] at h
      split_ifs at h
      obtain rfl := Option.some.inj h
      rfl
  | cons l ls ih =>
      rw [tokenizeFrom.eq_def] at h
      dsimp only at h
      split_ifs at h with hskip hclose
      · rw [List.filter_cons_of_neg (by simpa [Lexeme.kept, or_iff_not_imp_left] using hskip)]
        exact ih h
      all_goals
        have hkept : l.kept = true := by simpa [Lexeme.kept, not_or] using hskip
        rw [List.filter_cons_of_pos hkept]
      · rcases stack with _ | ⟨o, stack⟩
        · cases h
        · simp only at h
          split_ifs at h
          obtain ⟨toks, htoks, rfl⟩ := Option.map_eq_some_iff.1 h
          rw [List.map_cons, ih htoks]
          rfl
      all_goals
        obtain ⟨toks, htoks, rfl⟩ := Option.map_eq_some_iff.1 h
        rw [List.map_cons, ih htoks]
        rfl

/-- Where the tokens of a text stand. -/
structure Placed (src : Text) (toks : List Tok) : Prop where
  placed : ∀ t ∈ toks, t.lexeme.Placed src
  solid : ∀ t ∈ toks, Solid t.text
  ordered : toks.Pairwise fun t u => t.stop ≤ u.start

lemma placed_of_tokenize {src : Text} {toks : List Tok} (h : tokenize src = some toks) :
    Placed src toks := by
  have hlexemes := lexemes_of_tokenize h
  obtain ⟨hplaced, hpairwise⟩ := finditer_spec src.length [] src
  have hmem : ∀ t ∈ toks, t.lexeme ∈ finditer src.length 0 src ∧ t.lexeme.kept = true := by
    intro t ht
    have ht' : t.lexeme ∈ toks.map Tok.lexeme := List.mem_map_of_mem ht
    rw [hlexemes] at ht'
    exact List.mem_filter.1 ht'
  have hall : ∀ t ∈ toks, t.lexeme.Placed src := fun t ht => (hplaced _ (hmem t ht).1).2
  refine ⟨hall, fun t ht => ?_, ?_⟩
  · have hkept := (hmem t ht).2
    simp only [Lexeme.kept, Bool.and_eq_true, decide_eq_true_eq] at hkept
    exact (hall t ht).solid hkept.1 hkept.2
  · have hfiltered := hpairwise.filter Lexeme.kept
    rw [List.length_nil, ← hlexemes, List.pairwise_map] at hfiltered
    exact hfiltered

lemma Placed.sublist {src : Text} {toks toks' : List Tok} (h : Placed src toks)
    (hsub : toks'.Sublist toks) : Placed src toks' where
  placed t ht := h.placed t (hsub.subset ht)
  solid t ht := h.solid t (hsub.subset ht)
  ordered := h.ordered.sublist hsub

/-- The first token begins before the last one ends. -/
lemma Placed.lt_of_ends {src : Text} {toks : List Tok} (h : Placed src toks) {first last : Tok}
    (hfirst : toks.head? = some first) (hlast : toks.getLast? = some last) :
    first.start < last.stop := by
  rcases toks with _ | ⟨t, toks⟩
  · cases hfirst
  · obtain rfl : t = first := by simpa using hfirst
    have ht := (h.placed t List.mem_cons_self).lt
    rcases List.mem_cons.1 (List.mem_of_getLast? hlast) with rfl | hmem
    · exact ht
    · have hle := List.rel_of_pairwise_cons h.ordered hmem
      have hlt := (h.placed last (List.mem_cons_of_mem t hmem)).lt
      simp only [Tok.lexeme] at ht hlt
      omega

/-- A token of a text begins with a character of the text that is no blank, and ends with one. -/
lemma Placed.ends {src : Text} {toks : List Tok} (h : Placed src toks) {t : Tok} (ht : t ∈ toks) :
    (∀ c ∈ src[t.start]?, isSpace c = false) ∧ ∀ c ∈ src[t.stop - 1]?, isSpace c = false := by
  have hlt : t.start < t.stop := (h.placed t ht).lt
  have hle : t.stop ≤ src.length := (h.placed t ht).le
  have htext : t.text = slice src t.start t.stop := (h.placed t ht).text
  have hsolid := h.solid t ht
  constructor
  · rw [← head?_slice hlt, ← htext]
    exact hsolid.first
  · rw [← getLast?_slice hlt hle, ← htext]
    exact hsolid.last

lemma isIdentStart_of_toUpper {c : Char} (h : isIdentStart c.toUpper = true) :
    isIdentStart c = true := by
  rw [Char.toUpper] at h
  split at h
  · rename_i hlower
    have halpha : c.isAlpha = true := by
      rw [Char.isAlpha, Char.isLower, decide_eq_true hlower.1, decide_eq_true hlower.2]
      exact Bool.or_true _
    rw [isIdentStart, halpha, Bool.true_or]
  · exact h

/-- What reads as a word is an identifier. -/
lemma Placed.ident_of_upper {src : Text} {toks : List Tok} (h : Placed src toks) {t : Tok}
    (ht : t ∈ toks) {c : Char} {cs : Text} (hupper : t.upper = c :: cs)
    (hc : isIdentStart c = true) : t.kind = .ident := by
  obtain ⟨d, ds, htext, rfl, -⟩ := List.map_eq_cons_iff.1 hupper
  exact ((h.placed t ht).ident d (by rw [Tok.lexeme, htext]; rfl)).2 (isIdentStart_of_toUpper hc)

/-! ### The brackets around the tokens -/

/-- What a mark does to the depth of the brackets. -/
def sideOf (text : Text) : Side :=
  if text ∈ closers then .closing
  else if (openers.lookup text).isSome then .opening
  else .inside

/-- What the token does to the depth of the brackets. -/
def Tok.side (t : Tok) : Side := if t.kind = .punct then sideOf t.text else .inside

/-- The tokens stand in the brackets of the stack, and the brackets match. -/
inductive Nested : List Text → List Tok → Prop
  | nil : Nested [] []
  | opening {stack t toks} : t.side = .opening → t.depth = stack.length →
      t.encloser = stack.head? → Nested (t.text :: stack) toks → Nested stack (t :: toks)
  | closing {o stack t toks} : t.side = .closing → t.depth = stack.length →
      t.encloser = stack.head? → Nested stack toks → Nested (o :: stack) (t :: toks)
  | inside {stack t toks} : t.side = .inside → t.depth = stack.length →
      t.encloser = stack.head? → Nested stack toks → Nested stack (t :: toks)

lemma nested_of_tokenizeFrom {stack : List Text} {ls : List Lexeme} {toks : List Tok}
    (h : tokenizeFrom stack ls = some toks) : Nested stack toks := by
  induction ls generalizing stack toks with
  | nil =>
      obtain ⟨rfl, htoks⟩ := Option.ite_none_right_eq_some.1 h
      obtain rfl := Option.some.inj htoks
      exact .nil
  | cons l ls ih =>
      rw [tokenizeFrom.eq_def] at h
      dsimp only at h
      split_ifs at h with hskip hclose hopen
      · exact ih h
      · rcases stack with _ | ⟨o, stack⟩
        · cases h
        · obtain ⟨-, hsome⟩ := Option.ite_none_right_eq_some.1 h
          obtain ⟨toks, htoks, rfl⟩ := Option.map_eq_some_iff.1 hsome
          exact .closing ((if_pos hclose.1).trans (if_pos hclose.2)) rfl rfl (ih htoks)
      · obtain ⟨toks, htoks, rfl⟩ := Option.map_eq_some_iff.1 h
        have hother : l.text ∉ closers := fun hmem => hclose ⟨hopen.1, hmem⟩
        exact .opening ((if_pos hopen.1).trans ((if_neg hother).trans (if_pos hopen.2))) rfl rfl
          (ih htoks)
      · obtain ⟨toks, htoks, rfl⟩ := Option.map_eq_some_iff.1 h
        refine .inside ?_ rfl rfl (ih htoks)
        by_cases hkind : l.kind = .punct
        · have hother : l.text ∉ closers := fun hmem => hclose ⟨hkind, hmem⟩
          exact (if_pos hkind).trans
            ((if_neg hother).trans (if_neg fun hmem => hopen ⟨hkind, hmem⟩))
        · exact if_neg hkind

lemma nested_of_tokenize {src : Text} {toks : List Tok} (h : tokenize src = some toks) :
    Nested [] toks := nested_of_tokenizeFrom h

/-- Later tokens stand in brackets, too. -/
lemma Nested.drop {stack : List Text} {before toks : List Tok} (h : Nested stack (before ++ toks)) :
    ∃ stack', Nested stack' toks := by
  induction before generalizing stack with
  | nil => exact ⟨stack, h⟩
  | cons t before ih => cases h <;> exact ih ‹_›

/-- A token after another one has its depth, if none of them is a bracket. -/
lemma Nested.depth_next {stack : List Text} {before toks : List Tok} {t u : Tok}
    (h : Nested stack (before ++ t :: u :: toks)) (ht : t.side = .inside) (hu : u.side = .inside) :
    u.depth = t.depth := by
  obtain ⟨stack', h⟩ := h.drop
  cases h with
  | opening hside => simp [ht] at hside
  | closing hside => simp [ht] at hside
  | inside _ hdepth _ h => cases h with
    | opening hside => simp [hu] at hside
    | closing hside => simp [hu] at hside
    | inside _ hdepth' => rw [hdepth, hdepth']

/-- A token after an opening bracket is enclosed by it. -/
lemma Nested.encloser_next {stack : List Text} {before toks : List Tok} {t u : Tok}
    (h : Nested stack (before ++ t :: u :: toks)) (ht : t.side = .opening)
    (hu : u.side = .inside) : u.encloser = some t.text := by
  obtain ⟨stack', h⟩ := h.drop
  cases h with
  | closing hside => simp [ht] at hside
  | inside hside => simp [ht] at hside
  | opening _ _ _ h => cases h with
    | opening hside => simp [hu] at hside
    | closing hside => simp [hu] at hside
    | inside _ _ hencloser => exact hencloser

end PalaceDaemon.Cypher

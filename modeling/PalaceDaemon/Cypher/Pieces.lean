/-
Reading a text again in which some lexemes were replaced.

A piece is a lexeme without its place.  Pieces are read off their text (`Reads`) if each of them is
the match of `_TOKEN_RE` where it stands, in front of the text that follows it.  Of this text the
match looks at the first two characters only, and a parenthesis never makes it longer (`At.congr`).
So pieces may be put in parentheses in the place of another one, and the text is read as it was put
together (`Reads.edit`).
-/
import PalaceDaemon.Cypher.Tokens

namespace PalaceDaemon.Cypher

open PyText

/-! ### Pieces -/

/-- The kind of a lexeme, and its text. -/
abbrev Piece := Kind × Text

def Lexeme.piece (l : Lexeme) : Piece := (l.kind, l.text)

/-- The text of the pieces. -/
def spelling (ps : List Piece) : Text := ps.flatMap Prod.snd

@[simp] lemma spelling_nil : spelling [] = [] := rfl

@[simp] lemma spelling_cons (p : Piece) (ps : List Piece) :
    spelling (p :: ps) = p.2 ++ spelling ps := rfl

@[simp] lemma spelling_append (ps qs : List Piece) :
    spelling (ps ++ qs) = spelling ps ++ spelling qs := List.flatMap_append

/-- The piece is the match in front of the text. -/
def At (p : Piece) (rest : Text) : Prop :=
  ∃ c w, p.2 = c :: w ∧ matchAt c (w ++ rest) = (p.1, w.length + 1)

/-- The pieces are what their text is read as. -/
def Reads : List Piece → Prop
  | [] => True
  | p :: ps => At p (spelling ps) ∧ Reads ps

lemma Reads.right {xs ys : List Piece} (h : Reads (xs ++ ys)) : Reads ys := by
  induction xs with
  | nil => exact h
  | cons x xs ih => exact ih h.2

lemma At.ne_nil {p : Piece} {rest : Text} (h : At p rest) : p.2 ≠ [] := by
  obtain ⟨c, w, htext, -⟩ := h
  rw [htext]
  exact List.cons_ne_nil c w

/-- The matches of a text are read off it. -/
lemma reads_finditer {fuel start : ℕ} {src : Text} (hfuel : src.length ≤ fuel) :
    Reads ((finditer fuel start src).map Lexeme.piece) ∧
      spelling ((finditer fuel start src).map Lexeme.piece) = src := by
  induction fuel generalizing start src with
  | zero =>
      obtain rfl := List.length_eq_zero_iff.1 (Nat.le_zero.1 hfuel)
      exact ⟨trivial, rfl⟩
  | succ fuel ih =>
      rcases src with _ | ⟨c, cs⟩
      · exact ⟨trivial, rfl⟩
      · rcases hmatch : matchAt c cs with ⟨kind, n⟩
        obtain ⟨hpos, hle, -⟩ := matchAt_spec hmatch
        obtain ⟨n, rfl⟩ := Nat.exists_eq_succ_of_ne_zero hpos.ne'
        simp only [List.length_cons] at hfuel hle
        have hlength : (cs.drop n).length ≤ fuel := by
          rw [List.length_drop]
          omega
        obtain ⟨hreads, hspelling⟩ := @ih (start + (n + 1)) (cs.drop n) hlength
        have htake : (cs.take n).length = n := by
          rw [List.length_take]
          omega
        have hstep : (finditer (fuel + 1) start (c :: cs)).map Lexeme.piece =
            (kind, c :: cs.take n) ::
              (finditer fuel (start + (n + 1)) (cs.drop n)).map Lexeme.piece := by
          rw [finditer, hmatch]
          rfl
        rw [hstep]
        refine ⟨⟨⟨c, cs.take n, rfl, ?_⟩, hreads⟩, ?_⟩
        · rw [hspelling, List.take_append_drop, hmatch, htake]
        · rw [spelling_cons, hspelling, List.cons_append, List.take_append_drop]

/-- Pieces that are read off their text are its matches. -/
lemma Reads.finditer {ps : List Piece} (h : Reads ps) {fuel start : ℕ}
    (hfuel : (spelling ps).length ≤ fuel) :
    (finditer fuel start (spelling ps)).map Lexeme.piece = ps := by
  induction ps generalizing fuel start with
  | nil => cases fuel <;> rfl
  | cons p ps ih =>
      obtain ⟨⟨c, w, htext, hmatch⟩, hreads⟩ := h
      rw [spelling_cons, htext, List.cons_append] at hfuel ⊢
      simp only [List.length_cons, List.length_append] at hfuel
      obtain ⟨fuel, rfl⟩ : ∃ k, fuel = k + 1 := Nat.exists_eq_succ_of_ne_zero (by omega)
      rw [Cypher.finditer, hmatch]
      dsimp only
      rw [List.map_cons, List.take_succ_cons, List.drop_succ_cons, List.take_left, List.drop_left]
      refine congrArg₂ List.cons ?_ (ih hreads (by omega))
      rw [Lexeme.piece, ← htext]

/-! ### What follows a piece -/

/-- A parenthesis stands first. -/
def Bracketed (text : Text) : Prop := text.head? = some '(' ∨ text.head? = some ')'

/-- Of the two first characters of a text some may go for a parenthesis. -/
def Follows (rest rest' : Text) : Prop :=
  Bracketed rest' ∨ rest'.head? = rest.head? ∧
    (Bracketed rest'.tail ∨ rest'.tail.head? = rest.tail.head?)

lemma Follows.refl (rest : Text) : Follows rest rest := .inr ⟨rfl, .inr rfl⟩

lemma Follows.append {rest rest' : Text} (h : Follows rest rest') (text : Text) :
    Follows (text ++ rest) (text ++ rest') := by
  induction text with
  | nil => exact h
  | cons c text _ =>
      refine .inr ⟨rfl, ?_⟩
      rcases text with _ | ⟨d, text⟩
      · exact h.imp id And.left
      · exact .inr rfl

/-- The first character of a class without parentheses is one of the text. -/
lemma head_of_bracketed {rest rest' : Text} (h : Bracketed rest' ∨ rest'.head? = rest.head?)
    {f : Char → Bool} (hf : f '(' = false ∧ f ')' = false)
    (hrest : ∀ c ∈ rest.head?, f c = false) : ∀ c ∈ rest'.head?, f c = false := by
  rintro c hc
  rcases h with (hbracket | hbracket) | hhead
  · obtain rfl : '(' = c := Option.some.inj (hbracket.symm.trans hc)
    exact hf.1
  · obtain rfl : ')' = c := Option.some.inj (hbracket.symm.trans hc)
    exact hf.2
  · exact hrest c (hhead ▸ hc)

lemma Follows.head {rest rest' : Text} (h : Follows rest rest') {f : Char → Bool}
    (hf : f '(' = false ∧ f ')' = false) (hrest : ∀ c ∈ rest.head?, f c = false) :
    ∀ c ∈ rest'.head?, f c = false :=
  head_of_bracketed (h.imp id And.left) hf hrest

/-- A class takes the first part of a text and no more. -/
lemma length_takeWhile_append {f : Char → Bool} {w rest : Text} :
    ((w ++ rest).takeWhile f).length = w.length ↔
      (∀ c ∈ w, f c = true) ∧ ∀ c ∈ rest.head?, f c = false := by
  constructor
  · intro hlength
    have htake : (w ++ rest).takeWhile f = w := by
      rw [List.prefix_iff_eq_take.1 (List.takeWhile_prefix f (l := w ++ rest)), hlength,
        List.take_left]
    have hw : ∀ c ∈ w, f c = true := by
      intro c hc
      rw [← htake] at hc
      exact List.mem_takeWhile_imp hc
    refine ⟨hw, fun c hc => ?_⟩
    rw [List.takeWhile_append_of_pos hw] at htake
    obtain ⟨rest, rfl⟩ := List.head?_eq_some_iff.1 hc
    by_contra hf
    rw [Bool.not_eq_false] at hf
    rw [List.takeWhile_cons_of_pos hf] at htake
    simp at htake
  · rintro ⟨hw, hrest⟩
    have hnil : rest.takeWhile f = [] := by
      rcases rest with _ | ⟨c, rest⟩
      · rfl
      · exact List.takeWhile_cons_of_neg (by simp [hrest c rfl])
    rw [List.takeWhile_append_of_pos hw, hnil, List.append_nil]

lemma Follows.takeWhile {rest rest' : Text} (h : Follows rest rest') {f : Char → Bool}
    (hf : f '(' = false ∧ f ')' = false) {w : Text}
    (hw : ((w ++ rest).takeWhile f).length = w.length) :
    ((w ++ rest').takeWhile f).length = w.length := by
  obtain ⟨hall, hrest⟩ := length_takeWhile_append.1 hw
  exact length_takeWhile_append.2 ⟨hall, h.head hf hrest⟩

lemma stringLength_cons {quote c : Char} (hc : c ≠ '\\') (cs : Text) :
    stringLength quote (c :: cs) =
      if c = quote then some 1 else (stringLength quote cs).map (· + 1) :=
  stringLength.eq_4 _ _ _ (fun _ _ h _ => hc h) fun h _ => hc h

/-- A string that ends is not changed by what follows it. -/
lemma stringLength_append {quote : Char} {w rest : Text}
    (h : stringLength quote (w ++ rest) = some w.length) (rest' : Text) :
    stringLength quote (w ++ rest') = some w.length := by
  -- a character that is no escape
  have hunquoted : ∀ {c : Char} {cs : Text}, (∀ d ds, c = '\\' → cs = d :: ds → False) →
      (c = '\\' → cs = [] → False) → c ≠ '\\' := by
    rintro c (_ | ⟨d, ds⟩) hescape hend hc
    · exact hend hc rfl
    · exact hescape d ds hc rfl
  induction w using stringLength.induct quote with
  | case1 => exact absurd (stringLength_spec h).1 (lt_irrefl 0)
  | case2 c cs ih =>
      simp only [List.cons_append, stringLength] at h ⊢
      obtain ⟨n, hn, heq⟩ := Option.map_eq_some_iff.1 h
      simp only [List.length_cons] at heq ⊢
      obtain rfl : n = cs.length := by omega
      rw [ih hn]
      rfl
  | case3 =>
      rcases rest with _ | ⟨c, rest⟩
      · cases h
      · simp only [List.cons_append, List.nil_append, stringLength] at h
        obtain ⟨n, -, heq⟩ := Option.map_eq_some_iff.1 h
        simp at heq
  | case4 cs hescape hend =>
      have hc := hunquoted hescape hend
      rw [List.cons_append, stringLength_cons hc, if_pos rfl] at h ⊢
      exact h
  | case5 c cs hescape hend hne ih =>
      have hc := hunquoted hescape hend
      rw [List.cons_append, stringLength_cons hc, if_neg hne] at h ⊢
      obtain ⟨n, hn, heq⟩ := Option.map_eq_some_iff.1 h
      simp only [List.length_cons] at heq ⊢
      obtain rfl : n = cs.length := by omega
      rw [ih hn]
      rfl

/-- The digits behind a point. -/
def fractionOf : Text → Text
  | '.' :: rest => rest.takeWhile isDecimal
  | _ => []

lemma numLength_eq_of_digits {w rest : Text} (hw : ∀ c ∈ w, isDecimal c = true)
    (hrest : ∀ c ∈ rest.head?, isDecimal c = false) : numLength (w ++ rest) =
      if fractionOf rest = [] then w.length else w.length + 1 + (fractionOf rest).length := by
  have hwhole : (w ++ rest).takeWhile isDecimal = w := by
    have hlength := length_takeWhile_append.2 ⟨hw, hrest⟩
    rw [List.prefix_iff_eq_take.1 (List.takeWhile_prefix isDecimal (l := w ++ rest)), hlength,
      List.take_left]
  rw [numLength, hwhole, List.drop_left]
  rfl

lemma fractionOf_eq_nil_iff {rest : Text} : fractionOf rest = [] ↔
    rest.head? = some '.' → ∀ c ∈ rest.tail.head?, isDecimal c = false := by
  rcases rest with _ | ⟨d, rest⟩
  · exact iff_of_true rfl (by simp)
  · by_cases hd : d = '.'
    · subst hd
      rcases rest with _ | ⟨c, rest⟩
      · exact iff_of_true rfl (by simp)
      · rw [fractionOf]
        by_cases hc : isDecimal c = true <;> simp [hc]
    · refine iff_of_true ?_ fun h => absurd (Option.some.inj h) hd
      rw [fractionOf]
      rintro rest' h
      exact hd (List.cons.inj h).1

lemma Follows.numLength {a rest rest' : Text} (h : Follows rest rest')
    (ha : numLength (a ++ rest) = a.length) : numLength (a ++ rest') = a.length := by
  have hf : isDecimal '(' = false ∧ isDecimal ')' = false := by decide
  have hsplit : a.takeWhile isDecimal ++ a.dropWhile isDecimal = a :=
    List.takeWhile_append_dropWhile
  have hwhole : ∀ c ∈ a.takeWhile isDecimal, isDecimal c = true :=
    fun c hc => List.mem_takeWhile_imp hc
  rcases hdrop : a.dropWhile isDecimal with _ | ⟨d, v⟩
  · -- only digits
    rw [hdrop, List.append_nil] at hsplit
    rw [hsplit] at hwhole
    have hdigits : ∀ c ∈ rest.head?, isDecimal c = false := by
      rintro c hc
      obtain ⟨rest, rfl⟩ := List.head?_eq_some_iff.1 hc
      by_contra hdigit
      rw [Bool.not_eq_false] at hdigit
      have hall : ∀ e ∈ a ++ [c], isDecimal e = true := by
        intro e he
        rcases List.mem_append.1 he with he | he
        · exact hwhole e he
        · obtain rfl := List.mem_singleton.1 he
          exact hdigit
      have hlt : a.length < Cypher.numLength (a ++ c :: rest) := by
        have hpre : (a ++ [c]).length ≤ ((a ++ c :: rest).takeWhile isDecimal).length := by
          rw [show a ++ c :: rest = (a ++ [c]) ++ rest by simp,
            List.takeWhile_append_of_pos hall]
          exact (List.prefix_append _ _).length_le
        simp only [List.length_append, List.length_singleton] at hpre
        rcases numLength_eq (a ++ c :: rest) with hn | ⟨_, _, _, _, _, hn⟩ <;> omega
      omega
    rw [numLength_eq_of_digits hwhole hdigits] at ha
    rw [numLength_eq_of_digits hwhole (h.head hf hdigits)]
    have hnone : fractionOf rest = [] := by
      by_contra hne
      rw [if_neg hne] at ha
      omega
    rw [if_pos]
    refine fractionOf_eq_nil_iff.2 fun hpoint => ?_
    rcases h with (hbracket | hbracket) | ⟨hhead, htail⟩
    · cases hbracket.symm.trans hpoint
    · cases hbracket.symm.trans hpoint
    · exact head_of_bracketed htail hf (fractionOf_eq_nil_iff.1 hnone (hhead ▸ hpoint))
  · -- digits, and a point with digits behind it
    rw [hdrop] at hsplit
    have hd : isDecimal d = false := by
      have hhead := List.head?_dropWhile_not isDecimal a
      rw [hdrop] at hhead
      simpa using hhead
    have hstop : ∀ r : Text, ∀ c ∈ (d :: v ++ r).head?, isDecimal c = false := by
      rintro r c hc
      obtain rfl : d = c := by simpa using hc
      exact hd
    have hlength : a.length = (a.takeWhile isDecimal).length + 1 + v.length := by
      conv_lhs => rw [← hsplit]
      simp only [List.length_append, List.length_cons]
      omega
    have hread : ∀ r : Text, Cypher.numLength (a ++ r) = if fractionOf (d :: v ++ r) = [] then
        (a.takeWhile isDecimal).length
        else (a.takeWhile isDecimal).length + 1 + (fractionOf (d :: v ++ r)).length := by
      intro r
      conv_lhs => rw [← hsplit, List.append_assoc]
      exact numLength_eq_of_digits hwhole (hstop r)
    rw [hread] at ha ⊢
    have hne : fractionOf (d :: v ++ rest) ≠ [] := by
      intro hnil
      rw [if_pos hnil] at ha
      omega
    rw [if_neg hne] at ha
    obtain rfl : d = '.' := by
      by_contra hpoint
      refine hne (fractionOf_eq_nil_iff.2 fun hhead => absurd ?_ hpoint)
      simpa using hhead
    have htake : ((v ++ rest).takeWhile isDecimal).length = v.length := by
      rw [List.cons_append, fractionOf] at ha
      omega
    have htake' := h.takeWhile hf htake
    have hv : v ≠ [] := by
      rintro rfl
      refine hne ?_
      rw [List.cons_append, fractionOf]
      exact List.length_eq_zero_iff.1 htake
    rw [List.cons_append, fractionOf, if_neg, htake', hlength]
    intro hnil
    rw [hnil] at htake'
    exact hv (List.length_eq_zero_iff.1 htake'.symm)

/-- The piece is no quote that a string could begin with. -/
def Unquoted (p : Piece) : Prop := p.1 = .punct → p.2 ≠ ['\''] ∧ p.2 ≠ ['"']

/-- **What follows a piece.**  In front of parentheses and behind other pieces the match is the
same. -/
lemma At.congr {p : Piece} {rest rest' : Text} (h : At p rest) (hfollows : Follows rest rest')
    (hcomment : p.1 = .comment → rest'.head? = rest.head?) (hunquoted : Unquoted p) :
    At p rest' := by
  obtain ⟨c, w, htext, hmatch⟩ := h
  refine ⟨c, w, htext, ?_⟩
  -- a match of a class of characters
  have hclass : ∀ (kind : Kind) (f : Char → Bool), f '(' = false ∧ f ')' = false →
      (kind, 1 + ((w ++ rest).takeWhile f).length) = (p.1, w.length + 1) →
      (kind, 1 + ((w ++ rest').takeWhile f).length) = (p.1, w.length + 1) := by
    intro kind f hf heq
    obtain ⟨hkind, hlength⟩ := Prod.mk.inj heq
    rw [hfollows.takeWhile hf (by omega), hkind, Nat.add_comm]
  rw [matchAt] at hmatch ⊢
  split_ifs at hmatch with hspace hslash hquote hparam hident hdigit
  · rw [if_pos hspace]
    exact hclass .ws isSpace (by decide) hmatch
  · obtain ⟨hkind, hlength⟩ := Prod.mk.inj hmatch
    have hlength' : ((w ++ rest).takeWhile (· ≠ '\n')).length = w.length := by omega
    obtain ⟨hw, hrest⟩ := length_takeWhile_append.1 hlength'
    have htake' : ((w ++ rest').takeWhile (· ≠ '\n')).length = w.length :=
      length_takeWhile_append.2 ⟨hw, by rw [hcomment hkind.symm]; exact hrest⟩
    rcases w with _ | ⟨d, w⟩
    · exact absurd (hrest '/' hslash.2) (by decide)
    · rw [if_neg hspace, if_pos ⟨hslash.1, hslash.2⟩, htake', hkind, Nat.add_comm]
  · have hno : ¬(c = '/' ∧ (w ++ rest').head? = some '/') := by
      rintro ⟨rfl, -⟩
      exact absurd hquote (by decide)
    rw [if_neg hspace, if_neg hno, if_pos hquote]
    rcases hlength : stringLength c (w ++ rest) with _ | n
    · rw [hlength] at hmatch
      obtain ⟨hkind, hone⟩ := Prod.mk.inj hmatch
      obtain rfl : w = [] := List.length_eq_zero_iff.1 (by omega)
      obtain ⟨hsingle, hdouble⟩ := hunquoted hkind.symm
      rcases hquote with rfl | rfl
      · exact absurd htext hsingle
      · exact absurd htext hdouble
    · rw [hlength] at hmatch
      obtain ⟨hkind, hn⟩ := Prod.mk.inj hmatch
      obtain rfl : n = w.length := by omega
      rw [stringLength_append hlength rest']
      exact hmatch
  · obtain ⟨rfl, hany⟩ := hparam
    have hany' : ((w ++ rest').head?.any isIdentStart) = true := by
      rcases w with _ | ⟨d, w⟩
      · obtain ⟨hkind, hlength⟩ := Prod.mk.inj hmatch
        obtain ⟨d, hd, hstart⟩ := (Option.any_eq_true _ _).1 hany
        have hnil : ((([] : Text) ++ rest).takeWhile isIdentChar).length = ([] : Text).length := by
          simpa using hlength
        have hno := (length_takeWhile_append.1 hnil).2 d hd
        rw [isIdentChar, hstart] at hno
        cases hno
      · exact hany
    rw [if_neg hspace, if_neg (fun hno => absurd hno.1 (by decide)), if_neg (by decide),
      if_pos ⟨rfl, hany'⟩]
    exact hclass .param isIdentChar (by decide) hmatch
  · have hno : ∀ d : Char, isIdentStart d = false → c ≠ d := by
      rintro d hd rfl
      exact Bool.false_ne_true (hd.symm.trans hident)
    rw [if_neg hspace, if_neg (fun h => hno '/' (by decide) h.1), if_neg hquote,
      if_neg (fun h => hno '$' (by decide) h.1), if_pos hident]
    exact hclass .ident isIdentChar (by decide) hmatch
  · have hno : ∀ d : Char, isDecimal d = false → c ≠ d := by
      rintro d hd rfl
      exact Bool.false_ne_true (hd.symm.trans hdigit)
    rw [if_neg hspace, if_neg (fun h => hno '/' (by decide) h.1), if_neg hquote,
      if_neg (fun h => hno '$' (by decide) h.1), if_neg hident, if_pos hdigit]
    obtain ⟨hkind, hlength⟩ := Prod.mk.inj hmatch
    rw [← List.cons_append] at hlength ⊢
    rw [hfollows.numLength hlength, hkind]
    rfl
  · obtain ⟨hkind, hone⟩ := Prod.mk.inj hmatch
    obtain rfl : w = [] := List.length_eq_zero_iff.1 (by omega)
    rw [List.nil_append] at hslash hparam ⊢
    have hhead : ∀ f : Char → Bool, f '(' = false ∧ f ')' = false →
        rest'.head?.any f = true → rest.head?.any f = true := by
      intro f hf hany
      by_contra hno
      rw [Bool.not_eq_true, Option.any_eq_false] at hno
      obtain ⟨d, hd, htrue⟩ := (Option.any_eq_true _ _).1 hany
      have hfalse := hfollows.head hf (fun e he => by simpa using hno e he) d hd
      exact Bool.false_ne_true (hfalse.symm.trans htrue)
    have hslash' : ¬(c = '/' ∧ rest'.head? = some '/') := by
      rintro ⟨hc, hrest'⟩
      have hany := hhead (· = '/') (by decide) (by rw [hrest']; rfl)
      obtain ⟨d, hd, htrue⟩ := (Option.any_eq_true _ _).1 hany
      obtain rfl := of_decide_eq_true htrue
      exact hslash ⟨hc, hd⟩
    have hparam' : ¬(c = '$' ∧ rest'.head?.any isIdentStart = true) :=
      fun h => hparam ⟨h.1, hhead isIdentStart (by decide) h.2⟩
    rw [if_neg hspace, if_neg hslash', if_neg hquote, if_neg hparam', if_neg hident,
      if_neg hdigit, hkind]
    rfl

/-! ### Pieces in parentheses -/

lemma at_bracket {c : Char} (hc : c = '(' ∨ c = ')') (rest : Text) : At (.punct, [c]) rest := by
  refine ⟨c, [], rfl, ?_⟩
  rcases hc with rfl | rfl
  · rw [matchAt, if_neg (by decide), if_neg (fun h => absurd h.1 (by decide)), if_neg (by decide),
      if_neg (fun h => absurd h.1 (by decide)), if_neg (by decide), if_neg (by decide)]
    rfl
  · rw [matchAt, if_neg (by decide), if_neg (fun h => absurd h.1 (by decide)), if_neg (by decide),
      if_neg (fun h => absurd h.1 (by decide)), if_neg (by decide), if_neg (by decide)]
    rfl

/-- A comment goes to the end of its line. -/
lemma At.head_of_comment {p : Piece} {rest : Text} (h : At p rest) (hp : p.1 = .comment) :
    ∀ c ∈ rest.head?, c = '\n' := by
  obtain ⟨c, w, -, hmatch⟩ := h
  rw [hp, matchAt] at hmatch
  split_ifs at hmatch with hspace hslash hquote hparam hident hdigit
  · cases (Prod.mk.inj hmatch).1
  · obtain ⟨-, hlength⟩ := Prod.mk.inj hmatch
    have htake : ((w ++ rest).takeWhile (· ≠ '\n')).length = w.length := by omega
    intro d hd
    have hno := (length_takeWhile_append.1 htake).2 d hd
    simpa using hno
  · rcases hlength : stringLength c (w ++ rest) with _ | n
    · rw [hlength] at hmatch
      cases (Prod.mk.inj hmatch).1
    · rw [hlength] at hmatch
      cases (Prod.mk.inj hmatch).1
  · cases (Prod.mk.inj hmatch).1
  · cases (Prod.mk.inj hmatch).1
  · cases (Prod.mk.inj hmatch).1
  · cases (Prod.mk.inj hmatch).1

/-- Pieces that could stand in parentheses: they are read off a text, and do not end with a
comment. -/
structure Enclosable (seg : List Piece) : Prop where
  reads : ∃ after, Reads (seg ++ after)
  last : ∀ p ∈ seg.getLast?, p.1 ≠ .comment
  plain : ∀ p ∈ seg, Unquoted p

lemma head_spelling {p : Piece} {rest : Text} (h : At p rest) (text text' : Text) :
    (p.2 ++ text).head? = (p.2 ++ text').head? := by
  obtain ⟨c, w, htext, -⟩ := h
  rw [htext]
  rfl

lemma Enclosable.reads_append {seg rest : List Piece} (h : Enclosable seg) (hrest : Reads rest)
    (hbracket : Bracketed (spelling rest)) : Reads (seg ++ rest) := by
  obtain ⟨⟨after, hreads⟩, hlast, hunquoted⟩ := h
  induction seg with
  | nil => exact hrest
  | cons p seg ih =>
      have htail : ∀ q ∈ seg.getLast?, q.1 ≠ .comment := by
        intro q hq
        refine hlast q ?_
        rw [Option.mem_def] at hq ⊢
        rw [List.getLast?_cons, hq]
        rfl
      refine ⟨hreads.1.congr ?_ (fun hp => ?_) (hunquoted p List.mem_cons_self),
        ih htail (fun q hq => hunquoted q (List.mem_cons_of_mem p hq)) hreads.2⟩
      · show Follows (spelling (seg ++ after)) (spelling (seg ++ rest))
        rw [spelling_append, spelling_append]
        refine Follows.append (.inl ?_) _
        exact hbracket
      · rcases seg with _ | ⟨q, seg⟩
        · exact absurd hp (hlast p rfl)
        · exact head_spelling hreads.2.1 _ _

/-- The pieces, with the ones that come in parentheses in the place of some of them. -/
def edited (es : List (Piece × Option (List Piece))) : List Piece :=
  es.flatMap fun e => match e.2 with
    | none => [e.1]
    | some seg => (.punct, ['(']) :: (seg ++ [(.punct, [')'])])

lemma edited_none (p : Piece) (es : List (Piece × Option (List Piece))) :
    edited ((p, none) :: es) = p :: edited es := rfl

lemma edited_some (p : Piece) (seg : List Piece) (es : List (Piece × Option (List Piece))) :
    edited ((p, some seg) :: es) = (.punct, ['(']) :: (seg ++ (.punct, [')']) :: edited es) := by
  simp [edited]

/-- **Editing.**  When identifiers are replaced by pieces in parentheses, the text is read as the
pieces that were put together. -/
theorem Reads.edit {es : List (Piece × Option (List Piece))} (h : Reads (es.map Prod.fst))
    (hunquoted : ∀ e ∈ es, Unquoted e.1)
    (hseg : ∀ e ∈ es, ∀ seg ∈ e.2, e.1.1 = .ident ∧ Enclosable seg) :
    Reads (edited es) ∧ Follows (spelling (es.map Prod.fst)) (spelling (edited es)) := by
  induction es with
  | nil => exact ⟨trivial, .refl []⟩
  | cons e es ih =>
      obtain ⟨hat, hreads⟩ := h
      obtain ⟨ihreads, ihfollows⟩ := ih hreads (fun x hx => hunquoted x (List.mem_cons_of_mem e hx))
        fun x hx => hseg x (List.mem_cons_of_mem e hx)
      obtain ⟨p, _ | seg⟩ := e
      · refine ⟨⟨hat.congr ihfollows (fun hp => ?_) (hunquoted _ List.mem_cons_self), ihreads⟩,
          ihfollows.append p.2⟩
        -- what follows a comment is not replaced
        rcases es with _ | ⟨⟨q, _ | seg⟩, es⟩
        · rfl
        · exact (head_spelling hreads.1 _ _).symm
        · obtain ⟨hident, -⟩ := hseg (q, some seg) (List.mem_cons_of_mem _ List.mem_cons_self)
            seg rfl
          obtain ⟨c, w, htext, hmatch⟩ := hreads.1
          have hnewline := hat.head_of_comment hp c (by
            rw [List.map_cons, spelling_cons]
            dsimp only at htext ⊢
            rw [htext]
            rfl)
          have hstart := (kind_matchAt hmatch).1 hident
          rw [hnewline] at hstart
          exact absurd hstart (by decide)
      · obtain ⟨-, henclosable⟩ := hseg _ List.mem_cons_self seg rfl
        have hclose : Reads ((.punct, [')']) :: edited es) :=
          ⟨at_bracket (.inr rfl) _, ihreads⟩
        rw [edited_some]
        exact ⟨⟨at_bracket (.inl rfl) _, henclosable.reads_append hclose (.inr rfl)⟩,
          .inl (.inl rfl)⟩

/-! ### Where the lexemes stand -/

/-- The lexemes stand one after the other, from a position on. -/
def Laid : ℕ → List Lexeme → Prop
  | _, [] => True
  | k, l :: ls => l.start = k ∧ l.stop = k + l.text.length ∧ Laid l.stop ls

lemma laid_finditer (fuel start : ℕ) (src : Text) : Laid start (finditer fuel start src) := by
  induction fuel generalizing start src with
  | zero => trivial
  | succ fuel ih =>
      rcases src with _ | ⟨c, cs⟩
      · trivial
      · rcases hmatch : matchAt c cs with ⟨kind, n⟩
        obtain ⟨-, hle, -⟩ := matchAt_spec hmatch
        rw [finditer, hmatch]
        refine ⟨rfl, ?_, ih (start + n) ((c :: cs).drop n)⟩
        show start + n = start + ((c :: cs).take n).length
        rw [List.length_take, Nat.min_eq_left hle]

/-- The text of the lexemes. -/
def wholeSpelling (ls : List Lexeme) : Text := spelling (ls.map Lexeme.piece)

lemma wholeSpelling_append (ls ms : List Lexeme) :
    wholeSpelling (ls ++ ms) = wholeSpelling ls ++ wholeSpelling ms := by
  rw [wholeSpelling, List.map_append, spelling_append]
  rfl

lemma Laid.right {k : ℕ} {ls ms : List Lexeme} (h : Laid k (ls ++ ms)) :
    Laid (k + (wholeSpelling ls).length) ms := by
  induction ls generalizing k with
  | nil => exact h
  | cons l ls ih =>
      obtain ⟨-, hstop, h⟩ := h
      have hlater := ih h
      rw [hstop] at hlater
      rw [wholeSpelling, List.map_cons, spelling_cons, List.length_append, ← Nat.add_assoc]
      exact hlater

lemma Laid.start_eq {k : ℕ} {ls ms : List Lexeme} {l : Lexeme} (h : Laid k (ls ++ l :: ms)) :
    l.start = k + (wholeSpelling ls).length ∧
      l.stop = k + (wholeSpelling (ls ++ [l])).length := by
  obtain ⟨hstart, hstop, -⟩ := h.right
  refine ⟨hstart, ?_⟩
  rw [hstop, wholeSpelling_append, List.length_append, Nat.add_assoc]
  simp [wholeSpelling, Lexeme.piece]

/-- The text from the first lexeme to the last one. -/
lemma slice_eq {before seg after : List Lexeme} {first last : Lexeme}
    (h : Laid 0 (before ++ seg ++ after)) (hfirst : seg.head? = some first)
    (hlast : seg.getLast? = some last) :
    slice (wholeSpelling (before ++ seg ++ after)) first.start last.stop = wholeSpelling seg := by
  obtain ⟨seg', hseg⟩ := List.head?_eq_some_iff.1 hfirst
  obtain ⟨front, hfront⟩ : ∃ front, seg = front ++ [last] := List.getLast?_eq_some_iff.1 hlast
  have hstart : first.start = (wholeSpelling before).length := by
    rw [hseg, List.append_assoc, List.cons_append] at h
    simpa using h.start_eq.1
  have hstop : last.stop = (wholeSpelling (before ++ seg)).length := by
    rw [hfront, ← List.append_assoc, List.append_assoc _ [last]] at h
    rw [h.start_eq.2, hfront, Nat.zero_add, List.append_assoc]
  rw [slice, hstart, hstop, wholeSpelling_append (before ++ seg), List.take_left,
    wholeSpelling_append, List.drop_left]

end PalaceDaemon.Cypher

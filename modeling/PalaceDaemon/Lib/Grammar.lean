/-
Words derived from a grammar, and what every one of them has.

A grammar has a list of right sides for every nonterminal.  Three things about the words that it
derives can be read off the right sides one by one.  When the right sides of some nonterminals
have only these nonterminals and good letters, their words have only good letters
(`letters_of_derives`).  When the tables `first` and `last` bound the letters with which the word
of a nonterminal begins and ends, which letters stand next to each other is seen at the places
where the symbols of a right side meet (`chain_of_derives`).  When the brackets of every right
side match, those of a word do, and only the words of a nonterminal that is `loose` have a
separator outside their brackets (`levels_of_derives`).  The conditions on the rules are
decidable.
-/
import Mathlib.Computability.Language
import Mathlib.Data.List.Chain

namespace Grammar

variable {N C : Type}

/-- The words that the rules derive from a list of symbols. -/
inductive Derives (rules : N → List (List (Symbol C N))) : List (Symbol C N) → List C → Prop
  | nil : Derives rules [] []
  | terminal {c ss w} : Derives rules ss w → Derives rules (.terminal c :: ss) (c :: w)
  | nonterminal {n rhs ss v w} : rhs ∈ rules n → Derives rules rhs v → Derives rules ss w →
      Derives rules (.nonterminal n :: ss) (v ++ w)

variable {rules : N → List (List (Symbol C N))}

lemma eq_nil_of_derives {w : List C} (h : Derives rules [] w) : w = [] := by
  cases h
  rfl

lemma Derives.append {ss ts : List (Symbol C N)} {v w : List C} (hv : Derives rules ss v)
    (hw : Derives rules ts w) : Derives rules (ss ++ ts) (v ++ w) := by
  induction hv with
  | nil => exact hw
  | terminal _ ih => exact .terminal ih
  | nonterminal hrule hrhs _ _ ih =>
      rw [List.append_assoc]
      exact .nonterminal hrule hrhs ih

/-- A rule derives what its right side does. -/
lemma Derives.rule {n : N} {rhs : List (Symbol C N)} {w : List C} (hrule : rhs ∈ rules n)
    (h : Derives rules rhs w) : Derives rules [.nonterminal n] w := by
  have hone : Derives rules [.nonterminal n] (w ++ []) := .nonterminal hrule h .nil
  rwa [List.append_nil] at hone

/-! ### Letters -/

section letters

variable (within : N → Bool) (good : C → Bool)

/-- The symbol is a good letter or a nonterminal of the part of the grammar. -/
def Stays : Symbol C N → Bool
  | .terminal c => good c
  | .nonterminal n => within n

/-- The rules of a part of the grammar stay in it and have only good letters. -/
def Closed (rules : N → List (List (Symbol C N))) : Prop :=
  ∀ n, within n = true → ∀ rhs ∈ rules n, ∀ X ∈ rhs, Stays within good X = true

variable {within good}

/-- **Letters.**  The words of a closed part of the grammar have only good letters. -/
theorem letters_of_derives (hrules : Closed within good rules) {ss : List (Symbol C N)}
    {w : List C} (h : Derives rules ss w) (hss : ∀ X ∈ ss, Stays within good X = true) :
    ∀ c ∈ w, good c = true := by
  induction h with
  | nil => exact fun c hc => absurd hc List.not_mem_nil
  | terminal _ ih =>
      rintro c hc
      rcases List.mem_cons.1 hc with rfl | hc
      · exact hss _ List.mem_cons_self
      · exact ih (fun X hX => hss X (List.mem_cons_of_mem _ hX)) c hc
  | nonterminal hrule _ _ ihv ihw =>
      rintro c hc
      rcases List.mem_append.1 hc with hc | hc
      · exact ihv (hrules _ (hss _ List.mem_cons_self) _ hrule) c hc
      · exact ihw (fun X hX => hss X (List.mem_cons_of_mem _ hX)) c hc

end letters

/-! ### Neighbours -/

section neighbours

variable (first last : N → List C) (ok : C → C → Bool)

/-- The letters with which the words of a symbol begin. -/
def firstOf : Symbol C N → List C
  | .terminal c => [c]
  | .nonterminal n => first n

/-- The letters with which they end. -/
def lastOf : Symbol C N → List C
  | .terminal c => [c]
  | .nonterminal n => last n

/-- Where the symbols meet, the letters may stand next to each other. -/
def Meets : List (Symbol C N) → Prop
  | X :: Y :: ss => (∀ a ∈ lastOf last X, ∀ b ∈ firstOf first Y, ok a b = true) ∧ Meets (Y :: ss)
  | _ => True

instance decidableMeets : ∀ ss : List (Symbol C N), Decidable (Meets first last ok ss)
  | [] => isTrue trivial
  | [_] => isTrue trivial
  | _ :: Y :: ss =>
      have : Decidable (Meets first last ok (Y :: ss)) := decidableMeets (Y :: ss)
      inferInstanceAs (Decidable (_ ∧ Meets first last ok (Y :: ss)))

/-- The rules respect the tables. -/
def Neighbours (rules : N → List (List (Symbol C N))) : Prop :=
  ∀ n, ∀ rhs ∈ rules n, Meets first last ok rhs ∧
    (∃ X ∈ rhs.head?, ∀ c ∈ firstOf first X, c ∈ first n) ∧
    ∃ X ∈ rhs.getLast?, ∀ c ∈ lastOf last X, c ∈ last n

variable {first last ok}

/-- What the words of a list of symbols have. -/
structure Fits (first last : N → List C) (ok : C → C → Bool) (ss : List (Symbol C N))
    (w : List C) : Prop where
  head : ∀ X ∈ ss.head?, ∃ c ∈ w.head?, c ∈ firstOf first X
  last : ∀ X ∈ ss.getLast?, ∃ c ∈ w.getLast?, c ∈ lastOf last X
  chain : w.IsChain fun a b => ok a b = true

lemma Fits.nil : Fits first last ok ([] : List (Symbol C N)) [] where
  head _ h := by cases h
  last _ h := by cases h
  chain := .nil

/-- Words that fit may follow each other where their symbols meet. -/
lemma Fits.append {X : Symbol C N} {ss : List (Symbol C N)} {v w : List C}
    (hv : Fits first last ok [X] v) (hw : Fits first last ok ss w)
    (hempty : ss = [] → w = []) (hmeets : Meets first last ok (X :: ss)) :
    Fits first last ok (X :: ss) (v ++ w) := by
  obtain ⟨a, ha, hfirst⟩ := hv.head X rfl
  obtain ⟨z, hz, hlast⟩ := hv.last X rfl
  refine ⟨?_, ?_, ?_⟩
  · rintro Y hY
    obtain rfl : X = Y := by simpa using hY
    exact ⟨a, List.mem_head?_append_of_mem_head? ha, hfirst⟩
  · intro Y hY
    cases ss with
    | nil =>
        obtain rfl : X = Y := by simpa using hY
        rw [hempty rfl, List.append_nil]
        exact ⟨z, hz, hlast⟩
    | cons S ss =>
        rw [List.getLast?_cons_cons] at hY
        obtain ⟨c, hc, hmem⟩ := hw.last Y hY
        exact ⟨c, List.mem_getLast?_append_of_mem_getLast? hc, hmem⟩
  · refine List.isChain_append.2 ⟨hv.chain, hw.chain, fun x hx y hy => ?_⟩
    cases ss with
    | nil =>
        rw [hempty rfl] at hy
        cases hy
    | cons S ss =>
        obtain ⟨b, hb, hmem⟩ := hw.head S rfl
        obtain rfl : z = x := Option.mem_unique hz hx
        obtain rfl : b = y := Option.mem_unique hb hy
        exact hmeets.1 z hlast b hmem

lemma fits_of_derives (hrules : Neighbours first last ok rules) {ss : List (Symbol C N)}
    {w : List C} (h : Derives rules ss w) (hmeets : Meets first last ok ss) :
    Fits first last ok ss w := by
  have htail : ∀ {X : Symbol C N} {ss}, Meets first last ok (X :: ss) → Meets first last ok ss := by
    intro X ss h
    cases ss with
    | nil => trivial
    | cons Y ss => exact h.2
  induction h with
  | nil => exact .nil
  | @terminal c ss w hw ih =>
      have hone : Fits first last ok [Symbol.terminal c] [c] := by
        refine ⟨?_, ?_, .singleton c⟩ <;>
        · intro X hX
          obtain rfl : Symbol.terminal c = X := by simpa using hX
          exact ⟨c, rfl, List.mem_singleton_self c⟩
      exact hone.append (ih (htail hmeets)) (fun hnil => eq_nil_of_derives (hnil ▸ hw)) hmeets
  | @nonterminal n rhs ss v w hrule hv hw ihv ihw =>
      obtain ⟨hinner, ⟨X, hX, hhead⟩, Y, hY, hlast⟩ := hrules n rhs hrule
      have hfits := ihv hinner
      have hone : Fits first last ok [Symbol.nonterminal n] v := by
        refine ⟨?_, ?_, hfits.chain⟩
        · intro Z hZ
          obtain rfl : Symbol.nonterminal n = Z := by simpa using hZ
          obtain ⟨c, hc, hmem⟩ := hfits.head X hX
          exact ⟨c, hc, hhead c hmem⟩
        · intro Z hZ
          obtain rfl : Symbol.nonterminal n = Z := by simpa using hZ
          obtain ⟨c, hc, hmem⟩ := hfits.last Y hY
          exact ⟨c, hc, hlast c hmem⟩
      exact hone.append (ihw (htail hmeets)) (fun hnil => eq_nil_of_derives (hnil ▸ hw)) hmeets

/-- **Neighbours.**  In the words of a nonterminal only letters that may do so stand next to each
other, and they begin and end as the tables say. -/
theorem chain_of_derives (hrules : Neighbours first last ok rules) {n : N} {w : List C}
    (h : Derives rules [.nonterminal n] w) :
    (∃ c ∈ w.head?, c ∈ first n) ∧ (∃ c ∈ w.getLast?, c ∈ last n) ∧
      w.IsChain fun a b => ok a b = true := by
  have hfits := fits_of_derives hrules h trivial
  exact ⟨hfits.head _ rfl, hfits.last _ rfl, hfits.chain⟩

end neighbours

/-! ### Brackets -/

/-- What a letter does to the depth of the brackets. -/
inductive Side
  | opening
  | closing
  | inside
deriving DecidableEq, Repr

section brackets

variable (side : C → Side)

/-- The letters of a word with their depths; that of a bracket is the one outside it. -/
def levels : ℕ → List C → List (C × ℕ)
  | _, [] => []
  | d, c :: w => match side c with
    | .opening => (c, d) :: levels (d + 1) w
    | .closing => (c, d - 1) :: levels (d - 1) w
    | .inside => (c, d) :: levels d w

/-- The depth after a word. -/
def depthAfter : ℕ → List C → ℕ
  | d, [] => d
  | d, c :: w => match side c with
    | .opening => depthAfter (d + 1) w
    | .closing => depthAfter (d - 1) w
    | .inside => depthAfter d w

/-- The brackets of the symbols, of which `r` are open, match, and a separator outside them stands
only where `allowed` allows it. -/
def Balanced (separates : C → Bool) (loose : N → Bool) (allowed : Bool) :
    ℕ → List (Symbol C N) → Prop
  | r, [] => r = 0
  | r, .nonterminal n :: ss =>
      (r = 0 → loose n = true → allowed = true) ∧ Balanced separates loose allowed r ss
  | r, .terminal c :: ss => match side c with
    | .opening =>
        (r = 0 → separates c = true → allowed = true) ∧ Balanced separates loose allowed (r + 1) ss
    | .closing => 0 < r ∧ (r = 1 → separates c = true → allowed = true) ∧
        Balanced separates loose allowed (r - 1) ss
    | .inside =>
        (r = 0 → separates c = true → allowed = true) ∧ Balanced separates loose allowed r ss

instance decidableBalanced (separates : C → Bool) (loose : N → Bool) (allowed : Bool) :
    ∀ (r : ℕ) (ss : List (Symbol C N)), Decidable (Balanced side separates loose allowed r ss)
  | r, [] => inferInstanceAs (Decidable (r = 0))
  | r, .nonterminal n :: ss =>
      have := decidableBalanced separates loose allowed r ss
      inferInstanceAs (Decidable (_ ∧ Balanced side separates loose allowed r ss))
  | r, .terminal c :: ss => match h : side c with
    | .opening =>
        have := decidableBalanced separates loose allowed (r + 1) ss
        decidable_of_iff ((r = 0 → separates c = true → allowed = true) ∧
          Balanced side separates loose allowed (r + 1) ss) (by rw [Balanced, h])
    | .closing =>
        have := decidableBalanced separates loose allowed (r - 1) ss
        decidable_of_iff (0 < r ∧ (r = 1 → separates c = true → allowed = true) ∧
          Balanced side separates loose allowed (r - 1) ss) (by rw [Balanced, h])
    | .inside =>
        have := decidableBalanced separates loose allowed r ss
        decidable_of_iff ((r = 0 → separates c = true → allowed = true) ∧
          Balanced side separates loose allowed r ss) (by rw [Balanced, h])

/-- The brackets of the rules match, and only loose nonterminals have separators. -/
def Brackets (separates : C → Bool) (loose : N → Bool) (rules : N → List (List (Symbol C N))) :
    Prop :=
  ∀ n, ∀ rhs ∈ rules n, Balanced side separates loose (loose n) 0 rhs

variable {side} {separates : C → Bool} {loose : N → Bool}

lemma depthAfter_append (d : ℕ) (v w : List C) :
    depthAfter side d (v ++ w) = depthAfter side (depthAfter side d v) w := by
  induction v generalizing d with
  | nil => rfl
  | cons c v ih =>
      rw [List.cons_append, depthAfter, depthAfter]
      cases side c <;> exact ih _

lemma levels_append (d : ℕ) (v w : List C) :
    levels side d (v ++ w) = levels side d v ++ levels side (depthAfter side d v) w := by
  induction v generalizing d with
  | nil => rfl
  | cons c v ih =>
      rw [List.cons_append, levels, levels, depthAfter]
      cases side c <;> exact congrArg (List.cons _) (ih _)

lemma length_levels (d : ℕ) (w : List C) : (levels side d w).length = w.length := by
  induction w generalizing d with
  | nil => rfl
  | cons c w ih =>
      rw [levels]
      cases side c <;> exact congrArg Nat.succ (ih _)

lemma depthAfter_map {B : Type} (f : B → C) (d : ℕ) (w : List B) :
    depthAfter side d (w.map f) = depthAfter (fun b => side (f b)) d w := by
  induction w generalizing d with
  | nil => rfl
  | cons b w ih =>
      rw [List.map_cons, depthAfter, depthAfter]
      cases side (f b) <;> exact ih _

lemma levels_map {B : Type} (f : B → C) (d : ℕ) (w : List B) :
    levels side d (w.map f) = (levels (fun b => side (f b)) d w).map fun x => (f x.1, x.2) := by
  induction w generalizing d with
  | nil => rfl
  | cons b w ih =>
      rw [List.map_cons, levels, levels]
      cases side (f b) <;> exact congrArg (List.cons _) (ih _)

/-- **Brackets.**  A word of a list of symbols whose brackets match, `r` of them open before it,
ends `r` levels further out, never goes further, and at this level has a separator only where one
is allowed. -/
theorem levels_of_derives (hrules : Brackets side separates loose rules) {ss : List (Symbol C N)}
    {w : List C} (h : Derives rules ss w) {allowed : Bool} {r : ℕ}
    (hss : Balanced side separates loose allowed r ss) (d : ℕ) :
    depthAfter side (d + r) w = d ∧
      ∀ x ∈ levels side (d + r) w, d ≤ x.2 ∧ (x.2 = d → separates x.1 = true → allowed = true) := by
  induction h generalizing allowed r d with
  | nil =>
      obtain rfl : r = 0 := hss
      exact ⟨rfl, fun x hx => absurd hx List.not_mem_nil⟩
  | @terminal c ss w hw ih =>
      rw [Balanced] at hss
      rw [depthAfter, levels]
      cases hside : side c with
      | opening =>
          rw [hside] at hss
          obtain ⟨hdepth, hlevels⟩ := ih hss.2 d
          refine ⟨hdepth, fun x hx => ?_⟩
          rcases List.mem_cons.1 hx with rfl | hx
          · exact ⟨Nat.le_add_right d r, fun heq => hss.1 (by simpa using heq)⟩
          · exact hlevels x hx
      | closing =>
          rw [hside] at hss
          obtain ⟨hpos, hallowed, hrest⟩ := hss
          have hsub : d + r - 1 = d + (r - 1) := by omega
          obtain ⟨hdepth, hlevels⟩ := ih hrest d
          simp only [hsub]
          refine ⟨hdepth, fun x hx => ?_⟩
          rcases List.mem_cons.1 hx with rfl | hx
          · refine ⟨Nat.le_add_right d _, fun heq => hallowed ?_⟩
            have heq : d + (r - 1) = d := heq
            omega
          · exact hlevels x hx
      | inside =>
          rw [hside] at hss
          obtain ⟨hdepth, hlevels⟩ := ih hss.2 d
          refine ⟨hdepth, fun x hx => ?_⟩
          rcases List.mem_cons.1 hx with rfl | hx
          · exact ⟨Nat.le_add_right d r, fun heq => hss.1 (by simpa using heq)⟩
          · exact hlevels x hx
  | @nonterminal n rhs ss v w hrule hv hw ihv ihw =>
      rw [Balanced] at hss
      obtain ⟨hloose, hrest⟩ := hss
      -- the word of the nonterminal keeps the level at which it begins
      obtain ⟨hdepth, hlevels⟩ := ihv (hrules n rhs hrule) (d + r)
      obtain ⟨hdepth', hlevels'⟩ := ihw hrest d
      rw [Nat.add_zero] at hdepth hlevels
      rw [depthAfter_append, levels_append, hdepth]
      refine ⟨hdepth', fun x hx => ?_⟩
      rcases List.mem_append.1 hx with hx | hx
      · obtain ⟨hle, hallowed⟩ := hlevels x hx
        refine ⟨by omega, fun heq hseparates => ?_⟩
        exact hloose (by omega) (hallowed (by omega) hseparates)
      · exact hlevels' x hx

end brackets

end Grammar

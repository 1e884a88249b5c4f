/-
What the rewriting leaves as it is.

The substitutions stand in the order of the text and none overlaps another (`spans_sublist`), so the
text is that of its lexemes with some of them replaced (`foldr_apply`).  What replaces one stands in
the text between two tokens outside brackets, and its brackets match (`exists_segment`).  So the
result is read as it was put together, if no quote stands outside the strings and comments: the
tokens are those of the text, where some identifiers of sort keys are replaced by an expression in
parentheses (`rewrite_frame`).
-/
import PalaceDaemon.Cypher.Pieces
import PalaceDaemon.Cypher.Unchanged

namespace PalaceDaemon.Cypher

open PyText

/-! ### The brackets of pieces -/

/-- The piece is kept as a token. -/
def Piece.kept (p : Piece) : Bool := p.1 ≠ .ws && p.1 ≠ .comment

/-- The brackets that stay open behind a closing mark, if it matches. -/
def closed (mark : Text) : List Text → Option (List Text)
  | [] => none
  | o :: stack => if openers.lookup o = some mark then some stack else none

/-- What a piece does to the open brackets, in `tokenizeFrom`. -/
def step (stack : List Text) (p : Piece) : Option (List Text) :=
  if p.1 = .ws ∨ p.1 = .comment then some stack
  else if p.1 = .punct ∧ p.2 ∈ closers then closed p.2 stack
  else if p.1 = .punct ∧ (openers.lookup p.2).isSome then some (p.2 :: stack)
  else some stack

/-- The open brackets after the pieces. -/
def run (stack : List Text) : List Piece → Option (List Text)
  | [] => some stack
  | p :: ps => (step stack p).bind fun stack => run stack ps

lemma run_append (stack : List Text) (ps qs : List Piece) :
    run stack (ps ++ qs) = (run stack ps).bind fun stack => run stack qs := by
  induction ps generalizing stack with
  | nil => rfl
  | cons p ps ih =>
      rw [List.cons_append, run, run]
      rcases step stack p with _ | stack'
      · rfl
      · exact ih stack'

/-- More brackets that are open before make no difference. -/
lemma step_frame {stack stack' : List Text} {p : Piece} (h : step stack p = some stack')
    (outer : List Text) : step (stack ++ outer) p = some (stack' ++ outer) := by
  rw [step] at h ⊢
  split_ifs at h ⊢ with hskip hclose hopen
  · rw [Option.some.inj h]
  · rcases stack with _ | ⟨o, stack⟩
    · cases h
    · rw [List.cons_append, closed]
      obtain ⟨hmatch, hsome⟩ := Option.ite_none_right_eq_some.1 h
      rw [if_pos hmatch, Option.some.inj hsome]
  · rw [← Option.some.inj h, List.cons_append]
  · rw [Option.some.inj h]

lemma run_frame {stack stack' : List Text} {ps : List Piece} (h : run stack ps = some stack')
    (outer : List Text) : run (stack ++ outer) ps = some (stack' ++ outer) := by
  induction ps generalizing stack with
  | nil => rw [run, Option.some.inj h]
  | cons p ps ih =>
      obtain ⟨between, hstep, hrun⟩ := Option.bind_eq_some_iff.1 h
      rw [run, step_frame hstep outer, Option.bind_some]
      exact ih hrun

/-- What is left out by `_tokenize` changes no bracket. -/
lemma run_of_skipped {ps : List Piece} (h : ∀ p ∈ ps, p.kept = false) (stack : List Text) :
    run stack ps = some stack := by
  induction ps with
  | nil => rfl
  | cons p ps ih =>
      have hp : p.1 = .ws ∨ p.1 = .comment := by
        have hkept := h p List.mem_cons_self
        simpa [Piece.kept, or_iff_not_imp_left] using hkept
      rw [run, step, if_pos hp, Option.bind_some]
      exact ih fun q hq => h q (List.mem_cons_of_mem p hq)

/-- The brackets around a token, if these are open before it and behind it. -/
def around (stack stack' : List Text) : List Text :=
  if stack'.length < stack.length then stack' else stack

/-- The loop of `_tokenize` and the brackets. -/
lemma tokenizeFrom_cons (stack : List Text) (l : Lexeme) (ls : List Lexeme) :
    tokenizeFrom stack (l :: ls) = (step stack l.piece).bind fun stack' =>
      (tokenizeFrom stack' ls).map fun toks =>
        if l.kept then
          ⟨l.kind, l.text, l.start, l.stop, (around stack stack').length,
            (around stack stack').head?⟩ :: toks
        else toks := by
  rw [tokenizeFrom.eq_def]
  dsimp only
  by_cases hskip : l.kind = .ws ∨ l.kind = .comment
  · have hkept : l.kept = false := by simpa [Lexeme.kept, or_iff_not_imp_left] using hskip
    have hstep : step stack l.piece = some stack := if_pos hskip
    rw [if_pos hskip, hstep, Option.bind_some, hkept]
    exact Option.map_id'.symm
  have hkept : l.kept = true := by simpa [Lexeme.kept, not_or] using hskip
  rw [if_neg hskip, hkept]
  by_cases hclose : l.kind = .punct ∧ l.text ∈ closers
  · have hstep : step stack l.piece = closed l.text stack := (if_neg hskip).trans (if_pos hclose)
    rw [if_pos hclose, hstep]
    rcases stack with _ | ⟨o, stack⟩
    · rfl
    · rw [closed]
      by_cases hmatch : openers.lookup o = some l.text <;> simp [hmatch, around]
  · by_cases hopen : l.kind = .punct ∧ (openers.lookup l.text).isSome = true
    · have hstep : step stack l.piece = some (l.text :: stack) :=
        (if_neg hskip).trans ((if_neg hclose).trans (if_pos hopen))
      rw [if_neg hclose, if_pos hopen, hstep]
      simp [around]
    · have hstep : step stack l.piece = some stack :=
        (if_neg hskip).trans ((if_neg hclose).trans (if_neg hopen))
      rw [if_neg hclose, if_neg hopen, hstep]
      simp [around]

/-- The tokens of the lexemes that are read up to a bracket stack, and those after. -/
lemma tokenizeFrom_append {stack : List Text} {ls ms : List Lexeme} {toks : List Tok}
    (h : tokenizeFrom stack (ls ++ ms) = some toks) : ∃ stack' before after,
      run stack (ls.map Lexeme.piece) = some stack' ∧ toks = before ++ after ∧
      before.map Tok.lexeme = ls.filter Lexeme.kept ∧ tokenizeFrom stack' ms = some after := by
  induction ls generalizing stack toks with
  | nil => exact ⟨stack, [], toks, rfl, rfl, rfl, h⟩
  | cons l ls ih =>
      rw [List.cons_append, tokenizeFrom_cons] at h
      obtain ⟨between, hstep, hsome⟩ := Option.bind_eq_some_iff.1 h
      obtain ⟨toks', htoks, rfl⟩ := Option.map_eq_some_iff.1 hsome
      obtain ⟨stack', before, after, hrun, rfl, hbefore, hafter⟩ := ih htoks
      have hrun' : run stack ((l :: ls).map Lexeme.piece) = some stack' := by
        rw [List.map_cons, run, hstep, Option.bind_some, hrun]
      by_cases hkept : l.kept = true
      · rw [if_pos hkept]
        refine ⟨stack', _ :: before, after, hrun', rfl, ?_, hafter⟩
        rw [List.map_cons, hbefore, List.filter_cons_of_pos hkept]
        rfl
      · rw [if_neg hkept]
        refine ⟨stack', before, after, hrun', rfl, ?_, hafter⟩
        rw [hbefore, List.filter_cons_of_neg hkept]

/-- The text is read if its brackets match. -/
lemma isSome_tokenizeFrom {stack : List Text} {ls : List Lexeme} :
    (tokenizeFrom stack ls).isSome ↔ run stack (ls.map Lexeme.piece) = some [] := by
  induction ls generalizing stack with
  | nil =>
      rw [tokenizeFrom, List.map_nil, run]
      by_cases hstack : stack = [] <;> simp [hstack]
  | cons l ls ih =>
      rw [tokenizeFrom_cons, List.map_cons, run]
      rcases step stack l.piece with _ | stack'
      · simp
      · rw [Option.bind_some, Option.bind_some, Option.isSome_map, ih]

/-! ### What stands between tokens outside brackets -/

lemma step_of_inside {t : Tok} (ht : t.side = .inside) (stack : List Text) :
    step stack (t.kind, t.text) = some stack := by
  rw [Tok.side, sideOf] at ht
  rw [step]
  dsimp only
  split_ifs at ht with hkind hclose hopen <;> simp [*]

/-- A token outside brackets that is no bracket itself stands where none is open. -/
lemma tokenizeFrom_outside {stack : List Text} {t : Tok} {ls : List Lexeme} {toks : List Tok}
    (h : tokenizeFrom stack (t.lexeme :: ls) = some (t :: toks)) (hkept : t.lexeme.kept = true)
    (hside : t.side = .inside) (hdepth : t.depth = 0) :
    stack = [] ∧ tokenizeFrom [] ls = some toks := by
  have hstep : step stack t.lexeme.piece = some stack := step_of_inside hside stack
  rw [tokenizeFrom_cons, hstep, Option.bind_some, hkept] at h
  obtain ⟨toks', htoks, heq⟩ := Option.map_eq_some_iff.1 h
  obtain ⟨ht, rfl⟩ := List.cons.inj heq
  have hlength : t.depth = stack.length := by
    rw [← ht]
    simp [around]
  obtain rfl : stack = [] := List.length_eq_zero_iff.1 (hlength.symm.trans hdepth)
  exact ⟨rfl, htoks⟩

/-- The tokens before and after a place in the lexemes. -/
lemma tokenizeFrom_split {stack : List Text} {ls ms : List Lexeme} {before after : List Tok}
    (h : tokenizeFrom stack (ls ++ ms) = some (before ++ after))
    (hbefore : ls.filter Lexeme.kept = before.map Tok.lexeme) :
    ∃ stack', run stack (ls.map Lexeme.piece) = some stack' ∧
      tokenizeFrom stack' ms = some after := by
  obtain ⟨stack', before', after', hrun, heq, hbefore', hafter⟩ := tokenizeFrom_append h
  have hlength : before.length = before'.length := by
    have hmap := congrArg List.length (hbefore.symm.trans hbefore'.symm)
    simpa using hmap
  obtain ⟨-, rfl⟩ := List.append_inj heq hlength
  exact ⟨stack', hrun, hafter⟩

/-- The elements of a list from the first one of some kind to the last one. -/
lemma exists_trimmed {α : Type} {f : α → Bool} {xs ys : List α} (h : xs.filter f = ys)
    (hne : ys ≠ []) : ∃ before seg after, xs = before ++ seg ++ after ∧
      (∀ x ∈ before, f x = false) ∧ (∀ x ∈ after, f x = false) ∧ seg.filter f = ys ∧
      seg.head? = ys.head? ∧ seg.getLast? = ys.getLast? := by
  obtain ⟨front, last, hys⟩ : ∃ front last, ys = front ++ [last] :=
    ⟨_, _, (List.dropLast_append_getLast hne).symm⟩
  rw [hys] at h ⊢
  obtain ⟨init, rest, rfl, hinit, hrest⟩ := List.filter_eq_append_iff.1 h
  obtain ⟨gap, after, rfl, hgap, hlast, hafter⟩ := List.filter_eq_cons_iff.1 hrest
  have hno : ∀ zs : List α, (∀ x ∈ zs, ¬f x = true) → zs.filter f = [] := fun zs hzs =>
    List.filter_eq_nil_iff.2 hzs
  have hafter' : ∀ x ∈ after, f x = false := fun x hx =>
    Bool.not_eq_true _ ▸ List.filter_eq_nil_iff.1 hafter x hx
  rcases front with _ | ⟨first, front⟩
  · refine ⟨init ++ gap, [last], after, by simp, fun x hx => ?_, hafter', by simp [hlast], rfl, rfl⟩
    rcases List.mem_append.1 hx with hx | hx
    · exact Bool.not_eq_true _ ▸ List.filter_eq_nil_iff.1 hinit x hx
    · exact Bool.not_eq_true _ ▸ hgap x hx
  · obtain ⟨before, mid, rfl, hbefore, hfirst, hmid⟩ := List.filter_eq_cons_iff.1 hinit
    refine ⟨before, first :: (mid ++ gap ++ [last]), after, by simp,
      fun x hx => Bool.not_eq_true _ ▸ hbefore x hx, hafter', ?_, rfl, ?_⟩
    · rw [List.filter_cons_of_pos hfirst, List.filter_append, List.filter_append, hmid,
        hno gap hgap, List.append_nil, List.filter_cons_of_pos hlast, List.filter_nil]
      rfl
    · rw [← List.cons_append, ← List.cons_append, List.getLast?_concat, List.getLast?_concat]

/-- Lexemes of the text from the first token to the last one. -/
structure Segment (ls : List Lexeme) (e : List Tok) (seg : List Lexeme) : Prop where
  part : ∃ before after, ls = before ++ seg ++ after
  kept : seg.filter Lexeme.kept = e.map Tok.lexeme
  head : seg.head? = e.head?.map Tok.lexeme
  last : seg.getLast? = e.getLast?.map Tok.lexeme
  balanced : run [] (seg.map Lexeme.piece) = some []

/-- **Expressions.**  The brackets match in what stands between two tokens outside brackets. -/
lemma exists_segment {ls : List Lexeme} {toks before e after : List Tok} {t u : Tok}
    (h : tokenizeFrom [] ls = some toks) (hsplit : toks = before ++ t :: (e ++ u :: after))
    (hne : e ≠ []) (ht : t.side = .inside ∧ t.depth = 0) (hu : u.side = .inside ∧ u.depth = 0) :
    ∃ seg, Segment ls e seg := by
  have hkept := lexemes_of_tokenize h
  rw [hsplit, List.map_append, List.map_cons, List.map_append, List.map_cons] at hkept
  obtain ⟨xs, ys, rfl, hxs, hys⟩ := List.filter_eq_append_iff.1 hkept.symm
  obtain ⟨gap, zs, rfl, hgap, htkept, hzs⟩ := List.filter_eq_cons_iff.1 hys
  obtain ⟨mid, ws, rfl, hmid, hws⟩ := List.filter_eq_append_iff.1 hzs
  obtain ⟨gap', vs, rfl, hgap', hukept, -⟩ := List.filter_eq_cons_iff.1 hws
  have hnil : ∀ ms : List Lexeme, (∀ x ∈ ms, ¬x.kept = true) → ms.filter Lexeme.kept = [] :=
    fun ms hms => List.filter_eq_nil_iff.2 hms
  -- no bracket is open at the first token, and none at the second one
  have hfirst : tokenizeFrom [] ((xs ++ gap) ++ t.lexeme :: (mid ++ (gap' ++ u.lexeme :: vs))) =
      some (before ++ t :: (e ++ u :: after)) := by
    rw [← hsplit, ← h, List.append_assoc]
  obtain ⟨stack, -, hrest⟩ := tokenizeFrom_split hfirst
    (by rw [List.filter_append, hxs, hnil gap hgap, List.append_nil])
  obtain ⟨rfl, hrest'⟩ := tokenizeFrom_outside hrest htkept ht.1 ht.2
  rw [← List.append_assoc] at hrest'
  have hmid' : (mid ++ gap').filter Lexeme.kept = e.map Tok.lexeme := by
    rw [List.filter_append, hmid, hnil gap' hgap', List.append_nil]
  obtain ⟨stack, hrun, hrest⟩ := tokenizeFrom_split hrest' hmid'
  obtain ⟨rfl, -⟩ := tokenizeFrom_outside hrest hukept hu.1 hu.2
  obtain ⟨pre, seg, post, hparts, hpre, hpost, hseg, hhead, hlast⟩ :=
    exists_trimmed hmid' (by simpa using hne)
  refine ⟨seg, ⟨xs ++ gap ++ t.lexeme :: pre, post ++ u.lexeme :: vs, ?_⟩, hseg, ?_, ?_, ?_⟩
  · have hjoin : mid ++ (gap' ++ u.lexeme :: vs) = pre ++ seg ++ post ++ u.lexeme :: vs := by
      rw [← List.append_assoc, hparts]
    rw [hjoin]
    simp
  · rw [hhead, List.head?_map]
  · rw [hlast, List.getLast?_map]
  · have hskipped : ∀ ms : List Lexeme, (∀ x ∈ ms, x.kept = false) →
        ∀ p ∈ ms.map Lexeme.piece, p.kept = false := by
      intro ms hms p hp
      obtain ⟨l, hl, rfl⟩ := List.mem_map.1 hp
      exact hms l hl
    rw [hparts, List.map_append, List.map_append, run_append, run_append,
      run_of_skipped (hskipped pre hpre), Option.bind_some] at hrun
    obtain ⟨stack, hseg, hrun⟩ := Option.bind_eq_some_iff.1 hrun
    rw [run_of_skipped (hskipped post hpost)] at hrun
    rw [hseg, hrun]

/-! ### What a sort key stands for -/

/-- The token is a sort key that is taken for the alias of an item, not bound before, of its own
projection, and `e` is the expression of this item. -/
def StandsFor (toks : List Tok) (t : Tok) (e : List Tok) : Prop :=
  ∃ i projection orderBy item name, (i, projection, orderBy) ∈ iterProjectionOrderBy toks ∧
    Refers orderBy t ∧ t.text ∉ boundIdentifiers toks i ∧ item ∈ itemsOf projection ∧
    splitAs item = some (e, some name) ∧ name.kind = .ident ∧ name.text = t.text ∧ e ≠ []

/-- What goes in the place of a sort key is the text of what it stands for. -/
lemma standsFor_of_mem {src : Text} {toks : List Tok} {s : Substitution}
    (hs : s ∈ allSubstitutions src toks) : ∃ t e, StandsFor toks t e ∧
      s = ⟨t.start, t.stop, '(' :: expressionText src e ++ [')']⟩ := by
  obtain ⟨i, projection, orderBy, t, text, hmem, hrefers, hget, rfl⟩ :=
    mem_allSubstitutions_iff.1 hs
  rw [get_unboundAliases] at hget
  obtain ⟨hbound, hget⟩ := Option.ite_none_left_eq_some.1 hget
  have hentry := mem_of_get hget
  rw [aliasMap_eq] at hentry
  obtain ⟨item, hitem, halias⟩ := List.mem_filterMap.1 hentry
  rw [aliasOf] at halias
  split at halias
  · rename_i e name hsplit
    obtain ⟨⟨hne, hkind, -⟩, hsome⟩ := Option.ite_none_right_eq_some.1 halias
    obtain ⟨hname, rfl⟩ := Prod.mk.inj (Option.some.inj hsome)
    exact ⟨t, e, ⟨i, projection, orderBy, item, name, hmem, hrefers, hbound, hitem, hsplit, hkind,
      hname, hne⟩, rfl⟩
  · cases halias

lemma inside_of_ident {t : Tok} (h : t.kind = .ident) : t.side = .inside := by
  rw [Tok.side, if_neg]
  rw [h]
  decide

lemma inside_of_comma {t : Tok} (h : t.isPunct ',' = true) : t.side = .inside := by
  simp only [Tok.isPunct, Bool.and_eq_true, decide_eq_true_eq] at h
  rw [Tok.side, if_pos h.1, h.2]
  decide

/-- What a sort key stands for is between two tokens outside brackets. -/
lemma StandsFor.between {toks : List Tok} {t : Tok} {e : List Tok} (h : StandsFor toks t e)
    (hnested : Nested [] toks) : ∃ before u v after, toks = before ++ u :: (e ++ v :: after) ∧
      (u.side = .inside ∧ u.depth = 0) ∧ v.side = .inside ∧ v.depth = 0 := by
  obtain ⟨i, projection, orderBy, item, name, hmem, -, -, hitem, hsplit, -⟩ := h
  obtain ⟨xs, w, ys, rfl, -, hw, horder⟩ := mem_iterFrom.1 hmem
  obtain ⟨o, b, rest, rfl, -⟩ := orderByOf_eq_some.1 horder
  obtain ⟨as, more, rfl, has, hdepth, -⟩ := splitAs_eq_some hsplit
  obtain ⟨before, after, rfl, hbefore⟩ := mem_itemsOf hitem
  have has' : as.side = .inside ∧ as.depth = 0 := ⟨inside_of_ident (isWord_iff.1 has).1, hdepth⟩
  have hw' : w.side = .inside ∧ w.depth = 0 := by
    simp only [isProjectionKeyword, Bool.and_eq_true, decide_eq_true_eq] at hw
    exact ⟨inside_of_ident hw.1.2, hw.1.1⟩
  rcases hbefore with rfl | ⟨d, rfl, hdistinct⟩ | ⟨before, comma, rfl, hcomma, hcdepth⟩
  · exact ⟨xs, w, as, more ++ after ++ o :: b :: rest, by simp, hw', has'⟩
  · have hd : d.side = .inside := inside_of_ident (isWord_iff.1 hdistinct).1
    have hnested' : Nested [] (xs ++ w :: d :: (e ++ as :: more ++ after ++ o :: b :: rest)) := by
      simpa using hnested
    have hnext := hnested'.depth_next hw'.1 hd
    exact ⟨xs ++ [w], d, as, more ++ after ++ o :: b :: rest, by simp,
      ⟨hd, hnext.trans hw'.2⟩, has'⟩
  · exact ⟨xs ++ w :: before, comma, as, more ++ after ++ o :: b :: rest, by simp,
      ⟨inside_of_comma hcomma, hcdepth⟩, has'⟩

/-! ### The substitutions in the text -/

/-- Where a token begins and ends. -/
def Tok.span (t : Tok) : ℕ × ℕ := (t.start, t.stop)

def Substitution.span (s : Substitution) : ℕ × ℕ := (s.start, s.stop)

def Lexeme.span (l : Lexeme) : ℕ × ℕ := (l.start, l.stop)

lemma spans_substitutionsFrom (aliases : List (Text × Text)) (previous : Option Tok)
    (orderBy : List Tok) :
    ((substitutionsFrom aliases previous orderBy).map Substitution.span).Sublist
      (orderBy.map Tok.span) := by
  induction orderBy generalizing previous with
  | nil => exact .slnil
  | cons t toks ih =>
      rw [substitutionsFrom, List.map_append, List.map_cons]
      have hskip := (ih (some t)).cons t.span
      rcases get aliases t.text with _ | text
      · exact hskip
      · dsimp only
        split_ifs with hrefer
        · exact (ih (some t)).cons_cons t.span
        · exact hskip

lemma iterFrom_append {toks : List Tok} (h : ∀ t ∈ toks, isProjectionKeyword t = false) (k : ℕ)
    (more : List Tok) : iterFrom k (toks ++ more) = iterFrom (k + toks.length) more := by
  induction toks generalizing k with
  | nil => rfl
  | cons t toks ih =>
      have hno : ¬isProjectionKeyword t = true := by simp [h t List.mem_cons_self]
      rw [List.cons_append, iterFrom, if_neg hno, Option.map_none, Option.toList_none,
        List.nil_append, ih (fun u hu => h u (List.mem_cons_of_mem t hu)), List.length_cons,
        Nat.add_right_comm, Nat.add_assoc]

lemma isProjectionKeyword_of_boundary {t : Tok} (h : isClauseBoundary t = false) :
    isProjectionKeyword t = false := by
  by_contra hkeyword
  rw [Bool.not_eq_false] at hkeyword
  simp only [isProjectionKeyword, Bool.and_eq_true, decide_eq_true_eq] at hkeyword
  have hstarter := (by decide : ∀ w ∈ projectionKeywords, w ∈ clauseStarters) _ hkeyword.2
  simp [isClauseBoundary, hkeyword.1.1, hkeyword.1.2, hstarter] at h

lemma isProjectionKeyword_of_upper {t : Tok} {word : Text} (h : t.upper = word)
    (hword : word ∉ projectionKeywords) : isProjectionKeyword t = false := by
  by_contra hkeyword
  rw [Bool.not_eq_false] at hkeyword
  simp only [isProjectionKeyword, Bool.and_eq_true, decide_eq_true_eq] at hkeyword
  exact hword (h ▸ hkeyword.2)

/-- The `ORDER BY`s of the projections stand one after the other. -/
lemma orderBys_sublist (k : ℕ) (toks : List Tok) :
    ((iterFrom k toks).flatMap fun c => c.2.2).Sublist toks := by
  induction hn : toks.length using Nat.strong_induction_on generalizing k toks with
  | _ n ih =>
      subst hn
      rcases toks with _ | ⟨t, toks⟩
      · exact .slnil
      · rw [iterFrom, List.flatMap_append]
        have hlater := (ih toks.length (Nat.lt_succ_self _) (k + 1) toks rfl).cons t
        split_ifs with hkeyword
        · rcases horder : orderByOf toks with _ | ⟨projection, orderBy⟩
          · exact hlater
          · obtain ⟨o, b, rest, htoks, hprojection, -, ho, hb, -, rfl, -⟩ :=
              orderByOf_eq_some.1 horder
            -- no keyword of a projection stands before the end of the sort keys
            have hno : ∀ u ∈ projection ++ o :: b :: body rest, isProjectionKeyword u = false := by
              intro u hu
              rcases List.mem_append.1 hu with hu | hu
              · exact isProjectionKeyword_of_boundary (hprojection u hu)
              · rcases List.mem_cons.1 hu with rfl | hu
                · exact isProjectionKeyword_of_upper ho (by decide)
                · rcases List.mem_cons.1 hu with rfl | hu
                  · exact isProjectionKeyword_of_upper hb (by decide)
                  · exact isProjectionKeyword_of_boundary (not_boundary_of_mem_body hu)
            have hsplit : toks = (projection ++ o :: b :: body rest) ++ afterBody rest := by
              have hrest : body rest ++ afterBody rest = rest := List.takeWhile_append_dropWhile
              rw [htoks, List.append_assoc, List.cons_append, List.cons_append, hrest]
            have hshort : (afterBody rest).length < (t :: toks).length := by
              have hlength := congrArg List.length hsplit
              simp only [List.length_append, List.length_cons] at hlength ⊢
              omega
            have hafter := ih _ hshort (k + 1 + (projection ++ o :: b :: body rest).length)
              (afterBody rest) rfl
            rw [← iterFrom_append hno, ← hsplit] at hafter
            rw [Option.map_some, Option.toList_some, List.flatMap_singleton]
            refine .cons t ?_
            conv_rhs => rw [hsplit, List.append_assoc, List.cons_append, List.cons_append]
            refine .trans ?_ (List.sublist_append_right projection _)
            exact .trans (hafter.append_left _) (((List.Sublist.refl _).cons b).cons o)
        · exact hlater

/-- The substitutions stand in the order of the text. -/
lemma spans_sublist (src : Text) (toks : List Tok) :
    ((allSubstitutions src toks).map Substitution.span).Sublist (toks.map Tok.span) := by
  refine .trans ?_ ((orderBys_sublist 0 toks).map Tok.span)
  rw [allSubstitutions, iterProjectionOrderBy]
  induction iterFrom 0 toks with
  | nil => exact .slnil
  | cons c clauses ih =>
      rw [List.flatMap_cons, List.flatMap_cons, List.map_append, List.map_append]
      exact (spans_substitutionsFrom _ none c.2.2).append ih

lemma orderedInsert_last {s : Substitution} {subs : List Substitution}
    (h : ∀ u ∈ subs, s.start < u.start) :
    subs.orderedInsert (fun s s' => s'.start ≤ s.start) s = subs ++ [s] := by
  induction subs with
  | nil => rfl
  | cons u subs ih =>
      rw [List.orderedInsert_cons, if_neg (Nat.not_le.2 (h u List.mem_cons_self)),
        ih fun v hv => h v (List.mem_cons_of_mem u hv)]
      rfl

/-- Sorting turns the substitutions around. -/
lemma insertionSort_eq_reverse {subs : List Substitution}
    (h : subs.Pairwise fun s s' => s.start < s'.start) :
    subs.insertionSort (fun s s' => s'.start ≤ s.start) = subs.reverse := by
  induction subs with
  | nil => rfl
  | cons s subs ih =>
      obtain ⟨hfirst, hrest⟩ := List.pairwise_cons.1 h
      rw [List.insertionSort_cons, ih hrest, List.reverse_cons, orderedInsert_last]
      exact fun u hu => hfirst u (List.mem_reverse.1 hu)

lemma Laid.le_start {k : ℕ} {ls : List Lexeme} (h : Laid k ls) : ∀ l ∈ ls, k ≤ l.start := by
  induction ls generalizing k with
  | nil => exact fun l hl => absurd hl List.not_mem_nil
  | cons m ls ih =>
      obtain ⟨hstart, hstop, hrest⟩ := h
      intro l hl
      rcases List.mem_cons.1 hl with rfl | hl
      · exact hstart.ge
      · have hle := ih hrest l hl
        omega

/-- The text with the substitutions is that of the lexemes with some of them replaced. -/
lemma foldr_apply {before : Text} {ls : List Lexeme} {subs : List Substitution}
    (hlaid : Laid before.length ls) (hpos : ∀ l ∈ ls, l.start < l.stop)
    (hsub : (subs.map Substitution.span).Sublist (ls.map Lexeme.span)) :
    subs.foldr (fun s out => s.apply out) (before ++ wholeSpelling ls) =
      before ++ ls.flatMap fun l =>
        ((subs.find? fun s => s.start = l.start).map Substitution.text).getD l.text := by
  induction ls generalizing before subs with
  | nil =>
      obtain rfl : subs = [] := List.map_eq_nil_iff.1 (List.sublist_nil.1 hsub)
      rfl
  | cons l ls ih =>
      obtain ⟨hstart, hstop, hrest⟩ := hlaid
      have hlt := hpos l List.mem_cons_self
      have hpos' : ∀ m ∈ ls, m.start < m.stop := fun m hm => hpos m (List.mem_cons_of_mem l hm)
      have hlaid' : Laid (before ++ l.text).length ls := by
        rw [List.length_append, ← hstop]
        exact hrest
      have hshape : before ++ wholeSpelling (l :: ls) = (before ++ l.text) ++ wholeSpelling ls := by
        rw [List.append_assoc]
        rfl
      have hlater : ∀ m ∈ ls, l.start < m.start := fun m hm =>
        Nat.lt_of_lt_of_le hlt (hrest.le_start m hm)
      rw [hshape, List.flatMap_cons]
      rcases List.sublist_cons_iff.1 hsub with hsub | ⟨spans, hspans, hsub⟩
      · -- nothing is replaced here
        have hnone : (subs.find? fun s => s.start = l.start) = none := by
          refine List.find?_eq_none.2 fun s hs heq => ?_
          obtain ⟨m, hm, hspan⟩ := List.mem_map.1 (hsub.subset (List.mem_map_of_mem hs))
          have hne := hlater m hm
          have hsame : m.start = s.start := congrArg Prod.fst hspan
          have heq' := of_decide_eq_true heq
          omega
        rw [ih hlaid' hpos' hsub, hnone, List.append_assoc]
        rfl
      · obtain ⟨s, rest, rfl, hspan, rfl⟩ := List.map_eq_cons_iff.1 hspans
        obtain ⟨hsstart, hsstop⟩ : s.start = l.start ∧ s.stop = l.stop := Prod.mk.inj hspan
        have hskip : ∀ m ∈ ls, ((s :: rest).find? fun u => u.start = m.start) =
            rest.find? fun u => u.start = m.start := by
          intro m hm
          have hne := hlater m hm
          refine List.find?_cons_of_neg fun heq => ?_
          have heq' := of_decide_eq_true heq
          omega
        have hfound : ((s :: rest).find? fun u => u.start = l.start) = some s :=
          List.find?_cons_of_pos (decide_eq_true hsstart)
        have hsame : (ls.flatMap fun m =>
            (((s :: rest).find? fun u => u.start = m.start).map Substitution.text).getD m.text) =
            ls.flatMap fun m =>
              ((rest.find? fun u => u.start = m.start).map Substitution.text).getD m.text :=
          List.flatMap_congr fun m hm => by rw [hskip m hm]
        have hstop' : s.stop = (before ++ l.text).length := by
          rw [hsstop, hstop, List.length_append]
        rw [List.foldr_cons, ih hlaid' hpos' hsub, hfound, hsame, Substitution.apply, hstop',
          hsstart, hstart, List.append_assoc before, List.take_left, List.append_assoc before]
        congr 2
        rw [← List.append_assoc, List.drop_left]

/-- The substitutions are made in the order of the text. -/
lemma rewrite_eq_foldr {src : Text} {toks : List Tok} (h : tokenize src = some toks) :
    rewriteOrderByAliases src =
      (allSubstitutions src toks).foldr (fun s out => s.apply out) src := by
  have hplaced := placed_of_tokenize h
  have hspans := spans_sublist src toks
  have hordered : (allSubstitutions src toks).Pairwise fun s s' => s.start < s'.start := by
    have hspan : (toks.map Tok.span).Pairwise fun x y => x.1 < y.1 := by
      refine List.pairwise_map.2 (hplaced.ordered.imp_of_mem fun {t u} ht _ hle => ?_)
      exact Nat.lt_of_lt_of_le (hplaced.placed t ht).lt hle
    have hsubs := hspan.sublist hspans
    rw [List.pairwise_map] at hsubs
    exact hsubs
  rw [rewriteOrderByAliases, h]
  dsimp only
  rw [insertionSort_eq_reverse hordered, List.foldl_reverse]
  split_ifs with hblank
  · -- a text with an identifier is not blank
    have hnil : allSubstitutions src toks = [] := by
      refine List.eq_nil_iff_forall_not_mem.2 fun s hs => ?_
      obtain ⟨c, hc, hident, -⟩ := ident_of_mem_allSubstitutions h hs
      have hspace := isSpace_of_strip hblank c (List.mem_of_getElem? hc)
      have hno := isSpace_of_isIdentChar (c := c) (by rw [isIdentChar, hident, Bool.true_or])
      exact Bool.false_ne_true (hno.symm.trans hspace)
    rw [hnil]
    rfl
  · rfl

/-! ### The frame -/

def Tok.piece (t : Tok) : Piece := (t.kind, t.text)

/-- The quotes of the text are those of strings, or stand in strings and comments. -/
def Quoted (src : Text) : Prop :=
  ∀ l ∈ finditer src.length 0 src, (∃ c ∈ l.text, c = '\'' ∨ c = '"') →
    l.kind = .str ∨ l.kind = .comment

lemma quoted_iff {src : Text} : Quoted src ↔ (finditer src.length 0 src).all (fun l =>
    !l.text.any (fun c => c = '\'' || c = '"') || l.kind = .str || l.kind = .comment) = true := by
  simp [Quoted, imp_iff_not_or, or_assoc]

instance (src : Text) : Decidable (Quoted src) := decidable_of_iff _ quoted_iff.symm

lemma Quoted.unquoted {src : Text} (h : Quoted src) {l : Lexeme}
    (hl : l ∈ finditer src.length 0 src) : Unquoted l.piece := by
  intro hkind
  have hno : ¬∃ c ∈ l.text, c = '\'' ∨ c = '"' := by
    intro hquote
    have hpunct : l.kind = .punct := hkind
    rcases h l hl hquote with hl | hl
    · cases hpunct.symm.trans hl
    · cases hpunct.symm.trans hl
  constructor
  · intro heq
    exact hno ⟨'\'', by rw [show l.text = ['\''] from heq]; simp, .inl rfl⟩
  · intro heq
    exact hno ⟨'"', by rw [show l.text = ['"'] from heq]; simp, .inr rfl⟩

/-- Expressions in parentheses change no bracket. -/
lemma run_edited {es : List (Piece × Option (List Piece))}
    (h : ∀ e ∈ es, ∀ seg ∈ e.2, e.1.1 = .ident ∧ run [] seg = some []) (stack : List Text) :
    run stack (edited es) = run stack (es.map Prod.fst) := by
  induction es generalizing stack with
  | nil => rfl
  | cons e es ih =>
      have ih' := ih fun x hx => h x (List.mem_cons_of_mem e hx)
      obtain ⟨p, _ | seg⟩ := e
      · rw [List.map_cons, run, edited_none, run]
        exact congrArg _ (funext ih')
      · obtain ⟨hident, hseg⟩ := h _ List.mem_cons_self seg rfl
        have hp : step stack p = some stack := by
          have hkind : p.1 = .ident := hident
          rw [step, hkind]
          rfl
        have hopen : step stack (.punct, ['(']) = some (['('] :: stack) := rfl
        have hclose : step (['('] :: stack) (.punct, [')']) = some stack := rfl
        have hbetween := run_frame hseg (['('] :: stack)
        rw [List.nil_append] at hbetween
        rw [edited_some, run, hopen, Option.bind_some, run_append, hbetween, Option.bind_some, run,
          hclose, Option.bind_some, List.map_cons, run, hp, Option.bind_some, ih']

/-- What replaces the lexemes of a text. -/
structure Edits (src : Text) (toks : List Tok) (e : Substitution → List Tok)
    (seg : Substitution → List Lexeme) : Prop where
  standsFor : ∀ s ∈ allSubstitutions src toks, ∃ t ∈ toks, StandsFor toks t (e s) ∧
    s.start = t.start
  text : ∀ s ∈ allSubstitutions src toks, s.text = '(' :: wholeText src (e s) ++ [')']
  segment : ∀ s ∈ allSubstitutions src toks, Segment (finditer src.length 0 src) (e s) (seg s)

lemma StandsFor.mem {toks : List Tok} {t : Tok} {e : List Tok} (h : StandsFor toks t e) :
    t ∈ toks := by
  obtain ⟨i, projection, orderBy, item, name, hmem, hrefers, -⟩ := h
  obtain ⟨before, w, after, rfl, -, -, horder⟩ := mem_iterFrom.1 hmem
  obtain ⟨o, b, rest, rfl, -, -, -, -, -, rfl, -⟩ := orderByOf_eq_some.1 horder
  have hrest : t ∈ rest := (List.takeWhile_sublist _).subset hrefers.mem
  simp [hrest]

lemma StandsFor.sublist {toks : List Tok} {t : Tok} {e : List Tok} (h : StandsFor toks t e)
    (hnested : Nested [] toks) : e.Sublist toks := by
  obtain ⟨before, u, v, after, rfl, -⟩ := h.between hnested
  refine .trans ?_ (List.sublist_append_right before _)
  exact (List.sublist_append_left e _).cons u

/-- Every sort key that stands for an item is replaced. -/
lemma StandsFor.replaced {src : Text} {toks : List Tok} (htoks : tokenize src = some toks) {t : Tok}
    {e : List Tok} (h : StandsFor toks t e) :
    ∃ s ∈ allSubstitutions src toks, s.start = t.start := by
  obtain ⟨i, projection, orderBy, item, name, hmem, hrefers, hbound, hitem, hsplit, hkind, hname,
    hne⟩ := h
  have htitles : Titles projection t.text := ⟨item, hitem, e, name, hsplit, hne, hkind, hname⟩
  have hplaced : Placed src projection := by
    obtain ⟨before, w, after, rfl, -, -, horder⟩ := mem_iterFrom.1 hmem
    obtain ⟨o, b, rest, rfl, -⟩ := orderByOf_eq_some.1 horder
    exact placed_projection htoks
  obtain ⟨text, hget⟩ := Option.isSome_iff_exists.1 ((isSome_get_aliasMap hplaced).2 htitles)
  refine ⟨_, mem_allSubstitutions_iff.2 ⟨i, projection, orderBy, t, text, hmem, hrefers, ?_, rfl⟩,
    rfl⟩
  rw [get_unboundAliases, if_neg hbound, hget]

lemma exists_edits {src : Text} {toks : List Tok} (h : tokenize src = some toks) :
    ∃ e seg, Edits src toks e seg := by
  have hplaced := placed_of_tokenize h
  have hall : ∀ s, ∃ e seg, s ∈ allSubstitutions src toks → (∃ t ∈ toks, StandsFor toks t e ∧
      s.start = t.start) ∧ s.text = '(' :: wholeText src e ++ [')'] ∧
      Segment (finditer src.length 0 src) e seg := by
    intro s
    by_cases hs : s ∈ allSubstitutions src toks
    · obtain ⟨t, e, hstands, rfl⟩ := standsFor_of_mem hs
      obtain ⟨before, u, v, after, hsplit, hu, hv⟩ := hstands.between (nested_of_tokenize h)
      have hne : e ≠ [] := by
        obtain ⟨_, _, _, _, _, _, _, _, _, _, _, _, hne⟩ := hstands
        exact hne
      obtain ⟨seg, hseg⟩ := exists_segment h hsplit hne hu hv
      have hsub := hstands.sublist (nested_of_tokenize h)
      refine ⟨e, seg, fun _ => ⟨⟨t, hstands.mem, hstands, rfl⟩, ?_, hseg⟩⟩
      rw [← expressionText_eq (hplaced.sublist hsub)]
    · exact ⟨[], [], fun hs' => absurd hs' hs⟩
  choose e seg hedits using hall
  exact ⟨e, seg, fun s hs => (hedits s hs).1, fun s hs => (hedits s hs).2.1,
    fun s hs => (hedits s hs).2.2⟩

/-- What stands in the place of a lexeme. -/
def place (subs : List Substitution) (seg : Substitution → List Lexeme) (l : Lexeme) :
    Piece × Option (List Piece) :=
  (l.piece, (subs.find? fun s => s.start = l.start).map fun s => (seg s).map Lexeme.piece)

lemma place_of_none {subs : List Substitution} (seg : Substitution → List Lexeme) {l : Lexeme}
    (h : (subs.find? fun s => s.start = l.start) = none) : place subs seg l = (l.piece, none) := by
  rw [place, h]
  rfl

lemma place_of_some {subs : List Substitution} (seg : Substitution → List Lexeme) {l : Lexeme}
    {s : Substitution} (h : (subs.find? fun s => s.start = l.start) = some s) :
    place subs seg l = (l.piece, some ((seg s).map Lexeme.piece)) := by
  rw [place, h]
  rfl

section Edits

variable {src : Text} {toks : List Tok} {e : Substitution → List Tok}
  {seg : Substitution → List Lexeme}

lemma Edits.mem_of_find {k : ℕ} {s : Substitution}
    (hfind : ((allSubstitutions src toks).find? fun s => s.start = k) = some s) :
    s ∈ allSubstitutions src toks ∧ s.start = k :=
  ⟨List.mem_of_find?_eq_some hfind, by simpa using List.find?_some hfind⟩

/-- An identifier is replaced by pieces that could stand in parentheses. -/
lemma Edits.place_spec (hedits : Edits src toks e seg) (htoks : tokenize src = some toks)
    (hquoted : Quoted src) :
    ∀ x ∈ (finditer src.length 0 src).map (place (allSubstitutions src toks) seg), ∀ ps ∈ x.2,
      x.1.1 = .ident ∧ Enclosable ps ∧ run [] ps = some [] := by
  rintro x hx ps hps
  obtain ⟨l, hl, rfl⟩ := List.mem_map.1 hx
  obtain ⟨s, hfind, rfl⟩ := Option.map_eq_some_iff.1 hps
  obtain ⟨hs, hstart⟩ := mem_of_find hfind
  obtain ⟨hplaced, -⟩ := finditer_spec src.length [] src
  obtain ⟨⟨before, after, hparts⟩, hkept, -, hlast, hbalanced⟩ := hedits.segment s hs
  obtain ⟨hreads, -⟩ := @reads_finditer src.length 0 src le_rfl
  refine ⟨?_, ⟨⟨after.map Lexeme.piece, ?_⟩, ?_, ?_⟩, hbalanced⟩
  · obtain ⟨c, hc, hident, -⟩ := ident_of_mem_allSubstitutions htoks hs
    have hl' := (hplaced l hl).2
    have hhead : l.text.head? = some c := by
      rw [hl'.text, List.nil_append, head?_slice hl'.lt, ← hstart, hc]
    exact (hl'.ident c hhead).2 hident
  · rw [hparts, List.map_append, List.map_append, List.append_assoc] at hreads
    exact hreads.right
  -- the last piece is one of a token, so no comment runs into the parenthesis
  · intro p hp
    rw [List.getLast?_map, hlast] at hp
    obtain ⟨m, hm, rfl⟩ := Option.map_eq_some_iff.1 hp
    obtain ⟨t, ht, rfl⟩ := Option.map_eq_some_iff.1 hm
    have hmem : t.lexeme ∈ (seg s).filter Lexeme.kept := by
      rw [hkept]
      exact List.mem_map_of_mem (List.mem_of_getLast? ht)
    have htkept := (List.mem_filter.1 hmem).2
    simp only [Lexeme.kept, Bool.and_eq_true, decide_eq_true_eq] at htkept
    exact htkept.2
  · intro p hp
    obtain ⟨m, hm, rfl⟩ := List.mem_map.1 hp
    refine hquoted.unquoted ?_
    rw [hparts]
    exact List.mem_append_left _ (List.mem_append_right _ hm)

/-- The text of what a sort key stands for is that of the lexemes. -/
lemma Edits.wholeText_eq (hedits : Edits src toks e seg) {s : Substitution}
    (hs : s ∈ allSubstitutions src toks) : wholeText src (e s) = wholeSpelling (seg s) := by
  obtain ⟨t, -, hstands, -⟩ := hedits.standsFor s hs
  have hne : e s ≠ [] := by
    obtain ⟨_, _, _, _, _, _, _, _, _, _, _, _, hne⟩ := hstands
    exact hne
  obtain ⟨first, hfirst⟩ := Option.isSome_iff_exists.1 (List.isSome_head?.2 hne)
  obtain ⟨last, hlast⟩ := Option.isSome_iff_exists.1 (List.getLast?_isSome.2 hne)
  obtain ⟨⟨before, after, hparts⟩, -, hhead', hlast', -⟩ := hedits.segment s hs
  obtain ⟨-, hspelling⟩ := @reads_finditer src.length 0 src le_rfl
  have hlaid := laid_finditer src.length 0 src
  rw [hfirst] at hhead'
  rw [hlast] at hlast'
  rw [hparts] at hlaid hspelling
  have hslice := slice_eq hlaid hhead' hlast'
  rw [wholeSpelling, hspelling] at hslice
  rw [wholeText, hfirst, hlast]
  exact hslice

/-- The text with the sort keys replaced. -/
lemma Edits.spelling_edited (hedits : Edits src toks e seg) (ls : List Lexeme) :
    spelling (edited (ls.map (place (allSubstitutions src toks) seg))) = ls.flatMap fun l =>
      (((allSubstitutions src toks).find? fun s => s.start = l.start).map
        Substitution.text).getD l.text := by
  induction ls with
  | nil => rfl
  | cons l ls ih =>
      rw [List.map_cons, List.flatMap_cons, ← ih]
      rcases hfind : (allSubstitutions src toks).find? fun s => s.start = l.start with _ | s
      · rw [place_of_none seg hfind, edited_none, spelling_cons, hfind]
        rfl
      · obtain ⟨hs, -⟩ := mem_of_find hfind
        rw [place_of_some seg hfind, edited_some, spelling_cons, spelling_append, spelling_cons,
          ← wholeSpelling, ← hedits.wholeText_eq hs, hfind, Option.map_some, Option.getD_some,
          hedits.text s hs]
        simp

/-- The tokens of the text with the sort keys replaced. -/
lemma Edits.filter_edited (hedits : Edits src toks e seg)
    {ls : List Lexeme} (hident : ∀ x ∈ ls.map (place (allSubstitutions src toks) seg),
      ∀ ps ∈ x.2, x.1.1 = .ident) :
    (edited (ls.map (place (allSubstitutions src toks) seg))).filter Piece.kept =
      (ls.filter Lexeme.kept).flatMap fun l =>
        match ((allSubstitutions src toks).find? fun s => s.start = l.start).map e with
        | none => [l.piece]
        | some e => (.punct, ['(']) :: (e.map Tok.piece ++ [(.punct, [')'])]) := by
  induction ls with
  | nil => rfl
  | cons l ls ih =>
      have ih' := ih fun x hx => hident x (List.mem_cons_of_mem _ hx)
      have hl := hident (place (allSubstitutions src toks) seg l) List.mem_cons_self
      rw [List.map_cons]
      rcases hfind : (allSubstitutions src toks).find? fun s => s.start = l.start with _ | s
      · rw [place_of_none seg hfind, edited_none]
        by_cases hkept : l.kept = true
        · rw [List.filter_cons_of_pos (show l.piece.kept = true from hkept),
            List.filter_cons_of_pos hkept, List.flatMap_cons, hfind, ih']
          rfl
        · rw [List.filter_cons_of_neg (show ¬l.piece.kept = true from hkept),
            List.filter_cons_of_neg hkept, ih']
      · obtain ⟨hs, -⟩ := mem_of_find hfind
        rw [place_of_some seg hfind] at hl ⊢
        have hkind : l.kind = .ident := hl _ rfl
        have hkept : l.kept = true := by simp [Lexeme.kept, hkind]
        have hfilter : ((seg s).map Lexeme.piece).filter Piece.kept = (e s).map Tok.piece := by
          rw [List.filter_map, show Piece.kept ∘ Lexeme.piece = Lexeme.kept from rfl,
            (hedits.segment s hs).kept, List.map_map]
          rfl
        have hopen : Piece.kept (.punct, ['(']) = true := rfl
        have hclose : Piece.kept (.punct, [')']) = true := rfl
        rw [edited_some, List.filter_cons_of_pos hopen, List.filter_append, hfilter,
          List.filter_cons_of_pos hclose, ih', List.filter_cons_of_pos hkept, List.flatMap_cons,
          hfind]
        simp

end Edits

/-- **The frame.**  If no quote stands outside the strings and comments, some identifiers of sort
keys are replaced by the text of the item that they stand for, in parentheses, and everything else
is left as it is: the tokens of the result are those of the text with these replaced. -/
theorem rewrite_frame {src : Text} (hquoted : Quoted src) :
    (tokenize src = none → rewriteOrderByAliases src = src) ∧
    ∀ toks, tokenize src = some toks → ∃ edit : ℕ → Option (List Tok),
      (∀ k e, edit k = some e → ∃ t ∈ toks, t.start = k ∧ StandsFor toks t e) ∧
      (∀ t e, StandsFor toks t e → (edit t.start).isSome) ∧
      rewriteOrderByAliases src = (finditer src.length 0 src).flatMap (fun l =>
        match edit l.start with
        | none => l.text
        | some e => '(' :: wholeText src e ++ [')']) ∧
      (tokenize (rewriteOrderByAliases src)).map (List.map Tok.piece) =
        some (toks.flatMap fun t => match edit t.start with
          | none => [t.piece]
          | some e => (.punct, ['(']) :: (e.map Tok.piece ++ [(.punct, [')'])])) := by
  refine ⟨fun hnone => ?_, fun toks htoks => ?_⟩
  · rw [rewriteOrderByAliases, hnone]
    exact ite_self src
  obtain ⟨e, seg, hedits⟩ := exists_edits htoks
  obtain ⟨hreads, hspelling⟩ := @reads_finditer src.length 0 src le_rfl
  obtain ⟨hplaced, -⟩ := finditer_spec src.length [] src
  have hplace := hedits.place_spec htoks hquoted
  have hfst : ((finditer src.length 0 src).map (place (allSubstitutions src toks) seg)).map
      Prod.fst = (finditer src.length 0 src).map Lexeme.piece := by
    rw [List.map_map]
    rfl
  -- the text that is put together
  have htext : rewriteOrderByAliases src = spelling
      (edited ((finditer src.length 0 src).map (place (allSubstitutions src toks) seg))) := by
    rw [rewrite_eq_foldr htoks, hedits.spelling_edited]
    have hsub : ((allSubstitutions src toks).map Substitution.span).Sublist
        ((finditer src.length 0 src).map Lexeme.span) := by
      refine (spans_sublist src toks).trans ?_
      have hlexemes := lexemes_of_tokenize htoks
      have hmap : (((finditer src.length 0 src).filter Lexeme.kept).map Lexeme.span).Sublist _ :=
        List.filter_sublist.map Lexeme.span
      rw [← hlexemes, List.map_map] at hmap
      exact hmap
    have hfold := @foldr_apply [] (finditer src.length 0 src) (allSubstitutions src toks)
      (laid_finditer src.length 0 src) (fun l hl => (hplaced l hl).2.lt) hsub
    rw [List.nil_append, List.nil_append, wholeSpelling, hspelling] at hfold
    exact hfold
  -- it is read as it was put together
  obtain ⟨hedited, -⟩ := Reads.edit (hfst ▸ hreads) (fun x hx => by
    obtain ⟨l, hl, rfl⟩ := List.mem_map.1 hx
    exact hquoted.unquoted hl) fun x hx ps hps => ⟨(hplace x hx ps hps).1, (hplace x hx ps hps).2.1⟩
  have hmatches := @Reads.finditer _ hedited _ 0 le_rfl
  rw [← htext] at hmatches
  have hrun := run_edited (fun x hx ps hps => ⟨(hplace x hx ps hps).1, (hplace x hx ps hps).2.2⟩) []
  rw [hfst, isSome_tokenizeFrom.1 (Option.isSome_iff_exists.2 ⟨toks, htoks⟩), ← hmatches] at hrun
  obtain ⟨toks', htoks'⟩ := Option.isSome_iff_exists.1 (isSome_tokenizeFrom.2 hrun)
  refine ⟨fun k => ((allSubstitutions src toks).find? fun s => s.start = k).map e, ?_, ?_, ?_, ?_⟩
  · rintro k _ hk
    obtain ⟨s, hfind, rfl⟩ := Option.map_eq_some_iff.1 hk
    obtain ⟨hs, rfl⟩ := Edits.mem_of_find hfind
    obtain ⟨t, ht, hstands, hstart⟩ := hedits.standsFor s hs
    exact ⟨t, ht, hstart.symm, hstands⟩
  · rintro t _ hstands
    obtain ⟨s, hs, hstart⟩ := hstands.replaced htoks
    rw [Option.isSome_map, List.find?_isSome]
    exact ⟨s, hs, decide_eq_true hstart⟩
  · rw [htext, hedits.spelling_edited]
    refine List.flatMap_congr fun l _ => ?_
    dsimp only
    rcases hfind : (allSubstitutions src toks).find? fun s => s.start = l.start with _ | s
    · rw [hfind]
      rfl
    · rw [hfind]
      exact hedits.text s (Edits.mem_of_find hfind).1
  · have hpieces : toks'.map Tok.piece = (toks'.map Tok.lexeme).map Lexeme.piece := by
      rw [List.map_map]
      rfl
    rw [tokenize, htoks', Option.map_some, hpieces, lexemes_of_tokenize htoks',
      show Lexeme.kept = Piece.kept ∘ Lexeme.piece from rfl, ← List.filter_map, hmatches,
      hedits.filter_edited fun x hx ps hps => (hplace x hx ps hps).1, ← lexemes_of_tokenize htoks,
      List.flatMap_map]
    rfl

/-- The frame of a query with an alias in a string and in a comment. -/
theorem rewrite_frame_key : ∃ toks,
    tokenize "RETURN n.a AS k ORDER BY k, 'k' // \"k".toList = some toks ∧
    ∃ edit : ℕ → Option (List Tok),
      (∀ k e, edit k = some e → ∃ t ∈ toks, t.start = k ∧ StandsFor toks t e) ∧
      (tokenize (rewriteOrderByAliases "RETURN n.a AS k ORDER BY k, 'k' // \"k".toList)).map
        (List.map Tok.piece) = some (toks.flatMap fun t => match edit t.start with
          | none => [t.piece]
          | some e => (.punct, ['(']) :: (e.map Tok.piece ++ [(.punct, [')'])])) := by
  have hsome : (tokenize "RETURN n.a AS k ORDER BY k, 'k' // \"k".toList).isSome := by decide
  obtain ⟨toks, htoks⟩ := Option.isSome_iff_exists.1 hsome
  have hframe := @rewrite_frame "RETURN n.a AS k ORDER BY k, 'k' // \"k".toList (by decide)
  obtain ⟨edit, hstands, -, -, hresult⟩ := hframe.2 toks htoks
  exact ⟨toks, htoks, edit, hstands, hresult⟩

end PalaceDaemon.Cypher

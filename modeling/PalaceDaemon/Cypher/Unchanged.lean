/-
Which queries the rewriting leaves alone.

A text is left alone if no identifier of a sort key is replaced (`rewrite_eq_self_iff`).  In a query
of the fragment a name that is bound before the projection never is (`Defines.not_binds`), and no
key, function or keyword (`risky_of_refers`).  What remains are the labels, the namespaces and the
names that are bound in the sort key itself (`Mistaken`), and the texts that the module does not
read as Cypher does (`Plain`), with an identifier that has the name of an item (`Misread`).
-/
import Mathlib.Tactic.IntervalCases
import PalaceDaemon.Cypher.Alias

namespace PalaceDaemon.Cypher

open Grammar PyText

/-! ### The text after the substitutions -/

lemma take_apply {out : Text} {s : Substitution} {k : ℕ} (hstart : k ≤ s.start)
    (hk : k ≤ out.length) : (s.apply out).take k = out.take k := by
  have hlength : k ≤ (out.take s.start).length := by
    rw [List.length_take]
    exact le_min hstart hk
  rw [Substitution.apply, List.append_assoc, List.take_append_of_le_length hlength, List.take_take,
    Nat.min_eq_left hstart]

/-- Substitutions leave alone what stands before them. -/
lemma take_foldl_apply {subs : List Substitution} {out : Text} {k : ℕ}
    (hstart : ∀ s ∈ subs, k ≤ s.start) (hk : k ≤ out.length) :
    (subs.foldl Substitution.apply out).take k = out.take k := by
  induction subs generalizing out with
  | nil => rfl
  | cons s subs ih =>
      have htake := take_apply (hstart s List.mem_cons_self) hk
      have hk' : k ≤ (s.apply out).length := by
        have hlength := congrArg List.length htake
        rw [List.length_take, List.length_take, Nat.min_eq_left hk] at hlength
        exact min_eq_left_iff.1 hlength
      rw [List.foldl_cons, ih (fun u hu => hstart u (List.mem_cons_of_mem s hu)) hk', htake]

/-- The first substitution in the text is seen in the result. -/
lemma foldl_apply_ne {subs : List Substitution} {src : Text} (hne : subs ≠ [])
    (hsorted : subs.Pairwise fun s s' => s'.start ≤ s.start)
    (hall : ∀ s ∈ subs, ∃ c, src[s.start]? = some c ∧ c ≠ '(' ∧ s.text.head? = some '(') :
    subs.foldl Substitution.apply src ≠ src := by
  obtain ⟨later, s, rfl⟩ : ∃ later s, subs = later ++ [s] :=
    ⟨_, _, (List.dropLast_append_getLast hne).symm⟩
  obtain ⟨c, hc, hne', htext⟩ := hall s (by simp)
  obtain ⟨text, htext⟩ := List.head?_eq_some_iff.1 htext
  have hstart : s.start ≤ src.length := (List.getElem?_eq_some_iff.1 hc).1.le
  have htake := take_foldl_apply
    (fun u hu => (List.pairwise_append.1 hsorted).2.2 u hu s List.mem_cons_self) hstart
  rw [List.foldl_append, List.foldl_cons, List.foldl_nil, Substitution.apply, htake, htext]
  intro heq
  have hlength : (src.take s.start).length = s.start := by
    rw [List.length_take, Nat.min_eq_left hstart]
  have hget := congrArg (fun out : Text => out[s.start]?) heq
  simp only [List.append_assoc] at hget
  rw [List.getElem?_append_right hlength.le, hlength, Nat.sub_self, hc] at hget
  exact hne' (Option.some.inj hget).symm

lemma total_start : Std.Total fun s s' : Substitution => s'.start ≤ s.start :=
  ⟨fun s s' => Nat.le_total s'.start s.start⟩

lemma trans_start : IsTrans Substitution fun s s' => s'.start ≤ s.start :=
  ⟨fun _ _ _ h h' => Nat.le_trans h' h⟩

/-- In the tokens of the module, an identifier of a sort key is an alias that may be replaced. -/
def Replaced (src : Text) : Prop :=
  ∃ toks, tokenize src = some toks ∧ ∃ i projection orderBy t text,
    (i, projection, orderBy) ∈ iterProjectionOrderBy toks ∧ Refers orderBy t ∧
      get (unboundAliases src toks i projection) t.text = some text

lemma mem_allSubstitutions_iff {src : Text} {toks : List Tok} {s : Substitution} :
    s ∈ allSubstitutions src toks ↔ ∃ i projection orderBy t text,
      (i, projection, orderBy) ∈ iterProjectionOrderBy toks ∧ Refers orderBy t ∧
      get (unboundAliases src toks i projection) t.text = some text ∧
      s = ⟨t.start, t.stop, '(' :: text ++ [')']⟩ := by
  simp only [allSubstitutions, List.mem_flatMap, Prod.exists, mem_substitutions]
  constructor
  · rintro ⟨i, projection, orderBy, hmem, t, text, hrefers, hget, rfl⟩
    exact ⟨i, projection, orderBy, t, text, hmem, hrefers, hget, rfl⟩
  · rintro ⟨i, projection, orderBy, t, text, hmem, hrefers, hget, rfl⟩
    exact ⟨i, projection, orderBy, hmem, t, text, hrefers, hget, rfl⟩

/-- Every substitution is of an identifier of the text. -/
lemma ident_of_mem_allSubstitutions {src : Text} {toks : List Tok}
    (h : tokenize src = some toks) {s : Substitution} (hs : s ∈ allSubstitutions src toks) :
    ∃ c, src[s.start]? = some c ∧ isIdentStart c = true ∧ s.text.head? = some '(' := by
  have hplaced := placed_of_tokenize h
  obtain ⟨i, projection, orderBy, t, text, hmem, hrefers, -, rfl⟩ := mem_allSubstitutions_iff.1 hs
  have ht : t ∈ toks := by
    obtain ⟨before, w, after, rfl, -, -, horder⟩ := mem_iterFrom.1 hmem
    obtain ⟨o, b, rest, rfl, -, -, -, -, -, rfl, -⟩ := orderByOf_eq_some.1 horder
    have hrest : t ∈ rest := (List.takeWhile_sublist _).subset hrefers.mem
    simp [hrest]
  have htext : t.text = slice src t.start t.stop := (hplaced.placed t ht).text
  obtain ⟨c, hc⟩ := Option.isSome_iff_exists.1 (List.isSome_head?.2 (hplaced.solid t ht).ne_nil)
  have hkind : t.kind = .ident := by
    obtain ⟨ahead, behind, -, hrefer⟩ := hrefers
    simp only [mayRefer, Bool.and_eq_true, decide_eq_true_eq] at hrefer
    exact hrefer.1.1.1
  have hlt : t.start < t.stop := (hplaced.placed t ht).lt
  exact ⟨c, by rw [← hc, htext, head?_slice hlt], ((hplaced.placed t ht).ident c hc).1 hkind, rfl⟩

/-- A text is left alone if no identifier in it is replaced, and only then. -/
lemma rewrite_eq_self_iff {src : Text} : rewriteOrderByAliases src = src ↔ ¬Replaced src := by
  rcases htokens : tokenize src with _ | toks
  · refine iff_of_true ?_ ?_
    · rw [rewriteOrderByAliases, htokens]
      exact ite_self src
    · rintro ⟨toks, h, -⟩
      cases htokens.symm.trans h
  have hrewrite : rewriteOrderByAliases src = if strip src = [] then src else
      ((allSubstitutions src toks).insertionSort fun s s' => s'.start ≤ s.start).foldl
        Substitution.apply src := by
    rw [rewriteOrderByAliases, htokens]
  have hreplaced : Replaced src ↔ ∃ s, s ∈ allSubstitutions src toks := by
    simp only [mem_allSubstitutions_iff]
    constructor
    · rintro ⟨toks', h, i, projection, orderBy, t, text, hmem, hrefers, hget⟩
      obtain rfl : toks = toks' := Option.some.inj (htokens.symm.trans h)
      exact ⟨_, i, projection, orderBy, t, text, hmem, hrefers, hget, rfl⟩
    · rintro ⟨-, i, projection, orderBy, t, text, hmem, hrefers, hget, -⟩
      exact ⟨toks, htokens, i, projection, orderBy, t, text, hmem, hrefers, hget⟩
  rw [hrewrite, hreplaced]
  constructor
  · rintro heq ⟨s, hs⟩
    split_ifs at heq with hstrip
    · -- a text with an identifier is not blank
      obtain ⟨c, hc, hident, -⟩ := ident_of_mem_allSubstitutions htokens hs
      have hspace := isSpace_of_strip hstrip c (List.mem_of_getElem? hc)
      have hno := isSpace_of_isIdentChar (c := c) (by rw [isIdentChar, hident, Bool.true_or])
      exact Bool.false_ne_true (hno.symm.trans hspace)
    · have := total_start
      have := trans_start
      refine foldl_apply_ne ?_ (List.pairwise_insertionSort _ _) (fun u hu => ?_) heq
      · exact List.ne_nil_of_mem ((List.mem_insertionSort _).2 hs)
      · obtain ⟨c, hc, hident, htext⟩ :=
          ident_of_mem_allSubstitutions htokens ((List.mem_insertionSort _).1 hu)
        refine ⟨c, hc, ?_, htext⟩
        rintro rfl
        exact absurd hident (by decide)
  · intro hnone
    have hnil : allSubstitutions src toks = [] :=
      List.eq_nil_iff_forall_not_mem.2 fun s hs => hnone ⟨s, hs⟩
    rw [hnil]
    split_ifs <;> rfl

/-! ### The names that are replaced -/

lemma Part.tail_role {n : Phrase} (p : Part n) : ∃ x ∈ p.reading.getLast?, x.1 ∈ last n := by
  obtain ⟨r, hr, hmem⟩ := (chain_of_derives neighbours p.derives).2.1
  rw [List.getLast?_map] at hr
  obtain ⟨x, hx, rfl⟩ := Option.map_eq_some_iff.1 hr
  exact ⟨x, hx, hmem⟩

/-- What stands before a token of a phrase. -/
lemma Part.before_of_split {n : Phrase} (p : Part n) {xs ys : Reading} {r : Role} {t : Tok}
    (h : p.reading = xs ++ (r, t) :: ys) (hfirst : r ∉ first n) :
    ∃ x ∈ xs.getLast?, ok x.1 r = true ∧ x.1.admits x.2 = true := by
  have hchain := p.chain
  have hadmits := p.admits
  obtain ⟨y, hy, hmem⟩ := p.head
  rw [h] at hchain hadmits hy
  rcases hxs : xs.getLast? with _ | x
  · rw [List.getLast?_eq_none_iff.1 hxs] at hy
    obtain rfl : (r, t) = y := by simpa using hy
    exact absurd hmem hfirst
  · exact ⟨x, rfl, (List.isChain_append.1 hchain).2.2 x hxs (r, t) rfl,
      hadmits x (List.mem_append_left _ (List.mem_of_getLast? hxs))⟩

/-- What stands after a token of a phrase. -/
lemma Part.after_of_split {n : Phrase} (p : Part n) {xs ys : Reading} {r : Role} {t : Tok}
    (h : p.reading = xs ++ (r, t) :: ys) (hlast : r ∉ last n) :
    ∃ y ∈ ys.head?, ok r y.1 = true ∧ y.1.admits y.2 = true := by
  have hchain := p.chain
  have hadmits := p.admits
  obtain ⟨z, hz, hmem⟩ := p.tail_role
  rw [h] at hchain hadmits hz
  rcases ys with _ | ⟨y, ys⟩
  · obtain rfl : (r, t) = z := by simpa using hz
    exact absurd hmem hlast
  · exact ⟨y, rfl, (List.isChain_cons_cons.1 (List.isChain_append.1 hchain).2.1).1,
      hadmits y (by simp)⟩

/-- The alias that the rewriting sees is no keyword of a clause. -/
lemma Defines.not_starter {src : Text} {q before after : Query} {p : Projection} {o : Ordering}
    {d : Column} {name : Text} (htokens : tokenize src = some (Query.toks q))
    (horders : Orders q before p o after) (h : Defines q before p d name) :
    name.map Char.toUpper ∉ clauseStarters := by
  obtain ⟨-, hbody, -, -⟩ := Query.leveled_parts (horders.query ▸ Query.leveled htokens)
  obtain ⟨front, w, c, others, hvisible, hlast, -, hd⟩ := h
  obtain ⟨hmem, hdefines⟩ := List.mem_filter.1 (List.mem_of_getLast? hd)
  have hregular := (hvisible.listed hbody).regular d hmem
  rcases htitle : d.title with _ | ⟨as, t⟩
  · simp [Column.defines, Column.titled, htitle] at hdefines
  · obtain rfl : t.text = name := by
      simp only [Column.defines, Column.titled, htitle, Option.any_some, Bool.and_eq_true,
        decide_eq_true_eq] at hdefines
      exact hdefines.1
    have hnot := hlast t (List.mem_flatMap.2 ⟨d, hmem, by simp [Column.toks, Column.item, htitle]⟩)
    intro hstarter
    have hboundary : isClauseBoundary t = true := by
      have hupper : t.upper ∈ clauseStarters := hstarter
      simp [isClauseBoundary, hregular.name_depth as t htitle,
        (hregular.name_title as t htitle).1, hupper]
    exact Bool.false_ne_true (hnot.symm.trans hboundary)

/-- The names in sort keys that the rewriting may take for aliases. -/
def Role.risky (r : Role) : Bool :=
  r = .name || r = .elem || r = .binder || r = .space || r = .label

/-- A word of sort keys that may be an alias is a name, a label or a key, or reads as no name. -/
lemma Role.cases_of_ident {r : Role} (hinner : r.inner = true) {w : Text}
    (hreads : r.reads w = true) (hsort : w ∉ orderByKeywords) (hstarter : w ∉ clauseStarters) :
    r.risky = true ∨ r = .key ∨ r = .mapKey ∨ r = .fn := by
  have hwords : ∀ ws : List String, r.shape = .keywords ws →
      ∃ v ∈ ws, w = v.toList := by
    rintro ws hshape
    rw [Role.reads, hshape] at hreads
    obtain ⟨v, hv, hword⟩ := List.any_eq_true.1 hreads
    exact ⟨v, hv, of_decide_eq_true hword⟩
  have hknown : ∀ ws : List String, r.shape = .keywords ws →
      (∀ v ∈ ws, v.toList ∈ orderByKeywords ∨ v.toList ∈ clauseStarters) → False := by
    rintro ws hshape hall
    obtain ⟨v, hv, rfl⟩ := hwords ws hshape
    exact (hall v hv).elim hsort hstarter
  cases r
  case key | mapKey | fn | name | elem | binder | space | label => decide
  case title | field | asKw | onKw | allKw | clauseKw | projKw | orderKw | byKw =>
    exact absurd hinner (by decide)
  case truth | null | logic | notKw | inKw | isKw | containsKw | startsEnds | withKw | whereKw |
      caseKw | whenKw | thenKw | elseKw | endKw | distinctKw | direction =>
    exact (hknown _ rfl (by decide)).elim
  all_goals exact absurd hreads Bool.false_ne_true

lemma dot_of_key {a : Role} (h : ok a .key = true) : a = .dot := by
  revert h
  cases a <;> decide

lemma colon_of_mapKey {b : Role} (h : ok .mapKey b = true) : b = .colon := by
  revert h
  cases b <;> decide

lemma lpar_of_fn {b : Role} (h : ok .fn b = true) : b = .lpar := by
  revert h
  cases b <;> decide

lemma isPunct_of_marks {r : Role} {c : Char} {t : Tok} (hr : r.shape = .marks [c])
    (h : r.admits t = true) : t.isPunct c = true := by
  rw [Role.admits, hr] at h
  simpa [Shape.admits] using h

/-- **References.**  What is replaced in a sort key is a name of a variable, a namespace or a
label. -/
theorem risky_of_refers {src : Text} {q before after : Query} {p : Projection} {o : Ordering}
    {d : Column} {t : Tok} (htokens : tokenize src = some (Query.toks q))
    (horders : Orders q before p o after) (hrefers : Refers (body o.keys.reading.toks) t)
    (hdefines : Defines q before p d t.text) :
    ∃ xs r ys, o.keys.reading = xs ++ (r, t) :: ys ∧ r.risky = true := by
  have hsort := hrefers.not_sortWord
  have hstarter := hdefines.not_starter htokens horders
  obtain ⟨ahead, behind, hbody, hrefer⟩ := hrefers
  simp only [mayRefer, Bool.and_eq_true, decide_eq_true_eq, Bool.not_eq_true'] at hrefer
  obtain ⟨⟨⟨hkind, -⟩, hprevious⟩, hnext⟩ := hrefer
  -- the token in the reading of the sort keys
  have hsplit : o.keys.reading.map Prod.snd =
      ahead ++ t :: (behind ++ afterBody o.keys.reading.toks) := by
    rw [← List.cons_append, ← List.append_assoc, ← hbody]
    exact List.takeWhile_append_dropWhile.symm
  obtain ⟨xs, zs, hreading, rfl, hzs⟩ := List.map_eq_append_iff.1 hsplit
  obtain ⟨⟨r, t⟩, ys, rfl, rfl, hys⟩ := List.map_eq_cons_iff.1 hzs
  have hadmits : r.admits t = true := o.keys.admits (r, t) (by rw [hreading]; simp)
  have hinner : r.inner = true := o.keys.inner rfl (r, t) (by rw [hreading]; simp)
  refine ⟨xs, r, ys, hreading, ?_⟩
  -- a mark after the token is also seen when the sort keys are cut off at a word
  have hafter : ∀ u c, u.isPunct c = true → (ys.map Prod.snd).head? = some u →
      behind.head? = some u := by
    intro u c hmark hhead
    rw [hys] at hhead
    cases behind with
    | cons v behind => exact hhead
    | nil =>
        have hnot := List.head?_dropWhile_not (fun v => !isClauseBoundary v) o.keys.reading.toks
        rw [← afterBody, show (afterBody o.keys.reading.toks).head? = some u from hhead] at hnot
        simp only [Tok.isPunct, Bool.and_eq_true, decide_eq_true_eq] at hmark
        simp [isClauseBoundary, hmark.1] at hnot
  rcases Role.cases_of_ident hinner (reads_of_admits hadmits hkind) hsort hstarter with
    hrisky | rfl | rfl | rfl
  · exact hrisky
  · obtain ⟨x, hx, hok, hadmits'⟩ := o.keys.before_of_split hreading (by decide)
    have hdot := isPunct_of_marks rfl (dot_of_key hok ▸ hadmits')
    rw [List.getLast?_map, hx] at hprevious
    exact Bool.noConfusion (hdot.symm.trans hprevious)
  · obtain ⟨x, hx, hok, hadmits'⟩ := o.keys.after_of_split hreading (by decide)
    have hcolon := isPunct_of_marks rfl (colon_of_mapKey hok ▸ hadmits')
    rw [hafter x.2 ':' hcolon (by rw [List.head?_map, hx]; rfl)] at hnext
    simp [hcolon] at hnext
  · obtain ⟨x, hx, hok, hadmits'⟩ := o.keys.after_of_split hreading (by decide)
    have hlpar := isPunct_of_marks rfl (lpar_of_fn hok ▸ hadmits')
    rw [hafter x.2 '(' hlpar (by rw [List.head?_map, hx]; rfl)] at hnext
    simp [hlpar] at hnext

/-! ### The names that are bound -/

/-- The roles of the names that bind a variable. -/
def Role.binds (r : Role) : Bool := r = .elem || r = .binder || r = .title

lemma shape_of_binds {r : Role} (hr : r.binds = true) : r.shape = .names := by
  cases r
  case elem | binder | title => rfl
  all_goals exact absurd hr (by decide)

lemma not_marked_before {a r : Role} (hok : ok a r = true) (hr : r.binds = true) :
    a.marked '.' = false ∧ a.marked ':' = false ∧
      (r = .elem → a.side = .opening ∧ a.marked '{' = false) := by
  revert hok hr
  cases r
  case elem | binder | title => cases a <;> decide
  all_goals exact fun _ hr => absurd hr (by decide)

lemma not_marked_after {r b : Role} (hok : ok r b = true) (hr : r.binds = true) :
    b.marked '(' = false ∧ (r = .elem ∨ b.marked ':' = false) := by
  revert hok hr
  cases r
  case elem | binder | title => cases b <;> decide
  all_goals exact fun _ hr => absurd hr (by decide)

lemma not_isPunct {r : Role} {t : Tok} {c : Char} (h : r.admits t = true)
    (hr : r.marked c = false) : t.isPunct c = false :=
  Bool.eq_false_iff.2 fun ht => Bool.false_ne_true (hr.symm.trans (marked_of_admits h ht))

/-- A name after an opening bracket of a pattern or a comprehension is no key of a map. -/
lemma encloser_ne {xs ys : Reading} {x : Role × Tok} {r : Role} {t : Tok} {stack : List Text}
    (h : Nested stack (Reading.toks (xs ++ x :: (r, t) :: ys))) (hx : x.1.admits x.2 = true)
    (hside : x.1.side = .opening) (hmark : x.1.marked '{' = false) (ht : t.side = .inside) :
    t.encloser ≠ some ['{'] := by
  rw [toks_append, toks_cons, toks_cons] at h
  have hopening : x.2.side = .opening := (side_of_admits hx).trans hside
  rw [h.encloser_next hopening ht]
  intro htext
  have hkind : x.2.kind = .punct := by
    by_contra hne
    rw [Tok.side, if_neg hne] at hopening
    cases hopening
  have hno := not_isPunct hx hmark
  rw [Tok.isPunct, hkind, Option.some.inj htext] at hno
  exact absurd hno (by decide)

lemma mem_boundFrom {previous : Option Tok} {toks : List Tok} {n : ℕ} {name : Text} :
    name ∈ boundFrom previous n toks ↔ ∃ before t after, toks = before ++ t :: after ∧
      before.length < n ∧ mayBind (before.getLast?.or previous) t after.head? = true ∧
      t.text = name := by
  induction toks generalizing previous n with
  | nil =>
      rw [boundFrom.eq_def]
      constructor
      · exact fun h => absurd h (by cases n <;> exact List.not_mem_nil)
      · rintro ⟨before, t, after, h, -⟩
        exact absurd h.symm (by simp)
  | cons u toks ih =>
      rcases n with _ | n
      · constructor
        · exact fun h => absurd h List.not_mem_nil
        · rintro ⟨before, t, after, -, hn, -⟩
          exact absurd hn (Nat.not_lt_zero _)
      rw [boundFrom, List.mem_append, ih]
      constructor
      · rintro (h | ⟨before, t, after, rfl, hn, hbind, rfl⟩)
        · split_ifs at h with hbind
          · exact ⟨[], u, toks, rfl, Nat.succ_pos n, hbind, (List.mem_singleton.1 h).symm⟩
          · exact absurd h List.not_mem_nil
        · refine ⟨u :: before, t, after, rfl, Nat.succ_lt_succ hn, ?_, rfl⟩
          rw [List.getLast?_cons]
          rcases hlast : before.getLast? with _ | v <;> simpa [hlast] using hbind
      · rintro ⟨before, t, after, hsplit, hn, hbind, rfl⟩
        cases before with
        | nil =>
            obtain ⟨rfl, rfl⟩ := List.cons.inj hsplit
            have hbind' : mayBind previous u toks.head? = true := by simpa using hbind
            rw [if_pos hbind']
            exact .inl (List.mem_singleton_self _)
        | cons v before =>
            obtain ⟨rfl, rfl⟩ := List.cons.inj hsplit
            refine .inr ⟨before, t, after, rfl, Nat.lt_of_succ_lt_succ hn, ?_, rfl⟩
            rw [List.getLast?_cons] at hbind
            rcases hlast : before.getLast? with _ | v <;> simpa [hlast] using hbind

/-- A name that binds a variable in a query, and is no word of the module, is found. -/
lemma mem_boundIdentifiers {src : Text} {q : Query} (h : tokenize src = some (Query.toks q))
    {xs ys : Reading} {r : Role} {t : Tok} (hreading : Query.reading q = xs ++ (r, t) :: ys)
    (hr : r.binds = true) (hupper : t.upper ∉ reserved) {i : ℕ} (hi : xs.length < i) :
    t.text ∈ boundIdentifiers (Query.toks q) i := by
  have hadmits := (Query.sound q).admits
  have hchain := Query.chain q
  have hnested := nested_of_tokenize h
  rw [hreading] at hadmits hchain
  rw [Query.toks, hreading, toks_append, toks_cons] at hnested ⊢
  have hkind : t.kind = .ident := by
    have ht : r.admits t = true := hadmits (r, t) (by simp)
    rw [Role.admits, shape_of_binds hr] at ht
    simp only [Shape.admits, Bool.and_eq_true, decide_eq_true_eq] at ht
    exact ht.1
  refine mem_boundFrom.2 ⟨_, t, _, rfl, by rwa [Reading.toks, List.length_map], ?_, rfl⟩
  rw [Option.or_none, Reading.toks, List.getLast?_map, Reading.toks, List.head?_map]
  -- the neighbours of the name
  have hprevious : ∀ x ∈ xs.getLast?, ok x.1 r = true ∧ x.1.admits x.2 = true := fun x hx =>
    ⟨(List.isChain_append.1 hchain).2.2 x hx (r, t) rfl,
      hadmits x (List.mem_append_left _ (List.mem_of_getLast? hx))⟩
  have hnext : ∀ y ∈ ys.head?, ok r y.1 = true ∧ y.1.admits y.2 = true := by
    rintro y hy
    obtain ⟨ys, rfl⟩ := List.head?_eq_some_iff.1 hy
    exact ⟨(List.isChain_cons_cons.1 (List.isChain_append.1 hchain).2.1).1, hadmits y (by simp)⟩
  simp only [mayBind, Bool.and_eq_true, decide_eq_true_eq, Bool.not_eq_true', Option.any_map]
  refine ⟨⟨⟨⟨hkind, hupper⟩, ?_⟩, ?_⟩, ?_⟩
  · rcases hxs : xs.getLast? with _ | x
    · rfl
    · obtain ⟨hok, hx⟩ := hprevious x hxs
      obtain ⟨hdot, hcolon, -⟩ := not_marked_before hok hr
      simp [not_isPunct hx hdot, not_isPunct hx hcolon]
  · rcases hys : ys.head? with _ | y
    · rfl
    · obtain ⟨hok, hy⟩ := hnext y hys
      simp [not_isPunct hy (not_marked_after hok hr).1]
  · rcases hys : ys.head? with _ | y
    · rfl
    · obtain ⟨hok, hy⟩ := hnext y hys
      rcases (not_marked_after hok hr).2 with rfl | hcolon
      · -- the brackets around an element of a pattern or a comprehension
        rcases List.eq_nil_or_concat xs with rfl | ⟨xs, x, rfl⟩
        · have hboundary := Query.boundary_head (Query.leveled h) t (by
            rw [Query.toks, hreading]
            rfl)
          simp only [isClauseBoundary, Bool.and_eq_true, decide_eq_true_eq] at hboundary
          have hreserved : t.upper ∈ reserved := by
            rw [reserved, List.append_assoc]
            exact List.mem_append_left _ hboundary.2
          exact absurd hreserved hupper
        · obtain ⟨hok, hx⟩ := hprevious x (by simp)
          obtain ⟨hside, hmark⟩ := (not_marked_before hok hr).2.2 rfl
          have ht : t.side = .inside := by rw [Tok.side, if_neg (by rw [hkind]; decide)]
          have hnested' : Nested [] (Reading.toks (xs ++ x :: (.elem, t) :: ys)) := by
            simpa using hnested
          simp [encloser_ne hnested' hx hside hmark ht]
      · simp [not_isPunct hy hcolon]

/-! ### The tokens of Cypher -/

/-- A character of a name: a letter, `_`, or any character beyond ASCII. -/
def isNameStart (c : Char) : Bool := isIdentStart c || 128 ≤ c.toNat

/-- The length of a block comment after `/*`, up to the end of the text if it does not end. -/
def blockLength : Text → ℕ
  | '*' :: '/' :: _ => 2
  | _ :: cs => 1 + blockLength cs
  | [] => 0

/-- The length of the rest of a name in backticks, if it ends; two backticks stand for one. -/
def backtickLength : Text → Option ℕ
  | '`' :: '`' :: cs => (backtickLength cs).map (· + 2)
  | '`' :: _ => some 1
  | _ :: cs => (backtickLength cs).map (· + 1)
  | [] => none

/-- The length of the exponent of a number. -/
def exponentLength : Text → ℕ
  | e :: cs =>
      let sign := if cs.head? = some '+' ∨ cs.head? = some '-' then 1 else 0
      let digits := (cs.drop sign).takeWhile isDecimal
      if (e = 'e' ∨ e = 'E') ∧ digits ≠ [] then 1 + sign + digits.length else 0
  | [] => 0

/-- The token of Cypher at a text that begins with `c`.  It is that of the module, but Cypher also
has comments between `/*` and `*/`, names between backticks, which are no references, numbers with
exponents, and names with letters beyond ASCII. -/
def cypherMatchAt (c : Char) (cs : Text) : Kind × ℕ :=
  if c = '/' ∧ cs.head? = some '*' then (.comment, 2 + blockLength cs.tail)
  else if c = '`' then match backtickLength cs with
    | some n => (.str, 1 + n)
    | none => (.punct, 1)
  else if isSpace c then (.ws, 1 + (cs.takeWhile isSpace).length)
  else if isNameStart c then
    (.ident, 1 + (cs.takeWhile fun d => isNameStart d || d.isDigit).length)
  else if isDecimal c then
    let n := numLength (c :: cs)
    (.num, n + exponentLength ((c :: cs).drop n))
  else matchAt c cs

/-- The lexemes of Cypher, from the position `start` on, for at most `fuel` of them. -/
def cypherLexemes : ℕ → ℕ → Text → List Lexeme
  | fuel + 1, start, c :: cs =>
      let (kind, n) := cypherMatchAt c cs
      ⟨kind, (c :: cs).take n, start, start + n⟩ ::
        cypherLexemes fuel (start + n) ((c :: cs).drop n)
  | _, _, _ => []

/-- The tokens of a text in Cypher. -/
def cypherTokens (src : Text) : Option (List Tok) :=
  tokenizeFrom [] (cypherLexemes src.length 0 src)

/-- The module reads the text as Cypher does. -/
def Plain (src : Text) : Prop := tokenize src = cypherTokens src

/-! ### Queries that are right as they are -/

/-- The reading binds the name. -/
def Binds (xs : Reading) (name : Text) : Prop := ∃ x ∈ xs, x.1.binds = true ∧ x.2.text = name

/-- The token stands in the brackets in which its name is bound before it. -/
def Local (xs : Reading) (t : Tok) : Prop :=
  ∃ before x after, xs = before ++ x :: after ∧ x.1.binds = true ∧ x.2.text = t.text ∧
    0 < x.2.depth ∧ x.2.depth ≤ t.depth ∧ ∀ y ∈ after, x.2.depth ≤ y.2.depth

/-- The sort keys refer only to variables that are bound before the projection or in the sort
key itself. -/
def BoundKeys (q : Query) : Prop :=
  ∀ before p o after, Orders q before p o after → ∀ xs t ys,
    o.keys.reading = xs ++ (.name, t) :: ys → Binds (Query.reading before) t.text ∨ Local xs t

/-- A label, a namespace or a local variable of a sort key is called as an alias that the rewriting
sees, where it may refer to one. -/
def Mistaken (q : Query) : Prop :=
  ∃ before p o after, Orders q before p o after ∧ ∃ xs r t ys d,
    o.keys.reading = xs ++ (r, t) :: ys ∧ Refers (body o.keys.reading.toks) t ∧
    Defines q before p d t.text ∧
    (r = .label ∨ r = .space ∨ r = .elem ∨ r = .binder ∨ r = .name ∧ Local xs t)

/-- A name that is bound before a projection is not seen as an alias. -/
lemma Defines.not_binds {src : Text} {q before after : Query} {p : Projection} {o : Ordering}
    {d : Column} {name : Text} (htokens : tokenize src = some (Query.toks q))
    (horders : Orders q before p o after) (h : Defines q before p d name) :
    ¬Binds (Query.reading before) name := by
  have hstarter := h.not_starter htokens horders
  rintro ⟨⟨r, t⟩, hmem, hr, rfl⟩
  obtain ⟨front, w, c, others, -, -, hbound, -⟩ := h
  obtain ⟨xs, ys, hreading⟩ := List.append_of_mem hmem
  have hquery : Query.reading q =
      xs ++ (r, t) :: (ys ++ Query.reading (.projection p :: after)) := by
    rw [horders.query, Query.reading, List.flatMap_append, ← Query.reading, hreading,
      List.append_assoc, List.cons_append]
    rfl
  -- the names that the module knows as words of clauses are no aliases
  have hupper : t.upper ∉ reserved := by
    have hadmits := (Query.sound q).admits (r, t) (by rw [hquery]; simp)
    rw [Role.admits, shape_of_binds hr] at hadmits
    simp only [Shape.admits, Bool.and_eq_true, Bool.or_eq_true, decide_eq_true_eq] at hadmits
    refine hadmits.2.resolve_right fun hword => hstarter ?_
    exact (by decide : ∀ w ∈ unreserved, w ∈ clauseStarters) _ hword
  refine hbound (mem_boundIdentifiers htokens hquery hr hupper ?_)
  have hlength := congrArg List.length hreading
  simp only [List.length_append, List.length_cons] at hlength
  rw [Query.toks, Reading.toks, List.length_map]
  omega

/-- What the module replaces in a query that it reads as Cypher does. -/
lemma replaced_iff {src : Text} {q : Query} (htokens : tokenize src = some (Query.toks q))
    (hkeys : BoundKeys q) : Replaced src ↔ Mistaken q := by
  constructor
  · rintro ⟨toks, h, i, projection, orderBy, t, text, hmem, hrefers, hget⟩
    obtain rfl : Query.toks q = toks := Option.some.inj (htokens.symm.trans h)
    obtain ⟨before, p, o, after, d, t, horders, hrefers, hdefines, -⟩ :=
      (mem_allSubstitutions htokens).1 (mem_allSubstitutions_iff.2
        ⟨i, projection, orderBy, t, text, hmem, hrefers, hget, rfl⟩)
    obtain ⟨xs, r, ys, hreading, hrisky⟩ := risky_of_refers htokens horders hrefers hdefines
    refine ⟨before, p, o, after, horders, xs, r, t, ys, d, hreading, hrefers, hdefines, ?_⟩
    have hunbound := hdefines.not_binds htokens horders
    cases r
    case label | space | elem | binder => simp
    case name =>
      refine .inr (.inr (.inr (.inr ⟨rfl, ?_⟩)))
      exact (hkeys before p o after horders xs t ys hreading).resolve_left hunbound
    all_goals exact absurd hrisky (by decide)
  · rintro ⟨before, p, o, after, horders, xs, r, t, ys, d, -, hrefers, hdefines, -⟩
    obtain ⟨i, projection, orderBy, t, text, hmem, hrefers, hget, -⟩ :=
      mem_allSubstitutions_iff.1 ((mem_allSubstitutions htokens).2
        ⟨before, p, o, after, d, t, horders, hrefers, hdefines, rfl⟩)
    exact ⟨_, htokens, i, projection, orderBy, t, text, hmem, hrefers, hget⟩

/-! ### Texts that the module does not read as Cypher does -/

/-- An item of the list has the name. -/
def Titles (projection : List Tok) (name : Text) : Prop :=
  ∃ item ∈ itemsOf projection, ∃ e t, splitAs item = some (e, some t) ∧ e ≠ [] ∧
    t.kind = .ident ∧ t.text = name

/-- An identifier that may bind a variable has the name. -/
def MayBeBound (toks : List Tok) (name : Text) : Prop :=
  ∃ before t after, toks = before ++ t :: after ∧ mayBind before.getLast? t after.head? = true ∧
    t.text = name

/-- In what the module reads, an identifier `t` stands behind a list of items and the words
`ORDER BY` where it may refer to one of them that has its name, no keyword of a clause stands in
between, and no identifier before the list may bind a variable of this name. -/
def Misread (src : Text) : Prop :=
  ∃ before w projection o b xs t ys,
    tokenize src = some (before ++ w :: (projection ++ o :: b :: (xs ++ t :: ys))) ∧
    isProjectionKeyword w = true ∧ o.isWord "ORDER" = true ∧ o.depth = 0 ∧
    b.upper = "BY".toList ∧ (∀ u ∈ projection ++ xs ++ [t], isClauseBoundary u = false) ∧
    mayRefer xs.getLast? t ys.head? = true ∧ Titles projection t.text ∧ ¬MayBeBound before t.text

lemma kind_of_isClauseBoundary {t : Tok} (h : isClauseBoundary t = true) : t.kind = .ident := by
  simp only [isClauseBoundary, Bool.and_eq_true, decide_eq_true_eq] at h
  exact h.1.2

lemma kind_of_isProjectionKeyword {t : Tok} (h : isProjectionKeyword t = true) :
    t.kind = .ident := by
  simp only [isProjectionKeyword, Bool.and_eq_true, decide_eq_true_eq] at h
  exact h.1.2

lemma placed_projection {src : Text} {before projection after : List Tok} {w : Tok}
    (h : tokenize src = some (before ++ w :: (projection ++ after))) : Placed src projection := by
  refine (placed_of_tokenize h).sublist (.trans (List.sublist_append_left _ after) ?_)
  exact .trans (List.sublist_cons_self w _) (List.sublist_append_right before _)

/-- An identifier is no punctuation mark. -/
lemma not_isPunct_of_ident {t : Tok} (h : t.kind = .ident) (mark : Char) :
    t.isPunct mark = false := by
  simp [Tok.isPunct, h]

/-- The keyword behind the tokens is no bracket and no colon. -/
lemma mem_boundIdentifiers_iff {before after : List Tok} {w : Tok} (hw : w.kind = .ident)
    {name : Text} : name ∈ boundIdentifiers (before ++ w :: after) before.length ↔
      MayBeBound before name := by
  have hnext : ∀ (previous : Option Tok) (t : Tok) (zs : List Tok),
      mayBind previous t (zs ++ w :: after).head? = mayBind previous t zs.head? := by
    rintro previous t (_ | ⟨z, zs⟩)
    · simp [mayBind, not_isPunct_of_ident hw]
    · rfl
  rw [boundIdentifiers, mem_boundFrom]
  constructor
  · rintro ⟨ys, t, zs, hsplit, hlt, hbind, rfl⟩
    rw [Option.or_none] at hbind
    rcases List.append_eq_append_iff.1 hsplit with ⟨us, rfl, hus⟩ | ⟨us, rfl, hus⟩
    · exact absurd hlt (by simp)
    · rcases us with _ | ⟨u, us⟩
      · exact absurd hlt (by simp)
      · obtain ⟨rfl, rfl⟩ := List.cons.inj hus
        exact ⟨ys, t, us, rfl, (hnext _ _ _).symm.trans hbind, rfl⟩
  · rintro ⟨ys, t, zs, rfl, hbind, rfl⟩
    refine ⟨ys, t, zs ++ w :: after, by simp, by simp, ?_, rfl⟩
    rw [Option.or_none, hnext, hbind]

/-- The names of the dictionary are those of the items. -/
lemma isSome_get_aliasMap {src : Text} {projection : List Tok} (hplaced : Placed src projection)
    {name : Text} : (get (aliasMap src projection) name).isSome ↔ Titles projection name := by
  rw [aliasMap_eq]
  constructor
  · intro h
    obtain ⟨text, hget⟩ := Option.isSome_iff_exists.1 h
    obtain ⟨item, hitem, halias⟩ := List.mem_filterMap.1 (mem_of_get hget)
    rw [aliasOf] at halias
    split at halias
    · rename_i e t hsplit
      obtain ⟨⟨hne, hkind, -⟩, hsome⟩ := Option.ite_none_right_eq_some.1 halias
      exact ⟨item, hitem, e, t, hsplit, hne, hkind, (Prod.mk.inj (Option.some.inj hsome)).1⟩
    · cases halias
  · rintro ⟨item, hitem, e, t, hsplit, hne, hkind, rfl⟩
    have hexpr : Placed src e := by
      obtain ⟨before, after, rfl, -⟩ := mem_itemsOf hitem
      obtain ⟨as, more, rfl, -⟩ := splitAs_eq_some hsplit
      refine hplaced.sublist (.trans ?_ (List.sublist_append_left _ after))
      exact .trans (List.sublist_append_left e _) (List.sublist_append_right before _)
    have htext : expressionText src e ≠ [] := by
      rw [expressionText_eq hexpr]
      exact wholeText_ne_nil hexpr hne
    have halias : aliasOf src item = some (t.text, expressionText src e) := by
      rw [aliasOf, hsplit]
      exact if_pos ⟨hne, hkind, htext⟩
    exact isSome_get (List.mem_filterMap.2 ⟨item, hitem, halias⟩)

/-- What stands in a sort key stands before the next keyword of a clause. -/
lemma refers_body_iff {rest : List Tok} {t : Tok} : Refers (body rest) t ↔ ∃ xs ys,
    rest = xs ++ t :: ys ∧ (∀ u ∈ xs ++ [t], isClauseBoundary u = false) ∧
      mayRefer xs.getLast? t ys.head? = true := by
  -- a keyword behind the identifier is no bracket and no colon
  have hnext : ∀ (previous : Option Tok) (ys : List Tok),
      mayRefer previous t (body ys).head? = mayRefer previous t ys.head? := by
    rintro previous (_ | ⟨y, ys⟩)
    · rfl
    · rw [body, List.takeWhile_cons]
      by_cases hy : isClauseBoundary y = true
      · simp [hy, mayRefer, not_isPunct_of_ident (kind_of_isClauseBoundary hy)]
      · simp [hy]
  constructor
  · rintro ⟨xs, ys, hbody, hrefer⟩
    have hsplit : body rest ++ afterBody rest = rest := List.takeWhile_append_dropWhile
    have hnot : ∀ u ∈ xs ++ t :: ys, isClauseBoundary u = false := fun u hu =>
      not_boundary_of_mem_body (hbody ▸ hu)
    have hys : body (ys ++ afterBody rest) = ys := by
      refine (body_append (fun u hu => hnot u (by simp [hu])) fun u hu => ?_).1
      have hhead := List.head?_dropWhile_not (fun u => !isClauseBoundary u) rest
      rw [show rest.dropWhile (fun u => !isClauseBoundary u) = afterBody rest from rfl] at hhead
      obtain ⟨after, hafter⟩ := List.head?_eq_some_iff.1 hu
      rw [hafter] at hhead
      simpa using hhead
    rw [hbody, List.append_assoc, List.cons_append] at hsplit
    refine ⟨xs, ys ++ afterBody rest, hsplit.symm, fun u hu => ?_, ?_⟩
    · rcases List.mem_append.1 hu with hu | hu
      · exact hnot u (List.mem_append_left _ hu)
      · exact hnot u (by simp [List.mem_singleton.1 hu])
    · rw [← hnext, hys, hrefer]
  · rintro ⟨xs, ys, rfl, hnot, hrefer⟩
    refine ⟨xs, body ys, ?_, (hnext _ _).trans hrefer⟩
    have hall : ∀ u ∈ xs ++ [t], (!isClauseBoundary u) = true := fun u hu => by simp [hnot u hu]
    rw [show xs ++ t :: ys = (xs ++ [t]) ++ ys by simp, body,
      List.takeWhile_append_of_pos hall]
    simp [body]

/-- What is replaced in the text, on the tokens that the module reads. -/
lemma replaced_iff_misread {src : Text} : Replaced src ↔ Misread src := by
  constructor
  · rintro ⟨toks, htokens, i, projection, orderBy, t, text, hmem, hrefers, hget⟩
    obtain ⟨before, w, after, rfl, rfl, hw, horder⟩ := mem_iterFrom.1 hmem
    obtain ⟨o, b, rest, rfl, hprojection, hboundary, ho, hb, -, rfl, -⟩ :=
      orderByOf_eq_some.1 horder
    obtain ⟨xs, ys, rfl, hnot, hrefer⟩ := refers_body_iff.1 hrefers
    rw [get_unboundAliases, Nat.zero_add] at hget
    obtain ⟨hbound, hget⟩ := Option.ite_none_left_eq_some.1 hget
    have hkind := kind_of_isProjectionKeyword hw
    have hdepth : o.depth = 0 := by
      simp only [isClauseBoundary, Bool.and_eq_true, decide_eq_true_eq] at hboundary
      exact hboundary.1.1
    have htitles := (isSome_get_aliasMap (placed_projection htokens)).1
      (Option.isSome_iff_exists.2 ⟨text, hget⟩)
    refine ⟨before, w, projection, o, b, xs, t, ys, htokens, hw,
      isWord_iff.2 ⟨kind_of_isClauseBoundary hboundary, ho⟩, hdepth, hb, fun u hu => ?_, hrefer,
      htitles, ?_⟩
    · rw [List.append_assoc] at hu
      exact (List.mem_append.1 hu).elim (hprojection u) (hnot u)
    · rwa [mem_boundIdentifiers_iff hkind] at hbound
  · rintro ⟨before, w, projection, o, b, xs, t, ys, htokens, hw, ho, hdepth, hb, hnot, hrefer,
      htitles, hbound⟩
    obtain ⟨hokind, howord⟩ := isWord_iff.1 ho
    have hkind := kind_of_isProjectionKeyword hw
    have hrefers : Refers (body (xs ++ t :: ys)) t :=
      refers_body_iff.2 ⟨xs, ys, rfl, fun u hu => hnot u (by
        rw [List.append_assoc]
        exact List.mem_append_right _ hu), hrefer⟩
    have hne : projection ≠ [] := by
      rintro rfl
      obtain ⟨item, hitem, e, u, hsplit, he, -⟩ := htitles
      obtain ⟨ps, qs, hnil, -⟩ := mem_itemsOf hitem
      obtain ⟨as, more, rfl, -⟩ := splitAs_eq_some hsplit
      exact absurd hnil (by simp)
    have hboundary : isClauseBoundary o = true := by
      simp only [isClauseBoundary, hdepth, hokind, howord, decide_true, Bool.true_and]
      decide
    obtain ⟨text, hget⟩ :=
      Option.isSome_iff_exists.1 ((isSome_get_aliasMap (placed_projection htokens)).2 htitles)
    rw [← mem_boundIdentifiers_iff hkind] at hbound
    have horder : orderByOf (projection ++ o :: b :: (xs ++ t :: ys)) =
        some (projection, body (xs ++ t :: ys)) :=
      orderByOf_eq_some.2 ⟨o, b, xs ++ t :: ys, rfl, fun u hu => hnot u (by simp [hu]), hboundary,
        howord, hb, hne, rfl, List.ne_nil_of_mem hrefers.mem⟩
    refine ⟨_, htokens, before.length, projection, body (xs ++ t :: ys), t, text,
      mem_iterFrom.2 ⟨before, w, _, rfl, (Nat.zero_add _).symm, hw, horder⟩, hrefers, ?_⟩
    rw [get_unboundAliases, if_neg hbound, hget]

/-- **Unchanged queries.**  A query whose sort keys refer only to variables that are bound before
the projection or local is left alone exactly if, where the module reads it as Cypher does, it
takes no label, namespace or local variable of a sort key for an alias, and, where it does not, no
identifier behind an `ORDER BY` that it sees has the name of an item before it. -/
theorem rewrite_eq_self {src : Text} {q : Query} (hquery : cypherTokens src = some (Query.toks q))
    (hkeys : BoundKeys q) : rewriteOrderByAliases src = src ↔
      (Plain src → ¬Mistaken q) ∧ (¬Plain src → ¬Misread src) := by
  rw [rewrite_eq_self_iff, ← replaced_iff_misread]
  by_cases hplain : Plain src
  · rw [replaced_iff (hplain.trans hquery) hkeys]
    exact ⟨fun hnot => ⟨fun _ => hnot, fun h => absurd hplain h⟩, fun h => h.1 hplain⟩
  · exact ⟨fun hnot => ⟨fun h => absurd h hplain, fun _ => hnot⟩, fun h => h.2 hplain⟩

/-! ### A comprehension -/

/-- A token in brackets. -/
def tokenIn (encloser : Char) (kind : Kind) (start : ℕ) (text : String) : Tok :=
  ⟨kind, text.toList, start, start + text.length, 1, some [encloser]⟩

/-- A mark outside brackets. -/
def markAt (start : ℕ) (mark : Char) : Tok := ⟨.punct, [mark], start, start + 1, 0, none⟩

/-- `(n)` -/
def matched : Part .rest where
  reading := [(.lpar, markAt 6 '('), (.elem, tokenIn '(' .ident 7 "n"), (.rpar, markAt 8 ')')]
  derives := .rule (.head _) (.rule (.head _) (.rule (.head _) (.rule
    (by decide : [word .lpar, phrase .detail, word .rpar] ∈ rules .node)
    (.terminal (.append (.rule (.head _) (.terminal .nil)) (.terminal .nil))))))
  admits := by decide

/-- `[x IN n.l | x]` -/
def comprehension : Part .keys where
  reading := [(.lbrack, markAt 35 '['), (.elem, tokenIn '[' .ident 36 "x"),
    (.inKw, tokenIn '[' .ident 38 "IN"), (.name, tokenIn '[' .ident 41 "n"),
    (.dot, tokenIn '[' .punct 42 "."), (.key, tokenIn '[' .ident 43 "l"),
    (.bar, tokenIn '[' .punct 45 "|"), (.name, tokenIn '[' .ident 47 "x"), (.rbrack, markAt 48 ']')]
  derives := .rule (.head _) (.rule
    (by decide :
      [word .lbrack, phrase .source, word .bar, phrase .expr, word .rbrack] ∈ rules .expr)
    (.terminal (.append
      (.rule (by decide : [word .elem, word .inKw, phrase .expr] ∈ rules .source)
        (.terminal (.terminal derives_key)))
      (.terminal (derives_name.append (.terminal .nil))))))
  admits := by decide

/-- `MATCH (n) RETURN n.l AS x ORDER BY [x IN n.l | x]` -/
def comprehensionQuery : Query := [
  .other ⟨wordAt 0 "MATCH", by decide⟩ (some matched),
  .projection {
    keyword := ⟨wordAt 10 "RETURN", by decide⟩
    distinct := none
    first := {
      item := {
        reading := [(.name, wordAt 17 "n"), (.dot, markAt 18 '.'), (.key, wordAt 19 "l")]
        derives := .rule (.head _) derives_key
        admits := by decide }
      title := some (⟨wordAt 21 "AS", by decide⟩, ⟨wordAt 24 "x", by decide⟩) }
    others := []
    ordering := some {
      order := ⟨wordAt 26 "ORDER", by decide⟩
      byWord := ⟨wordAt 32 "BY", by decide⟩
      keys := comprehension } }]

lemma cypherTokens_comprehension :
    cypherTokens "MATCH (n) RETURN n.l AS x ORDER BY [x IN n.l | x]".toList =
      some (Query.toks comprehensionQuery) := by decide

/-- The sort key refers to the matched node and to its own variable. -/
lemma boundKeys_comprehension : BoundKeys comprehensionQuery := by
  rintro before p o after ⟨hquery, hordering⟩ xs t ys hsplit
  rcases before with _ | ⟨c, before⟩
  · cases (List.cons.inj hquery).1
  obtain ⟨rfl, hrest⟩ := List.cons.inj hquery
  rcases List.append_eq_singleton_iff.1 hrest.symm with ⟨rfl, hp⟩ | ⟨-, hp⟩
  · obtain rfl := Clause.projection.inj (List.cons.inj hp).1
    obtain rfl := Option.some.inj hordering
    -- the names of the sort key are its fourth token and its eighth one
    have hget : comprehension.reading[xs.length]? = some (.name, t) := by
      rw [show comprehension.reading = xs ++ (.name, t) :: ys from hsplit]
      simp
    have hxs : xs = comprehension.reading.take xs.length := by
      rw [show comprehension.reading = xs ++ (.name, t) :: ys from hsplit, List.take_left]
    have hlt : xs.length < 9 := (List.getElem?_eq_some_iff.1 hget).1
    generalize xs.length = k at hget hxs hlt
    subst hxs
    interval_cases k
    case «3» =>
      cases hget
      exact .inl ⟨(.elem, tokenIn '(' .ident 7 "n"), by decide, rfl, rfl⟩
    case «7» =>
      cases hget
      exact .inr ⟨[(.lbrack, markAt 35 '[')], (.elem, tokenIn '[' .ident 36 "x"), _, rfl, rfl, rfl,
        by decide, by decide, by decide⟩
    all_goals cases hget
  · exact absurd hp (List.cons_ne_nil _ _)

/-- The equivalence at a query whose sort key is a comprehension. -/
theorem rewrite_eq_self_comprehension :
    rewriteOrderByAliases "MATCH (n) RETURN n.l AS x ORDER BY [x IN n.l | x]".toList =
        "MATCH (n) RETURN n.l AS x ORDER BY [x IN n.l | x]".toList ↔
      (Plain "MATCH (n) RETURN n.l AS x ORDER BY [x IN n.l | x]".toList →
        ¬Mistaken comprehensionQuery) ∧
      (¬Plain "MATCH (n) RETURN n.l AS x ORDER BY [x IN n.l | x]".toList →
        ¬Misread "MATCH (n) RETURN n.l AS x ORDER BY [x IN n.l | x]".toList) :=
  rewrite_eq_self cypherTokens_comprehension boundKeys_comprehension

/-- The variable of a comprehension is replaced by an expression. -/
theorem rewrite_eq_self_fails : ¬∀ (src : Text) (q : Query),
    cypherTokens src = some (Query.toks q) → BoundKeys q → rewriteOrderByAliases src = src := by
  intro hall
  have heq := hall _ _ cypherTokens_comprehension boundKeys_comprehension
  exact absurd heq (by decide)

end PalaceDaemon.Cypher

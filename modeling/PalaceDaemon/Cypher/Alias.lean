/-
What a replaced alias is replaced by.

Every alias that the rewriting replaces gets the whole expression of its item, unless the
projection is cut off inside this expression: a `WITH` of `STARTS WITH` or `ENDS WITH`, or a
property or label that is called `with` or `return`, is taken for the keyword of the projection,
and the alias stands for what is left of the expression after it (`Misled`).
-/
import PalaceDaemon.Cypher.Visible

namespace PalaceDaemon.Cypher

open Grammar PyText

/-! ### The place of an `ORDER BY` -/

lemma Placed.eq_of_start {src : Text} {toks : List Tok} (h : Placed src toks) {t u : Tok}
    (ht : t ∈ toks) (hu : u ∈ toks) (hstart : t.start = u.start) : t = u := by
  have hlt : ∀ {v}, v ∈ toks → v.start < v.stop := fun hv => (h.placed _ hv).lt
  obtain ⟨before, after, rfl⟩ := List.append_of_mem ht
  obtain ⟨-, htail, hbefore⟩ := List.pairwise_append.1 h.ordered
  rcases List.mem_append.1 hu with hmem | hmem
  · have hle := hbefore u hmem t List.mem_cons_self
    have hlt' := hlt hu
    omega
  · rcases List.mem_cons.1 hmem with rfl | hmem
    · rfl
    · have hle := List.rel_of_pairwise_cons htail hmem
      have hlt' := hlt ht
      omega

/-- The tokens of two projections of a text, the first before the second, are not the same. -/
lemma Placed.clause_ne {src : Text} {before mid after : Query} {c d : Clause}
    (h : Placed src (Query.toks (before ++ c :: (mid ++ d :: after)))) {t : Tok}
    (ht : t ∈ c.reading.toks) : t ∉ d.reading.toks := by
  intro hd
  have htoks : Query.toks (before ++ c :: (mid ++ d :: after)) = (Query.toks before ++
      (c.reading.toks ++ (Query.toks mid ++ (d.reading.toks ++ Query.toks after)))) := by
    simp [Query.toks, Query.reading]
  have hplaced := h.placed
  have hordered := h.ordered
  rw [htoks] at hplaced hordered
  obtain ⟨-, hordered, -⟩ := List.pairwise_append.1 hordered
  obtain ⟨-, -, hcross⟩ := List.pairwise_append.1 hordered
  have hle := hcross t ht t (by simp [hd])
  have hlt := (hplaced t (by simp [ht])).lt
  exact absurd hlt (Nat.not_lt.2 hle)

lemma Orders.mem_clause {q before after : Query} {p : Projection} {o : Ordering}
    (h : Orders q before p o after) {t : Tok} (ht : t ∈ o.keys.reading.toks) :
    t ∈ (Clause.projection p).reading.toks := by
  simp [Clause.reading, Projection.reading, h.ordering, Ordering.reading, ht]

/-- A sort key belongs to one projection. -/
lemma Orders.unique {src : Text} {q before before' after after' : Query} {p p' : Projection}
    {o o' : Ordering} (hplaced : Placed src (Query.toks q)) (h : Orders q before p o after)
    (h' : Orders q before' p' o' after') {t : Tok} (ht : t ∈ o.keys.reading.toks)
    (ht' : t ∈ o'.keys.reading.toks) : before = before' ∧ p = p' := by
  have hmem := h.mem_clause ht
  have hmem' := h'.mem_clause ht'
  obtain ⟨rfl, -⟩ := h
  obtain ⟨hsplit, -⟩ := h'
  rcases List.append_eq_append_iff.1 hsplit with ⟨mid, rfl, hmid⟩ | ⟨mid, rfl, hmid⟩
  · cases mid with
    | nil =>
        obtain ⟨hp, -⟩ := List.cons.inj hmid
        exact ⟨(List.append_nil _).symm, Clause.projection.inj hp⟩
    | cons c mid =>
        obtain ⟨rfl, rfl⟩ := List.cons.inj hmid
        exact absurd hmem' (hplaced.clause_ne hmem)
  · cases mid with
    | nil =>
        obtain ⟨hp, -⟩ := List.cons.inj hmid
        exact ⟨List.append_nil _, Clause.projection.inj hp.symm⟩
    | cons c mid =>
        obtain ⟨rfl, rfl⟩ := List.cons.inj hmid
        rw [hsplit] at hplaced
        exact absurd hmem (hplaced.clause_ne hmem')

/-! ### The whole expression -/

/-- Every alias that is replaced gets the whole expression that it stands for in the projection
whose `ORDER BY` it is in. -/
def RightExpressions (src : Text) (q : Query) : Prop :=
  ∀ s ∈ allSubstitutions src (Query.toks q), ∃ before p o after, Orders q before p o after ∧
    ∃ t ∈ o.keys.reading.toks, s.start = t.start ∧ s.stop = t.stop ∧
      ∃ expr, p.definition t.text = some expr ∧ s.text = '(' :: wholeText src expr ++ [')']

/-- A sort key refers to an alias whose expression is cut off: the last word of the list that reads
as a keyword of a clause stands in it and reads as `RETURN` or `WITH`. -/
def Misled (q before : Query) (p : Projection) (o : Ordering) : Prop :=
  ∃ earlier c later front w rest, p.columns = earlier ++ c :: later ∧
    c.expr = front ++ w :: rest ∧ rest ≠ [] ∧ isProjectionKeyword w = true ∧
    (∀ t ∈ (Column.mk none rest c.title :: later).flatMap Column.toks,
      isClauseBoundary t = false) ∧
    ∃ t, Refers (body o.keys.reading.toks) t ∧ c.titled t.text = true ∧
      (∀ d ∈ later, d.titled t.text = false) ∧
      t.text ∉ boundIdentifiers (Query.toks q) ((Query.toks before).length +
        (1 + (earlier.flatMap Column.toks ++ (c.lead.toList ++ front)).length))

lemma Projection.expr_ne_nil {p : Projection} : ∀ c ∈ p.columns, c.expr ≠ [] := by
  have hitem : ∀ (t : Titled) (lead : Option Tok), (t.column lead).expr ≠ [] := by
    rintro t lead hnil
    obtain ⟨x, hx, -⟩ := t.item.head
    have hmem : x.2 ∈ t.item.reading.toks := List.mem_map_of_mem (List.mem_of_mem_head? hx)
    rw [show t.item.reading.toks = [] from hnil] at hmem
    exact List.not_mem_nil hmem
  rintro c hc
  rcases List.mem_cons.1 hc with rfl | hc
  · exact hitem _ _
  · obtain ⟨o, -, rfl⟩ := List.mem_map.1 hc
    exact hitem _ _

/-- In a list of whole expressions, an item defines its alias. -/
lemma filter_defines {columns : List Column} (h : ∀ c ∈ columns, c.expr ≠ []) (name : Text) :
    columns.filter (·.defines name) = columns.filter (·.titled name) := by
  refine List.filter_congr fun c hc => ?_
  rw [Column.defines, decide_eq_true (h c hc), Bool.and_true]

/-- A part of an expression is shorter than it. -/
lemma wholeText_ne_of_cut {src : Text} {expr front rest : List Tok} {w : Tok}
    (h : Placed src expr) (hexpr : expr = front ++ w :: rest) (hrest : rest ≠ []) :
    wholeText src rest ≠ wholeText src expr := by
  have hsub : rest.Sublist expr := by
    rw [hexpr]
    exact (List.sublist_cons_self w rest).trans (List.sublist_append_right front _)
  have hne : expr ≠ [] := List.ne_nil_of_length_pos (lt_of_lt_of_le
    (List.length_pos_iff.2 hrest) hsub.length_le)
  obtain ⟨first, hfirst⟩ := Option.isSome_iff_exists.1 (List.isSome_head?.2 hne)
  obtain ⟨next, hnext⟩ := Option.isSome_iff_exists.1 (List.isSome_head?.2 hrest)
  obtain ⟨last, hlast⟩ := Option.isSome_iff_exists.1 (List.getLast?_isSome.2 hrest)
  have hlast' : expr.getLast? = some last := by
    rw [hexpr, List.getLast?_append, List.getLast?_cons, hlast]
    rfl
  have hlt := (h.sublist hsub).lt_of_ends hnext hlast
  -- the first token of the expression ends before the rest begins
  have hbegin : first.start < next.start := by
    have hmem : first ∈ front ++ [w] := by
      rw [hexpr, ← List.singleton_append, ← List.append_assoc] at hfirst
      rw [List.head?_append_of_ne_nil _ (by simp)] at hfirst
      exact List.mem_of_mem_head? hfirst
    have hordered := h.ordered
    rw [hexpr, ← List.singleton_append, ← List.append_assoc] at hordered
    have hle := (List.pairwise_append.1 hordered).2.2 first hmem next (List.mem_of_mem_head? hnext)
    have hpos : first.start < first.stop := (h.placed first (List.mem_of_mem_head? hfirst)).lt
    omega
  intro heq
  have hlength := congrArg List.length heq
  rw [length_wholeText (h.sublist hsub) hnext hlast, length_wholeText h hfirst hlast'] at hlength
  omega

lemma Projection.definition_of_last {p : Projection} {earlier later : List Column} {c : Column}
    (hcolumns : p.columns = earlier ++ c :: later) {name : Text} (hc : c.titled name = true)
    (hlater : ∀ d ∈ later, d.titled name = false) : p.definition name = some c.expr := by
  have hnone : later.filter (·.titled name) = [] :=
    List.filter_eq_nil_iff.2 fun d hd => by rw [hlater d hd]; exact Bool.false_ne_true
  rw [Projection.definition, hcolumns, List.filter_append, List.filter_cons, if_pos hc, hnone,
    List.getLast?_concat]
  rfl

/-- An alias that is not cut off is defined as in the query. -/
lemma Defines.definition {q before : Query} {p : Projection} {o : Ordering} {d : Column}
    {t : Tok} (hnot : ¬Misled q before p o) (hrefers : Refers (body o.keys.reading.toks) t)
    (h : Defines q before p d t.text) : p.definition t.text = some d.expr := by
  obtain ⟨front, w, c, others, hvisible, hlast, hbound, hd⟩ := h
  cases hvisible with
  | whole hsplit =>
      rw [← hsplit, filter_defines p.expr_ne_nil] at hd
      rw [Projection.definition, hd]
      rfl
  | @cut earlier c _ front _ rest hsplit hexpr hw =>
      have hlater : ∀ e ∈ others, e.expr ≠ [] := fun e he => p.expr_ne_nil e (by
        rw [hsplit]
        exact List.mem_append_right earlier (List.mem_cons_of_mem c he))
      by_cases hothers : ∀ e ∈ others, e.titled t.text = false
      · -- the reference is to the expression that is cut off
        exfalso
        have hnone : others.filter (·.defines t.text) = [] := by
          rw [filter_defines hlater]
          exact List.filter_eq_nil_iff.2 fun e he => by rw [hothers e he]; exact Bool.false_ne_true
        rw [List.filter_cons, hnone] at hd
        split_ifs at hd with hdefines
        · simp only [Column.defines, Bool.and_eq_true, decide_eq_true_eq] at hdefines
          refine hnot ⟨earlier, c, others, front, w, rest, hsplit, hexpr, hdefines.2, hw, hlast, t,
            hrefers, hdefines.1, hothers, ?_⟩
          rwa [List.length_cons, Nat.add_comm _ 1] at hbound
        · cases hd
      · -- a later item has the alias, and its expression is whole
        have hne : others.filter (·.titled t.text) ≠ [] := by
          intro hnil
          refine hothers fun e he => ?_
          simpa using List.filter_eq_nil_iff.1 hnil e he
        have hlast' : ∀ l : List Column,
            (l ++ others.filter (·.titled t.text)).getLast? =
              (others.filter (·.titled t.text)).getLast? := fun l =>
          List.getLast?_append_of_ne_nil l hne
        have hd' : (others.filter (·.titled t.text)).getLast? = some d := by
          rw [List.filter_cons, filter_defines hlater] at hd
          split_ifs at hd
          · rwa [← List.singleton_append, hlast'] at hd
          · exact hd
        rw [Projection.definition, hsplit, ← List.singleton_append, ← List.append_assoc,
          List.filter_append, hlast', hd']
        rfl

/-- **Aliases.**  The rewriting replaces the aliases of a query by their whole expressions, if no
`ORDER BY` refers to an alias whose expression is cut off, and only then. -/
theorem right_expressions {src : Text} {q : Query} (h : tokenize src = some (Query.toks q)) :
    RightExpressions src q ↔
      ∀ before p o after, Orders q before p o after → ¬Misled q before p o := by
  have hplaced := placed_of_tokenize h
  constructor
  · rintro hright before p o after horders
      ⟨earlier, c, later, front, w, rest, hcolumns, hexpr, hrest, hw, hlast, t, hrefers, htitled,
        hlater, hbound⟩
    -- the end of the expression is what the alias is replaced by
    have hvisible := Visible.cut hcolumns hexpr hw
    have hdefined : Defines q before p ⟨none, rest, c.title⟩ t.text := by
      refine ⟨_, _, _, _, hvisible, hlast, by rwa [List.length_cons, Nat.add_comm _ 1], ?_⟩
      have hnone : later.filter (·.defines t.text) = [] := by
        refine List.filter_eq_nil_iff.2 fun d hd => ?_
        rw [Column.defines, hlater d hd]
        exact Bool.false_ne_true
      have hdefines : (Column.mk none rest c.title).defines t.text = true := by
        rw [Column.defines, decide_eq_true hrest, Bool.and_true]
        exact htitled
      rw [List.filter_cons, if_pos hdefines, hnone]
      rfl
    obtain ⟨before', p', o', after', horders', t', ht', hstart, -, expr, hdefinition, htext⟩ :=
      hright _ ((mem_allSubstitutions h).2
        ⟨before, p, o, after, _, t, horders, hrefers, hdefined, rfl⟩)
    have ht : t ∈ o.keys.reading.toks := (List.takeWhile_sublist _).subset hrefers.mem
    have hmem : ∀ {b p o a u}, Orders q b p o a → u ∈ o.keys.reading.toks → u ∈ Query.toks q := by
      rintro b p o a u horders hu
      rw [horders.toks]
      simp [hu]
    obtain rfl := hplaced.eq_of_start (hmem horders ht) (hmem horders' ht') hstart
    obtain ⟨rfl, rfl⟩ := horders.unique hplaced horders' ht ht'
    obtain rfl : c.expr = expr := Option.some.inj
      ((Projection.definition_of_last hcolumns htitled hlater).symm.trans hdefinition)
    have hcplaced : Placed src c.expr := by
      refine (horders.placed h).sublist ?_
      rw [← p.toks_columns, hcolumns, List.flatMap_append, List.flatMap_cons, Column.toks,
        Column.item]
      refine .trans ?_ (List.sublist_append_right _ _)
      refine .trans ?_ (List.sublist_append_left _ _)
      exact (List.sublist_append_left _ _).trans (List.sublist_append_right _ _)
    refine wholeText_ne_of_cut hcplaced hexpr hrest ?_
    exact List.append_cancel_right (List.cons.inj htext).2
  · rintro hnot s hs
    obtain ⟨before, p, o, after, d, t, horders, hrefers, hdefines, rfl⟩ :=
      (mem_allSubstitutions h).1 hs
    exact ⟨before, p, o, after, horders, t, (List.takeWhile_sublist _).subset hrefers.mem, rfl, rfl,
      d.expr, hdefines.definition (hnot before p o after horders) hrefers, rfl⟩

/-! ### A prefix test -/

/-- A word outside brackets. -/
def wordAt (start : ℕ) (text : String) : Tok :=
  ⟨.ident, text.toList, start, start + text.length, 0, none⟩

lemma derives_name : Derives rules [phrase .expr] [.name] := .rule (.head _) (.terminal .nil)

lemma derives_key : Derives rules [phrase .expr] [.name, .dot, .key] :=
  .rule (by decide : [phrase .expr, word .dot, word .key] ∈ rules .expr)
    (derives_name.append (.terminal (.terminal .nil)))

/-- `a.name STARTS WITH 'x' AS k` -/
def startsWith : Titled where
  item := {
    reading := [(.name, wordAt 7 "a"), (.dot, ⟨.punct, ['.'], 8, 9, 0, none⟩),
      (.key, wordAt 9 "name"), (.startsEnds, wordAt 14 "STARTS"), (.withKw, wordAt 21 "WITH"),
      (.lit, ⟨.str, "'x'".toList, 26, 29, 0, none⟩)]
    derives := .rule (.head _) (.rule
      (by decide : [phrase .expr, phrase .operator, phrase .expr] ∈ rules .expr)
      (derives_key.append (.append
        (.rule (by decide : [word .startsEnds, word .withKw] ∈ rules .operator)
          (.terminal (.terminal .nil)))
        (.rule (by decide : [word .lit] ∈ rules .expr) (.terminal .nil)))))
    admits := by decide }
  title := some (⟨wordAt 30 "AS", by decide⟩, ⟨wordAt 33 "k", by decide⟩)

/-- `RETURN a.name STARTS WITH 'x' AS k ORDER BY k` -/
def startsWithQuery : Query := [.projection {
  keyword := ⟨wordAt 0 "RETURN", by decide⟩
  distinct := none
  first := startsWith
  others := []
  ordering := some {
    order := ⟨wordAt 35 "ORDER", by decide⟩
    byWord := ⟨wordAt 41 "BY", by decide⟩
    keys := {
      reading := [(.name, wordAt 44 "k")]
      derives := .rule (.head _) derives_name
      admits := by decide } } }]

lemma tokenize_startsWith :
    tokenize "RETURN a.name STARTS WITH 'x' AS k ORDER BY k".toList =
      some (Query.toks startsWithQuery) := by decide

/-- The equivalence at a query whose alias is a prefix test. -/
theorem right_expressions_startsWith :
    RightExpressions "RETURN a.name STARTS WITH 'x' AS k ORDER BY k".toList startsWithQuery ↔
      ∀ before p o after, Orders startsWithQuery before p o after →
        ¬Misled startsWithQuery before p o :=
  right_expressions tokenize_startsWith

/-- The rewriting sorts by the string of a prefix test, and not by the test. -/
theorem right_expressions_fails : ¬∀ (src : Text) (q : Query),
    tokenize src = some (Query.toks q) → RightExpressions src q := by
  intro hall
  obtain ⟨before, p, o, after, horders, t, ht, -, -, expr, hexpr, htext⟩ :=
    hall _ _ tokenize_startsWith ⟨44, 45, "('x')".toList⟩ (by decide)
  obtain ⟨hquery, hordering⟩ := horders
  rcases List.append_eq_singleton_iff.1 hquery.symm with ⟨-, hp⟩ | ⟨-, hp⟩
  · obtain ⟨hp, -⟩ := List.cons.inj hp
    obtain rfl := Clause.projection.inj hp
    obtain rfl := Option.some.inj hordering
    obtain rfl := List.mem_singleton.1 ht
    obtain rfl := Option.some.inj hexpr
    exact absurd htext (by decide)
  · exact absurd hp (List.cons_ne_nil _ _)

end PalaceDaemon.Cypher

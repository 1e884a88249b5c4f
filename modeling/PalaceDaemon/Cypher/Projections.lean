/-
The projections that the rewriting sees in a query.

`_iter_projection_order_by` takes the words that end a projection from the tokens alone.  In a query
of the fragment the `ORDER BY`s that it finds are those of the query, with the sort keys up to the
first word of a clause in them (`mem_iter_query`).  What it takes for the projection begins after
the last word of a clause before the `ORDER BY`: this is the keyword of the projection, or a word
inside the expression of an item (`Shown`).
-/
import PalaceDaemon.Cypher.Query

namespace PalaceDaemon.Cypher

open Grammar

/-! ### What the functions find -/

lemma body_append {projection toks : List Tok}
    (hbody : ∀ t ∈ projection, isClauseBoundary t = false)
    (hnext : ∀ t ∈ toks.head?, isClauseBoundary t = true) :
    body (projection ++ toks) = projection ∧ afterBody (projection ++ toks) = toks := by
  have hall : ∀ t ∈ projection, (!isClauseBoundary t) = true := by
    intro t ht
    rw [hbody t ht, Bool.not_false]
  rw [body, afterBody, List.takeWhile_append_of_pos hall, List.dropWhile_append_of_pos hall]
  cases toks with
  | nil => exact ⟨List.append_nil _, rfl⟩
  | cons t toks =>
      have ht := hnext t rfl
      simp only [List.takeWhile_cons, List.dropWhile_cons, ht, Bool.not_true, Bool.false_eq_true,
        if_false, List.append_nil, and_self]

lemma not_boundary_of_mem_body {toks : List Tok} {t : Tok} (h : t ∈ body toks) :
    isClauseBoundary t = false := by
  have hnot := List.mem_takeWhile_imp h
  simpa using hnot

/-- The projection and the `ORDER BY` after a keyword. -/
lemma orderByOf_eq_some {toks projection orderBy : List Tok} :
    orderByOf toks = some (projection, orderBy) ↔ ∃ o b rest,
      toks = projection ++ o :: b :: rest ∧ (∀ t ∈ projection, isClauseBoundary t = false) ∧
      isClauseBoundary o = true ∧ o.upper = "ORDER".toList ∧ b.upper = "BY".toList ∧
      projection ≠ [] ∧ orderBy = body rest ∧ orderBy ≠ [] := by
  have hsplit : body toks ++ afterBody toks = toks := List.takeWhile_append_dropWhile
  constructor
  · intro h
    rw [orderByOf] at h
    split at h
    · rename_i o b rest hafter
      obtain ⟨⟨ho, hb, hbody, hrest⟩, hsome⟩ := Option.ite_none_right_eq_some.1 h
      obtain ⟨rfl, rfl⟩ := Prod.mk.inj (Option.some.inj hsome)
      rw [hafter] at hsplit
      have hboundary : isClauseBoundary o = true := by
        have hhead := List.head?_dropWhile_not (fun t => !isClauseBoundary t) toks
        rw [show toks.dropWhile (fun t => !isClauseBoundary t) = o :: b :: rest from hafter]
          at hhead
        simpa using hhead
      exact ⟨o, b, rest, hsplit.symm, fun t ht => not_boundary_of_mem_body ht, hboundary, ho, hb,
        hbody, rfl, hrest⟩
    · cases h
  · rintro ⟨o, b, rest, rfl, hprojection, hboundary, ho, hb, hne, rfl, hrest⟩
    have hnext : ∀ t ∈ (o :: b :: rest).head?, isClauseBoundary t = true := by
      intro t ht
      obtain rfl : o = t := by simpa using ht
      exact hboundary
    obtain ⟨hbody, hafter⟩ := body_append hprojection hnext
    rw [orderByOf, hbody, hafter]
    exact if_pos ⟨ho, hb, hne, hrest⟩

lemma mem_iterFrom {k i : ℕ} {toks projection orderBy : List Tok} :
    (i, projection, orderBy) ∈ iterFrom k toks ↔ ∃ before w after, toks = before ++ w :: after ∧
      i = k + before.length ∧ isProjectionKeyword w = true ∧
      orderByOf after = some (projection, orderBy) := by
  induction toks generalizing k with
  | nil =>
      constructor
      · exact fun h => absurd h List.not_mem_nil
      · rintro ⟨before, w, after, h, -⟩
        exact absurd h.symm (by simp)
  | cons t toks ih =>
      rw [iterFrom, List.mem_append, ih]
      constructor
      · rintro (h | ⟨before, w, after, rfl, rfl, hw, horder⟩)
        · rw [Option.mem_toList, Option.map_eq_some_iff] at h
          obtain ⟨⟨p, o⟩, hsome, heq⟩ := h
          obtain ⟨hw, horder⟩ := Option.ite_none_right_eq_some.1 hsome
          obtain ⟨rfl, rfl, rfl⟩ : k = i ∧ p = projection ∧ o = orderBy := by simpa using heq
          exact ⟨[], t, toks, rfl, rfl, hw, horder⟩
        · exact ⟨t :: before, w, after, rfl, by simp only [List.length_cons]; omega, hw, horder⟩
      · rintro ⟨before, w, after, hsplit, rfl, hw, horder⟩
        cases before with
        | nil =>
            obtain ⟨rfl, rfl⟩ := List.cons.inj hsplit
            refine .inl ?_
            rw [if_pos hw, horder]
            simp
        | cons u before =>
            obtain ⟨rfl, rfl⟩ := List.cons.inj hsplit
            exact .inr ⟨before, w, after, rfl, by simp only [List.length_cons]; omega, hw, horder⟩

/-! ### The words of a query -/

lemma isWord_iff {t : Tok} {word : String} :
    t.isWord word = true ↔ t.kind = .ident ∧ t.upper = word.toList := by
  simp [Tok.isWord]

lemma word_of_admits {r : Role} {ws : List String} {t : Tok} (hr : r.shape = .keywords ws)
    (h : r.admits t = true) : t.kind = .ident ∧ ∃ w ∈ ws, t.upper = w.toList := by
  rw [Role.admits, hr] at h
  obtain ⟨w, hw, hword⟩ := List.any_eq_true.1 h
  obtain ⟨hkind, hupper⟩ := isWord_iff.1 hword
  exact ⟨hkind, w, hw, hupper⟩

/-- The keywords of clauses, outside brackets, are where a projection ends. -/
lemma isClauseBoundary_of_word {r : Role} {ws : List String} {t : Tok}
    (hr : r.shape = .keywords ws) (hws : ∀ w ∈ ws, w.toList ∈ clauseStarters)
    (h : r.admits t = true) (hdepth : t.depth = 0) : isClauseBoundary t = true := by
  obtain ⟨hkind, w, hw, hupper⟩ := word_of_admits hr h
  simp [isClauseBoundary, hdepth, hkind, hupper, hws w hw]

lemma Word.boundary_proj (w : Word .projKw) (hdepth : w.1.depth = 0) :
    isClauseBoundary w.1 = true := isClauseBoundary_of_word rfl (by decide) w.2 hdepth

lemma Word.boundary_clause (w : Word .clauseKw) (hdepth : w.1.depth = 0) :
    isClauseBoundary w.1 = true := isClauseBoundary_of_word rfl (by decide) w.2 hdepth

lemma Word.boundary_order (w : Word .orderKw) (hdepth : w.1.depth = 0) :
    isClauseBoundary w.1 = true := isClauseBoundary_of_word rfl (by decide) w.2 hdepth

lemma Word.isProjectionKeyword (w : Word .projKw) (hdepth : w.1.depth = 0) :
    isProjectionKeyword w.1 = true := by
  obtain ⟨hkind, v, hv, hupper⟩ := word_of_admits rfl w.2
  have hmem : v.toList ∈ projectionKeywords := (by decide : ∀ v ∈ ["RETURN", "WITH"],
    v.toList ∈ projectionKeywords) v hv
  simp [Cypher.isProjectionKeyword, hdepth, hkind, hupper, hmem]

lemma Word.depth {r : Role} (w : Word r) (hside : r.side = .inside) (h : Leveled w.reading) :
    w.1.depth = 0 := by
  rw [Leveled, Word.reading, levels, show sideAt (r, w.1) = .inside from hside] at h
  simpa [levels] using (congrArg (List.map Prod.snd) h).symm

/-- The tokens of a projection in a query that stand outside brackets do so in their part. -/
lemma Query.leveled_parts {before after : Query} {p : Projection}
    (h : Leveled (Query.reading (before ++ .projection p :: after))) :
    p.keyword.1.depth = 0 ∧ Leveled p.body ∧ Leveled (p.ordering.elim [] Ordering.reading) ∧
      Leveled (Query.reading after) := by
  rw [Query.reading, List.flatMap_append, List.flatMap_cons] at h
  obtain ⟨-, h⟩ := h.append (Query.sound before).flat
  obtain ⟨hclause, hafter⟩ := h.append (Clause.sound _).flat
  have hflat : Flat (p.keyword.reading ++ p.body) :=
    ((p.keyword.sound rfl).append p.sound_body).flat
  obtain ⟨hprojection, hordering⟩ := Leveled.append hclause hflat
  obtain ⟨hkeyword, hbody⟩ := hprojection.append (p.keyword.sound rfl).flat
  exact ⟨p.keyword.depth rfl hkeyword, hbody, hordering, hafter⟩

lemma Ordering.leveled_parts {o : Ordering} (h : Leveled o.reading) :
    o.order.1.depth = 0 ∧ Leveled o.keys.reading := by
  rw [Ordering.reading, List.append_assoc] at h
  obtain ⟨horder, h⟩ := h.append (o.order.sound rfl).flat
  exact ⟨o.order.depth rfl horder, (h.append (o.byWord.sound rfl).flat).2⟩

/-- A query begins with a keyword of a clause. -/
lemma Query.boundary_head {q : Query} (h : Leveled (Query.reading q)) :
    ∀ t ∈ (Query.toks q).head?, isClauseBoundary t = true := by
  rintro t ht
  cases q with
  | nil => exact absurd ht nofun
  | cons c q =>
      rcases c with p | ⟨keyword, rest⟩
      · obtain ⟨hdepth, -⟩ := @Query.leveled_parts [] q p h
        obtain rfl : p.keyword.1 = t := by
          simpa [Query.toks, Query.reading, Clause.reading, Projection.reading, Word.reading]
            using ht
        exact p.keyword.boundary_proj hdepth
      · rw [Query.reading, List.flatMap_cons] at h
        obtain ⟨hclause, -⟩ := h.append (Clause.sound _).flat
        rw [Clause.reading] at hclause
        obtain rfl : keyword.1 = t := by
          simpa [Query.toks, Query.reading, Clause.reading, Word.reading] using ht
        exact keyword.boundary_clause
          (keyword.depth rfl (hclause.append (keyword.sound rfl).flat).1)

/-- Only the words of an `ORDER BY` read so, one after the other. -/
lemma order_by_roles {a b : Role} (hok : ok a b = true) (ha : a.reads "ORDER".toList = true)
    (hb : b.reads "BY".toList = true) : a = .orderKw ∧ b = .byKw := by
  revert hok ha hb
  cases b
  case key | label | mapKey | field | byKw => cases a <;> decide
  all_goals exact fun _ _ hb => absurd hb (by decide)

/-! ### The projections of a query -/

lemma body_append_of_boundary {toks after : List Tok}
    (h : ∀ t ∈ after.head?, isClauseBoundary t = true) : body (toks ++ after) = body toks := by
  induction toks with
  | nil => exact (body_append (fun t ht => absurd ht List.not_mem_nil) h).1
  | cons t toks ih =>
      rw [List.cons_append, body, body, List.takeWhile_cons, List.takeWhile_cons]
      split_ifs
      · exact congrArg (List.cons t) ih
      · rfl

/-- What the rewriting takes for the projection: it begins after the last word of a clause. -/
structure Shown (p : Projection) (front : List Tok) (w : Tok) (projection : List Tok) : Prop where
  split : p.keyword.1 :: p.body.toks = front ++ w :: projection
  keyword : isProjectionKeyword w = true
  last : ∀ t ∈ projection, isClauseBoundary t = false

/-- An `ORDER BY` of a query. -/
structure Orders (q before : Query) (p : Projection) (o : Ordering) (after : Query) : Prop where
  query : q = before ++ .projection p :: after
  ordering : p.ordering = some o

lemma Orders.toks {q before after : Query} {p : Projection} {o : Ordering}
    (h : Orders q before p o after) : Query.toks q = Query.toks before ++
      (p.keyword.1 :: p.body.toks) ++
        o.order.1 :: o.byWord.1 :: (o.keys.reading.toks ++ Query.toks after) := by
  obtain ⟨rfl, hordering⟩ := h
  simp [Query.toks, Query.reading, Clause.reading, Projection.reading, hordering,
    Ordering.reading, Word.reading]

/-- Two tokens of a query that read as `ORDER BY` are those of a projection. -/
lemma Query.orders_of_split {src : Text} {q : Query} (h : tokenize src = some (Query.toks q))
    {ahead rest : List Tok} {order byWord : Tok}
    (hsplit : Query.toks q = ahead ++ order :: byWord :: rest) (horder : order.kind = .ident)
    (hupper : order.upper = "ORDER".toList) (hby : byWord.upper = "BY".toList) :
    ∃ before p o after, Orders q before p o after ∧
      ahead = Query.toks before ++ p.keyword.1 :: p.body.toks ∧
      rest = o.keys.reading.toks ++ Query.toks after := by
  have hbyident : byWord.kind = .ident := by
    refine (placed_of_tokenize h).ident_of_upper ?_ hby (by decide)
    rw [hsplit]
    simp
  -- the readings of the two words
  obtain ⟨xs, zs, hreading, rfl, hzs⟩ := List.map_eq_append_iff.1 hsplit
  obtain ⟨⟨r, t⟩, zs, rfl, rfl, hrest⟩ := List.map_eq_cons_iff.1 hzs
  obtain ⟨⟨r', t'⟩, ys, rfl, rfl, rfl⟩ := List.map_eq_cons_iff.1 hrest
  have hadmits := (Query.sound q).admits
  have hchain := Query.chain q
  rw [hreading] at hadmits hchain
  have hok : ok r r' = true := (List.isChain_cons_cons.1 (List.isChain_append.1 hchain).2.1).1
  have hreads := reads_of_admits (hadmits (r, t) (by simp)) horder
  have hreads' := reads_of_admits (hadmits (r', t') (by simp)) hbyident
  rw [hupper] at hreads
  rw [hby] at hreads'
  obtain ⟨rfl, rfl⟩ := order_by_roles hok hreads hreads'
  obtain ⟨before, p, o, after, hq, hordering, -, rfl, hys⟩ := Query.ordering_of_split hreading
  obtain ⟨-, rfl⟩ := List.cons.inj hys
  exact ⟨before, p, o, after, ⟨hq, hordering⟩, toks_append _ _, toks_append _ _⟩

/-- **Projections.**  The rewriting sees the `ORDER BY`s of the query, with the part of the
projection and of the sort keys that it takes for them. -/
theorem mem_iter_query {src : Text} {q : Query} (h : tokenize src = some (Query.toks q)) {i : ℕ}
    {projection orderBy : List Tok} :
    (i, projection, orderBy) ∈ iterProjectionOrderBy (Query.toks q) ↔
      ∃ before p o after front w, Orders q before p o after ∧ Shown p front w projection ∧
        projection ≠ [] ∧ orderBy = body o.keys.reading.toks ∧ orderBy ≠ [] ∧
        i = (Query.toks before).length + front.length := by
  have hleveled := Query.leveled h
  rw [iterProjectionOrderBy, mem_iterFrom]
  constructor
  · rintro ⟨ahead, w, later, hsplit, rfl, hw, horder⟩
    obtain ⟨order, byWord, rest, rfl, hlast, hboundary, hupper, hby, hne, rfl, hkeys⟩ :=
      orderByOf_eq_some.1 horder
    have hident : order.kind = .ident := by
      simp only [isClauseBoundary, Bool.and_eq_true, decide_eq_true_eq] at hboundary
      exact hboundary.1.2
    have hsplit' : Query.toks q = (ahead ++ w :: projection) ++ order :: byWord :: rest := by
      rw [hsplit, List.append_assoc, List.cons_append]
    obtain ⟨before, p, o, after, horders, hahead, rfl⟩ :=
      Query.orders_of_split h hsplit' hident hupper hby
    obtain ⟨rfl, hordering⟩ := horders
    obtain ⟨hdepth, -, -, hafter⟩ := Query.leveled_parts hleveled
    rw [body_append_of_boundary (Query.boundary_head hafter)] at hkeys ⊢
    -- the keyword of the projection ends what stands before it
    have hkeyword := p.keyword.boundary_proj hdepth
    rcases List.append_eq_append_iff.1 hahead with ⟨zs, hbefore, hzs⟩ | ⟨front, rfl, hshown⟩
    · rcases zs with _ | ⟨z, zs⟩
      · rw [List.append_nil] at hbefore
        subst hbefore
        exact ⟨before, p, o, after, [], w, ⟨rfl, hordering⟩, ⟨hzs.symm, hw, hlast⟩, hne, rfl, hkeys,
          by simp⟩
      · obtain ⟨rfl, rfl⟩ := List.cons.inj hzs
        have hno := hlast p.keyword.1 (List.mem_append_right zs List.mem_cons_self)
        exact absurd (hno.symm.trans hkeyword) Bool.false_ne_true
    · exact ⟨before, p, o, after, front, w, ⟨rfl, hordering⟩, ⟨hshown, hw, hlast⟩, hne, rfl, hkeys,
        by simp⟩
  · rintro ⟨before, p, o, after, front, w, horders, ⟨hsplit, hw, hlast⟩, hne, rfl, hkeys, rfl⟩
    obtain ⟨rfl, hordering⟩ := id horders
    obtain ⟨-, -, hordered, hafter⟩ := Query.leveled_parts hleveled
    rw [hordering] at hordered
    have hboundary := o.order.boundary_order (Ordering.leveled_parts hordered).1
    obtain ⟨-, v, hv, hupper⟩ := word_of_admits rfl o.order.2
    obtain ⟨-, v', hv', hby⟩ := word_of_admits rfl o.byWord.2
    obtain rfl := List.mem_singleton.1 hv
    obtain rfl := List.mem_singleton.1 hv'
    refine ⟨Query.toks before ++ front, w,
      projection ++ o.order.1 :: o.byWord.1 :: (o.keys.reading.toks ++ Query.toks after),
      ?_, by simp, hw, orderByOf_eq_some.2 ⟨_, _, _, rfl, hlast, hboundary, hupper, hby, hne, ?_,
        hkeys⟩⟩
    · rw [horders.toks, hsplit]
      simp
    · rw [body_append_of_boundary (Query.boundary_head hafter)]

end PalaceDaemon.Cypher

/-
The aliases that the rewriting sees in a query.

`_alias_map` splits the tokens of a projection at the commas outside brackets and an item at its
last `AS` outside brackets.  For the items of a query of the fragment these are the commas and the
`AS` of the list, also when the beginning of the list is cut off (`get_aliasMap`): a property or a
label that is called `as` is followed by no name.  So the substitutions are those of
`mem_allSubstitutions`.
-/
import PalaceDaemon.Cypher.Projections

namespace PalaceDaemon.Cypher

open Grammar PyText

/-! ### The items of a projection -/

/-- An item of a projection, with what stands before its expression: a comma or `DISTINCT`. -/
structure Column where
  lead : Option Tok
  expr : List Tok
  title : Option (Tok × Tok)

/-- The expression of an item with its `AS` and alias. -/
def Column.item (c : Column) : List Tok :=
  c.expr ++ c.title.elim [] fun (as, name) => [as, name]

def Column.toks (c : Column) : List Tok := c.lead.toList ++ c.item

/-- The alias of the item is the name. -/
def Column.titled (c : Column) (name : Text) : Bool := c.title.any fun (_, t) => t.text = name

/-- The item defines the name. -/
def Column.defines (c : Column) (name : Text) : Bool := c.titled name && c.expr ≠ []

def Titled.column (lead : Option Tok) (t : Titled) : Column where
  lead := lead
  expr := t.item.reading.toks
  title := t.title.map fun (as, name) => (as.1, name.1)

/-- The items of a projection. -/
def Projection.columns (p : Projection) : List Column :=
  p.first.column (p.distinct.map Subtype.val) ::
    p.others.map fun (comma, t) => t.column (some comma.1)

/-- The text from the first token to the last one. -/
def wholeText (src : Text) (expr : List Tok) : Text :=
  match expr.head?, expr.getLast? with
  | some first, some last => slice src first.start last.stop
  | _, _ => []

/-- The expression that an alias of the projection stands for: that of the last item with the
alias. -/
def Projection.definition (p : Projection) (name : Text) : Option (List Tok) :=
  ((p.columns.filter (·.titled name)).getLast?).map Column.expr

lemma Titled.toks_column (t : Titled) (lead : Option Tok) :
    (t.column lead).toks = lead.toList ++ t.reading.toks := by
  rw [Column.toks, Column.item, Titled.reading, toks_append, Titled.column]
  rcases t.title with _ | ⟨as, name⟩ <;> rfl

lemma Projection.toks_columns (p : Projection) :
    p.columns.flatMap Column.toks = p.body.toks := by
  have hothers : (p.others.map fun (comma, t) => t.column (some comma.1)).flatMap Column.toks =
      Reading.toks (p.others.flatMap fun (comma, t) => comma.reading ++ t.reading) := by
    induction p.others with
    | nil => rfl
    | cons o others ih =>
        rw [List.map_cons, List.flatMap_cons, List.flatMap_cons, ih, Titled.toks_column,
          toks_append, toks_append]
        rfl
  rw [Projection.columns, List.flatMap_cons, hothers, Titled.toks_column, Projection.body,
    listReading, toks_append, toks_append, List.append_assoc]
  rcases p.distinct with _ | distinct <;> rfl

/-! ### The items that the rewriting sees -/

/-- What the rewriting sees of an item. -/
structure Column.Regular (c : Column) : Prop where
  comma : ∀ t ∈ c.expr, t.depth = 0 → t.isPunct ',' = false
  as_next : ∀ before as t after, c.expr = before ++ as :: t :: after → as.isWord "AS" = true →
    as.depth = 0 → t.kind = .ident → t.upper ∈ orderByKeywords
  with_next : ∀ before w t after, c.expr = before ++ w :: t :: after →
    isProjectionKeyword w = true → t.isWord "DISTINCT" = false
  as_title : ∀ as name, c.title = some (as, name) → as.isWord "AS" = true ∧ as.depth = 0
  name_title : ∀ as name, c.title = some (as, name) → name.kind = .ident ∧
    name.upper ≠ "AS".toList ∧ name.upper ∉ projectionKeywords
  name_depth : ∀ as name, c.title = some (as, name) → name.depth = 0

/-- The items are separated by commas, and the first one may have a `DISTINCT`. -/
structure Listed (c : Column) (others : List Column) : Prop where
  regular : ∀ d ∈ c :: others, d.Regular
  distinct : ∀ t ∈ c.lead, t.isWord "DISTINCT" = true
  no_distinct : c.lead = none → ∀ t ∈ c.item.head?, t.isWord "DISTINCT" = false
  commas : ∀ d ∈ others, ∃ t, d.lead = some t ∧ t.isPunct ',' = true ∧ t.depth = 0

lemma isPunct_of_ident {t : Tok} (h : t.kind = .ident) (c : Char) : t.isPunct c = false := by
  simp [Tok.isPunct, h]

lemma Column.Regular.comma_item {c : Column} (h : c.Regular) :
    ∀ t ∈ c.item, t.depth = 0 → t.isPunct ',' = false := by
  intro t ht hdepth
  rcases List.mem_append.1 ht with ht | ht
  · exact h.comma t ht hdepth
  · rcases htitle : c.title with _ | ⟨as, name⟩
    · simp [htitle] at ht
    · rw [htitle] at ht
      have has := (isWord_iff.1 (h.as_title as name htitle).1).1
      rcases List.mem_cons.1 ht with rfl | ht
      · exact isPunct_of_ident has ','
      · obtain rfl := List.mem_singleton.1 ht
        exact isPunct_of_ident (h.name_title as t htitle).1 ','

lemma splitTopLevel_item {item : List Tok}
    (h : ∀ t ∈ item, t.depth = 0 → t.isPunct ',' = false) (toks : List Tok) :
    splitTopLevel item = [item] ∧ ∀ comma : Tok, comma.isPunct ',' = true → comma.depth = 0 →
      splitTopLevel (item ++ comma :: toks) = item :: splitTopLevel toks := by
  induction item with
  | nil =>
      refine ⟨rfl, fun comma hcomma hdepth => ?_⟩
      rw [List.nil_append, splitTopLevel, if_pos ⟨hcomma, hdepth⟩]
  | cons t item ih =>
      obtain ⟨hone, happend⟩ := ih fun u hu => h u (List.mem_cons_of_mem t hu)
      have ht : ¬(t.isPunct ',' = true ∧ t.depth = 0) := fun ⟨hcomma, hdepth⟩ =>
        Bool.false_ne_true ((h t List.mem_cons_self hdepth).symm.trans hcomma)
      refine ⟨by rw [splitTopLevel, if_neg ht, hone], fun comma hcomma hdepth => ?_⟩
      rw [List.cons_append, splitTopLevel, if_neg ht, happend comma hcomma hdepth]

/-- The list is split at its commas. -/
lemma splitTopLevel_columns {c : Column} {others : List Column} (h : Listed c others) :
    splitTopLevel ((c :: others).flatMap Column.toks) = c.toks :: others.map Column.item := by
  -- what stands before the first comma is any item without commas
  have hfirst : ∀ item : List Tok, (∀ t ∈ item, t.depth = 0 → t.isPunct ',' = false) →
      splitTopLevel (item ++ others.flatMap Column.toks) = item :: others.map Column.item := by
    obtain ⟨hregular, -, -, hcommas⟩ := h
    induction others with
    | nil =>
        intro item hitem
        rw [List.flatMap_nil, List.append_nil, (splitTopLevel_item hitem []).1]
        rfl
    | cons d others ih =>
        intro item hitem
        obtain ⟨comma, hlead, hcomma, hdepth⟩ := hcommas d List.mem_cons_self
        have hregulars : ∀ e ∈ c :: others, e.Regular := fun e he => hregular e (by
          rcases List.mem_cons.1 he with rfl | he
          · exact List.mem_cons_self
          · exact List.mem_cons_of_mem _ (List.mem_cons_of_mem _ he))
        rw [List.flatMap_cons, Column.toks, hlead, Option.toList_some, List.append_assoc,
          List.singleton_append, (splitTopLevel_item hitem _).2 comma hcomma hdepth,
          ih hregulars (fun e he => hcommas e (List.mem_cons_of_mem d he)) d.item
            (hregular d (by simp)).comma_item]
        rfl
  rw [List.flatMap_cons]
  refine hfirst c.toks fun t ht hdepth => ?_
  rcases List.mem_append.1 ht with ht | ht
  · have hdistinct := h.distinct t (Option.mem_toList.1 ht)
    exact isPunct_of_ident (isWord_iff.1 hdistinct).1 ','
  · exact (h.regular c List.mem_cons_self).comma_item t ht hdepth

lemma dropDistinct_columns {c : Column} {others : List Column} (h : Listed c others) :
    dropDistinct c.toks = c.item := by
  rw [Column.toks]
  rcases hlead : c.lead with _ | d
  · rw [Option.toList_none, List.nil_append]
    rcases hitem : c.item with _ | ⟨t, item⟩
    · rfl
    · rw [dropDistinct, if_neg]
      rw [h.no_distinct hlead t (by rw [hitem]; rfl)]
      decide
  · rw [Option.toList_some, List.singleton_append, dropDistinct, if_pos (h.distinct d hlead)]

/-! ### The aliases of an item -/

lemma splitAs_title {as name : Tok} (has : as.isWord "AS" = true ∧ as.depth = 0)
    (hname : name.upper ≠ "AS".toList) (expr : List Tok) :
    splitAs (expr ++ [as, name]) = some (expr, some name) := by
  induction expr with
  | nil =>
      have hno : ¬(name.isWord "AS" = true ∧ name.depth = 0) := fun h => hname (isWord_iff.1 h.1).2
      simp only [List.nil_append, splitAs, if_neg hno, if_pos has, List.head?_cons]
  | cons t expr ih => rw [List.cons_append, splitAs, ih]

lemma splitAs_eq_some {toks expr : List Tok} {name : Option Tok}
    (h : splitAs toks = some (expr, name)) : ∃ as after, toks = expr ++ as :: after ∧
      as.isWord "AS" = true ∧ as.depth = 0 ∧ name = after.head? := by
  induction toks generalizing expr name with
  | nil => cases h
  | cons t toks ih =>
      rw [splitAs] at h
      rcases hsplit : splitAs toks with _ | ⟨expr', name'⟩
      · rw [hsplit] at h
        obtain ⟨⟨has, hdepth⟩, hsome⟩ := Option.ite_none_right_eq_some.1 h
        obtain ⟨rfl, rfl⟩ := Prod.mk.inj (Option.some.inj hsome)
        exact ⟨t, toks, rfl, has, hdepth, rfl⟩
      · rw [hsplit] at h
        obtain ⟨rfl, rfl⟩ := Prod.mk.inj (Option.some.inj h)
        obtain ⟨as, after, rfl, has, hdepth, hname⟩ := ih hsplit
        exact ⟨as, after, rfl, has, hdepth, hname⟩

/-- Between the tokens of an expression there are no blanks to strip. -/
lemma expressionText_eq {src : Text} {expr : List Tok} (h : Placed src expr) :
    expressionText src expr = wholeText src expr := by
  rw [expressionText, wholeText]
  rcases hfirst : expr.head? with _ | first
  · rfl
  · rcases hlast : expr.getLast? with _ | last
    · rfl
    · have hlt := h.lt_of_ends hfirst hlast
      have hle := (h.placed last (List.mem_of_getLast? hlast)).le
      refine strip_eq_self ?_ ?_
      · rw [head?_slice hlt]
        exact (h.ends (List.mem_of_mem_head? hfirst)).1
      · rw [getLast?_slice hlt hle]
        exact (h.ends (List.mem_of_getLast? hlast)).2

lemma length_wholeText {src : Text} {expr : List Tok} (h : Placed src expr) {first last : Tok}
    (hfirst : expr.head? = some first) (hlast : expr.getLast? = some last) :
    (wholeText src expr).length = last.stop - first.start := by
  rw [wholeText, hfirst, hlast]
  exact length_slice (h.placed last (List.mem_of_getLast? hlast)).le

lemma wholeText_ne_nil {src : Text} {expr : List Tok} (h : Placed src expr) (hne : expr ≠ []) :
    wholeText src expr ≠ [] := by
  obtain ⟨first, hfirst⟩ := Option.isSome_iff_exists.1 (List.isSome_head?.2 hne)
  obtain ⟨last, hlast⟩ := Option.isSome_iff_exists.1 (List.getLast?_isSome.2 hne)
  have hlt := h.lt_of_ends hfirst hlast
  have hlength := length_wholeText h hfirst hlast
  rw [← List.length_pos_iff]
  omega

/-- The entry of an item, or one under a word of sort keys. -/
lemma aliasOf_item {src : Text} {c : Column} (h : c.Regular) (hplaced : Placed src c.expr)
    {name : Text} (hname : name.map Char.toUpper ∉ orderByKeywords) :
    (aliasOf src c.item).filter (fun entry => entry.1 = name) =
      if c.defines name then some (name, wholeText src c.expr) else none := by
  rcases htitle : c.title with _ | ⟨as, t⟩
  · -- without an alias, the last word `as` is followed by a keyword
    have hitem : c.item = c.expr := by rw [Column.item, htitle]; exact List.append_nil _
    have hno : c.titled name = false := by rw [Column.titled, htitle]; rfl
    rw [hitem, Column.defines, hno, Bool.false_and, if_neg Bool.false_ne_true, aliasOf]
    split
    · rename_i expression u hsplit
      obtain ⟨as, after, hexpr, has, hdepth, hhead⟩ := splitAs_eq_some hsplit
      split_ifs with hentry
      · obtain ⟨after, rfl⟩ : ∃ rest, after = u :: rest := by
          cases after with
          | nil => cases hhead
          | cons v rest => exact ⟨rest, by rw [Option.some.inj hhead]⟩
        have hword := h.as_next expression as u after hexpr has hdepth hentry.2.1
        have hne : u.text ≠ name := by
          rintro rfl
          exact hname hword
        simp [hne]
      · rfl
    · rfl
  · have hitem : c.item = c.expr ++ [as, t] := by rw [Column.item, htitle]; rfl
    have htitled : c.titled name = decide (t.text = name) := by rw [Column.titled, htitle]; rfl
    obtain ⟨hkind, hupper, -⟩ := h.name_title as t htitle
    rw [hitem, Column.defines, htitled, aliasOf, splitAs_title (h.as_title as t htitle) hupper]
    by_cases hexpr : c.expr = []
    · simp [hexpr]
    · have htext : expressionText src c.expr ≠ [] := by
        rw [expressionText_eq hplaced]
        exact wholeText_ne_nil hplaced hexpr
      have hentry : c.expr ≠ [] ∧ t.kind = .ident ∧ expressionText src c.expr ≠ [] :=
        ⟨hexpr, hkind, htext⟩
      simp only [if_pos hentry]
      by_cases ht : t.text = name
      · simp [ht, hexpr, expressionText_eq hplaced]
      · simp [ht]

/-- **Aliases.**  Under a name that is no word of sort keys, the rewriting finds the expression of
the last item with this alias. -/
theorem get_aliasMap {src : Text} {c : Column} {others : List Column} (h : Listed c others)
    (hplaced : Placed src ((c :: others).flatMap Column.toks)) {name : Text}
    (hname : name.map Char.toUpper ∉ orderByKeywords) :
    get (aliasMap src ((c :: others).flatMap Column.toks)) name =
      (((c :: others).filter (·.defines name)).getLast?).map fun d => wholeText src d.expr := by
  have hplaced' : ∀ d ∈ c :: others, Placed src d.expr := by
    intro d hd
    obtain ⟨before, after, hsplit⟩ := List.append_of_mem hd
    rw [hsplit, List.flatMap_append, List.flatMap_cons, Column.toks, Column.item] at hplaced
    refine hplaced.sublist (.trans ?_ (List.sublist_append_right _ _))
    refine .trans ?_ (List.sublist_append_left _ _)
    exact (List.sublist_append_left _ _).trans (List.sublist_append_right _ _)
  rw [aliasMap, splitTopLevel_columns h]
  simp only [dropDistinct_columns h]
  rw [← List.map_cons, List.filterMap_map, get, List.filter_filterMap]
  have hentries : ∀ l : List Column, (∀ d ∈ l, d.Regular ∧ Placed src d.expr) →
      l.filterMap (fun d => ((aliasOf src ∘ Column.item) d).filter fun entry => entry.1 = name) =
        (l.filter (·.defines name)).map fun d => (name, wholeText src d.expr) := by
    intro l hl
    induction l with
    | nil => rfl
    | cons d l ih =>
        obtain ⟨hregular, hplaced⟩ := hl d List.mem_cons_self
        rw [List.filterMap_cons, Function.comp_apply, aliasOf_item hregular hplaced hname,
          ih fun e he => hl e (List.mem_cons_of_mem d he)]
        rw [List.filter_cons]
        split_ifs <;> rfl
  rw [hentries _ fun d hd => ⟨h.regular d hd, hplaced' d hd⟩, List.getLast?_map, Option.map_map]
  rfl

/-! ### The items of a list -/

/-- The items of a projection as `_alias_map` sees them. -/
def itemsOf (projection : List Tok) : List (List Tok) :=
  match splitTopLevel projection with
  | [] => []
  | first :: items => dropDistinct first :: items

lemma aliasMap_eq (src : Text) (projection : List Tok) :
    aliasMap src projection = (itemsOf projection).filterMap (aliasOf src) := by
  rw [aliasMap, itemsOf]
  rcases splitTopLevel projection with _ | ⟨first, items⟩ <;> rfl

lemma mem_of_get {entries : List (Text × Text)} {name text : Text}
    (h : get entries name = some text) : (name, text) ∈ entries := by
  obtain ⟨entry, hlast, rfl⟩ := Option.map_eq_some_iff.1 h
  obtain ⟨hmem, hname⟩ := List.mem_filter.1 (List.mem_of_getLast? hlast)
  obtain rfl := of_decide_eq_true hname
  exact hmem

lemma isSome_get {entries : List (Text × Text)} {name text : Text} (h : (name, text) ∈ entries) :
    (get entries name).isSome := by
  rw [get, Option.isSome_map, List.getLast?_isSome]
  exact List.ne_nil_of_mem (List.mem_filter.2 ⟨h, decide_eq_true rfl⟩)

/-- The first item stands at the beginning, and the others behind a comma. -/
lemma splitTopLevel_parts (toks : List Tok) :
    (∃ after, toks = (splitTopLevel toks).headD [] ++ after) ∧
    ∀ item ∈ (splitTopLevel toks).tail, ∃ before comma after,
      toks = before ++ comma :: item ++ after ∧ comma.isPunct ',' = true ∧ comma.depth = 0 := by
  induction toks with
  | nil => exact ⟨⟨[], rfl⟩, fun item hitem => absurd hitem List.not_mem_nil⟩
  | cons t toks ih =>
      obtain ⟨⟨after, hfirst⟩, hrest⟩ := ih
      rw [splitTopLevel]
      by_cases hcomma : t.isPunct ',' = true ∧ t.depth = 0
      · rw [if_pos hcomma]
        -- the first item is empty, and the one that was first stands behind this comma
        refine ⟨⟨t :: toks, rfl⟩, fun item hitem => ?_⟩
        rw [List.tail_cons] at hitem
        rcases hsplit : splitTopLevel toks with _ | ⟨first, items⟩
        · rw [hsplit] at hitem
          exact absurd hitem List.not_mem_nil
        · rw [hsplit] at hitem hfirst hrest
          rcases List.mem_cons.1 hitem with rfl | hitem
          · exact ⟨[], t, after, congrArg (t :: ·) hfirst, hcomma⟩
          · obtain ⟨before, comma, after, htoks, hcomma⟩ := hrest item hitem
            exact ⟨t :: before, comma, after, congrArg (t :: ·) htoks, hcomma⟩
      · rw [if_neg hcomma]
        rcases hsplit : splitTopLevel toks with _ | ⟨first, items⟩
        · exact ⟨⟨toks, rfl⟩, fun item hitem => absurd hitem List.not_mem_nil⟩
        · rw [hsplit] at hfirst hrest
          refine ⟨⟨after, congrArg (t :: ·) hfirst⟩, fun item hitem => ?_⟩
          obtain ⟨before, comma, after, htoks, hcomma⟩ := hrest item hitem
          exact ⟨t :: before, comma, after, congrArg (t :: ·) htoks, hcomma⟩

/-- Before an item stands a comma, or at most the `DISTINCT` at the beginning. -/
lemma mem_itemsOf {projection item : List Tok} (h : item ∈ itemsOf projection) :
    ∃ before after, projection = before ++ item ++ after ∧ (before = [] ∨
      (∃ t, before = [t] ∧ t.isWord "DISTINCT" = true) ∨
      ∃ before' t, before = before' ++ [t] ∧ t.isPunct ',' = true ∧ t.depth = 0) := by
  obtain ⟨⟨rest, hfirst⟩, hothers⟩ := splitTopLevel_parts projection
  rw [itemsOf] at h
  rcases hsplit : splitTopLevel projection with _ | ⟨first, items⟩
  · rw [hsplit] at h
    exact absurd h List.not_mem_nil
  · rw [hsplit] at h hfirst hothers
    rw [List.headD_cons] at hfirst
    rcases List.mem_cons.1 h with rfl | h
    · rcases first with _ | ⟨t, first⟩
      · exact ⟨[], rest, hfirst, .inl rfl⟩
      · rw [dropDistinct]
        split_ifs with hdistinct
        · exact ⟨[t], rest, hfirst, .inr (.inl ⟨t, rfl, hdistinct⟩)⟩
        · exact ⟨[], rest, hfirst, .inl rfl⟩
    · obtain ⟨before, t, after, heq, hcomma⟩ := hothers item h
      exact ⟨before ++ [t], after, by rw [heq]; simp, .inr (.inr ⟨before, t, rfl, hcomma⟩)⟩

end PalaceDaemon.Cypher

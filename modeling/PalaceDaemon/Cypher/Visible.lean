/-
The substitutions of a query.

The list of a projection that the rewriting sees is the list of the query, or what is left of it
after a word inside an expression that reads as `RETURN` or `WITH` (`Visible`): the items after the
one with this word, and the end of its expression, with its alias.
-/
import PalaceDaemon.Cypher.Columns

namespace PalaceDaemon.Cypher

open Grammar PyText

/-! ### The items of a query -/

/-- The word is read as a word of sort keys only. -/
def Role.sortWord (r : Role) : Bool := match r.shape with
  | .keywords ws => ws.all fun w => w.toList ∈ orderByKeywords
  | .values | .marks _ => true
  | .names | .words => false

lemma mem_orderByKeywords {r : Role} {t : Tok} (hr : r.sortWord = true) (h : r.admits t = true)
    (hkind : t.kind = .ident) : t.upper ∈ orderByKeywords := by
  have hreads := reads_of_admits h hkind
  rw [Role.reads] at hreads
  rw [Role.sortWord] at hr
  cases hshape : r.shape with
  | keywords ws =>
      rw [hshape] at hr hreads
      obtain ⟨w, hw, hword⟩ := List.any_eq_true.1 hreads
      rw [of_decide_eq_true hword]
      exact of_decide_eq_true (List.all_eq_true.1 hr w hw)
  | values | marks =>
      rw [hshape] at hreads
      exact absurd hreads (by simp [Shape.reads])
  | names | words =>
      rw [hshape] at hr
      exact absurd hr Bool.false_ne_true

/-- After a word `as` that is no keyword stands no name. -/
lemma as_roles {a b : Role} (hok : ok a b = true) (ha : a.inner = true) (hb : b.inner = true)
    (has : a.reads "AS".toList = true) : b.sortWord = true ∨ b = .whereKw := by
  revert hok ha hb has
  cases a
  case key | label | mapKey => cases b <;> decide
  all_goals exact fun _ ha _ has => absurd (And.intro ha has) (by decide)

/-- After a word `with` or `return` in an expression stands no `DISTINCT`. -/
lemma distinct_roles {a b : Role} (hok : ok a b = true) (ha : a.inner = true)
    (hword : a.reads "RETURN".toList = true ∨ a.reads "WITH".toList = true)
    (hb : b.reads "DISTINCT".toList = true) : False := by
  revert hok ha hword hb
  cases b
  case key | label | mapKey | field | distinctKw => cases a <;> decide
  all_goals exact fun _ _ _ hb => absurd hb (by decide)

/-- The mark may play the role. -/
def Role.marked (r : Role) (c : Char) : Bool := match r.shape with
  | .marks cs => c ∈ cs
  | _ => false

lemma marked_of_admits {r : Role} {t : Tok} {c : Char} (h : r.admits t = true)
    (ht : t.isPunct c = true) : r.marked c = true := by
  obtain ⟨hkind, htext⟩ : t.kind = .punct ∧ t.text = [c] := by simpa [Tok.isPunct] using ht
  rw [Role.admits] at h
  rw [Role.marked]
  cases hshape : r.shape with
  | marks cs =>
      rw [hshape] at h
      obtain ⟨d, hd, hmark⟩ := List.any_eq_true.1 h
      obtain rfl : c = d := by simpa [Tok.isPunct, hkind, htext] using hmark
      exact decide_eq_true hd
  | names | words | values | keywords =>
      rw [hshape] at h
      simp [Shape.admits, Tok.isWord, Tok.isQuotedName, hkind] at h

lemma comma_of_admits {r : Role} {t : Tok} (h : r.admits t = true) (ht : t.isPunct ',' = true) :
    r = .comma := by
  have hmarked := marked_of_admits h ht
  revert hmarked
  cases r <;> decide

lemma reads_of_isWord {r : Role} {t : Tok} {word : String} (h : r.admits t = true)
    (hword : t.isWord word = true) : r.reads word.toList = true := by
  obtain ⟨hkind, hupper⟩ := isWord_iff.1 hword
  rw [← hupper]
  exact reads_of_admits h hkind

lemma Leveled.depth_next {xs ys : Reading} {x y : Role × Tok} (h : Leveled (xs ++ x :: y :: ys))
    (hx : x.1.side = .inside) (hy : y.1.side = .inside) : y.2.depth = x.2.depth := by
  rw [Leveled, levels_append, List.map_append] at h
  have hrest := List.append_inj_right h (by rw [length_levels, List.length_map])
  rw [levels, show sideAt x = .inside from hx] at hrest
  simp only [levels, show sideAt y = .inside from hy, List.map_cons, List.cons.injEq,
    Prod.mk.injEq, true_and] at hrest
  rw [← hrest.1, ← hrest.2.1]

lemma Titled.leveled_parts {t : Titled} (h : Leveled t.reading) :
    Leveled t.item.reading ∧ ∀ as name, t.title = some (as, name) → as.1.depth = 0 ∧
      name.1.depth = 0 := by
  obtain ⟨hitem, htitle⟩ := Leveled.append h t.item.flat
  refine ⟨hitem, fun as name heq => ?_⟩
  rw [heq, titleReading] at htitle
  obtain ⟨has, hname⟩ := htitle.append (as.sound rfl).flat
  exact ⟨as.depth rfl has, name.depth rfl hname⟩

/-- Two neighbours in the expression of an item, with their roles. -/
lemma Part.split_pair {n : Phrase} (p : Part n) {before after : List Tok} {t u : Tok}
    (h : p.reading.toks = before ++ t :: u :: after) :
    ∃ xs r r' ys, p.reading = xs ++ (r, t) :: (r', u) :: ys ∧ ok r r' = true ∧
      r.admits t = true ∧ r'.admits u = true := by
  obtain ⟨xs, zs, hreading, -, hzs⟩ := List.map_eq_append_iff.1
    (show p.reading.map Prod.snd = before ++ t :: u :: after from h)
  obtain ⟨⟨r, t⟩, zs, rfl, rfl, hrest⟩ := List.map_eq_cons_iff.1 hzs
  obtain ⟨⟨r', u⟩, ys, rfl, rfl, -⟩ := List.map_eq_cons_iff.1 hrest
  have hchain := p.chain
  have hadmits := p.admits
  rw [hreading] at hchain hadmits
  exact ⟨xs, r, r', ys, hreading, (List.isChain_cons_cons.1 (List.isChain_append.1 hchain).2.1).1,
    hadmits (r, t) (by simp), hadmits (r', u) (by simp)⟩

lemma side_of_ident {r : Role} {t : Tok} (h : r.admits t = true) (hkind : t.kind = .ident) :
    r.side = .inside := by
  rw [← side_of_admits h, Tok.side, if_neg (by rw [hkind]; decide)]

lemma isProjectionKeyword_iff {t : Tok} : isProjectionKeyword t = true ↔
    t.depth = 0 ∧ t.kind = .ident ∧ (t.upper = "RETURN".toList ∨ t.upper = "WITH".toList) := by
  simp [isProjectionKeyword, projectionKeywords, and_assoc]

/-- After a word `as` outside the brackets of an item stands no name. -/
lemma Titled.as_next {t : Titled} (h : Leveled t.item.reading) {before after : List Tok}
    {as u : Tok} (hsplit : t.item.reading.toks = before ++ as :: u :: after)
    (has : as.isWord "AS" = true) (hdepth : as.depth = 0) (hkind : u.kind = .ident) :
    u.upper ∈ orderByKeywords := by
  obtain ⟨xs, r, r', ys, hreading, hok, hr, hr'⟩ := t.item.split_pair hsplit
  have hinner := t.item.inner rfl
  have hseparates := t.item.no_separator rfl h
  rw [hreading] at hinner hseparates h
  rcases as_roles hok (hinner (r, as) (by simp)) (hinner (r', u) (by simp))
    (reads_of_isWord hr has) with hword | rfl
  · exact mem_orderByKeywords hword hr' hkind
  · -- a `WHERE` stands in brackets only
    have hnext : u.depth = as.depth := h.depth_next (side_of_ident hr (isWord_iff.1 has).1) rfl
    have hno := hseparates (.whereKw, u) (by simp) (hnext.trans hdepth)
    exact Bool.noConfusion (show true = false from hno)

lemma Titled.with_next {t : Titled} {before after : List Tok} {w u : Tok}
    (hsplit : t.item.reading.toks = before ++ w :: u :: after)
    (hw : isProjectionKeyword w = true) : u.isWord "DISTINCT" = false := by
  obtain ⟨xs, r, r', ys, hreading, hok, hr, hr'⟩ := t.item.split_pair hsplit
  have hinner := t.item.inner rfl
  rw [hreading] at hinner
  obtain ⟨-, hkind, hupper⟩ := isProjectionKeyword_iff.1 hw
  have hreads := reads_of_admits hr hkind
  refine Bool.eq_false_iff.2 fun hword => ?_
  refine distinct_roles hok (hinner (r, w) (by simp)) ?_ (reads_of_isWord hr' hword)
  rcases hupper with hupper | hupper <;> rw [hupper] at hreads
  · exact .inl hreads
  · exact .inr hreads

lemma Titled.regular {t : Titled} (h : Leveled t.reading) (lead : Option Tok) :
    (t.column lead).Regular := by
  obtain ⟨hitem, htitle⟩ := Titled.leveled_parts h
  constructor
  · intro u hu hdepth
    obtain ⟨⟨r, u⟩, hmem, rfl⟩ := List.mem_map.1 hu
    refine Bool.eq_false_iff.2 fun hcomma => ?_
    obtain rfl := comma_of_admits (t.item.admits _ hmem) hcomma
    have hno := t.item.no_separator rfl hitem _ hmem hdepth
    exact Bool.noConfusion (show true = false from hno)
  · exact fun before as u after => Titled.as_next hitem
  · exact fun before w u after => Titled.with_next
  · rintro as name heq
    obtain ⟨⟨as, name⟩, heq', hpair⟩ := Option.map_eq_some_iff.1 heq
    obtain ⟨rfl, rfl⟩ := Prod.mk.inj hpair
    obtain ⟨hkind, w, hw, hupper⟩ := word_of_admits rfl as.2
    obtain rfl := List.mem_singleton.1 hw
    exact ⟨isWord_iff.2 ⟨hkind, hupper⟩, (htitle as name heq').1⟩
  · rintro as name heq
    obtain ⟨⟨as, name⟩, -, hpair⟩ := Option.map_eq_some_iff.1 heq
    obtain ⟨rfl, rfl⟩ := Prod.mk.inj hpair
    obtain ⟨hkind, hupper⟩ : name.1.kind = .ident ∧
        (name.1.upper ∉ reserved ∨ name.1.upper ∈ unreserved) := by
      simpa [Role.admits, Role.shape, Shape.admits] using name.2
    refine ⟨hkind, ?_, ?_⟩
    · rintro hword
      rw [hword] at hupper
      exact absurd hupper (by decide)
    · rintro hword
      refine absurd hupper ?_
      exact (by decide : ∀ w ∈ projectionKeywords, ¬(w ∉ reserved ∨ w ∈ unreserved)) _ hword
  · rintro as name heq
    obtain ⟨⟨as, name⟩, heq', hpair⟩ := Option.map_eq_some_iff.1 heq
    obtain ⟨rfl, rfl⟩ := Prod.mk.inj hpair
    exact (htitle as name heq').2

lemma first_no_distinct : ∀ r ∈ first .item, r.reads "DISTINCT".toList = false := by decide

lemma Part.head {n : Phrase} (p : Part n) : ∃ x ∈ p.reading.head?, x.1 ∈ first n := by
  obtain ⟨r, hr, hmem⟩ := (chain_of_derives neighbours p.derives).1
  rw [List.head?_map] at hr
  obtain ⟨x, hx, rfl⟩ := Option.map_eq_some_iff.1 hr
  exact ⟨x, hx, hmem⟩

lemma isPunct_comma (w : Word .comma) : w.1.isPunct ',' = true := by
  have hadmits := w.2
  simpa [Role.admits, Role.shape, Shape.admits] using hadmits

/-- The items of a projection are separated by commas. -/
lemma Projection.listed {p : Projection} (h : Leveled p.body) :
    ∃ c others, p.columns = c :: others ∧ Listed c others := by
  -- every item has the depth 0, and so have the commas
  have hdistinct : Flat (p.distinct.elim [] Word.reading) := by
    rcases p.distinct with _ | distinct
    · rfl
    · exact (distinct.sound rfl).flat
  obtain ⟨-, hlist⟩ := Leveled.append h hdistinct
  obtain ⟨hfirst, hothers⟩ := Leveled.append hlist p.first.sound.flat
  have hothers' : ∀ o ∈ p.others, o.1.1.depth = 0 ∧ Leveled o.2.reading := by
    intro o ho
    obtain ⟨before, after, hsplit⟩ := List.append_of_mem ho
    rw [hsplit, List.flatMap_append, List.flatMap_cons] at hothers
    have hflat : ∀ l : List (Word .comma × Titled),
        Flat (l.flatMap fun o => o.1.reading ++ o.2.reading) := fun l =>
      (Sound.flatMap fun o _ => (o.1.sound rfl).append o.2.sound).flat
    obtain ⟨-, hrest⟩ := hothers.append (hflat before)
    obtain ⟨hone, -⟩ := hrest.append ((o.1.sound rfl).append o.2.sound).flat
    obtain ⟨hcomma, htitled⟩ := hone.append (o.1.sound rfl).flat
    exact ⟨o.1.depth rfl hcomma, htitled⟩
  refine ⟨_, _, rfl, ⟨?_, ?_, ?_, ?_⟩⟩
  · rintro d hd
    rcases List.mem_cons.1 hd with rfl | hd
    · exact Titled.regular hfirst _
    · obtain ⟨o, ho, rfl⟩ := List.mem_map.1 hd
      exact Titled.regular (hothers' o ho).2 _
  · rintro t ht
    obtain ⟨w, -, rfl⟩ := Option.map_eq_some_iff.1 ht
    obtain ⟨hkind, v, hv, hupper⟩ := word_of_admits rfl w.2
    obtain rfl := List.mem_singleton.1 hv
    exact isWord_iff.2 ⟨hkind, hupper⟩
  · rintro - t ht
    obtain ⟨x, hx, hmem⟩ := p.first.item.head
    have hxmem := List.mem_of_mem_head? hx
    obtain rfl : x.2 = t := by
      obtain ⟨xs, hxs⟩ : ∃ xs, p.first.item.reading = x :: xs := List.head?_eq_some_iff.1 hx
      simpa [Column.item, Titled.column, hxs] using ht
    refine Bool.eq_false_iff.2 fun hword => ?_
    have hreads := reads_of_isWord (p.first.item.admits x hxmem) hword
    exact Bool.false_ne_true ((first_no_distinct _ hmem).symm.trans hreads)
  · rintro d hd
    obtain ⟨o, ho, rfl⟩ := List.mem_map.1 hd
    exact ⟨o.1.1, rfl, isPunct_comma o.1, (hothers' o ho).1⟩

/-! ### What the rewriting sees of a projection -/

lemma Column.Regular.cut {c : Column} (h : c.Regular) {front rest : List Tok} {w : Tok}
    (hexpr : c.expr = front ++ w :: rest) : (Column.mk none rest c.title).Regular where
  comma t ht := h.comma t (by rw [hexpr]; simp [show t ∈ rest from ht])
  as_next before as t after hsplit :=
    h.as_next (front ++ w :: before) as t after (by rw [hexpr, show rest = _ from hsplit]; simp)
  with_next before v t after hsplit :=
    h.with_next (front ++ w :: before) v t after (by rw [hexpr, show rest = _ from hsplit]; simp)
  as_title := h.as_title
  name_title := h.name_title
  name_depth := h.name_depth

lemma Listed.cut {c d : Column} {others earlier later : List Column} (h : Listed c others)
    (hsplit : c :: others = earlier ++ d :: later) {front rest : List Tok} {w : Tok}
    (hexpr : d.expr = front ++ w :: rest) (hw : isProjectionKeyword w = true) :
    Listed ⟨none, rest, d.title⟩ later := by
  have hregular : ∀ e ∈ d :: later, e.Regular := fun e he =>
    h.regular e (by rw [hsplit]; exact List.mem_append_right earlier he)
  have hd := hregular d List.mem_cons_self
  have hlater : ∀ e ∈ later, e ∈ others := by
    intro e he
    rcases earlier with _ | ⟨c', earlier⟩
    · rwa [(List.cons.inj hsplit).2]
    · rw [(List.cons.inj hsplit).2]
      exact List.mem_append_right earlier (List.mem_cons_of_mem d he)
  refine ⟨?_, nofun, fun _ t ht => ?_, fun e he => h.commas e (hlater e he)⟩
  · rintro e he
    rcases List.mem_cons.1 he with rfl | he
    · exact hd.cut hexpr
    · exact hregular e (List.mem_cons_of_mem d he)
  · cases rest with
    | cons u rest =>
        obtain rfl : u = t := by simpa [Column.item] using ht
        exact hd.with_next front w u rest hexpr hw
    | nil =>
        rcases htitle : d.title with _ | ⟨as, name⟩
        · simp [Column.item, htitle] at ht
        · obtain rfl : as = t := by simpa [Column.item, htitle] using ht
          obtain ⟨-, hupper⟩ := isWord_iff.1 (hd.as_title as name htitle).1
          simp [Tok.isWord, hupper]

/-- The items that the rewriting sees after a word, with the tokens before it: all of them after
the keyword, or what a word in an expression leaves. -/
inductive Visible (p : Projection) : List Tok → Tok → Column → List Column → Prop
  | whole {c others} : p.columns = c :: others → Visible p [] p.keyword.1 c others
  | cut {earlier c later front w rest} : p.columns = earlier ++ c :: later →
      c.expr = front ++ w :: rest → isProjectionKeyword w = true →
      Visible p (p.keyword.1 :: (earlier.flatMap Column.toks ++ (c.lead.toList ++ front))) w
        ⟨none, rest, c.title⟩ later

lemma Visible.listed {p : Projection} (hlevels : Leveled p.body) {front : List Tok} {w : Tok}
    {c : Column} {others : List Column} (h : Visible p front w c others) : Listed c others := by
  obtain ⟨c', others', hcolumns, hlisted⟩ := Projection.listed hlevels
  cases h with
  | whole hsplit =>
      obtain ⟨rfl, rfl⟩ := List.cons.inj (hcolumns.symm.trans hsplit)
      exact hlisted
  | cut hsplit hexpr hw => exact hlisted.cut (hcolumns.symm.trans hsplit) hexpr hw

/-- An element that is not in the first list is in the second one. -/
lemma split_right {α : Type} {xs ys front rest : List α} {w : α}
    (h : xs ++ ys = front ++ w :: rest) (hw : w ∉ xs) :
    ∃ zs, front = xs ++ zs ∧ ys = zs ++ w :: rest := by
  rcases List.append_eq_append_iff.1 h with ⟨zs, hfront, hys⟩ | ⟨zs, hxs, hrest⟩
  · exact ⟨zs, hfront, hys⟩
  · cases zs with
    | nil => exact ⟨[], by rw [hxs, List.append_nil, List.append_nil], hrest.symm⟩
    | cons z zs =>
        obtain ⟨rfl, -⟩ := List.cons.inj hrest
        exact absurd (by rw [hxs]; simp) hw

/-- An element that is not in the second list is in the first one. -/
lemma split_left {α : Type} {xs ys front rest : List α} {w : α}
    (h : xs ++ ys = front ++ w :: rest) (hw : w ∉ ys) :
    ∃ zs, xs = front ++ w :: zs ∧ rest = zs ++ ys := by
  rcases List.append_eq_append_iff.1 h with ⟨zs, -, hys⟩ | ⟨zs, hxs, hrest⟩
  · exact absurd (by rw [hys]; simp) hw
  · cases zs with
    | nil => exact absurd (by rw [← List.nil_append ys, ← hrest]; simp) hw
    | cons z zs =>
        obtain ⟨rfl, rfl⟩ := List.cons.inj hrest
        exact ⟨zs, hxs, rfl⟩

/-- A word in an item that reads as `RETURN` or `WITH` stands in its expression. -/
lemma Column.mem_expr {c : Column} (h : c.Regular)
    (hlead : ∀ t ∈ c.lead, t.isWord "DISTINCT" = true ∨ t.isPunct ',' = true)
    {front rest : List Tok} {w : Tok} (hw : isProjectionKeyword w = true)
    (hsplit : c.toks = front ++ w :: rest) :
    ∃ before after, c.expr = before ++ w :: after ∧ front = c.lead.toList ++ before ∧
      rest = (Column.mk none after c.title).toks := by
  obtain ⟨-, hkind, hupper⟩ := isProjectionKeyword_iff.1 hw
  have hnot_lead : w ∉ c.lead.toList := by
    intro hmem
    rcases hlead w (Option.mem_toList.1 hmem) with hdistinct | hcomma
    · rw [(isWord_iff.1 hdistinct).2] at hupper
      exact absurd hupper (by decide)
    · exact Bool.false_ne_true ((isPunct_of_ident hkind ',').symm.trans hcomma)
  have hnot_title : ∀ as name, c.title = some (as, name) → w ≠ as ∧ w ≠ name := by
    rintro as name htitle
    refine ⟨?_, ?_⟩
    · rintro rfl
      rw [(isWord_iff.1 (h.as_title w name htitle).1).2] at hupper
      exact absurd hupper (by decide)
    · rintro rfl
      refine (h.name_title as w htitle).2.2 ?_
      rcases hupper with hupper | hupper <;> rw [hupper] <;> decide
  have hnot_titles : w ∉ c.title.elim [] fun title => [title.1, title.2] := by
    rcases htitle : c.title with _ | ⟨as, name⟩
    · exact List.not_mem_nil
    · obtain ⟨has, hname⟩ := hnot_title as name htitle
      simp [has, hname]
  rw [Column.toks, Column.item] at hsplit
  obtain ⟨before, rfl, hitem⟩ := split_right hsplit hnot_lead
  obtain ⟨after, hexpr, rfl⟩ := split_left hitem hnot_titles
  exact ⟨before, after, hexpr, rfl, rfl⟩

lemma Listed.lead {c : Column} {others : List Column} (h : Listed c others) :
    ∀ d ∈ c :: others, ∀ t ∈ d.lead, t.isWord "DISTINCT" = true ∨ t.isPunct ',' = true := by
  rintro d hd t ht
  rcases List.mem_cons.1 hd with rfl | hd
  · exact .inl (h.distinct t ht)
  · obtain ⟨u, hlead, hcomma, -⟩ := h.commas d hd
    obtain rfl : u = t := Option.some.inj (hlead.symm.trans ht)
    exact .inr hcomma

/-- A word in a list that reads as `RETURN` or `WITH` stands in the expression of an item. -/
lemma mem_expr_of_split {columns : List Column} {front rest : List Tok} {w : Tok}
    (hregular : ∀ d ∈ columns, d.Regular)
    (hlead : ∀ d ∈ columns, ∀ t ∈ d.lead, t.isWord "DISTINCT" = true ∨ t.isPunct ',' = true)
    (hw : isProjectionKeyword w = true) (h : columns.flatMap Column.toks = front ++ w :: rest) :
    ∃ earlier d later before after, columns = earlier ++ d :: later ∧
      d.expr = before ++ w :: after ∧
      front = earlier.flatMap Column.toks ++ (d.lead.toList ++ before) ∧
      rest = (Column.mk none after d.title :: later).flatMap Column.toks := by
  induction columns generalizing front with
  | nil => exact absurd h (by simp)
  | cons c columns ih =>
      rw [List.flatMap_cons] at h
      have hlater : ∀ zs, front = c.toks ++ zs → columns.flatMap Column.toks = zs ++ w :: rest →
          ∃ earlier d later before after, c :: columns = earlier ++ d :: later ∧
            d.expr = before ++ w :: after ∧
            front = earlier.flatMap Column.toks ++ (d.lead.toList ++ before) ∧
            rest = (Column.mk none after d.title :: later).flatMap Column.toks := by
        rintro zs rfl hcolumns
        obtain ⟨earlier, d, later, before, after, rfl, hexpr, rfl, hrest⟩ :=
          ih (fun d hd => hregular d (List.mem_cons_of_mem c hd))
            (fun d hd => hlead d (List.mem_cons_of_mem c hd)) hcolumns
        exact ⟨c :: earlier, d, later, before, after, rfl, hexpr,
          by rw [List.flatMap_cons, List.append_assoc], hrest⟩
      rcases List.append_eq_append_iff.1 h with ⟨zs, hfront, hcolumns⟩ | ⟨zs, htoks, hrest⟩
      · exact hlater zs hfront hcolumns
      · cases zs with
        | nil => exact hlater [] (by rw [htoks, List.append_nil, List.append_nil]) hrest.symm
        | cons z zs =>
            obtain ⟨rfl, rfl⟩ := List.cons.inj hrest
            obtain ⟨before, after, hexpr, rfl, rfl⟩ :=
              Column.mem_expr (hregular c List.mem_cons_self) (hlead c List.mem_cons_self) hw htoks
            exact ⟨[], c, columns, before, after, rfl, hexpr, rfl, rfl⟩

/-- What the rewriting takes for the projection are the items that are visible. -/
lemma shown_iff {p : Projection} (hlevels : Leveled p.body) (hdepth : p.keyword.1.depth = 0)
    {front projection : List Tok} {w : Tok} :
    Shown p front w projection ↔ ∃ c others, Visible p front w c others ∧
      projection = (c :: others).flatMap Column.toks ∧
      ∀ t ∈ projection, isClauseBoundary t = false := by
  obtain ⟨c, others, hcolumns, hlisted⟩ := Projection.listed hlevels
  constructor
  · rintro ⟨hsplit, hw, hlast⟩
    rcases front with _ | ⟨keyword, front⟩
    · obtain ⟨rfl, rfl⟩ := List.cons.inj hsplit
      exact ⟨c, others, .whole hcolumns, by rw [← hcolumns, p.toks_columns], hlast⟩
    · obtain ⟨rfl, hbody⟩ := List.cons.inj hsplit
      rw [← p.toks_columns, hcolumns] at hbody
      obtain ⟨earlier, d, later, before, after, hitems, hexpr, rfl, rfl⟩ :=
        mem_expr_of_split hlisted.regular hlisted.lead hw hbody
      exact ⟨_, later, .cut (hcolumns.trans hitems) hexpr hw, rfl, hlast⟩
  · rintro ⟨c', others', hvisible, rfl, hlast⟩
    cases hvisible with
    | whole hsplit =>
        refine ⟨?_, p.keyword.isProjectionKeyword hdepth, hlast⟩
        rw [← hsplit, p.toks_columns]
        rfl
    | @cut earlier d _ front _ rest hsplit hexpr hw =>
        refine ⟨?_, hw, hlast⟩
        rw [← p.toks_columns, hsplit, List.flatMap_append, List.flatMap_cons, List.flatMap_cons,
          Column.toks, Column.toks, Column.item, hexpr]
        simp [Column.item]

/-! ### The substitutions -/

/-- The token stands in the list where it may refer to an alias. -/
def Refers (orderBy : List Tok) (t : Tok) : Prop :=
  ∃ before after, orderBy = before ++ t :: after ∧ mayRefer before.getLast? t after.head? = true

lemma mem_substitutionsFrom {aliases : List (Text × Text)} {orderBy : List Tok}
    {previous : Option Tok} {s : Substitution} :
    s ∈ substitutionsFrom aliases previous orderBy ↔ ∃ before t after text,
      orderBy = before ++ t :: after ∧
      mayRefer (before.getLast?.or previous) t after.head? = true ∧
      get aliases t.text = some text ∧ s = ⟨t.start, t.stop, '(' :: text ++ [')']⟩ := by
  induction orderBy generalizing previous with
  | nil =>
      constructor
      · exact fun h => absurd h List.not_mem_nil
      · rintro ⟨before, t, after, text, h, -⟩
        exact absurd h.symm (by simp)
  | cons u orderBy ih =>
      rw [substitutionsFrom, List.mem_append, ih]
      constructor
      · rintro (h | ⟨before, t, after, text, rfl, hrefer, hget, rfl⟩)
        · rcases hget : get aliases u.text with _ | text
          · simp [hget] at h
          · rw [hget] at h
            simp only at h
            split_ifs at h with hrefer
            · exact ⟨[], u, orderBy, text, rfl, hrefer, hget, List.mem_singleton.1 h⟩
            · exact absurd h List.not_mem_nil
        · refine ⟨u :: before, t, after, text, rfl, ?_, hget, rfl⟩
          rw [List.getLast?_cons]
          rcases hlast : before.getLast? with _ | v <;> simpa [hlast] using hrefer
      · rintro ⟨before, t, after, text, hsplit, hrefer, hget, rfl⟩
        cases before with
        | nil =>
            obtain ⟨rfl, rfl⟩ := List.cons.inj hsplit
            refine .inl ?_
            have hrefer' : mayRefer previous u orderBy.head? = true := by simpa using hrefer
            simp [hget, hrefer']
        | cons v before =>
            obtain ⟨rfl, rfl⟩ := List.cons.inj hsplit
            refine .inr ⟨before, t, after, text, rfl, ?_, hget, rfl⟩
            rw [List.getLast?_cons] at hrefer
            rcases hlast : before.getLast? with _ | v <;> simpa [hlast] using hrefer

lemma mem_substitutions {aliases : List (Text × Text)} {orderBy : List Tok} {s : Substitution} :
    s ∈ substitutions orderBy aliases ↔ ∃ t text, Refers orderBy t ∧
      get aliases t.text = some text ∧ s = ⟨t.start, t.stop, '(' :: text ++ [')']⟩ := by
  rw [substitutions, mem_substitutionsFrom]
  constructor
  · rintro ⟨before, t, after, text, hsplit, hrefer, hget, rfl⟩
    exact ⟨t, text, ⟨before, after, hsplit, by simpa using hrefer⟩, hget, rfl⟩
  · rintro ⟨t, text, ⟨before, after, hsplit, hrefer⟩, hget, rfl⟩
    exact ⟨before, t, after, text, hsplit, by simpa using hrefer, hget, rfl⟩

lemma get_unboundAliases {src : Text} {toks projection : List Tok} {i : ℕ} {name : Text} :
    get (unboundAliases src toks i projection) name =
      if name ∈ boundIdentifiers toks i then none else get (aliasMap src projection) name := by
  rw [get, get, unboundAliases, List.filter_filter]
  split_ifs with hbound
  · have hnone : (aliasMap src projection).filter (fun entry =>
        decide (entry.1 = name) && decide (entry.1 ∉ boundIdentifiers toks i)) = [] := by
      refine List.filter_eq_nil_iff.2 fun entry _ h => ?_
      simp only [Bool.and_eq_true, decide_eq_true_eq] at h
      exact h.2 (h.1 ▸ hbound)
    rw [hnone]
    rfl
  · congr 2
    refine List.filter_congr fun entry _ => ?_
    by_cases hentry : entry.1 = name
    · simp [hentry, hbound]
    · simp [hentry]

/-- An alias that the rewriting sees at an `ORDER BY` of a query: the item `d` defines it, among
the items that are visible after the word `w`, and the alias is no name that is bound there. -/
def Defines (q before : Query) (p : Projection) (d : Column) (name : Text) : Prop :=
  ∃ front w c others, Visible p front w c others ∧
    (∀ t ∈ (c :: others).flatMap Column.toks, isClauseBoundary t = false) ∧
    name ∉ boundIdentifiers (Query.toks q) ((Query.toks before).length + front.length) ∧
    ((c :: others).filter (·.defines name)).getLast? = some d

lemma Refers.not_sortWord {orderBy : List Tok} {t : Tok} (h : Refers orderBy t) :
    t.text.map Char.toUpper ∉ orderByKeywords := by
  obtain ⟨before, after, -, hrefer⟩ := h
  simp only [mayRefer, Bool.and_eq_true, decide_eq_true_eq] at hrefer
  exact hrefer.1.1.2

lemma Refers.mem {orderBy : List Tok} {t : Tok} (h : Refers orderBy t) : t ∈ orderBy := by
  obtain ⟨before, after, rfl, -⟩ := h
  exact List.mem_append_right before List.mem_cons_self

/-- The tokens of the visible items stand in the text. -/
lemma Visible.sublist {p : Projection} {front : List Tok} {w : Tok} {c : Column}
    {others : List Column} (h : Visible p front w c others) :
    ((c :: others).flatMap Column.toks).Sublist p.body.toks := by
  rw [← p.toks_columns]
  cases h with
  | whole hsplit => rw [hsplit]
  | @cut earlier d _ front _ rest hsplit hexpr hw =>
      rw [hsplit, List.flatMap_append, List.flatMap_cons, List.flatMap_cons]
      refine .trans (List.Sublist.append_right ?_ _) (List.sublist_append_right _ _)
      rw [Column.toks, Column.toks, Column.item, Column.item, hexpr]
      simp only [Option.toList_none, List.nil_append, List.append_assoc, List.cons_append]
      refine .trans ?_ (List.sublist_append_right _ _)
      exact .trans (List.sublist_cons_self w _) (List.sublist_append_right _ _)

lemma Orders.placed {src : Text} {q before after : Query} {p : Projection} {o : Ordering}
    (h : tokenize src = some (Query.toks q)) (horders : Orders q before p o after) :
    Placed src p.body.toks := by
  refine (placed_of_tokenize h).sublist ?_
  rw [horders.toks]
  refine .trans (.trans (List.sublist_cons_self _ _) (List.sublist_append_right _ _))
    (List.sublist_append_left _ _)

/-- **Substitutions.**  The rewriting replaces the references in the sort keys of the query to the
aliases that it sees, each by the expression of the item that it sees to define it. -/
theorem mem_allSubstitutions {src : Text} {q : Query} (h : tokenize src = some (Query.toks q))
    {s : Substitution} : s ∈ allSubstitutions src (Query.toks q) ↔
      ∃ before p o after d t, Orders q before p o after ∧ Refers (body o.keys.reading.toks) t ∧
        Defines q before p d t.text ∧
        s = ⟨t.start, t.stop, '(' :: wholeText src d.expr ++ [')']⟩ := by
  have hleveled := Query.leveled h
  simp only [allSubstitutions, List.mem_flatMap, Prod.exists, mem_iter_query h]
  constructor
  · rintro ⟨i, projection, orderBy,
      ⟨before, p, o, after, front, w, horders, hshown, -, rfl, -, rfl⟩, hmem⟩
    obtain ⟨t, text, hrefers, hget, rfl⟩ := mem_substitutions.1 hmem
    obtain ⟨hdepth, hbody, -, -⟩ := Query.leveled_parts (horders.query ▸ hleveled)
    obtain ⟨c, others, hvisible, rfl, hlast⟩ := (shown_iff hbody hdepth).1 hshown
    rw [get_unboundAliases] at hget
    obtain ⟨hbound, hget⟩ := Option.ite_none_left_eq_some.1 hget
    rw [get_aliasMap (hvisible.listed hbody) ((horders.placed h).sublist hvisible.sublist)
      hrefers.not_sortWord] at hget
    obtain ⟨d, hd, rfl⟩ := Option.map_eq_some_iff.1 hget
    exact ⟨before, p, o, after, d, t, horders, hrefers,
      ⟨front, w, c, others, hvisible, hlast, hbound, hd⟩, rfl⟩
  · rintro ⟨before, p, o, after, d, t, horders, hrefers,
      ⟨front, w, c, others, hvisible, hlast, hbound, hd⟩, rfl⟩
    obtain ⟨hdepth, hbody, -, -⟩ := Query.leveled_parts (horders.query ▸ hleveled)
    have hshown := (shown_iff hbody hdepth).2 ⟨c, others, hvisible, rfl, hlast⟩
    have hget := get_aliasMap (hvisible.listed hbody)
      ((horders.placed h).sublist hvisible.sublist) hrefers.not_sortWord
    rw [hd] at hget
    refine ⟨_, _, _, ⟨before, p, o, after, front, w, horders, hshown, ?_, rfl,
      List.ne_nil_of_mem hrefers.mem, rfl⟩, mem_substitutions.2 ⟨t, _, hrefers, ?_, rfl⟩⟩
    · -- the item has an expression
      have hmem := List.mem_filter.1 (List.mem_of_getLast? hd)
      have hexpr : d.expr ≠ [] := by
        have hdefines := hmem.2
        simp only [Column.defines, Bool.and_eq_true, decide_eq_true_eq] at hdefines
        exact hdefines.2
      obtain ⟨u, hu⟩ := List.exists_mem_of_ne_nil _ hexpr
      have hitem : u ∈ d.toks := List.mem_append_right _ (List.mem_append_left _ hu)
      exact List.ne_nil_of_mem (List.mem_flatMap.2 ⟨d, hmem.1, hitem⟩)
    · rw [get_unboundAliases, if_neg hbound, hget]
      rfl

end PalaceDaemon.Cypher

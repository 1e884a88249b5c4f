/-
Queries of the fragment.

A query is a list of clauses.  Those that the rewriting is about are the projections: a list of
items with their aliases, and perhaps an `ORDER BY` with its sort keys.
-/
import PalaceDaemon.Cypher.Fragment

namespace PalaceDaemon.Cypher

open Grammar

/-! ### Queries -/

/-- An item of a projection, with its alias. -/
structure Titled where
  item : Part .item
  title : Option (Word .asKw × Word .title)

/-- An `ORDER BY`. -/
structure Ordering where
  order : Word .orderKw
  byWord : Word .byKw
  keys : Part .keys

/-- A `RETURN` or `WITH`. -/
structure Projection where
  keyword : Word .projKw
  distinct : Option (Word .distinctKw)
  first : Titled
  others : List (Word .comma × Titled)
  ordering : Option Ordering

inductive Clause
  | projection (p : Projection)
  | other (keyword : Word .clauseKw) (rest : Option (Part .rest))

abbrev Query := List Clause

def Word.reading {r : Role} (w : Word r) : Reading := [(r, w.1)]

def titleReading : Option (Word .asKw × Word .title) → Reading
  | some (as, name) => as.reading ++ name.reading
  | none => []

def Titled.reading (t : Titled) : Reading := t.item.reading ++ titleReading t.title

/-- The items of a projection with their commas. -/
def listReading (first : Titled) (others : List (Word .comma × Titled)) : Reading :=
  first.reading ++ others.flatMap fun (comma, t) => comma.reading ++ t.reading

/-- What stands between the keyword of a projection and its `ORDER BY`. -/
def Projection.body (p : Projection) : Reading :=
  p.distinct.elim [] Word.reading ++ listReading p.first p.others

def Ordering.reading (o : Ordering) : Reading :=
  o.order.reading ++ o.byWord.reading ++ o.keys.reading

def Projection.reading (p : Projection) : Reading :=
  p.keyword.reading ++ p.body ++ p.ordering.elim [] Ordering.reading

def Clause.reading : Clause → Reading
  | .projection p => p.reading
  | .other keyword rest => keyword.reading ++ rest.elim [] Part.reading

def Query.reading (q : Query) : Reading := q.flatMap Clause.reading

/-- The tokens of a query. -/
def Query.toks (q : Query) : List Tok := (Query.reading q).toks

/-! ### The roles of a query -/

/-- The roles of a reading. -/
def Reading.roles (xs : Reading) : List Role := xs.map Prod.fst

@[simp] lemma roles_append (xs ys : Reading) :
    Reading.roles (xs ++ ys) = xs.roles ++ ys.roles := List.map_append

lemma Part.derives_roles {n : Phrase} (p : Part n) : Derives rules [phrase n] p.reading.roles :=
  p.derives

lemma Word.derives {r : Role} (w : Word r) : Derives rules [word r] w.reading.roles :=
  .terminal .nil

lemma Titled.derives (t : Titled) : Derives rules [phrase .titled] t.reading.roles := by
  rw [Titled.reading, roles_append]
  rcases t.title with _ | ⟨as, name⟩
  · exact .rule (.head _) (t.item.derives_roles.append .nil)
  · rw [titleReading, roles_append]
    exact .rule (.tail _ (.head _))
      (t.item.derives_roles.append (as.derives.append name.derives))

lemma derives_list (first : Titled) (others : List (Word .comma × Titled)) :
    Derives rules [phrase .list] (listReading first others).roles := by
  induction others generalizing first with
  | nil =>
      rw [listReading, roles_append]
      exact .rule (.head _) (first.derives.append .nil)
  | cons o others ih =>
      have hrest : listReading first (o :: others) =
          first.reading ++ (o.1.reading ++ listReading o.2 others) := by
        simp only [listReading, List.flatMap_cons, List.append_assoc]
      rw [hrest, roles_append, roles_append]
      exact .rule (.tail _ (.head _)) (first.derives.append (o.1.derives.append (ih o.2)))

lemma Projection.derives (p : Projection) :
    Derives rules [phrase .projection] (p.keyword.reading ++ p.body).roles := by
  rw [Projection.body, roles_append, roles_append]
  rcases p.distinct with _ | distinct
  · exact .rule (.head _) (p.keyword.derives.append (derives_list p.first p.others))
  · exact .rule (.tail _ (.head _))
      (p.keyword.derives.append (distinct.derives.append (derives_list p.first p.others)))

lemma Clause.derives (c : Clause) : Derives rules [phrase .clause] c.reading.roles := by
  rcases c with p | ⟨keyword, rest⟩
  · rw [Clause.reading, Projection.reading, roles_append]
    rcases p.ordering with _ | o
    · exact .rule (.tail _ (.tail _ (.head _))) (p.derives.append .nil)
    · simp only [Option.elim, Ordering.reading, roles_append, List.append_assoc]
      exact .rule (.tail _ (.tail _ (.tail _ (.head _))))
        (p.derives.append (o.order.derives.append (o.byWord.derives.append o.keys.derives_roles)))
  · rw [Clause.reading, roles_append]
    rcases rest with _ | rest
    · exact .rule (.head _) (keyword.derives.append .nil)
    · exact .rule (.tail _ (.head _)) (keyword.derives.append rest.derives_roles)

lemma Query.derives {q : Query} (hq : q ≠ []) :
    Derives rules [phrase .query] (Query.reading q).roles := by
  induction q with
  | nil => exact absurd rfl hq
  | cons c q ih =>
      rw [Query.reading, List.flatMap_cons, roles_append]
      cases q with
      | nil => exact .rule (.head _) (c.derives.append .nil)
      | cons d q => exact .rule (.tail _ (.head _)) (c.derives.append (ih (List.cons_ne_nil d q)))

/-- Neighbours in a query may stand next to each other. -/
lemma Query.chain (q : Query) :
    (Query.reading q).IsChain fun x y => ok x.1 y.1 = true := by
  rcases eq_or_ne q [] with rfl | hq
  · exact .nil
  · exact (List.isChain_map _).1 (chain_of_derives neighbours (Query.derives hq)).2.2

/-! ### The brackets of a query -/

/-- The tokens play their roles, and the brackets match. -/
structure Sound (xs : Reading) : Prop where
  admits : ∀ x ∈ xs, x.1.admits x.2 = true
  flat : Flat xs

lemma Sound.nil : Sound [] where
  admits _ hx := absurd hx List.not_mem_nil
  flat := rfl

lemma Sound.append {xs ys : Reading} (hx : Sound xs) (hy : Sound ys) : Sound (xs ++ ys) where
  admits x hmem := (List.mem_append.1 hmem).elim (hx.admits x) (hy.admits x)
  flat := hx.flat.append hy.flat

lemma Sound.flatMap {α : Type} {f : α → Reading} {l : List α} (h : ∀ a ∈ l, Sound (f a)) :
    Sound (l.flatMap f) := by
  induction l with
  | nil => exact .nil
  | cons a l ih =>
      rw [List.flatMap_cons]
      exact (h a List.mem_cons_self).append (ih fun b hb => h b (List.mem_cons_of_mem a hb))

lemma Word.sound {r : Role} (w : Word r) (hside : r.side = .inside) : Sound w.reading where
  admits x hx := by
    obtain rfl := List.mem_singleton.1 hx
    exact w.2
  flat := by
    rw [Flat, Word.reading, depthAfter, show sideAt (r, w.1) = .inside from hside]
    rfl

lemma Part.sound {n : Phrase} (p : Part n) : Sound p.reading := ⟨p.admits, p.flat⟩

lemma Titled.sound (t : Titled) : Sound t.reading := by
  refine t.item.sound.append ?_
  rcases t.title with _ | ⟨as, name⟩
  · exact .nil
  · exact (as.sound rfl).append (name.sound rfl)

lemma Projection.sound_body (p : Projection) : Sound p.body := by
  refine .append ?_ (p.first.sound.append (.flatMap fun o _ => (o.1.sound rfl).append o.2.sound))
  rcases p.distinct with _ | distinct
  · exact .nil
  · exact distinct.sound rfl

lemma Ordering.sound (o : Ordering) : Sound o.reading :=
  ((o.order.sound rfl).append (o.byWord.sound rfl)).append o.keys.sound

lemma Clause.sound (c : Clause) : Sound c.reading := by
  rcases c with p | ⟨keyword, rest⟩
  · refine ((p.keyword.sound rfl).append p.sound_body).append ?_
    rcases p.ordering with _ | o
    · exact .nil
    · exact o.sound
  · refine (keyword.sound rfl).append ?_
    rcases rest with _ | rest
    · exact .nil
    · exact rest.sound

lemma Query.sound (q : Query) : Sound (Query.reading q) := .flatMap fun c _ => c.sound

/-- The depths of the tokens of a query are those of their roles. -/
lemma Query.leveled {src : Text} {q : Query} (h : tokenize src = some (Query.toks q)) :
    Leveled (Query.reading q) :=
  leveled_of_nested q.sound.admits (nested_of_tokenize h)

/-! ### The `ORDER BY` of a query -/

lemma Titled.no_order (t : Titled) : ∀ x ∈ t.reading, x.1 ≠ .orderKw := by
  intro x hx
  rcases List.mem_append.1 hx with hx | hx
  · exact t.item.no_order nofun nofun x hx
  · rcases htitle : t.title with _ | ⟨as, name⟩
    · simp [htitle, titleReading] at hx
    · simp only [htitle, titleReading, Word.reading, List.mem_append, List.mem_singleton] at hx
      rcases hx with rfl | rfl <;> exact nofun

lemma Projection.no_order (p : Projection) :
    ∀ x ∈ p.keyword.reading ++ p.body, x.1 ≠ .orderKw := by
  intro x hx
  simp only [Projection.body, listReading, List.mem_append, List.mem_flatMap] at hx
  rcases hx with hx | hx | hx | ⟨o, -, hx | hx⟩
  · obtain rfl := List.mem_singleton.1 hx
    exact nofun
  · rcases hdistinct : p.distinct with _ | distinct
    · simp [hdistinct] at hx
    · rw [hdistinct] at hx
      obtain rfl := List.mem_singleton.1 hx
      exact nofun
  · exact p.first.no_order x hx
  · obtain rfl := List.mem_singleton.1 hx
    exact nofun
  · exact o.2.no_order x hx

/-- An `ORDER BY` of a clause is that of a projection. -/
lemma Clause.ordering_of_split {c : Clause} {xs ys : Reading} {order : Tok}
    (h : c.reading = xs ++ (.orderKw, order) :: ys) :
    ∃ p o, c = .projection p ∧ p.ordering = some o ∧ o.order.1 = order ∧
      xs = p.keyword.reading ++ p.body ∧ ys = o.byWord.reading ++ o.keys.reading := by
  have hmem : ((Role.orderKw, order) : Role × Tok) ∈ c.reading := by
    rw [h]
    exact List.mem_append_right xs List.mem_cons_self
  rcases c with p | ⟨keyword, rest⟩
  · rcases hordering : p.ordering with _ | o
    · simp only [Clause.reading, Projection.reading, hordering, Option.elim,
        List.append_nil] at hmem
      exact absurd rfl (p.no_order _ hmem)
    · have hreading : (p.keyword.reading ++ p.body) ++
          (.orderKw, o.order.1) :: (o.byWord.reading ++ o.keys.reading) =
            xs ++ (.orderKw, order) :: ys := by
        rw [← h]
        simp [Clause.reading, Projection.reading, hordering, Ordering.reading, Word.reading]
      obtain ⟨hxs, ho, hys⟩ := (List.append_cons_inj_of_notMem
        (fun hx => p.no_order _ hx rfl) (fun hx => by
          rcases List.mem_append.1 hx with hx | hx
          · exact absurd (congrArg Prod.fst (List.mem_singleton.1 hx)) nofun
          · exact o.keys.no_order nofun nofun _ hx rfl)).1 hreading
      exact ⟨p, o, rfl, hordering, congrArg Prod.snd ho, hxs.symm, hys.symm⟩
  · exfalso
    rcases List.mem_append.1 hmem with hmem | hmem
    · exact absurd (congrArg Prod.fst (List.mem_singleton.1 hmem)) nofun
    · rcases rest with _ | rest
      · exact absurd hmem List.not_mem_nil
      · exact rest.no_order nofun nofun _ hmem rfl

/-- An `ORDER BY` of a query is that of one of its projections. -/
lemma Query.ordering_of_split {q : Query} {xs ys : Reading} {order : Tok}
    (h : Query.reading q = xs ++ (.orderKw, order) :: ys) :
    ∃ before p o after, q = before ++ .projection p :: after ∧ p.ordering = some o ∧
      o.order.1 = order ∧ xs = Query.reading before ++ (p.keyword.reading ++ p.body) ∧
      ys = o.byWord.reading ++ o.keys.reading ++ Query.reading after := by
  induction q generalizing xs with
  | nil => exact absurd h.symm (by simp [Query.reading])
  | cons c q ih =>
      rw [Query.reading, List.flatMap_cons] at h
      have hlater : ∀ zs, xs = c.reading ++ zs →
          Query.reading q = zs ++ (.orderKw, order) :: ys →
          ∃ before p o after, c :: q = before ++ .projection p :: after ∧ p.ordering = some o ∧
            o.order.1 = order ∧ xs = Query.reading before ++ (p.keyword.reading ++ p.body) ∧
            ys = o.byWord.reading ++ o.keys.reading ++ Query.reading after := by
        rintro zs rfl hsplit
        obtain ⟨before, p, o, after, rfl, hordering, horder, rfl, hys⟩ := ih hsplit
        refine ⟨c :: before, p, o, after, rfl, hordering, horder, ?_, hys⟩
        rw [Query.reading, Query.reading, List.flatMap_cons, List.append_assoc]
      rcases List.append_eq_append_iff.1 h with ⟨zs, hxs, hsplit⟩ | ⟨zs, hc, hsplit⟩
      · exact hlater zs hxs hsplit
      · rcases zs with _ | ⟨z, zs⟩
        · rw [List.append_nil] at hc
          exact hlater [] (by rw [hc, List.append_nil]) hsplit.symm
        · obtain ⟨rfl, rfl⟩ := List.cons.inj hsplit
          obtain ⟨p, o, rfl, hordering, horder, rfl, rfl⟩ := Clause.ordering_of_split hc
          exact ⟨[], p, o, q, rfl, hordering, horder, rfl, rfl⟩

end PalaceDaemon.Cypher

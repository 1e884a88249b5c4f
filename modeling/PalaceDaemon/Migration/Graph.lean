/-
The edges that the canonical-predicate migration rewrites.

A RELATION edge is a row of the backing table with a JSON object of properties.  Its predicate is
in `relation_type`; an edge that was migrated keeps the predicate it had in `raw_relation_type`.
What the migration calls the original of an edge is `coalesce(raw_relation_type, relation_type)`.

The two UPDATEs join the table with a mapping from raw to canonical predicates: the one of the
first migration looks at `relation_type` and leaves an edge alone that was migrated before, the
one of `--remap-existing` looks at the original and leaves an edge alone that has the canonical
predicate already.  `rollback` is the UPDATE of the module's docstring that undoes them.
-/
import Mathlib.Data.List.Nodup
import PalaceDaemon.Lib.JsonObject

namespace PalaceDaemon.Migration

/-- The property with the current predicate. -/
def relationKey : String := "relation_type"

/-- The property with the predicate from before the migration. -/
def rawKey : String := "raw_relation_type"

lemma rawKey_ne_relationKey : rawKey ≠ relationKey := by decide

/-- A row of `mempalace_kg."RELATION"`. -/
@[ext]
structure Edge where
  id : ℕ
  properties : JsonObject

namespace Edge

variable (e : Edge)

/-- `properties ->> 'relation_type'` -/
def relationType : Option String := e.properties.text relationKey

/-- `properties ->> 'raw_relation_type'` -/
def rawRelationType : Option String := e.properties.text rawKey

/-- `COALESCE(properties ->> 'raw_relation_type', properties ->> 'relation_type')` -/
def original : Option String := e.rawRelationType.or e.relationType

/-- `properties || jsonb_build_object('raw_relation_type', raw, 'relation_type', canonical)` -/
def relabel (raw : Option String) (canonical : String) : Edge :=
  { e with
    properties := e.properties.concat
      (.build [(rawKey, raw), (relationKey, some canonical)]) }

/-- The UPDATE of the first migration, on a row of the table. -/
def migrate (mapping : List (String × String)) : Edge :=
  match e.relationType.bind fun p => mapping.lookup p with
  | none => e
  | some canonical =>
      if e.properties.has rawKey then e else e.relabel e.relationType canonical

/-- The UPDATE of `--remap-existing`, on a row of the table. -/
def remap (mapping : List (String × String)) : Edge :=
  match e.original.bind fun p => mapping.lookup p with
  | none => e
  | some canonical =>
      if e.relationType = some canonical then e else e.relabel e.original canonical

/-- The UPDATE that undoes a migration, on a row of the table. -/
def rollback : Edge :=
  if e.properties.has rawKey then
    { e with
      properties := (e.properties.erase rawKey).concat
        (.build [(relationKey, e.rawRelationType)]) }
  else e

/-! ### What the updates do to an edge -/

@[simp] lemma relabel_id (raw : Option String) (canonical : String) :
    (e.relabel raw canonical).id = e.id := rfl

lemma relabel_get (raw : Option String) (canonical k : String) :
    (e.relabel raw canonical).properties.get k =
      if k = rawKey then some (.ofText raw)
      else if k = relationKey then some (.text canonical) else e.properties.get k :=
  JsonObject.get_concat_build rawKey_ne_relationKey _ _ _

@[simp] lemma relabel_relationType (raw : Option String) (canonical : String) :
    (e.relabel raw canonical).relationType = some canonical := by
  refine JsonObject.text_of_get (v := .text canonical) ?_
  rw [relabel_get, if_neg rawKey_ne_relationKey.symm, if_pos rfl]

@[simp] lemma relabel_rawRelationType (raw : Option String) (canonical : String) :
    (e.relabel raw canonical).rawRelationType = raw := by
  rw [rawRelationType, JsonObject.text_of_get (v := .ofText raw), JsonValue.asText_ofText]
  rw [relabel_get, if_pos rfl]

/-- An edge without a raw predicate has its current one as the original. -/
lemma original_of_not_has (h : e.properties.has rawKey = false) :
    e.original = e.relationType := by
  rw [original, rawRelationType, JsonObject.text_eq_none_of_not_has h, Option.none_or]

/-- The first migration relabels an edge that has no raw predicate, and nothing else. -/
lemma migrate_cases (mapping : List (String × String)) :
    e.migrate mapping = e ∨ e.properties.has rawKey = false ∧ ∃ p canonical,
      e.relationType = some p ∧ mapping.lookup p = some canonical ∧
        e.migrate mapping = e.relabel (some p) canonical := by
  unfold migrate
  cases hp : e.relationType with
  | none => exact .inl rfl
  | some p =>
      cases hc : mapping.lookup p with
      | none => simp [hc]
      | some canonical =>
          by_cases hhas : e.properties.has rawKey = true
          · exact .inl (by simp [hc, hhas])
          · refine .inr ⟨by simpa using hhas, p, canonical, rfl, hc, ?_⟩
            simp [hc, hhas]

/-- The remap relabels an edge whose original is mapped to something else than its current
predicate, and nothing else. -/
lemma remap_cases (mapping : List (String × String)) :
    e.remap mapping = e ∧ (∀ p canonical, e.original = some p →
      mapping.lookup p = some canonical → e.relationType = some canonical) ∨
    ∃ p canonical, e.original = some p ∧ mapping.lookup p = some canonical ∧
      e.remap mapping = e.relabel (some p) canonical := by
  unfold remap
  cases hp : e.original with
  | none => exact .inl ⟨rfl, by simp⟩
  | some p =>
      cases hc : mapping.lookup p with
      | none =>
          refine .inl ⟨by simp [hc], ?_⟩
          rintro p' c hp' hc'
          obtain rfl : p = p' := by simpa using hp'
          simp [hc] at hc'
      | some canonical =>
          by_cases hsame : e.relationType = some canonical
          · refine .inl ⟨by simp [hc, hsame], ?_⟩
            rintro p' c hp' hc'
            obtain rfl : p = p' := by simpa using hp'
            rw [hc] at hc'
            rwa [← hc']
          · exact .inr ⟨p, canonical, rfl, hc, by simp [hc, hsame]⟩

@[simp] lemma migrate_id (mapping : List (String × String)) : (e.migrate mapping).id = e.id := by
  rcases e.migrate_cases mapping with h | ⟨_, p, canonical, _, _, h⟩ <;> rw [h]
  rfl

@[simp] lemma remap_id (mapping : List (String × String)) : (e.remap mapping).id = e.id := by
  rcases e.remap_cases mapping with ⟨h, _⟩ | ⟨p, canonical, _, _, h⟩ <;> rw [h]
  rfl

@[simp] lemma rollback_id : e.rollback.id = e.id := by
  unfold rollback
  split <;> rfl

/-- Neither update changes the original of an edge. -/
@[simp] lemma migrate_original (mapping : List (String × String)) :
    (e.migrate mapping).original = e.original := by
  rcases e.migrate_cases mapping with h | ⟨hhas, p, canonical, hp, _, h⟩
  · rw [h]
  · rw [h, e.original_of_not_has hhas, hp]
    simp [original]

@[simp] lemma remap_original (mapping : List (String × String)) :
    (e.remap mapping).original = e.original := by
  rcases e.remap_cases mapping with ⟨h, _⟩ | ⟨p, canonical, hp, _, h⟩
  · rw [h]
  · rw [h, hp]
    simp [original]

end Edge

/-! ### The table -/

/-- The backing table.  The graph gives every edge an id of its own. -/
structure Graph where
  edges : List Edge
  nodup : (edges.map Edge.id).Nodup

/-- An UPDATE of every row. -/
def Graph.update (f : Edge → Edge) (hf : ∀ e, (f e).id = e.id) (g : Graph) : Graph where
  edges := g.edges.map f
  nodup := by
    have hids : (g.edges.map f).map Edge.id = g.edges.map Edge.id := by
      rw [List.map_map]
      exact List.map_congr_left fun e _ => hf e
    rw [hids]
    exact g.nodup

/-- A DELETE of the rows that meet the condition. -/
def Graph.delete (p : Edge → Bool) (g : Graph) : Graph where
  edges := g.edges.filter fun e => !p e
  nodup := g.nodup.sublist (List.Sublist.map _ List.filter_sublist)

/-- The rollback of the docstring. -/
def rollback (g : Graph) : Graph := g.update Edge.rollback Edge.rollback_id

@[simp] lemma Graph.update_edges (f : Edge → Edge) (hf : ∀ e, (f e).id = e.id) (g : Graph) :
    (g.update f hf).edges = g.edges.map f := rfl

@[simp] lemma Graph.delete_edges (p : Edge → Bool) (g : Graph) :
    (g.delete p).edges = g.edges.filter fun e => !p e := rfl

end PalaceDaemon.Migration

/-
Undoing the migration.

However many runs are applied, in either mode and each with a mapper of its own, an edge that
still exists has its first predicate as its original (`Edge.Descends` says how an edge may
differ from the one it was).  So one rollback restores every edge that is left.
-/
import PalaceDaemon.Lib.StepSystem
import PalaceDaemon.Migration.Plan

namespace PalaceDaemon.Migration

/-- An applied run: its vocabulary, from the graph or from a file, its mapper and its options. -/
structure Run where
  vocab : List VocabRow
  mapper : Mapper
  args : Args

/-- What a run does to the graph. -/
def Run.apply (r : Run) (g : Graph) : Graph :=
  Migration.apply (buildPlan r.vocab r.mapper) r.args g

/-- A graph, and what it was before the first run. -/
structure History where
  initial : Graph
  current : Graph

/-- Runs of the migration on a graph that was never migrated. -/
def migrationSystem : StepSystem History Run where
  init s := s.current = s.initial ∧ ∀ e ∈ s.initial.edges, e.properties.has rawKey = false
  next s r := some { s with current := r.apply s.current }

/-! ### What becomes of an edge -/

/-- The edge is the edge `first` after some runs: as it was, or with the first predicate as its
raw one and another current one. -/
structure Edge.Descends (first e : Edge) : Prop where
  id_eq : e.id = first.id
  frame : ∀ k, k ≠ rawKey → k ≠ relationKey → e.properties.get k = first.properties.get k
  fresh : first.properties.has rawKey = false
  kept : e = first ∨ ∃ p, first.relationType = some p ∧ e.properties.get rawKey = some (.text p)

namespace Edge.Descends

variable {first e : Edge}

lemma refl (h : first.properties.has rawKey = false) : first.Descends first where
  id_eq := rfl
  frame _ _ _ := rfl
  fresh := h
  kept := .inl rfl

/-- The original of an edge is its first predicate. -/
lemma original_eq (h : first.Descends e) : e.original = first.relationType := by
  rcases h.kept with rfl | ⟨p, hp, hraw⟩
  · exact e.original_of_not_has h.fresh
  · rw [Edge.original, Edge.rawRelationType, JsonObject.text_of_get hraw, hp]
    rfl

/-- An update that keeps the original as the raw predicate. -/
lemma relabel (h : first.Descends e) {p : String} (hp : e.original = some p)
    (canonical : String) : first.Descends (e.relabel (some p) canonical) where
  id_eq := h.id_eq
  frame k hraw hrel := by
    rw [e.relabel_get, if_neg hraw, if_neg hrel]
    exact h.frame k hraw hrel
  fresh := h.fresh
  kept := by
    refine .inr ⟨p, by rw [← h.original_eq, hp], ?_⟩
    rw [e.relabel_get, if_pos rfl]
    rfl

lemma migrate (h : first.Descends e) (mapping : List (String × String)) :
    first.Descends (e.migrate mapping) := by
  rcases e.migrate_cases mapping with heq | ⟨hhas, p, canonical, hp, -, heq⟩
  · rwa [heq]
  · rw [heq]
    refine h.relabel ?_ canonical
    rw [e.original_of_not_has hhas, hp]

lemma remap (h : first.Descends e) (mapping : List (String × String)) :
    first.Descends (e.remap mapping) := by
  rcases e.remap_cases mapping with ⟨heq, -⟩ | ⟨p, canonical, hp, -, heq⟩
  · rwa [heq]
  · rw [heq]
    exact h.relabel hp canonical

lemma updated (h : first.Descends e) (plan : Plan) (args : Args) :
    first.Descends (e.updated plan args) := by
  unfold Edge.updated
  split
  · exact h.remap _
  · exact h.migrate _

/-- What the rollback leaves of an edge. -/
lemma rollback_get (h : first.Descends e) (k : String) :
    e.rollback.properties.get k =
      if k = relationKey ∧ e.properties.has rawKey then some (.ofText first.relationType)
      else first.properties.get k := by
  have hnone := JsonObject.has_eq_false_iff.1 h.fresh
  unfold Edge.rollback
  rcases h.kept with rfl | ⟨p, hp, hraw⟩
  · simp [h.fresh]
  · have hhas : e.properties.has rawKey = true := by simp [JsonObject.has, hraw]
    have htext : e.rawRelationType = some p := JsonObject.text_of_get hraw
    rw [if_pos hhas, hp]
    by_cases hrel : k = relationKey
    · subst hrel
      simp [hhas, htext]
    · rw [if_neg (by simp [hrel]), JsonObject.get_concat, JsonObject.get_build,
        JsonObject.get_erase]
      have hlookup : List.lookup k [(relationKey, e.rawRelationType)] = none := by
        simp [hrel]
      rw [hlookup]
      by_cases hk : k = rawKey
      · rw [if_pos hk, hk, hnone]
        rfl
      · rw [if_neg hk]
        exact h.frame k hk hrel

end Edge.Descends

/-! ### What becomes of the graph -/

lemma mem_dropCodeTokens {plan : Plan} {g : Graph} {e : Edge}
    (h : e ∈ (dropCodeTokens plan g).edges) : e ∈ g.edges := by
  unfold dropCodeTokens at h
  split at h
  · rw [Graph.delete_edges] at h
    exact List.mem_of_mem_filter h
  · exact h

/-- An edge that is left after a run was there before, and was updated at most once. -/
lemma mem_apply {plan : Plan} {args : Args} {g : Graph} {e : Edge}
    (h : e ∈ (apply plan args g).edges) :
    ∃ e' ∈ g.edges, e = e' ∨ e = e'.updated plan args := by
  have hupdate : e ∈ (applyUpdate plan args g).edges →
      ∃ e' ∈ g.edges, e = e' ∨ e = e'.updated plan args := by
    intro he
    obtain ⟨e', he', rfl⟩ := List.mem_map.1 he
    exact ⟨e', he', .inr rfl⟩
  unfold apply at h
  split_ifs at h
  · exact ⟨e, mem_dropCodeTokens h, .inl rfl⟩
  · exact ⟨e, h, .inl rfl⟩
  · exact hupdate (mem_dropCodeTokens h)
  · exact hupdate h
  · exact ⟨e, h, .inl rfl⟩

/-- Every edge that is left is one of the first ones. -/
def History.Descends (s : History) : Prop :=
  ∀ e ∈ s.current.edges, ∃ first ∈ s.initial.edges, first.Descends e

lemma descends_of_reachable {s : History} (h : migrationSystem.Reachable s) : s.Descends := by
  refine StepSystem.ReachedBy.invariant ?_ ?_ h
  · rintro s ⟨hcurrent, hfresh⟩ e he
    rw [hcurrent] at he
    exact ⟨e, he, .refl (hfresh e he)⟩
  · rintro s r s' hs - hnext e he
    obtain rfl := Option.some.inj hnext
    obtain ⟨e', he', heq⟩ := mem_apply he
    obtain ⟨first, hfirst, hdescends⟩ := hs e' he'
    refine ⟨first, hfirst, ?_⟩
    rcases heq with rfl | rfl
    · exact hdescends
    · exact hdescends.updated _ _

lemma initial_steps {s t : History} (h : migrationSystem.Steps s t) : t.initial = s.initial := by
  induction h with
  | refl => rfl
  | tail _ hnext ih =>
      obtain rfl := Option.some.inj hnext
      exact ih

/-- **Reversibility.**  After any runs, every edge that is left has its first predicate as its
original; the rollback keeps the edges and gives each one its first predicate back, without a raw
one, and all of its first properties when the predicate was a text. -/
theorem migration_reversible {s : History} (h : migrationSystem.Reachable s) :
    (∀ e ∈ s.current.edges, ∃ first ∈ s.initial.edges,
      first.id = e.id ∧ e.original = first.relationType) ∧
    (rollback s.current).edges.map Edge.id = s.current.edges.map Edge.id ∧
    ∀ e ∈ (rollback s.current).edges, ∃ first ∈ s.initial.edges, first.id = e.id ∧
      e.relationType = first.relationType ∧ e.properties.has rawKey = false ∧
      (∀ k ≠ relationKey, e.properties.get k = first.properties.get k) ∧
      (∀ p, first.properties.get relationKey = some (.text p) → e = first) := by
  have hinv := descends_of_reachable h
  refine ⟨?_, ?_, ?_⟩
  · intro e he
    obtain ⟨first, hfirst, hdescends⟩ := hinv e he
    exact ⟨first, hfirst, hdescends.id_eq.symm, hdescends.original_eq⟩
  · simp [rollback, Function.comp_def]
  · intro e he
    obtain ⟨e', he', rfl⟩ := List.mem_map.1 he
    obtain ⟨first, hfirst, hdescends⟩ := hinv e' he'
    have hget := hdescends.rollback_get
    refine ⟨first, hfirst, by rw [e'.rollback_id, hdescends.id_eq], ?_, ?_, ?_, ?_⟩
    · rw [Edge.relationType, JsonObject.text, hget, Edge.relationType, JsonObject.text]
      by_cases hhas : e'.properties.has rawKey = true
      · rw [if_pos ⟨rfl, hhas⟩]
        simp
      · rw [if_neg (by simp [hhas])]
    · rw [JsonObject.has_eq_false_iff, hget, if_neg (fun hk => rawKey_ne_relationKey hk.1)]
      exact JsonObject.has_eq_false_iff.1 hdescends.fresh
    · intro k hk
      rw [hget, if_neg (fun hrel => hk hrel.1)]
    · intro p hp
      have hrel : first.relationType = some p := JsonObject.text_of_get hp
      refine Edge.ext (by rw [e'.rollback_id, hdescends.id_eq])
        (JsonObject.ext (funext fun k => ?_))
      rw [hget, hrel]
      split_ifs with hk
      · rw [hk.1, hp]
        rfl
      · rfl

/-- Two runs with different mappers: `is_a` goes to `other`, then to `kind_of`. -/
def twoRuns : List Run :=
  [⟨[⟨"is_a", 1⟩], fun _ => some "other", ⟨false, false⟩⟩,
    ⟨[⟨"is_a", 1⟩], fun _ => some "kind_of", ⟨true, true⟩⟩]

/-- A graph of one edge. -/
def oneEdge (relationType : String) : Graph where
  edges := [⟨7, .ofList [(relationKey, .text relationType)]⟩]
  nodup := by simp

/-- After the two runs the edge says `kind_of`, and the rollback restores `is_a`. -/
theorem migration_reversible_twice : ∃ s : History,
    s.current.edges.map Edge.relationType = [some "kind_of"] ∧
    ∀ e ∈ (rollback s.current).edges, ∃ first ∈ (oneEdge "is_a").edges,
      first.id = e.id ∧ e.relationType = first.relationType := by
  have hstart : migrationSystem.Reachable ⟨oneEdge "is_a", oneEdge "is_a"⟩ :=
    .init ⟨rfl, by simp [oneEdge, JsonObject.has, JsonObject.ofList, rawKey, relationKey]⟩
  obtain ⟨s, hs, hend⟩ := migrationSystem.exists_of_exec_any ⟨oneEdge "is_a", oneEdge "is_a"⟩
    twoRuns (fun s => decide (s.current.edges.map Edge.relationType = [some "kind_of"]))
    (by decide)
  have hinitial : s.initial = oneEdge "is_a" := initial_steps (.of_exec twoRuns hs)
  refine ⟨s, of_decide_eq_true hend, fun e he => ?_⟩
  obtain ⟨first, hfirst, hid, hrel, -⟩ := (migration_reversible (hstart.exec hs)).2.2 e he
  exact ⟨first, hinitial ▸ hfirst, hid, hrel⟩

end PalaceDaemon.Migration

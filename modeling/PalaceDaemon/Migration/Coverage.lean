/-
What a run changes and deletes, against what its plan says.

`--remap-existing` is meant to give every edge the canonical form of its original.  The plan
leaves out the predicates that are their own canonical form, so an edge that an earlier run sent
elsewhere is not brought back to such a predicate (`remap_complete`).

`--drop-code-tokens` is meant to delete the edges that the plan counts as dropped.  The plan of
the default mode counts by the current predicate and the DELETE goes by the original, so they
agree when no migrated edge makes the two differ (`drops_reported`); the plan of
`--remap-existing` goes by the original as well.
-/
import Mathlib.Algebra.BigOperators.Group.List.Lemmas
import PalaceDaemon.Migration.Reversal

namespace PalaceDaemon.Migration

section run

variable {mapper : Mapper} {args : Args} {g : Graph}

/-- The plan of the graph as it is. -/
def currentPlan (mapper : Mapper) (args : Args) (g : Graph) : Plan :=
  buildPlan (fetchVocab args g) mapper

/-- With nothing to remap, the UPDATE changes nothing. -/
lemma updated_of_remaps_nil {plan : Plan} (h : plan.remaps = []) (e : Edge) :
    e.updated plan args = e := by
  have hmapping : plan.mapping = [] := by simp [Plan.mapping, h]
  unfold Edge.updated
  split
  · rcases e.remap_cases plan.mapping with ⟨heq, -⟩ | ⟨p, canonical, -, hlookup, -⟩
    · exact heq
    · simp [hmapping] at hlookup
  · rcases e.migrate_cases plan.mapping with heq | ⟨-, p, canonical, -, hlookup, -⟩
    · exact heq
    · simp [hmapping] at hlookup

lemma applyUpdate_edges_of_nil {plan : Plan} (h : plan.remaps = []) :
    (applyUpdate plan args g).edges = g.edges := by
  rw [applyUpdate, Graph.update_edges]
  conv_rhs => rw [← List.map_id g.edges]
  exact List.map_congr_left fun e _ => updated_of_remaps_nil h e

/-- The plan of the graph as it is can be copied to the temporary tables. -/
lemma migrate_edges_eq : (migrate mapper args g).edges =
    if args.dropCodeTokens then
      (applyUpdate (currentPlan mapper args g) args g).edges.filter fun e =>
        !(currentPlan mapper args g).deletes e
    else (applyUpdate (currentPlan mapper args g) args g).edges := by
  have hremaps : ((currentPlan mapper args g).remaps.map Remap.raw).Nodup :=
    remaps_nodup (nodup_fetchVocab args g)
  have hdrops : ((currentPlan mapper args g).drops.map Drop.raw).Nodup :=
    drops_nodup (nodup_fetchVocab args g)
  show (apply (currentPlan mapper args g) args g).edges = _
  rw [apply, if_pos hremaps]
  by_cases hnil : (currentPlan mapper args g).remaps = []
  · rw [if_pos hnil, applyUpdate_edges_of_nil hnil]
    split
    · rw [dropCodeTokens, if_pos hdrops, Graph.delete_edges]
    · rfl
  · rw [if_neg hnil]
    split
    · rw [dropCodeTokens, if_pos hdrops, Graph.delete_edges]
    · rfl

/-- **What a run leaves.**  The edges, updated, without the ones whose original is dropped if
that was asked for. -/
theorem migrate_edges : (migrate mapper args g).edges =
    (g.edges.filter fun e =>
      !(args.dropCodeTokens && (currentPlan mapper args g).deletes e)).map
        (Edge.updated (currentPlan mapper args g) args) := by
  rw [migrate_edges_eq, applyUpdate, Graph.update_edges]
  cases args.dropCodeTokens with
  | false => simp
  | true =>
      simp only [if_true, Bool.true_and, List.filter_map]
      congr 1
      refine List.filter_congr fun e _ => ?_
      simp only [Function.comp_apply, Plan.deletes, Edge.updated_original]

lemma mem_migrate {e : Edge} : e ∈ (migrate mapper args g).edges ↔
    ∃ e' ∈ g.edges, (args.dropCodeTokens = true → (currentPlan mapper args g).deletes e' = false) ∧
      e'.updated (currentPlan mapper args g) args = e := by
  simp [migrate_edges, and_assoc, imp_iff_not_or]

lemma deletes_iff {e : Edge} : (currentPlan mapper args g).deletes e = true ↔
    ∃ p, e.original = some p ∧ mapper p = none ∧ ∃ e' ∈ g.edges, args.column e' = some p := by
  rw [Plan.deletes, List.any_eq_true]
  constructor
  · rintro ⟨d, hd, hp⟩
    obtain ⟨hmem, hnone⟩ := mem_drops.1 (List.mem_map_of_mem hd)
    exact ⟨d.raw, by simpa using hp, hnone, mem_fetchVocab.1 hmem⟩
  · rintro ⟨p, hp, hnone, he'⟩
    obtain ⟨d, hd, rfl⟩ := List.mem_map.1 (mem_drops.2 ⟨mem_fetchVocab.2 he', hnone⟩)
    exact ⟨d, hd, by simpa using hp⟩

end run

/-! ### Remapping -/

/-- Every edge whose original the mapper maps has the canonical predicate. -/
def Canonical (mapper : Mapper) (g : Graph) : Prop :=
  ∀ e ∈ g.edges, ∀ p canonical, e.original = some p → mapper p = some canonical →
    e.relationType = some canonical

/-- **Remap completeness.**  A run with `--remap-existing` on the graph as it is gives every edge
the canonical form of its original, if and only if every edge whose original is its own canonical
form has it already. -/
theorem remap_complete (mapper : Mapper) (dropCodeTokens : Bool) (g : Graph) :
    Canonical mapper (migrate mapper ⟨true, dropCodeTokens⟩ g) ↔
      ∀ e ∈ g.edges, ∀ p, e.original = some p → mapper p = some p → e.relationType = some p := by
  set plan := currentPlan mapper ⟨true, dropCodeTokens⟩ g with hplan
  have hupdated : ∀ e : Edge, e.updated plan ⟨true, dropCodeTokens⟩ = e.remap plan.mapping :=
    fun e => if_pos rfl
  -- the plan has no rule for a predicate that is its own canonical form
  have hkeep : ∀ (e : Edge) p, e.original = some p → mapper p = some p →
      e.remap plan.mapping = e := by
    intro e p hp hmap
    rcases e.remap_cases plan.mapping with ⟨heq, -⟩ | ⟨p', canonical, hp', hlookup, -⟩
    · exact heq
    · obtain rfl : p = p' := by simpa [hp] using hp'
      obtain ⟨-, hcanonical, hne⟩ := lookup_mapping.1 hlookup
      exact absurd (Option.some.inj (hcanonical.symm.trans hmap)) hne
  constructor
  · intro h e he p hp hmap
    refine h e (mem_migrate.2 ⟨e, he, fun _ => ?_, by rw [hupdated, hkeep e p hp hmap]⟩) p p hp hmap
    by_contra hdel
    obtain ⟨p', hp', hnone, -⟩ := deletes_iff.1 (by simpa using hdel)
    obtain rfl : p = p' := by simpa [hp] using hp'
    simp [hmap] at hnone
  · intro h e he p canonical hp hmap
    obtain ⟨e', he', -, rfl⟩ := mem_migrate.1 he
    rw [← hplan, hupdated] at hp ⊢
    rw [Edge.remap_original] at hp
    by_cases hsame : canonical = p
    · subst hsame
      rw [hkeep e' canonical hp hmap]
      exact h e' he' canonical hp hmap
    · have hlookup : plan.mapping.lookup p = some canonical :=
        lookup_mapping.2 ⟨mem_fetchVocab.2 ⟨e', he', hp⟩, hmap, hsame⟩
      rcases e'.remap_cases plan.mapping with ⟨heq, hrel⟩ | ⟨p', c, hp', hlookup', heq⟩
      · rw [heq]
        exact hrel p canonical hp hlookup
      · obtain rfl : p = p' := by simpa [hp] using hp'
        obtain rfl : canonical = c := by simpa [hlookup] using hlookup'
        rw [heq, Edge.relabel_relationType]

/-- An earlier run sent `located_in` to `other`; the mapper has become better since. -/
theorem remap_complete_fails : ∃ s : History, migrationSystem.Reachable s ∧
    ¬ Canonical (fun p => some p) (migrate (fun p => some p) ⟨true, false⟩ s.current) := by
  have hstart : migrationSystem.Reachable ⟨oneEdge "located_in", oneEdge "located_in"⟩ :=
    .init ⟨rfl, by simp [oneEdge, JsonObject.has, JsonObject.ofList, rawKey, relationKey]⟩
  obtain ⟨s, hs, hend⟩ := migrationSystem.exists_of_exec_any
    ⟨oneEdge "located_in", oneEdge "located_in"⟩
    [⟨[⟨"located_in", 1⟩], fun _ => some "other", ⟨false, false⟩⟩]
    (fun s => decide ((migrate (fun p => some p) ⟨true, false⟩ s.current).edges.map
      (fun e => (e.original, e.relationType)) = [(some "located_in", some "other")])) (by decide)
  refine ⟨s, hstart.exec hs, fun h => ?_⟩
  have hpairs := of_decide_eq_true hend
  obtain ⟨e, hedges⟩ := List.length_eq_one_iff.1 (by simpa using congrArg List.length hpairs)
  rw [hedges, List.map_singleton, List.cons.injEq, Prod.mk.injEq] at hpairs
  have hback := h e (by simp [hedges]) "located_in" "located_in" hpairs.1.1 rfl
  simp [hpairs.1.2] at hback

/-! ### Dropping code tokens -/

/-- The run deletes the edge. -/
def Deleted (mapper : Mapper) (args : Args) (g : Graph) (e : Edge) : Prop :=
  e.id ∉ (migrate mapper args g).edges.map Edge.id

/-- The plan of the run counts the edge under `dropped_edges`. -/
def countedDropped (mapper : Mapper) (args : Args) (e : Edge) : Bool :=
  (args.column e).any fun p => mapper p = none

/-- The edges that a run deletes are the ones that its plan counts as dropped, and as many as it
reports. -/
structure DropsReported (mapper : Mapper) (args : Args) (g : Graph) : Prop where
  deleted_iff : ∀ e ∈ g.edges, Deleted mapper args g e ↔ countedDropped mapper args e
  count_eq : (migrate mapper args g).edges.length + (currentPlan mapper args g).droppedEdges =
    g.edges.length

section drops

variable {mapper : Mapper} {args : Args} {g : Graph}

/-- The plan reports as many edges as it counts. -/
lemma droppedEdges_eq_countP (mapper : Mapper) (args : Args) (g : Graph) :
    (currentPlan mapper args g).droppedEdges = g.edges.countP (countedDropped mapper args) := by
  have hdrops : ∀ l counts : List String,
      ((l.map fun rt => (⟨rt, counts.count rt⟩ : VocabRow)).filterMap (dropOf mapper)).map
        Drop.edges = (l.filter fun p => mapper p = none).map fun p => counts.count p := by
    intro l counts
    induction l with
    | nil => rfl
    | cons p l ih => cases hmap : mapper p <;> simp_all [dropOf]
  rw [currentPlan, droppedEdges_eq, fetchVocab, Graph.frequencies, hdrops,
    List.sum_map_count_dedup_filter_eq_countP, List.countP_filterMap]
  refine List.countP_congr fun e _ => ?_
  cases hcol : args.column e <;> simp [countedDropped, hcol]

/-- With `--drop-code-tokens`, an edge is deleted for its original. -/
lemma deleted_iff_deletes (hdrop : args.dropCodeTokens = true) {e : Edge} (he : e ∈ g.edges) :
    Deleted mapper args g e ↔ (currentPlan mapper args g).deletes e = true := by
  rw [Deleted, List.mem_map]
  constructor
  · intro h
    by_contra hdel
    exact h ⟨_, mem_migrate.2 ⟨e, he, fun _ => by simpa using hdel, rfl⟩, e.updated_id _ _⟩
  · rintro hdel ⟨e', he', hid⟩
    obtain ⟨e'', he'', hkept, rfl⟩ := mem_migrate.1 he'
    rw [Edge.updated_id] at hid
    -- the ids are distinct, so it is the same edge
    obtain rfl := List.inj_on_of_nodup_map g.nodup he'' he hid
    simp [hkept hdrop] at hdel

end drops

/-- **Drops as reported.**  The edges that `--drop-code-tokens` deletes are the ones the plan
counts as dropped, if and only if the plan goes by the originals, or every edge has an original
that is dropped exactly when its current predicate is. -/
theorem drops_reported (mapper : Mapper) (remapExisting : Bool) (g : Graph) :
    DropsReported mapper ⟨remapExisting, true⟩ g ↔ remapExisting = true ∨ ∀ e ∈ g.edges,
      ((∃ p, e.original = some p ∧ mapper p = none ∧ ∃ e' ∈ g.edges, e'.relationType = some p) ↔
        ∃ p, e.relationType = some p ∧ mapper p = none) := by
  set args : Args := ⟨remapExisting, true⟩ with hargs
  have hcounted : ∀ e : Edge, countedDropped mapper args e = true ↔
      ∃ p, args.column e = some p ∧ mapper p = none := by
    intro e
    cases hcol : args.column e <;> simp [countedDropped, hcol]
  constructor
  · rintro ⟨hdeleted, -⟩
    cases remapExisting with
    | true => exact .inl rfl
    | false =>
        refine .inr fun e he => ?_
        have h := (deleted_iff_deletes rfl he).symm.trans (hdeleted e he)
        rw [deletes_iff, hcounted] at h
        exact h
  · intro h
    have hdeletes : ∀ e ∈ g.edges,
        (currentPlan mapper args g).deletes e = countedDropped mapper args e := by
      intro e he
      rw [Bool.eq_iff_iff, deletes_iff, hcounted]
      rcases h with rfl | h
      · constructor
        · rintro ⟨p, hp, hnone, -⟩
          exact ⟨p, hp, hnone⟩
        · rintro ⟨p, hp, hnone⟩
          exact ⟨p, hp, hnone, e, he, hp⟩
      · cases remapExisting with
        | true =>
            constructor
            · rintro ⟨p, hp, hnone, -⟩
              exact ⟨p, hp, hnone⟩
            · rintro ⟨p, hp, hnone⟩
              exact ⟨p, hp, hnone, e, he, hp⟩
        | false => exact h e he
    refine ⟨fun e he => ?_, ?_⟩
    · rw [deleted_iff_deletes rfl he, hdeletes e he]
    · rw [droppedEdges_eq_countP, migrate_edges, List.length_map]
      have hfilter : (g.edges.filter fun e =>
          !(args.dropCodeTokens && (currentPlan mapper args g).deletes e)) =
          g.edges.filter fun e => !countedDropped mapper args e := by
        refine List.filter_congr fun e he => ?_
        rw [hdeletes e he]
        rfl
      rw [hfilter, ← List.countP_eq_length_filter, Nat.add_comm]
      have hsplit := List.length_eq_countP_add_countP (countedDropped mapper args) (l := g.edges)
      simpa using hsplit.symm

/-- An earlier run sent `relates` to `cd`, which the mapper of the next run drops: it is counted
and not deleted. -/
theorem drops_reported_fails : ∃ s : History, migrationSystem.Reachable s ∧
    ¬ DropsReported (fun p => if p = "cd" then none else some p) ⟨false, true⟩ s.current := by
  have hstart : migrationSystem.Reachable ⟨oneEdge "relates", oneEdge "relates"⟩ :=
    .init ⟨rfl, by simp [oneEdge, JsonObject.has, JsonObject.ofList, rawKey, relationKey]⟩
  obtain ⟨s, hs, hend⟩ := migrationSystem.exists_of_exec_any
    ⟨oneEdge "relates", oneEdge "relates"⟩
    [⟨[⟨"relates", 1⟩], fun _ => some "cd", ⟨false, false⟩⟩]
    (fun s => decide (
      (migrate (fun p => if p = "cd" then none else some p) ⟨false, true⟩ s.current).edges.length =
        1 ∧
      (currentPlan (fun p => if p = "cd" then none else some p) ⟨false, true⟩
        s.current).droppedEdges = 1 ∧ s.current.edges.length = 1)) (by decide)
  obtain ⟨hleft, hreported, hbefore⟩ := of_decide_eq_true hend
  refine ⟨s, hstart.exec hs, fun h => ?_⟩
  have hcount := h.count_eq
  omega

end PalaceDaemon.Migration

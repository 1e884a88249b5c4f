/-
The plan of a migration run, and its application.

`build_plan` goes through the predicates of the graph with their numbers of edges, asks the
mapper for the canonical form of each, and sorts them into what is remapped, what is dropped as
a code token and what stays.  `_apply` runs the UPDATE with the remapped predicates and then,
with `--drop-code-tokens`, the DELETE with the dropped ones.

Both fill a temporary table with a primary key from the plan, so a predicate that the plan lists
twice makes the run raise before it changes anything.  A vocabulary that was read from the graph
lists no predicate twice; one from `--freq-file` may.

The mapper is a parameter.  The shares in percent that are only printed are left out.
-/
import Mathlib
import PalaceDaemon.Migration.Graph

namespace PalaceDaemon.Migration

/-- A predicate with its number of edges. -/
structure VocabRow where
  rt : String
  n : ℕ
deriving DecidableEq, Repr

/-- `CanonicalMapper.map_predicate`, without the score. -/
abbrev Mapper := String → Option String

/-- The options of a run. -/
structure Args where
  remapExisting : Bool
  dropCodeTokens : Bool
deriving DecidableEq, Repr

/-! ### The vocabulary -/

/-- `RETURN column AS rt, count(*) AS n`, without the row of the edges that have none.  In what
order the rows come is not specified, and nothing depends on it. -/
def Graph.frequencies (column : Edge → Option String) (g : Graph) : List VocabRow :=
  (g.edges.filterMap column).dedup.map fun rt => ⟨rt, (g.edges.filterMap column).count rt⟩

/-- The predicate that the frequency query of a run reads: `_FREQ_CYPHER` or
`_FREQ_CYPHER_REMAP`. -/
def Args.column (args : Args) : Edge → Option String :=
  if args.remapExisting then Edge.original else Edge.relationType

/-- `_fetch_vocab_readonly` -/
def fetchVocab (args : Args) (g : Graph) : List VocabRow := g.frequencies args.column

/-! ### The plan -/

/-- A predicate that the plan rewrites. -/
structure Remap where
  raw : String
  canonical : String
  edges : ℕ
deriving DecidableEq, Repr

/-- A predicate that the plan drops. -/
structure Drop where
  raw : String
  edges : ℕ
deriving DecidableEq, Repr

/-- The variables of the loop of `build_plan`. -/
structure Tally where
  remaps : List Remap
  drops : List Drop
  unchangedDistinct : ℕ
  unchangedEdges : ℕ
  changedEdges : ℕ
  droppedEdges : ℕ
  droppedDistinct : ℕ
  otherEdges : ℕ
  otherDistinct : ℕ
  afterDistinct : Finset String
  canonEdges : List (String × ℕ)

/-- `canon_edges[canon] += n` -/
def addEdges (canon : String) (n : ℕ) : List (String × ℕ) → List (String × ℕ)
  | [] => [(canon, n)]
  | (c, m) :: rest => if c = canon then (c, m + n) :: rest else (c, m) :: addEdges canon n rest

/-- One turn of the loop of `build_plan`. -/
def Tally.row (mapper : Mapper) (t : Tally) (e : VocabRow) : Tally :=
  match mapper e.rt with
  | none =>
      { t with
        droppedEdges := t.droppedEdges + e.n
        droppedDistinct := t.droppedDistinct + 1
        drops := t.drops ++ [⟨e.rt, e.n⟩] }
  | some canon =>
      let t := { t with
        afterDistinct := insert canon t.afterDistinct
        canonEdges := addEdges canon e.n t.canonEdges
        otherEdges := if canon = "other" then t.otherEdges + e.n else t.otherEdges
        otherDistinct := if canon = "other" then t.otherDistinct + 1 else t.otherDistinct }
      if canon = e.rt then
        { t with
          unchangedDistinct := t.unchangedDistinct + 1
          unchangedEdges := t.unchangedEdges + e.n }
      else
        { t with
          changedEdges := t.changedEdges + e.n
          remaps := t.remaps ++ [⟨e.rt, canon, e.n⟩] }

/-- The variables before the loop. -/
def Tally.zero : Tally where
  remaps := []
  drops := []
  unchangedDistinct := 0
  unchangedEdges := 0
  changedEdges := 0
  droppedEdges := 0
  droppedDistinct := 0
  otherEdges := 0
  otherDistinct := 0
  afterDistinct := ∅
  canonEdges := []

/-- The rewrite plan. -/
structure Plan where
  totalEdges : ℕ
  rawDistinct : ℕ
  afterDistinct : ℕ
  edgesWouldChange : ℕ
  edgesUnchanged : ℕ
  distinctRemapped : ℕ
  otherEdges : ℕ
  otherDistinct : ℕ
  droppedEdges : ℕ
  droppedDistinct : ℕ
  topCanonicals : List (String × ℕ)
  topRemaps : List Remap
  topDrops : List Drop
  /-- The full list, which `--apply` uses. -/
  remaps : List Remap
  /-- The full list, which `--drop-code-tokens` uses. -/
  drops : List Drop

/-- `build_plan` -/
def buildPlan (vocab : List VocabRow) (mapper : Mapper) : Plan :=
  let t := vocab.foldl (Tally.row mapper) .zero
  let remaps := t.remaps.insertionSort fun a b => b.edges ≤ a.edges
  let drops := t.drops.insertionSort fun a b => b.edges ≤ a.edges
  { totalEdges := (vocab.map VocabRow.n).sum
    rawDistinct := vocab.length
    afterDistinct := t.afterDistinct.card
    edgesWouldChange := t.changedEdges
    edgesUnchanged := t.unchangedEdges
    distinctRemapped := remaps.length
    otherEdges := t.otherEdges
    otherDistinct := t.otherDistinct
    droppedEdges := t.droppedEdges
    droppedDistinct := t.droppedDistinct
    topCanonicals := (t.canonEdges.insertionSort fun a b => b.2 ≤ a.2).take 25
    topRemaps := remaps.take 30
    topDrops := drops.take 30
    remaps
    drops }

/-! ### The application -/

/-- The rows of `predicate_mapping`. -/
def Plan.mapping (plan : Plan) : List (String × String) :=
  plan.remaps.map fun r => (r.raw, r.canonical)

/-- The UPDATE of a run, on a row of the table. -/
def Edge.updated (plan : Plan) (args : Args) (e : Edge) : Edge :=
  if args.remapExisting then e.remap plan.mapping else e.migrate plan.mapping

@[simp] lemma Edge.updated_id (plan : Plan) (args : Args) (e : Edge) :
    (e.updated plan args).id = e.id := by
  unfold Edge.updated
  split <;> simp

/-- The UPDATE keeps the original of every row. -/
@[simp] lemma Edge.updated_original (plan : Plan) (args : Args) (e : Edge) :
    (e.updated plan args).original = e.original := by
  unfold Edge.updated
  split <;> simp

/-- The UPDATE of `_apply`. -/
def applyUpdate (plan : Plan) (args : Args) (g : Graph) : Graph :=
  g.update (Edge.updated plan args) (Edge.updated_id plan args)

/-- The edge has a dropped predicate as its original. -/
def Plan.deletes (plan : Plan) (e : Edge) : Bool :=
  plan.drops.any fun d => e.original = some d.raw

/-- `_drop_code_tokens` -/
def dropCodeTokens (plan : Plan) (g : Graph) : Graph :=
  if (plan.drops.map Drop.raw).Nodup then g.delete plan.deletes else g

/-- `_apply` -/
def apply (plan : Plan) (args : Args) (g : Graph) : Graph :=
  if plan.remaps = [] then
    if args.dropCodeTokens then dropCodeTokens plan g else g
  else if (plan.remaps.map Remap.raw).Nodup then
    if args.dropCodeTokens then dropCodeTokens plan (applyUpdate plan args g)
    else applyUpdate plan args g
  -- the COPY has raised
  else g

/-- A run with `--apply`, on the graph as it is. -/
def migrate (mapper : Mapper) (args : Args) (g : Graph) : Graph :=
  apply (buildPlan (fetchVocab args g) mapper) args g

/-! ### What the plan says -/

section plan

variable {vocab : List VocabRow} {mapper : Mapper}

/-- What a predicate adds to the remaps. -/
def remapOf (mapper : Mapper) (e : VocabRow) : Option Remap :=
  match mapper e.rt with
  | none => none
  | some canon => if canon = e.rt then none else some ⟨e.rt, canon, e.n⟩

/-- What a predicate adds to the drops. -/
def dropOf (mapper : Mapper) (e : VocabRow) : Option Drop :=
  match mapper e.rt with
  | none => some ⟨e.rt, e.n⟩
  | some _ => none

lemma row_remaps (t : Tally) (e : VocabRow) :
    (t.row mapper e).remaps = t.remaps ++ (remapOf mapper e).toList := by
  unfold Tally.row remapOf
  cases mapper e.rt with
  | none => simp
  | some canon => by_cases hsame : canon = e.rt <;> simp [hsame]

lemma row_drops (t : Tally) (e : VocabRow) :
    (t.row mapper e).drops = t.drops ++ (dropOf mapper e).toList := by
  unfold Tally.row dropOf
  cases mapper e.rt with
  | none => simp
  | some canon => by_cases hsame : canon = e.rt <;> simp [hsame]

lemma row_droppedEdges (t : Tally) (e : VocabRow) :
    (t.row mapper e).droppedEdges =
      t.droppedEdges + ((dropOf mapper e).toList.map Drop.edges).sum := by
  unfold Tally.row dropOf
  cases mapper e.rt with
  | none => simp
  | some canon => by_cases hsame : canon = e.rt <;> simp [hsame]

/-- The loop collects what each predicate adds. -/
lemma foldl_row (vocab : List VocabRow) (t : Tally) :
    (vocab.foldl (Tally.row mapper) t).remaps = t.remaps ++ vocab.filterMap (remapOf mapper) ∧
    (vocab.foldl (Tally.row mapper) t).drops = t.drops ++ vocab.filterMap (dropOf mapper) ∧
    (vocab.foldl (Tally.row mapper) t).droppedEdges =
      t.droppedEdges + ((vocab.filterMap (dropOf mapper)).map Drop.edges).sum := by
  induction vocab generalizing t with
  | nil => simp
  | cons e vocab ih =>
      obtain ⟨hremaps, hdrops, hedges⟩ := ih (t.row mapper e)
      refine ⟨?_, ?_, ?_⟩
      · rw [List.foldl_cons, hremaps, row_remaps, List.filterMap_cons]
        cases remapOf mapper e <;> simp
      · rw [List.foldl_cons, hdrops, row_drops, List.filterMap_cons]
        cases dropOf mapper e <;> simp
      · rw [List.foldl_cons, hedges, row_droppedEdges, List.filterMap_cons]
        cases dropOf mapper e <;> simp [add_assoc]

lemma remaps_perm : (buildPlan vocab mapper).remaps.Perm (vocab.filterMap (remapOf mapper)) := by
  have hfold : (vocab.foldl (Tally.row mapper) .zero).remaps = vocab.filterMap (remapOf mapper) :=
    (foldl_row vocab .zero).1
  show (List.insertionSort _ _).Perm _
  rw [hfold]
  exact List.perm_insertionSort _ _

lemma drops_perm : (buildPlan vocab mapper).drops.Perm (vocab.filterMap (dropOf mapper)) := by
  have hfold : (vocab.foldl (Tally.row mapper) .zero).drops = vocab.filterMap (dropOf mapper) :=
    (foldl_row vocab .zero).2.1
  show (List.insertionSort _ _).Perm _
  rw [hfold]
  exact List.perm_insertionSort _ _

/-- The reported number is the sum over what is dropped. -/
lemma droppedEdges_eq : (buildPlan vocab mapper).droppedEdges =
    ((vocab.filterMap (dropOf mapper)).map Drop.edges).sum := by
  have hfold := (@foldl_row mapper vocab .zero).2.2
  show (vocab.foldl (Tally.row mapper) .zero).droppedEdges = _
  rw [hfold]
  show 0 + _ = _
  rw [Nat.zero_add]

/-- The plan remaps the predicates that the mapper sends elsewhere. -/
lemma mem_mapping {p canonical : String} :
    (p, canonical) ∈ (buildPlan vocab mapper).mapping ↔
      p ∈ vocab.map VocabRow.rt ∧ mapper p = some canonical ∧ canonical ≠ p := by
  simp only [Plan.mapping, List.mem_map, remaps_perm.mem_iff, List.mem_filterMap]
  constructor
  · rintro ⟨r, ⟨e, he, hr⟩, hpair⟩
    unfold remapOf at hr
    cases hmap : mapper e.rt with
    | none => simp [hmap] at hr
    | some canon =>
        by_cases hsame : canon = e.rt
        · simp [hmap, hsame] at hr
        · obtain rfl : Remap.mk e.rt canon e.n = r := by simpa [hmap, hsame] using hr
          obtain ⟨rfl, rfl⟩ := Prod.mk.inj hpair
          exact ⟨⟨e, he, rfl⟩, hmap, hsame⟩
  · rintro ⟨⟨e, he, rfl⟩, hmap, hne⟩
    exact ⟨⟨e.rt, canonical, e.n⟩, ⟨e, he, by simp [remapOf, hmap, hne]⟩, rfl⟩

/-- The plan drops the predicates that the mapper maps to nothing. -/
lemma mem_drops {p : String} :
    p ∈ (buildPlan vocab mapper).drops.map Drop.raw ↔
      p ∈ vocab.map VocabRow.rt ∧ mapper p = none := by
  simp only [List.mem_map, drops_perm.mem_iff, List.mem_filterMap]
  constructor
  · rintro ⟨d, ⟨e, he, hd⟩, rfl⟩
    unfold dropOf at hd
    cases hmap : mapper e.rt with
    | none =>
        obtain rfl : Drop.mk e.rt e.n = d := by simpa [hmap] using hd
        exact ⟨⟨e, he, rfl⟩, hmap⟩
    | some canon => simp [hmap] at hd
  · rintro ⟨⟨e, he, rfl⟩, hmap⟩
    exact ⟨⟨e.rt, e.n⟩, ⟨e, he, by simp [dropOf, hmap]⟩, rfl⟩

lemma map_raw_remaps_sublist (vocab : List VocabRow) :
    ((vocab.filterMap (remapOf mapper)).map Remap.raw).Sublist (vocab.map VocabRow.rt) := by
  induction vocab with
  | nil => simp
  | cons e vocab ih =>
      rw [List.filterMap_cons]
      cases hr : remapOf mapper e with
      | none => exact ih.cons _
      | some r =>
          have hraw : r.raw = e.rt := by
            unfold remapOf at hr
            split at hr
            · cases hr
            · split_ifs at hr
              cases hr
              rfl
          simp only [List.map_cons, hraw]
          exact ih.cons_cons _

lemma map_raw_drops_sublist (vocab : List VocabRow) :
    ((vocab.filterMap (dropOf mapper)).map Drop.raw).Sublist (vocab.map VocabRow.rt) := by
  induction vocab with
  | nil => simp
  | cons e vocab ih =>
      rw [List.filterMap_cons]
      cases hd : dropOf mapper e with
      | none => exact ih.cons _
      | some d =>
          have hraw : d.raw = e.rt := by
            unfold dropOf at hd
            split at hd
            · cases hd
              rfl
            · cases hd
          simp only [List.map_cons, hraw]
          exact ih.cons_cons _

/-- A vocabulary without duplicates gives a plan without duplicates. -/
lemma remaps_nodup (h : (vocab.map VocabRow.rt).Nodup) :
    ((buildPlan vocab mapper).remaps.map Remap.raw).Nodup :=
  (remaps_perm.map Remap.raw).nodup_iff.2 (h.sublist (map_raw_remaps_sublist vocab))

lemma drops_nodup (h : (vocab.map VocabRow.rt).Nodup) :
    ((buildPlan vocab mapper).drops.map Drop.raw).Nodup :=
  (drops_perm.map Drop.raw).nodup_iff.2 (h.sublist (map_raw_drops_sublist vocab))

/-- The mapping is a function. -/
lemma lookup_mapping {p canonical : String} :
    (buildPlan vocab mapper).mapping.lookup p = some canonical ↔
      p ∈ vocab.map VocabRow.rt ∧ mapper p = some canonical ∧ canonical ≠ p := by
  have hmem : ∀ {c}, (buildPlan vocab mapper).mapping.lookup p = some c →
      (p, c) ∈ (buildPlan vocab mapper).mapping := by
    intro c hc
    obtain ⟨l, r, hl, -⟩ := List.lookup_eq_some_iff.1 hc
    rw [hl]
    simp
  constructor
  · exact fun h => mem_mapping.1 (hmem h)
  · intro h
    have hsome : ((buildPlan vocab mapper).mapping.lookup p).isSome = true :=
      List.lookup_isSome_iff.2 ⟨_, mem_mapping.2 h, beq_self_eq_true p⟩
    obtain ⟨c, hc⟩ := Option.isSome_iff_exists.1 hsome
    -- both targets are the mapper's
    have hsame := (mem_mapping.1 (hmem hc)).2.1
    rw [h.2.1] at hsame
    rw [hc, ← hsame]

end plan

/-! ### The plan of the graph as it is -/

section current

variable {g : Graph} {args : Args} {mapper : Mapper}

@[simp] lemma map_rt_frequencies (column : Edge → Option String) (g : Graph) :
    (g.frequencies column).map VocabRow.rt = (g.edges.filterMap column).dedup := by
  simp [Graph.frequencies, Function.comp_def]

lemma nodup_fetchVocab (args : Args) (g : Graph) : ((fetchVocab args g).map VocabRow.rt).Nodup := by
  rw [fetchVocab, map_rt_frequencies]
  exact List.nodup_dedup _

lemma mem_fetchVocab {p : String} :
    p ∈ (fetchVocab args g).map VocabRow.rt ↔ ∃ e ∈ g.edges, args.column e = some p := by
  rw [fetchVocab, map_rt_frequencies, List.mem_dedup, List.mem_filterMap]

end current

end PalaceDaemon.Migration

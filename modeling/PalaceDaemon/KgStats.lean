/-
The connectivity statistics of the knowledge graph (`compute_structural_stats`).

The edges are merged one by one in a union-find whose parent map is compressed while it is walked;
afterwards the nodes are counted under their roots.  The loops run on fuel here.  `structural_stats`
says that they end, and that what they count are the connected components of the graph on the
endpoints of the edges, with each entity without an edge as a component of its own.

The fraction of the largest component, a quotient of two of these numbers as a float, and the
modularity that `networkx` computes are left out.
-/
import Mathlib
import PalaceDaemon.Lib.UnionFind

namespace PalaceDaemon.KgStats

open Relation UnionFind

variable {α : Type} [DecidableEq α]

/-! ### The union-find -/

/-- The maps `parent`, with its keys in order, and `size`. -/
structure Forest (α : Type) where
  nodes : List α
  parent : α → Option α
  size : α → Option ℕ

def Forest.empty : Forest α := ⟨[], fun _ => none, fun _ => none⟩

/-- `_find` -/
def Forest.find (n : ℕ) (forest : Forest α) (x : α) : Option (Forest α × α) := do
  let root ← climb n forest.parent x
  let parent ← compress n forest.parent root x
  some ({ forest with parent := parent }, root)

/-- `_add` -/
def Forest.add (forest : Forest α) (x : α) : Forest α :=
  if (forest.parent x).isSome then forest
  else
    { nodes := forest.nodes ++ [x]
      parent := setParent forest.parent x x
      size := fun y => if y = x then some 1 else forest.size y }

/-- The root `rb` becomes a child of the root `ra`. -/
def Forest.link (forest : Forest α) (ra rb : α) : Option (Forest α) := do
  let sizeA ← forest.size ra
  let sizeB ← forest.size rb
  some
    { forest with
      parent := setParent forest.parent rb ra
      size := fun y => if y = ra then some (sizeA + sizeB) else forest.size y }

/-- Union by size. -/
def Forest.union (forest : Forest α) (ra rb : α) : Option (Forest α) := do
  let sizeA ← forest.size ra
  let sizeB ← forest.size rb
  if sizeA < sizeB then forest.link rb ra else forest.link ra rb

/-- The body of the loop over the edges. -/
def addEdge (n : ℕ) (forest : Forest α) (edge : Option α × Option α) : Option (Forest α) :=
  match edge with
  | (some a, some b) => do
      let (forest, ra) ← ((forest.add a).add b).find n a
      let (forest, rb) ← forest.find n b
      if ra ≠ rb then forest.union ra rb else some forest
  | _ => some forest

/-- The loop over the edges. -/
def connect (n : ℕ) (edges : List (Option α × Option α)) : Option (Forest α) :=
  edges.foldlM (addEdge n) Forest.empty

/-! ### The statistics -/

/-- `comp_sizes[root] = comp_sizes.get(root, 0) + 1` -/
def increment (compSizes : List (α × ℕ)) (root : α) : List (α × ℕ) :=
  match compSizes with
  | [] => [(root, 1)]
  | (key, count) :: rest =>
      if key = root then (key, count + 1) :: rest else (key, count) :: increment rest root

/-- The body of the loop over the nodes. -/
def countNode (n : ℕ) (state : Forest α × List (α × ℕ)) (node : α) :
    Option (Forest α × List (α × ℕ)) := do
  let (forest, root) ← state.1.find n node
  some (forest, increment state.2 root)

structure Stats where
  entities : ℕ
  edges : ℕ
  componentCount : ℕ
  largestComponentSize : ℕ
  isolateCount : ℕ
  componentSizeHistogram : List ℕ
deriving DecidableEq

/-- Neither endpoint of the edge is missing. -/
def isComplete (edge : Option α × Option α) : Bool := edge.1.isSome && edge.2.isSome

/-- `compute_structural_stats` -/
def computeStructuralStats (n : ℕ) (edges : List (Option α × Option α)) (totalEntities : ℕ) :
    Option Stats := do
  let forest ← connect n edges
  let (_, compSizes) ← forest.nodes.foldlM (countNode n) (forest, [])
  let components := (compSizes.map Prod.snd).insertionSort (· ≥ ·)
  let isolateCount := totalEntities - forest.nodes.length
  some
    { entities := totalEntities
      edges := (edges.filter isComplete).length
      componentCount := components.length + isolateCount
      largestComponentSize := components.headD (if totalEntities = 0 then 0 else 1)
      isolateCount := isolateCount
      componentSizeHistogram := components.take 20 }

/-! ### The graph -/

/-- The edges neither endpoint of which is missing. -/
def Joins (edges : List (Option α × Option α)) (a b : α) : Prop := (some a, some b) ∈ edges

/-- The endpoints of these edges. -/
def endpoints (edges : List (Option α × Option α)) : Finset α :=
  (edges.flatMap fun edge =>
    match edge with
    | (some a, some b) => [a, b]
    | _ => []).toFinset

/-- The undirected graph of the edges. -/
def graph (edges : List (Option α × Option α)) : SimpleGraph α := SimpleGraph.fromRel (Joins edges)

open Classical in
/-- The connected components of the endpoints. -/
noncomputable def components (edges : List (Option α × Option α)) :
    Finset (graph edges).ConnectedComponent :=
  (endpoints edges).image (graph edges).connectedComponentMk

noncomputable def componentSizes (edges : List (Option α × Option α)) : Multiset ℕ :=
  (components edges).val.map fun component => component.supp.ncard

/-- With the isolates: the entities that are no endpoint, each a component of its own. -/
noncomputable def entitySizes (edges : List (Option α × Option α)) (totalEntities : ℕ) :
    Multiset ℕ :=
  componentSizes edges + Multiset.replicate (totalEntities - (endpoints edges).card) 1

lemma mem_endpoints {edges : List (Option α × Option α)} {x : α} :
    x ∈ endpoints edges ↔ ∃ a b, Joins edges a b ∧ (x = a ∨ x = b) := by
  rw [endpoints, List.mem_toFinset, List.mem_flatMap]
  constructor
  · rintro ⟨⟨_ | a, _ | b⟩, hmem, hx⟩
    · cases hx
    · cases hx
    · cases hx
    · refine ⟨a, b, hmem, ?_⟩
      simpa using hx
  · rintro ⟨a, b, hmem, hx⟩
    exact ⟨_, hmem, by simpa using hx⟩

/-- Related elements are endpoints together. -/
lemma mem_endpoints_iff_of_eqvGen {edges : List (Option α × Option α)} {x y : α}
    (h : EqvGen (Joins edges) x y) : x ∈ endpoints edges ↔ y ∈ endpoints edges := by
  induction h with
  | rel a b hab =>
    exact iff_of_true (mem_endpoints.2 ⟨a, b, hab, .inl rfl⟩)
      (mem_endpoints.2 ⟨a, b, hab, .inr rfl⟩)
  | refl x => exact Iff.rfl
  | symm x y _ ih => exact ih.symm
  | trans x y z _ _ ih ih' => exact ih.trans ih'

/-- Reachability in the graph is the equivalence closure of the edges. -/
lemma reachable_iff {edges : List (Option α × Option α)} {x y : α} :
    (graph edges).Reachable x y ↔ EqvGen (Joins edges) x y := by
  constructor
  · rw [SimpleGraph.reachable_iff_reflTransGen]
    intro h
    induction h with
    | refl => exact .refl x
    | tail _ hadj ih =>
      rw [graph, SimpleGraph.fromRel_adj] at hadj
      rcases hadj.2 with hab | hba
      · exact ih.trans _ _ _ (.rel _ _ hab)
      · exact ih.trans _ _ _ (.symm _ _ (.rel _ _ hba))
  · intro h
    induction h with
    | rel a b hab =>
      by_cases heq : a = b
      · rw [heq]
      · refine SimpleGraph.Adj.reachable ?_
        rw [graph, SimpleGraph.fromRel_adj]
        exact ⟨heq, .inl hab⟩
    | refl x => exact .refl x
    | symm x y _ ih => exact ih.symm
    | trans x y z _ _ ih ih' => exact ih.trans ih'

/-! ### The operations -/

/-- What the maps keep, whatever the edges are. -/
structure WellFormed (forest : Forest α) (root : α → α) (depth : α → ℕ) : Prop where
  rooted : Rooted forest.parent root depth
  nodup : forest.nodes.Nodup
  mem_nodes : ∀ x, x ∈ forest.nodes ↔ (forest.parent x).isSome
  sized : ∀ x ∈ forest.nodes, (forest.size x).isSome

section Operations

variable {forest : Forest α} {root : α → α} {depth : α → ℕ}

/-- `_find` ends and returns the root, and the nodes keep their roots. -/
lemma WellFormed.find (h : WellFormed forest root depth) {x : α} (hx : x ∈ forest.nodes) :
    ∃ forest', (∀ n, depth x < n → forest.find n x = some (forest', root x)) ∧
      WellFormed forest' root depth ∧ forest'.nodes = forest.nodes := by
  have hsome := (h.mem_nodes x).1 hx
  obtain ⟨parent', hends, hrooted, hsame⟩ := h.rooted.compress_eq hsome
  refine ⟨{ forest with parent := parent' }, fun n hn => ?_,
    ⟨hrooted, h.nodup, fun y => ?_, h.sized⟩, rfl⟩
  · rw [Forest.find, h.rooted.climb_eq hsome hn, Option.bind_eq_bind, Option.bind_some, hends n hn]
    rfl
  · rw [hsame]
    exact h.mem_nodes y

lemma WellFormed.add (h : WellFormed forest root depth) (x : α) :
    WellFormed (forest.add x) root depth ∧
      ∀ y, y ∈ (forest.add x).nodes ↔ y ∈ forest.nodes ∨ y = x := by
  unfold Forest.add
  split_ifs with hx
  · refine ⟨h, fun y => (or_iff_left_of_imp ?_).symm⟩
    rintro rfl
    exact (h.mem_nodes y).2 hx
  · have hnew : x ∉ forest.nodes := fun hmem => hx ((h.mem_nodes x).1 hmem)
    have hmem : ∀ y, y ∈ forest.nodes ++ [x] ↔ y ∈ forest.nodes ∨ y = x := fun y => by
      rw [List.mem_append, List.mem_singleton]
    refine ⟨⟨h.rooted.add (Option.not_isSome_iff_eq_none.1 hx), ?_, fun y => ?_, fun y hy => ?_⟩,
      hmem⟩
    · refine h.nodup.append (List.nodup_singleton x) ?_
      exact List.disjoint_singleton.2 hnew
    · rw [hmem, h.mem_nodes]
      exact isSome_setParent.symm
    · dsimp only
      split_ifs with hyx
      · rfl
      · exact h.sized y (((hmem y).1 hy).resolve_right hyx)

/-- One root of two is put below the other. -/
lemma WellFormed.union (h : WellFormed forest root depth) {ra rb : α} (ha : ra ∈ forest.nodes)
    (hb : rb ∈ forest.nodes) (hroota : root ra = ra) (hrootb : root rb = rb) (hab : ra ≠ rb) :
    ∃ forest' r s depth', forest.union ra rb = some forest' ∧
      (r = ra ∧ s = rb ∨ r = rb ∧ s = ra) ∧
      WellFormed forest' (fun x => if root x = s then r else root x) depth' ∧
      forest'.nodes = forest.nodes := by
  have hlink : ∀ {r s}, r ∈ forest.nodes → s ∈ forest.nodes → root r = r → root s = s → r ≠ s →
      ∃ forest' depth', forest.link r s = some forest' ∧
        WellFormed forest' (fun x => if root x = s then r else root x) depth' ∧
        forest'.nodes = forest.nodes := by
    intro r s hr hs hrootr hroots hrs
    obtain ⟨sizeR, hsizeR⟩ := Option.isSome_iff_exists.1 (h.sized r hr)
    obtain ⟨sizeS, hsizeS⟩ := Option.isSome_iff_exists.1 (h.sized s hs)
    have hparentr := (h.rooted.parent_root ((h.mem_nodes r).1 hr)).1
    have hparents := (h.rooted.parent_root ((h.mem_nodes s).1 hs)).1
    rw [hrootr] at hparentr
    rw [hroots] at hparents
    have hrun : forest.link r s = some
        { forest with
          parent := setParent forest.parent s r
          size := fun y => if y = r then some (sizeR + sizeS) else forest.size y } := by
      rw [Forest.link, hsizeR, hsizeS]
      rfl
    refine ⟨_, _, hrun, ⟨h.rooted.link hparentr hparents hrs, h.nodup, fun y => ?_, fun y hy => ?_⟩,
      rfl⟩
    · rw [h.mem_nodes, isSome_setParent_of_isSome ((h.mem_nodes s).1 hs)]
    · dsimp only
      split_ifs
      · rfl
      · exact h.sized y hy
  obtain ⟨sizeA, hsizeA⟩ := Option.isSome_iff_exists.1 (h.sized ra ha)
  obtain ⟨sizeB, hsizeB⟩ := Option.isSome_iff_exists.1 (h.sized rb hb)
  have hunion : forest.union ra rb =
      if sizeA < sizeB then forest.link rb ra else forest.link ra rb := by
    rw [Forest.union, hsizeA, hsizeB]
    rfl
  rw [hunion]
  split_ifs
  · obtain ⟨forest', depth', hrun, hwf, hnodes⟩ := hlink hb ha hrootb hroota hab.symm
    exact ⟨forest', rb, ra, depth', hrun, .inr ⟨rfl, rfl⟩, hwf, hnodes⟩
  · obtain ⟨forest', depth', hrun, hwf, hnodes⟩ := hlink ha hb hroota hrootb hab
    exact ⟨forest', ra, rb, depth', hrun, .inl ⟨rfl, rfl⟩, hwf, hnodes⟩

end Operations

/-! ### The loop over the edges -/

/-- The maps after some edges: their endpoints, under roots that tell the components apart. -/
structure Represents (edges : List (Option α × Option α)) (forest : Forest α) (root : α → α)
    (depth : α → ℕ) : Prop extends WellFormed forest root depth where
  nodes : ∀ x, x ∈ forest.nodes ↔ x ∈ endpoints edges
  classes : ∀ x y, root x = root y ↔ EqvGen (Joins edges) x y

lemma represents_nil : Represents (α := α) [] Forest.empty id fun _ => 0 := by
  refine ⟨⟨⟨fun _ _ => rfl, fun _ _ => rfl, ?_⟩, List.nodup_nil, ?_, ?_⟩, ?_, fun x y => ⟨?_, ?_⟩⟩
  · rintro x p ⟨⟩
  · exact fun x => iff_of_false List.not_mem_nil Bool.false_ne_true
  · rintro x ⟨⟩
  · exact fun x => iff_of_false List.not_mem_nil (by simp [endpoints])
  · rintro rfl
    exact .refl x
  · intro h
    induction h with
    | rel a b hab => cases hab
    | refl x => rfl
    | symm x y _ ih => exact ih.symm
    | trans x y z _ _ ih ih' => exact ih.trans ih'

omit [DecidableEq α] in
lemma joins_concat {edges : List (Option α × Option α)} {a b : α} :
    Joins (edges ++ [(some a, some b)]) = fun x y => Joins edges x y ∨ x = a ∧ y = b := by
  ext x y
  simp [Joins]

omit [DecidableEq α] in
lemma joins_concat_of_incomplete {edges : List (Option α × Option α)}
    {edge : Option α × Option α} (h : ∀ a b, edge ≠ (some a, some b)) :
    Joins (edges ++ [edge]) = Joins edges := by
  ext x y
  have hne := (h x y).symm
  simp [Joins, hne]

lemma endpoints_congr {edges edges' : List (Option α × Option α)} (h : Joins edges' = Joins edges) :
    endpoints edges' = endpoints edges := by
  ext x
  rw [mem_endpoints, mem_endpoints, h]

section Edge

variable {edges : List (Option α × Option α)} {forest : Forest α} {root : α → α} {depth : α → ℕ}

lemma addEdge_of_incomplete {edge : Option α × Option α} (h : ∀ a b, edge ≠ (some a, some b))
    (n : ℕ) : addEdge n forest edge = some forest := by
  obtain ⟨_ | a, _ | b⟩ := edge
  · rfl
  · rfl
  · rfl
  · exact absurd rfl (h a b)

/-- Once both ends are nodes and their roots are found, a union, or none where the roots are one,
leaves the components with the edge. -/
lemma Represents.union (h : Represents edges forest root depth) {forest' : Forest α} {a b : α}
    (hwf : WellFormed forest' root depth)
    (hnodes : ∀ x, x ∈ forest'.nodes ↔ x ∈ forest.nodes ∨ x = a ∨ x = b) :
    ∃ forest'' root' depth',
      (if root a ≠ root b then forest'.union (root a) (root b) else some forest') = some forest'' ∧
      Represents (edges ++ [(some a, some b)]) forest'' root' depth' := by
  have hends : ∀ x, x ∈ forest'.nodes ↔ x ∈ endpoints (edges ++ [(some a, some b)]) := by
    intro x
    rw [hnodes, h.nodes, mem_endpoints, mem_endpoints, joins_concat]
    constructor
    · rintro (⟨c, d, hcd, hx⟩ | hx)
      · exact ⟨c, d, .inl hcd, hx⟩
      · exact ⟨a, b, .inr ⟨rfl, rfl⟩, hx⟩
    · rintro ⟨c, d, hcd | ⟨rfl, rfl⟩, hx⟩
      · exact .inl ⟨c, d, hcd, hx⟩
      · exact .inr hx
  have hroot : ∀ {x}, x ∈ forest'.nodes → root x ∈ forest'.nodes := fun hx => by
    have hparent := (hwf.rooted.parent_root ((hwf.mem_nodes _).1 hx)).1
    exact (hwf.mem_nodes _).2 (by rw [hparent]; rfl)
  by_cases hab : root a = root b
  · rw [if_neg (not_not.2 hab)]
    refine ⟨forest', root, depth, rfl, ⟨hwf, hends, fun x y => ?_⟩⟩
    have hlink := classifies_link h.classes (.inl ⟨rfl, rfl⟩) (a := a) (b := b) x y
    rw [joins_concat, ← hlink, hab, ite_eq_right_iff.2 fun hx => hx.symm,
      ite_eq_right_iff.2 fun hy => hy.symm]
  · rw [if_pos hab]
    obtain ⟨forest'', r, s, depth', hrun, hrs, hwf', hsame⟩ :=
      hwf.union (hroot ((hnodes a).2 (.inr (.inl rfl)))) (hroot ((hnodes b).2 (.inr (.inr rfl))))
        (hwf.rooted.root_root a) (hwf.rooted.root_root b) hab
    refine ⟨forest'', _, depth', hrun, ⟨hwf', fun x => ?_, fun x y => ?_⟩⟩
    · rw [hsame, hends]
    · rw [joins_concat]
      exact classifies_link h.classes hrs x y

/-- **One edge.** -/
lemma Represents.addEdge (h : Represents edges forest root depth)
    (edge : Option α × Option α) :
    ∃ N forest' root' depth', (∀ n, N ≤ n → addEdge n forest edge = some forest') ∧
      Represents (edges ++ [edge]) forest' root' depth' := by
  by_cases hcomplete : ∃ a b, edge = (some a, some b)
  · obtain ⟨a, b, rfl⟩ := hcomplete
    obtain ⟨hwfa, hmema⟩ := h.toWellFormed.add a
    obtain ⟨hwfb, hmemb⟩ := hwfa.add b
    obtain ⟨forest1, hfinda, hwf1, hsame1⟩ :=
      hwfb.find ((hmemb a).2 (.inl ((hmema a).2 (.inr rfl))))
    obtain ⟨forest2, hfindb, hwf2, hsame2⟩ :=
      hwf1.find (x := b) (hsame1 ▸ (hmemb b).2 (.inr rfl))
    obtain ⟨forest3, root', depth', hunion, h3⟩ := h.union (a := a) (b := b) hwf2 fun x => by
      rw [hsame2, hsame1, hmemb, hmema, or_assoc]
    refine ⟨max (depth a) (depth b) + 1, forest3, root', depth', fun n hn => ?_, h3⟩
    have ha : depth a < n := lt_of_le_of_lt (le_max_left ..) hn
    have hb : depth b < n := lt_of_le_of_lt (le_max_right ..) hn
    rw [← hunion, KgStats.addEdge]
    simp only [hfinda n ha, hfindb n hb, Option.bind_eq_bind, Option.bind_some]
  · push Not at hcomplete
    have hjoins : Joins (edges ++ [edge]) = Joins edges := joins_concat_of_incomplete hcomplete
    refine ⟨0, forest, root, depth, fun n _ => addEdge_of_incomplete hcomplete n,
      ⟨h.toWellFormed, fun x => ?_, fun x y => ?_⟩⟩
    · rw [endpoints_congr hjoins, h.nodes]
    · rw [hjoins, h.classes]

end Edge

/-- **The loop over the edges ends**, with a forest of their components. -/
theorem exists_represents (edges : List (Option α × Option α)) :
    ∃ N forest root depth, (∀ n, N ≤ n → connect n edges = some forest) ∧
      Represents edges forest root depth := by
  induction edges using List.reverseRecOn with
  | nil => exact ⟨0, Forest.empty, id, fun _ => 0, fun _ _ => rfl, represents_nil⟩
  | append_singleton edges edge ih =>
    obtain ⟨N, forest, root, depth, hrun, h⟩ := ih
    obtain ⟨N', forest', root', depth', hrun', h'⟩ := h.addEdge edge
    refine ⟨max N N', forest', root', depth', fun n hn => ?_, h'⟩
    rw [connect, List.foldlM_append, ← connect, hrun n (le_trans (le_max_left ..) hn)]
    simp only [Option.bind_eq_bind, Option.bind_some, List.foldlM_cons, List.foldlM_nil,
      hrun' n (le_trans (le_max_right ..) hn)]
    rfl

/-! ### The loop over the nodes -/

/-- The nodes are counted under their roots. -/
lemma WellFormed.countNodes {forest : Forest α} {root : α → α} {depth : α → ℕ}
    (h : WellFormed forest root depth) {n : ℕ} {nodes : List α}
    (hnodes : ∀ x ∈ nodes, x ∈ forest.nodes ∧ depth x < n) (compSizes : List (α × ℕ)) :
    ∃ forest', nodes.foldlM (countNode n) (forest, compSizes) =
      some (forest', (nodes.map root).foldl increment compSizes) := by
  induction nodes generalizing forest compSizes with
  | nil => exact ⟨forest, rfl⟩
  | cons x nodes ih =>
    obtain ⟨hx, hn⟩ := hnodes x List.mem_cons_self
    obtain ⟨forest1, hfind, h1, hsame⟩ := h.find hx
    obtain ⟨forest', hrun⟩ := ih h1
      (fun y hy => hsame ▸ hnodes y (List.mem_cons_of_mem _ hy)) (increment compSizes (root x))
    refine ⟨forest', ?_⟩
    rw [List.foldlM_cons, countNode, hfind n hn, List.map_cons, List.foldl_cons, ← hrun]
    rfl

lemma increment_map {c : α → ℕ} {keys : List α} {r : α} (hkeys : keys.Nodup) :
    increment (keys.map fun k => (k, c k)) r =
      if r ∈ keys then keys.map fun k => (k, if k = r then c k + 1 else c k)
      else keys.map (fun k => (k, c k)) ++ [(r, 1)] := by
  induction keys with
  | nil => rfl
  | cons k keys ih =>
    rw [List.nodup_cons] at hkeys
    rw [List.map_cons, increment]
    by_cases hkr : k = r
    · have hrest : ∀ k' ∈ keys, (k', if k' = r then c k' + 1 else c k') = (k', c k') := by
        intro k' hk'
        rw [if_neg]
        rintro rfl
        exact hkeys.1 (hkr ▸ hk')
      rw [if_pos hkr, if_pos (by rw [hkr]; exact List.mem_cons_self), List.map_cons, if_pos hkr,
        List.map_congr_left hrest]
    · have hmem : r ∈ k :: keys ↔ r ∈ keys := by
        rw [List.mem_cons, or_iff_right (Ne.symm hkr)]
      rw [if_neg hkr, ih hkeys.2]
      simp only [hmem]
      split_ifs
      · rw [List.map_cons, if_neg hkr]
      · rfl

/-- **The counts.** Every root that occurs is counted as often as it occurs. -/
theorem exists_keys (roots : List α) : ∃ keys : List α, keys.Nodup ∧
    (∀ k, k ∈ keys ↔ k ∈ roots) ∧
      roots.foldl increment [] = keys.map fun k => (k, roots.count k) := by
  induction roots using List.reverseRecOn with
  | nil => exact ⟨[], List.nodup_nil, fun _ => Iff.rfl, rfl⟩
  | append_singleton roots r ih =>
    obtain ⟨keys, hnodup, hmem, heq⟩ := ih
    rw [List.foldl_concat, heq, increment_map hnodup]
    have hcount : ∀ k, (roots ++ [r]).count k =
        if k = r then roots.count k + 1 else roots.count k := by
      intro k
      rw [List.count_append, List.count_singleton]
      by_cases hk : k = r
      · rw [if_pos hk, hk, beq_self_eq_true, if_pos rfl]
      · rw [if_neg hk, beq_false_of_ne (Ne.symm hk), if_neg Bool.false_ne_true, Nat.add_zero]
    by_cases hr : r ∈ keys
    · refine ⟨keys, hnodup, fun k => ?_, ?_⟩
      · rw [List.mem_append, List.mem_singleton, hmem, or_iff_left_of_imp]
        rintro rfl
        exact (hmem k).1 hr
      · rw [if_pos hr]
        exact List.map_congr_left fun k _ => by rw [hcount]
    · refine ⟨keys ++ [r], ?_, fun k => ?_, ?_⟩
      · exact hnodup.append (List.nodup_singleton r) (List.disjoint_singleton.2 hr)
      · rw [List.mem_append, List.mem_append, hmem]
      · have hzero : roots.count r = 0 := List.count_eq_zero.2 fun h => hr ((hmem r).2 h)
        rw [if_neg hr, List.map_append, List.map_singleton, hcount, if_pos rfl, hzero]
        refine congrArg (· ++ _) (List.map_congr_left fun k hk => ?_)
        rw [hcount, if_neg]
        rintro rfl
        exact hr hk

/-! ### The components -/

/-- Two functions with the same fibres have the same images, up to a renaming of the values. -/
lemma map_image_eq {β γ δ : Type} [DecidableEq β] [DecidableEq γ] {s : Finset α} {f : α → β}
    {g : α → γ} {u : β → δ} {v : γ → δ}
    (h : ∀ x ∈ s, ∀ y ∈ s, f x = f y ↔ g x = g y) (huv : ∀ x ∈ s, u (f x) = v (g x)) :
    (s.image f).val.map u = (s.image g).val.map v := by
  induction s using Finset.induction_on with
  | empty => rfl
  | insert x s hx ih =>
    have hs := ih
      (fun y hy z hz => h y (Finset.mem_insert_of_mem hy) z (Finset.mem_insert_of_mem hz))
      fun y hy => huv y (Finset.mem_insert_of_mem hy)
    have hx' := Finset.mem_insert_self x s
    have hmem : f x ∈ s.image f ↔ g x ∈ s.image g := by
      simp only [Finset.mem_image]
      exact exists_congr fun y => and_congr_right fun hy => h y (Finset.mem_insert_of_mem hy) x hx'
    rw [Finset.image_insert, Finset.image_insert]
    by_cases hf : f x ∈ s.image f
    · rw [Finset.insert_eq_of_mem hf, Finset.insert_eq_of_mem (hmem.1 hf), hs]
    · rw [Finset.insert_val_of_notMem hf, Finset.insert_val_of_notMem (mt hmem.2 hf),
        Multiset.map_cons, Multiset.map_cons, hs, huv x hx']

section Components

variable {edges : List (Option α × Option α)} {forest : Forest α} {root : α → α} {depth : α → ℕ}

/-- The component of an endpoint is the set of the endpoints with its root. -/
lemma Represents.ncard_supp (h : Represents edges forest root depth) {x : α}
    (hx : x ∈ endpoints edges) :
    ((graph edges).connectedComponentMk x).supp.ncard =
      ((endpoints edges).filter fun y => root y = root x).card := by
  rw [← Set.ncard_coe_finset]
  congr 1
  ext y
  rw [SimpleGraph.ConnectedComponent.mem_supp_iff, SimpleGraph.ConnectedComponent.eq,
    reachable_iff, Finset.mem_coe, Finset.mem_filter, h.classes]
  exact (and_iff_right_of_imp fun hyx => (mem_endpoints_iff_of_eqvGen hyx).2 hx).symm

lemma Represents.componentSizes_eq (h : Represents edges forest root depth) :
    componentSizes edges = ((endpoints edges).image root).val.map fun r =>
      ((endpoints edges).filter fun y => root y = r).card := by
  classical
  refine map_image_eq (fun x _ y _ => ?_) fun x hx => h.ncard_supp hx
  rw [SimpleGraph.ConnectedComponent.eq, reachable_iff, h.classes]

/-- The components partition the endpoints. -/
lemma Represents.sum_componentSizes (h : Represents edges forest root depth) :
    (componentSizes edges).sum = (endpoints edges).card := by
  rw [h.componentSizes_eq]
  exact (Finset.card_eq_sum_card_image root (endpoints edges)).symm

/-- The counts of the nodes under their roots are the sizes of the components. -/
lemma Represents.counts_eq (h : Represents edges forest root depth) :
    (((forest.nodes.map root).foldl increment []).map Prod.snd : Multiset ℕ) =
      componentSizes edges := by
  obtain ⟨keys, hnodup, hmem, heq⟩ := exists_keys (forest.nodes.map root)
  have hkeys : (keys : Multiset α) = ((endpoints edges).image root).val := by
    refine (Multiset.Nodup.ext (Multiset.coe_nodup.2 hnodup) (Finset.nodup _)).2 fun r => ?_
    rw [Multiset.mem_coe, hmem, List.mem_map, Finset.mem_val, Finset.mem_image]
    exact exists_congr fun x => and_congr_left fun _ => h.nodes x
  rw [h.componentSizes_eq, ← hkeys, heq, List.map_map, Multiset.map_coe]
  refine congrArg _ (List.map_congr_left fun r _ => ?_)
  have hnodes : forest.nodes.toFinset = endpoints edges := by
    ext x
    rw [List.mem_toFinset, h.nodes]
  have hfilter : (forest.nodes.toFinset.filter fun y => root y = r) =
      (forest.nodes.filter fun y => root y = r).toFinset := by
    ext y
    rw [Finset.mem_filter, List.mem_toFinset, List.mem_toFinset, List.mem_filter, decide_eq_true_eq]
  rw [← hnodes, hfilter, List.toFinset_card_of_nodup (h.nodup.filter _), Function.comp_apply,
    List.count, List.countP_map, List.countP_eq_length_filter]
  rfl

lemma Represents.length_nodes (h : Represents edges forest root depth) :
    forest.nodes.length = (endpoints edges).card := by
  rw [← List.toFinset_card_of_nodup h.nodup]
  refine congrArg _ ?_
  ext x
  rw [List.mem_toFinset, h.nodes]

/-- No component is empty. -/
lemma Represents.one_le_of_mem (h : Represents edges forest root depth) {k : ℕ}
    (hk : k ∈ componentSizes edges) : 1 ≤ k := by
  rw [h.componentSizes_eq, Multiset.mem_map] at hk
  obtain ⟨r, hr, rfl⟩ := hk
  rw [Finset.mem_val, Finset.mem_image] at hr
  obtain ⟨x, hx, rfl⟩ := hr
  exact Finset.card_pos.2 ⟨x, Finset.mem_filter.2 ⟨hx, rfl⟩⟩

/-- The first of the sizes in descending order is the largest of all entities' components. -/
lemma Represents.headD_sort (h : Represents edges forest root depth) (totalEntities : ℕ) :
    ((componentSizes edges).sort (· ≥ ·)).headD (if totalEntities = 0 then 0 else 1) =
      (entitySizes edges totalEntities).sup := by
  have hmem : ∀ k, k ∈ (componentSizes edges).sort (· ≥ ·) ↔ k ∈ componentSizes edges :=
    fun k => Multiset.mem_sort _
  have hsorted := Multiset.pairwise_sort (componentSizes edges) (· ≥ ·)
  rw [entitySizes, Multiset.sup_add]
  rcases hsort : (componentSizes edges).sort (· ≥ ·) with _ | ⟨k, rest⟩
  · -- there is no edge, and every entity is an isolate
    have hnone : componentSizes edges = 0 := by
      rw [← Multiset.sort_eq (componentSizes edges) (· ≥ ·), hsort]
      rfl
    have hends : (endpoints edges).card = 0 := by
      rw [← h.sum_componentSizes, hnone, Multiset.sum_zero]
    rw [hnone, hends, Multiset.sup_zero, bot_sup_eq, Nat.sub_zero, List.headD_nil]
    split_ifs with hzero
    · rw [hzero]
      rfl
    · refine le_antisymm (Multiset.le_sup (Multiset.mem_replicate.2 ⟨hzero, rfl⟩)) ?_
      exact Multiset.sup_le.2 fun l hl => (Multiset.eq_of_mem_replicate hl).le
  · rw [hsort] at hsorted hmem
    have hk : k ∈ componentSizes edges := (hmem k).1 List.mem_cons_self
    rw [List.headD_cons]
    refine le_antisymm (le_sup_of_le_left (Multiset.le_sup hk)) (sup_le ?_ ?_)
    · refine Multiset.sup_le.2 fun l hl => ?_
      rcases List.mem_cons.1 ((hmem l).2 hl) with rfl | hrest
      · exact le_rfl
      · exact (List.pairwise_cons.1 hsorted).1 l hrest
    · refine Multiset.sup_le.2 fun l hl => ?_
      rw [Multiset.eq_of_mem_replicate hl]
      exact h.one_le_of_mem hk

end Components

/-- The statistics of the graph on the endpoints, with the isolates. -/
structure OfGraph (edges : List (Option α × Option α)) (totalEntities : ℕ) (stats : Stats) :
    Prop where
  componentCount : stats.componentCount = (entitySizes edges totalEntities).card
  largest : stats.largestComponentSize = (entitySizes edges totalEntities).sup
  isolates : stats.isolateCount = totalEntities - (endpoints edges).card
  histogram : stats.componentSizeHistogram = ((componentSizes edges).sort (· ≥ ·)).take 20
  total : (componentSizes edges).sum + stats.isolateCount = totalEntities

/-- **The structural statistics.** The loops end, two endpoints have one root exactly when they are
connected, and the statistics are those of the connected components. -/
theorem structural_stats (edges : List (Option α × Option α)) (totalEntities : ℕ)
    (htotal : (endpoints edges).card ≤ totalEntities) :
    ∃ N forest stats, OfGraph edges totalEntities stats ∧ ∀ n, N ≤ n →
      connect n edges = some forest ∧
      computeStructuralStats n edges totalEntities = some stats ∧
      (∀ x ∈ endpoints edges, (climb n forest.parent x).isSome) ∧
      ∀ x ∈ endpoints edges, ∀ y ∈ endpoints edges,
        climb n forest.parent x = climb n forest.parent y ↔ (graph edges).Reachable x y := by
  obtain ⟨N, forest, root, depth, hrun, h⟩ := exists_represents edges
  obtain ⟨B, hdepth⟩ : ∃ B, ∀ x ∈ endpoints edges, depth x ≤ B :=
    ⟨(endpoints edges).sup depth, fun x hx => Finset.le_sup hx⟩
  have hsort : (((forest.nodes.map root).foldl increment []).map Prod.snd).insertionSort (· ≥ ·) =
      (componentSizes edges).sort (· ≥ ·) := by
    rw [← h.counts_eq, Multiset.coe_sort, List.mergeSort_eq_insertionSort]
  refine ⟨max N (B + 1), forest,
    { entities := totalEntities
      edges := (edges.filter isComplete).length
      componentCount := ((componentSizes edges).sort (· ≥ ·)).length +
        (totalEntities - (endpoints edges).card)
      largestComponentSize := ((componentSizes edges).sort (· ≥ ·)).headD
        (if totalEntities = 0 then 0 else 1)
      isolateCount := totalEntities - (endpoints edges).card
      componentSizeHistogram := ((componentSizes edges).sort (· ≥ ·)).take 20 },
    ⟨?_, h.headD_sort totalEntities, rfl, rfl, ?_⟩, fun n hn => ?_⟩
  · rw [entitySizes, Multiset.card_add, Multiset.card_replicate, Multiset.length_sort]
  · rw [h.sum_componentSizes]
    exact Nat.add_sub_cancel' htotal
  · have hN : N ≤ n := le_trans (le_max_left ..) hn
    have hfuel : ∀ x ∈ endpoints edges, depth x < n := fun x hx =>
      lt_of_le_of_lt (hdepth x hx) (lt_of_lt_of_le (Nat.lt_succ_self B)
        (le_trans (le_max_right ..) hn))
    have hclimb : ∀ x ∈ endpoints edges, climb n forest.parent x = some (root x) := fun x hx =>
      h.rooted.climb_eq ((h.mem_nodes x).1 ((h.nodes x).2 hx)) (hfuel x hx)
    refine ⟨hrun n hN, ?_, fun x hx => ?_, fun x hx y hy => ?_⟩
    · have hnodes : ∀ x ∈ forest.nodes, x ∈ forest.nodes ∧ depth x < n := fun x hx =>
        ⟨hx, hfuel x ((h.nodes x).1 hx)⟩
      obtain ⟨forest', hcounts⟩ := h.toWellFormed.countNodes hnodes []
      rw [computeStructuralStats, hrun n hN]
      simp only [Option.bind_eq_bind, Option.bind_some, hcounts, hsort, h.length_nodes]
    · rw [hclimb x hx]
      rfl
    · rw [hclimb x hx, hclimb y hy, Option.some_inj, h.classes, reachable_iff]

/-- Two edges that share an entity, a loop, an edge with one end, and an isolate. -/
theorem structural_stats_fiveEntities :
    ∃ N stats,
      OfGraph [(some 1, some 2), (some 4, some 4), (some 2, none), (some 3, some 2)] 5 stats ∧
      ∀ n, N ≤ n → computeStructuralStats n
        [(some 1, some 2), (some 4, some 4), (some 2, none), (some 3, some 2)] 5 = some stats := by
  obtain ⟨N, forest, stats, hstats, hrun⟩ := structural_stats
    [(some 1, some 2), (some 4, some 4), (some 2, none), (some 3, some 2)] 5 (by decide)
  exact ⟨N, stats, hstats, fun n hn => (hrun n hn).2.1⟩

example : computeStructuralStats 3
    [(some 1, some 2), (some 4, some 4), (some 2, none), (some 3, some 2)] 5 =
      some ⟨5, 3, 3, 3, 1, [3, 1]⟩ := by decide

end PalaceDaemon.KgStats

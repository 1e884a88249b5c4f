/-
The rank fusion of `/search/age-fused`.

The vector hits and the drawers of the graph are put in one order by the sum of `1 / (k + rank)`.
The ranks come from dictionary comprehensions, where the last position of an id counts and the
hits without an id share one, and drawers with one sum keep the order in which a set is iterated
over.  `fused_iff` says when the result is still a function of the hits and the counts.

The sums are taken in any arithmetic whose results are linearly ordered, such as that of the
floats.
-/
import Mathlib.Algebra.Order.Field.Rat
import Mathlib.Data.List.Dedup
import PalaceDaemon.Lib.TopCut

namespace PalaceDaemon.Fusion

/-! ### The hits and the counts -/

/-- A vector hit. -/
structure VecHit (ρ : Type*) where
  id : Option String
  drawerId : Option String
  rest : ρ

/-- `hit.get("id") or hit.get("drawer_id")` -/
def VecHit.key {ρ : Type*} (hit : VecHit ρ) : Option String :=
  (hit.id.filter (· ≠ "")).or hit.drawerId

/-- `graph_hits_by_drawer` -/
structure Counts where
  entries : List (String × ℤ)
  nodup : (entries.map Prod.fst).Nodup

/-- A row that a graph-only drawer is filled with. -/
structure Row where
  text : String
  wing : Option String
  room : Option String
  topic : String
  sourceFile : String
  createdAt : Option String

inductive MatchedVia
  | vector
  | both
deriving DecidableEq

/-- A hit of the response; the second and the third are those matched via the graph. -/
inductive Result (S ρ : Type*)
  | vector (hit : VecHit ρ) (matchedVia : MatchedVia) (rrfScore : S)
  | hydrated (drawerId : Option String) (row : Row) (rrfScore : S) (graphMentions : ℤ)
  | stub (id : Option String) (rrfScore : S) (graphMentions : ℤ)

/-- The drawer of a hit of the response. -/
def Result.drawer {S ρ : Type*} : Result S ρ → Option String
  | .vector hit _ _ => hit.key
  | .hydrated drawerId _ _ _ => drawerId
  | .stub id _ _ => id

/-- `rrf_score` -/
def Result.rrfScore {S ρ : Type*} : Result S ρ → S
  | .vector _ _ rrfScore => rrfScore
  | .hydrated _ _ rrfScore _ => rrfScore
  | .stub _ rrfScore _ => rrfScore

/-- The arithmetic of the scores; `recip n` is `1.0 / n`, for the `n` from `1` on that the checks on
`fusion_k` leave. -/
structure Arithmetic (S : Type*) where
  zero : S
  add : S → S → S
  recip : ℕ → S

/-! ### The ranks -/

section Ranks

variable {κ β : Type*} [DecidableEq κ]

/-- A dictionary comprehension: the last value for a key. -/
def lastOf : List (κ × β) → κ → Option β
  | [], _ => none
  | (key, value) :: rest, d => (lastOf rest d).or (if key = d then some value else none)

/-- `{did: i for i, did in enumerate(ids)}` -/
def ranks (ids : List κ) : κ → Option ℕ := lastOf ids.zipIdx

/-- The first position of an id. -/
def best (ids : List κ) (d : κ) : Option ℕ := ids.idxOf? d

/-- `i` is the first position of `d`. -/
def IsFirst (ids : List κ) (d : κ) (i : ℕ) : Prop :=
  ids[i]? = some d ∧ ∀ j < i, ids[j]? ≠ some d

/-- `i` is the last position of `d`. -/
def IsLast (ids : List κ) (d : κ) (i : ℕ) : Prop :=
  ids[i]? = some d ∧ ∀ j > i, ids[j]? ≠ some d

omit [DecidableEq κ] in
lemma IsLast.cons {ids : List κ} {d key : κ} {i : ℕ} (h : IsLast ids d i) :
    IsLast (key :: ids) d (i + 1) := by
  refine ⟨by simpa using h.1, fun j hj => ?_⟩
  obtain ⟨j, rfl⟩ : ∃ j', j = j' + 1 := ⟨j - 1, by omega⟩
  simpa using h.2 j (by omega)

/-- The rank of an id is its last position. -/
lemma lastOf_zipIdx (ids : List κ) (d : κ) (n : ℕ) :
    d ∉ ids ∧ lastOf (ids.zipIdx n) d = none ∨
      ∃ i, IsLast ids d i ∧ lastOf (ids.zipIdx n) d = some (n + i) := by
  induction ids generalizing n with
  | nil => exact Or.inl ⟨List.not_mem_nil, rfl⟩
  | cons key ids ih =>
    rw [List.zipIdx_cons, lastOf]
    rcases ih (n + 1) with ⟨hmem, hnone⟩ | ⟨i, hi, hsome⟩
    · rw [hnone, Option.none_or]
      by_cases hkey : key = d
      · refine Or.inr ⟨0, ⟨by simp [hkey], fun j hj => ?_⟩, by simp [hkey]⟩
        obtain ⟨j, rfl⟩ : ∃ j', j = j' + 1 := ⟨j - 1, by omega⟩
        exact fun h => hmem (List.mem_of_getElem? (by simpa using h))
      · exact Or.inl ⟨by simp [hmem, Ne.symm hkey], by simp [hkey]⟩
    · refine Or.inr ⟨i + 1, hi.cons, ?_⟩
      rw [hsome, Option.some_or]
      congr 1
      omega

lemma ranks_cases (ids : List κ) (d : κ) :
    d ∉ ids ∧ ranks ids d = none ∨ ∃ i, IsLast ids d i ∧ ranks ids d = some i := by
  simpa [ranks] using lastOf_zipIdx ids d 0

omit [DecidableEq κ] in
lemma IsLast.unique {ids : List κ} {d : κ} {i j : ℕ} (hi : IsLast ids d i)
    (hj : IsLast ids d j) : i = j := by
  rcases lt_trichotomy i j with h | h | h
  · exact absurd hj.1 (hi.2 j h)
  · exact h
  · exact absurd hi.1 (hj.2 i h)

lemma IsLast.ranks {ids : List κ} {d : κ} {i : ℕ} (h : IsLast ids d i) :
    ranks ids d = some i := by
  rcases ranks_cases ids d with ⟨hmem, -⟩ | ⟨j, hj, hsome⟩
  · exact absurd (List.mem_of_getElem? h.1) hmem
  · rw [hsome, hj.unique h]

lemma isFirst_iff {ids : List κ} {d : κ} {i : ℕ} :
    IsFirst ids d i ↔ best ids d = some i := by
  rw [best, List.idxOf?_eq_some_iff, IsFirst]
  constructor
  · rintro ⟨h, hlt⟩
    obtain ⟨hi, hd⟩ := List.getElem?_eq_some_iff.1 h
    refine ⟨hi, hd, fun j hj hjd => hlt j hj ?_⟩
    rw [List.getElem?_eq_getElem (by omega), hjd]
  · rintro ⟨hi, hd, hlt⟩
    refine ⟨by rw [List.getElem?_eq_getElem hi, hd], fun j hj hjd => ?_⟩
    obtain ⟨hj', hjd⟩ := List.getElem?_eq_some_iff.1 hjd
    exact hlt j hj hjd

lemma exists_isFirst {ids : List κ} {d : κ} (h : d ∈ ids) : ∃ i, IsFirst ids d i := by
  obtain ⟨i, hi⟩ := Option.isSome_iff_exists.1 (List.isSome_idxOf?.2 h)
  exact ⟨i, isFirst_iff.2 hi⟩

lemma best_of_notMem {ids : List κ} {d : κ} (h : d ∉ ids) : best ids d = none :=
  List.idxOf?_eq_none_iff.2 h

/-- Where no id is repeated its rank is its only position. -/
lemma ranks_of_nodup {ids : List κ} (h : ids.Nodup) (d : κ) : ranks ids d = best ids d := by
  rcases ranks_cases ids d with ⟨hmem, hnone⟩ | ⟨j, hj, hsome⟩
  · rw [hnone, best_of_notMem hmem]
  · obtain ⟨i, hi⟩ := exists_isFirst (List.mem_of_getElem? hj.1)
    have hij : i = j := by
      have hlt := (List.getElem?_eq_some_iff.1 hi.1).1
      exact (List.getElem?_inj hlt h).1 (hi.1.trans hj.1.symm)
    rw [hsome, isFirst_iff.1 hi, hij]

/-- A comprehension has a value for the keys that occur, one that stands beside the key. -/
lemma lastOf_cases (pairs : List (κ × β)) (d : κ) :
    d ∉ pairs.map Prod.fst ∧ lastOf pairs d = none ∨
      ∃ value, (d, value) ∈ pairs ∧ lastOf pairs d = some value := by
  induction pairs with
  | nil => exact Or.inl ⟨List.not_mem_nil, rfl⟩
  | cons p pairs ih =>
    obtain ⟨key, value⟩ := p
    rw [lastOf]
    rcases ih with ⟨hmem, hnone⟩ | ⟨v, hv, hsome⟩
    · rw [hnone, Option.none_or]
      by_cases hkey : key = d
      · exact Or.inr ⟨value, by simp [hkey], by simp [hkey]⟩
      · exact Or.inl ⟨by simpa [Ne.symm hkey] using hmem, by simp [hkey]⟩
    · rw [hsome]
      exact Or.inr ⟨v, List.mem_cons_of_mem _ hv, rfl⟩

end Ranks

/-! ### The fusion -/

section Fusion

variable {S ρ : Type*} [LinearOrder S]

/-- The ids in `graph_ranks`, in order. -/
def graphIds (counts : Counts) (graphTopK : ℕ) : List (Option String) :=
  ((TopCut.ranked Prod.snd counts.entries).take graphTopK).map fun e => some e.1

/-- The sum for the two ranks of a drawer. -/
def rrf (A : Arithmetic S) (k : ℕ) (vec graph : Option ℕ) : S :=
  let score := vec.elim A.zero fun r => A.add A.zero (A.recip (k + r))
  graph.elim score fun r => A.add score (A.recip (k + r))

/-- The ids in `vec_ranks`, in the order of the hits. -/
def vecIds (hits : List (VecHit ρ)) : List (Option String) := hits.map VecHit.key

/-- `fused_scores[did]` -/
def fusedScore (A : Arithmetic S) (k : ℕ) (hits : List (VecHit ρ)) (graph : List (Option String))
    (did : Option String) : S :=
  rrf A k (ranks (vecIds hits) did) (ranks graph did)

/-- `vec_by_id` -/
def vecById (hits : List (VecHit ρ)) : Option String → Option (VecHit ρ) :=
  lastOf (hits.map fun hit => (hit.key, hit))

/-- `fused_order`, for the union of the ids in the order in which it is iterated over. -/
def fusedOrder (A : Arithmetic S) (k limit : ℕ) (hits : List (VecHit ρ))
    (graph union : List (Option String)) : List (Option String) :=
  (TopCut.ranked (fusedScore A k hits graph) union).take limit

/-- The hits of the response; `hydrate` reads the rows of the ids it is given. -/
def results (A : Arithmetic S) (k limit graphTopK : ℕ)
    (hydrate : List (Option String) → Option String → Option Row) (hits : List (VecHit ρ))
    (counts : Counts) (union : List (Option String)) : List (Result S ρ) :=
  let graph := graphIds counts graphTopK
  let order := fusedOrder A k limit hits graph union
  let rows := hydrate (order.filter fun did => (vecById hits did).isNone)
  order.map fun did =>
    let score := fusedScore A k hits graph did
    let mentions := (lastOf (counts.entries.map fun e => (some e.1, e.2)) did).getD 0
    match vecById hits did with
    | some hit => .vector hit (if did ∈ graph then .both else .vector) score
    | none => match rows did with
      | some row => .hydrated did row score mentions
      | none => .stub did score mentions

/-- The ids may be iterated over in this order. -/
structure IsUnion (hits : List (VecHit ρ)) (graph union : List (Option String)) : Prop where
  nodup : union.Nodup
  mem : ∀ did, did ∈ union ↔ did ∈ vecIds hits ∨ did ∈ graph

/-! ### What the fusion should be -/

/-- The sum for the best ranks of a drawer. -/
def bestScore (A : Arithmetic S) (k : ℕ) (hits : List (VecHit ρ)) (graph : List (Option String))
    (did : Option String) : S :=
  rrf A k (best (vecIds hits) did) (best graph did)

/-- The fusion is a function of the hits and the counts, and the one that it should be.  The scores
are those of the hits of the response, with any limit that shows the drawer. -/
structure Sound (A : Arithmetic S) (k limit graphTopK : ℕ)
    (hydrate : List (Option String) → Option String → Option Row) (hits : List (VecHit ρ))
    (counts : Counts) : Prop where
  score : ∀ shown union, IsUnion hits (graphIds counts graphTopK) union →
    ∀ r ∈ results A k shown graphTopK hydrate hits counts union,
      r.rrfScore = bestScore A k hits (graphIds counts graphTopK) r.drawer
  complete : hits.length + (graphIds counts graphTopK).length ≤ limit →
    ∀ union, IsUnion hits (graphIds counts graphTopK) union → ∀ hit ∈ hits,
      ∃ r ∈ results A k limit graphTopK hydrate hits counts union, r.drawer = hit.key
  order : ∀ union union', IsUnion hits (graphIds counts graphTopK) union →
    IsUnion hits (graphIds counts graphTopK) union' →
      (results A k limit graphTopK hydrate hits counts union).map Result.drawer =
        (results A k limit graphTopK hydrate hits counts union').map Result.drawer

/-- The drawers of both lists. -/
def drawers (hits : List (VecHit ρ)) (graph : List (Option String)) : List (Option String) :=
  (vecIds hits ++ graph).dedup

/-- An id that is repeated has the same sum at its first and its last position, and drawers with
one sum are below the cut. -/
structure Determined (A : Arithmetic S) (k limit : ℕ) (hits : List (VecHit ρ))
    (graph : List (Option String)) : Prop where
  repeated : ∀ did i j, IsFirst (vecIds hits) did i → IsLast (vecIds hits) did j →
    rrf A k (some j) (best graph did) = rrf A k (some i) (best graph did)
  ties : ∀ did ∈ drawers hits graph, ∀ did' ∈ drawers hits graph, did ≠ did' →
    bestScore A k hits graph did = bestScore A k hits graph did' →
      limit ≤ TopCut.above (bestScore A k hits graph) (bestScore A k hits graph did)
        (drawers hits graph)

section Proofs

variable {A : Arithmetic S} {k limit graphTopK : ℕ} {hits : List (VecHit ρ)}
  {hydrate : List (Option String) → Option String → Option Row} {counts : Counts}
  {graph union : List (Option String)}

lemma nodup_graphIds (counts : Counts) (graphTopK : ℕ) : (graphIds counts graphTopK).Nodup := by
  have hkeys : ((TopCut.ranked Prod.snd counts.entries).map Prod.fst).Nodup :=
    ((TopCut.ranked_perm Prod.snd counts.entries).map Prod.fst).symm.nodup counts.nodup
  have hcut : (((TopCut.ranked Prod.snd counts.entries).take graphTopK).map Prod.fst).Nodup :=
    hkeys.sublist ((List.take_sublist _ _).map _)
  have hsome := hcut.map (Option.some_injective String)
  rwa [List.map_map] at hsome

lemma mem_drawers {did : Option String} :
    did ∈ drawers hits graph ↔ did ∈ vecIds hits ∨ did ∈ graph := by
  rw [drawers, List.mem_dedup, List.mem_append]

lemma isUnion_drawers (hits : List (VecHit ρ)) (graph : List (Option String)) :
    IsUnion hits graph (drawers hits graph) :=
  ⟨List.nodup_dedup _, fun _ => mem_drawers⟩

/-- The orders in which the union may be iterated over. -/
lemma isUnion_iff : IsUnion hits graph union ↔ union.Perm (drawers hits graph) := by
  constructor
  · intro h
    refine (List.perm_ext_iff_of_nodup h.nodup (List.nodup_dedup _)).2 fun did => ?_
    rw [h.mem, ← mem_drawers, drawers]
  · intro h
    exact ⟨h.symm.nodup (List.nodup_dedup _), fun did => by rw [h.mem_iff, mem_drawers]⟩

omit [LinearOrder S] in
/-- The scores are those for the best ranks if the repeated ids have them at their last. -/
lemma fusedScore_iff (hgraph : graph.Nodup) :
    (∀ did ∈ drawers hits graph,
      fusedScore A k hits graph did = bestScore A k hits graph did) ↔
    ∀ did i j, IsFirst (vecIds hits) did i → IsLast (vecIds hits) did j →
      rrf A k (some j) (best graph did) = rrf A k (some i) (best graph did) := by
  constructor
  · intro h did i j hi hj
    have hs := h did (mem_drawers.2 (Or.inl (List.mem_of_getElem? hi.1)))
    rwa [fusedScore, bestScore, hj.ranks, isFirst_iff.1 hi, ranks_of_nodup hgraph] at hs
  · intro h did _
    rw [fusedScore, bestScore, ranks_of_nodup hgraph]
    rcases ranks_cases (vecIds hits) did with ⟨hmem, hnone⟩ | ⟨j, hj, hsome⟩
    · rw [hnone, best_of_notMem hmem]
    · obtain ⟨i, hi⟩ := exists_isFirst (List.mem_of_getElem? hj.1)
      rw [hsome, isFirst_iff.1 hi]
      exact h did i j hi hj

/-- The hit that is kept for an id has that id. -/
lemma key_of_vecById {did : Option String} {hit : VecHit ρ} (h : vecById hits did = some hit) :
    hit.key = did := by
  rcases lastOf_cases (hits.map fun hit => (hit.key, hit)) did with ⟨-, hnone⟩ | ⟨v, hv, hsome⟩
  · rw [vecById, hnone] at h
    cases h
  · obtain rfl : v = hit := Option.some.inj (hsome.symm.trans h)
    obtain ⟨hit', -, heq⟩ := List.mem_map.1 hv
    cases heq
    rfl

/-- The response has the drawers of the fused order, with their scores. -/
lemma map_results :
    (results A k limit graphTopK hydrate hits counts union).map
        (fun r => (r.drawer, r.rrfScore)) =
      (fusedOrder A k limit hits (graphIds counts graphTopK) union).map
        fun did => (did, fusedScore A k hits (graphIds counts graphTopK) did) := by
  rw [results]
  dsimp only
  rw [List.map_map]
  refine List.map_congr_left fun did _ => ?_
  dsimp only [Function.comp_apply]
  cases hv : vecById hits did with
  | some hit => exact congrArg (·, _) (key_of_vecById hv)
  | none =>
    dsimp only
    split
    · rfl
    · rfl

lemma map_drawer_results :
    (results A k limit graphTopK hydrate hits counts union).map Result.drawer =
      fusedOrder A k limit hits (graphIds counts graphTopK) union := by
  have hfst : ((results A k limit graphTopK hydrate hits counts union).map
      fun r => (r.drawer, r.rrfScore)).map Prod.fst = _ := congrArg (List.map Prod.fst) map_results
  rw [List.map_map, List.map_map] at hfst
  exact hfst.trans (List.map_id _)

/-- With room for both lists every drawer is in the response. -/
lemma fusedOrder_of_le (hlimit : hits.length + graph.length ≤ limit)
    (hu : IsUnion hits graph union) {did : Option String} (h : did ∈ vecIds hits) :
    did ∈ fusedOrder A k limit hits graph union := by
  have hlen : union.length ≤ limit := by
    have hsub : union.Subperm (vecIds hits ++ graph) := by
      refine List.subperm_of_subset hu.nodup fun did hdid => ?_
      exact List.mem_append.2 ((hu.mem did).1 hdid)
    have hle := hsub.length_le
    rw [List.length_append, vecIds, List.length_map] at hle
    exact le_trans hle hlimit
  rw [fusedOrder, List.take_of_length_le]
  · exact TopCut.mem_ranked.2 ((hu.mem did).2 (Or.inl h))
  · rwa [(TopCut.ranked_perm _ _).length_eq]

/-- The scores of the responses are those of the dictionary, and a response with room for all
drawers shows every one. -/
lemma score_iff : (∀ shown union, IsUnion hits (graphIds counts graphTopK) union →
      ∀ r ∈ results A k shown graphTopK hydrate hits counts union,
        r.rrfScore = bestScore A k hits (graphIds counts graphTopK) r.drawer) ↔
    ∀ did ∈ drawers hits (graphIds counts graphTopK),
      fusedScore A k hits (graphIds counts graphTopK) did =
        bestScore A k hits (graphIds counts graphTopK) did := by
  constructor
  · intro h did hdid
    let union := drawers hits (graphIds counts graphTopK)
    have horder : did ∈ fusedOrder A k union.length hits (graphIds counts graphTopK) union := by
      rw [fusedOrder, List.take_of_length_le (TopCut.ranked_perm _ _).length_eq.le]
      exact TopCut.mem_ranked.2 hdid
    have hpair := List.mem_map_of_mem (f := fun did =>
      (did, fusedScore A k hits (graphIds counts graphTopK) did)) horder
    have hresults : (results A k union.length graphTopK hydrate hits counts union).map
        (fun r => (r.drawer, r.rrfScore)) = _ := map_results
    rw [← hresults] at hpair
    obtain ⟨r, hr, heq⟩ := List.mem_map.1 hpair
    obtain ⟨hdrawer, hscore⟩ := Prod.mk.inj heq
    rw [← hscore, h _ union (isUnion_drawers hits _) r hr, hdrawer]
  · intro h shown union hu r hr
    have hpair := List.mem_map_of_mem (f := fun r : Result S ρ => (r.drawer, r.rrfScore)) hr
    rw [map_results] at hpair
    obtain ⟨did, hdid, heq⟩ := List.mem_map.1 hpair
    obtain ⟨hdrawer, hscore⟩ := Prod.mk.inj heq
    have hmem := (hu.mem did).1 (TopCut.mem_ranked.1 (List.mem_of_mem_take hdid))
    rw [← hscore, ← hdrawer]
    exact h did (mem_drawers.2 hmem)

lemma above_congr {f g : Option String → S} {l : List (Option String)} {s : S}
    (h : ∀ did ∈ l, f did = g did) : TopCut.above f s l = TopCut.above g s l :=
  List.countP_congr fun did hdid => by rw [h did hdid]

/-- **When rank fusion is a function of its inputs.**  Every drawer has the sum for its best
ranks, no vector hit is missing where there is room for all, and the order of the response does
not depend on the order of the set, if and only if repeated ids have one sum at their first and
their last position and drawers with one sum are below the cut. -/
theorem fused_iff :
    Sound A k limit graphTopK hydrate hits counts ↔
      Determined A k limit hits (graphIds counts graphTopK) := by
  set graph := graphIds counts graphTopK with hgraph
  have hnodup : graph.Nodup := nodup_graphIds counts graphTopK
  have horder : (∀ union union', IsUnion hits graph union → IsUnion hits graph union' →
      fusedOrder A k limit hits graph union = fusedOrder A k limit hits graph union') ↔ _ :=
    Iff.trans (by simp only [isUnion_iff, fusedOrder])
      (TopCut.take_ranked_iff (f := fusedScore A k hits graph) (n := limit)
        (isUnion_drawers hits graph).nodup)
  constructor
  · intro h
    have hscore := score_iff.1 h.score
    refine ⟨(fusedScore_iff hnodup).1 hscore, fun did hdid did' hdid' hne htie => ?_⟩
    rw [← above_congr hscore, ← hscore did hdid]
    refine horder.1 (fun u u' hu hu' => ?_) did hdid did' hdid' hne ?_
    · have hmap := h.order u u' hu hu'
      rwa [map_drawer_results, map_drawer_results] at hmap
    · rw [hscore did hdid, hscore did' hdid', htie]
  · intro h
    have hscore := (fusedScore_iff hnodup).2 h.repeated
    refine ⟨score_iff.2 hscore, fun hlimit union hu hit hhit => ?_, fun u u' hu hu' => ?_⟩
    · have hin : hit.key ∈
          (results A k limit graphTopK hydrate hits counts union).map Result.drawer := by
        rw [map_drawer_results]
        exact fusedOrder_of_le hlimit hu (List.mem_map_of_mem hhit)
      obtain ⟨r, hr, heq⟩ := List.mem_map.1 hin
      exact ⟨r, hr, heq⟩
    · rw [map_drawer_results, map_drawer_results]
      refine horder.2 (fun did hdid did' hdid' hne htie => ?_) u u' hu hu'
      rw [above_congr hscore, hscore did hdid]
      refine h.ties did hdid did' hdid' hne ?_
      rw [← hscore did hdid, ← hscore did' hdid', htie]

/-- The exact sums. -/
def exact : Arithmetic ℚ := ⟨0, (· + ·), fun n => 1 / n⟩

/-- In exact arithmetic a repeated id never has one sum at two positions. -/
lemma repeated_exact_iff :
    (∀ did i j, IsFirst (vecIds hits) did i → IsLast (vecIds hits) did j →
      rrf exact k (some j) (best graph did) = rrf exact k (some i) (best graph did)) ↔
    (vecIds hits).Nodup := by
  constructor
  · intro h
    rw [List.nodup_iff_getElem?_ne_getElem?]
    intro i j hij hj heq
    rw [List.getElem?_eq_getElem hj] at heq
    obtain ⟨i', hi'⟩ := exists_isFirst (List.mem_of_getElem? heq)
    rcases ranks_cases (vecIds hits) (vecIds hits)[j] with ⟨hmem, -⟩ | ⟨j', hj', -⟩
    · exact hmem (List.getElem_mem hj)
    have hle : i' ≤ i := not_lt.1 fun hlt => hi'.2 i hlt heq
    have hge : j ≤ j' := not_lt.1 fun hlt => hj'.2 j hlt (List.getElem?_eq_getElem hj)
    have hsum := h _ i' j' hi' hj'
    have hrecip : (1 : ℚ) / ((k + j' : ℕ) : ℚ) = 1 / ((k + i' : ℕ) : ℚ) := by
      cases hg : best graph (vecIds hits)[j] with
      | none => simpa [rrf, exact, hg] using hsum
      | some r => simpa [rrf, exact, hg] using hsum
    rw [one_div, one_div, inv_inj, Nat.cast_inj] at hrecip
    omega
  · intro h did i j hi hj
    have hij : i = j :=
      (List.getElem?_inj (List.getElem?_eq_some_iff.1 hi.1).1 h).1 (hi.1.trans hj.1.symm)
    rw [hij]

/-- **Rank fusion with exact sums.** -/
theorem fused_exact_iff :
    Sound exact k limit graphTopK hydrate hits counts ↔
      (vecIds hits).Nodup ∧
      ∀ did ∈ drawers hits (graphIds counts graphTopK),
        ∀ did' ∈ drawers hits (graphIds counts graphTopK), did ≠ did' →
        bestScore exact k hits (graphIds counts graphTopK) did =
          bestScore exact k hits (graphIds counts graphTopK) did' →
        limit ≤ TopCut.above (bestScore exact k hits (graphIds counts graphTopK))
          (bestScore exact k hits (graphIds counts graphTopK) did)
          (drawers hits (graphIds counts graphTopK)) := by
  rw [fused_iff, ← repeated_exact_iff]
  exact ⟨fun h => ⟨h.repeated, h.ties⟩, fun h => ⟨h.1, h.2⟩⟩

/-- A vector hit and a drawer of the graph, each the first of its list, have one sum, and which of
them is the one hit of the response depends on the order of the set. -/
theorem fused_fails : ¬ Sound exact 60 1 50 (fun _ _ => none)
    [⟨none, some "a", ()⟩] ⟨[("b", 1)], by decide⟩ := by
  intro h
  have horder := h.order [some "a", some "b"] [some "b", some "a"]
    ⟨by decide, fun did => by simp [vecIds, VecHit.key, graphIds, TopCut.ranked]⟩
    ⟨by decide, fun did => by simp [vecIds, VecHit.key, graphIds, TopCut.ranked, or_comm]⟩
  revert horder
  decide +kernel

end Proofs

end Fusion

end PalaceDaemon.Fusion

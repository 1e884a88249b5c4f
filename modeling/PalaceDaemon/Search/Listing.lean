/-
The pages of `mempalace_list_drawers` on the fast path.

`fast_list_payload` takes a page from the rows without a parent, in SQL, and fills it up from the
chunk groups that have no row of their own, which it keeps in memory.  `listing_pages` says that
the pages are the slices of one listing, and that walking through them visits it once and stops.
-/
import Mathlib.Data.List.Induction
import Mathlib.Data.List.Perm.Basic
import Mathlib.Data.List.Sort
import Mathlib.Data.String.Basic
import PalaceDaemon.Lib.JsonText
import PalaceDaemon.Novelty

namespace PalaceDaemon.Listing

open Json (loads set)

/-! ### The table -/

/-- The fields of a JSON object. -/
abbrev Meta := List (List Char × Json)

/-- A row of `mempalace_drawers`. -/
structure Row where
  id : String
  document : Option String
  wing : Option String
  room : Option String
  metadata : Option Meta
  /-- `metadata->>'parent_drawer_id'` -/
  parentDrawerId : Option String
  /-- `NULLIF(metadata->>'chunk_index', '')::int` -/
  chunkIndex : Option ℤ

/-- How the database orders texts. -/
structure Collation where
  le : String → String → Bool
  total : ∀ s t, le s t ∨ le t s
  antisymm : ∀ s t, le s t → le t s → s = t
  trans : ∀ s t u, le s t → le t u → le s u

/-- The table; the id is its primary key. -/
structure Table where
  rows : List Row
  nodup : (rows.map Row.id).Nodup
  collation : Collation

/-! ### The chunk groups -/

/-- What is kept of a chunk group. -/
structure Group where
  chunkIds : List String
  wing : Option String
  room : Option String
  document : Option String
  metadata : Option Meta
  hasLegacyRow : Bool

/-- The group of a parent when its first chunk is seen. -/
def Group.ofRow (row : Row) : Group :=
  { chunkIds := [row.id], wing := row.wing, room := row.room, document := row.document
    metadata := row.metadata, hasLegacyRow := false }

/-- The loop body of `_load_chunk_groups`: `groups.setdefault(..)`, and the chunk is appended. -/
def addChunk (groups : List (String × Group)) (parent : String) (row : Row) :
    List (String × Group) :=
  match groups with
  | [] => [(parent, Group.ofRow row)]
  | (p, g) :: rest =>
      if p = parent then (p, { g with chunkIds := g.chunkIds ++ [row.id] }) :: rest
      else (p, g) :: addChunk rest parent row

/-- `groups.get(parent)` -/
def getGroup (groups : List (String × Group)) (parent : String) : Option Group :=
  (groups.find? fun e => e.1 = parent).map Prod.snd

/-- The chunks with their parents. -/
def Table.chunks (table : Table) : List (String × Row) :=
  table.rows.filterMap fun row => row.parentDrawerId.map fun parent => (parent, row)

/-- `ORDER BY 1, NULLIF(metadata->>'chunk_index', '')::int NULLS LAST, id` -/
def chunkLe (collation : Collation) (a b : String × Row) : Bool :=
  if a.1 ≠ b.1 then collation.le a.1 b.1
  else match a.2.chunkIndex, b.2.chunkIndex with
    | some i, some j => i < j || (i = j && collation.le a.2.id b.2.id)
    | some _, none => true
    | none, some _ => false
    | none, none => collation.le a.2.id b.2.id

/-- The rows of the sweep. -/
def Table.swept (table : Table) : List (String × Row) :=
  table.chunks.insertionSort fun a b => chunkLe table.collation a b

/-- `_load_chunk_groups` -/
def loadChunkGroups (table : Table) : List (String × Group) :=
  let groups := table.swept.foldl (fun groups chunk => addChunk groups chunk.1 chunk.2) []
  groups.map fun e => (e.1, { e.2 with hasLegacyRow := (table.rows.map Row.id).contains e.1 })

/-! ### The entries -/

/-- An entry of a page. -/
structure Entry where
  drawerId : String
  wing : String
  room : String
  contentPreview : String
  metadata : Meta
  tags : List (List Char)

/-- `Path(text).name` -/
def pathName (text : List Char) : List Char :=
  ((text.splitOn '/').filter fun part => part ≠ [] ∧ part ≠ ['.']).getLast?.getD []

/-- The texts of a list that are not empty. -/
def textsOf (values : List Json) : List (List Char) :=
  values.filterMap fun
    | .str s => if s = [] then none else some s
    | _ => none

section Entries

variable (floatOf : List Char → PyFloat) (strOf : Json → List Char)

/-- `_tags_from_meta` -/
def tagsFromMeta (metadata : Meta) : List (List Char) :=
  match Json.lookup "tags".toList metadata with
  | some (.arr values) => textsOf values
  | some (.str raw) =>
    if raw = [] then []
    else match loads floatOf raw with
      | some (.arr values) => textsOf values
      | _ => ((raw.splitOn ',').map PyText.strip).filter (· ≠ [])
  | _ => []

/-- `_list_entry`; `strOf` is `str`. -/
def listEntry (drawerId : String) (document wing room : Option String) (metadata : Option Meta) :
    Entry :=
  let wing := wing.getD ""
  let room := room.getD ""
  let metadata := set "room".toList (.str room.toList)
    (set "wing".toList (.str wing.toList) (metadata.getD []))
  let metadata := match Json.lookup "source_file".toList metadata with
    | some source =>
      if source.truthy then set "source_file".toList (.str (pathName (strOf source))) metadata
      else metadata
    | none => metadata
  { drawerId, wing, room, contentPreview := Novelty.contentPreview (document.getD ""), metadata
    tags := tagsFromMeta floatOf metadata }

/-- The entry says how many chunks there are, and which. -/
def Entry.withChunks (entry : Entry) (g : Group) : Entry :=
  { entry with
    metadata := set "chunk_ids".toList (.arr (g.chunkIds.map fun id => .str id.toList))
      (set "chunks".toList (.int g.chunkIds.length) entry.metadata) }

/-- The entry of a row without a parent. -/
def rowEntry (groups : List (String × Group)) (row : Row) : Entry :=
  let entry := listEntry floatOf strOf row.id row.document row.wing row.room row.metadata
  match getGroup groups row.id with
  | some g => entry.withChunks g
  | none => entry

/-- The entry of a chunk group. -/
def groupEntry (parent : String) (g : Group) : Entry :=
  (listEntry floatOf strOf parent g.document g.wing g.room g.metadata).withChunks g

/-! ### The page -/

/-- A filter is met; an empty one is not asked for. -/
def meets (wanted : Option String) (column : Option String) : Bool :=
  match wanted with
  | none => true
  | some "" => true
  | some value => column = some value

/-- The wing and the room that are asked for. -/
structure Filter where
  wing : Option String
  room : Option String

def Filter.holds (filter : Filter) (wing room : Option String) : Bool :=
  meets filter.wing wing && meets filter.room room

/-- The rows of the page query, in its order. -/
def anchors (table : Table) (filter : Filter) : List Row :=
  (table.rows.filter fun row =>
    row.parentDrawerId.isNone && filter.holds row.wing row.room).insertionSort
      fun a b => table.collation.le a.id b.id

/-- `orphans` -/
def orphans (groups : List (String × Group)) (filter : Filter) : List (String × Group) :=
  (groups.insertionSort fun a b => a.1 ≤ b.1).filter fun e =>
    !e.2.hasLegacyRow && filter.holds e.2.wing e.2.room

structure Payload where
  drawers : List Entry
  total : ℕ
  count : ℕ
  offset : ℕ
  limit : ℕ

/-- `fast_list_payload`, with the groups of a sweep. -/
def fastListPayload (table : Table) (groups : List (String × Group)) (filter : Filter)
    (limit offset : ℤ) : Payload :=
  let limit := (max 1 (min limit Novelty.listMaxResults)).toNat
  let offset := (max 0 offset).toNat
  let anchorTotal := (anchors table filter).length
  let orphans := orphans groups filter
  let page := if offset < anchorTotal then
      (((anchors table filter).drop offset).take limit).map (rowEntry floatOf strOf groups)
    else []
  let page := if page.length < limit then
      page ++ ((orphans.drop (offset - anchorTotal)).take (limit - page.length)).map fun e =>
        groupEntry floatOf strOf e.1 e.2
    else page
  { drawers := page, total := anchorTotal + orphans.length, count := page.length, offset, limit }

/-- A client reads page after page, each from where the last one ended, until one is empty. -/
def walk (table : Table) (groups : List (String × Group)) (filter : Filter) (limit : ℕ) :
    ℕ → ℕ → Option (List Entry)
  | 0, _ => none
  | n + 1, offset =>
      let page := fastListPayload floatOf strOf table groups filter limit offset
      if page.count = 0 then some []
      else (walk table groups filter limit n (page.offset + page.count)).map (page.drawers ++ ·)

/-! ### The listing -/

/-- The group that the chunks of a parent make up. -/
def groupOf (table : Table) (parent : String) : Option Group :=
  let chunks := (table.swept.filter fun chunk => chunk.1 = parent).map Prod.snd
  chunks.head?.map fun row =>
    { Group.ofRow row with
      chunkIds := chunks.map Row.id, hasLegacyRow := (table.rows.map Row.id).contains parent }

/-- The listing: the rows without a parent in the order of their ids, and the chunk groups whose
parent has no row in the order of the parents. -/
structure IsListing (table : Table) (filter : Filter) (rows : List Row)
    (groups : List (String × Group)) : Prop where
  rows_perm : rows.Perm (table.rows.filter fun row =>
    row.parentDrawerId.isNone && filter.holds row.wing row.room)
  rows_sorted : rows.Pairwise fun a b => table.collation.le a.id b.id = true
  mem_groups : ∀ parent g, (parent, g) ∈ groups ↔
    groupOf table parent = some g ∧ parent ∉ table.rows.map Row.id ∧
      filter.holds g.wing g.room = true
  groups_sorted : (groups.map Prod.fst).Pairwise (· < ·)

/-- The entries of the listing. -/
def entries (table : Table) (rows : List Row) (groups : List (String × Group)) : List Entry :=
  rows.map (rowEntry floatOf strOf (loadChunkGroups table)) ++
    groups.map fun e => groupEntry floatOf strOf e.1 e.2

/-! ### The sweep -/

lemma getGroup_cons (e : String × Group) (groups : List (String × Group)) (q : String) :
    getGroup (e :: groups) q = if e.1 = q then some e.2 else getGroup groups q := by
  rw [getGroup, List.find?_cons]
  by_cases h : e.1 = q <;> simp [h, getGroup]

/-- A group after a chunk is added. -/
def Group.grown (row : Row) : Option Group → Group
  | none => Group.ofRow row
  | some g => { g with chunkIds := g.chunkIds ++ [row.id] }

lemma getGroup_addChunk (groups : List (String × Group)) (parent : String) (row : Row)
    (q : String) : getGroup (addChunk groups parent row) q =
      if parent = q then some (Group.grown row (getGroup groups q)) else getGroup groups q := by
  induction groups with
  | nil =>
    rw [addChunk, getGroup_cons]
    rfl
  | cons e groups ih =>
    obtain ⟨p, g⟩ := e
    rw [addChunk]
    by_cases hp : p = parent
    · rw [if_pos hp, getGroup_cons, getGroup_cons, hp]
      by_cases hq : parent = q <;> simp [hq, Group.grown]
    · rw [if_neg hp, getGroup_cons, getGroup_cons, ih]
      by_cases hq : p = q
      · have hpq : parent ≠ q := fun h => hp (hq.trans h.symm)
        simp [hq, hpq]
      · simp [hq]

lemma keys_addChunk (groups : List (String × Group)) (parent : String) (row : Row) :
    (addChunk groups parent row).map Prod.fst =
      if parent ∈ groups.map Prod.fst then groups.map Prod.fst
      else groups.map Prod.fst ++ [parent] := by
  induction groups with
  | nil => rfl
  | cons e groups ih =>
    obtain ⟨p, g⟩ := e
    rw [addChunk]
    by_cases hp : p = parent
    · simp [hp]
    · rw [if_neg hp, List.map_cons, ih]
      by_cases hmem : parent ∈ groups.map Prod.fst
      · simp only [List.map_cons, List.mem_cons, hmem, or_true, if_true]
      · rw [if_neg hmem, if_neg]
        · rfl
        · rw [List.map_cons, List.mem_cons, not_or]
          exact ⟨Ne.symm hp, hmem⟩

lemma nodup_keys_addChunk {groups : List (String × Group)} (parent : String) (row : Row)
    (h : (groups.map Prod.fst).Nodup) : ((addChunk groups parent row).map Prod.fst).Nodup := by
  rw [keys_addChunk]
  split_ifs with hmem
  · exact h
  · refine List.Nodup.append h (List.nodup_singleton parent) fun p hp hp' => ?_
    rw [List.mem_singleton.1 hp'] at hp
    exact hmem hp

/-- The chunks of a parent. -/
def chunksOf (chunks : List (String × Row)) (parent : String) : List Row :=
  (chunks.filter fun chunk => chunk.1 = parent).map Prod.snd

/-- The loop of `_load_chunk_groups`. -/
def collect (chunks : List (String × Row)) : List (String × Group) :=
  chunks.foldl (fun groups chunk => addChunk groups chunk.1 chunk.2) []

lemma collect_snoc (chunks : List (String × Row)) (chunk : String × Row) :
    collect (chunks ++ [chunk]) = addChunk (collect chunks) chunk.1 chunk.2 := by
  rw [collect, List.foldl_append]
  rfl

lemma chunksOf_snoc (chunks : List (String × Row)) (chunk : String × Row) (parent : String) :
    chunksOf (chunks ++ [chunk]) parent =
      if chunk.1 = parent then chunksOf chunks parent ++ [chunk.2] else chunksOf chunks parent := by
  rw [chunksOf, List.filter_append, List.map_append]
  by_cases h : chunk.1 = parent <;> simp [h, chunksOf]

lemma nodup_keys_collect (chunks : List (String × Row)) :
    ((collect chunks).map Prod.fst).Nodup := by
  induction chunks using List.reverseRecOn with
  | nil => exact List.nodup_nil
  | append_singleton chunks chunk ih =>
    rw [collect_snoc]
    exact nodup_keys_addChunk _ _ ih

/-- The loop keeps for a parent its first chunk and the ids of all of them. -/
lemma getGroup_collect (chunks : List (String × Row)) (parent : String) :
    getGroup (collect chunks) parent = (chunksOf chunks parent).head?.map fun row =>
      { Group.ofRow row with chunkIds := (chunksOf chunks parent).map Row.id } := by
  induction chunks using List.reverseRecOn with
  | nil => rfl
  | append_singleton chunks chunk ih =>
    rw [collect_snoc, getGroup_addChunk, chunksOf_snoc, ih]
    by_cases h : chunk.1 = parent
    · rw [if_pos h, if_pos h]
      cases chunksOf chunks parent with
      | nil => rfl
      | cons row rows => simp [Group.grown, Group.ofRow]
    · rw [if_neg h, if_neg h]

lemma mem_iff_getGroup {groups : List (String × Group)} (h : (groups.map Prod.fst).Nodup)
    {parent : String} {g : Group} :
    (parent, g) ∈ groups ↔ getGroup groups parent = some g := by
  induction groups with
  | nil => simp [getGroup]
  | cons e groups ih =>
    rw [List.map_cons, List.nodup_cons] at h
    rw [List.mem_cons, getGroup_cons, ih h.2]
    by_cases hp : e.1 = parent
    · rw [if_pos hp]
      constructor
      · rintro (heq | hget)
        · rw [← heq]
        · refine absurd ?_ h.1
          rw [hp]
          exact List.mem_map.2 ⟨(parent, g), (ih h.2).2 hget, rfl⟩
      · intro heq
        exact Or.inl (Prod.ext hp.symm (Option.some.inj heq).symm)
    · rw [if_neg hp]
      constructor
      · rintro (heq | hget)
        · exact absurd (by rw [← heq]) hp
        · exact hget
      · exact Or.inr

lemma keys_loadChunkGroups (table : Table) :
    (loadChunkGroups table).map Prod.fst = (collect table.swept).map Prod.fst := by
  rw [loadChunkGroups, List.map_map]
  rfl

/-- The sweep has the group of each parent. -/
lemma mem_loadChunkGroups {table : Table} {parent : String} {g : Group} :
    (parent, g) ∈ loadChunkGroups table ↔ groupOf table parent = some g := by
  have hget : groupOf table parent = (getGroup (collect table.swept) parent).map fun g =>
      { g with hasLegacyRow := (table.rows.map Row.id).contains parent } := by
    rw [getGroup_collect, Option.map_map]
    rfl
  rw [hget, Option.map_eq_some_iff]
  constructor
  · intro hmem
    obtain ⟨⟨p, g'⟩, hmem', heq⟩ := List.mem_map.1 hmem
    obtain ⟨rfl, rfl⟩ := Prod.mk.inj heq
    exact ⟨g', (mem_iff_getGroup (nodup_keys_collect _)).1 hmem', rfl⟩
  · rintro ⟨g', hg', rfl⟩
    exact List.mem_map.2 ⟨(parent, g'), (mem_iff_getGroup (nodup_keys_collect _)).2 hg', rfl⟩

lemma hasLegacyRow_of_groupOf {table : Table} {parent : String} {g : Group}
    (h : groupOf table parent = some g) :
    g.hasLegacyRow = (table.rows.map Row.id).contains parent := by
  obtain ⟨row, -, rfl⟩ := Option.map_eq_some_iff.1 h
  rfl

/-! ### The two halves -/

/-- What the queries and the sort give is the listing. -/
theorem isListing (table : Table) (filter : Filter) :
    IsListing table filter (anchors table filter) (orphans (loadChunkGroups table) filter) where
  rows_perm := List.perm_insertionSort _ _
  rows_sorted := by
    have : Std.Total fun a b : Row => table.collation.le a.id b.id = true :=
      ⟨fun a b => table.collation.total a.id b.id⟩
    have : IsTrans Row fun a b => table.collation.le a.id b.id = true :=
      ⟨fun a b c => table.collation.trans a.id b.id c.id⟩
    exact List.pairwise_insertionSort _ _
  mem_groups parent g := by
    rw [orphans, List.mem_filter, List.mem_insertionSort, mem_loadChunkGroups]
    constructor
    · rintro ⟨hg, hcond⟩
      rw [Bool.and_eq_true, hasLegacyRow_of_groupOf hg] at hcond
      exact ⟨hg, by simpa using hcond.1, hcond.2⟩
    · rintro ⟨hg, hmem, hholds⟩
      rw [Bool.and_eq_true, hasLegacyRow_of_groupOf hg]
      exact ⟨hg, by simpa using hmem, hholds⟩
  groups_sorted := by
    have htotal : Std.Total fun a b : String × Group => a.1 ≤ b.1 :=
      ⟨fun a b => le_total a.1 b.1⟩
    have htrans : IsTrans (String × Group) fun a b => a.1 ≤ b.1 :=
      ⟨fun a b c => le_trans⟩
    have hle : ((orphans (loadChunkGroups table) filter).map Prod.fst).Pairwise (· ≤ ·) := by
      rw [List.pairwise_map]
      exact (List.pairwise_insertionSort _ _).filter _
    have hnodup : ((orphans (loadChunkGroups table) filter).map Prod.fst).Nodup := by
      have hkeys : (((loadChunkGroups table).insertionSort fun a b => a.1 ≤ b.1).map
          Prod.fst).Nodup := by
        refine ((List.perm_insertionSort _ _).map Prod.fst).symm.nodup ?_
        rw [keys_loadChunkGroups]
        exact nodup_keys_collect _
      exact hkeys.sublist ((List.filter_sublist).map _)
    exact (hle.and hnodup).imp fun h => lt_of_le_of_ne h.1 h.2

/-! ### The pages -/

lemma slice_append {α : Type*} (xs ys : List α) (limit offset : ℕ) :
    ((xs ++ ys).drop offset).take limit =
      (xs.drop offset).take limit ++
        (ys.drop (offset - xs.length)).take (limit - ((xs.drop offset).take limit).length) := by
  rw [List.drop_append, List.take_append, List.length_take, List.length_drop]
  congr 2
  omega

/-- The guard of the page query changes nothing. -/
lemma rows_page {α β : Type*} (f : α → β) (rows : List α) (limit offset : ℕ) :
    (if offset < rows.length then ((rows.drop offset).take limit).map f else []) =
      (((rows.map f).drop offset).take limit) := by
  rw [← List.map_drop, ← List.map_take]
  split_ifs with h
  · rfl
  · rw [List.drop_of_length_le (not_lt.1 h), List.take_nil, List.map_nil]

/-- The guard of the second half changes nothing. -/
lemma fill_page {α : Type*} (page rest : List α) (limit : ℕ) :
    (if page.length < limit then page ++ rest.take (limit - page.length) else page) =
      page ++ rest.take (limit - page.length) := by
  split_ifs with h
  · rfl
  · rw [Nat.sub_eq_zero_of_le (not_lt.1 h), List.take_zero, List.append_nil]

/-- The page is the slice of the listing that the checked limit and offset give. -/
lemma drawers_fastListPayload (table : Table) (filter : Filter) (limit offset : ℤ) :
    (fastListPayload floatOf strOf table (loadChunkGroups table) filter limit offset).drawers =
      ((entries floatOf strOf table (anchors table filter)
        (orphans (loadChunkGroups table) filter)).drop (max 0 offset).toNat).take
          (max 1 (min limit (Novelty.listMaxResults : ℤ))).toNat := by
  rw [fastListPayload]
  dsimp only
  rw [rows_page, List.map_take, List.map_drop, fill_page, entries, slice_append, List.length_map]

lemma checked_limit {limit : ℕ} (h : 1 ≤ limit) (h' : limit ≤ 100) :
    (max 1 (min (limit : ℤ) (Novelty.listMaxResults : ℤ))).toNat = limit := by
  simp only [Novelty.listMaxResults]
  omega

/-- The page is the slice of the listing from `offset` on, and says how
long the listing is. -/
lemma page_eq (table : Table) (filter : Filter) {limit : ℕ} (h : 1 ≤ limit) (h' : limit ≤ 100)
    (offset : ℕ) :
    let listing := entries floatOf strOf table (anchors table filter)
      (orphans (loadChunkGroups table) filter)
    fastListPayload floatOf strOf table (loadChunkGroups table) filter limit offset =
      { drawers := (listing.drop offset).take limit, total := listing.length
        count := ((listing.drop offset).take limit).length, offset, limit } := by
  have hd := drawers_fastListPayload floatOf strOf table filter limit offset
  have hoffset : (max 0 (offset : ℤ)).toNat = offset := by omega
  rw [checked_limit h h', hoffset] at hd
  dsimp only
  rw [← hd]
  simp only [fastListPayload, checked_limit h h', hoffset, entries, List.length_append,
    List.length_map]

/-- The pages from `offset` on are the rest of the listing. -/
lemma walk_eq (table : Table) (filter : Filter) {limit : ℕ} (h : 1 ≤ limit) (h' : limit ≤ 100)
    {n : ℕ} {offset : ℕ} :
    let listing := entries floatOf strOf table (anchors table filter)
      (orphans (loadChunkGroups table) filter)
    listing.length - offset < n →
      walk floatOf strOf table (loadChunkGroups table) filter limit n offset =
        some (listing.drop offset) := by
  intro listing
  induction n generalizing offset with
  | zero => exact fun hn => absurd hn (Nat.not_lt_zero _)
  | succ n ih =>
    intro hn
    rw [walk, page_eq floatOf strOf table filter h h']
    change (if ((listing.drop offset).take limit).length = 0 then _ else _) = _
    split_ifs with hcount
    · rw [List.length_take, List.length_drop] at hcount
      rw [List.drop_of_length_le (by omega)]
    · have hlen : ((listing.drop offset).take limit).length =
          min limit (listing.length - offset) := by
        rw [List.length_take, List.length_drop]
      have hrest := @ih (offset + ((listing.drop offset).take limit).length) (by omega)
      change (walk floatOf strOf table (loadChunkGroups table) filter limit n
        (offset + ((listing.drop offset).take limit).length)).map
          ((listing.drop offset).take limit ++ ·) = _
      rw [hrest, Option.map_some, ← List.drop_drop]
      exact congrArg some (List.prefix_iff_eq_append.1 (List.take_prefix _ _))

lemma drawerId_rowEntry (groups : List (String × Group)) (row : Row) :
    (rowEntry floatOf strOf groups row).drawerId = row.id := by
  rw [rowEntry]
  split <;> rfl

/-- No drawer is listed twice. -/
lemma IsListing.nodup {table : Table} {filter : Filter} {rows : List Row}
    {groups : List (String × Group)} (h : IsListing table filter rows groups) :
    ((entries floatOf strOf table rows groups).map Entry.drawerId).Nodup := by
  have hids : (entries floatOf strOf table rows groups).map Entry.drawerId =
      rows.map Row.id ++ groups.map Prod.fst := by
    rw [entries, List.map_append, List.map_map, List.map_map]
    congr 1
    exact List.map_congr_left fun row _ => drawerId_rowEntry floatOf strOf _ row
  have hsub : ∀ id ∈ rows.map Row.id, id ∈ table.rows.map Row.id := by
    intro id hid
    obtain ⟨row, hrow, rfl⟩ := List.mem_map.1 hid
    exact List.mem_map_of_mem (List.mem_filter.1 (h.rows_perm.mem_iff.1 hrow)).1
  rw [hids]
  refine List.Nodup.append ?_ (h.groups_sorted.imp fun hlt => ne_of_lt hlt) ?_
  · exact (h.rows_perm.map Row.id).symm.nodup
      (table.nodup.sublist ((List.filter_sublist).map _))
  · intro id hid hid'
    obtain ⟨⟨parent, g⟩, hg, rfl⟩ := List.mem_map.1 hid'
    exact ((h.mem_groups parent g).1 hg).2.1 (hsub _ hid)

/-- **The pages partition the listing.**  There is one listing, the rows without a parent in the
order of their ids and then the chunk groups whose parent has no row, no drawer twice, of which
every page is a slice and every `total` the length; reading page after page from the start gives
each entry once and comes to an end. -/
theorem listing_pages (table : Table) (filter : Filter) {limit : ℕ} (h : 1 ≤ limit)
    (h' : limit ≤ 100) :
    ∃ rows groups, IsListing table filter rows groups ∧
      ((entries floatOf strOf table rows groups).map Entry.drawerId).Nodup ∧
      (∀ offset : ℕ,
        fastListPayload floatOf strOf table (loadChunkGroups table) filter limit offset =
          { drawers := ((entries floatOf strOf table rows groups).drop offset).take limit
            total := (entries floatOf strOf table rows groups).length
            count := (((entries floatOf strOf table rows groups).drop offset).take limit).length
            offset, limit }) ∧
      ∃ pages, ∀ n ≥ pages,
        walk floatOf strOf table (loadChunkGroups table) filter limit n 0 =
          some (entries floatOf strOf table rows groups) := by
  have hlisting := isListing table filter
  refine ⟨_, _, hlisting, hlisting.nodup floatOf strOf, ?_, ?_⟩
  · exact page_eq floatOf strOf table filter h h'
  · refine ⟨(entries floatOf strOf table (anchors table filter)
      (orphans (loadChunkGroups table) filter)).length + 1, fun n hn => ?_⟩
    exact walk_eq floatOf strOf table filter h h' (by omega)

/-- The order of the texts by their characters. -/
def Collation.byChars : Collation where
  le s t := decide (s ≤ t)
  total s t := (le_total s t).imp decide_eq_true decide_eq_true
  antisymm s t h h' := le_antisymm (of_decide_eq_true h) (of_decide_eq_true h')
  trans s t u h h' := decide_eq_true (le_trans (of_decide_eq_true h) (of_decide_eq_true h'))

/-- A drawer, and two chunks of one that has no row. -/
def threeRows : Table where
  rows :=
    [⟨"d1", some "text", some "w", none, none, none, none⟩,
      ⟨"c2", none, some "w", none, none, some "p", some 1⟩,
      ⟨"c1", none, some "w", none, none, some "p", some 0⟩]
  nodup := by decide
  collation := Collation.byChars

/-- Two pages of one entry each. -/
theorem listing_pages_threeRows :
    ∃ rows groups, IsListing threeRows ⟨some "w", none⟩ rows groups ∧
      ((entries (fun _ => .nan) (fun _ => []) threeRows rows groups).map
        Entry.drawerId).Nodup ∧
      (∀ offset : ℕ,
        fastListPayload (fun _ => .nan) (fun _ => []) threeRows (loadChunkGroups threeRows)
          ⟨some "w", none⟩ (1 : ℕ) offset =
          { drawers := ((entries (fun _ => .nan) (fun _ => []) threeRows rows groups).drop
              offset).take 1
            total := (entries (fun _ => .nan) (fun _ => []) threeRows rows groups).length
            count := (((entries (fun _ => .nan) (fun _ => []) threeRows rows groups).drop
              offset).take 1).length
            offset, limit := 1 }) ∧
      ∃ pages, ∀ n ≥ pages,
        walk (fun _ => .nan) (fun _ => []) threeRows (loadChunkGroups threeRows)
          ⟨some "w", none⟩ 1 n 0 =
          some (entries (fun _ => .nan) (fun _ => []) threeRows rows groups) :=
  listing_pages (fun _ => .nan) (fun _ => []) threeRows ⟨some "w", none⟩ le_rfl (by decide)

example : (fastListPayload (fun _ => .nan) (fun _ => []) threeRows (loadChunkGroups threeRows)
    ⟨some "w", none⟩ 1 1).drawers.map Entry.drawerId = ["p"] := by decide +kernel

end Entries

end PalaceDaemon.Listing

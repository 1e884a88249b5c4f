/-
The novelty score of `POST /memory`.

`store_memory` runs the write and the scoring side by side: the scoring lists drawers of the wing
and the room, fetches their texts, and reports the least compression distance to the new content.
The listing is ordered by the id, not by the time of filing, holds at most 100 drawers, and may
run when the new drawer is there already; and a text that is not fetched is a preview.  What the
listing selects is said of the table it finds (`Scoring.Selects`): the drawers with fewer than the
limit before them by their ids.  `scored_against_past_iff` says when that gives the score that the
most recently filed earlier drawers give, and that a listing of a place with no more drawers than
the window, made before the write, does.
-/
import Mathlib.Algebra.Order.Floor.Ring
import Mathlib.Data.List.Dedup
import Mathlib.Data.List.Sort
import Mathlib.Data.Rat.Floor
import Mathlib.Tactic.NormNum
import PalaceDaemon.Lib.Nearest
import PalaceDaemon.Lib.PyText
import PalaceDaemon.Lib.TopCut

namespace PalaceDaemon.Novelty

/-! ### The compression distance -/

/-- The parts of the score that are not the daemon's: the length of what gzip makes of a text, the
quotient of two lengths as a double, and the rounding to four places. -/
structure Arithmetic where
  /-- `len(gzip.compress(text.encode("utf-8"), compresslevel=6))` -/
  compressed : String → ℕ
  quotient : ℤ → ℕ → ℚ
  round4 : ℚ → ℚ
  round4_mono : Monotone round4
  round4_one : round4 1 = 1

variable (arith : Arithmetic)

/-- `ncd` -/
def ncd (a b : String) : ℚ :=
  if a = "" ∧ b = "" then 0
  else if a = "" ∨ b = "" then 1
  else
    let ca := arith.compressed a
    let cb := arith.compressed b
    let cab := arith.compressed (a ++ b)
    let denom := max ca cb
    if denom = 0 then 0 else arith.quotient ((cab : ℤ) - min ca cb) denom

/-! ### Settings -/

/-- The knobs, read at each request: a number is missing when the variable is unset or is no
number. -/
structure Knobs where
  enabled : Bool
  window : Option ℤ
  fullContent : Bool
  fullContentWindow : Option ℤ

/-- `_window_size` -/
def Knobs.windowSize (k : Knobs) : ℕ := (max 1 (k.window.getD 20)).toNat

/-- `_full_content_window` -/
def Knobs.fullContentSize (k : Knobs) : ℕ :=
  match k.fullContentWindow with
  | some n => (max 0 n).toNat
  | none => k.windowSize

/-! ### The score -/

inductive Status
  | ok
  | skipped
  | noWindow
  | failed
deriving DecidableEq

/-- What the scoring reports. -/
structure Info where
  enabled : Bool
  noveltyScore : ℚ
  windowSize : Option ℕ
  mostSimilarIndex : Option ℕ
  status : Status
  reason : Option String
  fullContent : Option Bool
  fullContentUsed : Option ℕ

/-- `not content or not content.strip()` -/
def isBlank (content : String) : Bool := content = "" || PyText.strip content.toList = []

/-- The distance to a text of the window; an empty text is passed over. -/
def distance (content text : String) : Option ℚ :=
  if text = "" then none else some (ncd arith content text)

/-- `score_novelty` -/
def scoreNovelty (enabled : Bool) (content : String) (existingTexts : List String) : Info :=
  let info : Info :=
    { enabled, noveltyScore := 1, windowSize := some 0, mostSimilarIndex := none,
      status := .skipped, reason := none, fullContent := none, fullContentUsed := none }
  if enabled = false then { info with reason := some "PALACE_NOVELTY_ENABLED=false" }
  else if isBlank content then { info with reason := some "empty content" }
  else if existingTexts = [] then
    { info with
      status := .noWindow, reason := some "no existing drawers to compare against" }
  else
    let best := Nearest.search (distance arith content) 0 (1, 0) existingTexts
    { info with
      noveltyScore := arith.round4 best.1, windowSize := some existingTexts.length,
      mostSimilarIndex := some best.2, status := .ok }

/-! ### The listing -/

/-- A row of `mempalace_drawers`. -/
structure Row where
  id : String
  document : String
  wing : String
  room : String
  parentDrawerId : Option String
  chunkIndex : Option ℤ
  filedAt : ℕ

/-- The drawer that a row is of. -/
def Row.drawerId (r : Row) : String := r.parentDrawerId.getD r.id

/-- A chunk group, as its first chunk has it. -/
structure Group where
  parent : String
  wing : String
  room : String
  document : String
  hasLegacyRow : Bool
  filedAt : ℕ

/-- A listed drawer, as the scoring reads it. -/
structure Member where
  drawerId : String
  preview : String
deriving DecidableEq

/-- The order of the chunks of one drawer: by their index, NULL last, then by their id. -/
def chunkLe (idLe : String → String → Bool) (a b : Row) : Bool :=
  match a.chunkIndex, b.chunkIndex with
  | some i, some j => i < j || (i = j && idLe a.id b.id)
  | some _, none => true
  | none, some _ => false
  | none, none => idLe a.id b.id

/-- The group of a parent: what `setdefault` keeps is the first chunk. -/
def groupOf (idLe : String → String → Bool) (rows : List Row) (parent : String) : Option Group :=
  ((rows.filter fun r => r.parentDrawerId = some parent).insertionSort fun a b =>
      chunkLe idLe a b).head?.map fun r =>
    { parent, wing := r.wing, room := r.room, document := r.document,
      hasLegacyRow := rows.any fun a => a.id = parent, filedAt := r.filedAt }

/-- `_load_chunk_groups`, sorted by the parent. -/
def loadChunkGroups (idLe : String → String → Bool) (rows : List Row) : List Group :=
  ((rows.filterMap Row.parentDrawerId).dedup.insertionSort (· ≤ ·)).filterMap
    (groupOf idLe rows)

/-- `content_preview` -/
def contentPreview (document : String) : String :=
  if 200 < document.toList.length then String.ofList (document.toList.take 200) ++ "..."
  else document

/-- The wing and the room are the given ones; an empty one is not asked for. -/
def inPlace (wing room : String) (w r : String) : Bool :=
  (wing = "" || w = wing) && (room = "" || r = room)

/-- The rows that stand for a drawer. -/
def anchors (wing room : String) (rows : List Row) : List Row :=
  rows.filter fun r => r.parentDrawerId.isNone && inPlace wing room r.wing r.room

/-- The chunk groups that have no row of their own. -/
def orphans (wing room : String) (groups : List Group) : List Group :=
  groups.filter fun g => !g.hasLegacyRow && inPlace wing room g.wing g.room

/-- `_LIST_MAX_RESULTS` -/
def listMaxResults : ℕ := 100

/-- `fast_list_payload` from offset 0 on, with the chunk groups of an earlier sweep. -/
def fastListPayload (idLe : String → String → Bool) (wing room : String) (limit : ℕ)
    (groups : List Group) (rows : List Row) : List Member :=
  let limit := max 1 (min limit listMaxResults)
  let page := ((anchors wing room rows).insertionSort fun a b => idLe a.id b.id).take limit
  page.map (fun r => ⟨r.id, contentPreview r.document⟩) ++
    ((orphans wing room groups).take (limit - page.length)).map fun g =>
      ⟨g.parent, contentPreview g.document⟩

/-! ### The scoring of a write -/

/-- How the listing is answered: by the fast path, by the tool (whose failures list nothing), or
with an exception. -/
inductive Route
  | fast
  | tool (members : List Member)
  | raised (reason : String)

/-- How the database orders the ids. -/
structure IdOrder where
  le : String → String → Bool
  total : ∀ a b, le a b || le b a
  trans : ∀ a b c, le a b → le b c → le a c
  antisymm : ∀ a b, le a b → le b a → a = b

/-- A write and the scoring beside it.  The rows of the new drawer come into the table one by one,
and the listing sees the first `seen` of them. -/
structure Scoring where
  knobs : Knobs
  content : String
  wing : String
  room : String
  /-- The rows before the write. -/
  rows : List Row
  /-- The rows of the new drawer. -/
  added : List Row
  seen : ℕ
  /-- The rows that the last sweep of the chunks saw. -/
  swept : List Row
  order : IdOrder
  route : Route
  /-- What `mempalace_get_drawer` answers for each member of the window. -/
  fetch : ℕ → Option String
  /-- The text of each drawer. -/
  whole : String → String
  /-- The id is the primary key. -/
  unique : ((rows ++ added).map Row.id).Nodup
  /-- The new drawer is not among those before the write. -/
  fresh : ∀ r ∈ rows, r.id ∉ added.map Row.drawerId ∧ r.drawerId ∉ added.map Row.drawerId

variable (s : Scoring)

/-- The drawers of the window. -/
def Scoring.members : List Member :=
  match s.route with
  | .fast => fastListPayload s.order.le s.wing s.room s.knobs.windowSize
      (loadChunkGroups s.order.le s.swept) (s.rows ++ s.added.take s.seen)
  | .tool members => members
  | .raised _ => []

/-- `_fetch_full_content` -/
def Scoring.fetchFullContent (i : ℕ) (m : Member) : Option String :=
  if m.drawerId = "" then none else (s.fetch i).filter (· ≠ "")

/-- How many texts are fetched. -/
def Scoring.fullCap : ℕ := if s.knobs.fullContent then s.knobs.fullContentSize else 0

/-- The text of a member of the window. -/
def Scoring.textOf (i : ℕ) (m : Member) : String :=
  if i < s.fullCap then (s.fetchFullContent i m).getD m.preview else m.preview

/-- The members of the window that have a text. -/
def Scoring.window : List (Member × String) :=
  (s.members.zipIdx.map fun p => (p.1, s.textOf p.2 p.1)).filter fun p => p.2 ≠ ""

/-- `full_content_used` -/
def Scoring.fullUsed : ℕ :=
  s.members.zipIdx.countP fun p => p.2 < s.fullCap && (s.fetchFullContent p.2 p.1).isSome

/-- `compute_novelty_for_write` -/
def computeNoveltyForWrite : Info :=
  if s.knobs.enabled = false then
    { enabled := false, noveltyScore := 1, windowSize := none, mostSimilarIndex := none,
      status := .skipped, reason := none, fullContent := none, fullContentUsed := none }
  else match s.route with
    | .raised reason =>
      { enabled := true, noveltyScore := 1, windowSize := none, mostSimilarIndex := none,
        status := .failed, reason := some reason, fullContent := none, fullContentUsed := none }
    | _ =>
      { scoreNovelty arith s.knobs.enabled s.content (s.window.map Prod.snd) with
        fullContent := some s.knobs.fullContent, fullContentUsed := some s.fullUsed }

/-! ### The past -/

/-- A drawer of the store. -/
structure Drawer where
  id : String
  wing : String
  room : String
  filedAt : ℕ
deriving DecidableEq

/-- The drawers there were before the write: the rows that stand for one, and the chunk groups
that have no row of their own. -/
def Scoring.drawers : List Drawer :=
  (anchors s.wing s.room s.rows).map (fun r => ⟨r.id, r.wing, r.room, r.filedAt⟩) ++
    (orphans s.wing s.room (loadChunkGroups s.order.le s.rows)).map fun g =>
      ⟨g.parent, g.wing, g.room, g.filedAt⟩

/-- The most recently filed of them. -/
def Scoring.recent : List Drawer :=
  (s.drawers.insertionSort fun a b => b.filedAt ≤ a.filedAt).take s.knobs.windowSize

/-- The distance of the content to a drawer of the past. -/
def Scoring.pastDistance (d : Drawer) : ℚ := ncd arith s.content (s.whole d.id)

/-- The least of one and the distances to the recent drawers. -/
def Scoring.pastLeast : ℚ := Nearest.least (fun d => some (s.pastDistance arith d)) 1 s.recent

/-- The members of the window that the content is compared with. -/
def Scoring.compared : List (Member × String) :=
  if s.knobs.enabled && !isBlank s.content then
    match s.route with
    | .raised _ => []
    | _ => s.window
  else []

/-- The ids under which the new drawer may be listed. -/
def Scoring.ownIds : List String := s.added.map Row.drawerId

/-- The content is scored against the past. -/
structure ScoredAgainstPast : Prop where
  score : (computeNoveltyForWrite arith s).noveltyScore = arith.round4 (s.pastLeast arith)
  notOwn : ∀ p ∈ s.compared, p.1.drawerId ∉ s.ownIds
  index : s.pastLeast arith < 1 → ∃ i text,
    (computeNoveltyForWrite arith s).mostSimilarIndex = some i ∧
      (s.compared.map Prod.snd)[i]? = some text ∧ ncd arith s.content text = s.pastLeast arith

/-! ### What the listing selects -/

/-- The rows of the place, when the listing is made. -/
def Scoring.found : List Row := anchors s.wing s.room (s.rows ++ s.added.take s.seen)

/-- The chunk groups of the place without a row, as the last sweep saw them. -/
def Scoring.groups : List Group :=
  orphans s.wing s.room (loadChunkGroups s.order.le s.swept)

/-- How many drawers the listing takes. -/
def Scoring.limit : ℕ := max 1 (min s.knobs.windowSize listMaxResults)

/-- The number of rows of the place with a lesser id. -/
def Scoring.rank (r : Row) : ℕ := s.found.countP fun a => s.order.le a.id r.id && a.id ≠ r.id

def Row.member (r : Row) : Member := ⟨r.id, contentPreview r.document⟩

def Group.member (g : Group) : Member := ⟨g.parent, contentPreview g.document⟩

/-- The drawer at a position of the listing: a row with so many ids before it, or, behind the
rows, a chunk group; or what the tool lists. -/
inductive Scoring.Selects : ℕ → Member → Prop
  | row {r : Row} : s.route = .fast → r ∈ s.found → s.rank r < s.limit →
      Selects (s.rank r) r.member
  | group {j : ℕ} {g : Group} : s.route = .fast → s.groups[j]? = some g →
      s.found.length + j < s.limit → Selects (s.found.length + j) g.member
  | tool {members : List Member} {i : ℕ} {m : Member} : s.route = .tool members →
      members[i]? = some m → Selects i m

/-- A selected drawer has this text, or this preview where its text is not fetched. -/
def Scoring.Reads (m : Member) (text : String) : Prop :=
  s.knobs.enabled = true ∧ isBlank s.content = false ∧
    ∃ i, s.Selects i m ∧ text = s.textOf i m ∧ text ≠ ""

/-- The rows of the new drawer that are there at the listing, its chunk group and what the tool
may list of it, come behind the limit or have no text. -/
structure LeftOut : Prop where
  row : s.route = .fast → ∀ r ∈ s.added.take s.seen, r.parentDrawerId = none →
    inPlace s.wing s.room r.wing r.room = true → s.rank r < s.limit →
    s.textOf (s.rank r) r.member = ""
  group : s.route = .fast → ∀ j g, s.groups[j]? = some g → g.parent ∈ s.ownIds →
    s.found.length + j < s.limit → s.textOf (s.found.length + j) g.member = ""
  tool : ∀ members, s.route = .tool members → ∀ i m, members[i]? = some m →
    m.drawerId ∈ s.ownIds → s.textOf i m = ""

/-- A recent drawer whose whole text is compared. -/
def Scoring.Shared (d : Drawer) : Prop :=
  d ∈ s.recent ∧ ∃ m, s.Reads m (s.whole d.id) ∧ m.drawerId = d.id

/-- The listing leaves the new drawer out, and where it differs from the past this makes no
difference: a recent drawer that it does not select, or of which it has no more than a preview,
is nearer than one only if some text that is read is as near; and a text that is not the whole
text of a recent drawer is nearer than one only if a recent drawer is as near, or if none of
these is nearer than one and the text is so only before the rounding. -/
structure DecidedByPast : Prop where
  leftOut : s.knobs.enabled = true → isBlank s.content = false → LeftOut s
  missed : ∀ d ∈ s.recent, ¬ s.Shared d → s.pastDistance arith d < 1 →
    ∃ m text, s.Reads m text ∧ ncd arith s.content text ≤ s.pastDistance arith d
  extra : ∀ m text, s.Reads m text → (∀ d ∈ s.recent, m.drawerId = d.id → text ≠ s.whole d.id) →
    ncd arith s.content text < 1 →
    (∃ d ∈ s.recent, s.pastDistance arith d ≤ ncd arith s.content text) ∨
      (∀ d ∈ s.recent, 1 ≤ s.pastDistance arith d) ∧ arith.round4 (ncd arith s.content text) = 1

/-! ### The window -/

/-- The window tells what the past tells: the new drawer is not in it, each recent drawer nearer
than one has a text of the window that is as near, and each text of the window nearer than one has
a recent drawer that is as near, or no recent drawer is nearer than one and the text is so only
before the rounding. -/
structure Alike : Prop where
  notOwn : ∀ p ∈ s.compared, p.1.drawerId ∉ s.ownIds
  reached : ∀ d ∈ s.recent, s.pastDistance arith d < 1 →
    ∃ p ∈ s.compared, ncd arith s.content p.2 ≤ s.pastDistance arith d
  recent : ∀ p ∈ s.compared, ncd arith s.content p.2 < 1 →
    (∃ d ∈ s.recent, s.pastDistance arith d ≤ ncd arith s.content p.2) ∨
      (∀ d ∈ s.recent, 1 ≤ s.pastDistance arith d) ∧ arith.round4 (ncd arith s.content p.2) = 1

/-! ### What the score says of the window -/

/-- The least of one and the distances to the compared texts. -/
def Scoring.comparedLeast : ℚ :=
  Nearest.least (fun p => some (ncd arith s.content p.2)) 1 s.compared

lemma mem_window {p : Member × String} (h : p ∈ s.window) : p.2 ≠ "" := by
  have := (List.mem_filter.1 h).2
  simpa using this

/-- The distances of the loop are those of the window. -/
lemma search_window {best : ℚ × ℕ} (i : ℕ) (ps : List (Member × String))
    (h : ∀ p ∈ ps, p.2 ≠ "") :
    Nearest.search (distance arith s.content) i best (ps.map Prod.snd) =
      Nearest.search (fun p : Member × String => some (ncd arith s.content p.2)) i best ps := by
  induction ps generalizing i best with
  | nil => rfl
  | cons p ps ih =>
      rw [List.forall_mem_cons] at h
      rw [List.map_cons, Nearest.search, Nearest.search, distance, if_neg h.1]
      exact ih (i + 1) h.2

/-- The score is one and there is no index, or they are what the loop over the compared texts
ends with. -/
lemma computeNovelty_eq :
    (s.compared = [] ∧ (computeNoveltyForWrite arith s).noveltyScore = 1 ∧
        (computeNoveltyForWrite arith s).mostSimilarIndex = none) ∨
      ∃ best : ℚ × ℕ, best = Nearest.search
          (fun p : Member × String => some (ncd arith s.content p.2)) 0 (1, 0) s.compared ∧
        (computeNoveltyForWrite arith s).noveltyScore = arith.round4 best.1 ∧
        (computeNoveltyForWrite arith s).mostSimilarIndex = some best.2 := by
  rw [computeNoveltyForWrite, Scoring.compared]
  by_cases hen : s.knobs.enabled = false
  · exact .inl ⟨by simp [hen], by simp [hen], by simp [hen]⟩
  have hon : s.knobs.enabled = true := by simpa using hen
  by_cases hblank : isBlank s.content = true
  · refine .inl ?_
    rcases s.route with _ | _ | _ <;> simp [hon, hblank, scoreNovelty]
  have hwords : isBlank s.content = false := by simpa using hblank
  have hscore : s.window = [] ∨ scoreNovelty arith true s.content (s.window.map Prod.snd) =
      { enabled := true, noveltyScore := arith.round4 (Nearest.search
          (fun p : Member × String => some (ncd arith s.content p.2)) 0 (1, 0) s.window).1,
        windowSize := some s.window.length, mostSimilarIndex := some (Nearest.search
          (fun p : Member × String => some (ncd arith s.content p.2)) 0 (1, 0) s.window).2,
        status := .ok, reason := none, fullContent := none, fullContentUsed := none } := by
    refine or_iff_not_imp_left.2 fun hne => ?_
    rw [scoreNovelty, if_neg (by simp), if_neg hblank,
      if_neg fun h => hne (List.map_eq_nil_iff.1 h), search_window arith s 0 s.window
        fun p hp => mem_window s hp, List.length_map]
  simp only [hon, hwords, Bool.not_false, Bool.and_true, if_true, Bool.true_eq_false, if_false]
  rcases s.route with _ | members | reason
  · rcases hscore with hnil | hscore
    · exact .inl ⟨hnil, by simp [hnil, scoreNovelty, hwords], by simp [hnil, scoreNovelty, hwords]⟩
    · exact .inr ⟨_, rfl, by rw [hscore], by rw [hscore]⟩
  · rcases hscore with hnil | hscore
    · exact .inl ⟨hnil, by simp [hnil, scoreNovelty, hwords], by simp [hnil, scoreNovelty, hwords]⟩
    · exact .inr ⟨_, rfl, by rw [hscore], by rw [hscore]⟩
  · exact .inl ⟨rfl, rfl, rfl⟩

/-- The score is the least of one and the distances to the compared texts. -/
lemma noveltyScore_eq :
    (computeNoveltyForWrite arith s).noveltyScore = arith.round4 (s.comparedLeast arith) := by
  rcases computeNovelty_eq arith s with ⟨hnil, hscore, -⟩ | ⟨best, rfl, hscore, -⟩
  · rw [hscore, Scoring.comparedLeast, hnil, Nearest.least, arith.round4_one]
  · rw [hscore, Nearest.search_fst, Scoring.comparedLeast]

/-- A least distance below one is the distance of the text at the reported index. -/
lemma mostSimilarIndex_spec (h : s.comparedLeast arith < 1) : ∃ i text,
    (computeNoveltyForWrite arith s).mostSimilarIndex = some i ∧
      (s.compared.map Prod.snd)[i]? = some text ∧
      ncd arith s.content text = s.comparedLeast arith := by
  rcases computeNovelty_eq arith s with ⟨hnil, -, -⟩ | ⟨best, rfl, -, hindex⟩
  · rw [Scoring.comparedLeast, hnil, Nearest.least] at h
    exact absurd h (lt_irrefl 1)
  · have hfst := Nearest.search_fst (d := fun p : Member × String =>
      some (ncd arith s.content p.2)) 0 (1, 0) s.compared
    rcases Nearest.search_snd (d := fun p : Member × String =>
        some (ncd arith s.content p.2)) 0 (1, 0) s.compared with hstart | ⟨j, p, hj, hsnd, hv⟩
    · rw [hstart] at hfst
      exact absurd h (by rw [Scoring.comparedLeast, ← hfst]; exact lt_irrefl 1)
    · refine ⟨j, p.2, by rw [hindex, hsnd, Nat.zero_add], by rw [List.getElem?_map, hj]; rfl, ?_⟩
      rw [Scoring.comparedLeast, ← hfst]
      exact Option.some.inj hv

lemma pastLeast_le {d : Drawer} (hd : d ∈ s.recent) : s.pastLeast arith ≤ s.pastDistance arith d :=
  Nearest.least_le hd rfl

lemma comparedLeast_le {p : Member × String} (hp : p ∈ s.compared) :
    s.comparedLeast arith ≤ ncd arith s.content p.2 :=
  Nearest.least_le hp rfl

lemma exists_recent (h : s.pastLeast arith < 1) :
    ∃ d ∈ s.recent, s.pastDistance arith d = s.pastLeast arith := by
  obtain ⟨d, hd, hv⟩ := Nearest.exists_of_least_lt h
  exact ⟨d, hd, Option.some.inj hv⟩

lemma exists_compared (h : s.comparedLeast arith < 1) :
    ∃ p ∈ s.compared, ncd arith s.content p.2 = s.comparedLeast arith := by
  obtain ⟨p, hp, hv⟩ := Nearest.exists_of_least_lt h
  exact ⟨p, hp, Option.some.inj hv⟩

/-- The text at the reported index is a compared one, and as near as any. -/
lemma pastLeast_eq_of_index (h : ScoredAgainstPast arith s) (hlt : s.pastLeast arith < 1) :
    (∃ p ∈ s.compared, ncd arith s.content p.2 = s.pastLeast arith) ∧
      s.pastLeast arith = s.comparedLeast arith := by
  obtain ⟨i, text, hindex, htext, hncd⟩ := h.index hlt
  have hmem : text ∈ s.compared.map Prod.snd := List.mem_of_getElem? htext
  obtain ⟨p, hp, rfl⟩ := List.mem_map.1 hmem
  have hcompared : s.comparedLeast arith < 1 :=
    (comparedLeast_le arith s hp).trans_lt (hncd ▸ hlt)
  obtain ⟨j, text', hindex', htext', hncd'⟩ := mostSimilarIndex_spec arith s hcompared
  obtain rfl : i = j := Option.some.inj (hindex.symm.trans hindex')
  obtain rfl : p.2 = text' := Option.some.inj (htext.symm.trans htext')
  exact ⟨⟨p, hp, hncd⟩, hncd.symm.trans hncd'⟩

/-- The score is that of the past exactly when the window tells what the past tells. -/
lemma scoredAgainstPast_iff_alike : ScoredAgainstPast arith s ↔ Alike arith s := by
  constructor
  · intro h
    refine ⟨h.notOwn, fun d hd hlt => ?_, fun p hp hlt => ?_⟩
    · have hpast := pastLeast_le arith s hd
      obtain ⟨⟨p, hp, hncd⟩, -⟩ := pastLeast_eq_of_index arith s h (hpast.trans_lt hlt)
      exact ⟨p, hp, hncd.le.trans hpast⟩
    · rcases lt_or_ge (s.pastLeast arith) 1 with hpast | hpast
      · obtain ⟨-, heq⟩ := pastLeast_eq_of_index arith s h hpast
        obtain ⟨d, hd, hd'⟩ := exists_recent arith s hpast
        exact .inl ⟨d, hd, (hd'.trans heq).le.trans (comparedLeast_le arith s hp)⟩
      · refine .inr ⟨fun d hd => hpast.trans (pastLeast_le arith s hd), ?_⟩
        have hone : s.pastLeast arith = 1 := le_antisymm (Nearest.least_le_top _) hpast
        have hround : arith.round4 (s.comparedLeast arith) = 1 := by
          rw [← noveltyScore_eq, h.score, hone, arith.round4_one]
        refine le_antisymm ?_ ?_
        · exact (arith.round4_mono hlt.le).trans_eq arith.round4_one
        · exact hround.symm.le.trans (arith.round4_mono (comparedLeast_le arith s hp))
  · intro h
    rcases lt_or_ge (s.pastLeast arith) 1 with hpast | hpast
    · have heq : s.comparedLeast arith = s.pastLeast arith := by
        refine le_antisymm (Nearest.least_le_least ?_) (Nearest.least_le_least ?_)
        · rintro d hd _ ⟨⟩ hlt
          obtain ⟨p, hp, hle⟩ := h.reached d hd hlt
          exact ⟨p, hp, _, rfl, hle⟩
        · rintro p hp _ ⟨⟩ hlt
          rcases h.recent p hp hlt with ⟨d, hd, hle⟩ | ⟨hfar, -⟩
          · exact ⟨d, hd, _, rfl, hle⟩
          · obtain ⟨d, hd, hd'⟩ := exists_recent arith s hpast
            exact absurd (hfar d hd) (not_le.2 (hd' ▸ hpast))
      refine ⟨by rw [noveltyScore_eq, heq], h.notOwn, fun hlt => ?_⟩
      rw [← heq]
      exact mostSimilarIndex_spec arith s (heq ▸ hlt)
    · refine ⟨?_, h.notOwn, fun hlt => absurd hpast (not_le.2 hlt)⟩
      have hone : s.pastLeast arith = 1 := le_antisymm (Nearest.least_le_top _) hpast
      rw [noveltyScore_eq, hone, arith.round4_one]
      rcases lt_or_ge (s.comparedLeast arith) 1 with hlt | hge
      · obtain ⟨p, hp, hp'⟩ := exists_compared arith s hlt
        rcases h.recent p hp (hp' ▸ hlt) with ⟨d, hd, hle⟩ | ⟨-, hround⟩
        · have hd' := hpast.trans (pastLeast_le arith s hd)
          exact absurd (hd'.trans hle) (not_le.2 (hp' ▸ hlt))
        · rw [← hp', hround]
      · have hone' : s.comparedLeast arith = 1 := le_antisymm (Nearest.least_le_top _) hge
        rw [hone', arith.round4_one]

/-! ### The window and the listing -/

/-- The rows of the place in the order of their ids. -/
def Scoring.sorted : List Row := s.found.insertionSort fun a b => s.order.le a.id b.id

lemma sorted_perm : s.sorted.Perm s.found := List.perm_insertionSort _ _

lemma sorted_pairwise : s.sorted.Pairwise fun a b => s.order.le a.id b.id := by
  have : Std.Total fun a b : Row => s.order.le a.id b.id = true :=
    ⟨fun a b => Bool.or_eq_true _ _ ▸ s.order.total a.id b.id⟩
  have : IsTrans Row fun a b => s.order.le a.id b.id = true :=
    ⟨fun a b c => s.order.trans a.id b.id c.id⟩
  exact List.pairwise_insertionSort _ _

lemma found_ids_nodup : (s.found.map Row.id).Nodup := by
  have hsub : (s.rows ++ s.added.take s.seen).Sublist (s.rows ++ s.added) :=
    (List.Sublist.refl _).append (List.take_sublist _ _)
  exact s.unique.sublist ((List.filter_sublist.trans hsub).map Row.id)

/-- The place of a row is the number of the lesser ids. -/
lemma sorted_getElem?_iff {i : ℕ} {r : Row} :
    s.sorted[i]? = some r ↔ r ∈ s.found ∧ s.rank r = i := by
  have hnodup : (s.sorted.map Row.id).Nodup :=
    ((sorted_perm s).map Row.id).nodup_iff.2 (found_ids_nodup s)
  have hids := TopCut.getElem?_eq_some_iff_countP (i := i) (a := r.id) (r := s.order.le)
    (List.pairwise_map.2 (sorted_pairwise s)) (fun a _ b _ => s.order.antisymm a b) hnodup
  have hrank : (s.sorted.map Row.id).countP (fun b => s.order.le b r.id && b ≠ r.id) =
      s.rank r := by
    rw [List.countP_map, (sorted_perm s).countP_eq]
    rfl
  rw [hrank] at hids
  constructor
  · intro h
    have hmem : r ∈ s.sorted := List.mem_of_getElem? h
    exact ⟨(sorted_perm s).mem_iff.1 hmem, (hids.1 (by rw [List.getElem?_map, h]; rfl)).2⟩
  · rintro ⟨hmem, hi⟩
    have hget := hids.2 ⟨List.mem_map_of_mem ((sorted_perm s).mem_iff.2 hmem), hi⟩
    rw [List.getElem?_map, Option.map_eq_some_iff] at hget
    obtain ⟨r', hr', hid⟩ := hget
    have hmem' : r' ∈ s.found := (sorted_perm s).mem_iff.1 (List.mem_of_getElem? hr')
    rw [hr', List.inj_on_of_nodup_map (found_ids_nodup s) hmem' hmem hid]

/-- The listing of the fast path. -/
lemma members_fast (h : s.route = .fast) : s.members =
    (s.sorted.take s.limit).map Row.member ++
      (s.groups.take (s.limit - (s.sorted.take s.limit).length)).map Group.member := by
  rw [Scoring.members, h]
  rfl

/-- What the listing selects is what it lists. -/
lemma selects_iff {i : ℕ} {m : Member} : s.Selects i m ↔ s.members[i]? = some m := by
  have hlength : s.sorted.length = s.found.length := (sorted_perm s).length_eq
  constructor
  · rintro (⟨hroute, hr, hlt⟩ | ⟨hroute, hg, hlt⟩ | ⟨hroute, hm⟩)
    · rename_i r
      have hget := (sorted_getElem?_iff s).2 ⟨hr, rfl⟩
      rw [← List.getElem?_take_of_lt hlt] at hget
      rw [members_fast s hroute, List.getElem?_append_left, List.getElem?_map, hget]
      · rfl
      · rw [List.length_map]
        exact (List.getElem?_eq_some_iff.1 hget).1
    · have hpage : (s.sorted.take s.limit).length = s.found.length := by
        rw [List.length_take, hlength]
        omega
      rw [members_fast s hroute, List.getElem?_append_right (by rw [List.length_map]; omega),
        List.length_map, hpage, Nat.add_sub_cancel_left, List.getElem?_map,
        List.getElem?_take_of_lt (by omega), hg]
      rfl
    · rw [Scoring.members, hroute]
      exact hm
  · intro h
    cases hroute : s.route with
    | fast =>
        rw [members_fast s hroute] at h
        by_cases hi : i < (s.sorted.take s.limit).length
        · rw [List.getElem?_append_left (by rwa [List.length_map]), List.getElem?_map,
            Option.map_eq_some_iff] at h
          obtain ⟨r, hr, rfl⟩ := h
          have hlt : i < s.limit := hi.trans_le (List.length_take_le _ _)
          rw [List.getElem?_take_of_lt hlt] at hr
          obtain ⟨hfound, rfl⟩ := (sorted_getElem?_iff s).1 hr
          exact .row hroute hfound hlt
        · rw [List.getElem?_append_right (by rw [List.length_map]; omega), List.length_map,
            List.getElem?_map, Option.map_eq_some_iff] at h
          obtain ⟨g, hg, rfl⟩ := h
          have hj : i - (s.sorted.take s.limit).length <
              s.limit - (s.sorted.take s.limit).length :=
            (List.getElem?_eq_some_iff.1 hg).1.trans_le (List.length_take_le _ _)
          rw [List.getElem?_take_of_lt hj] at hg
          have hpage : (s.sorted.take s.limit).length = s.found.length := by
            rw [List.length_take, hlength] at hj ⊢
            omega
          rw [hpage] at hg hi hj
          obtain ⟨j, rfl⟩ := Nat.exists_eq_add_of_le (not_lt.1 hi)
          rw [Nat.add_sub_cancel_left] at hg
          exact .group hroute hg (by omega)
    | tool members =>
        rw [Scoring.members, hroute] at h
        exact .tool hroute h
    | raised reason =>
        rw [Scoring.members, hroute] at h
        cases h

/-- What is read is what the content is compared with. -/
lemma reads_iff {m : Member} {text : String} : s.Reads m text ↔ (m, text) ∈ s.compared := by
  have hcompared : s.compared = if s.knobs.enabled && !isBlank s.content then s.window else [] := by
    rw [Scoring.compared]
    split_ifs
    · cases hroute : s.route <;> simp [Scoring.window, Scoring.members, hroute]
    · rfl
  have hwindow : (m, text) ∈ s.window ↔
      ∃ i, s.Selects i m ∧ text = s.textOf i m ∧ text ≠ "" := by
    simp only [Scoring.window, List.mem_filter, List.mem_map, Prod.exists, Prod.mk.injEq,
      List.mem_zipIdx_iff_getElem?, selects_iff, decide_eq_true_eq]
    constructor
    · rintro ⟨⟨m', i, hm, rfl, htext⟩, hne⟩
      exact ⟨i, hm, htext.symm, hne⟩
    · rintro ⟨i, hm, htext, hne⟩
      exact ⟨⟨m, i, hm, rfl, htext.symm⟩, hne⟩
  rw [hcompared, Scoring.Reads, ← hwindow]
  cases s.knobs.enabled <;> cases isBlank s.content <;> simp

/-! ### The condition on the table -/

/-- A row of the place that the listing finds is one from before the write, or a new one. -/
lemma own_of_found {r : Row} (hr : r ∈ s.found) :
    r.id ∈ s.ownIds ↔ r ∈ s.added.take s.seen := by
  obtain ⟨hmem, hplace⟩ := List.mem_filter.1 hr
  rw [Bool.and_eq_true, Option.isNone_iff_eq_none] at hplace
  rcases List.mem_append.1 hmem with hold | hnew
  · refine ⟨fun hown => absurd hown (s.fresh r hold).1, fun hnew => ?_⟩
    exact absurd (List.mem_map_of_mem (List.mem_of_mem_take hnew)) (s.fresh r hold).2
  · refine ⟨fun _ => hnew, fun _ => ?_⟩
    have hid : r.drawerId = r.id := by rw [Row.drawerId, hplace.1, Option.getD_none]
    exact hid ▸ List.mem_map_of_mem (List.mem_of_mem_take hnew)

/-- The new drawer is not compared with exactly when it is left out of the listing. -/
lemma notOwn_iff_leftOut : (∀ p ∈ s.compared, p.1.drawerId ∉ s.ownIds) ↔
    (s.knobs.enabled = true → isBlank s.content = false → LeftOut s) := by
  constructor
  · intro h hon hwords
    have hempty : ∀ {i m}, s.Selects i m → m.drawerId ∈ s.ownIds → s.textOf i m = "" := by
      intro i m hselects hown
      by_contra hne
      exact h (m, s.textOf i m) ((reads_iff s).1 ⟨hon, hwords, i, hselects, rfl, hne⟩) hown
    refine ⟨fun hroute r hr hparent hplace hlt => ?_, fun hroute j g hg hown hlt => ?_,
      fun members hroute i m hm hown => ?_⟩
    · have hfound : r ∈ s.found := List.mem_filter.2
        ⟨List.mem_append_right _ hr, by rw [hparent, hplace]; rfl⟩
      exact hempty (.row hroute hfound hlt) ((own_of_found s hfound).2 hr)
    · exact hempty (.group hroute hg hlt) hown
    · exact hempty (.tool hroute hm) hown
  · rintro h ⟨m, text⟩ hp hown
    obtain ⟨hon, hwords, i, hselects, rfl, hne⟩ := (reads_iff s).2 hp
    obtain ⟨hrow, hgroup, htool⟩ := h hon hwords
    rcases hselects with ⟨hroute, hr, hlt⟩ | ⟨hroute, hg, hlt⟩ | ⟨hroute, hm⟩
    · have hplace := (List.mem_filter.1 hr).2
      rw [Bool.and_eq_true, Option.isNone_iff_eq_none] at hplace
      exact hne (hrow hroute _ ((own_of_found s hr).1 hown) hplace.1 hplace.2 hlt)
    · exact hne (hgroup hroute _ _ hg hown hlt)
    · exact hne (htool _ hroute _ _ hm hown)

/-- Where the listing and the past share a drawer, they agree about it. -/
lemma alike_iff_decidedByPast : Alike arith s ↔ DecidedByPast arith s := by
  constructor
  · rintro ⟨hown, hreached, hrecent⟩
    refine ⟨(notOwn_iff_leftOut s).1 hown, fun d hd _ hlt => ?_, fun m text hreads _ hlt => ?_⟩
    · obtain ⟨p, hp, hle⟩ := hreached d hd hlt
      exact ⟨p.1, p.2, (reads_iff s).2 hp, hle⟩
    · exact hrecent (m, text) ((reads_iff s).1 hreads) hlt
  · rintro ⟨hleft, hmissed, hextra⟩
    refine ⟨(notOwn_iff_leftOut s).2 hleft, fun d hd hlt => ?_, fun p hp hlt => ?_⟩
    · by_cases hshared : s.Shared d
      · obtain ⟨-, m, hreads, -⟩ := hshared
        exact ⟨(m, s.whole d.id), (reads_iff s).1 hreads, le_rfl⟩
      · obtain ⟨m, text, hreads, hle⟩ := hmissed d hd hshared hlt
        exact ⟨(m, text), (reads_iff s).1 hreads, hle⟩
    · by_cases hshared : ∃ d ∈ s.recent, p.1.drawerId = d.id ∧ p.2 = s.whole d.id
      · obtain ⟨d, hd, -, htext⟩ := hshared
        exact .inl ⟨d, hd, by rw [Scoring.pastDistance, htext]⟩
      · refine hextra p.1 p.2 ((reads_iff s).2 hp) (fun d hd hid htext => ?_) hlt
        exact hshared ⟨d, hd, hid, htext⟩

/-! ### A place with few drawers -/

/-- The fast path lists a place with no more drawers than the window and than a page, before the
write and after a sweep of the chunks that is current, and every text is read in full. -/
structure SmallPlace : Prop where
  enabled : s.knobs.enabled = true
  words : isBlank s.content = false
  fast : s.route = .fast
  before : s.seen = 0
  current : s.swept = s.rows
  few : s.drawers.length ≤ min s.knobs.windowSize listMaxResults
  texts : ∀ i m, s.Selects i m → s.textOf i m = s.whole m.drawerId

variable {s}

/-- The drawers before the write are not the new one. -/
lemma notOwn_of_mem_drawers {d : Drawer} (hd : d ∈ s.drawers) : d.id ∉ s.ownIds := by
  rcases List.mem_append.1 hd with hd | hd
  · obtain ⟨r, hr, rfl⟩ := List.mem_map.1 hd
    exact (s.fresh r (List.mem_filter.1 hr).1).1
  · obtain ⟨g, hg, rfl⟩ := List.mem_map.1 hd
    obtain ⟨parent, hparent, hgroup⟩ := List.mem_filterMap.1 (List.mem_filter.1 hg).1
    obtain ⟨first, -, rfl⟩ := Option.map_eq_some_iff.1 hgroup
    rw [List.mem_insertionSort, List.mem_dedup, List.mem_filterMap] at hparent
    obtain ⟨r, hr, hrparent⟩ := hparent
    have hid : r.drawerId = parent := by rw [Row.drawerId, hrparent, Option.getD_some]
    exact hid ▸ (s.fresh r hr).2

/-- The listing of such a place has each of its drawers, and nothing else. -/
lemma SmallPlace.mem_members (h : SmallPlace s) {id : String} :
    (∃ m ∈ s.members, m.drawerId = id) ↔ ∃ d ∈ s.drawers, d.id = id := by
  have hfew := h.few
  simp only [Scoring.drawers, List.length_append, List.length_map] at hfew
  have hlimit : (anchors s.wing s.room s.rows).length +
      (orphans s.wing s.room (loadChunkGroups s.order.le s.rows)).length ≤
        max 1 (min s.knobs.windowSize listMaxResults) := hfew.trans (le_max_right _ _)
  rw [Scoring.members, h.fast]
  simp only [h.before, h.current, List.take_zero, List.append_nil, fastListPayload]
  rw [List.take_of_length_le (by rw [List.length_insertionSort]; omega),
    List.take_of_length_le (by rw [List.length_insertionSort]; omega)]
  constructor
  · rintro ⟨m, hm, rfl⟩
    rcases List.mem_append.1 hm with hm | hm
    · obtain ⟨r, hr, rfl⟩ := List.mem_map.1 hm
      exact ⟨_, List.mem_append_left _ (List.mem_map_of_mem ((List.mem_insertionSort _).1 hr)), rfl⟩
    · obtain ⟨g, hg, rfl⟩ := List.mem_map.1 hm
      exact ⟨_, List.mem_append_right _ (List.mem_map_of_mem hg), rfl⟩
  · rintro ⟨d, hd, rfl⟩
    rcases List.mem_append.1 hd with hd | hd
    · obtain ⟨r, hr, rfl⟩ := List.mem_map.1 hd
      exact ⟨_, List.mem_append_left _ (List.mem_map_of_mem ((List.mem_insertionSort _).2 hr)), rfl⟩
    · obtain ⟨g, hg, rfl⟩ := List.mem_map.1 hd
      exact ⟨_, List.mem_append_right _ (List.mem_map_of_mem hg), rfl⟩

/-- All drawers of such a place are recent. -/
lemma SmallPlace.mem_recent (h : SmallPlace s) {d : Drawer} : d ∈ s.recent ↔ d ∈ s.drawers := by
  rw [Scoring.recent, List.take_of_length_le, List.mem_insertionSort]
  rw [List.length_insertionSort]
  exact h.few.trans (min_le_left _ _)

lemma SmallPlace.compared_eq (h : SmallPlace s) : s.compared = s.window := by
  simp [Scoring.compared, h.enabled, h.words, h.fast]

/-- What is compared is a text of a member, read in full. -/
lemma SmallPlace.of_mem_compared (h : SmallPlace s) {p : Member × String} (hp : p ∈ s.compared) :
    p.1 ∈ s.members ∧ p.2 = s.whole p.1.drawerId := by
  rw [h.compared_eq, Scoring.window] at hp
  obtain ⟨q, hq, rfl⟩ := List.mem_map.1 (List.mem_filter.1 hp).1
  have hget := List.mem_zipIdx_iff_getElem?.1 hq
  exact ⟨List.mem_of_getElem? hget, h.texts q.2 q.1 ((selects_iff s).2 hget)⟩

/-- A member is compared, unless its text is empty. -/
lemma SmallPlace.mem_compared (h : SmallPlace s) {m : Member} (hm : m ∈ s.members)
    (htext : s.whole m.drawerId ≠ "") : (m, s.whole m.drawerId) ∈ s.compared := by
  obtain ⟨i, hi⟩ := List.getElem?_of_mem hm
  have hselects : s.Selects i m := (selects_iff s).2 hi
  exact (reads_iff s).1
    ⟨h.enabled, h.words, i, hselects, (h.texts i m hselects).symm, htext⟩

/-- In a small place the score is the one of the past. -/
lemma decidedByPast_of_small_place (h : SmallPlace s) : DecidedByPast arith s := by
  have hcontent : s.content ≠ "" := by
    intro hempty
    have := h.words
    simp [isBlank, hempty] at this
  refine (alike_iff_decidedByPast arith s).1
    ⟨fun p hp => ?_, fun d hd hlt => ?_, fun p hp _ => .inl ?_⟩
  · obtain ⟨d, hd, hid⟩ := h.mem_members.1 ⟨p.1, (h.of_mem_compared hp).1, rfl⟩
    exact hid ▸ notOwn_of_mem_drawers hd
  · obtain ⟨m, hm, hid⟩ := h.mem_members.2 ⟨d, h.mem_recent.1 hd, rfl⟩
    by_cases htext : s.whole m.drawerId = ""
    · rw [Scoring.pastDistance, ← hid, htext, ncd, if_neg fun hc => hcontent hc.1,
        if_pos (.inr rfl)] at hlt
      exact absurd hlt (lt_irrefl 1)
    · exact ⟨_, h.mem_compared hm htext, by rw [Scoring.pastDistance, ← hid]⟩
  · obtain ⟨hm, htext⟩ := h.of_mem_compared hp
    obtain ⟨d, hd, hid⟩ := h.mem_members.1 ⟨p.1, hm, rfl⟩
    exact ⟨d, h.mem_recent.2 hd, by rw [Scoring.pastDistance, hid, htext]⟩

/-- **The score against the past.**  Whatever the store, the window and the order of the write and
the listing: the reported score is the rounded least of one and the distances to the most recently
filed earlier drawers of the place, the new drawer is not compared with, and the reported index is
that of a text that attains a least distance below one, if and only if the rows of the new drawer
that the listing finds are not among its first by their ids, and the recent drawers that it does
not select or does not read whole, and the texts that it reads besides, are no nearer than others
that stand for them.  So it is in a place that fits in the window, listed before the write. -/
theorem scored_against_past_iff (s : Scoring) :
    (ScoredAgainstPast arith s ↔ DecidedByPast arith s) ∧
      (SmallPlace s → ScoredAgainstPast arith s) := by
  have hiff : ScoredAgainstPast arith s ↔ DecidedByPast arith s :=
    (scoredAgainstPast_iff_alike arith s).trans (alike_iff_decidedByPast arith s)
  exact ⟨hiff, fun hsmall => hiff.2 (decidedByPast_of_small_place arith hsmall)⟩

/-! ### A place with more -/

/-- The lengths that gzip gives for a few texts, with exact quotients. -/
def Arithmetic.sample : Arithmetic where
  compressed t :=
    if t = "hello" ∨ t = "world" then 25
    else if t = "hellohello" then 27
    else if t = "helloworld" then 30
    else t.utf8ByteSize + 20
  quotient num den := num / den
  round4 q := ⌊q * 10000 + 1 / 2⌋ / 10000
  round4_mono := by
    intro p q hpq
    have hfloor : ⌊p * 10000 + 1 / 2⌋ ≤ ⌊q * 10000 + 1 / 2⌋ := Int.floor_le_floor (by linarith)
    have hcast : (⌊p * 10000 + 1 / 2⌋ : ℚ) ≤ ⌊q * 10000 + 1 / 2⌋ := by exact_mod_cast hfloor
    dsimp only
    linarith
  round4_one := by norm_num

lemma le_total_ids (a b : String) : (decide (a ≤ b) || decide (b ≤ a)) = true := by
  rw [Bool.or_eq_true, decide_eq_true_eq, decide_eq_true_eq]
  exact String.le_total a b

lemma le_trans_ids (a b c : String) (hab : decide (a ≤ b) = true) (hbc : decide (b ≤ c) = true) :
    decide (a ≤ c) = true :=
  decide_eq_true (String.le_trans (of_decide_eq_true hab) (of_decide_eq_true hbc))

lemma le_antisymm_ids (a b : String) (hab : decide (a ≤ b) = true)
    (hba : decide (b ≤ a) = true) : a = b :=
  String.le_antisymm (of_decide_eq_true hab) (of_decide_eq_true hba)

/-- The ids in the order of their characters. -/
def IdOrder.sample : IdOrder where
  le a b := a ≤ b
  total := le_total_ids
  trans := le_trans_ids
  antisymm := le_antisymm_ids

/-- Two drawers, the elder with the lesser id. -/
def twoRows : List Row :=
  [⟨"a", "hello", "w", "decisions", none, none, 1⟩, ⟨"b", "world", "w", "decisions", none, none, 2⟩]

/-- The row of the new drawer. -/
def newRow : Row := ⟨"c", "hello", "w", "decisions", none, none, 3⟩

lemma twoRows_unique : ((twoRows ++ [newRow]).map Row.id).Nodup := by decide

lemma twoRows_fresh : ∀ r ∈ twoRows, r.id ∉ [newRow].map Row.drawerId ∧
    r.drawerId ∉ [newRow].map Row.drawerId := by decide

/-- Two drawers in a window of one. -/
def twoDrawers : Scoring where
  knobs := ⟨true, some 1, true, none⟩
  content := "hello"
  wing := "w"
  room := "decisions"
  rows := twoRows
  added := [newRow]
  seen := 0
  swept := []
  order := .sample
  route := .fast
  fetch _ := some "hello"
  whole id := if id = "a" then "hello" else "world"
  unique := twoRows_unique
  fresh := twoRows_fresh

/-- The same drawers in a window of five, and in the last sweep. -/
def fewDrawers : Scoring where
  knobs := ⟨true, some 5, true, none⟩
  content := "hello"
  wing := "w"
  room := "decisions"
  rows := twoRows
  added := [newRow]
  seen := 0
  swept := twoRows
  order := .sample
  route := .fast
  fetch i := if i = 0 then some "hello" else some "world"
  whole id := if id = "a" then "hello" else "world"
  unique := twoRows_unique
  fresh := twoRows_fresh

lemma fewDrawers_small : SmallPlace fewDrawers where
  enabled := rfl
  words := by decide +kernel
  fast := rfl
  before := rfl
  current := rfl
  few := by decide +kernel
  texts i m hselects := by
    have hmembers : fewDrawers.members = [⟨"a", "hello"⟩, ⟨"b", "world"⟩] := by decide +kernel
    have hi := (selects_iff fewDrawers).1 hselects
    rw [hmembers] at hi
    rcases i with _ | _ | i
    · cases hi
      decide +kernel
    · cases hi
      decide +kernel
    · cases hi

/-- Both drawers are compared with, as they should be. -/
theorem scored_against_past_few : ScoredAgainstPast Arithmetic.sample fewDrawers :=
  (scored_against_past_iff Arithmetic.sample fewDrawers).2 fewDrawers_small

/-- The elder drawer decides the score, the more recent one should. -/
theorem scored_against_past_fails : ¬ScoredAgainstPast Arithmetic.sample twoDrawers := by
  intro h
  have hscore := h.score
  have hcompared : twoDrawers.compared = [(⟨"a", "hello"⟩, "hello")] := by decide +kernel
  have hrecent : twoDrawers.recent = [⟨"b", "w", "decisions", 2⟩] := by decide +kernel
  have hold : ncd Arithmetic.sample twoDrawers.content "hello" = 2 / 25 := by decide +kernel
  have hnew : ncd Arithmetic.sample twoDrawers.content (twoDrawers.whole "b") = 1 / 5 := by
    decide +kernel
  rw [noveltyScore_eq, Scoring.comparedLeast, Scoring.pastLeast, hcompared, hrecent] at hscore
  simp only [Nearest.least, Scoring.pastDistance, hold, hnew] at hscore
  norm_num [Arithmetic.sample] at hscore

end PalaceDaemon.Novelty

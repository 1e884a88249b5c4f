/-
The page query of the drawer listing (`build_window_sql`) and its answer (`window`).

The query is a list of conditions on a row, the expression the rows are ordered and bounded by,
and a limit.  The conditions are the ones of the `WHERE` clause, in its order.  What the database
and Python's `datetime` do is a parameter (`Env`): text has some total order, in which different
texts differ; `LIKE`, the reading of a time stamp and of a zone may fail, and a failure fails the
query.

A condition on a row is true, false, NULL (`some none`) or an error (`none`), and only a row with
every condition true is returned.  The rows are in the order of the key, NULL last, then of the
id; a row is compared with the cursor as a pair, which is NULL when the row has no key.
-/
import Mathlib
import PalaceDaemon.Lib.JsonObject
import PalaceDaemon.Window.Cursor

namespace Window

/-- `ordering`: the stored text or a real instant. -/
inductive Mode
  | wallclock
  | instant
deriving DecidableEq, Repr

/-- What the module takes from PostgreSQL, from `datetime` and `zoneinfo`, and from mempalace.
Instants are numbers of microseconds. -/
structure Env (τ : Type*) [LinearOrder τ] where
  /-- The place of a text in the order of texts. -/
  collate : String → τ
  collate_injective : Function.Injective collate
  /-- `text LIKE pattern`, given the pattern and the text -/
  like : String → String → Option Bool
  /-- `text::timestamp` -/
  timestamp : String → Option ℤ
  /-- `timestamp AT TIME ZONE zone` -/
  atTimeZone : String → ℤ → Option ℤ
  /-- A text parameter that is compared with an instant, read in the zone of the session. -/
  sessionInstant : String → Option ℤ
  /-- `datetime` -/
  Date : Type
  fromisoformat : String → Option Date
  /-- `d + timedelta(days=n)`, unless it is out of range -/
  plusDays : Date → ℤ → Option Date
  isoformat : Date → String
  /-- Whether `ZoneInfo` takes the name. -/
  zoneInfo : String → Bool
  /-- Whether mempalace's `parse_window` takes the bounds. -/
  parseWindow : Option String → Option String → Bool

/-- A row of the drawers table. -/
structure Row where
  id : String
  wing : Option String
  room : Option String
  metadata : JsonObject

namespace Row

/-- `_FILED_AT`: `d.metadata->>'filed_at'` -/
def filedAt (r : Row) : Option String := r.metadata.text "filed_at"

/-- `d.metadata->>'source_file'` -/
def sourceFile (r : Row) : Option String := r.metadata.text "source_file"

end Row

/-- The drawers, with the primary key. -/
structure Table where
  rows : List Row
  ids_nodup : (rows.map Row.id).Nodup

/-- The arguments of `build_window_sql` but for the cursor. -/
structure Args where
  wing : Option String := none
  room : Option String := none
  since : Option String := none
  before : Option String := none
  sourceFile : Option String := none
  limit : ℤ := 100
  ordering : Mode := .wallclock
  tzName : String := "UTC"

/-- Why a request gets no page. -/
inductive Refusal
  /-- `parse_window` refused the bounds. -/
  | bounds
  /-- `filed_at timezone … is not a known IANA zone name` -/
  | zone (name : String)
  | cursor (e : CursorError)
  /-- The `OverflowError` of a shifted bound. -/
  | overflow
  /-- The database refused the query. -/
  | database
deriving DecidableEq, Repr

/-- An argument that is given: Python takes the empty text for an absent one. -/
def given (t : Option String) : Option String := t.filter (· ≠ "")

/-- The expression the listing orders and filters on. -/
inductive KeyExpr
  /-- The stored text. -/
  | filedAt
  /-- The instant, with the texts that do not end in `Z` read in the zone. -/
  | instantIn (zone : String)
deriving DecidableEq, Repr

/-- A condition of the `WHERE` clause. -/
inductive Condition
  | wing (w : String)
  | room (r : String)
  /-- `d.metadata->>'source_file' = file OR d.metadata->>'source_file' LIKE pattern` -/
  | sourceFile (file pattern : String)
  | filedAtNotNull
  | filedAtGe (bound : String)
  | filedAtLt (bound : String)
  | keyGe (bound : String)
  | keyLt (bound : String)
  /-- `(key, d.id) > (filed_at, id)` -/
  | after (filedAt id : String)
deriving DecidableEq, Repr

/-- The statement: `SELECT … WHERE … ORDER BY key ASC, d.id ASC LIMIT limit`. -/
structure Query where
  key : KeyExpr
  conditions : List Condition
  limit : ℕ
deriving DecidableEq, Repr

/-- `MAX_PAGE` -/
def maxPage : ℤ := 1000

/-- `max(1, min(int(limit), MAX_PAGE))` -/
def Args.effectiveLimit (a : Args) : ℕ := (max 1 (min a.limit maxPage)).toNat

/-- A text that ends in one of the characters, without it. -/
def stripLast (zs : List Char) (s : String) : Option String :=
  if s.toList.getLast?.any (· ∈ zs) then some (String.ofList s.toList.dropLast) else none

/-- `f"%/{source_file.lstrip('/')}"` -/
def basenamePattern (sourceFile : String) : String :=
  String.ofList ('%' :: '/' :: sourceFile.toList.dropWhile (· = '/'))

variable {τ : Type*} [LinearOrder τ] (env : Env τ)

/-! ### The query -/

/-- `_valid_zone` -/
def validZone (name : String) : Bool := name ≠ "" && env.zoneInfo name

/-- `instant_expr` -/
def instantExpr (ordering : Mode) (tzName : String) : Except Refusal KeyExpr :=
  match ordering with
  | .wallclock => .ok .filedAt
  | .instant => if validZone env tzName then .ok (.instantIn tzName) else .error (.zone tzName)

/-- `_shift_iso_day`: a bound that is no date is not moved. -/
def shiftIsoDay (bound : String) (days : ℤ) : Except Refusal String :=
  match env.fromisoformat ((stripLast ['Z', 'z'] bound).getD bound) with
  | none => .ok bound
  | some d => match env.plusDays d days with
    | none => .error .overflow
    | some d' => .ok (env.isoformat d')

/-- The filters on wing, room and source file. -/
def filters (a : Args) : List Condition :=
  ((given a.wing).map .wing).toList ++ ((given a.room).map .room).toList ++
    ((given a.sourceFile).map fun s => .sourceFile s (basenamePattern s)).toList

/-- A drawer without a time is left out when there is a bound. -/
def dated (a : Args) : List Condition :=
  if (given a.since).isSome ∨ (given a.before).isSome then [.filedAtNotNull] else []

/-- A bound of the coarse prefilter, a day further out. -/
def widened (bound : Option String) (days : ℤ) (c : String → Condition) :
    Except Refusal (List Condition) :=
  match given bound with
  | none => .ok []
  | some b => (shiftIsoDay env b days).map fun b' => [c b']

/-- The coarse prefilter on the stored text, of the instant ordering. -/
def prefilter (a : Args) : Except Refusal (List Condition) :=
  match a.ordering with
  | .wallclock => .ok []
  | .instant => do
      let lower ← widened env a.since (-1) .filedAtGe
      let upper ← widened env a.before 1 .filedAtLt
      pure (lower ++ upper)

/-- The exact bounds. -/
def exactBounds (a : Args) : List Condition :=
  ((given a.since).map .keyGe).toList ++ ((given a.before).map .keyLt).toList

/-- The condition of the cursor. -/
def afterCursor (cursor : Option String) : Except Refusal (List Condition) :=
  match given cursor with
  | none => .ok []
  | some token => match decodeCursor token with
    | .error e => .error (.cursor e)
    | .ok (filedAt, id) => .ok [.after filedAt id]

/-- `build_window_sql` -/
def buildWindowSql (a : Args) (cursor : Option String) : Except Refusal Query := do
  let key ← instantExpr env a.ordering a.tzName
  let coarse ← prefilter env a
  let after ← afterCursor cursor
  pure ⟨key, filters a ++ dated a ++ coarse ++ exactBounds a ++ after, a.effectiveLimit⟩

/-! ### The answer -/

/-- A key: a text or an instant. -/
abbrev Key (τ : Type*) := τ ⊕ₗ ℤ

/-- The key of a stored text. -/
def readStored (key : KeyExpr) (t : String) : Option (Key τ) :=
  match key with
  | .filedAt => some (.inlₗ (env.collate t))
  | .instantIn zone => .map .inrₗ <| match stripLast ['Z'] t with
    | some t' => (env.timestamp t').bind (env.atTimeZone "UTC")
    | none => (env.timestamp t).bind (env.atTimeZone zone)

/-- The value of a parameter that is compared with a key. -/
def readParam (key : KeyExpr) (t : String) : Option (Key τ) :=
  match key with
  | .filedAt => some (.inlₗ (env.collate t))
  | .instantIn _ => (env.sessionInstant t).map .inrₗ

/-- The key of a row, where it can be read. -/
def rowKey (key : KeyExpr) (r : Row) : Option (Option (Key τ)) :=
  match r.filedAt with
  | none => some none
  | some t => (readStored env key t).map some

/-- A comparison of the key of a row with a parameter. -/
def compareKey (key : KeyExpr) (r : Row) (param : String) (holds : Key τ → Key τ → Bool) :
    Option (Option Bool) :=
  match rowKey env key r, readParam env key param with
  | some k, some p => some (k.map (holds · p))
  | _, _ => none

/-- A condition on a row. -/
def eval (key : KeyExpr) (r : Row) : Condition → Option (Option Bool)
  | .wing w => some (r.wing.map (· = w))
  | .room m => some (r.room.map (· = m))
  | .sourceFile file pattern => match r.sourceFile with
    | none => some none
    | some f => if f = file then some (some true) else (env.like pattern f).map some
  | .filedAtNotNull => some (some r.filedAt.isSome)
  | .filedAtGe b => some (r.filedAt.map fun t => env.collate b ≤ env.collate t)
  | .filedAtLt b => some (r.filedAt.map fun t => env.collate t < env.collate b)
  | .keyGe b => compareKey env key r b fun k p => p ≤ k
  | .keyLt b => compareKey env key r b fun k p => k < p
  | .after filedAt id => compareKey env key r filedAt fun k p =>
      toLex (p, env.collate id) < toLex (k, env.collate r.id)

/-- The conditions from the first on, as far as they are needed. -/
def passes (key : KeyExpr) (r : Row) : List Condition → Option Bool
  | [] => some true
  | c :: cs => match eval env key r c with
    | none => none
    | some (some true) => passes key r cs
    | some _ => some false

/-- A parameter can be read before there is any row. -/
def readable (key : KeyExpr) : Condition → Bool
  | .keyGe b | .keyLt b | .after b _ => (readParam env key b).isSome
  | _ => true

/-- Where a row stands in the listing: its key, NULL last, then its id. -/
def rank (key : KeyExpr) (r : Row) : WithTop (Key τ) ×ₗ τ :=
  toLex (((rowKey env key r).join.elim ⊤ WithTop.some : WithTop (Key τ)), env.collate r.id)

/-- The rows in the order of the listing. -/
def inOrder (key : KeyExpr) (rows : List Row) : List Row :=
  rows.insertionSort fun x y => rank env key x ≤ rank env key y

/-- A row that can be handled: no condition fails, nor does the key of a row that is returned. -/
def handles (key : KeyExpr) (cs : List Condition) (r : Row) : Bool :=
  match passes env key r cs with
  | none => false
  | some false => true
  | some true => (rowKey env key r).isSome

/-- What the statement selects before its limit, or nothing when it fails. -/
def selects (q : Query) (table : Table) : Option (List Row) :=
  if q.conditions.all (readable env q.key) ∧ table.rows.all (handles env q.key q.conditions) then
    some (inOrder env q.key
      (table.rows.filter fun r => passes env q.key r q.conditions = some true))
  else none

/-- `_run` -/
def run (q : Query) (table : Table) : Except Refusal (List Row) :=
  match selects env q table with
  | none => .error .database
  | some rows => .ok (rows.take q.limit)

/-- The cursor of a row, with the text Python has for a missing `filed_at`. -/
def cursorOf (r : Row) : String := encodeCursor (r.filedAt.getD "None") r.id

/-- `window`: the rows and `next_cursor`. -/
def window (table : Table) (a : Args) (cursor : Option String) :
    Except Refusal (List Row × Option String) :=
  if env.parseWindow a.since a.before then do
    let q ← buildWindowSql env a cursor
    let rows ← run env q table
    let next := if rows.length = a.effectiveLimit ∧ rows ≠ [] then rows.getLast?.map cursorOf
      else none
    pure (rows, next)
  else .error .bounds

end Window

/-
The hook's replay journal.

`_journal_failed_ingest` appends a line to the journal file of the day.
`_drain_pending_journal` goes through the files: it reads one, replays the newest entry of each
transcript, and rewrites the file with the entries that are still to be replayed, or removes it.
Any number of hook processes do both at the same time, and a step of `hookSystem` is what one of
them does up to and including its next operation on a journal file or its next replay.

A file has an inode, which an append opens and later writes to; replacing or removing the file
gives its name another inode or none.  A line is what a drain reads of it (`Line`): anything may
be in a file, and `splitlines` breaks a line at characters that `json.dumps` does not escape.
What the pieces of such a line read as is a parameter (`broken`).
-/
import PalaceDaemon.Hook.Ingest
import PalaceDaemon.Lib.PyOrder
import PalaceDaemon.Lib.StepSystem

namespace PalaceDaemon.Hook

open PalaceDaemon.Wings

/-! ### The lines of a journal file -/

/-- A piece that `splitlines` gives and that is not blank, by what `json.loads` makes of it. -/
inductive Row
  /-- `JSONDecodeError` -/
  | notJson
  /-- Another exception: an integer with too many digits, or values nested too deep. -/
  | loadsRaises
  /-- A value, and whether `json.dumps` and UTF-8 can write it. -/
  | value (v : Json) (writable : Bool)

/-- A line of a file. -/
inductive Line
  /-- It is not UTF-8. -/
  | undecodable
  | rows (rs : List Row)

/-- The characters that `json.dumps` leaves as they are and `splitlines` breaks at. -/
def lineBreaks : List Char := ['\u0085', '\u2028', '\u2029']

mutual

/-- The line of the value is broken by `splitlines`. -/
def breaks : Json → Bool
  | .str s => s.any (· ∈ lineBreaks)
  | .arr values => breaksItems values
  | .obj fields => breaksFields fields
  | _ => false

def breaksItems : List Json → Bool
  | [] => false
  | v :: values => breaks v || breaksItems values

def breaksFields : List (Text × Json) → Bool
  | [] => false
  | (k, v) :: fields => k.any (· ∈ lineBreaks) || breaks v || breaksFields fields

end

/-! ### The entries of a file -/

/-- An object of the journal, and whether it can be written. -/
structure JournalEntry where
  fields : List (Text × Json)
  writable : Bool

/-- `obj.get(key, "")` -/
def JournalEntry.get (e : JournalEntry) (key : String) : Json :=
  (Json.lookup key.toList e.fields).getD (.str [])

/-- `obj.get("transcript_path", "")` -/
def JournalEntry.path (e : JournalEntry) : Json := e.get "transcript_path"

/-- `obj.get("ts", "")` -/
def JournalEntry.ts (e : JournalEntry) : Json := e.get "ts"

/-- `by_path`, in the order of `order`. -/
abbrev ByPath := List (Json.Key × JournalEntry)

/-- `by_path.get(key)`; no two values that are not numbers are the same key. -/
def ByPath.held (byPath : ByPath) (key : Json.Key) : Option JournalEntry :=
  if key = .number .nan then none else (byPath.find? (·.1 = key)).map Prod.snd

/-- The newest entry of each transcript is kept. -/
def ByPath.add (byPath : ByPath) (e : JournalEntry) : Except PyExc ByPath :=
  match e.path.key with
  | .error exc => .error exc
  | .ok key =>
      match byPath.held key with
      | none => .ok (byPath ++ [(key, e)])
      | some prev =>
          match e.ts.ge prev.ts with
          | .error exc => .error exc
          | .ok true => .ok (byPath.map fun c => if c.1 = key then (key, e) else c)
          | .ok false => .ok byPath

/-- The loop over the lines, on one of them. -/
def ByPath.addRow (byPath : ByPath) : Row → Except PyExc ByPath
  | .notJson => .ok byPath
  | .loadsRaises => .error .valueError
  | .value (.obj fields) writable => byPath.add ⟨fields, writable⟩
  | .value _ _ => .error .attributeError

/-- The text of a file as rows. -/
def rowsOf : List Line → Except PyExc (List Row)
  | [] => .ok []
  | .undecodable :: _ => .error .valueError
  | .rows rs :: lines => (rowsOf lines).map (rs ++ ·)

/-- What a drain takes from a file: the entries to replay, in order. -/
def readJournal (lines : List Line) : Except PyExc (List JournalEntry) :=
  match rowsOf lines with
  | .error exc => .error exc
  | .ok rows => (rows.foldlM ByPath.addRow []).map fun byPath => byPath.map Prod.snd

/-! ### The processes -/

/-- A journal file.  Each line has the number of transcripts that were settled before it was
written. -/
structure JournalFile where
  name : Text
  inode : ℕ
  lines : List (Line × ℕ)

/-- A drain between reading a file and rewriting it. -/
structure Replaying where
  name : Text
  /-- The lines as they were read. -/
  read : List (Line × ℕ)
  /-- How many transcripts were settled then. -/
  since : ℕ
  /-- The files after this one. -/
  files : List Text
  processed : ℕ
  todo : List JournalEntry
  remaining : List JournalEntry

/-- Where a hook process is. -/
inductive Proc
  | idle
  /-- `_journal_failed_ingest` has opened the file. -/
  | appending (name : Text) (inode : ℕ) (transcriptPath : Text) (line : Json)
  /-- `_drain_pending_journal` takes the next file. -/
  | draining (files : List Text) (processed : ℕ)
  | replaying (d : Replaying)
  /-- The drain has returned before it took these files. -/
  | returned (files : List Text) (processed : ℕ)
  /-- An exception has left the drain. -/
  | raised (exc : PyExc)

/-- The process can begin something. -/
def Proc.free : Proc → Bool
  | .idle | .returned _ _ | .raised _ => true
  | _ => false

/-- What became of a journaled transcript. -/
inductive Settled
  /-- The daemon accepted it in a replay. -/
  | accepted (path : Text)
  /-- It is gone, invalid or too small. -/
  | discarded (path : Text)

def Settled.path : Settled → Text
  | .accepted path => path
  | .discarded path => path

/-- The journal directory, the hook processes, and what has happened. -/
structure Hooks where
  dir : List JournalFile
  /-- The next inode. -/
  inodes : ℕ
  proc : ℕ → Proc
  /-- The transcripts whose line was written, each with the number of those settled before. -/
  journaled : List (Text × ℕ)
  settled : List Settled

def Hooks.set (s : Hooks) (i : ℕ) (p : Proc) : Hooks :=
  { s with proc := Function.update s.proc i p }

/-- What the file system says of a transcript. -/
inductive Look
  /-- An exception that no handler takes. -/
  | raises (exc : PyExc)
  /-- There is no such path, or no file. -/
  | gone
  /-- The file has less than 100 bytes, or cannot be examined. -/
  | small
  | there
deriving DecidableEq

/-- `_validate_transcript_path`, `is_file` and `stat`, on the path of the entry. -/
def JournalEntry.look (e : JournalEntry) (look : Look) : Look :=
  if !e.path.truthy then .gone
  else
    match e.path with
    | .str _ => look
    | _ => .raises .typeError

/-- The settlement of an entry whose path is a text. -/
def JournalEntry.settles (e : JournalEntry) (how : Text → Settled) : List Settled :=
  match e.path with
  | .str path => [how path]
  | _ => []

/-- What can happen next, to the process `i`. -/
inductive HookLabel
  /-- `_journal_failed_ingest` opens the file of the day. -/
  | append (i : ℕ) (name transcriptPath wing sessionId ts : Text)
  /-- It writes the line, or fails. -/
  | write (i : ℕ) (written : Bool)
  /-- `_drain_pending_journal` begins. -/
  | drain (i : ℕ) (healthy : Bool)
  /-- The drain reads the next file, or fails. -/
  | read (i : ℕ) (readable : Bool)
  /-- It takes the next entry. -/
  | replay (i : ℕ) (look : Look) (attempt : Attempt)
  /-- It replaces or removes the file, or fails. -/
  | rewrite (i : ℕ) (written : Bool)

section

variable (maxEntries : ℕ) (broken : Json → List Row) (counts : Json → Bool)

/-- The line of a value. -/
def lineOf (v : Json) : Line := .rows (if breaks v then broken v else [.value v true])

/-- `_journal_failed_ingest` writes its line to the inode it has opened. -/
def Hooks.journal (s : Hooks) (name : Text) (inode : ℕ) (transcriptPath : Text) (line : Json) :
    Hooks :=
  { s with
    dir := s.dir.map fun f => if f.name = name ∧ f.inode = inode
      then { f with lines := f.lines ++ [(lineOf broken line, s.settled.length)] } else f
    journaled := s.journaled ++ [(transcriptPath, s.settled.length)] }

/-- The drain of process `i` takes a file. -/
def Hooks.readNext (s : Hooks) (i : ℕ) (readable : Bool) (name : Text) (files : List Text)
    (processed : ℕ) : Hooks :=
  if maxEntries ≤ processed then s.set i (.returned (name :: files) processed)
  else if !readable then s.set i (.draining files processed)
  else
    match s.dir.find? (·.name = name) with
    | none => s.set i (.draining files processed)
    | some f =>
        match readJournal (f.lines.map Prod.fst) with
        | .error exc => s.set i (.raised exc)
        | .ok todo =>
            s.set i (.replaying ⟨name, f.lines, s.settled.length, files, processed, todo, []⟩)

/-- The drain of process `i` takes an entry. -/
def Hooks.replayNext (s : Hooks) (i : ℕ) (look : Look) (a : Attempt) (d : Replaying)
    (e : JournalEntry) (todo : List JournalEntry) : Hooks :=
  if maxEntries ≤ d.processed then
    s.set i (.replaying { d with todo := todo, remaining := d.remaining ++ [e] })
  else
    let d' := { d with todo := todo, processed := d.processed + 1 }
    match e.look look with
    | .raises exc => s.set i (.raised exc)
    | .gone => { s with settled := s.settled ++ e.settles .discarded }.set i (.replaying d')
    | .small => { s with settled := s.settled ++ e.settles .discarded }.set i (.replaying d')
    | .there =>
        match (ingestTranscriptViaDaemon (textOf e.path) (textOf (e.get "wing")) a).2 with
        | .ok (true, _) =>
            { s with settled := s.settled ++
              (if a.fate counts (textOf e.path) = Fate.accepted then e.settles .accepted
              else []) }.set i (.replaying d')
        | _ => s.set i (.replaying { d' with remaining := d.remaining ++ [e] })

/-- `_rewrite_journal_file`, for the process `i` -/
def Hooks.rewrite (s : Hooks) (i : ℕ) (written : Bool) (d : Replaying) : Hooks :=
  let s' := s.set i (.draining d.files d.processed)
  let others := s.dir.filter (·.name ≠ d.name)
  if !written then s'
  else if d.remaining.isEmpty then { s' with dir := others }
  else if d.remaining.any (!·.writable) then s.set i (.raised .valueError)
  else
    { s' with
      dir := others ++ [JournalFile.mk d.name s.inodes
        (d.remaining.map fun e => (lineOf broken (.obj e.fields), s.settled.length))]
      inodes := s.inodes + 1 }

/-- A step of a process. -/
def Hooks.next (s : Hooks) : HookLabel → Option Hooks
  | .append i name transcriptPath wing sessionId ts =>
      let line := journalLine transcriptPath wing sessionId ts
      if !(s.proc i).free then none
      else
        match s.dir.find? (·.name = name) with
        | some f => some (s.set i (.appending name f.inode transcriptPath line))
        | none => some ({ s with
            dir := s.dir ++ [JournalFile.mk name s.inodes []], inodes := s.inodes + 1 }.set i
              (.appending name s.inodes transcriptPath line))
  | .write i written =>
      match s.proc i with
      | .appending name inode transcriptPath line =>
          if written then some ((s.journal broken name inode transcriptPath line).set i .idle)
          else some (s.set i .idle)
      | _ => none
  | .drain i healthy =>
      if !(s.proc i).free then none
      else if s.dir.isEmpty || !healthy then some (s.set i .idle)
      else some (s.set i (.draining ((s.dir.map JournalFile.name).insertionSort (· ≤ ·)) 0))
  | .read i readable =>
      match s.proc i with
      | .draining [] processed => some (s.set i (.returned [] processed))
      | .draining (name :: files) processed =>
          some (s.readNext maxEntries i readable name files processed)
      | _ => none
  | .replay i look attempt =>
      match s.proc i with
      | .replaying d =>
          match d.todo with
          | [] => none
          | e :: todo => some (s.replayNext maxEntries counts i look attempt d e todo)
      | _ => none
  | .rewrite i written =>
      match s.proc i with
      | .replaying d => if d.todo.isEmpty then some (s.rewrite broken i written d) else none
      | _ => none

/-- A row that tells of the transcript. -/
def Row.Mentions (path : Text) : Row → Prop
  | .value (.obj fields) writable => JournalEntry.path ⟨fields, writable⟩ = .str path
  | _ => False

/-- A line that tells of the transcript. -/
def Line.Mentions (path : Text) : Line → Prop
  | .undecodable => False
  | .rows rs => ∃ r ∈ rs, r.Mentions path

/-- The hook processes of a host, from any content of the journal directory. -/
def hookSystem : StepSystem Hooks HookLabel where
  init s := (∀ i, s.proc i = .idle) ∧ s.settled = [] ∧ (∀ f ∈ s.dir, ∀ x ∈ f.lines, x.2 = 0) ∧
    ∀ r ∈ s.journaled, r.2 = 0 ∧ ∃ f ∈ s.dir, ∃ x ∈ f.lines, x.1.Mentions r.1
  next := Hooks.next maxEntries broken counts

end

end PalaceDaemon.Hook

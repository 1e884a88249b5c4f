/-
Silent saves and the queue of pending writes.

During a rebuild `/silent-save` appends the save to the pending-writes file and answers
`queued: true`; the handler of the rebuild replays the file when the rebuild has succeeded.
The append is made by a worker thread that opens the file and writes to it; the drain renames
the file to `.processing`, reads it once, writes the entries to the palace, quarantines the
ones that fail and removes `.processing`.  A handle stays on the file it was opened on, so a
file is named by its inode and a rename moves it.

A turn of a task is one operation on the files, or a test and what follows it up to the next
await.  Which tasks hold the write semaphore makes no difference here; every order of turns is
allowed.  A restart ends all tasks and leaves the files.
-/
import PalaceDaemon.Lib.StepSystem
import PalaceDaemon.Lib.Tasks
import PalaceDaemon.Repair

namespace PalaceDaemon.Writes

/-- A silent save: the number of its request, and its line. -/
structure Save where
  request : ℕ
  payload : String
deriving DecidableEq, Repr

/-- A file of the queue. -/
structure QueueFile where
  inode : ℕ
  lines : List Save
deriving DecidableEq, Repr

/-- The files of the queue. -/
structure Disk where
  /-- `palace-daemon-pending.jsonl`. -/
  pending : Option QueueFile
  /-- `….processing`. -/
  processing : Option QueueFile
  /-- `….processing.failed-<stamp>`. -/
  failed : List (ℕ × List Save)
  nextInode : ℕ
deriving DecidableEq, Repr

/-- The lines of a file that may not be there. -/
def linesOf (f : Option QueueFile) : List Save := (f.map QueueFile.lines).getD []

@[simp] lemma linesOf_none : linesOf none = [] := rfl

@[simp] lemma linesOf_some (f : QueueFile) : linesOf (some f) = f.lines := rfl

/-- The lines of the quarantine files. -/
def Disk.failedLines (d : Disk) : List Save := d.failed.flatMap Prod.snd

/-- `open(path, "a")`: the inode of the pending file, which is created when it is not there. -/
def Disk.openPending (d : Disk) : Disk × ℕ :=
  match d.pending with
  | some f => (d, f.inode)
  | none =>
      ({ d with pending := some ⟨d.nextInode, []⟩, nextInode := d.nextInode + 1 }, d.nextInode)

/-- A write through a handle: it goes to the file the handle was opened on, and nowhere when
that file was removed. -/
def Disk.appendAt (d : Disk) (inode : ℕ) (p : Save) : Disk :=
  if d.pending.any (·.inode = inode) then
    { d with pending := d.pending.map fun f => ⟨f.inode, f.lines ++ [p]⟩ }
  else if d.processing.any (·.inode = inode) then
    { d with processing := d.processing.map fun f => ⟨f.inode, f.lines ++ [p]⟩ }
  else d

/-- `open(qpath, "w")`, and the write: a quarantine file with the same stamp is replaced. -/
def Disk.setFailed (d : Disk) (stamp : ℕ) (lines : List Save) : Disk :=
  { d with failed := d.failed.filter (·.1 ≠ stamp) ++ [(stamp, lines)] }

/-- A coroutine at the place of its next turn. -/
inductive Task
  /-- `silent_save` with its write slot, about to test the repair flag. -/
  | save (p : Save)
  /-- `silent_save` in `_do_silent_save_write`. -/
  | write (p : Save)
  /-- `_append` of `_enqueue_pending_write`, about to open the pending file. -/
  | openPending (p : Save)
  /-- `_append`, about to write. -/
  | append (p : Save) (inode : ℕ)
  /-- `silent_save`, about to answer `queued: true`. -/
  | answer (p : Save)
  /-- `repair`, with the flag set. -/
  | repair (mode : RepairMode)
  /-- `_drain_pending_writes`, about to rename the pending file. -/
  | drain
  /-- `_drain_pending_writes`, about to read `.processing`. -/
  | read
  /-- `_drain_pending_writes`: what is to be replayed, and what failed. -/
  | replay (todo failed : List Save)
  /-- `_drain_pending_writes`, about to open the quarantine file. -/
  | quarantine (failed : List Save)
  /-- `_drain_pending_writes`, about to write the quarantine file. -/
  | quarantineWrite (stamp : ℕ) (failed : List Save)
  /-- `_drain_pending_writes`, about to remove `.processing`. -/
  | remove
  /-- `repair` in `_drain_pending_mines`. -/
  | drainMines
deriving DecidableEq, Repr

/-- What a turn of a task is. -/
inductive Turn
  /-- The code up to the next await. -/
  | run
  /-- The work the task waits for ends. -/
  | ends (ok : Bool)
deriving DecidableEq, Repr

/-- The queue, the palace, and the coroutines. -/
structure Queue where
  disk : Disk
  /-- The second that names a quarantine file. -/
  stamp : ℕ
  repairing : Option RepairMode
  /-- The saves that were written to the palace. -/
  palace : List Save
  /-- The saves that were answered with `queued: true`. -/
  answered : List Save
  requests : ℕ
  tasks : List Task
deriving DecidableEq

/-- A turn of the task `t`: the queue, and the tasks that go on from it. -/
def Queue.turn (s : Queue) (t : Task) (c : Turn) : Option (Queue × List Task) :=
  match t, c with
  | .save p, .run =>
      if s.repairing = some .rebuild then some (s, [.openPending p]) else some (s, [.write p])
  | .write p, .ends ok => some (if ok then { s with palace := s.palace ++ [p] } else s, [])
  | .openPending p, .run =>
      some ({ s with disk := s.disk.openPending.1 }, [.append p s.disk.openPending.2])
  | .append p inode, .run => some ({ s with disk := s.disk.appendAt inode p }, [.answer p])
  | .answer p, .run => some ({ s with answered := s.answered ++ [p] }, [])
  | .repair mode, .ends ok =>
      some ({ s with repairing := none }, if ok ∧ mode = .rebuild then [.drain] else [])
  | .drain, .run =>
      match s.disk.pending with
      | none => some (s, [.drainMines])
      | some f =>
          some ({ s with disk := { s.disk with pending := none, processing := some f } }, [.read])
  | .read, .run =>
      match s.disk.processing with
      | none => some (s, [.drainMines])
      | some f => some (s, [.replay f.lines []])
  | .replay (p :: todo) failed, .ends ok =>
      if ok then some ({ s with palace := s.palace ++ [p] }, [.replay todo failed])
      else some (s, [.replay todo (failed ++ [p])])
  | .replay [] failed, .run =>
      some (s, if failed = [] then [.remove] else [.quarantine failed])
  | .quarantine failed, .run =>
      some ({ s with disk := s.disk.setFailed s.stamp [] }, [.quarantineWrite s.stamp failed])
  | .quarantineWrite stamp failed, .run =>
      some ({ s with disk := s.disk.setFailed stamp failed }, [.remove])
  | .remove, .run =>
      some ({ s with disk := { s.disk with processing := none } }, [.drainMines])
  | .drainMines, .run => some (s, [])
  | _, _ => none

/-- What can happen. -/
inductive Event
  /-- A `/silent-save` request arrives. -/
  | post (payload : String)
  /-- A `/repair` request arrives; while one is in progress it is refused. -/
  | repair (mode : RepairMode)
  | tick
  /-- The daemon is stopped and started. -/
  | restart
  | turn (i : ℕ) (c : Turn)
deriving DecidableEq, Repr

/-- The daemon, from an empty queue. -/
def queueSystem : StepSystem Queue Event where
  init s := s.disk.pending = none ∧ s.disk.processing = none ∧ s.disk.failed = [] ∧
    s.answered = [] ∧ s.repairing = none ∧ s.tasks = []
  next s
    | .post payload =>
        some { s with
          requests := s.requests + 1, tasks := s.tasks ++ [.save ⟨s.requests, payload⟩] }
    | .repair mode =>
        if s.repairing = none then
          some { s with repairing := some mode, tasks := s.tasks ++ [.repair mode] }
        else none
    | .tick => some { s with stamp := s.stamp + 1 }
    | .restart => some { s with repairing := none, tasks := [] }
    | .turn i c =>
        match s.tasks[i]? with
        | none => none
        | some t => (s.turn t c).map fun r =>
            { r.1 with tasks := Tasks.replaceAt s.tasks i r.2 }

end PalaceDaemon.Writes

/-
The bench lock: `scripts/bench-lock.sh`, step by step, and `bench_lock_active`.

The lock is a directory with one marker for each bench, or a plain file left by an old caller.
A bench runs `acquire`, does its work and runs `release`, each a script of its own with a PID of
its own unless `PALACE_BENCH_PID` is set, so the PID is in the label that starts the script.  A
step of the system is one step of one script: a test, a change of a file, a look at the directory
or a call of `systemctl`.  Counting the markers is a test, a listing, and a test of each name
listed.  No marker is older than the maximum age, so none is reaped; the extractor is managed and
`systemctl` succeeds.

`made` counts the markers made so far, and a listing remembers it.  The scripts do not read it: it
says of a release whether a marker was made since it listed them.
-/
import PalaceDaemon.Lib.StepSystem
import Mathlib.Logic.Function.Basic

namespace PalaceDaemon.Bench

/-- A file in the lock directory. -/
inductive Marker
  /-- `<pid>.marker` -/
  | pid (p : ℕ)
  /-- `legacy.marker` -/
  | legacy
deriving DecidableEq, Repr

/-- What is at `LOCK_PATH`. -/
inductive LockPath
  | absent
  /-- The plain file of an old caller. -/
  | file
  | dir (markers : List Marker)
deriving DecidableEq, Repr

namespace LockPath

/-- `[ -d "$LOCK_PATH" ]` -/
def isDir : LockPath → Bool
  | dir _ => true
  | _ => false

/-- The names that `"$LOCK_PATH"/*.marker` matches. -/
def markers : LockPath → List Marker
  | dir ms => ms
  | _ => []

/-- `mkdir -p "$LOCK_PATH"`, unless it fails -/
def mkdir : LockPath → Option LockPath
  | absent => some (dir [])
  | dir ms => some (dir ms)
  | file => none

/-- `touch` of a marker, unless it fails -/
def touch (m : Marker) : LockPath → Option LockPath
  | dir ms => some (dir (if m ∈ ms then ms else ms ++ [m]))
  | _ => none

/-- `rm -f` of a marker -/
def removeMarker (m : Marker) : LockPath → LockPath
  | dir ms => dir (ms.filter (· ≠ m))
  | l => l

/-- `rm -f "$LOCK_PATH"` -/
def removeFile : LockPath → LockPath
  | file => absent
  | l => l

/-- `rmdir "$LOCK_PATH"`, which leaves a directory with files in it -/
def rmdir : LockPath → LockPath
  | dir [] => absent
  | l => l

/-- `bench_lock_active`, when no marker and no file is stale -/
def benchLockActive : LockPath → Bool
  | absent => false
  | file => true
  | dir ms => ms ≠ []

end LockPath

/-- How far `_reap_and_count` has got. -/
inductive Counting
  /-- `[ -d "$LOCK_PATH" ] || { echo 0; return 0; }` -/
  | testDir
  /-- The names are listed. -/
  | list
  /-- The names to test, how many of those before were there, and `made` at the listing. -/
  | count (names : List Marker) (live made : ℕ)
deriving DecidableEq, Repr

/-- A step of `_reap_and_count`, or its result. -/
def Counting.next (lock : LockPath) (made : ℕ) : Counting → Counting ⊕ ℕ
  | .testDir => if lock.isDir then .inl .list else .inr 0
  | .list => .inl (.count lock.markers 0 made)
  | .count [] live _ => .inr live
  | .count (m :: ms) live made' =>
      .inl (.count ms (if m ∈ lock.markers then live + 1 else live) made')

/-- Where `acquire` is.  The count after the marker is made is only printed. -/
inductive Acquire
  /-- `[ -e "$LOCK_PATH" ]` in `_migrate_legacy_file` -/
  | testExists
  /-- `[ ! -d "$LOCK_PATH" ]` there -/
  | testDir
  | removeFile
  | mkdirLegacy
  | touchLegacy
  | mkdir
  | counting (c : Counting)
  | touch (before : ℕ)
  /-- `_stop_extractor` -/
  | stop
deriving DecidableEq, Repr

/-- Where `release` is. -/
inductive Release
  /-- `[ ! -d "$LOCK_PATH" ]` -/
  | testDir
  /-- `[ -e "$LOCK_PATH" ]` -/
  | testLegacy
  | removeLegacy
  /-- `[ -e "$MARKER_FILE" ]` -/
  | testMarker
  | removeMarker
  | counting (c : Counting)
  | rmdir
  /-- `_start_extractor` -/
  | start
deriving DecidableEq, Repr

/-- Where a bench is, with the `MARKER_PID` of its script. -/
inductive Phase
  | idle
  | acquiring (pid : ℕ) (pc : Acquire)
  /-- `acquire` has returned, the bench is running. -/
  | held (pid : ℕ)
  | releasing (pid : ℕ) (pc : Release)
  | released
  /-- `acquire` has exited with an error. -/
  | failed
deriving DecidableEq, Repr

/-- The lock, the extractor service and the benches. -/
structure State where
  lock : LockPath
  extractor : Bool
  made : ℕ
  bench : ℕ → Phase

/-- The bench goes on. -/
def State.set (s : State) (b : ℕ) (ph : Phase) : State :=
  { s with bench := Function.update s.bench b ph }

/-- A bench starts a script, or a script takes a step. -/
inductive Label
  | acquire (b pid : ℕ)
  | release (b pid : ℕ)
  | step (b : ℕ)
deriving DecidableEq, Repr

/-- A step of `acquire`. -/
def State.acquire (s : State) (b pid : ℕ) : Acquire → State
  | .testExists => s.set b (.acquiring pid (if s.lock = .absent then .mkdir else .testDir))
  | .testDir => s.set b (.acquiring pid (if s.lock.isDir then .mkdir else .removeFile))
  | .removeFile => { s.set b (.acquiring pid .mkdirLegacy) with lock := s.lock.removeFile }
  | .mkdirLegacy => match s.lock.mkdir with
    | none => s.set b .failed
    | some lock => { s.set b (.acquiring pid .touchLegacy) with lock }
  | .touchLegacy => { s.set b (.acquiring pid .mkdir) with
      lock := (s.lock.touch .legacy).getD s.lock, made := s.made + 1 }
  | .mkdir => match s.lock.mkdir with
    | none => s.set b .failed
    | some lock => { s.set b (.acquiring pid (.counting .testDir)) with lock }
  | .counting c => match c.next s.lock s.made with
    | .inl c' => s.set b (.acquiring pid (.counting c'))
    | .inr before => s.set b (.acquiring pid (.touch before))
  | .touch before => match s.lock.touch (.pid pid) with
    | none => s.set b .failed
    | some lock => { s.set b (if before = 0 then .acquiring pid .stop else .held pid) with
        lock, made := s.made + 1 }
  | .stop => { s.set b (.held pid) with extractor := false }

/-- A step of `release`. -/
def State.release (s : State) (b pid : ℕ) : Release → State
  | .testDir => s.set b (.releasing pid (if s.lock.isDir then .testMarker else .testLegacy))
  | .testLegacy => s.set b (.releasing pid (if s.lock = .absent then .start else .removeLegacy))
  | .removeLegacy => { s.set b (.releasing pid .start) with lock := s.lock.removeFile }
  | .testMarker => s.set b
      (.releasing pid (if .pid pid ∈ s.lock.markers then .removeMarker else .counting .testDir))
  | .removeMarker => { s.set b (.releasing pid (.counting .testDir)) with
      lock := s.lock.removeMarker (.pid pid) }
  | .counting c => match c.next s.lock s.made with
    | .inl c' => s.set b (.releasing pid (.counting c'))
    | .inr 0 => s.set b (.releasing pid .rmdir)
    | .inr _ => s.set b .released
  | .rmdir => { s.set b (.releasing pid .start) with lock := s.lock.rmdir }
  | .start => { s.set b .released with extractor := true }

/-- A step of the system. -/
def State.next (s : State) : Label → Option State
  | .acquire b pid =>
      if s.bench b = .idle then some (s.set b (.acquiring pid .testExists)) else none
  | .release b pid => match s.bench b with
    | .held _ => some (s.set b (.releasing pid .testDir))
    | _ => none
  | .step b => match s.bench b with
    | .acquiring pid pc => some (s.acquire b pid pc)
    | .releasing pid pc => some (s.release b pid pc)
    | _ => none

/-- Any number of benches, with no lock and the extractor running at first. -/
def lockSystem : StepSystem State Label where
  init s := (s.lock = .absent ∨ s.lock = .dir []) ∧ s.extractor = true ∧ s.made = 0 ∧
    s.bench = fun _ => .idle
  next := State.next

/-- No lock, no bench. -/
def State.fresh : State := ⟨.absent, true, 0, fun _ => .idle⟩

lemma init_fresh : lockSystem.init State.fresh := ⟨.inl rfl, rfl, rfl, rfl⟩

/-- **The lock is right.**  It is active while a bench is between its scripts and inactive when all
benches have released, and the extractor runs exactly when no bench is registered, unless a
script is at work. -/
structure State.Sound (s : State) : Prop where
  active : ∀ b pid, s.bench b = .held pid → s.lock.benchLockActive = true
  inactive : (∀ b, s.bench b = .idle ∨ s.bench b = .released) → s.lock.benchLockActive = false
  extractor : (∀ b pid,
      (∀ pc, s.bench b ≠ .acquiring pid pc) ∧ ∀ pc, s.bench b ≠ .releasing pid pc) →
    (s.extractor = true ↔ ∀ b pid, s.bench b ≠ .held pid)

end PalaceDaemon.Bench

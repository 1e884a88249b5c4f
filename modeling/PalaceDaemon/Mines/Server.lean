/-
The tasks of the daemon that touch the mine queue.

The queue is drained by passes, and passes are run from two places: the background drainer,
which a background `/mine` request (or the start of the daemon) kicks, and the handler of a
rebuild after the rebuild has succeeded.  `/mine` requests append to the queue, either because
a rebuild is in progress or because they ask for a background mine.  `Task` has the states of
these coroutines, and a `Server` the ones that are alive, the files they share and the flag of
the repair in progress.

Between two awaits of a coroutine no other one runs, but appends are made by worker threads
and a pass has awaits between its file operations, so a turn is at most one operation on the
files, or a test and what follows it up to the next await.  Whether a mine waits for the mine
semaphore or runs makes no difference to the queue: both are `Pc.replaying`.
-/
import PalaceDaemon.Lib.StepSystem
import PalaceDaemon.Lib.Tasks
import PalaceDaemon.Mines.Durability
import PalaceDaemon.Repair

namespace PalaceDaemon.Mines

/-- The number of passes after which `_loop` stops: `range(10_000)`. -/
def drainerBound : ℕ := 10000

/-- A coroutine of the daemon, at the place of its next turn. -/
inductive Task
  /-- `_loop` of the background drainer, about to test the repair flag; it has run `k` passes. -/
  | drainer (k : ℕ)
  /-- `_loop` in its `k`-th pass. -/
  | drainerPass (k : ℕ) (p : Pass)
  /-- `repair`, with the flag set. -/
  | repair (mode : RepairMode)
  /-- `repair` after a rebuild has succeeded, in `_drain_pending_writes`. -/
  | drainWrites
  /-- `repair` in `_drain_pending_mines`. -/
  | drainMines (p : Pass)
  /-- `mine`, about to test the repair flag. -/
  | mine (e : Entry) (background : Bool)
  /-- `mine` in `_enqueue_pending_mine`; a background request kicks the drainer afterwards. -/
  | enqueue (e : Entry) (background : Bool)
  /-- `mine` in `_kick_mine_drain`. -/
  | kick
  /-- `mine`, running its own subprocess. -/
  | mineNow
deriving DecidableEq

/-- What a turn of a task is. -/
inductive Turn
  /-- The code up to the next await. -/
  | run
  /-- The work of the repair ends. -/
  | ends (ok : Bool)
  /-- A move of the pass the task is in. -/
  | pass (a : Act)
deriving DecidableEq

/-- The queue, the repair flag and the coroutines. -/
structure Server where
  env : Env
  files : Files
  /-- `_repair_state`: the mode of the repair in progress. -/
  repairing : Option RepairMode
  tasks : List Task

/-- The task is the background drainer. -/
def Task.isDrainer : Task → Bool
  | .drainer _ | .drainerPass _ _ => true
  | _ => false

/-- A move of a pass.  Nothing cancels it while the daemon runs. -/
def movePass (env : Env) (f : Files) (p : Pass) (a : Act) : Option (Files × Pass) :=
  if a = .cancel then none else p.next env f a

/-- A turn of the task `t`: the files, the flag, and the tasks that go on from it. -/
def Server.turn (s : Server) (t : Task) (c : Turn) :
    Option (Files × Option RepairMode × List Task) :=
  match t, c with
  | .drainer k, .run =>
      if s.repairing = some .rebuild then some (s.files, s.repairing, [])
      else some (s.files, s.repairing, [.drainerPass (k + 1) .fresh])
  | .drainerPass k p, .pass a =>
      (movePass s.env s.files p a).map fun fp => (fp.1, s.repairing, [.drainerPass k fp.2])
  | .drainerPass k p, .run =>
      if p.pc ≠ .done then none
      else if s.files.live = none ∨ k = drainerBound then some (s.files, s.repairing, [])
      else some (s.files, s.repairing, [.drainer k])
  | .repair mode, .ends ok =>
      some (s.files, none, if ok ∧ mode = .rebuild then [.drainWrites] else [])
  | .drainWrites, .run => some (s.files, s.repairing, [.drainMines .fresh])
  | .drainMines p, .pass a =>
      (movePass s.env s.files p a).map fun fp => (fp.1, s.repairing, [.drainMines fp.2])
  | .drainMines p, .run =>
      if p.pc ≠ .done then none else some (s.files, s.repairing, [])
  | .mine e background, .run =>
      if s.repairing = some .rebuild then some (s.files, s.repairing, [.enqueue e false])
      else if background then some (s.files, s.repairing, [.enqueue e true])
      else some (s.files, s.repairing, [.mineNow])
  | .enqueue e background, .run =>
      some (s.files.append [e], s.repairing, if background then [.kick] else [])
  | .kick, .run =>
      some (s.files, s.repairing, if s.tasks.any Task.isDrainer then [] else [.drainer 0])
  | .mineNow, .run => some (s.files, s.repairing, [])
  | _, _ => none

/-- What can happen to the daemon. -/
inductive Event
  | change (env : Env)
  /-- A `/mine` request arrives. -/
  | post (e : Entry) (background : Bool)
  /-- A `/repair` request arrives; while one is in progress it is refused. -/
  | repair (mode : RepairMode)
  | turn (i : ℕ) (c : Turn)

/-- The daemon from its start: orphans are recovered, and the drainer is kicked when there is
something to drain. -/
def serverSystem : StepSystem Server Event where
  init s := ∃ f, s.files = recoverOrphaned f ∧ s.repairing = none ∧
    s.tasks = if s.files.live = none then [] else [.drainer 0]
  next s
    | .change env => some { s with env := env }
    | .post e background => some { s with tasks := s.tasks ++ [.mine e background] }
    | .repair mode =>
        if s.repairing = none then
          some { s with repairing := some mode, tasks := s.tasks ++ [.repair mode] }
        else none
    | .turn i c =>
        match s.tasks[i]? with
        | none => none
        | some t => (s.turn t c).map fun r =>
            { s with files := r.1, repairing := r.2.1, tasks := Tasks.replaceAt s.tasks i r.2.2 }

/-- The pass a task is in. -/
def Task.pass : Task → Option Pass
  | .drainerPass _ p | .drainMines p => some p
  | _ => none

/-- The pass a task is in, until it has returned. -/
def Task.active (t : Task) : Option Pass := t.pass.filter (·.pc ≠ .done)

/-- The passes that are running. -/
def Server.active (s : Server) : List Pass := s.tasks.filterMap Task.active

/-! ### What one turn can do -/

/-- `Goes s t c f r ts`: the turn `c` of the task `t` leaves the files `f` and the flag `r`, and
the tasks `ts` go on from it. -/
inductive Goes (s : Server) :
    Task → Turn → Files → Option RepairMode → List Task → Prop
  | drainerYields {k} : s.repairing = some .rebuild →
      Goes s (.drainer k) .run s.files s.repairing []
  | drainerBegins {k} : s.repairing ≠ some .rebuild →
      Goes s (.drainer k) .run s.files s.repairing [.drainerPass (k + 1) .fresh]
  | drainerMoves {k p a f p'} : a ≠ .cancel → p.next s.env s.files a = some (f, p') →
      Goes s (.drainerPass k p) (.pass a) f s.repairing [.drainerPass k p']
  | drainerEnds {k p} : p.pc = .done → s.files.live = none ∨ k = drainerBound →
      Goes s (.drainerPass k p) .run s.files s.repairing []
  | drainerLoops {k p} : p.pc = .done → s.files.live ≠ none →
      Goes s (.drainerPass k p) .run s.files s.repairing [.drainer k]
  | rebuilt : Goes s (.repair .rebuild) (.ends true) s.files none [.drainWrites]
  | rebuildFails : Goes s (.repair .rebuild) (.ends false) s.files none []
  | repairEnds {mode ok} : mode ≠ .rebuild →
      Goes s (.repair mode) (.ends ok) s.files none []
  | drainBegins : Goes s .drainWrites .run s.files s.repairing [.drainMines .fresh]
  | drainMoves {p a f p'} : a ≠ .cancel → p.next s.env s.files a = some (f, p') →
      Goes s (.drainMines p) (.pass a) f s.repairing [.drainMines p']
  | drainEnds {p} : p.pc = .done → Goes s (.drainMines p) .run s.files s.repairing []
  | mineQueuesForRebuild {e b} : s.repairing = some .rebuild →
      Goes s (.mine e b) .run s.files s.repairing [.enqueue e false]
  | mineQueues {e} : s.repairing ≠ some .rebuild →
      Goes s (.mine e true) .run s.files s.repairing [.enqueue e true]
  | mineRuns {e} : s.repairing ≠ some .rebuild →
      Goes s (.mine e false) .run s.files s.repairing [.mineNow]
  | appendsForRebuild {e} :
      Goes s (.enqueue e false) .run (s.files.append [e]) s.repairing []
  | appends {e} : Goes s (.enqueue e true) .run (s.files.append [e]) s.repairing [.kick]
  | kickIdle : s.tasks.any Task.isDrainer = true → Goes s .kick .run s.files s.repairing []
  | kickStarts : s.tasks.any Task.isDrainer = false →
      Goes s .kick .run s.files s.repairing [.drainer 0]
  | mineEnds : Goes s .mineNow .run s.files s.repairing []

section goes

variable {s : Server}

lemma movePass_some {env : Env} {f f' : Files} {p p' : Pass} {a : Act}
    (h : movePass env f p a = some (f', p')) : a ≠ .cancel ∧ p.next env f a = some (f', p') := by
  unfold movePass at h
  split_ifs at h with hcancel
  exact ⟨hcancel, h⟩

lemma goes_of_turn {t : Task} {c : Turn} {f : Files} {r : Option RepairMode} {ts : List Task}
    (h : s.turn t c = some (f, r, ts)) : Goes s t c f r ts := by
  unfold Server.turn at h
  split at h
  · -- the background drainer, at the head of its loop
    split_ifs at h with hflag
    · obtain ⟨rfl, rfl, rfl⟩ : s.files = f ∧ s.repairing = r ∧ [] = ts := by simpa using h
      exact .drainerYields hflag
    · obtain ⟨rfl, rfl, rfl⟩ : s.files = f ∧ s.repairing = r ∧ _ = ts := by simpa using h
      exact .drainerBegins hflag
  · obtain ⟨⟨f', p'⟩, hmove, heq⟩ := Option.map_eq_some_iff.1 h
    obtain ⟨rfl, rfl, rfl⟩ : f' = f ∧ s.repairing = r ∧ _ = ts := by simpa using heq
    obtain ⟨hcancel, hnext⟩ := movePass_some hmove
    exact .drainerMoves hcancel hnext
  · split_ifs at h with hdone hend
    · obtain ⟨rfl, rfl, rfl⟩ : s.files = f ∧ s.repairing = r ∧ [] = ts := by simpa using h
      exact .drainerEnds (not_not.1 hdone) hend
    · obtain ⟨rfl, rfl, rfl⟩ : s.files = f ∧ s.repairing = r ∧ _ = ts := by simpa using h
      exact .drainerLoops (not_not.1 hdone) fun hlive => hend (.inl hlive)
  · -- the handler of a repair
    rename_i mode ok
    by_cases hmode : mode = .rebuild
    · subst hmode
      cases ok with
      | true =>
          obtain ⟨rfl, rfl, rfl⟩ : s.files = f ∧ none = r ∧ _ = ts := by simpa using h
          exact .rebuilt
      | false =>
          obtain ⟨rfl, rfl, rfl⟩ : s.files = f ∧ none = r ∧ [] = ts := by simpa using h
          exact .rebuildFails
    · obtain ⟨rfl, rfl, rfl⟩ : s.files = f ∧ none = r ∧ [] = ts := by simpa [hmode] using h
      exact .repairEnds hmode
  · obtain ⟨rfl, rfl, rfl⟩ : s.files = f ∧ s.repairing = r ∧ _ = ts := by simpa using h
    exact .drainBegins
  · obtain ⟨⟨f', p'⟩, hmove, heq⟩ := Option.map_eq_some_iff.1 h
    obtain ⟨rfl, rfl, rfl⟩ : f' = f ∧ s.repairing = r ∧ _ = ts := by simpa using heq
    obtain ⟨hcancel, hnext⟩ := movePass_some hmove
    exact .drainMoves hcancel hnext
  · split_ifs at h with hdone
    obtain ⟨rfl, rfl, rfl⟩ : s.files = f ∧ s.repairing = r ∧ [] = ts := by simpa using h
    exact .drainEnds (not_not.1 hdone)
  · -- a `/mine` request
    rename_i e background
    split_ifs at h with hflag hbackground
    · obtain ⟨rfl, rfl, rfl⟩ : s.files = f ∧ s.repairing = r ∧ _ = ts := by simpa using h
      exact .mineQueuesForRebuild hflag
    · obtain ⟨rfl, rfl, rfl⟩ : s.files = f ∧ s.repairing = r ∧ _ = ts := by simpa using h
      subst hbackground
      exact .mineQueues hflag
    · obtain ⟨rfl, rfl, rfl⟩ : s.files = f ∧ s.repairing = r ∧ _ = ts := by simpa using h
      obtain rfl : background = false := by simpa using hbackground
      exact .mineRuns hflag
  · rename_i e background
    cases background with
    | true =>
        obtain ⟨rfl, rfl, rfl⟩ : s.files.append [e] = f ∧ s.repairing = r ∧ _ = ts := by
          simpa using h
        exact .appends
    | false =>
        obtain ⟨rfl, rfl, rfl⟩ : s.files.append [e] = f ∧ s.repairing = r ∧ [] = ts := by
          simpa using h
        exact .appendsForRebuild
  · cases hany : s.tasks.any Task.isDrainer with
    | true =>
        obtain ⟨rfl, rfl, rfl⟩ : s.files = f ∧ s.repairing = r ∧ [] = ts := by
          simpa [hany] using h
        exact .kickIdle hany
    | false =>
        obtain ⟨rfl, rfl, rfl⟩ : s.files = f ∧ s.repairing = r ∧ _ = ts := by
          simpa [hany] using h
        exact .kickStarts hany
  · obtain ⟨rfl, rfl, rfl⟩ : s.files = f ∧ s.repairing = r ∧ [] = ts := by simpa using h
    exact .mineEnds
  · simp at h

/-- **Inversion.**  A turn is one of the moves of the task whose turn it is. -/
theorem goes_of_next {s' : Server} {i : ℕ} {c : Turn}
    (h : serverSystem.next s (.turn i c) = some s') :
    ∃ t f r ts, s.tasks[i]? = some t ∧ Goes s t c f r ts ∧
      s' = { s with files := f, repairing := r, tasks := Tasks.replaceAt s.tasks i ts } := by
  simp only [serverSystem] at h
  cases ht : s.tasks[i]? with
  | none => simp [ht] at h
  | some t =>
      rw [ht] at h
      obtain ⟨⟨f, r, ts⟩, hturn, rfl⟩ := Option.map_eq_some_iff.1 h
      exact ⟨t, f, r, ts, rfl, goes_of_turn hturn, rfl⟩

end goes

end PalaceDaemon.Mines

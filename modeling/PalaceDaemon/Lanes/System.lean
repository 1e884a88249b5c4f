/-
The operations of the daemon, the semaphores they take and the threads that do their work.

Every operation holds one permit while it works: a read or a write one of its kind, a call of a
tool the one of `_sem_for`, a silent save one of `_write_sem`, and a mine the one of `_mine_sem`.
`_exclusive_palace`, which a rebuild and a mine over a Chroma backend use, takes permits of all
four: reads, writes and saves in this order, then it waits until no save is in flight, and then
the mine permit; its body runs with all of them.

The work itself is done by a worker (a thread, or the subprocess of a mine), which outlives a
caller that gives up: the permit is back then, and the work goes on.  A call of a tool takes a
slot of its lane when it is submitted, and a callback of the worker gives it back.  So a worker is
queued, then it runs, then it has ended and its callback is pending, and then it is released; one
that is cancelled before it started has ended too.

A `State` has the semaphores with the tasks that wait, the tasks that are ready to go on, the
workers and the flag of the repair.  A label is a request that arrives, a turn of a ready task up
to its next await, the end of an operation, or a move of a worker.  How many threads there are is
not looked at: a queued worker may start at any time.
-/
import PalaceDaemon.Lanes.Request
import PalaceDaemon.Lib.Semaphore
import PalaceDaemon.Lib.StepSystem
import PalaceDaemon.Lib.Tasks
import PalaceDaemon.Repair

namespace PalaceDaemon.Lanes

open Semaphore Tasks

/-- The settings.  A semaphore refuses a negative number of permits, so the two that only make
semaphores are natural numbers. -/
structure Config where
  /-- `PALACE_MAX_CONCURRENCY` -/
  maxConcurrency : ℤ
  /-- `PALACE_MAX_READ_CONCURRENCY` -/
  maxRead : ℕ
  /-- `PALACE_MAX_WRITE_CONCURRENCY` -/
  maxWrite : ℕ
  /-- `PALACE_MCP_SAVE_MAX_INFLIGHT` -/
  saveMaxInflight : ℤ
  /-- `PALACE_MCP_TOOL_MAX_INFLIGHT` -/
  toolMaxInflight : ℤ
  /-- `PALACE_MCP_FAST_INTERCEPT` -/
  fastIntercept : Bool
deriving DecidableEq, Repr

namespace Config

/-- The settings when no variable is set. -/
def default : Config where
  maxConcurrency := 4
  maxRead := 4
  maxWrite := 2
  saveMaxInflight := 2
  toolMaxInflight := 8
  fastIntercept := true

variable (cfg : Config)

/-- `read_slots` of `_exclusive_palace`. -/
def readSlots : ℕ := cfg.maxConcurrency.toNat

/-- `write_slots` of `_exclusive_palace`. -/
def writeSlots : ℕ := (max 1 (cfg.maxConcurrency / 2)).toNat

/-- `save_slots` of `_exclusive_palace`, which is also the size of `_save_sem`. -/
def saveSlots : ℕ := (max 1 cfg.saveMaxInflight).toNat

/-- The permits of each semaphore. -/
def permits : Sem → ℕ
  | .read => cfg.maxRead
  | .write => cfg.maxWrite
  | .save => cfg.saveSlots
  | .mine => 1

/-- The bound on the calls in flight of a lane. -/
def bound : Lane → ℤ
  | .tool => cfg.toolMaxInflight
  | .save => cfg.saveMaxInflight

/-- What `_exclusive_palace` takes before it waits for the saves. -/
def exclusivePlan : List Sem :=
  List.replicate cfg.readSlots Sem.read ++ List.replicate cfg.writeSlots Sem.write ++
    List.replicate cfg.saveSlots Sem.save

end Config

/-- An operation, at the place of its next turn. -/
inductive Op
  /-- About to have a worker do its work; `repair` says whether it is a `/repair`. -/
  | work (repair : Bool)
  /-- `/repair` in mode `light`, about to clear the caches. -/
  | clearCaches
  /-- `_call`, about to compare the calls in flight with the bound; `retry` says whether the tool
  is one that may be run a second time. -/
  | call (lane : Lane) (retry : Bool)
  /-- Waiting for its worker. -/
  | awaiting (repair retry : Bool)
  /-- `silent_save`, about to look at the flag of the repair. -/
  | silentSave
  /-- `silent_save` in `_enqueue_pending_write`. -/
  | enqueuing
  /-- `_exclusive_palace`, taking permits up to the wait for the saves; for a rebuild or a
  mine. -/
  | exclusive (rebuild : Bool)
  /-- `_exclusive_palace` after that wait: taking the mine permit, or in its body. -/
  | holding (rebuild : Bool)
  /-- `/repair`, about to clear the flag. -/
  | clearing
deriving DecidableEq, Repr

/-- A coroutine with the permits it holds and the ones it has yet to take. -/
abbrev Coroutine := Task Sem Op

/-- Where a worker is. -/
inductive Status
  | queued
  | running
  /-- It finished, or was cancelled before it started; its callback is pending. -/
  | ended
  | released
deriving DecidableEq, Repr

/-- A thread or subprocess that does the work of the operation `name`; `lane` is the one whose
slot it has. -/
structure Worker where
  name : ℕ
  lane : Option Lane
  status : Status
deriving DecidableEq, Repr

/-- The worker does its work, or will. -/
def Worker.isActive (w : Worker) : Bool := w.status = .queued || w.status = .running

/-- The worker has a slot of the lane. -/
def Worker.hasSlot (l : Lane) (w : Worker) : Bool := w.lane = some l && w.status ≠ .released

/-- The semaphores, the coroutines that may go on, and the workers. -/
structure State where
  sems : Sems Sem Op
  ready : List Coroutine
  /-- The name of the next operation. -/
  next : ℕ
  /-- `_tool_inflight` and `_save_inflight` -/
  inflight : Lane → ℤ
  workers : List Worker
  /-- Every slot that was taken, by the name of the call. -/
  taken : List (ℕ × Lane)
  /-- Every slot that was given back. -/
  released : List (ℕ × Lane)
  /-- `_repair_state`: the mode of the repair in progress. -/
  repairing : Option RepairMode
  /-- The silent saves that were answered with `queued: true`. -/
  queued : List ℕ

/-- A request that arrives. -/
inductive Arrival
  /-- `_call` -/
  | call (r : Request)
  /-- An operation of the daemon that does its own work under a read permit. -/
  | read
  /-- The same under a write permit. -/
  | write
  /-- A mine: of `/mine` over a database backend, of the watcher or of a replay. -/
  | mine
  /-- `/mine` over a Chroma backend. -/
  | mineExclusive
  /-- `/silent-save` -/
  | silentSave
  /-- `/repair` -/
  | repair (mode : RepairMode)
deriving DecidableEq, Repr

/-- What happens next. -/
inductive Label
  | arrive (a : Arrival)
  /-- The ready task at `i` goes on up to its next await. -/
  | run (i : ℕ)
  /-- The call at `i` is submitted to an executor that refuses it. -/
  | refuse (i : ℕ)
  /-- The call at `i` is run a second time, after a repair of the index. -/
  | retry (i : ℕ)
  /-- The caller at `i` gives up: a timeout, or a cancellation. -/
  | leave (i : ℕ)
  /-- The call at `k` in the queue of `x` is cancelled. -/
  | abandon (x : Sem) (k : ℕ)
  /-- The exclusive hold at `i` has waited too long for the saves. -/
  | deadline (i : ℕ)
  /-- The worker at `j` starts. -/
  | start (j : ℕ)
  /-- The worker at `j` returns or raises. -/
  | finish (j : ℕ)
  /-- The callback of the worker at `j` runs. -/
  | callback (j : ℕ)
deriving DecidableEq, Repr

/-- The daemon as it starts. -/
def State.fresh (cfg : Config) : State where
  sems := ⟨cfg.permits, fun _ => []⟩
  ready := []
  next := 0
  inflight := fun _ => 0
  workers := []
  taken := []
  released := []
  repairing := none
  queued := []

namespace State

variable (s : State)

/-- A new coroutine, which has yet to take the permits of `plan`. -/
def enroll (op : Op) (plan : List Sem) : State :=
  { s with ready := s.ready ++ [⟨s.next, op, [], plan⟩], next := s.next + 1 }

/-- The coroutine at `i`, now `t`, goes on taking permits. -/
def resume (i : ℕ) (t : Coroutine) : State :=
  { s with
    sems := (acquire s.sems t).1
    ready := replaceAt s.ready i (acquire s.sems t).2.toList }

/-- The coroutine at `i` goes on with `op`. -/
def become (i : ℕ) (t : Coroutine) (op : Op) : State :=
  { s with ready := replaceAt s.ready i [{ t with op := op }] }

/-- The coroutine at `i` has a worker do its work, and goes on with `op`. -/
def spawn (i : ℕ) (t : Coroutine) (lane : Option Lane) (op : Op) : State :=
  { s.become i t op with workers := s.workers ++ [⟨t.name, lane, .queued⟩] }

/-- The coroutine at `i` gives its permits back, the last one first.  A `/repair` has yet to
clear the flag; every other one is over. -/
def depart (i : ℕ) (t : Coroutine) (repair : Bool) : State :=
  { s with
    sems := (releaseAll s.sems t.held).1
    ready := replaceAt s.ready i (if repair then [⟨t.name, .clearing, [], []⟩] else []) ++
      (releaseAll s.sems t.held).2 }

/-- One more call in flight. -/
def takeSlot (name : ℕ) (l : Lane) : State :=
  { s with
    inflight := Function.update s.inflight l (s.inflight l + 1)
    taken := (name, l) :: s.taken }

/-- `_release_tool_slot` and `_release_save_slot`: one call in flight less, but not below
zero. -/
def releaseSlot (name : ℕ) (l : Lane) : State :=
  { s with
    inflight := Function.update s.inflight l (max 0 (s.inflight l - 1))
    released := (name, l) :: s.released }

/-- `_release_tool_slot` -/
def releaseToolSlot (name : ℕ) : State := s.releaseSlot name .tool

/-- `_release_save_slot` -/
def releaseSaveSlot (name : ℕ) : State := s.releaseSlot name .save

/-- `release` of `_call`: the function for the lane. -/
def release (name : ℕ) : Lane → State
  | .tool => s.releaseToolSlot name
  | .save => s.releaseSaveSlot name

/-- The cancellation of an awaited future cancels its worker if that has not started. -/
def cancelQueued (name : ℕ) : State :=
  { s with
    workers := s.workers.map fun w =>
      if w.name = name ∧ w.status = .queued then { w with status := .ended } else w }

/-- The worker at `j` moves on. -/
def setStatus (j : ℕ) (w : Worker) (status : Status) : State :=
  { s with workers := replaceAt s.workers j [{ w with status := status }] }

/-- The worker of the coroutine is still at it. -/
def isAwaited (t : Coroutine) : Bool := s.workers.any fun w => w.name = t.name && w.isActive

/-- The repair in progress is a rebuild. -/
def rebuilding : Bool := s.repairing = some .rebuild

/-- The one at `k` in the queue of `x` waits no longer. -/
def abandon (x : Sem) (k : ℕ) : State := { s with sems := s.sems.drop x k }

end State

/-- The coroutine that a request starts and the permits it wants, unless it is answered at
once. -/
def Arrival.coroutine (cfg : Config) (s : State) : Arrival → Option (Op × List Sem)
  | .call r =>
      if cfg.fastIntercept && r.intercepted then none
      else some (.call r.lane (decide (r.toolName ∈ readTools)), [semFor r])
  | .read => some (.work false, [.read])
  | .write => some (.work false, [.write])
  | .mine => some (.work false, [.mine])
  | .mineExclusive =>
      -- a rebuild queues the mine
      if s.rebuilding then none else some (.exclusive false, cfg.exclusivePlan)
  | .silentSave => some (.silentSave, [.write])
  | .repair mode =>
      -- 409 while another repair is in progress
      if s.repairing.isSome then none
      else match mode with
        | .light => some (.clearCaches, [.write])
        | .scan => some (.work true, [.read])
        | .prune => some (.work true, [.write])
        | .rebuild => some (.exclusive true, cfg.exclusivePlan)

/-- The start transition of `/repair` sets the flag. -/
def Arrival.flag (repairing : Option RepairMode) : Arrival → Option RepairMode
  | .repair mode => some mode
  | _ => repairing

/-- A turn of the coroutine `t` at `i`. -/
def State.turn (cfg : Config) (s : State) (i : ℕ) (t : Coroutine) : Option State :=
  if t.todo ≠ [] then some (s.resume i t)
  else match t.op with
    | .work repair => some (s.spawn i t none (.awaiting repair false))
    | .clearCaches => some (s.depart i t true)
    | .call l retry =>
        if cfg.bound l ≤ s.inflight l then some (s.depart i t false)
        else some ((s.takeSlot t.name l).spawn i t (some l) (.awaiting false retry))
    | .awaiting repair _ => if s.isAwaited t then none else some (s.depart i t repair)
    | .silentSave =>
        if s.rebuilding then some (s.become i t .enqueuing)
        else some (s.spawn i t none (.awaiting false false))
    | .enqueuing => some { s.depart i t false with queued := t.name :: s.queued }
    | .exclusive rebuild =>
        if 0 < s.inflight .save then none
        else some (s.resume i { t with op := .holding rebuild, todo := [.mine] })
    | .holding rebuild => some (s.depart i t rebuild)
    | .clearing => some { s.depart i t false with repairing := none }

/-- A step of the daemon. -/
def State.step (cfg : Config) (s : State) : Label → Option State
  | .arrive a =>
      match a.coroutine cfg s with
      | none => some s
      | some (op, plan) => some ({ s with repairing := a.flag s.repairing }.enroll op plan)
  | .run i => s.ready[i]?.bind fun t => s.turn cfg i t
  | .refuse i => s.ready[i]?.bind fun t =>
      match t.op with
      | .call l _ =>
          if t.todo = [] ∧ s.inflight l < cfg.bound l then
            some (((s.takeSlot t.name l).release t.name l).depart i t false)
          else none
      | _ => none
  | .retry i => s.ready[i]?.bind fun t =>
      match t.op with
      | .awaiting repair true =>
          if s.isAwaited t then none
          else some (s.spawn i t none (.awaiting repair false))
      | _ => none
  | .leave i => s.ready[i]?.bind fun t =>
      match t.op with
      | .call _ _ => some (s.depart i t false)
      | .awaiting false _ => some ((s.cancelQueued t.name).depart i t false)
      | _ => none
  | .abandon x k => (s.sems.queue x)[k]?.bind fun t =>
      match t.op with
      | .call _ _ => some (s.abandon x k)
      | _ => none
  | .deadline i => s.ready[i]?.bind fun t =>
      match t.op with
      | .exclusive rebuild =>
          if t.todo = [] ∧ 0 < s.inflight .save then some (s.depart i t rebuild) else none
      | _ => none
  | .start j => s.workers[j]?.bind fun w =>
      if w.status = .queued then some (s.setStatus j w .running) else none
  | .finish j => s.workers[j]?.bind fun w =>
      if w.status = .running then some (s.setStatus j w .ended) else none
  | .callback j => s.workers[j]?.bind fun w =>
      if w.status = .ended then
        match w.lane with
        | none => some (s.setStatus j w .released)
        | some l => some ((s.setStatus j w .released).release w.name l)
      else none

/-- The daemon. -/
def laneSystem (cfg : Config) : StepSystem State Label where
  init s := s = State.fresh cfg
  next s l := s.step cfg l

end PalaceDaemon.Lanes

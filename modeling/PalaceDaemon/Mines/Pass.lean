/-
One run of `_drain_pending_mines`, one file operation at a time.

A pass owns lines of the queue from the moment it renames the pending file to `.processing`
until it has mined them, rejected them, quarantined them or handed them back.  Between those
moments they are in lists in memory and in files that are rewritten at every mine boundary.
`Pass` holds the lists and the place in the code; `Files` the files.  A step (`Act.run`) is
the code up to and including one file operation, so a stop between any two file operations is
a stop between two steps.  Opening a file for writing is an operation of its own: it empties
the file before anything is written.

The pass waits at two places, for the mine it spawned and before it removes `.processing`
when it has requeued entries.  There it goes on when the mine ends (`Act.mineEnds`) or the
delay is over (`Act.wake`), and there it can be cancelled (`Act.cancel`).  A cancellation
during a mine still runs the boundary, which is in a `finally`.
-/
import PalaceDaemon.Mines.Claim
import PalaceDaemon.Mines.Gate

namespace PalaceDaemon.Mines

/-! ### The files -/

/-- The files of the mine queue. -/
structure Files where
  /-- `palace-daemon-pending-mines.jsonl`. -/
  live : Option (List Entry)
  /-- `….processing.merge`: the arrivals a boundary has renamed away. -/
  merge : Option (List Entry)
  /-- `….processing`. -/
  processing : Option (List Entry)
  /-- `….processing.failed-<stamp>`. -/
  failed : List (ℕ × List Entry)
  /-- The mined-state file. -/
  minedState : MinedState
deriving DecidableEq, Repr

/-- Append lines to the live file, which an append creates when it is not there. -/
def Files.append (f : Files) (lines : List Entry) : Files :=
  { f with live := some (f.live.getD [] ++ lines) }

/-- Write a quarantine file; one with the same stamp is replaced. -/
def Files.setFailed (f : Files) (stamp : ℕ) (lines : List Entry) : Files :=
  { f with failed := f.failed.filter (·.1 ≠ stamp) ++ [(stamp, lines)] }

@[simp] lemma append_live (f : Files) (lines : List Entry) :
    (f.append lines).live = some (f.live.getD [] ++ lines) := rfl

@[simp] lemma append_merge (f : Files) (lines : List Entry) :
    (f.append lines).merge = f.merge := rfl

@[simp] lemma append_processing (f : Files) (lines : List Entry) :
    (f.append lines).processing = f.processing := rfl

@[simp] lemma append_failed (f : Files) (lines : List Entry) :
    (f.append lines).failed = f.failed := rfl

@[simp] lemma append_minedState (f : Files) (lines : List Entry) :
    (f.append lines).minedState = f.minedState := rfl

@[simp] lemma setFailed_live (f : Files) (stamp : ℕ) (lines : List Entry) :
    (f.setFailed stamp lines).live = f.live := rfl

@[simp] lemma setFailed_merge (f : Files) (stamp : ℕ) (lines : List Entry) :
    (f.setFailed stamp lines).merge = f.merge := rfl

@[simp] lemma setFailed_processing (f : Files) (stamp : ℕ) (lines : List Entry) :
    (f.setFailed stamp lines).processing = f.processing := rfl

@[simp] lemma setFailed_minedState (f : Files) (stamp : ℕ) (lines : List Entry) :
    (f.setFailed stamp lines).minedState = f.minedState := rfl

lemma mem_setFailed (f : Files) (stamp : ℕ) (lines : List Entry) :
    (stamp, lines) ∈ (f.setFailed stamp lines).failed := by
  simp [Files.setFailed]

/-! ### The pass -/

/-- How a spawned mine ends. -/
inductive Outcome
  /-- Return code 0. -/
  | ok
  /-- Another process holds the palace lock. -/
  | lockHeld
  /-- Any other return code. -/
  | failed
  /-- The replay raised, for example because the subprocess could not be spawned. -/
  | raised
deriving DecidableEq, Repr

/-- The place in the code.  Each names what the next step does. -/
inductive Pc
  /-- `_recover_orphaned_processing`: look for `.processing` and read it. -/
  | recover
  | recoverOpen (lines : List Entry)
  | recoverAppend (lines : List Entry)
  | recoverRemove
  /-- Rename the pending file to `.processing`. -/
  | claim
  /-- Read `.processing`, dedup, split. -/
  | load
  /-- `_write_processing`: open for writing. -/
  | writeOpen (lines : List Entry)
  /-- `_write_processing`: write. -/
  | writeLines (lines : List Entry)
  /-- Take the next entry and check it. -/
  | loop
  /-- Wait for the mine of the current entry. -/
  | replaying (job : Job)
  /-- `_rebalance_claim`: the budget, and the rename to `.merge`. -/
  | boundary
  | mergeRead
  | mergeRemove (arrivals : List Entry)
  /-- `_rebalance_claim`: dedup and sort. -/
  | rebalance (arrivals : List Entry)
  | deferOpen
  | deferWrite
  | failOpen
  | failWrite (stamp : ℕ)
  | requeueOpen
  | requeueWrite
  /-- Wait before `.processing` is removed. -/
  | sleeping
  | remove
  /-- The pass returned. -/
  | done
  /-- The pass was cancelled during a mine and its `finally` blocks have run. -/
  | cancelledInReplay
  /-- The pass was cancelled while it waited to remove `.processing`. -/
  | cancelledInDelay
deriving DecidableEq, Repr

/-- A run of `_drain_pending_mines`. -/
structure Pass where
  pc : Pc
  /-- What the pass still has to replay, in run order. -/
  owned : List Item
  /-- `pass_deferred`: what goes back to the queue when the pass ends. -/
  deferred : List Item
  /-- The entry whose mine is running. -/
  current : Option Item
  /-- `requeue_lines`. -/
  requeue : List Item
  /-- `failed_lines`. -/
  failed : List Item
  /-- The entries whose mine returned 0. -/
  mined : List (Item × Job)
  /-- The entries that a rejection rule dropped. -/
  skipped : List (Item × Rejection)
  cap : ℕ
  consumed : ℕ
  minedState : MinedState
  /-- A cancellation was raised and the `finally` blocks are running. -/
  cancelling : Bool
deriving DecidableEq, Repr

/-- A pass that has not begun. -/
def Pass.fresh : Pass where
  pc := .recover
  owned := []
  deferred := []
  current := none
  requeue := []
  failed := []
  mined := []
  skipped := []
  cap := 0
  consumed := 0
  minedState := []
  cancelling := false

/-- What a pass does next, or what happens to it while it waits. -/
inductive Act
  | run
  | mineEnds (outcome : Outcome)
  | wake
  | cancel
deriving DecidableEq, Repr

/-- `_LOCK_REQUEUE_MAX`. -/
def lockRequeueMax : ℕ := 30

/-- The check of the entry the loop has taken. -/
def Pass.check (env : Env) (p : Pass) (it : Item) : Pass :=
  match gate env p.minedState it.entry with
  | .hold _ => { p with pc := .boundary, requeue := p.requeue ++ [it] }
  | .reject rule => { p with pc := .boundary, skipped := p.skipped ++ [(it, rule)] }
  | .spawn job => { p with pc := .replaying job, current := some it }

/-- One file operation of the pass, with the code before it. -/
def Pass.step (env : Env) (f : Files) (p : Pass) : Option (Files × Pass) :=
  match p.pc with
  | .recover =>
      match f.processing with
      | none => some (f, { p with pc := .claim })
      | some lines => some (f, { p with pc := .recoverOpen lines })
  | .recoverOpen lines => some (f.append [], { p with pc := .recoverAppend lines })
  | .recoverAppend lines => some (f.append lines, { p with pc := .recoverRemove })
  | .recoverRemove => some ({ f with processing := none }, { p with pc := .claim })
  | .claim =>
      match f.live with
      | none => some (f, { p with pc := .done })
      | some lines =>
          some ({ f with live := none, processing := some lines }, { p with pc := .load })
  | .load =>
      match f.processing with
      | none => some (f, { p with pc := .done })
      | some lines =>
          let cap := drainBatchSize env.drainBatch
          let (batch, deferred) := splitClaim cap (dedup lines)
          some (f, { p with
            pc := if deferred = [] then .loop
              else .writeOpen ((batch ++ deferred).map Item.line)
            owned := batch, deferred := deferred, cap := cap, minedState := f.minedState })
  | .writeOpen lines =>
      some ({ f with processing := some [] }, { p with pc := .writeLines lines })
  | .writeLines lines =>
      some ({ f with processing := some lines },
        { p with pc := if p.cancelling then .cancelledInReplay else .loop })
  | .loop =>
      match p.owned with
      | [] => some (f, { p with pc := .deferOpen })
      | it :: owned =>
          some (f, { p with owned := owned, consumed := p.consumed + 1 }.check env it)
  | .replaying _ => none
  | .boundary =>
      if p.cap ≤ p.consumed then
        some (f, { p with
          pc := .writeOpen ((p.owned ++ p.deferred).map Item.line)
          owned := [], deferred := p.deferred ++ p.owned })
      else match f.live with
        | none => some (f, { p with pc := .rebalance [] })
        | some lines =>
            some ({ f with live := none, merge := some lines }, { p with pc := .mergeRead })
  | .mergeRead => some (f, { p with pc := .mergeRemove (f.merge.getD []) })
  | .mergeRemove arrivals => some ({ f with merge := none }, { p with pc := .rebalance arrivals })
  | .rebalance arrivals =>
      let (keep, displaced) := rebalance p.owned (p.cap - p.consumed) arrivals
      some (f, { p with
        pc := .writeOpen ((keep ++ p.deferred ++ displaced).map Item.line)
        owned := keep, deferred := p.deferred ++ displaced })
  | .deferOpen =>
      if p.deferred = [] then some (f, { p with pc := .failOpen })
      else some (f.append [], { p with pc := .deferWrite })
  | .deferWrite =>
      some (f.append (p.deferred.map fun it => it.entry.carried), { p with pc := .failOpen })
  | .failOpen =>
      if p.failed = [] then some (f, { p with pc := .requeueOpen })
      else some (f.setFailed env.stamp [], { p with pc := .failWrite env.stamp })
  | .failWrite stamp =>
      some (f.setFailed stamp (p.failed.map Item.line), { p with pc := .requeueOpen })
  | .requeueOpen =>
      if p.requeue = [] then some (f, { p with pc := .remove })
      else some (f.append [], { p with pc := .requeueWrite })
  | .requeueWrite =>
      some (f.append (p.requeue.map Item.entry), { p with pc := .sleeping })
  | .sleeping => none
  | .remove => some ({ f with processing := none }, { p with pc := .done })
  | .done => none
  | .cancelledInReplay => none
  | .cancelledInDelay => none

/-- What the pass does with the entry whose mine has ended. -/
def Pass.settle (env : Env) (f : Files) (p : Pass) (job : Job) (it : Item) :
    Outcome → Files × Pass
  | .ok =>
      match job.preMineWitness with
      | none => (f, { p with mined := p.mined ++ [(it, job)] })
      | some witness =>
          let state := p.minedState.set (minedStateKey job.directory job.mode)
            ⟨witness, some env.now⟩
          ({ f with minedState := pruneMinedState env state },
            { p with mined := p.mined ++ [(it, job)], minedState := state })
  | .lockHeld =>
      let tries := it.entry.lockRetries + 1
      if tries ≤ lockRequeueMax then
        (f, { p with requeue := p.requeue ++ [{ it with entry := it.entry.setLockRetries tries }] })
      else (f, { p with failed := p.failed ++ [it] })
  | .failed => (f, { p with failed := p.failed ++ [it] })
  | .raised => (f, { p with failed := p.failed ++ [it] })

/-- A pass and the files after a step or an event. -/
def Pass.next (env : Env) (f : Files) (p : Pass) : Act → Option (Files × Pass)
  | .run => p.step env f
  | .mineEnds outcome =>
      match p.pc, p.current with
      | .replaying job, some it =>
          some ({ p with pc := .boundary, current := none }.settle env f job it outcome)
      | _, _ => none
  | .wake => if p.pc = .sleeping then some (f, { p with pc := .remove }) else none
  | .cancel =>
      match p.pc with
      | .replaying _ => some (f, { p with pc := .boundary, cancelling := true })
      | .sleeping => some (f, { p with pc := .cancelledInDelay, cancelling := true })
      | _ => none

/-- The lines that the next step of a pass renames away from the live file. -/
def Pass.claims (f : Files) (p : Pass) : Act → List Entry
  | .run =>
      match p.pc with
      | .claim => f.live.getD []
      | .boundary => if p.cap ≤ p.consumed then [] else f.live.getD []
      | _ => []
  | _ => []

/-- The mine that ends with a move, with its entry and its outcome. -/
def Pass.ends (p : Pass) : Act → List (Item × Job × Outcome)
  | .mineEnds outcome =>
      match p.pc, p.current with
      | .replaying job, some it => [(it, job, outcome)]
      | _, _ => []
  | _ => []

/-! ### What one move can do -/

section moves

variable (env : Env)

/-- `Moves env f p c f' p'`: one move takes the pass `p` and the files `f` to `p'` and `f'`,
and renames the lines `c` away from the live file. -/
inductive Moves : Files → Pass → List Entry → Files → Pass → Prop
  | recoverNone {f p} : p.pc = .recover → f.processing = none →
      Moves f p [] f { p with pc := .claim }
  | recoverSome {f p lines} : p.pc = .recover → f.processing = some lines →
      Moves f p [] f { p with pc := .recoverOpen lines }
  | recoverOpen {f p lines} : p.pc = .recoverOpen lines →
      Moves f p [] (f.append []) { p with pc := .recoverAppend lines }
  | recoverAppend {f p lines} : p.pc = .recoverAppend lines →
      Moves f p [] (f.append lines) { p with pc := .recoverRemove }
  | recoverRemove {f p} : p.pc = .recoverRemove →
      Moves f p [] { f with processing := none } { p with pc := .claim }
  | claimNone {f p} : p.pc = .claim → f.live = none → Moves f p [] f { p with pc := .done }
  | claim {f p lines} : p.pc = .claim → f.live = some lines →
      Moves f p lines { f with live := none, processing := some lines } { p with pc := .load }
  | loadNone {f p} : p.pc = .load → f.processing = none → Moves f p [] f { p with pc := .done }
  | loadAll {f p lines batch} : p.pc = .load → f.processing = some lines →
      splitClaim (drainBatchSize env.drainBatch) (dedup lines) = (batch, []) →
      Moves f p [] f { p with
        pc := .loop, owned := batch, deferred := [], cap := drainBatchSize env.drainBatch
        minedState := f.minedState }
  | loadSome {f p lines batch deferred} : p.pc = .load → f.processing = some lines →
      splitClaim (drainBatchSize env.drainBatch) (dedup lines) = (batch, deferred) →
      deferred ≠ [] →
      Moves f p [] f { p with
        pc := .writeOpen ((batch ++ deferred).map Item.line)
        owned := batch, deferred := deferred, cap := drainBatchSize env.drainBatch
        minedState := f.minedState }
  | writeOpen {f p lines} : p.pc = .writeOpen lines →
      Moves f p [] { f with processing := some [] } { p with pc := .writeLines lines }
  | writeLines {f p lines} : p.pc = .writeLines lines → p.cancelling = false →
      Moves f p [] { f with processing := some lines } { p with pc := .loop }
  | writeCancelled {f p lines} : p.pc = .writeLines lines → p.cancelling = true →
      Moves f p [] { f with processing := some lines } { p with pc := .cancelledInReplay }
  | loopEnd {f p} : p.pc = .loop → p.owned = [] → Moves f p [] f { p with pc := .deferOpen }
  | hold {f p it owned why} : p.pc = .loop → p.owned = it :: owned →
      gate env p.minedState it.entry = .hold why →
      Moves f p [] f { p with
        pc := .boundary, owned := owned, consumed := p.consumed + 1,
        requeue := p.requeue ++ [it] }
  | reject {f p it owned rule} : p.pc = .loop → p.owned = it :: owned →
      gate env p.minedState it.entry = .reject rule →
      Moves f p [] f { p with
        pc := .boundary, owned := owned, consumed := p.consumed + 1,
        skipped := p.skipped ++ [(it, rule)] }
  | spawn {f p it owned job} : p.pc = .loop → p.owned = it :: owned →
      gate env p.minedState it.entry = .spawn job →
      Moves f p [] f { p with
        pc := .replaying job, owned := owned, consumed := p.consumed + 1, current := some it }
  | budgetSpent {f p} : p.pc = .boundary → p.cap ≤ p.consumed →
      Moves f p [] f { p with
        pc := .writeOpen ((p.owned ++ p.deferred).map Item.line)
        owned := [], deferred := p.deferred ++ p.owned }
  | noArrivals {f p} : p.pc = .boundary → p.consumed < p.cap → f.live = none →
      Moves f p [] f { p with pc := .rebalance [] }
  | arrivals {f p lines} : p.pc = .boundary → p.consumed < p.cap → f.live = some lines →
      Moves f p lines { f with live := none, merge := some lines } { p with pc := .mergeRead }
  | mergeRead {f p} : p.pc = .mergeRead →
      Moves f p [] f { p with pc := .mergeRemove (f.merge.getD []) }
  | mergeRemove {f p as} : p.pc = .mergeRemove as →
      Moves f p [] { f with merge := none } { p with pc := .rebalance as }
  | rebalance {f p as keep displaced} : p.pc = .rebalance as →
      rebalance p.owned (p.cap - p.consumed) as = (keep, displaced) →
      Moves f p [] f { p with
        pc := .writeOpen ((keep ++ p.deferred ++ displaced).map Item.line)
        owned := keep, deferred := p.deferred ++ displaced }
  | deferNone {f p} : p.pc = .deferOpen → p.deferred = [] →
      Moves f p [] f { p with pc := .failOpen }
  | deferOpen {f p} : p.pc = .deferOpen → p.deferred ≠ [] →
      Moves f p [] (f.append []) { p with pc := .deferWrite }
  | deferWrite {f p} : p.pc = .deferWrite →
      Moves f p [] (f.append (p.deferred.map fun it => it.entry.carried))
        { p with pc := .failOpen }
  | failNone {f p} : p.pc = .failOpen → p.failed = [] →
      Moves f p [] f { p with pc := .requeueOpen }
  | failOpen {f p} : p.pc = .failOpen → p.failed ≠ [] →
      Moves f p [] (f.setFailed env.stamp []) { p with pc := .failWrite env.stamp }
  | failWrite {f p stamp} : p.pc = .failWrite stamp →
      Moves f p [] (f.setFailed stamp (p.failed.map Item.line)) { p with pc := .requeueOpen }
  | requeueNone {f p} : p.pc = .requeueOpen → p.requeue = [] →
      Moves f p [] f { p with pc := .remove }
  | requeueOpen {f p} : p.pc = .requeueOpen → p.requeue ≠ [] →
      Moves f p [] (f.append []) { p with pc := .requeueWrite }
  | requeueWrite {f p} : p.pc = .requeueWrite →
      Moves f p [] (f.append (p.requeue.map Item.entry)) { p with pc := .sleeping }
  | remove {f p} : p.pc = .remove →
      Moves f p [] { f with processing := none } { p with pc := .done }
  | mined {f p job it} : p.pc = .replaying job → p.current = some it →
      job.preMineWitness = none →
      Moves f p [] f { p with
        pc := .boundary, current := none, mined := p.mined ++ [(it, job)] }
  | minedWitness {f p job it witness} : p.pc = .replaying job → p.current = some it →
      job.preMineWitness = some witness →
      Moves f p []
        { f with minedState := pruneMinedState env (p.minedState.set
            (minedStateKey job.directory job.mode) ⟨witness, some env.now⟩) }
        { p with
          pc := .boundary, current := none, mined := p.mined ++ [(it, job)]
          minedState := p.minedState.set (minedStateKey job.directory job.mode)
            ⟨witness, some env.now⟩ }
  | lockHeld {f p job it} : p.pc = .replaying job → p.current = some it →
      it.entry.lockRetries + 1 ≤ lockRequeueMax →
      Moves f p [] f { p with
        pc := .boundary, current := none
        requeue := p.requeue ++
          [{ it with entry := it.entry.setLockRetries (it.entry.lockRetries + 1) }] }
  | mineFailed {f p job it} : p.pc = .replaying job → p.current = some it →
      Moves f p [] f { p with
        pc := .boundary, current := none, failed := p.failed ++ [it] }
  | wake {f p} : p.pc = .sleeping → Moves f p [] f { p with pc := .remove }
  | cancelReplay {f p job} : p.pc = .replaying job →
      Moves f p [] f { p with pc := .boundary, cancelling := true }
  | cancelDelay {f p} : p.pc = .sleeping →
      Moves f p [] f { p with pc := .cancelledInDelay, cancelling := true }

variable {env} {f f' : Files} {p p' : Pass}

/-- The check of a taken entry is one of the three moves that take it. -/
lemma moves_of_check {it : Item} {owned : List Item} (hpc : p.pc = .loop)
    (howned : p.owned = it :: owned) :
    Moves env f p [] f
      ({ p with owned := owned, consumed := p.consumed + 1 }.check env it) := by
  unfold Pass.check
  cases hgate : gate env p.minedState it.entry with
  | hold why => exact .hold hpc howned hgate
  | reject rule => exact .reject hpc howned hgate
  | spawn job => exact .spawn hpc howned hgate

lemma moves_of_step (h : p.step env f = some (f', p')) :
    Moves env f p (p.claims f .run) f' p' := by
  unfold Pass.step at h
  unfold Pass.claims
  cases hpc : p.pc <;> simp only [hpc] at h ⊢ <;>
    try (simp only [Option.some.injEq, Prod.mk.injEq, reduceCtorEq] at h)
  case recover =>
    cases hproc : f.processing with
    | none =>
        obtain ⟨rfl, rfl⟩ : f = f' ∧ _ = p' := by simpa [hproc] using h
        exact .recoverNone hpc hproc
    | some lines =>
        obtain ⟨rfl, rfl⟩ : f = f' ∧ _ = p' := by simpa [hproc] using h
        exact .recoverSome hpc hproc
  case recoverOpen => obtain ⟨rfl, rfl⟩ := h; exact .recoverOpen hpc
  case recoverAppend => obtain ⟨rfl, rfl⟩ := h; exact .recoverAppend hpc
  case recoverRemove => obtain ⟨rfl, rfl⟩ := h; exact .recoverRemove hpc
  case claim =>
    cases hlive : f.live with
    | none =>
        obtain ⟨rfl, rfl⟩ : f = f' ∧ _ = p' := by simpa [hlive] using h
        exact .claimNone hpc hlive
    | some lines =>
        obtain ⟨rfl, rfl⟩ : _ = f' ∧ _ = p' := by simpa [hlive] using h
        exact .claim hpc hlive
  case load =>
    cases hproc : f.processing with
    | none =>
        obtain ⟨rfl, rfl⟩ : f = f' ∧ _ = p' := by simpa [hproc] using h
        exact .loadNone hpc hproc
    | some lines =>
        obtain ⟨batch, deferred, hsplit⟩ :
            ∃ batch deferred, splitClaim (drainBatchSize env.drainBatch) (dedup lines) =
              (batch, deferred) := ⟨_, _, rfl⟩
        rw [hproc] at h
        dsimp only at h
        rw [hsplit] at h
        obtain ⟨rfl, rfl⟩ := Prod.mk.inj (Option.some.inj h)
        by_cases hdeferred : deferred = []
        · subst hdeferred
          exact .loadAll hpc hproc hsplit
        · rw [if_neg hdeferred]
          exact .loadSome hpc hproc hsplit hdeferred
  case writeOpen => obtain ⟨rfl, rfl⟩ := h; exact .writeOpen hpc
  case writeLines =>
    obtain ⟨rfl, rfl⟩ := h
    by_cases hcan : p.cancelling = true
    · rw [if_pos hcan]
      exact .writeCancelled hpc hcan
    · rw [if_neg hcan]
      exact .writeLines hpc (by simpa using hcan)
  case loop =>
    cases howned : p.owned with
    | nil =>
        obtain ⟨rfl, rfl⟩ : f = f' ∧ { p with pc := .deferOpen } = p' := by
          simpa [howned] using h
        exact .loopEnd hpc howned
    | cons it owned =>
        obtain ⟨rfl, rfl⟩ : f = f' ∧ _ = p' := by simpa [howned] using h
        exact moves_of_check hpc howned
  case boundary =>
    split at h
    · rename_i hspent
      obtain ⟨rfl, rfl⟩ : f = f' ∧ _ = p' := by simpa using h
      simpa [hspent] using Moves.budgetSpent hpc hspent
    · rename_i hspent
      have hbudget : p.consumed < p.cap := not_le.1 hspent
      cases hlive : f.live with
      | none =>
          obtain ⟨rfl, rfl⟩ : f = f' ∧ _ = p' := by simpa [hlive] using h
          simpa [hspent] using Moves.noArrivals hpc hbudget hlive
      | some lines =>
          obtain ⟨rfl, rfl⟩ : _ = f' ∧ _ = p' := by simpa [hlive] using h
          simpa [hspent] using Moves.arrivals hpc hbudget hlive
  case mergeRead => obtain ⟨rfl, rfl⟩ := h; exact .mergeRead hpc
  case mergeRemove => obtain ⟨rfl, rfl⟩ := h; exact .mergeRemove hpc
  case rebalance => obtain ⟨rfl, rfl⟩ := h; exact .rebalance hpc rfl
  case deferOpen =>
    split at h
    · obtain ⟨rfl, rfl⟩ : f = f' ∧ _ = p' := by simpa using h
      exact .deferNone hpc ‹_›
    · obtain ⟨rfl, rfl⟩ : _ = f' ∧ _ = p' := by simpa using h
      exact .deferOpen hpc ‹_›
  case deferWrite => obtain ⟨rfl, rfl⟩ := h; exact .deferWrite hpc
  case failOpen =>
    split at h
    · obtain ⟨rfl, rfl⟩ : f = f' ∧ _ = p' := by simpa using h
      exact .failNone hpc ‹_›
    · obtain ⟨rfl, rfl⟩ : _ = f' ∧ _ = p' := by simpa using h
      exact .failOpen hpc ‹_›
  case failWrite => obtain ⟨rfl, rfl⟩ := h; exact .failWrite hpc
  case requeueOpen =>
    split at h
    · obtain ⟨rfl, rfl⟩ : f = f' ∧ _ = p' := by simpa using h
      exact .requeueNone hpc ‹_›
    · obtain ⟨rfl, rfl⟩ : _ = f' ∧ _ = p' := by simpa using h
      exact .requeueOpen hpc ‹_›
  case requeueWrite => obtain ⟨rfl, rfl⟩ := h; exact .requeueWrite hpc
  case remove => obtain ⟨rfl, rfl⟩ := h; exact .remove hpc

lemma moves_of_mineEnds {outcome : Outcome}
    (h : p.next env f (.mineEnds outcome) = some (f', p')) : Moves env f p [] f' p' := by
  unfold Pass.next at h
  dsimp only at h
  split at h
  · rename_i job it hpc hcur
    rw [Option.some.injEq] at h
    cases outcome with
    | ok =>
        unfold Pass.settle at h
        cases hw : job.preMineWitness with
        | none =>
            obtain ⟨rfl, rfl⟩ : f = f' ∧ _ = p' := by simpa [hw] using h
            exact .mined hpc hcur hw
        | some witness =>
            obtain ⟨rfl, rfl⟩ : _ = f' ∧ _ = p' := by simpa [hw] using h
            exact .minedWitness hpc hcur hw
    | lockHeld =>
        unfold Pass.settle at h
        dsimp only at h
        split at h
        · obtain ⟨rfl, rfl⟩ : f = f' ∧ _ = p' := by simpa using h
          exact .lockHeld hpc hcur ‹_›
        · obtain ⟨rfl, rfl⟩ : f = f' ∧ _ = p' := by simpa using h
          exact .mineFailed hpc hcur
    | failed =>
        obtain ⟨rfl, rfl⟩ : f = f' ∧ _ = p' := by simpa [Pass.settle] using h
        exact .mineFailed hpc hcur
    | raised =>
        obtain ⟨rfl, rfl⟩ : f = f' ∧ _ = p' := by simpa [Pass.settle] using h
        exact .mineFailed hpc hcur
  · simp at h

/-- **Inversion.**  Whatever happens to a pass is one of the moves. -/
theorem moves_of_next {a : Act} (h : p.next env f a = some (f', p')) :
    Moves env f p (p.claims f a) f' p' := by
  cases a with
  | run => exact moves_of_step h
  | mineEnds outcome => exact moves_of_mineEnds h
  | wake =>
      unfold Pass.next at h
      dsimp only at h
      split at h
      · obtain ⟨rfl, rfl⟩ : f = f' ∧ _ = p' := by simpa using h
        exact .wake ‹_›
      · simp at h
  | cancel =>
      unfold Pass.next at h
      dsimp only at h
      split at h
      · obtain ⟨rfl, rfl⟩ : f = f' ∧ _ = p' := by simpa using h
        exact .cancelReplay ‹_›
      · obtain ⟨rfl, rfl⟩ : f = f' ∧ _ = p' := by simpa using h
        exact .cancelDelay ‹_›
      · simp at h

end moves

/-! ### A plain setting -/

/-- Surroundings in which every path is a directory and nothing is held back. -/
def Env.plain : Env where
  pathMap := []
  fs _ := some .dir
  mineableTextSuffixes := []
  mineMinFree := 0
  statvfs := []
  mineMinInterval := 0
  now := 0
  stamp := 0
  minerCap _ := none
  drainBatch := none

/-- A request as the hooks send it. -/
def Entry.ofDir (dir : String) : Entry where
  payload :=
    { dir := dir.toList, wing := "general", mode := "convos", extract := none, limit := none
      tunnels := none }
  enqueuedAt := ""
  drainDeferrals := 0
  lockRetries := 0

/-- The files when only the live file is there. -/
def Files.ofLive (lines : List Entry) : Files where
  live := some lines
  merge := none
  processing := none
  failed := []
  minedState := []

end PalaceDaemon.Mines

/-
The pause gate of mining.

While `PALACE_DISABLE_AUTOMINE` is set or the bench lock is active, mining is paused: `/mine` and
the watcher test both before they go on.  But a blocking mine and the watcher's then wait for the
mine semaphore, a queued mine is still to be appended to the queue, and the passes that drain the
queue test neither.  So what was admitted before the pause is spawned during it
(`spawn_not_paused_fails`).  It is not when the lock becomes active only while nothing that was
admitted is outstanding (`PausesQuietly`): `Quiet` is then what the pause keeps.

A `Host` has the bench scripts, the files of the mine queue and the coroutines that mine.  The
value of the environment variable does not change while the process lives.
-/
import PalaceDaemon.Bench.Lock
import PalaceDaemon.Lib.PyText
import PalaceDaemon.Mines.Durability

namespace PalaceDaemon.Mines

/-- `automine_disabled`, given the value of `PALACE_DISABLE_AUTOMINE` -/
def automineDisabled (value : String) : Bool :=
  String.ofList ((PyText.strip value.toList).map lowerChar) ∈ ["1", "true", "yes", "on"]

/-- A coroutine that mines or is about to. -/
inductive Proc
  | idle
  /-- `mine` in `_enqueue_pending_mine`. -/
  | enqueue (e : Entry)
  /-- `mine` past its gate, waiting for its turn or with its subprocess running. -/
  | blocking (spawned : Bool)
  /-- `_internal_mine` past its gate, waiting for `_mine_sem` or with its subprocess running. -/
  | watcher (spawned : Bool)
  /-- `_drain_pending_mines`; when it replays an entry it waits for `_mine_sem` at first. -/
  | drain (p : Pass) (spawned : Bool)

/-- The bench scripts and the daemon. -/
structure Host where
  bench : Bench.State
  /-- `PALACE_DISABLE_AUTOMINE` -/
  disableAutomine : String
  /-- The daemon is running. -/
  booted : Bool
  env : Env
  files : Files
  /-- The coroutine that has the permit of `_mine_sem`. -/
  mining : Option ℕ
  proc : ℕ → Proc

namespace Host

/-- Mining is paused. -/
def paused (s : Host) : Bool :=
  automineDisabled s.disableAutomine || s.bench.lock.benchLockActive

/-- The coroutine `i` goes on. -/
def set (s : Host) (i : ℕ) (p : Proc) : Host := { s with proc := Function.update s.proc i p }

end Host

/-- What can happen on the host. -/
inductive HostLabel
  | bench (l : Bench.Label)
  /-- The daemon starts on the files of an earlier one. -/
  | boot (files : Files)
  | change (env : Env)
  /-- A `/mine` request; `queue` says whether it asks for the background or a rebuild queues it. -/
  | post (i : ℕ) (e : Entry) (queue : Bool)
  | append (i : ℕ)
  /-- The watcher sees a change. -/
  | event (i : ℕ)
  /-- A pass begins: of the background drainer, which the start of the daemon and queued requests
  kick, or after a rebuild. -/
  | drain (i : ℕ)
  | pass (i : ℕ) (a : Act)
  /-- The coroutine gets its turn and spawns its subprocess. -/
  | spawn (i : ℕ)
  /-- The subprocess of a blocking mine or of the watcher exits, or the coroutine gives up before
  it has spawned one. -/
  | exits (i : ℕ)

/-- The coroutine with its subprocess spawned, if it is about to spawn it. -/
def Proc.spawn : Proc → Option Proc
  | .blocking false => some (.blocking true)
  | .watcher false => some (.watcher true)
  | .drain p false => match p.pc with
    | .replaying _ => some (.drain p true)
    | _ => none
  | _ => none

/-- A pass whose mine has not been spawned can only find that it cannot be. -/
def Act.fits (spawned : Bool) : Act → Bool
  | .mineEnds outcome => spawned = true ∨ outcome = .raised
  | _ => true

namespace Host

/-- `/mine` and `_internal_mine` up to their first await: they do nothing while mining is paused,
nor, if they mine themselves, on low disk. -/
def pastGate (s : Host) (i : ℕ) (queue : Option Entry) (mine : Proc) : Host :=
  if s.paused then s
  else match queue with
    | some e => s.set i (.enqueue e)
    | none => if (mineDiskFloorProblem s.env).isSome then s else s.set i mine

/-- A step of the host. -/
def next (s : Host) : HostLabel → Option Host
  | .bench l => (s.bench.next l).map fun bench => { s with bench }
  | .boot files =>
      if s.booted then none else some { s with booted := true, files := recoverOrphaned files }
  | .change env => some { s with env }
  | .post i e queue => match s.booted, s.proc i with
    | true, .idle => some (s.pastGate i (if queue then some e else none) (.blocking false))
    | _, _ => none
  | .append i => match s.proc i with
    | .enqueue e => some { s.set i .idle with files := s.files.append [e] }
    | _ => none
  | .event i => match s.booted, s.proc i with
    | true, .idle => some (s.pastGate i none (.watcher false))
    | _, _ => none
  | .drain i => match s.booted, s.proc i with
    | true, .idle => some (s.set i (.drain .fresh false))
    | _, _ => none
  | .pass i a => match s.proc i with
    | .drain p spawned =>
        if a.fits spawned then
          (p.next s.env s.files a).map fun fp => { s.set i (.drain fp.2 false) with
            files := fp.1, mining := if s.mining = some i then none else s.mining }
        else none
    | _ => none
  | .spawn i => match s.mining, (s.proc i).spawn with
    | none, some p => some { s.set i p with mining := some i }
    | _, _ => none
  | .exits i => match s.proc i with
    | .blocking _ | .watcher _ => some { s.set i .idle with
        mining := if s.mining = some i then none else s.mining }
    | _ => none

end Host

/-- The files of a queue that was never used. -/
def Files.empty : Files := ⟨none, none, none, [], []⟩

/-- Benches, and a daemon that has yet to start. -/
def hostSystem : StepSystem Host HostLabel where
  init s := Bench.lockSystem.init s.bench ∧ s.booted = false ∧ s.files = .empty ∧
    s.mining = none ∧ s.proc = fun _ => .idle
  next := Host.next

/-! ### What the pause keeps -/

/-- The lines that the place of the pass holds. -/
def Pc.lines : Pc → List Entry
  | .recoverOpen lines => lines
  | .recoverAppend lines => lines
  | .writeOpen lines => lines
  | .writeLines lines => lines
  | .mergeRemove lines => lines
  | .rebalance lines => lines
  | _ => []

/-- The queue has no lines. -/
structure Files.NoLines (f : Files) : Prop where
  live : f.live.getD [] = []
  merge : f.merge.getD [] = []
  processing : f.processing.getD [] = []

/-- The pass has no entry to replay or to hand back. -/
structure Pass.CarriesNothing (p : Pass) : Prop where
  owned : p.owned = []
  deferred : p.deferred = []
  requeue : p.requeue = []
  lines : p.pc.lines = []
  replaying : ∀ job, p.pc ≠ .replaying job

/-- The coroutine has nothing left to spawn. -/
def Proc.Quiet : Proc → Prop
  | .idle => True
  | .enqueue _ => False
  | .blocking spawned => spawned = true
  | .watcher spawned => spawned = true
  | .drain p _ => p.CarriesNothing

/-- Nothing that was admitted is outstanding. -/
structure Host.Quiet (s : Host) : Prop where
  files : s.files.NoLines
  procs : ∀ i, (s.proc i).Quiet

/-- The lock becomes active only when nothing is outstanding, and a daemon that starts during a
pause finds no lines in the queue. -/
def PausesQuietly (s : Host) : HostLabel → Prop
  | .bench l => ∀ b, s.bench.next l = some b → b.lock.benchLockActive = true →
      s.bench.lock.benchLockActive = true ∨ s.Quiet
  | .boot files => s.paused = true → files.NoLines
  | _ => True

variable {env : Env} {f f' : Files} {p p' : Pass} {c : List Entry}

lemma splitClaim_nil (budget : ℕ) : splitClaim budget [] = ([], []) := by
  simp [splitClaim, PrioritySplit.split, PrioritySplit.order]

lemma carriesNothing_fresh : Pass.fresh.CarriesNothing := ⟨rfl, rfl, rfl, rfl, nofun⟩

lemma Pass.CarriesNothing.goes (hp : p.CarriesNothing) {pc : Pc} (hlines : pc.lines = [])
    (hreplaying : ∀ job, pc ≠ .replaying job) : { p with pc := pc }.CarriesNothing :=
  ⟨hp.owned, hp.deferred, hp.requeue, hlines, hreplaying⟩

lemma Files.NoLines.append (hf : f.NoLines) {lines : List Entry} (hlines : lines = []) :
    (f.append lines).NoLines where
  live := by rw [append_live, Option.getD_some, hf.live, hlines, List.append_nil]
  merge := hf.merge
  processing := hf.processing

/-- A pass on a queue without lines, that carries nothing, replays nothing. -/
lemma carriesNothing_of_moves (hf : f.NoLines) (hp : p.CarriesNothing)
    (h : Moves env f p c f' p') : f'.NoLines ∧ p'.CarriesNothing := by
  have hlines := hp.lines
  cases h with
  | recoverNone => exact ⟨hf, hp.goes rfl nofun⟩
  | recoverSome _ hsome =>
      have hnil := hf.processing
      rw [hsome] at hnil
      exact ⟨hf, hp.goes hnil nofun⟩
  | recoverOpen hpc =>
      rw [hpc] at hlines
      exact ⟨hf.append rfl, hp.goes hlines nofun⟩
  | recoverAppend hpc =>
      rw [hpc] at hlines
      exact ⟨hf.append hlines, hp.goes rfl nofun⟩
  | recoverRemove => exact ⟨⟨hf.live, hf.merge, rfl⟩, hp.goes rfl nofun⟩
  | claimNone => exact ⟨hf, hp.goes rfl nofun⟩
  | claim _ hlive =>
      have hnil := hf.live
      rw [hlive] at hnil
      exact ⟨⟨rfl, hf.merge, hnil⟩, hp.goes rfl nofun⟩
  | loadNone => exact ⟨hf, hp.goes rfl nofun⟩
  | loadAll _ hproc hsplit =>
      have hnil := hf.processing
      rw [hproc] at hnil
      obtain rfl : _ = [] := hnil
      obtain ⟨rfl, -⟩ := Prod.mk.inj (hsplit.symm.trans (splitClaim_nil _))
      exact ⟨hf, ⟨rfl, rfl, hp.requeue, rfl, nofun⟩⟩
  | loadSome _ hproc hsplit hdeferred =>
      have hnil := hf.processing
      rw [hproc] at hnil
      obtain rfl : _ = [] := hnil
      obtain ⟨-, rfl⟩ := Prod.mk.inj (hsplit.symm.trans (splitClaim_nil _))
      exact absurd rfl hdeferred
  | writeOpen hpc =>
      rw [hpc] at hlines
      exact ⟨⟨hf.live, hf.merge, rfl⟩, hp.goes hlines nofun⟩
  | writeLines hpc =>
      rw [hpc] at hlines
      exact ⟨⟨hf.live, hf.merge, hlines⟩, hp.goes rfl nofun⟩
  | writeCancelled hpc =>
      rw [hpc] at hlines
      exact ⟨⟨hf.live, hf.merge, hlines⟩, hp.goes rfl nofun⟩
  | loopEnd => exact ⟨hf, hp.goes rfl nofun⟩
  | hold _ howned => exact absurd (howned.symm.trans hp.owned) (List.cons_ne_nil _ _)
  | reject _ howned => exact absurd (howned.symm.trans hp.owned) (List.cons_ne_nil _ _)
  | spawn _ howned => exact absurd (howned.symm.trans hp.owned) (List.cons_ne_nil _ _)
  | budgetSpent =>
      refine ⟨hf, ⟨rfl, ?_, hp.requeue, ?_, nofun⟩⟩
      · show p.deferred ++ p.owned = []
        rw [hp.owned, hp.deferred, List.append_nil]
      · show (p.owned ++ p.deferred).map Item.line = []
        rw [hp.owned, hp.deferred, List.append_nil, List.map_nil]
  | noArrivals => exact ⟨hf, hp.goes rfl nofun⟩
  | arrivals _ _ hlive =>
      have hnil := hf.live
      rw [hlive] at hnil
      exact ⟨⟨rfl, hnil, hf.processing⟩, hp.goes rfl nofun⟩
  | mergeRead => exact ⟨hf, hp.goes hf.merge nofun⟩
  | mergeRemove hpc =>
      rw [hpc] at hlines
      exact ⟨⟨hf.live, rfl, hf.processing⟩, hp.goes hlines nofun⟩
  | rebalance hpc hsplit =>
      rw [hpc] at hlines
      obtain rfl : _ = [] := hlines
      rw [hp.owned] at hsplit
      obtain ⟨rfl, rfl⟩ := Prod.mk.inj (hsplit.symm.trans (splitClaim_nil _))
      refine ⟨hf, ⟨rfl, ?_, hp.requeue, ?_, nofun⟩⟩
      · show p.deferred ++ [] = []
        rw [hp.deferred, List.append_nil]
      · show ([] ++ p.deferred ++ []).map Item.line = []
        rw [hp.deferred]
        rfl
  | deferNone => exact ⟨hf, hp.goes rfl nofun⟩
  | deferOpen _ hdeferred => exact absurd hp.deferred hdeferred
  | deferWrite =>
      refine ⟨hf.append ?_, hp.goes rfl nofun⟩
      rw [hp.deferred, List.map_nil]
  | failNone => exact ⟨hf, hp.goes rfl nofun⟩
  | failOpen => exact ⟨⟨hf.live, hf.merge, hf.processing⟩, hp.goes rfl nofun⟩
  | failWrite => exact ⟨⟨hf.live, hf.merge, hf.processing⟩, hp.goes rfl nofun⟩
  | requeueNone => exact ⟨hf, hp.goes rfl nofun⟩
  | requeueOpen _ hrequeue => exact absurd hp.requeue hrequeue
  | requeueWrite =>
      refine ⟨hf.append ?_, hp.goes rfl nofun⟩
      rw [hp.requeue, List.map_nil]
  | remove => exact ⟨⟨hf.live, hf.merge, rfl⟩, hp.goes rfl nofun⟩
  | mined hpc => exact absurd hpc (hp.replaying _)
  | minedWitness hpc => exact absurd hpc (hp.replaying _)
  | lockHeld hpc => exact absurd hpc (hp.replaying _)
  | mineFailed hpc => exact absurd hpc (hp.replaying _)
  | wake => exact ⟨hf, hp.goes rfl nofun⟩
  | cancelReplay hpc => exact absurd hpc (hp.replaying _)
  | cancelDelay => exact ⟨hf, ⟨hp.owned, hp.deferred, hp.requeue, rfl, nofun⟩⟩

/-! ### Runs -/

variable {s s' : Host} {i : ℕ}

lemma Host.Quiet.set (h : s.Quiet) {q : Proc} (hq : q.Quiet) : (s.set i q).Quiet where
  files := h.files
  procs j := by
    show (Function.update s.proc i q j).Quiet
    rw [Function.update_apply]
    split_ifs
    · exact hq
    · exact h.procs j

lemma spawn_eq_none {q : Proc} (hq : q.Quiet) : q.spawn = none := by
  cases q with
  | idle => rfl
  | enqueue e => exact absurd hq id
  | blocking spawned => rw [show spawned = true from hq]; rfl
  | watcher spawned => rw [show spawned = true from hq]; rfl
  | drain p spawned =>
      cases spawned with
      | true => rfl
      | false =>
          rw [Proc.spawn]
          cases hpc : p.pc with
          | replaying job => exact absurd hpc (hq.replaying job)
          | _ => rfl

lemma next_spawn_of_quiet (h : s.Quiet) : s.next (.spawn i) = none := by
  have hspawn := spawn_eq_none (h.procs i)
  simp only [Host.next, hspawn]
  split
  · rename_i hsome
    cases hsome
  · rfl

lemma pastGate_of_paused (hpaused : s.paused = true) (queue : Option Entry) (mine : Proc) :
    s.pastGate i queue mine = s := by
  simp only [Host.pastGate]
  rw [if_pos hpaused]

lemma noLines_recoverOrphaned (hf : f.NoLines) : (recoverOrphaned f).NoLines := by
  rw [recoverOrphaned]
  cases hproc : f.processing with
  | none => exact hf
  | some lines =>
      have hnil := hf.processing
      rw [hproc] at hnil
      have happend := hf.append hnil
      exact ⟨happend.live, happend.merge, rfl⟩

/-- While mining is paused, nothing new is admitted. -/
lemma quiet_next (h : s.Quiet) (hpaused : s.paused = true) {l : HostLabel}
    (hok : PausesQuietly s l) (hnext : s.next l = some s') : s'.Quiet := by
  cases l with
  | bench l =>
      obtain ⟨bench, -, rfl⟩ := Option.map_eq_some_iff.1 hnext
      exact ⟨h.files, h.procs⟩
  | boot files =>
      simp only [Host.next] at hnext
      split_ifs at hnext
      obtain rfl := Option.some.inj hnext
      exact ⟨noLines_recoverOrphaned (hok hpaused), h.procs⟩
  | change env =>
      obtain rfl := Option.some.inj hnext
      exact ⟨h.files, h.procs⟩
  | post i e queue =>
      simp only [Host.next] at hnext
      split at hnext
      · rw [pastGate_of_paused hpaused] at hnext
        obtain rfl := Option.some.inj hnext
        exact h
      · cases hnext
  | append i =>
      simp only [Host.next] at hnext
      split at hnext
      · rename_i e hproc
        have hquiet := h.procs i
        rw [hproc] at hquiet
        exact absurd hquiet id
      · cases hnext
  | event i =>
      simp only [Host.next] at hnext
      split at hnext
      · rw [pastGate_of_paused hpaused] at hnext
        obtain rfl := Option.some.inj hnext
        exact h
      · cases hnext
  | drain i =>
      simp only [Host.next] at hnext
      split at hnext
      · obtain rfl := Option.some.inj hnext
        exact h.set carriesNothing_fresh
      · cases hnext
  | pass i a =>
      simp only [Host.next] at hnext
      split at hnext
      · rename_i p spawned hproc
        rw [Option.ite_none_right_eq_some] at hnext
        obtain ⟨⟨f, p'⟩, hpass, rfl⟩ := Option.map_eq_some_iff.1 hnext.2
        have hquiet := h.procs i
        rw [hproc] at hquiet
        obtain ⟨hf, hp⟩ := carriesNothing_of_moves h.files hquiet (moves_of_next hpass)
        have hset := h.set (i := i) (q := .drain p' false) hp
        exact ⟨hf, hset.procs⟩
      · cases hnext
  | spawn i =>
      rw [next_spawn_of_quiet h] at hnext
      cases hnext
  | exits i =>
      simp only [Host.next] at hnext
      split at hnext
      · obtain rfl := Option.some.inj hnext
        have hset := h.set (i := i) (q := .idle) trivial
        exact ⟨hset.files, hset.procs⟩
      · obtain rfl := Option.some.inj hnext
        have hset := h.set (i := i) (q := .idle) trivial
        exact ⟨hset.files, hset.procs⟩
      · cases hnext

lemma pastGate_frame (queue : Option Entry) (mine : Proc) :
    (s.pastGate i queue mine).bench = s.bench ∧
      (s.pastGate i queue mine).disableAutomine = s.disableAutomine := by
  simp only [Host.pastGate]
  by_cases hpaused : s.paused = true
  · rw [if_pos hpaused]
    exact ⟨rfl, rfl⟩
  · rw [if_neg hpaused]
    cases queue with
    | some e => exact ⟨rfl, rfl⟩
    | none =>
        show (ite _ _ _ : Host).bench = _ ∧ (ite _ _ _ : Host).disableAutomine = _
        split_ifs <;> exact ⟨rfl, rfl⟩

/-- The variable does not change, and the benches only move by themselves. -/
lemma next_frame {l : HostLabel} (hnext : s.next l = some s') :
    s'.disableAutomine = s.disableAutomine ∧
      (s'.bench = s.bench ∨ ∃ b, l = .bench b ∧ s.bench.next b = some s'.bench) := by
  cases l with
  | bench l =>
      obtain ⟨bench, hbench, rfl⟩ := Option.map_eq_some_iff.1 hnext
      exact ⟨rfl, .inr ⟨l, rfl, hbench⟩⟩
  | post i e queue | event i =>
      simp only [Host.next] at hnext
      split at hnext
      · obtain rfl := Option.some.inj hnext
        exact ⟨(pastGate_frame _ _).2, .inl (pastGate_frame _ _).1⟩
      · cases hnext
  | pass i a =>
      simp only [Host.next] at hnext
      split at hnext
      · rw [Option.ite_none_right_eq_some] at hnext
        obtain ⟨fp, -, rfl⟩ := Option.map_eq_some_iff.1 hnext.2
        exact ⟨rfl, .inl rfl⟩
      · cases hnext
  | boot files =>
      simp only [Host.next] at hnext
      split_ifs at hnext
      obtain rfl := Option.some.inj hnext
      exact ⟨rfl, .inl rfl⟩
  | change env =>
      obtain rfl := Option.some.inj hnext
      exact ⟨rfl, .inl rfl⟩
  | append i | drain i | spawn i | exits i =>
      simp only [Host.next] at hnext
      split at hnext <;> cases hnext <;> exact ⟨rfl, .inl rfl⟩

/-- Nothing is outstanding at a pause. -/
def Host.QuietAtPause (s : Host) : Prop := s.paused = true → s.Quiet

lemma quietAtPause_of_reachedBy (h : hostSystem.ReachedBy PausesQuietly s) : s.QuietAtPause := by
  refine h.invariant (fun s hinit _ => ?_) (fun s l s' ih hok hnext hpaused => ?_)
  · obtain ⟨-, -, hfiles, -, hproc⟩ := hinit
    refine ⟨by rw [hfiles]; exact ⟨rfl, rfl, rfl⟩, fun i => ?_⟩
    rw [hproc]
    trivial
  · by_cases hbefore : s.paused = true
    · exact quiet_next (ih hbefore) hbefore hok hnext
    · -- the pause begins, so it is the lock that becomes active
      obtain ⟨hvalue, hsame | ⟨b, rfl, hb⟩⟩ := next_frame hnext
      · rw [Host.paused, hvalue, hsame] at hpaused
        exact absurd hpaused hbefore
      · rw [Host.paused, Bool.or_eq_true, not_or] at hbefore
        rw [Host.paused, hvalue, Bool.or_eq_true] at hpaused
        obtain hactive | hquiet := hok _ hb (hpaused.resolve_left hbefore.1)
        · exact absurd hactive hbefore.2
        · obtain ⟨bench, -, rfl⟩ := Option.map_eq_some_iff.1 hnext
          exact ⟨hquiet.files, hquiet.procs⟩

/-- **Mining pause gate.**  While the lock becomes active only when nothing that was admitted is
outstanding, no mine is spawned while mining is paused. -/
theorem spawn_not_paused (h : hostSystem.ReachedBy PausesQuietly s)
    (hspawn : s.next (.spawn i) = some s') : s.paused = false := by
  by_contra hpaused
  have hquiet := quietAtPause_of_reachedBy h (by simpa using hpaused)
  rw [next_spawn_of_quiet hquiet] at hspawn
  cases hspawn

/-- The host before the daemon has started. -/
def Host.fresh : Host := ⟨.fresh, "", false, .plain, .empty, none, fun _ => .idle⟩

lemma init_hostFresh : hostSystem.init Host.fresh := ⟨Bench.init_fresh, rfl, rfl, rfl, rfl⟩

/-- While nothing is outstanding, the benches may do what they want. -/
lemma meets_bench (h : s.Quiet) (bs : List Bench.Label) {ls : List HostLabel}
    (hrest : ∀ s' : Host, hostSystem.Meets PausesQuietly s' ls) :
    hostSystem.Meets PausesQuietly s (bs.map .bench ++ ls) := by
  induction bs generalizing s with
  | nil => exact hrest s
  | cons b bs ih =>
      refine ⟨fun _ _ _ => .inr h, fun s' hs' => ih ?_⟩
      obtain ⟨bench, -, rfl⟩ := Option.map_eq_some_iff.1 hs'
      exact ⟨h.files, h.procs⟩

/-- A bench acquires the lock and releases it. -/
def benchRuns : List Bench.Label :=
  Bench.Label.acquire 0 7 :: List.replicate 7 (.step 0) ++
    Bench.Label.release 0 7 :: List.replicate 8 (.step 0)

/-- The daemon starts, a bench runs, and a mine is posted. -/
def mineAfterBench : List HostLabel :=
  .boot .empty :: (benchRuns.map .bench ++ [.post 0 (.ofDir "/a") false])

/-- A blocking mine after a bench has held and released the lock. -/
theorem spawn_not_paused_afterBench : ∃ s s', hostSystem.ReachedBy PausesQuietly s ∧
    s.bench.made = 1 ∧ s.bench.bench 0 = .released ∧ s.next (.spawn 0) = some s' ∧
    s.paused = false := by
  obtain ⟨s, hs, hend⟩ := hostSystem.exists_of_exec_any Host.fresh mineAfterBench
    (fun s => decide (s.bench.made = 1 ∧ s.bench.bench 0 = .released ∧
      (s.next (.spawn 0)).isSome)) (by decide)
  obtain ⟨hmade, hreleased, hsome⟩ := of_decide_eq_true hend
  obtain ⟨s', hspawn⟩ := Option.isSome_iff_exists.1 hsome
  have hmeets : hostSystem.Meets PausesQuietly Host.fresh mineAfterBench := by
    refine ⟨fun _ => ⟨rfl, rfl, rfl⟩, fun t ht => meets_bench ?_ benchRuns fun _ => ⟨trivial, ?_⟩⟩
    · obtain rfl := Option.some.inj ht
      exact ⟨⟨rfl, rfl, rfl⟩, fun _ => trivial⟩
    · exact fun _ _ => trivial
  have hreached := (StepSystem.ReachedBy.init init_hostFresh).exec hmeets hs
  exact ⟨s, s', hreached, hmade, hreleased, hspawn, spawn_not_paused hreached hspawn⟩

/-- A mine is queued, a bench acquires the lock, and the drain spawns the mine. -/
def queuedBeforeBench : List HostLabel :=
  [HostLabel.boot .empty, .post 0 (.ofDir "/a") true, .append 0] ++
    (Bench.Label.acquire 0 7 :: List.replicate 7 (.step 0)).map HostLabel.bench ++
    HostLabel.drain 1 :: List.replicate 4 (.pass 1 .run)

theorem spawn_not_paused_fails : ∃ s s', hostSystem.Reachable s ∧
    s.next (.spawn 1) = some s' ∧ s.paused = true := by
  obtain ⟨s, hs, hend⟩ := hostSystem.exists_of_exec_any Host.fresh queuedBeforeBench
    (fun s => (s.next (.spawn 1)).isSome && s.paused) (by decide)
  rw [Bool.and_eq_true] at hend
  obtain ⟨s', hspawn⟩ := Option.isSome_iff_exists.1 hend.1
  exact ⟨s, s', StepSystem.Reachable.exec (.init init_hostFresh) hs, hspawn, hend.2⟩

end PalaceDaemon.Mines

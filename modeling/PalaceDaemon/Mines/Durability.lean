/-
Stopping a drain pass.

The process may be killed between any two file operations of a pass, and the task of a pass may
be cancelled where it waits.  All that a later pass finds of the stopped one is the files, and
`_recover_orphaned_processing` reads `.processing` and nothing else.  So an entry survives the
stop when it is still in the live file, when it was settled before (mined, skipped, written to
a quarantine file, or handed back), or when its line is in `.processing`.

`.processing` is meant to describe what the pass still owes, and where it is not being rewritten
it has the entries still to be mined, the one being mined and the deferred ones
(`written_moves`).  There are four things that it may lack: the arrivals that a boundary has
renamed to `.merge` and not yet written, whatever is about to be written while the file is
truncated, the entries in `requeue_lines` and `failed_lines`, and the entry of a cancelled mine,
without which the boundary in the `finally` rewrites the file.  A stop at a point where it has
these too loses nothing (`durable_of_guarded`).

A request is accounted for by what became of its directory, wing and mode after it was queued:
`Daemon` counts the entries that the pass has taken, and what was taken before a request came
does not stand for it.
-/
import PalaceDaemon.Mines.Conservation

namespace PalaceDaemon.Mines

/-- `_recover_orphaned_processing`, run to its end. -/
def recoverOrphaned (f : Files) : Files :=
  match f.processing with
  | none => f
  | some lines => { f.append lines with processing := none }

/-! ### The daemon, stopped and started -/

/-- What became of an entry that the pass took. -/
inductive Ruling
  | mined (job : Job)
  | rejected (rule : Rejection)
  | requeued
  | failed

/-- The ruling on the entry that was taken last, when a move to `p'` gives it. -/
def Pass.rulings (p p' : Pass) : List (Item × Ruling) :=
  (p'.mined.drop p.mined.length).map (fun m => (m.1, .mined m.2)) ++
    (p'.skipped.drop p.skipped.length).map (fun r => (r.1, .rejected r.2)) ++
    (p'.requeue.drop p.requeue.length).map (fun it => (it, .requeued)) ++
    (p'.failed.drop p.failed.length).map (fun it => (it, .failed))

/-- A run of a pass, and whether the process was stopped.  After the stop the files are the
ones the recovery of the next start leaves, and the lists of the pass are history. -/
structure Daemon where
  run : Run
  /-- The requests that were queued, each with the number of entries the pass had taken. -/
  requests : List (Entry × ℕ)
  /-- The entries that the pass took, in order, with what became of them. -/
  rulings : List (Item × Ruling)
  stopped : Bool

/-- What can happen to the daemon. -/
inductive DaemonLabel
  | go (l : Label)
  /-- The process is stopped, and the next start recovers. -/
  | stop

/-- The request that is queued. -/
def Label.queued : Label → List Entry
  | .post e => [e]
  | _ => []

/-- One pass, stopped anywhere. -/
def daemonSystem : StepSystem Daemon DaemonLabel where
  init s := passSystem.init s.run ∧ s.requests = s.run.posted.map (fun e => (e, 0)) ∧
    s.rulings = [] ∧ s.stopped = false
  next s
    | .go l =>
        if s.stopped then none
        else (passSystem.next s.run l).map fun r => {
          run := r
          requests := s.requests ++ l.queued.map fun e => (e, s.run.pass.consumed)
          rulings := s.rulings ++ s.run.pass.rulings r.pass
          stopped := false }
    | .stop =>
        if s.stopped then none
        else some { s with
          run := { s.run with files := recoverOrphaned s.run.files }, stopped := true }

/-- The lines of the quarantine files. -/
def Files.failedLines (f : Files) : List Entry := f.failed.flatMap Prod.snd

/-- The entry was mined or rejected, or it is in a quarantine file. -/
def Ruling.Settles (f : Files) (it : Item) : Ruling → Prop
  | .mined _ | .rejected _ => True
  | .requeued => False
  | .failed => it.line ∈ f.failedLines

/-- A request is in the live file, or an entry that the pass took after the request was queued
has settled it; another line for the same directory, wing and mode may stand for it. -/
def Daemon.Accounted (s : Daemon) (r : Entry × ℕ) : Prop :=
  dedupKey r.1 ∈ (s.run.files.live.getD []).map dedupKey ∨
    ∃ x ∈ s.rulings.drop r.2, x.1.key = dedupKey r.1 ∧ x.2.Settles s.run.files x.1

/-- The entries that the pass has neither settled nor handed back. -/
def Pass.owes (p : Pass) : List Item :=
  p.owned ++ p.current.toList ++ (if p.pc.deferralsWritten then [] else p.deferred) ++
    (if p.pc.failuresWritten then [] else p.failed) ++
    (if p.pc.requeuesWritten then [] else p.requeue)

/-- `.processing` has what else would be only in memory or in `.merge`. -/
structure Pass.Guarded (f : Files) (p : Pass) : Prop where
  /-- The arrivals that a boundary has renamed away from the live file. -/
  arrivals : ∀ l ∈ p.waiting f, l ∈ f.processing.getD []
  /-- What is about to be written, while the file is being rewritten. -/
  rewrite : ∀ lines, p.pc = .writeOpen lines ∨ p.pc = .writeLines lines →
    ∀ l ∈ lines, l ∈ f.processing.getD []
  /-- `failed_lines`, until the quarantine file is written. -/
  failed : p.pc.failuresWritten = false → ∀ it ∈ p.failed, it.line ∈ f.processing.getD []
  /-- `requeue_lines`, until they are appended to the queue. -/
  requeue : p.pc.requeuesWritten = false → ∀ it ∈ p.requeue, it.line ∈ f.processing.getD []
  /-- The entry whose mine was cancelled. -/
  cancelled : p.cancelling → ∀ it ∈ p.current, it.line ∈ f.processing.getD []

/-! ### What the recovery keeps -/

lemma mem_live_recoverOrphaned {f : Files} {l : Entry}
    (h : l ∈ f.live.getD [] ∨ l ∈ f.processing.getD []) :
    l ∈ (recoverOrphaned f).live.getD [] := by
  unfold recoverOrphaned
  cases hproc : f.processing with
  | none => simpa [hproc] using h
  | some lines => simpa [hproc] using h

@[simp] lemma recoverOrphaned_failed (f : Files) : (recoverOrphaned f).failed = f.failed := by
  unfold recoverOrphaned
  split <;> rfl

/-- While the recovery of a pass runs, the orphans are still in `.processing`. -/
def Pass.Recovering (f : Files) (p : Pass) : Prop :=
  ∀ l ∈ p.orphans f, l ∈ f.processing.getD []

lemma recovering_moves {env : Env} {f f' : Files} {p p' : Pass} {c : List Entry}
    (hm : Moves env f p c f' p') (h : p.Recovering f) : p'.Recovering f' := by
  unfold Pass.Recovering at h ⊢
  cases hm <;> simp_all [Pass.orphans]

/-! ### The claim on disk -/

/-- The places of the replay loop at which `.processing` is not being rewritten. -/
def Pc.quiet : Pc → Bool
  | .loop | .replaying _ | .boundary | .mergeRead | .mergeRemove _ | .rebalance _ | .deferOpen
  | .deferWrite => true
  | _ => false

/-- `.processing` has the lines of the entries the pass holds, wherever it is not being
rewritten. -/
structure Pass.Written (f : Files) (p : Pass) : Prop where
  quiet : p.pc.quiet → ∀ it ∈ p.owned ++ p.current.toList ++ p.deferred,
    it.line ∈ f.processing.getD []
  writing : ∀ lines, p.pc = .writeOpen lines ∨ p.pc = .writeLines lines →
    ∀ it ∈ p.owned ++ p.deferred, it.line ∈ lines
  cancelled : p.pc = .cancelledInReplay →
    ∀ it ∈ p.owned ++ p.deferred, it.line ∈ f.processing.getD []

lemma written_fresh (f : Files) : Pass.fresh.Written f where
  quiet h := by simp [Pass.fresh, Pc.quiet] at h
  writing lines h := by simp [Pass.fresh] at h
  cancelled h := by simp [Pass.fresh] at h

section moves

variable {env : Env} {f f' : Files} {p p' : Pass} {c : List Entry}

/-- The entries of a fresh claim are lines of `.processing`. -/
lemma line_mem_of_split {budget : ℕ} {lines : List Entry} {batch deferred : List Item}
    (hsplit : splitClaim budget (dedup lines) = (batch, deferred)) {it : Item}
    (hit : it ∈ batch ++ deferred) : it.line ∈ lines := by
  exact mem_of_mem_dedup ((split_perm hsplit).mem_iff.1 hit)

lemma written_moves (hm : Moves env f p c f' p') (hs : p.Shape f) (h : p.Written f) :
    p'.Written f' := by
  obtain ⟨hquiet, hwriting, hcancelled⟩ := h
  have hcurrent := hs.current
  cases hm
  case loadAll lines batch hpc hproc hsplit =>
    refine ⟨fun _ it hit => ?_, by simp, by simp⟩
    have hnone := (hs.early (by rw [hpc]; rfl)).2.2.1
    have hmem : it ∈ batch ++ [] := by simpa [hnone] using hit
    simpa [hproc] using line_mem_of_split hsplit hmem
  case loadSome lines batch deferred hpc hproc hsplit hne =>
    refine ⟨by simp [Pc.quiet], fun ls hls it hit => ?_, by simp⟩
    obtain rfl : (batch ++ deferred).map Item.line = ls := by simpa using hls
    exact List.mem_map.2 ⟨it, hit, rfl⟩
  case writeOpen lines hpc =>
    refine ⟨by simp [Pc.quiet], fun ls hls => ?_, by simp⟩
    obtain rfl : lines = ls := by simpa using hls
    exact hwriting lines (.inl hpc)
  case writeLines lines hpc hcan =>
    refine ⟨fun _ it hit => hwriting lines (.inr hpc) it ?_, by simp, by simp⟩
    have hnone : p.current = none := by simp_all
    simpa [hnone] using hit
  case writeCancelled lines hpc hcan =>
    exact ⟨by simp [Pc.quiet], by simp, fun _ => hwriting lines (.inr hpc)⟩
  case budgetSpent hpc hle =>
    refine ⟨by simp [Pc.quiet], fun ls hls it hit => ?_, by simp⟩
    obtain rfl : (p.owned ++ p.deferred).map Item.line = ls := by simpa using hls
    refine List.mem_map.2 ⟨it, ?_, rfl⟩
    simpa [or_comm] using hit
  case rebalance as keep displaced hpc hrebalance =>
    refine ⟨by simp [Pc.quiet], fun ls hls it hit => ?_, by simp⟩
    obtain rfl : (keep ++ p.deferred ++ displaced).map Item.line = ls := by simpa using hls
    refine List.mem_map.2 ⟨it, ?_, rfl⟩
    simpa [or_assoc] using hit
  case spawn it owned job hpc howned hgate =>
    refine ⟨fun _ it' hit => hquiet (by rw [hpc]; rfl) it' ?_, by simp, by simp⟩
    simp only [howned, Option.toList_some, List.mem_append, List.mem_cons, List.not_mem_nil,
      or_false] at hit ⊢
    rcases hit with (hit | hit) | hit <;> simp [hit]
  -- the entry whose mine has ended is no longer among them
  case mined | minedWitness | lockHeld | mineFailed =>
    refine ⟨fun _ it hit => hquiet (by simp_all [Pc.quiet]) it ?_, by simp, by simp⟩
    simp only [Option.toList_none, List.append_nil, List.mem_append] at hit ⊢
    exact hit.imp_left .inl
  -- everywhere else `.processing` says nothing, or neither it nor the entries have changed
  all_goals
    first
      | (constructor <;> simp [Pc.quiet]; done)
      | (constructor <;> simp_all [Pc.quiet])

/-- `.processing` has all it should while nothing is in memory yet, while the pass waits or is
between two entries with no arrivals and nothing requeued or failed, and once everything was
handed back. -/
lemma guarded_of_place (hs : p.Shape f) (h : p.Written f)
    (hpc : p.pc.early ∨ ((p.pc.quiet ∨ p.pc.loopEnded) ∧ p.waiting f = [] ∧ p.requeue = [] ∧
      p.failed = []) ∨ p.pc.requeuesWritten) : p.Guarded f := by
  have hcan := hs.cancelling
  rcases hpc with hearly | ⟨hplace, hwaiting, hrequeue, hfailed⟩ | hwritten
  · obtain ⟨-, -, -, hrequeue, hfailed, -, -⟩ := hs.early hearly
    refine ⟨fun l hl => ?_, ?_, by simp [hfailed], by simp [hrequeue], fun hcancelling => ?_⟩
    · cases hpc : p.pc <;> simp_all [Pass.waiting, Pc.early]
    · rintro lines (hpc | hpc) <;> simp [hpc, Pc.early] at hearly
    · have hfinally := hcan hcancelling
      cases hpc : p.pc <;> simp_all [Pc.early, Pc.finally]
  · refine ⟨by simp [hwaiting], ?_, by simp [hfailed], by simp [hrequeue], fun hcancelling => ?_⟩
    · rintro lines (hpc | hpc) <;> simp [hpc, Pc.quiet, Pc.loopEnded] at hplace
    · -- the entry of the cancelled mine is on disk until the boundary rewrites the file
      intro it hit
      rcases hplace with hquiet | hended
      · exact h.quiet hquiet it (by simp [Option.mem_def.1 hit])
      · have hcurrent := hs.current
        have hfinally := hcan hcancelling
        cases hpc : p.pc <;> simp_all [Pc.loopEnded, Pc.finally]
  · refine ⟨fun l hl => ?_, ?_, fun hnot => ?_, fun hnot => ?_, fun hcancelling => ?_⟩
    · cases hpc : p.pc <;> simp_all [Pass.waiting, Pc.requeuesWritten]
    · rintro lines (hpc | hpc) <;> simp [hpc, Pc.requeuesWritten] at hwritten
    · cases hpc : p.pc <;> simp_all [Pc.failuresWritten, Pc.requeuesWritten]
    · rw [hwritten] at hnot
      cases hnot
    · have hcurrent := hs.current
      have hfinally := hcan hcancelling
      cases hpc : p.pc <;> simp_all [Pc.finally, Pc.requeuesWritten]

/-- A running mine, or one that was cancelled. -/
lemma cancelling_of_current (hs : p.Shape f) (hquiet : p.pc.quiet = false) {it : Item}
    (hit : p.current = some it) : p.cancelling = true := by
  rcases hs.current with hnone | ⟨job, hpc⟩ | ⟨hcancelling, -⟩
  · rw [hit] at hnone
    cases hnone
  · rw [hpc] at hquiet
    cases hquiet
  · exact hcancelling

/-- What the pass owes is on disk at a guarded stop: the entries still to be mined, the one
being mined and the deferred ones wherever `.processing` is not being rewritten, the others by
the condition. -/
lemma owed_of_guarded (hs : p.Shape f) (h : p.Written f) (hguard : p.Guarded f) {it : Item}
    (hit : it ∈ p.owes) : it.line ∈ f.processing.getD [] := by
  have hclaim : it ∈ p.owned ∨ p.pc.deferralsWritten = false ∧ it ∈ p.deferred →
      it.line ∈ f.processing.getD [] := by
    intro hclaim
    have hmem : it ∈ p.owned ++ p.deferred := List.mem_append.2 (hclaim.imp_right And.right)
    by_cases hquiet : p.pc.quiet = true
    · exact h.quiet hquiet it (by simp only [List.mem_append] at hmem ⊢; tauto)
    by_cases hwriting : ∃ lines, p.pc = .writeOpen lines ∨ p.pc = .writeLines lines
    · obtain ⟨lines, hpc⟩ := hwriting
      exact hguard.rewrite lines hpc _ (h.writing lines hpc it hmem)
    by_cases hcancelled : p.pc = .cancelledInReplay
    · exact h.cancelled hcancelled it hmem
    -- elsewhere the pass has no such entry: it has not begun, or its loop has ended
    have hearly := hs.early
    have howned := hs.owned
    cases hpc : p.pc <;> simp_all [Pc.quiet, Pc.early, Pc.loopEnded, Pc.deferralsWritten]
  simp only [Pass.owes, List.mem_append, Option.mem_toList, List.mem_ite_nil_left,
    Bool.not_eq_true] at hit
  rcases hit with (((howned | hcurrent) | hdeferred) | hfailed) | hrequeue
  · exact hclaim (.inl howned)
  · cases hquiet : p.pc.quiet with
    | true => exact h.quiet hquiet it (by simp [hcurrent])
    | false => exact hguard.cancelled (cancelling_of_current hs hquiet hcurrent) it hcurrent
  · exact hclaim (.inr hdeferred)
  · exact hguard.failed hfailed.1 it hfailed.2
  · exact hguard.requeue hrequeue.1 it hrequeue.2

/-! ### What one move decides -/

/-- A line of this key is queued or claimed, or an entry of this key waits to be taken. -/
def Pass.Untaken (f : Files) (p : Pass) (k : DedupKey) : Prop :=
  k ∈ (f.live.getD [] ++ p.waiting f ++ p.orphans f).map dedupKey ∨
    k ∈ (p.owned ++ p.deferred).map Item.key

/-- A move that only takes lines and entries in. -/
lemma untaken_mono {k : DedupKey} (h : p.Untaken f k)
    (hlines : ∀ l ∈ f.live.getD [] ++ p.waiting f ++ p.orphans f,
      l ∈ f'.live.getD [] ++ p'.waiting f' ++ p'.orphans f')
    (hitems : ∀ it ∈ p.owned ++ p.deferred, it ∈ p'.owned ++ p'.deferred) : p'.Untaken f' k :=
  h.imp (fun h => List.map_subset _ hlines h) (fun h => List.map_subset _ hitems h)

/-- When the loop takes `it`, its key is the only one that may be taken. -/
lemma untaken_take {k : DedupKey} {it : Item} {owned : List Item} (h : p.Untaken f k)
    (hpc : p.pc = .loop) (howned : p.owned = it :: owned) :
    (k ∈ (f.live.getD [] ++ [] ++ []).map dedupKey ∨ k ∈ (owned ++ p.deferred).map Item.key) ∨
      it.key = k := by
  rw [Pass.Untaken, howned, List.cons_append, List.map_cons, List.mem_cons] at h
  simp only [Pass.waiting, Pass.orphans, hpc] at h
  tauto

/-- A key is taken by a move that takes an entry: it is being mined, or the move decides it. -/
lemma untaken_moves {k : DedupKey} (hm : Moves env f p c f' p') (hs : p.Shape f)
    (h : p.Untaken f k) :
    p'.Untaken f' k ∨ p.current = none ∧
      ((∃ it, p'.current = some it ∧ it.key = k) ∨ ∃ x ∈ p.rulings p', x.1.key = k) := by
  cases hm
  case loadAll lines batch hpc hproc hsplit =>
    have hempty := hs.early (by rw [hpc]; rfl)
    refine .inl ?_
    simp only [Pass.Untaken, Pass.waiting, Pass.orphans, hpc, hempty, hproc, Option.getD_some,
      List.append_nil, List.map_append, List.mem_append, List.map_nil, List.not_mem_nil,
      or_false, ← mem_keys_of_split hsplit] at h ⊢
    exact h
  case loadSome lines batch deferred hpc hproc hsplit hne =>
    have hempty := hs.early (by rw [hpc]; rfl)
    refine .inl ?_
    simp only [Pass.Untaken, Pass.waiting, Pass.orphans, hpc, hempty, hproc, Option.getD_some,
      List.append_nil, List.map_append, List.mem_append, List.map_nil, List.not_mem_nil,
      or_false, ← mem_keys_of_split hsplit] at h ⊢
    exact h
  case rebalance as keep displaced hpc hrebalance =>
    refine .inl ?_
    have hkeys := mem_keys_of_rebalance (k := k) hrebalance
    simp only [Pass.Untaken, Pass.waiting, Pass.orphans, hpc, List.append_nil, List.map_append,
      List.mem_append] at h hkeys ⊢
    tauto
  case hold it owned why hpc howned hgate =>
    refine (untaken_take h hpc howned).imp_right fun hkey => ⟨current_of_loop hs hpc, .inr ?_⟩
    exact ⟨(it, .requeued), by simp [Pass.rulings], hkey⟩
  case reject it owned rule hpc howned hgate =>
    refine (untaken_take h hpc howned).imp_right fun hkey => ⟨current_of_loop hs hpc, .inr ?_⟩
    exact ⟨(it, .rejected rule), by simp [Pass.rulings], hkey⟩
  case spawn it owned job hpc howned hgate =>
    refine (untaken_take h hpc howned).imp_right fun hkey => ?_
    exact ⟨current_of_loop hs hpc, .inl ⟨it, rfl, hkey⟩⟩
  case budgetSpent hpc hspent =>
    refine .inl (untaken_mono h (fun l => ?_) fun it => ?_)
    · simp [Pass.waiting, Pass.orphans, hpc]
    · simp only [List.nil_append, List.mem_append]
      exact Or.symm
  all_goals
    refine .inl (untaken_mono h (fun l => ?_) fun it hit => hit)
    clear h
    simp_all [Pass.waiting, Pass.orphans]

/-- The entry that is being mined stays, until its mine ends and the move decides it. -/
lemma current_moves (hm : Moves env f p c f' p') (hs : p.Shape f) {it : Item}
    (hit : p.current = some it) :
    p'.current = some it ∨ ∃ x ∈ p.rulings p', x.1.key = it.key := by
  cases hm
  case spawn hpc _ _ =>
    rw [current_of_loop hs hpc] at hit
    cases hit
  case mined job it' hpc hcur _ =>
    obtain rfl : it' = it := by simpa [hcur] using hit
    exact .inr ⟨(it', .mined job), by simp [Pass.rulings], rfl⟩
  case minedWitness job it' witness hpc hcur _ =>
    obtain rfl : it' = it := by simpa [hcur] using hit
    exact .inr ⟨(it', .mined job), by simp [Pass.rulings], rfl⟩
  case lockHeld job it' hpc hcur _ =>
    obtain rfl : it' = it := by simpa [hcur] using hit
    exact .inr ⟨({ it' with entry := it'.entry.setLockRetries (it'.entry.lockRetries + 1) },
      .requeued), by simp [Pass.rulings], rfl⟩
  case mineFailed job it' hpc hcur =>
    obtain rfl : it' = it := by simpa [hcur] using hit
    exact .inr ⟨(it', .failed), by simp [Pass.rulings], rfl⟩
  all_goals exact .inl hit

/-- Each entry that was taken is decided, but for the one being mined. -/
lemma consumed_moves {n : ℕ} (hm : Moves env f p c f' p') (hs : p.Shape f)
    (h : p.consumed = n + p.current.toList.length) :
    p'.consumed = n + (p.rulings p').length + p'.current.toList.length := by
  cases hm
  case hold hpc _ _ => simp [Pass.rulings, h, current_of_loop hs hpc]
  case reject hpc _ _ => simp [Pass.rulings, h, current_of_loop hs hpc]
  case spawn hpc _ _ => simp [Pass.rulings, h, current_of_loop hs hpc]
  all_goals simp_all [Pass.rulings]

lemma consumed_mono (hm : Moves env f p c f' p') : p.consumed ≤ p'.consumed := by
  cases hm <;> simp

/-- A pass that does not move decides nothing. -/
@[simp] lemma rulings_self (p : Pass) : p.rulings p = [] := by simp [Pass.rulings]

/-- A requeued entry is in `requeue_lines`, and a failed one in `failed_lines`. -/
def Ruling.Kept (p : Pass) (it : Item) : Ruling → Prop
  | .requeued => it ∈ p.requeue
  | .failed => it ∈ p.failed
  | .mined _ | .rejected _ => True

lemma kept_of_mem_rulings {x : Item × Ruling} (hx : x ∈ p.rulings p') : x.2.Kept p' x.1 := by
  simp only [Pass.rulings, List.mem_append, List.mem_map] at hx
  rcases hx with ((⟨m, -, rfl⟩ | ⟨r, -, rfl⟩) | ⟨it, hit, rfl⟩) | ⟨it, hit, rfl⟩
  · trivial
  · trivial
  · exact List.mem_of_mem_drop hit
  · exact List.mem_of_mem_drop hit

lemma kept_moves (hm : Moves env f p c f' p') {x : Item × Ruling} (h : x.2.Kept p x.1) :
    x.2.Kept p' x.1 := by
  have hlists : p.requeue ⊆ p'.requeue ∧ p.failed ⊆ p'.failed := by cases hm <;> simp
  obtain ⟨it, ruling⟩ := x
  cases ruling with
  | requeued => exact hlists.1 h
  | failed => exact hlists.2 h
  | mined | rejected => trivial

end moves

/-! ### Runs -/

/-- What the requests of a running daemon can rely on. -/
structure Daemon.Running (s : Daemon) : Prop where
  tracked : s.run.Tracked
  recovering : s.run.pass.Recovering s.run.files
  written : s.run.pass.Written s.run.files
  taken : s.run.pass.consumed = s.rulings.length + s.run.pass.current.toList.length
  kept : ∀ x ∈ s.rulings, x.2.Kept s.run.pass x.1
  since : ∀ r ∈ s.requests, r.2 ≤ s.run.pass.consumed
  /-- A request waits to be taken; or it came before an entry was taken that is being mined, or
  that was decided. -/
  held : ∀ r ∈ s.requests, s.run.pass.Untaken s.run.files (dedupKey r.1) ∨
    (r.2 ≤ s.rulings.length ∧ ∃ it, s.run.pass.current = some it ∧ it.key = dedupKey r.1) ∨
    ∃ x ∈ s.rulings.drop r.2, x.1.key = dedupKey r.1

/-- What holds of the daemon throughout a run. -/
structure Daemon.Tracked (s : Daemon) : Prop where
  running : s.stopped = false → s.Running
  accounted : s.stopped = true → ∀ r ∈ s.requests, s.Accounted r

/-- The stops of a run are at points where `.processing` has what else would be lost. -/
def GuardedStop (s : Daemon) (l : DaemonLabel) : Prop :=
  l = .stop → s.run.pass.Guarded s.run.files

lemma daemon_tracked_init {s : Daemon} (h : daemonSystem.init s) : s.Tracked := by
  obtain ⟨hinit, hrequests, hrulings, hstopped⟩ := h
  refine ⟨fun _ => ?_, fun h => by simp [hstopped] at h⟩
  have hpass : s.run.pass = .fresh := hinit.1
  have htimes : ∀ r ∈ s.requests, ∃ e ∈ s.run.posted, r = (e, 0) := by
    intro r hr
    rw [hrequests] at hr
    obtain ⟨e, he, rfl⟩ := List.mem_map.1 hr
    exact ⟨e, he, rfl⟩
  constructor
  · exact tracked_init hinit
  · rw [hpass]
    simp [Pass.Recovering, Pass.orphans, Pass.fresh]
  · rw [hpass]
    exact written_fresh _
  · rw [hpass, hrulings]
    rfl
  · simp [hrulings]
  · intro r hr
    obtain ⟨e, -, rfl⟩ := htimes r hr
    exact Nat.zero_le _
  · intro r hr
    obtain ⟨e, he, rfl⟩ := htimes r hr
    rw [hinit.2.2.2] at he
    rw [hpass]
    exact .inl (.inl (List.mem_map_of_mem (by
      simpa [Pass.fresh, Pass.waiting, Pass.orphans] using he)))

/-- What is decided after a request came, stays decided, and what is decided now is. -/
lemma mem_drop_append {α : Type*} {xs ys : List α} {n : ℕ} {x : α} (hn : n ≤ xs.length)
    (hx : x ∈ xs.drop n ∨ x ∈ ys) : x ∈ (xs ++ ys).drop n := by
  rwa [List.drop_append_of_le_length hn, List.mem_append]

/-- The requests after a move of the pass. -/
lemma held_act {s : Daemon} {c : List Entry} {f : Files} {p : Pass} (h : s.Running)
    (hm : Moves s.run.env s.run.files s.run.pass c f p) {r : Entry × ℕ} (hr : r ∈ s.requests) :
    p.Untaken f (dedupKey r.1) ∨
      (r.2 ≤ (s.rulings ++ s.run.pass.rulings p).length ∧
        ∃ it, p.current = some it ∧ it.key = dedupKey r.1) ∨
      ∃ x ∈ (s.rulings ++ s.run.pass.rulings p).drop r.2, x.1.key = dedupKey r.1 := by
  have hs := h.tracked.shape
  have hsince := h.since r hr
  have htaken := h.taken
  rcases h.held r hr with huntaken | ⟨hle, it, hit, hkey⟩ | ⟨x, hx, hkey⟩
  · refine (untaken_moves hm hs huntaken).imp_right fun ⟨hnone, hnow⟩ => ?_
    -- nothing is being mined, so all that was taken is decided, and the request came before
    have hle : r.2 ≤ s.rulings.length := by simpa [hnone, htaken] using hsince
    refine hnow.imp (fun hcurrent => ⟨?_, hcurrent⟩) fun ⟨x, hx, hkey⟩ => ?_
    · rw [List.length_append]
      omega
    · exact ⟨x, mem_drop_append hle (.inr hx), hkey⟩
  · rcases current_moves hm hs hit with hcurrent | ⟨x, hx, hxkey⟩
    · refine .inr (.inl ⟨?_, it, hcurrent, hkey⟩)
      rw [List.length_append]
      omega
    · exact .inr (.inr ⟨x, mem_drop_append hle (.inr hx), hxkey.trans hkey⟩)
  · have hle : r.2 ≤ s.rulings.length := by
      by_contra hlt
      rw [List.drop_eq_nil_of_le (not_le.1 hlt).le] at hx
      cases hx
    exact .inr (.inr ⟨x, mem_drop_append hle (.inl hx), hkey⟩)

lemma running_act {s s' : Daemon} {a : Act} (h : s.Running)
    (hnext : daemonSystem.next s (.go (.act a)) = some s') : s'.Running := by
  simp only [daemonSystem] at hnext
  split_ifs at hnext with hstopped
  obtain ⟨r, hr, rfl⟩ := Option.map_eq_some_iff.1 hnext
  have htracked := tracked_next h.tracked hr
  obtain ⟨⟨files, pass⟩, hmove, rfl⟩ := Option.map_eq_some_iff.1 hr
  have hm := moves_of_next hmove
  have hs := h.tracked.shape
  constructor
  · exact htracked
  · exact recovering_moves hm h.recovering
  · exact written_moves hm hs h.written
  · dsimp only
    rw [List.length_append]
    exact consumed_moves hm hs h.taken
  · intro x hx
    rcases List.mem_append.1 hx with hx | hx
    · exact kept_moves hm (h.kept x hx)
    · exact kept_of_mem_rulings hx
  · intro r hr
    have hr : r ∈ s.requests := by simpa [Label.queued] using hr
    exact (h.since r hr).trans (consumed_mono hm)
  · intro r hr
    exact held_act h hm (by simpa [Label.queued] using hr)

/-- A request is queued. -/
lemma running_post {s s' : Daemon} {e : Entry} (h : s.Running)
    (hnext : daemonSystem.next s (.go (.post e)) = some s') : s'.Running := by
  simp only [daemonSystem] at hnext
  split_ifs at hnext with hstopped
  obtain ⟨r, hr, rfl⟩ := Option.map_eq_some_iff.1 hnext
  have htracked := tracked_next h.tracked hr
  obtain rfl := Option.some.inj hr
  have hrequests : ∀ r ∈ s.requests ++ [(e, s.run.pass.consumed)],
      r ∈ s.requests ∨ r = (e, s.run.pass.consumed) := by simp
  refine ⟨htracked, h.recovering, ⟨h.written.1, h.written.2, h.written.3⟩, ?_, ?_, ?_, ?_⟩
  · simpa using h.taken
  · simpa using h.kept
  · intro r hr
    rcases hrequests r hr with hr | rfl
    · exact h.since r hr
    · exact le_refl _
  · intro r hr
    simp only [rulings_self, List.append_nil]
    rcases hrequests r hr with hr | rfl
    · refine (h.held r hr).imp_left fun huntaken => ?_
      refine untaken_mono huntaken (fun l hl => ?_) fun _ => id
      simp only [append_live, Option.getD_some, List.mem_append] at hl ⊢
      rcases hl with (hl | hl) | hl
      · exact .inl (.inl (.inl hl))
      · exact .inl (.inr hl)
      · exact .inr hl
    · refine .inl (.inl (List.mem_map_of_mem ?_))
      simp

lemma running_go {s s' : Daemon} {l : Label} (h : s.Running)
    (hnext : daemonSystem.next s (.go l) = some s') : s'.Running := by
  cases l with
  | act a => exact running_act h hnext
  | post e => exact running_post h hnext
  | change env =>
      simp only [daemonSystem] at hnext
      split_ifs at hnext with hstopped
      obtain ⟨r, hr, rfl⟩ := Option.map_eq_some_iff.1 hnext
      have htracked := tracked_next h.tracked hr
      obtain rfl := Option.some.inj hr
      refine ⟨htracked, h.recovering, h.written, ?_, ?_, ?_, ?_⟩
      · simpa using h.taken
      · simpa using h.kept
      · simpa [Label.queued] using h.since
      · simpa [Label.queued] using h.held

/-! ### A guarded stop -/

/-- An item has the key of its line. -/
lemma Run.Tracked.dedupKey_line {s : Run} (h : s.Tracked) {it : Item}
    (hit : it ∈ (s.pass.owned + s.pass.others : Multiset Item)) : dedupKey it.line = it.key := by
  obtain ⟨taken, -, hgrouped⟩ := h.accounts
  obtain ⟨g, -, hrep⟩ := hgrouped.exists_group hit
  exact hrep.key_eq it.line hrep.line_mem

section stop

variable {s : Daemon} {k : DedupKey}

/-- What the pass owes is queued again by the recovery. -/
lemma live_of_owed (h : s.Running) (hguard : s.run.pass.Guarded s.run.files) {it : Item}
    (hit : it ∈ s.run.pass.owes)
    (hmem : it ∈ (s.run.pass.owned + s.run.pass.others : Multiset Item)) :
    it.key ∈ ((recoverOrphaned s.run.files).live.getD []).map dedupKey := by
  rw [← h.tracked.dedupKey_line hmem]
  exact List.mem_map_of_mem (mem_live_recoverOrphaned
    (.inr (owed_of_guarded h.tracked.shape h.written hguard hit)))

/-- What the pass has handed back is queued. -/
lemma live_of_handedBack (h : s.Running) {l : Entry} (hl : l ∈ s.run.pass.handedBack)
    (hk : dedupKey l = k) : k ∈ ((recoverOrphaned s.run.files).live.getD []).map dedupKey := by
  obtain ⟨unclaimed, -, hqueued⟩ := h.tracked.keeps
  have hmem : l ∈ (s.run.files.live.getD [] + s.run.pass.orphans s.run.files : Multiset Entry) := by
    rw [hqueued]
    exact Multiset.mem_add.2 (.inr hl)
  rw [← hk]
  exact List.mem_map_of_mem (mem_live_recoverOrphaned
    ((Multiset.mem_add.1 hmem).imp_right (h.recovering l)))

/-- What waits to be taken is queued again by the recovery. -/
lemma live_of_untaken (h : s.Running) (hguard : s.run.pass.Guarded s.run.files)
    (huntaken : s.run.pass.Untaken s.run.files k) :
    k ∈ ((recoverOrphaned s.run.files).live.getD []).map dedupKey := by
  rcases huntaken with hk | hk
  · obtain ⟨l, hl, rfl⟩ := List.mem_map.1 hk
    refine List.mem_map_of_mem (mem_live_recoverOrphaned ?_)
    simp only [List.mem_append] at hl
    rcases hl with (hl | hl) | hl
    · exact .inl hl
    · exact .inr (hguard.arrivals l hl)
    · exact .inr (h.recovering l hl)
  · obtain ⟨it, hit, rfl⟩ := List.mem_map.1 hk
    have hmem : it ∈ (s.run.pass.owned + s.run.pass.others : Multiset Item) := by
      simp only [Pass.others, Multiset.mem_add, Multiset.mem_coe]
      rcases List.mem_append.1 hit with hit | hit <;> tauto
    by_cases howes : it ∈ s.run.pass.owes
    · exact live_of_owed h hguard howes hmem
    · -- a deferred entry that the pass does not owe any more is handed back
      have hback : it.entry.carried ∈ s.run.pass.handedBack := by
        simp only [Pass.owes, List.mem_append, List.mem_ite_nil_left, not_or] at howes hit
        simp only [Pass.handedBack, List.mem_append, List.mem_ite_nil_right, List.mem_map]
        grind
      exact live_of_handedBack h hback rfl

/-- An entry that was decided is settled, or it is queued again. -/
lemma live_of_ruling (h : s.Running) (hguard : s.run.pass.Guarded s.run.files)
    {x : Item × Ruling} (hx : x ∈ s.rulings) :
    x.1.key ∈ ((recoverOrphaned s.run.files).live.getD []).map dedupKey ∨
      x.2.Settles s.run.files x.1 := by
  obtain ⟨it, ruling⟩ := x
  have hkept := h.kept _ hx
  cases ruling with
  | mined | rejected => exact .inr trivial
  | requeued =>
      have hit : it ∈ s.run.pass.requeue := hkept
      refine .inl ?_
      cases hwritten : s.run.pass.pc.requeuesWritten with
      | true =>
          refine live_of_handedBack h (l := it.entry) ?_ rfl
          rw [Pass.handedBack, if_pos hwritten]
          exact List.mem_append_right _ (List.mem_map_of_mem hit)
      | false =>
          refine live_of_owed h hguard ?_ (by simp [Pass.others, hit])
          simp [Pass.owes, hwritten, hit]
  | failed =>
      have hit : it ∈ s.run.pass.failed := hkept
      cases hwritten : s.run.pass.pc.failuresWritten with
      | true =>
          rcases h.tracked.shape.quarantined hwritten with hnil | ⟨stamp, hstamp⟩
          · rw [hnil] at hit
            cases hit
          · exact .inr (List.mem_flatMap.2 ⟨_, hstamp, List.mem_map_of_mem hit⟩)
      | false =>
          refine .inl (live_of_owed h hguard ?_ (by simp [Pass.others, hit]))
          simp [Pass.owes, hwritten, hit]

/-- After a guarded stop and the recovery every request is accounted for. -/
lemma accounted_of_guarded (h : s.Running) (hguard : s.run.pass.Guarded s.run.files)
    {r : Entry × ℕ} (hr : r ∈ s.requests) : Daemon.Accounted { s with
      run := { s.run with files := recoverOrphaned s.run.files }, stopped := true } r := by
  rcases h.held r hr with huntaken | ⟨-, it, hit, hkey⟩ | ⟨x, hx, hkey⟩
  · exact .inl (live_of_untaken h hguard huntaken)
  · rw [Daemon.Accounted, ← hkey]
    refine .inl (live_of_owed h hguard ?_ (by simp [Pass.others, hit]))
    simp [Pass.owes, hit]
  · rcases live_of_ruling h hguard (List.mem_of_mem_drop hx) with hlive | hsettles
    · rw [hkey] at hlive
      exact .inl hlive
    · refine .inr ⟨x, hx, hkey, ?_⟩
      obtain ⟨it, ruling⟩ := x
      cases ruling with
      | mined | rejected => trivial
      | requeued => exact hsettles
      | failed => simpa [Ruling.Settles, Files.failedLines] using hsettles

end stop

lemma daemon_tracked_next {s s' : Daemon} {l : DaemonLabel} (h : s.Tracked)
    (hok : GuardedStop s l) (hnext : daemonSystem.next s l = some s') : s'.Tracked := by
  cases hstopped : s.stopped with
  | true => cases l <;> simp [daemonSystem, hstopped] at hnext
  | false =>
      have hrunning := h.running hstopped
      cases l with
      | go l =>
          refine ⟨fun _ => running_go hrunning hnext, fun hstop => ?_⟩
          simp only [daemonSystem, hstopped] at hnext
          obtain ⟨r, -, rfl⟩ := Option.map_eq_some_iff.1 hnext
          cases hstop
      | stop =>
          simp only [daemonSystem, hstopped] at hnext
          obtain rfl := Option.some.inj hnext
          exact ⟨fun hgoes => by simp at hgoes, fun _ r hr =>
            accounted_of_guarded hrunning (hok rfl) hr⟩

/-- **Durability.**  When every stop of a run is at a point where `.processing` has the arrivals,
the lines about to be written, the requeued and failed entries and the cancelled one, no request
is lost: after the recovery each is in the live file, or an entry taken after it was queued was
mined, rejected or quarantined for it.  Such points are those with nothing in memory yet, those
at which the pass waits or is between two entries with no arrivals and nothing requeued or
failed, and those after everything was handed back. -/
theorem durable_of_guarded {s : Daemon} (h : daemonSystem.ReachedBy GuardedStop s) :
    (s.stopped = true → ∀ r ∈ s.requests, s.Accounted r) ∧
    (s.stopped = false → (s.run.pass.pc.early ∨
      ((s.run.pass.pc.quiet ∨ s.run.pass.pc.loopEnded) ∧ s.run.pass.waiting s.run.files = [] ∧
        s.run.pass.requeue = [] ∧ s.run.pass.failed = []) ∨
      s.run.pass.pc.requeuesWritten) → s.run.pass.Guarded s.run.files) := by
  have htracked : s.Tracked :=
    h.invariant (fun _ => daemon_tracked_init) fun _ _ _ hs hok => daemon_tracked_next hs hok
  refine ⟨htracked.accounted, fun hstopped hpc => ?_⟩
  have hrunning := htracked.running hstopped
  exact guarded_of_place hrunning.tracked.shape hrunning.written hpc

/-! ### Three stops -/

instance (f : Files) (it : Item) : (r : Ruling) → Decidable (r.Settles f it)
  | .mined _ | .rejected _ => .isTrue trivial
  | .requeued => .isFalse id
  | .failed => inferInstanceAs (Decidable (it.line ∈ f.failedLines))

instance (s : Daemon) (r : Entry × ℕ) : Decidable (s.Accounted r) :=
  inferInstanceAs (Decidable (_ ∨ _))

/-- Two requests in the queue, in the plain setting. -/
def twoQueued : Daemon where
  run :=
    { env := .plain, files := .ofLive [.ofDir "/a", .ofDir "/b"], pass := .fresh
      posted := [.ofDir "/a", .ofDir "/b"], claimed := [], ended := [] }
  requests := [(.ofDir "/a", 0), (.ofDir "/b", 0)]
  rulings := []
  stopped := false

lemma twoQueued_init : daemonSystem.init twoQueued := ⟨⟨rfl, rfl, rfl, rfl⟩, rfl, rfl, rfl⟩

/-- The pass up to the first mine. -/
def toFirstMine : List DaemonLabel := List.replicate 4 (.go (.act .run))

/-- The pass from the end of a mine to the next one. -/
def toNextMine (outcome : Outcome) : List DaemonLabel :=
  .go (.act (.mineEnds outcome)) :: List.replicate 5 (.go (.act .run))

/-- The first request is mined, and a third one comes during the second mine. -/
def toSecondMine : List DaemonLabel :=
  toFirstMine ++ toNextMine .ok ++ [.go (.post (.ofDir "/c"))]

/-- A stop during the second mine loses none of three requests. -/
theorem durable_of_guarded_secondMine : ∃ s : Daemon, s.stopped = true ∧
    s.requests.length = 3 ∧ s.rulings.length = 1 ∧ ∀ r ∈ s.requests, s.Accounted r := by
  obtain ⟨s, hs, hend⟩ := daemonSystem.exists_of_exec_any twoQueued toSecondMine
    (fun s => decide (s.stopped = false ∧ s.requests.length = 3 ∧ s.rulings.length = 1 ∧
      s.run.pass.pc.quiet ∧ s.run.pass.waiting s.run.files = [] ∧ s.run.pass.requeue = [] ∧
      s.run.pass.failed = [])) (by decide)
  obtain ⟨hrunning, hrequests, hrulings, hquiet, hplace⟩ := of_decide_eq_true hend
  have hmeets : daemonSystem.Meets GuardedStop twoQueued toSecondMine :=
    StepSystem.meets_of_forall (fun s l hl hstop => by
      rw [hstop] at hl
      simp [toSecondMine, toFirstMine, toNextMine] at hl) _
  have hreached : daemonSystem.ReachedBy GuardedStop s :=
    StepSystem.ReachedBy.exec (.init twoQueued_init) hmeets hs
  have hguard : s.run.pass.Guarded s.run.files :=
    (durable_of_guarded hreached).2 hrunning (.inr (.inl ⟨.inl hquiet, hplace⟩))
  obtain ⟨t, hstop, hstopped, hsame⟩ : ∃ t, daemonSystem.next s .stop = some t ∧
      t.stopped = true ∧ t.requests = s.requests ∧ t.rulings = s.rulings := by
    simp [daemonSystem, hrunning]
  have hend := hreached.step (fun _ => hguard) hstop
  exact ⟨t, hstopped, by rw [hsame.1, hrequests], by rw [hsame.2, hrulings],
    (durable_of_guarded hend).1 hstopped⟩

/-- The first mine finds the palace lock held, its boundary rewrites `.processing` without
the entry, and the process is stopped during the second mine. -/
def stopAfterLockHeld : List DaemonLabel := toFirstMine ++ toNextMine .lockHeld ++ [.stop]

/-- A requeued entry is only in memory, so the stop loses it. -/
theorem durable_fails : ¬ ∀ s : Daemon, daemonSystem.Reachable s → s.stopped = true →
    ∀ r ∈ s.requests, s.Accounted r := by
  intro hdurable
  obtain ⟨s, hs, hend⟩ := daemonSystem.exists_of_exec_any twoQueued stopAfterLockHeld
    (fun s => decide (s.stopped = true ∧ ∃ r ∈ s.requests, ¬ s.Accounted r)) (by decide)
  obtain ⟨hstopped, r, hr, hlost⟩ := of_decide_eq_true hend
  have hreach : daemonSystem.Reachable s := StepSystem.Reachable.exec (.init twoQueued_init) hs
  exact hlost (hdurable s hreach hstopped r hr)

/-- A directory is requested again after it was mined, and the boundary after the second mine
renames the request to `.merge`. -/
def stopInMerge : List DaemonLabel :=
  toFirstMine ++ toNextMine .ok ++
    [.go (.post (.ofDir "/a")), .go (.act (.mineEnds .ok)), .go (.act .run), .stop]

-- the mine before it does not stand for the second request, which the stop loses
example : ((daemonSystem.exec twoQueued stopInMerge).any fun s =>
    decide (¬ s.Accounted (.ofDir "/a", 2) ∧ (.ofDir "/a", 2) ∈ s.requests)) = true := by decide

end PalaceDaemon.Mines

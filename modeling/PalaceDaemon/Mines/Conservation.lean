/-
What a drain pass conserves.

A run of the pass goes on while `/mine` requests append lines to the live file and the
surroundings change.  `Run` records, besides the state, three histories: the lines that were
ever appended to the queue (`posted`), the ones the pass has renamed away from the live file
(`claimed`), and how the mines of the pass ended (`ended`).

Two things are conserved.  Claimed lines are waiting to be merged, or split into groups, one
for each entry of the pass (`Pass.Accounts`).  Posted lines are claimed or still queued, and
the queue has besides them what the pass has handed back (`Pass.Keeps`).  A pass that has
returned has handed back what it deferred and requeued, and quarantined what failed, so its
entries are in the five classes of `pass_conserves`.  The mined ones are those whose mine ended
with the return code 0 (`mined_next`).
-/
import PalaceDaemon.Lib.StepSystem
import PalaceDaemon.Mines.Pass

namespace PalaceDaemon.Mines

/-! ### Runs of a pass -/

/-- A pass, its surroundings, and what has happened to the queue. -/
structure Run where
  env : Env
  files : Files
  pass : Pass
  /-- The lines that were ever appended to the queue. -/
  posted : List Entry
  /-- The lines the pass has renamed away from the live file. -/
  claimed : List Entry
  /-- The mines of the pass that have ended, with the entry and the outcome. -/
  ended : List (Item × Job × Outcome)

/-- The mines that ended with the return code 0. -/
def Run.endedOk (s : Run) : List (Item × Job) :=
  s.ended.filterMap fun (it, job, outcome) => if outcome = .ok then some (it, job) else none

/-- What can happen next. -/
inductive Label
  /-- A request is queued. -/
  | post (e : Entry)
  /-- The surroundings of the pass change. -/
  | change (env : Env)
  | act (a : Act)

/-- One pass from its start, while requests are queued. -/
def passSystem : StepSystem Run Label where
  init s := s.pass = .fresh ∧ s.claimed = [] ∧ s.ended = [] ∧
    s.posted = s.files.live.getD [] ++ s.files.processing.getD []
  next s
    | .post e => some { s with files := s.files.append [e], posted := s.posted ++ [e] }
    | .change env => some { s with env := env }
    | .act a =>
        (s.pass.next s.env s.files a).map fun fp =>
          { s with
            files := fp.1, pass := fp.2, claimed := s.claimed ++ s.pass.claims s.files a
            ended := s.ended ++ s.pass.ends a }

/-! ### Where the lines are -/

/-- The places at which the pass has nothing in memory yet. -/
def Pc.early : Pc → Bool
  | .recover | .recoverOpen _ | .recoverAppend _ | .recoverRemove | .claim | .load => true
  | _ => false

/-- The places that a cancelled pass goes through. -/
def Pc.finally : Pc → Bool
  | .boundary | .mergeRead | .mergeRemove _ | .rebalance _ | .writeOpen _ | .writeLines _
  | .cancelledInReplay | .cancelledInDelay => true
  | _ => false

/-- The places after the replay loop. -/
def Pc.loopEnded : Pc → Bool
  | .deferOpen | .deferWrite | .failOpen | .failWrite _ | .requeueOpen | .requeueWrite
  | .sleeping | .remove | .done | .cancelledInDelay => true
  | _ => false

/-- The places after `_defer_entries`. -/
def Pc.deferralsWritten : Pc → Bool
  | .failOpen | .failWrite _ | .requeueOpen | .requeueWrite | .sleeping | .remove | .done
  | .cancelledInDelay => true
  | _ => false

/-- The places after the quarantine file was written. -/
def Pc.failuresWritten : Pc → Bool
  | .requeueOpen | .requeueWrite | .sleeping | .remove | .done | .cancelledInDelay => true
  | _ => false

/-- The places after the requeued entries were written. -/
def Pc.requeuesWritten : Pc → Bool
  | .sleeping | .remove | .done | .cancelledInDelay => true
  | _ => false

/-- The lines the pass has claimed and not merged into its entries yet. -/
def Pass.waiting (f : Files) (p : Pass) : List Entry :=
  match p.pc with
  | .load => f.processing.getD []
  | .mergeRead => f.merge.getD []
  | .mergeRemove arrivals => arrivals
  | .rebalance arrivals => arrivals
  | _ => []

/-- The entries of the pass besides the ones it still has to replay. -/
def Pass.others (p : Pass) : Multiset Item :=
  p.deferred + p.current.toList + p.requeue + p.failed + (p.mined.map Prod.fst : Multiset Item) +
    (p.skipped.map Prod.fst : Multiset Item)

/-- The lines that recovery has not folded back into the live file yet. -/
def Pass.orphans (f : Files) (p : Pass) : List Entry :=
  match p.pc with
  | .recover => f.processing.getD []
  | .recoverOpen lines => lines
  | .recoverAppend lines => lines
  | _ => []

/-- What the pass has appended to the live file. -/
def Pass.handedBack (p : Pass) : List Entry :=
  (if p.pc.deferralsWritten then p.deferred.map fun it => it.entry.carried else []) ++
    (if p.pc.requeuesWritten then p.requeue.map Item.entry else [])

/-! ### The shape of a pass -/

/-- What the place in the code says about the lists. -/
structure Pass.Shape (f : Files) (p : Pass) : Prop where
  early : p.pc.early → p.owned = [] ∧ p.deferred = [] ∧ p.current = none ∧ p.requeue = [] ∧
    p.failed = [] ∧ p.mined = [] ∧ p.skipped = []
  current : p.current = none ∨ (∃ job, p.pc = .replaying job) ∨
    (p.cancelling ∧ p.pc ≠ .cancelledInDelay)
  cancelling : p.cancelling → p.pc.finally
  owned : p.pc.loopEnded → p.owned = []
  quarantined : p.pc.failuresWritten → p.failed = [] ∨
    ∃ stamp, (stamp, p.failed.map Item.line) ∈ f.failed

section moves

variable {env : Env} {f f' : Files} {p p' : Pass} {c : List Entry}

lemma shape_fresh (f : Files) : Pass.fresh.Shape f where
  early _ := by simp [Pass.fresh]
  current := .inl rfl
  cancelling h := by simp [Pass.fresh] at h
  owned _ := rfl
  quarantined h := by simp [Pass.fresh, Pc.failuresWritten] at h

lemma shape_moves (hm : Moves env f p c f' p') (h : p.Shape f) : p'.Shape f' := by
  obtain ⟨hearly, hcur, hcan, howned, hq⟩ := h
  cases hm
  case failWrite stamp hpc =>
    refine ⟨by simp [Pc.early], by simp_all, by simp_all [Pc.finally], ?_, ?_⟩
    · simp_all [Pc.loopEnded]
    · exact fun _ => .inr ⟨stamp, mem_setFailed f stamp _⟩
  all_goals
    constructor <;> first
      | (simp [Pc.early, Pc.finally, Pc.loopEnded, Pc.failuresWritten]; done)
      | simp_all [Pc.early, Pc.finally, Pc.loopEnded, Pc.failuresWritten]

/-! ### The claimed lines -/

/-- Claimed lines are waiting, or in the group of an entry of the pass. -/
def Pass.Accounts (f : Files) (p : Pass) (claimed : List Entry) : Prop :=
  ∃ taken : Multiset Entry, (claimed : Multiset Entry) = p.waiting f + taken ∧
    Grouped Represents taken (p.owned + p.others)

lemma accounts_fresh (f : Files) : Pass.fresh.Accounts f [] :=
  ⟨0, rfl, Grouped.zero⟩

/-- A move that keeps the entries and only takes lines in. -/
lemma accounts_of_eq {claimed : List Entry} (h : p.Accounts f claimed)
    (hwaiting : p'.waiting f' = p.waiting f ++ c)
    (hitems : (p'.owned + p'.others : Multiset Item) = p.owned + p.others) :
    p'.Accounts f' (claimed ++ c) := by
  obtain ⟨taken, hclaimed, hgrouped⟩ := h
  refine ⟨taken, ?_, by rwa [hitems]⟩
  rw [hwaiting, ← Multiset.coe_add, ← Multiset.coe_add, hclaimed]
  abel

/-- The claim is split into the batch and what is deferred. -/
lemma accounts_load {claimed lines : List Entry} {batch deferred : List Item}
    (h : p.Accounts f claimed) (hs : p.Shape f) (hpc : p.pc = .load)
    (hproc : f.processing = some lines)
    (hsplit : splitClaim (drainBatchSize env.drainBatch) (dedup lines) = (batch, deferred))
    (hwaiting : p'.waiting f' = []) (hitems : (p'.owned + p'.others : Multiset Item) =
      batch + deferred + (p.owned + p.others)) : p'.Accounts f' claimed := by
  obtain ⟨taken, hclaimed, hgrouped⟩ := h
  have hempty := hs.early (by rw [hpc]; rfl)
  have hnone : (p.owned + p.others : Multiset Item) = 0 := by
    simp [Pass.others, hempty]
  rw [hnone] at hgrouped
  obtain rfl := hgrouped.eq_zero
  refine ⟨lines, ?_, ?_⟩
  · rw [hclaimed, hwaiting]
    simp [Pass.waiting, hpc, hproc]
  · have hcoe := splitClaim_coe (drainBatchSize env.drainBatch) (dedup lines)
    rw [hsplit] at hcoe
    rw [hitems, hnone, hcoe, add_zero]
    exact dedup_grouped lines

/-- The arrivals join the entries, whether they are kept or displaced. -/
lemma accounts_rebalance {claimed as : List Entry} {keep displaced : List Item} {budget : ℕ}
    (h : p.Accounts f claimed) (hpc : p.pc = .rebalance as)
    (hrebalance : rebalance p.owned budget as = (keep, displaced))
    (hwaiting : p'.waiting f' = []) (hitems : (p'.owned + p'.others : Multiset Item) =
      keep + displaced + p.others) : p'.Accounts f' claimed := by
  obtain ⟨taken, hclaimed, hgrouped⟩ := h
  refine ⟨as + taken, ?_, ?_⟩
  · rw [hclaimed, hwaiting]
    simp [Pass.waiting, hpc]
  · have hmerged := rebalance_grouped budget as hgrouped
    rw [hrebalance] at hmerged
    rwa [hitems]

/-- An entry whose retries are counted stands for the same lines. -/
lemma accounts_lockHeld {claimed : List Entry} (it : Item) (n : ℕ) (rest : Multiset Item)
    (h : p.Accounts f claimed) (hwaiting : p'.waiting f' = p.waiting f)
    (hitems : (p.owned + p.others : Multiset Item) = it ::ₘ rest)
    (hitems' : (p'.owned + p'.others : Multiset Item) =
      { it with entry := it.entry.setLockRetries n } ::ₘ rest) : p'.Accounts f' claimed := by
  obtain ⟨taken, hclaimed, hgrouped⟩ := h
  refine ⟨taken, by rwa [hwaiting], ?_⟩
  rw [hitems] at hgrouped
  have hreplaced : Grouped Represents (0 + taken)
      ({ it with entry := it.entry.setLockRetries n } ::ₘ rest) :=
    hgrouped.replace fun g hg => by
      rw [zero_add]
      exact hg.setLockRetries n
  rwa [zero_add, ← hitems'] at hreplaced

/-- No mine is running when the loop takes an entry. -/
lemma current_of_loop (hs : p.Shape f) (hpc : p.pc = .loop) : p.current = none := by
  have hcur := hs.current
  have hcan := hs.cancelling
  simp_all [Pc.finally]

/-- The lines that wait are kept, and what is claimed joins them, until the pass loads or merges
them. -/
lemma waiting_moves (hm : Moves env f p c f' p') (hload : p.pc ≠ .load)
    (hrebalance : ∀ as, p.pc ≠ .rebalance as) : p'.waiting f' = p.waiting f ++ c := by
  cases hm
  case loadNone hpc _ => exact absurd hpc hload
  case loadAll hpc _ _ => exact absurd hpc hload
  case loadSome hpc _ _ _ => exact absurd hpc hload
  case rebalance hpc _ => exact absurd hpc (hrebalance _)
  all_goals simp only [Pass.waiting, *, List.append_nil, List.nil_append, Option.getD_some]

/-- A pass that has read its claim does not begin again. -/
lemma early_moves (hm : Moves env f p c f' p') (h : p'.pc.early) : p.pc.early := by
  cases hm <;> simp_all only [Pc.early, Bool.false_eq_true]

/-- What is taken in at each move is accounted for. -/
lemma accounts_moves {claimed : List Entry} (hm : Moves env f p c f' p') (hs : p.Shape f)
    (h : p.Accounts f claimed) : p'.Accounts f' (claimed ++ c) := by
  have hcons : ∀ (it : Item) (its : List Item), ((it :: its : List Item) : Multiset Item) =
      {it} + its := fun it its => rfl
  have hsnoc : ∀ (it : Item) (its : List Item), ((its ++ [it] : List Item) : Multiset Item) =
      its + {it} := fun it its => rfl
  cases hm
  case loadAll hpc hproc hsplit =>
    rw [List.append_nil]
    refine accounts_load h hs hpc hproc hsplit rfl ?_
    simp [Pass.others, hs.early (by rw [hpc]; rfl)]
  case loadSome hpc hproc hsplit hdeferred =>
    rw [List.append_nil]
    refine accounts_load h hs hpc hproc hsplit rfl ?_
    simp [Pass.others, hs.early (by rw [hpc]; rfl)]
  case hold it owned why hpc howned hgate =>
    refine accounts_of_eq h (by simp [Pass.waiting, hpc]) ?_
    simp only [Pass.others, howned, hcons, hsnoc]
    abel
  case reject it owned rule hpc howned hgate =>
    refine accounts_of_eq h (by simp [Pass.waiting, hpc]) ?_
    simp only [Pass.others, howned, hcons, List.map_append, List.map_singleton, hsnoc]
    abel
  case spawn it owned job hpc howned hgate =>
    refine accounts_of_eq h (by simp [Pass.waiting, hpc]) ?_
    simp only [Pass.others, howned, current_of_loop hs hpc, hcons, Option.toList_some,
      Option.toList_none, Multiset.coe_nil]
    abel
  case budgetSpent hpc hspent =>
    refine accounts_of_eq h (by simp [Pass.waiting, hpc]) ?_
    simp only [Pass.others, ← Multiset.coe_add, Multiset.coe_nil]
    abel
  case rebalance hpc hrebalance =>
    rw [List.append_nil]
    refine accounts_rebalance h hpc hrebalance rfl ?_
    simp only [Pass.others, ← Multiset.coe_add]
    abel
  case mined job it hpc hcur hw =>
    refine accounts_of_eq h (by simp [Pass.waiting, hpc]) ?_
    simp only [Pass.others, hcur, Option.toList_some, Option.toList_none, Multiset.coe_nil,
      Multiset.coe_singleton, List.map_append, List.map_singleton, hsnoc]
    abel
  case minedWitness job it witness hpc hcur hw =>
    refine accounts_of_eq h (by simp [Pass.waiting, hpc]) ?_
    simp only [Pass.others, hcur, Option.toList_some, Option.toList_none, Multiset.coe_nil,
      Multiset.coe_singleton, List.map_append, List.map_singleton, hsnoc]
    abel
  case lockHeld job it hpc hcur hle =>
    rw [List.append_nil]
    refine accounts_lockHeld it (it.entry.lockRetries + 1)
      (p.owned + { p with current := none }.others) h ?_ ?_ ?_
    · simp [Pass.waiting, hpc]
    · simp only [Pass.others, hcur, Option.toList_some, Option.toList_none, Multiset.coe_nil,
        Multiset.coe_singleton, ← Multiset.singleton_add]
      abel
    · simp only [Pass.others, Option.toList_none, Multiset.coe_nil, hsnoc,
        ← Multiset.singleton_add]
      abel
  case mineFailed job it hpc hcur =>
    refine accounts_of_eq h (by simp [Pass.waiting, hpc]) ?_
    simp only [Pass.others, hcur, Option.toList_some, Option.toList_none, Multiset.coe_nil,
      Multiset.coe_singleton, hsnoc]
    abel
  all_goals
    exact accounts_of_eq h (by simp only [Pass.waiting, *, List.append_nil, List.nil_append,
      Option.getD_some, Option.getD_none]) rfl

/-! ### The posted lines -/

/-- Posted lines are claimed or queued, and what is queued besides them was handed back. -/
def Pass.Keeps (f : Files) (p : Pass) (posted claimed : List Entry) : Prop :=
  ∃ unclaimed : Multiset Entry, (posted : Multiset Entry) = claimed + unclaimed ∧
    (f.live.getD [] + p.orphans f : Multiset Entry) = unclaimed + p.handedBack

lemma keeps_fresh (f : Files) :
    Pass.fresh.Keeps f (f.live.getD [] ++ f.processing.getD []) [] :=
  ⟨f.live.getD [] + f.processing.getD [], by simp, by simp [Pass.fresh, Pass.orphans,
    Pass.handedBack, Pc.deferralsWritten, Pc.requeuesWritten]⟩

/-- All that is queued is claimed when the pass takes the live file away and has handed
nothing back. -/
lemma keeps_claim {posted claimed lines : List Entry} (h : p.Keeps f posted claimed)
    (hlive : f.live = some lines) (hlive' : f'.live = none) (horphans : p.orphans f = [])
    (horphans' : p'.orphans f' = []) (hback : p.handedBack = []) (hback' : p'.handedBack = []) :
    p'.Keeps f' posted (claimed ++ lines) := by
  obtain ⟨unclaimed, hposted, hqueued⟩ := h
  have hlines : (lines : Multiset Entry) = unclaimed := by
    simpa [hlive, horphans, hback] using hqueued
  refine ⟨0, ?_, by simp [hlive', horphans', hback']⟩
  rw [hposted, ← hlines, add_zero, Multiset.coe_add]

/-- What is handed back is queued, once. -/
lemma keeps_append {posted claimed lines : List Entry} (h : p.Keeps f posted claimed)
    (hlive : f'.live = some (f.live.getD [] ++ lines)) (horphans : p'.orphans f' = p.orphans f)
    (hback : p'.handedBack = p.handedBack ++ lines) : p'.Keeps f' posted claimed := by
  obtain ⟨unclaimed, hposted, hqueued⟩ := h
  refine ⟨unclaimed, hposted, ?_⟩
  rw [hlive, horphans, hback, Option.getD_some, ← Multiset.coe_add, ← Multiset.coe_add,
    ← add_assoc, ← hqueued]
  abel

lemma keeps_moves {posted claimed : List Entry} (hm : Moves env f p c f' p') (hs : p.Shape f)
    (h : p.Keeps f posted claimed) : p'.Keeps f' posted (claimed ++ c) := by
  have hearly := hs.early
  cases hm
  case claim hpc hlive =>
    apply keeps_claim h hlive <;>
      simp [Pass.orphans, Pass.handedBack, hpc, Pc.deferralsWritten, Pc.requeuesWritten]
  case arrivals hpc hlt hlive =>
    apply keeps_claim h hlive <;>
      simp [Pass.orphans, Pass.handedBack, hpc, Pc.deferralsWritten, Pc.requeuesWritten]
  case deferWrite hpc =>
    rw [List.append_nil]
    apply keeps_append h rfl <;>
      simp [Pass.orphans, Pass.handedBack, hpc, Pc.deferralsWritten, Pc.requeuesWritten]
  case requeueWrite hpc =>
    rw [List.append_nil]
    apply keeps_append h rfl <;>
      simp [Pass.orphans, Pass.handedBack, hpc, Pc.deferralsWritten, Pc.requeuesWritten]
  all_goals
    obtain ⟨unclaimed, hposted, hqueued⟩ := h
    refine ⟨unclaimed, by simpa using hposted, ?_⟩
    simp_all [Pass.orphans, Pass.handedBack, Pc.deferralsWritten, Pc.requeuesWritten, Pc.early]

/-! ### The verdicts -/

/-- The mines that ran and the entries that were dropped are what the checks said. -/
structure Pass.Checked (p : Pass) : Prop where
  mined : ∀ m ∈ p.mined, ∃ env state, gate env state m.1.entry = .spawn m.2
  skipped : ∀ r ∈ p.skipped, ∃ env state, gate env state r.1.entry = .reject r.2
  running : ∀ job it, p.pc = .replaying job → p.current = some it →
    ∃ env state, gate env state it.entry = .spawn job

lemma checked_fresh : Pass.fresh.Checked where
  mined m hm := by simp [Pass.fresh] at hm
  skipped r hr := by simp [Pass.fresh] at hr
  running job it hpc := by simp [Pass.fresh] at hpc

lemma checked_moves (hm : Moves env f p c f' p') (h : p.Checked) : p'.Checked := by
  obtain ⟨hmined, hskipped, hrunning⟩ := h
  cases hm
  case reject it owned rule hpc howned hgate =>
    refine ⟨hmined, fun r hr => ?_, by simp⟩
    rcases List.mem_append.1 hr with hr | hr
    · exact hskipped r hr
    · obtain rfl := List.mem_singleton.1 hr
      exact ⟨env, p.minedState, hgate⟩
  case spawn it owned job hpc howned hgate =>
    refine ⟨hmined, hskipped, fun job' it' hpc' hcur' => ?_⟩
    obtain rfl : job = job' := by simpa using hpc'
    obtain rfl : it = it' := by simpa using hcur'
    exact ⟨env, p.minedState, hgate⟩
  case mined job it hpc hcur hw =>
    refine ⟨fun m hm => ?_, hskipped, by simp⟩
    rcases List.mem_append.1 hm with hm | hm
    · exact hmined m hm
    · obtain rfl := List.mem_singleton.1 hm
      exact hrunning job it hpc hcur
  case minedWitness job it witness hpc hcur hw =>
    refine ⟨fun m hm => ?_, hskipped, by simp⟩
    rcases List.mem_append.1 hm with hm | hm
    · exact hmined m hm
    · obtain rfl := List.mem_singleton.1 hm
      exact hrunning job it hpc hcur
  all_goals exact ⟨hmined, hskipped, by simp⟩

/-- An entry gets among the mined ones when its mine ends with the return code 0, and only then. -/
lemma mined_next {a : Act} (hnext : p.next env f a = some (f', p')) :
    p'.mined = p.mined ++ (p.ends a).filterMap fun (it, job, outcome) =>
      if outcome = .ok then some (it, job) else none := by
  cases a with
  | mineEnds outcome =>
      simp only [Pass.next, Pass.ends] at hnext ⊢
      split at hnext
      · rename_i job it hpc hcur
        cases outcome <;> simp only [Pass.settle] at hnext
        case ok => split at hnext <;> cases hnext <;> rfl
        case lockHeld => split at hnext <;> cases hnext <;> simp
        all_goals
          cases hnext
          simp
      · cases hnext
  | run =>
      -- while a mine runs, the pass makes no step of its own
      have hpc : ∀ job, p.pc ≠ .replaying job := by
        intro job hpc
        have hnone : p.next env f .run = none := by simp [Pass.next, Pass.step, hpc]
        cases hnone.symm.trans hnext
      rw [show p.ends .run = [] from rfl, List.filterMap_nil, List.append_nil]
      have hm := moves_of_next hnext
      generalize p.claims f .run = c at hm
      cases hm
      case mined hreplaying _ _ => exact absurd hreplaying (hpc _)
      case minedWitness hreplaying _ _ => exact absurd hreplaying (hpc _)
      all_goals rfl
  | wake =>
      simp only [Pass.next] at hnext
      split at hnext
      · cases hnext
        simp [Pass.ends]
      · cases hnext
  | cancel =>
      simp only [Pass.next] at hnext
      split at hnext <;> cases hnext <;> simp [Pass.ends]

end moves

/-! ### The invariant of a run -/

/-- What holds throughout a run. -/
structure Run.Tracked (s : Run) : Prop where
  shape : s.pass.Shape s.files
  accounts : s.pass.Accounts s.files s.claimed
  keeps : s.pass.Keeps s.files s.posted s.claimed
  checked : s.pass.Checked
  ended : s.pass.mined = s.endedOk

lemma tracked_init {s : Run} (h : passSystem.init s) : s.Tracked := by
  obtain ⟨hpass, hclaimed, hended, hposted⟩ := h
  constructor
  · rw [hpass]
    exact shape_fresh s.files
  · rw [hpass, hclaimed]
    exact accounts_fresh s.files
  · rw [hpass, hclaimed, hposted]
    exact keeps_fresh s.files
  · rw [hpass]
    exact checked_fresh
  · rw [hpass, Run.endedOk, hended]
    rfl

lemma tracked_post {s : Run} (h : s.Tracked) (e : Entry) :
    Run.Tracked { s with files := s.files.append [e], posted := s.posted ++ [e] } := by
  obtain ⟨hshape, haccounts, ⟨unclaimed, hposted, hqueued⟩, hchecked, hended⟩ := h
  refine ⟨⟨hshape.1, hshape.2, hshape.3, hshape.4, hshape.5⟩, haccounts, ?_, hchecked, hended⟩
  refine ⟨unclaimed + {e}, ?_, ?_⟩
  · rw [← Multiset.coe_add, hposted, Multiset.coe_singleton, add_assoc]
  · have horphans : s.pass.orphans (s.files.append [e]) = s.pass.orphans s.files := rfl
    rw [horphans, append_live, Option.getD_some, ← Multiset.coe_add, Multiset.coe_singleton,
      add_right_comm, hqueued, add_right_comm]

lemma tracked_next {s s' : Run} {l : Label} (h : s.Tracked)
    (hnext : passSystem.next s l = some s') : s'.Tracked := by
  cases l with
  | post e =>
      obtain rfl := Option.some.inj hnext
      exact tracked_post h e
  | change env =>
      obtain rfl := Option.some.inj hnext
      exact ⟨h.shape, h.accounts, h.keeps, h.checked, h.ended⟩
  | act a =>
      obtain ⟨⟨files, pass⟩, hmove, rfl⟩ := Option.map_eq_some_iff.1 hnext
      have hm := moves_of_next hmove
      have hended := mined_next hmove
      rw [h.ended, Run.endedOk, ← List.filterMap_append] at hended
      exact ⟨shape_moves hm h.shape, accounts_moves hm h.shape h.accounts,
        keeps_moves hm h.shape h.keeps, checked_moves hm h.checked, hended⟩

lemma tracked_of_reachable {s : Run} (h : passSystem.Reachable s) : s.Tracked :=
  h.invariant (fun _ => tracked_init) fun _ _ _ hs _ => tracked_next hs

/-- A run: two requests, a cap of one, and a third request while the first mine runs. -/
def cappedRun : List Label :=
  [Label.act .run, .act .run, .act .run, .act .run, .act .run, .act .run, .post (.ofDir "/c"),
    .act (.mineEnds .ok)] ++ List.replicate 9 (Label.act .run)

def cappedStart : Run where
  env := { Env.plain with drainBatch := some 1 }
  files := .ofLive [.ofDir "/a", .ofDir "/b"]
  pass := .fresh
  posted := [.ofDir "/a", .ofDir "/b"]
  claimed := []
  ended := []

end PalaceDaemon.Mines

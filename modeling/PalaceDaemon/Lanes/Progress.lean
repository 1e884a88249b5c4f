/-
Settings under which nobody waits for ever.

When `PALACE_MAX_CONCURRENCY` is one, a hold takes one read and one write permit, and the saves.
If one of the read, the write and the save semaphore has a single permit besides, at most one hold
takes saves at a time, or it takes only one, so no two holds can share them out and wait for each
other.  Then the coroutines are never all waiting (`queue_eq_nil`).  A coroutine that is ready, or
a worker it waits for, can always move on, and the steps it can take are bounded (`measure`), so
from every state all the work can be brought to an end; and who waits is handed a permit on the
way.
-/
import PalaceDaemon.Lanes.Exclusion

namespace PalaceDaemon.Lanes

open Semaphore Tasks

/-- A waiting coroutine is ready after some steps: it was handed the permit. -/
def State.Granted (cfg : Config) (s : State) (t : Coroutine) : Prop :=
  ∃ s', (laneSystem cfg).Steps s s' ∧ ∃ u ∈ s'.ready, u.name = t.name

/-- The settings under which the exclusive hold cannot deadlock. -/
def Config.DeadlockFree (cfg : Config) : Prop :=
  cfg.maxConcurrency = 1 ∧ (cfg.saveMaxInflight = 1 ∨ cfg.maxRead = 1 ∨ cfg.maxWrite = 1)

variable {cfg : Config} {s s' : State} {t u : Coroutine} {i : ℕ} {x y : Sem}

/-! ### Not everybody waits -/

/-- The order in which the semaphores are taken. -/
def Sem.rank : Sem → ℕ
  | .read => 0
  | .write => 1
  | .save => 2
  | .mine => 3

lemma exclusivePlan_sorted (cfg : Config) :
    (cfg.exclusivePlan ++ [Sem.mine]).Pairwise fun x y => x.rank ≤ y.rank := by
  have hreplicate : ∀ (n : ℕ) (x : Sem), (List.replicate n x).Pairwise fun x y => x.rank ≤ y.rank :=
    fun n x => List.pairwise_replicate.2 (.inr le_rfl)
  unfold Config.exclusivePlan
  rw [List.pairwise_append, List.pairwise_append, List.pairwise_append]
  refine ⟨⟨⟨hreplicate _ _, hreplicate _ _, fun x hx y hy => ?_⟩, hreplicate _ _,
    fun x hx y hy => ?_⟩, List.pairwise_singleton _ _, fun x hx y hy => ?_⟩
  · obtain rfl := List.eq_of_mem_replicate hx
    obtain rfl := List.eq_of_mem_replicate hy
    decide
  · obtain rfl := List.eq_of_mem_replicate hy
    rcases List.mem_append.1 hx with hx | hx <;> obtain rfl := List.eq_of_mem_replicate hx <;>
      decide
  · obtain rfl := List.mem_singleton.1 hy
    cases x <;> decide

/-- A plan is in the order of the semaphores. -/
lemma plan_sorted (h : Fits cfg t) : t.plan.Pairwise fun x y => x.rank ≤ y.rank := by
  have hone : ∀ x : Sem, [x].Pairwise fun x y => x.rank ≤ y.rank := fun x =>
    List.pairwise_singleton _ _
  unfold Fits at h
  cases hop : t.op with
  | work _ =>
      rw [hop] at h
      obtain ⟨x, hplan⟩ := h
      rw [hplan]
      exact hone x
  | call _ _ =>
      rw [hop] at h
      obtain ⟨x, _, hplan⟩ := h
      rw [hplan]
      exact hone x
  | clearCaches | silentSave =>
      rw [hop] at h
      rw [h]
      exact hone _
  | awaiting _ _ | enqueuing =>
      rw [hop] at h
      obtain ⟨x, hheld, htodo⟩ := h
      simp [Task.plan, hheld, htodo]
  | exclusive _ =>
      rw [hop] at h
      rw [h]
      exact (List.pairwise_append.1 (exclusivePlan_sorted cfg)).1
  | holding _ =>
      rw [hop] at h
      rw [h.1]
      exact exclusivePlan_sorted cfg
  | clearing =>
      rw [hop] at h
      simp [Task.plan, h.1, h.2]

/-- Who waits with a permit is an exclusive hold. -/
lemma plan_of_waiting (hregular : Regular cfg s) (ht : t ∈ s.sems.queue y) (hx : x ∈ t.held) :
    t.plan = cfg.exclusivePlan ∨ t.plan = cfg.exclusivePlan ++ [Sem.mine] := by
  have hfits := hregular.waits y t ht
  obtain ⟨rest, htodo⟩ := List.head?_eq_some_iff.1 (hregular.orderly.waits y t ht)
  -- a plan of one permit is not held and waited for at once
  have hshort : ∀ z : Sem, t.plan ≠ [z] := by
    intro z hplan
    have hlength := congrArg List.length hplan
    have hpos := List.length_pos_of_mem hx
    simp only [Task.plan, htodo, List.length_append, List.length_reverse, List.length_cons,
      List.length_nil] at hlength
    omega
  unfold Fits at hfits
  cases hop : t.op with
  | work _ =>
      rw [hop] at hfits
      obtain ⟨z, hplan⟩ := hfits
      exact absurd hplan (hshort z)
  | call _ _ =>
      rw [hop] at hfits
      obtain ⟨z, _, hplan⟩ := hfits
      exact absurd hplan (hshort z)
  | clearCaches | silentSave =>
      rw [hop] at hfits
      exact absurd hfits (hshort _)
  | awaiting _ _ | enqueuing =>
      rw [hop] at hfits
      obtain ⟨z, _, hnil⟩ := hfits
      rw [htodo] at hnil
      cases hnil
  | exclusive _ =>
      rw [hop] at hfits
      exact .inl hfits
  | holding _ =>
      rw [hop] at hfits
      exact .inr hfits.1
  | clearing =>
      rw [hop] at hfits
      rw [htodo] at hfits
      cases hfits.2

/-- Who waits for `y` with a permit of `x` waits for one that comes later, or for another one of
`x`. -/
lemma rank_le_of_waiting (hregular : Regular cfg s) (ht : t ∈ s.sems.queue y) (hx : x ∈ t.held) :
    x.rank ≤ y.rank := by
  obtain ⟨rest, htodo⟩ := List.head?_eq_some_iff.1 (hregular.orderly.waits y t ht)
  have hsorted := plan_sorted (hregular.waits y t ht)
  rw [Task.plan, List.pairwise_append] at hsorted
  exact hsorted.2.2 x (List.mem_reverse.2 hx) y (by simp [htodo])

/-- The permit that a waiting coroutine waits for is in its plan besides the ones it holds. -/
lemma count_lt_of_waiting (hregular : Regular cfg s) (ht : t ∈ s.sems.queue y) :
    t.count y < t.plan.count y := by
  obtain ⟨rest, htodo⟩ := List.head?_eq_some_iff.1 (hregular.orderly.waits y t ht)
  rw [Task.plan, htodo, List.count_append, List.count_reverse, List.count_cons_self, Task.count]
  omega

/-- When everybody waits, the permits of a semaphore that somebody waits for are held by waiting
coroutines. -/
lemma weigh_of_all_waiting (hregular : Regular cfg s) (hready : s.ready = [])
    (hx : s.sems.queue x ≠ []) :
    s.sems.weigh (fun v : Task Sem Op => v.count x) = cfg.permits x := by
  have hconserved := hregular.conserved x
  have hfree := hregular.orderly.locked x hx
  rw [permits, hready, weigh_nil, hfree] at hconserved
  omega

/-- Of a semaphore of which a hold takes one permit, the permits cannot all be held by coroutines
that wait for it, or for something that nobody waits for. -/
lemma queue_eq_nil_of_single (hregular : Regular cfg s) (hready : s.ready = [])
    (hpos : 0 < cfg.permits x) (hsingle : (cfg.exclusivePlan ++ [Sem.mine]).count x ≤ 1)
    (hlater : ∀ y, x.rank < y.rank → s.sems.queue y = []) : s.sems.queue x = [] := by
  by_contra hne
  have hall := weigh_of_all_waiting hregular hready hne
  obtain ⟨y, u, hu, hcount⟩ := exists_of_weigh_pos (fun v : Task Sem Op => v.count x)
    (s := s.sems) (by omega)
  have hheld : x ∈ u.held := List.count_pos_iff.1 hcount
  have hrank := rank_le_of_waiting hregular hu hheld
  by_cases hyx : y = x
  · subst hyx
    have hlt := count_lt_of_waiting hregular hu
    have hle : u.plan.count y ≤ (cfg.exclusivePlan ++ [Sem.mine]).count y := by
      rcases plan_of_waiting hregular hu hheld with hplan | hplan
      · rw [hplan, List.count_append]
        exact Nat.le_add_right _ _
      · rw [hplan]
    omega
  · have hlt : x.rank < y.rank := by
      cases x <;> cases y <;> simp_all [Sem.rank]
    rw [hlater y hlt] at hu
    cases hu

lemma slots_of_deadlockFree (h : cfg.DeadlockFree) : cfg.readSlots = 1 ∧ cfg.writeSlots = 1 := by
  unfold Config.readSlots Config.writeSlots
  rw [h.1]
  decide

/-- A hold that waits for a save permit and has some has a read and a write permit, and is short of
at least one save permit. -/
lemma count_save_le (hfree : cfg.DeadlockFree) (hregular : Regular cfg s)
    (hmine : s.sems.queue .mine = []) (ht : t ∈ s.sems.queue y) :
    t.count .save ≤ (cfg.saveSlots - 1) * t.count .read ∧
      t.count .save ≤ (cfg.saveSlots - 1) * t.count .write := by
  by_cases hheld : Sem.save ∈ t.held
  · have hrank := rank_le_of_waiting hregular ht hheld
    have hy : y = .save := by
      cases y with
      | save => rfl
      | read | write => simp [Sem.rank] at hrank
      | mine =>
          rw [hmine] at ht
          cases ht
    subst hy
    obtain ⟨hreads, hwrites, hsaves, _⟩ := count_exclusivePlan cfg
    obtain ⟨hread, hwrite⟩ := slots_of_deadlockFree hfree
    have hplan : ∀ z : Sem, z ≠ .mine → t.plan.count z = cfg.exclusivePlan.count z := by
      intro z hz
      have hnone : [Sem.mine].count z = 0 := List.count_eq_zero_of_not_mem (by simpa using hz)
      rcases plan_of_waiting hregular ht hheld with heq | heq
      · rw [heq]
      · rw [heq, List.count_append, hnone, Nat.add_zero]
    -- what comes before the saves is held
    have hsorted := plan_sorted (hregular.waits _ t ht)
    rw [Task.plan, List.pairwise_append] at hsorted
    have hheldAll : ∀ z : Sem, z.rank < 2 → t.count z = cfg.exclusivePlan.count z := by
      intro z hz
      have hnone : t.todo.count z = 0 := by
        refine List.count_eq_zero_of_not_mem fun hmem => ?_
        have hle := hsorted.2.2 .save (List.mem_reverse.2 hheld) z hmem
        simp only [Sem.rank] at hle hz
        omega
      have hz' : z ≠ .mine := by
        rintro rfl
        simp [Sem.rank] at hz
      have hcount := hplan z hz'
      rw [Task.plan, List.count_append, List.count_reverse, hnone] at hcount
      exact hcount
    have hlt := count_lt_of_waiting hregular ht
    rw [hplan .save (by simp), hsaves] at hlt
    rw [hheldAll .read (by decide), hheldAll .write (by decide), hreads, hwrites, hread, hwrite]
    omega
  · have hzero : t.count .save = 0 := List.count_eq_zero_of_not_mem hheld
    rw [hzero]
    exact ⟨Nat.zero_le _, Nat.zero_le _⟩

/-- Two holds cannot share the save permits out and wait for each other. -/
lemma queue_save_eq_nil (hfree : cfg.DeadlockFree) (hregular : Regular cfg s)
    (hready : s.ready = []) (hmine : s.sems.queue .mine = []) : s.sems.queue .save = [] := by
  by_contra hne
  have hall : s.sems.weigh (fun v : Task Sem Op => v.count .save) = cfg.saveSlots :=
    weigh_of_all_waiting hregular hready hne
  have hreads := weigh_le_mul (s := s.sems) (w := fun v : Task Sem Op => v.count .save)
    (v := fun v : Task Sem Op => v.count .read) fun y u hu =>
      (count_save_le hfree hregular hmine hu).1
  have hwrites := weigh_le_mul (s := s.sems) (w := fun v : Task Sem Op => v.count .save)
    (v := fun v : Task Sem Op => v.count .write) fun y u hu =>
      (count_save_le hfree hregular hmine hu).2
  have hread : s.sems.weigh (fun v : Task Sem Op => v.count .read) ≤ cfg.maxRead := by
    have hconserved : permits s.sems s.ready .read = cfg.maxRead := hregular.conserved .read
    rw [permits] at hconserved
    omega
  have hwrite : s.sems.weigh (fun v : Task Sem Op => v.count .write) ≤ cfg.maxWrite := by
    have hconserved : permits s.sems s.ready .write = cfg.maxWrite := hregular.conserved .write
    rw [permits] at hconserved
    omega
  have hslots : 0 < cfg.saveSlots := by
    unfold Config.saveSlots
    omega
  rcases hfree.2 with hone | hone | hone
  · -- a hold takes one save permit, so it has none while it waits
    have hsaves : cfg.saveSlots = 1 := by
      unfold Config.saveSlots
      omega
    rw [hall, hsaves] at hreads
    omega
  · -- one hold at a time is past the reads
    have hle := hreads.trans (Nat.mul_le_mul_left (cfg.saveSlots - 1) (hread.trans hone.le))
    omega
  · have hle := hwrites.trans (Nat.mul_le_mul_left (cfg.saveSlots - 1) (hwrite.trans hone.le))
    omega

/-- The coroutines are never all waiting. -/
theorem queue_eq_nil (hpositive : 0 < cfg.maxRead ∧ 0 < cfg.maxWrite) (hfree : cfg.DeadlockFree)
    (hregular : Regular cfg s) (hready : s.ready = []) (x : Sem) : s.sems.queue x = [] := by
  obtain ⟨hreads, hwrites, _, hnone⟩ := count_exclusivePlan cfg
  obtain ⟨hread, hwrite⟩ := slots_of_deadlockFree hfree
  have hmine : s.sems.queue .mine = [] :=
    queue_eq_nil_of_single hregular hready Nat.one_pos
      (by rw [List.count_append, hnone]; exact le_rfl)
      (fun y hy => by cases y <;> simp [Sem.rank] at hy)
  have hsave := queue_save_eq_nil hfree hregular hready hmine
  have hwritenil : s.sems.queue .write = [] :=
    queue_eq_nil_of_single hregular hready hpositive.2
      (by rw [List.count_append, hwrites, hwrite]; exact le_rfl) fun y hy => by
        cases y with
        | read | write => simp [Sem.rank] at hy
        | save => exact hsave
        | mine => exact hmine
  have hreadnil : s.sems.queue .read = [] :=
    queue_eq_nil_of_single hregular hready hpositive.1
      (by rw [List.count_append, hreads, hread]; exact le_rfl) fun y hy => by
        cases y with
        | read => simp [Sem.rank] at hy
        | write => exact hwritenil
        | save => exact hsave
        | mine => exact hmine
  cases x with
  | read => exact hreadnil
  | write => exact hwritenil
  | save => exact hsave
  | mine => exact hmine

/-! ### The steps that are left -/

/-- The turns an operation has before it when it has its permits, its worker's moves included. -/
def Op.turns : Op → ℕ
  | .work _ | .call _ _ | .silentSave => 5
  | .exclusive _ => 3
  | .awaiting _ _ | .clearCaches | .holding _ => 1
  | .enqueuing | .clearing => 0

/-- The weight of a coroutine that waits: a permit is handed over and then used. -/
def waitingTurns (t : Coroutine) : ℕ := 2 * t.todo.length + t.op.turns

/-- The weight of a coroutine that is ready. -/
def readyTurns (t : Coroutine) : ℕ := waitingTurns t + 1

/-- The moves a worker has before it. -/
def Worker.moves (w : Worker) : ℕ :=
  match w.status with
  | .queued => 3
  | .running => 2
  | .ended => 1
  | .released => 0

/-- A bound on the steps that bring everything to an end. -/
def State.measure (s : State) : ℕ :=
  s.total waitingTurns readyTurns + (s.workers.map Worker.moves).sum

/-- After the step less is left to do, and who waited is still waiting or is ready. -/
structure Productive (cfg : Config) (s s' : State) : Prop where
  taken : ∃ a, s.step cfg a = some s'
  measure : s'.measure < s.measure
  waits : ∀ x, ∀ t ∈ s.sems.queue x,
    t ∈ s'.sems.queue x ∨ ∃ u ∈ s'.ready, u.name = t.name

lemma measure_resume_lt (ht : s.ready[i]? = some t)
    (hback : u.op.turns < waitingTurns t)
    (hwaits : ∀ xs x rest, u.todo = xs ++ x :: rest →
      2 * (rest.length + 1) + u.op.turns ≤ waitingTurns t) :
    (s.resume i u).measure < s.measure := by
  have hlocked : ∀ xs x rest, u.todo = xs ++ x :: rest →
      waitingTurns (u.advance xs (x :: rest)) ≤ waitingTurns t :=
    fun xs x rest htodo => by simpa [waitingTurns] using hwaits xs x rest htodo
  have hgranted : readyTurns (u.advance u.todo []) ≤ waitingTurns t := by
    simp only [waitingTurns] at hback
    simp only [readyTurns, waitingTurns, advance_todo, advance_op, List.length_nil]
    omega
  have htotal := total_resume_le waitingTurns readyTurns ht hlocked hgranted
  have hready : readyTurns t = waitingTurns t + 1 := rfl
  show (s.resume i u).total _ _ + (s.workers.map Worker.moves).sum < _
  rw [State.measure]
  omega

lemma waits_resume : ∀ x, ∀ v ∈ s.sems.queue x,
    v ∈ (s.resume i u).sems.queue x ∨ ∃ w ∈ (s.resume i u).ready, w.name = v.name :=
  fun _ _ hv => .inl (mem_queue_acquire hv)

lemma measure_become_lt (ht : s.ready[i]? = some t) {op : Op} (hlt : op.turns < t.op.turns) :
    (s.become i t op).measure < s.measure := by
  have htotal := total_become waitingTurns readyTurns ht op
  have hready : readyTurns { t with op := op } + (t.op.turns - op.turns) = readyTurns t := by
    simp only [readyTurns, waitingTurns]
    omega
  show (s.become i t op).total _ _ + (s.workers.map Worker.moves).sum < _
  rw [State.measure]
  omega

lemma measure_spawn_lt {lane : Option Lane} {op : Op} (ht : s.ready[i]? = some t)
    (hlt : op.turns + 3 < t.op.turns) : (s.spawn i t lane op).measure < s.measure := by
  have htotal := total_become waitingTurns readyTurns ht op
  have hready : readyTurns { t with op := op } + (t.op.turns - op.turns) = readyTurns t := by
    simp only [readyTurns, waitingTurns]
    omega
  show (s.become i t op).total _ _ +
    ((s.workers ++ [(⟨t.name, lane, .queued⟩ : Worker)]).map Worker.moves).sum < _
  rw [State.measure, List.map_append, List.sum_append]
  simp only [List.map_cons, List.map_nil, List.sum_singleton, Worker.moves]
  omega

lemma measure_depart_lt {repair : Bool} (hregular : Regular cfg s) (ht : s.ready[i]? = some t)
    (hlt : repair = true → 0 < t.op.turns) : (s.depart i t repair).measure < s.measure := by
  have htotal : (s.depart i t repair).total waitingTurns readyTurns + readyTurns t ≤
      s.total waitingTurns readyTurns + _ :=
    total_depart_le _ _ _ hregular.orderly ht
      (fun v x hv => by
        obtain ⟨rest, htodo⟩ := List.head?_eq_some_iff.1 hv
        simp only [readyTurns, waitingTurns, Task.handed, htodo, List.tail_cons, List.length_cons]
        omega) rfl rfl
  have hafter : weigh readyTurns
      (if repair then [(⟨t.name, .clearing, [], []⟩ : Coroutine)] else []) < readyTurns t := by
    cases repair with
    | false => exact Nat.succ_pos _
    | true =>
        have hpos := hlt rfl
        have hclearing : readyTurns ⟨t.name, .clearing, [], []⟩ = 1 := rfl
        rw [if_pos rfl, weigh_cons, weigh_nil, hclearing, readyTurns, waitingTurns]
        omega
  show (s.depart i t repair).total _ _ + (s.workers.map Worker.moves).sum < _
  rw [State.measure]
  omega

lemma waits_depart {repair : Bool} : ∀ x, ∀ v ∈ s.sems.queue x,
    v ∈ (s.depart i t repair).sems.queue x ∨
      ∃ w ∈ (s.depart i t repair).ready, w.name = v.name := by
  intro x v hv
  rcases waits_or_woken_all hv with hv | ⟨w, hw, hname⟩
  · exact .inl hv
  · exact .inr ⟨w, List.mem_append_right _ hw, hname⟩

/-- A worker that is not released can move. -/
lemma productive_worker {j : ℕ} {w : Worker} (hw : s.workers[j]? = some w)
    (hstatus : w.status ≠ .released) : ∃ s', Productive cfg s s' := by
  have hmeasure : ∀ status : Status, Worker.moves { w with status := status } < w.moves →
      (s.setStatus j w status).measure < s.measure := by
    intro status hlt
    have hold := sum_eq Worker.moves hw
    have hnew := sum_replaceAt Worker.moves s.workers j [{ w with status := status }]
    simp only [List.map_cons, List.map_nil, List.sum_singleton] at hnew
    show s.total _ _ + ((replaceAt s.workers j _).map Worker.moves).sum < _
    rw [State.measure]
    omega
  have hwaits : ∀ x, ∀ t ∈ s.sems.queue x, t ∈ s.sems.queue x ∨ ∃ u ∈ s.ready, u.name = t.name :=
    fun _ _ ht => .inl ht
  cases hcase : w.status with
  | queued =>
      refine ⟨s.setStatus j w .running, ⟨.start j, ?_⟩, hmeasure _ ?_, hwaits⟩
      · simp [State.step, hw, hcase]
      · simp [Worker.moves, hcase]
  | running =>
      refine ⟨s.setStatus j w .ended, ⟨.finish j, ?_⟩, hmeasure _ ?_, hwaits⟩
      · simp [State.step, hw, hcase]
      · simp [Worker.moves, hcase]
  | ended =>
      have hlt : Worker.moves { w with status := .released } < w.moves := by
        simp [Worker.moves, hcase]
      cases hlane : w.lane with
      | none =>
          refine ⟨s.setStatus j w .released, ⟨.callback j, ?_⟩, hmeasure _ hlt, hwaits⟩
          simp [State.step, hw, hcase, hlane]
      | some l =>
          refine ⟨(s.setStatus j w .released).releaseSlot w.name l, ⟨.callback j, ?_⟩,
            hmeasure _ hlt, hwaits⟩
          simp [State.step, hw, hcase, hlane, release_eq]
  | released => exact absurd hcase hstatus

/-- A coroutine that is ready can go on, or a worker it waits for can. -/
lemma productive_ready (hregular : Regular cfg s) (hslotted : Slotted cfg s)
    (ht : s.ready[i]? = some t) : ∃ s', Productive cfg s s' := by
  have hwaits : ∀ x, ∀ v ∈ s.sems.queue x, v ∈ s.sems.queue x ∨ ∃ u ∈ s.ready, u.name = v.name :=
    fun _ _ hv => .inl hv
  by_cases htodo : t.todo = []
  · have hstep : s.step cfg (.run i) = s.turn cfg i t := by simp [State.step, ht]
    cases hop : t.op with
    | work repair =>
        refine ⟨s.spawn i t none (.awaiting repair false), ⟨.run i, ?_⟩,
          measure_spawn_lt ht (by simp [hop, Op.turns]), fun x v hv => .inl hv⟩
        simp [hstep, State.turn, htodo, hop]
    | clearCaches =>
        refine ⟨s.depart i t true, ⟨.run i, ?_⟩,
          measure_depart_lt hregular ht (by simp [hop, Op.turns]), waits_depart⟩
        simp [hstep, State.turn, htodo, hop]
    | call l r =>
        by_cases hbusy : cfg.bound l ≤ s.inflight l
        · refine ⟨s.depart i t false, ⟨.run i, ?_⟩,
            measure_depart_lt hregular ht (by simp), waits_depart⟩
          simp [hstep, State.turn, htodo, hop, hbusy]
        · refine ⟨(s.takeSlot t.name l).spawn i t (some l) (.awaiting false r), ⟨.run i, ?_⟩,
            measure_spawn_lt (s := s.takeSlot t.name l) ht (by simp [hop, Op.turns]),
            fun x v hv => .inl hv⟩
          simp [hstep, State.turn, htodo, hop, hbusy]
    | awaiting repair r =>
        by_cases hawaited : s.isAwaited t = true
        · -- its worker has yet to finish
          obtain ⟨w, hw, hactive⟩ := List.any_eq_true.1 hawaited
          obtain ⟨j, hj⟩ := List.mem_iff_getElem?.1 hw
          refine productive_worker hj fun hreleased => ?_
          simp [Worker.isActive, hreleased] at hactive
        · refine ⟨s.depart i t repair, ⟨.run i, ?_⟩,
            measure_depart_lt hregular ht (by simp [hop, Op.turns]), waits_depart⟩
          simp [hstep, State.turn, htodo, hop, hawaited]
    | silentSave =>
        by_cases hrebuilding : s.rebuilding = true
        · refine ⟨s.become i t .enqueuing, ⟨.run i, ?_⟩,
            measure_become_lt ht (by simp [hop, Op.turns]), fun x v hv => .inl hv⟩
          simp [hstep, State.turn, htodo, hop, hrebuilding]
        · refine ⟨s.spawn i t none (.awaiting false false), ⟨.run i, ?_⟩,
            measure_spawn_lt ht (by simp [hop, Op.turns]), fun x v hv => .inl hv⟩
          simp [hstep, State.turn, htodo, hop, hrebuilding]
    | enqueuing =>
        refine ⟨{ s.depart i t false with queued := t.name :: s.queued }, ⟨.run i, ?_⟩,
          measure_depart_lt hregular ht (by simp), waits_depart⟩
        simp [hstep, State.turn, htodo, hop]
    | exclusive rebuild =>
        by_cases hsaves : 0 < s.inflight .save
        · -- the saves it waits for have workers
          rw [hslotted.counted .save] at hsaves
          obtain ⟨w, hw, hslot⟩ := List.countP_pos_iff.1 (by exact_mod_cast hsaves)
          obtain ⟨j, hj⟩ := List.mem_iff_getElem?.1 hw
          refine productive_worker hj fun hreleased => ?_
          simp [Worker.hasSlot, hreleased] at hslot
        · refine ⟨s.resume i { t with op := .holding rebuild, todo := [.mine] }, ⟨.run i, ?_⟩,
            measure_resume_lt ht ?_ ?_, waits_resume⟩
          · simp [hstep, State.turn, htodo, hop, hsaves]
          · simp [waitingTurns, hop, Op.turns]
          · intro xs x rest hsplit
            have hlength := congrArg List.length hsplit
            simp only [List.length_append, List.length_cons, List.length_nil] at hlength
            simp only [waitingTurns, hop, htodo, Op.turns, List.length_nil]
            omega
    | holding rebuild =>
        refine ⟨s.depart i t rebuild, ⟨.run i, ?_⟩,
          measure_depart_lt hregular ht (by simp [hop, Op.turns]), waits_depart⟩
        simp [hstep, State.turn, htodo, hop]
    | clearing =>
        refine ⟨{ s.depart i t false with repairing := none }, ⟨.run i, ?_⟩,
          measure_depart_lt hregular ht (by simp), waits_depart⟩
        simp [hstep, State.turn, htodo, hop]
  · refine ⟨s.resume i t, ⟨.run i, step_resume ht htodo⟩, measure_resume_lt ht ?_ ?_, waits_resume⟩
    · have hpos := List.length_pos_iff.2 htodo
      simp only [waitingTurns]
      omega
    · intro xs x rest hsplit
      simp only [waitingTurns, hsplit, List.length_append, List.length_cons]
      omega

/-- Under these settings everybody who waits is handed the permit after some steps. -/
theorem granted_of_deadlockFree (hpositive : 0 < cfg.maxRead ∧ 0 < cfg.maxWrite)
    (hfree : cfg.DeadlockFree) (h : (laneSystem cfg).Reachable s) (ht : t ∈ s.sems.queue x) :
    s.Granted cfg t := by
  -- by induction on what is left to do
  induction hn : s.measure using Nat.strong_induction_on generalizing s with
  | _ n ih =>
      have hregular := regular_of_reachable h
      by_cases hready : s.ready = []
      · rw [queue_eq_nil hpositive hfree hregular hready x] at ht
        cases ht
      · obtain ⟨u, us, hus⟩ := List.exists_cons_of_ne_nil hready
        obtain ⟨s', ⟨a, hstep⟩, hlt, hwaits⟩ := productive_ready (i := 0) (t := u) hregular
          (slotted_of_reachable h) (by rw [hus]; rfl)
        have hnext : (laneSystem cfg).next s a = some s' := hstep
        rcases hwaits x t ht with ht | hgranted
        · obtain ⟨s'', hsteps, hgranted⟩ := ih s'.measure (hn ▸ hlt) (h.step trivial hnext) ht rfl
          exact ⟨s'', .head hnext hsteps, hgranted⟩
        · exact ⟨s', .head hnext (.refl s'), hgranted⟩

end PalaceDaemon.Lanes

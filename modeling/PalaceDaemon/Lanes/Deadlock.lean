/-
Settings under which exclusive holds wait for each other for ever.

Once all permits of a semaphore are held by coroutines that wait for another one of it, none of
them is ever given back, and nobody in that queue goes on (`Wedged`).  Every setting outside
`DeadlockFree` leads there.  When a hold wants more read permits than there are, one of them is
enough.  When it wants at least two and there are enough, as many holds as there are permits queue
up behind that many reads; each read hands its permit to the first hold of the queue, which goes to
its end again for the next one.  When it wants one read permit, two holds share out the save
permits in the same way.
-/
import PalaceDaemon.Lanes.Progress

namespace PalaceDaemon.Lanes

open Semaphore Tasks

/-- All permits of `x` are held by coroutines that wait for another one. -/
def Wedged (cfg : Config) (s : State) (x : Sem) : Prop :=
  cfg.permits x ≤ weigh (fun t : Task Sem Op => t.count x) (s.sems.queue x)

variable {cfg : Config} {s s' : State} {t u : Coroutine} {i : ℕ} {x : Sem}

/-! ### Nothing leaves a wedged queue -/

/-- Of a wedged semaphore nobody has a permit to give back. -/
lemma not_mem_held_of_wedged (hregular : Regular cfg s) (hwedged : Wedged cfg s x)
    (ht : t ∈ s.ready) : x ∉ t.held := by
  intro hx
  have hconserved := hregular.conserved x
  have hqueue := weigh_queue_le (fun t : Task Sem Op => t.count x) s.sems x
  have hready := le_weigh (fun t : Task Sem Op => t.count x) ht
  have hpos : 0 < t.count x := List.count_pos_iff.2 hx
  rw [Wedged] at hwedged
  rw [permits] at hconserved
  omega

lemma wedged_traffic (hregular : Regular cfg s) (hwedged : Wedged cfg s x)
    (htraffic : Traffic cfg s s') :
    Wedged cfg s' x ∧ ∀ u ∈ s.sems.queue x, (∀ l r, u.op ≠ .call l r) → u ∈ s'.sems.queue x := by
  have hsame : s'.sems.queue x = s.sems.queue x → Wedged cfg s' x ∧
      ∀ u ∈ s.sems.queue x, (∀ l r, u.op ≠ .call l r) → u ∈ s'.sems.queue x := by
    intro hqueue
    rw [Wedged, hqueue]
    exact ⟨hwedged, fun _ hu _ => hu⟩
  cases htraffic with
  | still hsems _ _ => exact hsame (by rw [hsems])
  | arrives _ hsems _ _ => exact hsame (by rw [hsems])
  | becomes _ _ hsems _ _ => exact hsame (by rw [hsems])
  | @resumes i t t' ht hresumes hsems _ _ =>
      obtain ⟨us, hqueue⟩ := queue_acquire s.sems t' x
      rw [Wedged, hsems, hqueue, weigh_append]
      exact ⟨Nat.le_add_right_of_le hwedged, fun u hu _ => List.mem_append_left us hu⟩
  | departs ht _ hsems _ _ =>
      refine hsame ?_
      rw [hsems]
      exact queue_releaseAll (not_mem_held_of_wedged hregular hwedged (List.mem_of_getElem? ht))
  | @abandons y k t l r ht hop hsems _ _ =>
      by_cases hxy : x = y
      · -- the call that leaves holds nothing
        subst hxy
        have hnone : t.count x = 0 := by
          rw [Task.count, held_nil_of_call hregular (List.mem_of_getElem? ht) hop]
          rfl
        have hsplit := weigh_eq (fun t : Task Sem Op => t.count x) ht
        have hqueue : s'.sems.queue x = others (s.sems.queue x) k := by
          rw [hsems]
          exact Function.update_self _ _ _
        rw [Wedged] at hwedged
        rw [Wedged, hqueue]
        refine ⟨by omega, fun u hu hcall => ((mem_iff ht).1 hu).resolve_left ?_⟩
        rintro rfl
        exact hcall l r hop
      · refine hsame ?_
        rw [hsems]
        exact Function.update_of_ne hxy _ _

/-- Who waits for a wedged semaphore, other than a call that may be cancelled, waits for ever. -/
theorem not_granted_of_wedged (h : (laneSystem cfg).Reachable s) (hwedged : Wedged cfg s x)
    (hu : u ∈ s.sems.queue x) (hop : ∀ l r, u.op ≠ .call l r) : ¬ s.Granted cfg u := by
  rintro ⟨s', hsteps, v, hv, hname⟩
  have hstays : (laneSystem cfg).Reachable s' ∧ Wedged cfg s' x ∧ u ∈ s'.sems.queue x := by
    clear hv
    induction hsteps with
    | refl => exact ⟨h, hwedged, hu⟩
    | tail _ hnext ih =>
        obtain ⟨hreached, hstill, hwaits⟩ := ih
        obtain ⟨hafter, hkeeps⟩ := wedged_traffic (regular_of_reachable hreached) hstill
          (traffic_of_moves (moves_of_step hnext))
        exact ⟨hreached.step trivial hnext, hafter, hkeeps u hwaits hop⟩
  obtain ⟨hreached, _, hwaits⟩ := hstays
  obtain ⟨j, hj⟩ := List.mem_iff_getElem?.1 hv
  exact (name_ne_of_others (regular_of_reachable hreached) hj).2 x u hwaits hname.symm

/-! ### Arriving, waiting and finishing -/

/-- One more worker. -/
def State.beside (s : State) (w : Worker) : State := { s with workers := s.workers ++ [w] }

/-- The worker that was started last moves on. -/
lemma step_last {a : Label} {w : Worker} {status : Status}
    (ha : (a = .start s.workers.length ∧ w.status = .queued ∧ status = .running) ∨
      (a = .finish s.workers.length ∧ w.status = .running ∧ status = .ended)) :
    (s.beside w).step cfg a = some (s.beside { w with status := status }) := by
  have hlast : (s.beside w).workers[s.workers.length]? = some w := by simp [State.beside]
  have hset : (s.beside w).setStatus s.workers.length w status =
      s.beside { w with status := status } := by
    simp only [State.setStatus, State.beside, replaceAt_last]
  rcases ha with ⟨rfl, hw, rfl⟩ | ⟨rfl, hw, rfl⟩
  all_goals
    simp only [State.step, hlast, Option.bind_some, hw, if_true]
    exact congrArg some hset

/-- A coroutine whose worker has finished goes on and gives its permit back. -/
lemma step_return {repair r : Bool} (ht : s.ready[i]? = some t) (htodo : t.todo = [])
    (hop : t.op = .awaiting repair r) (hdone : s.isAwaited t = false) :
    s.step cfg (.run i) = some (s.depart i t repair) := by
  simp [State.step, ht, State.turn, htodo, hop, hdone]

/-- A coroutine whose worker was just started waits for it, and gives its permit back. -/
lemma finishes_spawned (cfg : Config) (lane : Option Lane) (r : Bool) (ht : s.ready[i]? = some t)
    (htodo : t.todo = []) (hidle : ∀ w ∈ s.workers, w.isActive → t.name ≠ w.name) :
    ∃ s', (laneSystem cfg).Steps (s.spawn i t lane (.awaiting false r)) s' ∧
      s'.sems = (releaseAll s.sems t.held).1 ∧
      s'.ready = replaceAt s.ready i [] ++ (releaseAll s.sems t.held).2 ∧
      s'.repairing = s.repairing := by
  have hstart : (s.spawn i t lane (.awaiting false r)).step cfg (.start s.workers.length) =
        some ((s.become i t (.awaiting false r)).beside ⟨t.name, lane, .running⟩) :=
    step_last (s := s.become i t (.awaiting false r)) (w := ⟨t.name, lane, .queued⟩)
      (.inl ⟨rfl, rfl, rfl⟩)
  have hfinish : ((s.become i t (.awaiting false r)).beside ⟨t.name, lane, .running⟩).step cfg
      (.finish s.workers.length) =
        some ((s.become i t (.awaiting false r)).beside ⟨t.name, lane, .ended⟩) :=
    step_last (s := s.become i t (.awaiting false r)) (w := ⟨t.name, lane, .running⟩)
      (.inr ⟨rfl, rfl, rfl⟩)
  have hdone : ((s.become i t (.awaiting false r)).beside ⟨t.name, lane, .ended⟩).isAwaited
      { t with op := .awaiting false r } = false := by
    refine List.any_eq_false.2 fun w hw => ?_
    rcases List.mem_append.1 hw with hw | hw
    · cases hactive : w.isActive with
      | false => simp
      | true =>
          have hne := hidle w hw hactive
          simp [Ne.symm hne]
    · obtain rfl := List.mem_singleton.1 hw
      simp [Worker.isActive]
  have hreturn : ((s.become i t (.awaiting false r)).beside ⟨t.name, lane, .ended⟩).step cfg
      (.run i) = _ :=
    step_return (getElem?_replaceAt ht _) htodo rfl hdone
  refine ⟨_, steps_head hstart (steps_head hfinish (steps_head hreturn (.refl _))), rfl, ?_, rfl⟩
  show replaceAt (replaceAt s.ready i _) i _ ++ _ = _
  rw [replaceAt_replaceAt ht]
  rfl

/-- An ordinary operation finishes, and its permit goes to whoever waits for it. -/
lemma finishes (h : (laneSystem cfg).Reachable s) (ht : s.ready[i]? = some t)
    (hop : t.op = .work false ∨ ∃ l r, t.op = .call l r) (htodo : t.todo = []) :
    ∃ s', (laneSystem cfg).Steps s s' ∧ s'.sems = (releaseAll s.sems t.held).1 ∧
      s'.ready = replaceAt s.ready i [] ++ (releaseAll s.sems t.held).2 ∧
      s'.repairing = s.repairing := by
  have hstep : s.step cfg (.run i) = s.turn cfg i t := by simp [State.step, ht]
  have hidle : ∀ w ∈ s.workers, w.isActive → t.name ≠ w.name := fun w hw hactive =>
    (attached_of_reachable h).not_named (List.mem_of_getElem? ht)
      (by rcases hop with hop | ⟨l, r, hop⟩ <;> simp [hop]) hw hactive
  rcases hop with hop | ⟨l, r, hop⟩
  · obtain ⟨s', hsteps, hend⟩ := finishes_spawned cfg none false ht htodo hidle
    refine ⟨s', steps_head (hstep.trans ?_) hsteps, hend⟩
    simp [State.turn, htodo, hop]
  · by_cases hbusy : cfg.bound l ≤ s.inflight l
    · refine ⟨s.depart i t false, steps_head (hstep.trans ?_) (.refl _), rfl, rfl, rfl⟩
      simp [State.turn, htodo, hop, hbusy]
    · obtain ⟨s', hsteps, hend⟩ := finishes_spawned (s := s.takeSlot t.name l) cfg (some l) r ht
        htodo hidle
      refine ⟨s', steps_head (hstep.trans ?_) hsteps, hend⟩
      simp [State.turn, htodo, hop, hbusy]

/-- An ordinary operation hands its permit of `x` to the first hold that waits for it, and that one
waits again for the next. -/
lemma hands_over {e : Coroutine} {es : List Coroutine} {rest : List Sem}
    (h : (laneSystem cfg).Reachable s) (ht : s.ready[i]? = some t)
    (hop : t.op = .work false ∨ ∃ l r, t.op = .call l r) (htodo : t.todo = [])
    (hheld : t.held = [x]) (hqueue : s.sems.queue x = e :: es) (hmore : e.todo = x :: x :: rest) :
    ∃ s', (laneSystem cfg).Steps s s' ∧ s'.ready = replaceAt s.ready i [] ∧
      s'.sems.queue x = es ++ [e.handed x] := by
  obtain ⟨s₁, hsteps, hsems, hready, _⟩ := finishes h ht hop htodo
  have hrelease : releaseAll s.sems t.held =
      ({ s.sems with queue := Function.update s.sems.queue x es }, [e.handed x]) := by
    rw [hheld]
    show ((release s.sems x).1, (release s.sems x).2 ++ []) = _
    rw [release_cons hqueue]
    rfl
  rw [hrelease] at hsems hready
  have hfree : s₁.sems.free x = 0 := by
    rw [hsems]
    exact (regular_of_reachable h).orderly.locked x (by rw [hqueue]; simp)
  -- the hold is the last coroutine that is ready
  have hlast : s₁.ready[(replaceAt s.ready i []).length]? = some (e.handed x) := by
    rw [hready]
    simp
  have hwants : (e.handed x).todo = x :: rest := by
    show e.todo.tail = _
    rw [hmore]
    rfl
  have hstep : s₁.step cfg (.run (replaceAt s.ready i []).length) = _ :=
    step_resume hlast (by rw [hwants]; simp)
  have hwaits := acquire_locked hwants (.inl hfree)
  refine ⟨_, hsteps.trans (steps_head hstep (.refl _)), ?_, ?_⟩
  · show replaceAt s₁.ready _ (acquire s₁.sems (e.handed x)).2.toList = _
    rw [hwaits, hready, replaceAt_last]
    simp
  · show (acquire s₁.sems (e.handed x)).1.queue x = _
    rw [hwaits, hsems]
    simp [Sems.join]

/-- The coroutine is an ordinary operation with a permit of `x`. -/
def HasOne (x : Sem) (t : Coroutine) : Prop :=
  (t.op = .work false ∨ ∃ l r, t.op = .call l r) ∧ t.todo = [] ∧ t.held = [x]

/-- When every ready coroutine is an ordinary operation with a permit of `x`, and the holds `fs`
that wait for `x` want at least two more each, then after the operations have finished each of
the holds has one more and waits again. -/
lemma rotates {fs gs : List Coroutine} (h : (laneSystem cfg).Reachable s)
    (hready : ∀ t ∈ s.ready, HasOne x t) (hlength : s.ready.length = fs.length)
    (hqueue : s.sems.queue x = fs ++ gs) (hmore : ∀ f ∈ fs, ∃ rest, f.todo = x :: x :: rest) :
    ∃ s', (laneSystem cfg).Steps s s' ∧ s'.sems.queue x = gs ++ fs.map (·.handed x) := by
  induction fs generalizing s gs with
  | nil => exact ⟨s, .refl s, by simpa using hqueue⟩
  | cons f fs ih =>
      obtain ⟨t, ts, hts⟩ : ∃ t ts, s.ready = t :: ts := by
        cases hcase : s.ready with
        | nil => simp [hcase] at hlength
        | cons t ts => exact ⟨t, ts, rfl⟩
      have hhead : s.ready[0]? = some t := by rw [hts]; rfl
      obtain ⟨hop, htodo, hheld⟩ := hready t (List.mem_of_getElem? hhead)
      obtain ⟨rest, hrest⟩ := hmore f List.mem_cons_self
      have hcons : s.sems.queue x = f :: (fs ++ gs) := hqueue
      obtain ⟨s₁, hsteps, hready₁, hqueue₁⟩ :=
        hands_over h hhead hop htodo hheld hcons hrest
      have htail : s₁.ready = ts := by
        rw [hready₁, hts]
        simp [replaceAt]
      have hrotated : s₁.sems.queue x = fs ++ (gs ++ [f.handed x]) := by
        rw [hqueue₁, List.append_assoc]
      obtain ⟨s₂, hsteps₂, hqueue₂⟩ := ih (h.steps hsteps)
        (fun u hu => hready u (by rw [hts]; exact List.mem_cons_of_mem t (htail ▸ hu)))
        (by
          rw [hts] at hlength
          rw [htail]
          simpa using hlength)
        hrotated fun g hg => hmore g (List.mem_cons_of_mem f hg)
      exact ⟨s₂, hsteps.trans hsteps₂, by rw [hqueue₂]; simp⟩

/-! ### Holds that share out the permits -/

/-- A hold waits for ever. -/
def Deadlocks (cfg : Config) : Prop :=
  ∃ s x t, (laneSystem cfg).Reachable s ∧ t ∈ s.sems.queue x ∧ t.op = .exclusive false ∧
    ¬ s.Granted cfg t

lemma deadlocks_of_wedged (h : (laneSystem cfg).Reachable s) (hwedged : Wedged cfg s x)
    (ht : t ∈ s.sems.queue x) (hop : t.op = .exclusive false) : Deadlocks cfg :=
  ⟨s, x, t, h, ht, hop, not_granted_of_wedged h hwedged ht (by simp [hop])⟩

/-- After the operations have finished, the holds `fs` have all permits of `x` and wait for more. -/
lemma deadlocks_of_shared {fs : List Coroutine} (h : (laneSystem cfg).Reachable s)
    (hready : ∀ t ∈ s.ready, HasOne x t) (hlength : s.ready.length = fs.length)
    (hqueue : s.sems.queue x = fs) (hmore : ∀ f ∈ fs, ∃ rest, f.todo = x :: x :: rest)
    (hop : ∀ f ∈ fs, f.op = .exclusive false) (hne : fs ≠ [])
    (hall : cfg.permits x ≤ weigh (fun f : Task Sem Op => f.count x + 1) fs) : Deadlocks cfg := by
  have hsplit : s.sems.queue x = fs ++ [] := by rw [hqueue, List.append_nil]
  obtain ⟨s', hsteps, hafter⟩ := rotates h hready hlength hsplit hmore
  obtain ⟨f, hf⟩ := List.exists_mem_of_ne_nil fs hne
  refine deadlocks_of_wedged (h.steps hsteps) (x := x) (t := f.handed x) ?_ ?_ (hop f hf)
  · have hsum : weigh (fun t : Task Sem Op => t.count x) (fs.map (·.handed x)) =
        weigh (fun f : Task Sem Op => f.count x + 1) fs := by
      rw [weigh, weigh, List.map_map]
      congr 1
      refine List.map_congr_left fun f _ => ?_
      simp [Task.count, Task.handed]
    rw [Wedged, hafter, List.nil_append, hsum]
    exact hall
  · rw [hafter]
    exact List.mem_map_of_mem hf

/-- What a hold takes, when it takes at least `n` read permits. -/
lemma exclusivePlan_split (cfg : Config) {n : ℕ} (h : n ≤ cfg.readSlots) :
    ∃ rest, cfg.exclusivePlan = List.replicate n .read ++ rest ∧
      (n < cfg.readSlots → ∃ rest', rest = .read :: rest') := by
  refine ⟨List.replicate (cfg.readSlots - n) .read ++ List.replicate cfg.writeSlots .write ++
    List.replicate cfg.saveSlots .save, ?_, fun hlt => ?_⟩
  · have hsum : List.replicate cfg.readSlots Sem.read =
        List.replicate n .read ++ List.replicate (cfg.readSlots - n) .read := by
      rw [← List.replicate_add]
      congr 1
      omega
    rw [Config.exclusivePlan, hsum]
    simp only [List.append_assoc]
  · obtain ⟨k, hk⟩ : ∃ k, cfg.readSlots - n = k + 1 := ⟨cfg.readSlots - n - 1, by omega⟩
    rw [hk, List.replicate_succ]
    exact ⟨_, rfl⟩

/-- A hold that wants more read permits than there are takes them all. -/
lemma deadlocks_of_few_reads (h : cfg.maxRead < cfg.readSlots) : Deadlocks cfg := by
  obtain ⟨rest, hplan, hmore⟩ := exclusivePlan_split cfg h.le
  obtain ⟨rest', rfl⟩ := hmore h
  have hcount : ∀ y, (List.replicate cfg.maxRead Sem.read).count y ≤
      (State.fresh cfg).sems.free y := by
    intro y
    rw [List.count_replicate]
    split_ifs with hy
    · obtain rfl : Sem.read = y := by simpa using hy
      exact le_rfl
    · exact Nat.zero_le _
  have hjoin : (laneSystem cfg).exec (State.fresh cfg) [.arrive .mineExclusive, .run 0] = _ :=
    exec_join rfl hplan hcount (fun _ _ => rfl) (.inl (by simp [State.fresh, Config.permits]))
  refine deadlocks_of_wedged (StepSystem.Reachable.exec (.init rfl) hjoin) (x := .read)
    (t := ⟨0, .exclusive false, (List.replicate cfg.maxRead .read).reverse, .read :: rest'⟩)
    ?_ List.mem_cons_self rfl
  show cfg.maxRead ≤ weigh _ [_]
  simp [Task.count]

/-- Some reads have arrived and have their permits. -/
lemma reads_arrive (cfg : Config) {k : ℕ} (hk : k ≤ cfg.maxRead) :
    ∃ s, (laneSystem cfg).Reachable s ∧ s.rebuilding = false ∧ s.ready.length = k ∧
      (∀ t ∈ s.ready, HasOne .read t) ∧ s.sems.free .read = cfg.maxRead - k ∧
      s.sems.queue .read = [] := by
  induction k with
  | zero => exact ⟨State.fresh cfg, .init rfl, rfl, rfl, by simp [State.fresh], rfl, rfl⟩
  | succ k ih =>
      obtain ⟨s, hreached, hrebuilding, hlength, hready, hfree, hqueue⟩ := ih (by omega)
      have hstart : (laneSystem cfg).exec s [.arrive .read, .run s.ready.length] = _ :=
        exec_start rfl (List.cons_ne_nil Sem.read [])
        (fun y => by
          rw [List.count_singleton]
          split_ifs with hy
          · obtain rfl : Sem.read = y := by simpa using hy
            omega
          · exact Nat.zero_le _)
        (fun y hy => by
          obtain rfl := List.mem_singleton.1 hy
          exact hqueue)
      refine ⟨_, StepSystem.Reachable.exec hreached hstart, hrebuilding, ?_, fun t ht => ?_, ?_,
        hqueue⟩
      · simp [State.started, hlength]
      · rcases List.mem_append.1 ht with ht | ht
        · exact hready t ht
        · obtain rfl := List.mem_singleton.1 ht
          exact ⟨.inl rfl, rfl, rfl⟩
      · show s.sems.free .read - [Sem.read].count .read = _
        rw [hfree, List.count_singleton_self]
        omega

/-- Behind reads that have all permits some holds wait for their first one. -/
lemma holds_arrive (hslots : 0 < cfg.readSlots) (k : ℕ) :
    ∃ s, (laneSystem cfg).Reachable s ∧ s.rebuilding = false ∧ s.ready.length = cfg.maxRead ∧
      (∀ t ∈ s.ready, HasOne .read t) ∧ s.sems.free .read = 0 ∧
      (s.sems.queue .read).length = k ∧ ∀ f ∈ s.sems.queue .read,
        f.op = .exclusive false ∧ f.held = [] ∧ f.todo = cfg.exclusivePlan := by
  induction k with
  | zero =>
      obtain ⟨s, hreached, hrebuilding, hlength, hready, hfree, hqueue⟩ :=
        reads_arrive cfg le_rfl
      exact ⟨s, hreached, hrebuilding, hlength, hready, by omega, by simp [hqueue],
        by simp [hqueue]⟩
  | succ k ih =>
      obtain ⟨s, hreached, hrebuilding, hlength, hready, hfree, hcount, hqueue⟩ := ih
      obtain ⟨rest, hplan, hmore⟩ := exclusivePlan_split cfg (Nat.zero_le _)
      obtain ⟨rest', rfl⟩ := hmore hslots
      have harrives : Arrival.coroutine cfg s .mineExclusive =
          some (.exclusive false, cfg.exclusivePlan) := by
        simp [Arrival.coroutine, hrebuilding]
      have hjoin := exec_join harrives hplan (fun _ => Nat.zero_le _)
        (fun _ hy => absurd hy List.not_mem_nil) (.inl (by simp [hfree]))
      have hlast : ∀ f : Coroutine, f ∈ (s.joined .mineExclusive (.exclusive false)
          (List.replicate 0 .read) .read rest').sems.queue .read →
          f ∈ s.sems.queue .read ∨ f = ⟨s.next, .exclusive false, [], .read :: rest'⟩ := by
        intro f hf
        exact (join_mem.1 hf).imp_right And.left
      refine ⟨_, StepSystem.Reachable.exec hreached hjoin, hrebuilding, hlength, hready, ?_, ?_,
        fun f hf => ?_⟩
      · show s.sems.free .read - _ = 0
        omega
      · show (Function.update s.sems.queue .read (s.sems.queue .read ++ [_]) .read).length = _
        rw [Function.update_self, List.length_append, hcount]
        rfl
      · rcases hlast f hf with hf | rfl
        · exact hqueue f hf
        · exact ⟨rfl, rfl, by rw [hplan]; rfl⟩

/-- Holds that want at least two read permits each share them out. -/
lemma deadlocks_of_reads (hslots : 2 ≤ cfg.readSlots) (hreads : 0 < cfg.maxRead) :
    Deadlocks cfg := by
  obtain ⟨s, hreached, _, hlength, hready, _, hcount, hqueue⟩ :=
    holds_arrive (show 0 < cfg.readSlots by omega) cfg.maxRead
  obtain ⟨rest, hplan, hmore⟩ := exclusivePlan_split cfg (n := 1) (by omega)
  obtain ⟨rest', rfl⟩ := hmore (by omega)
  refine deadlocks_of_shared hreached hready (hlength.trans hcount.symm) rfl
    (fun f hf => ⟨rest', by rw [(hqueue f hf).2.2, hplan]; rfl⟩) (fun f hf => (hqueue f hf).1)
    (fun hnil => by
      rw [hnil, List.length_nil] at hcount
      omega) ?_
  -- each of them gets one
  have hweigh : ∀ fs : List Coroutine,
      fs.length ≤ weigh (fun f : Task Sem Op => f.count .read + 1) fs := by
    intro fs
    induction fs with
    | nil => exact le_rfl
    | cons f fs ih =>
        rw [weigh_cons, List.length_cons]
        omega
  have hle := hweigh (s.sems.queue .read)
  rw [hcount] at hle
  exact hle

/-- The request of a hook that saves a checkpoint. -/
def diaryWrite : Request := ⟨"tools/call", some ⟨"mempalace_diary_write", []⟩⟩

lemma coroutine_diaryWrite (cfg : Config) (s : State) :
    Arrival.coroutine cfg s (.call diaryWrite) = some (.call .save false, [.save]) := by
  have hintercepted : diaryWrite.intercepted = false := by decide
  have hread : decide (diaryWrite.toolName ∈ readTools) = false := by decide
  have hsem : semFor diaryWrite = .save := by decide
  have hlane : diaryWrite.lane = .save := by decide
  simp [Arrival.coroutine, hintercepted, hread, hsem, hlane]

/-- A save that arrives takes a free save permit. -/
lemma save_arrives (h : (laneSystem cfg).Reachable s) (hrebuilding : s.rebuilding = false)
    (hfree : 0 < s.sems.free .save) (hqueue : ∀ x, s.sems.queue x = []) :
    ∃ s', (laneSystem cfg).Reachable s' ∧ s'.rebuilding = false ∧
      (∃ t, HasOne .save t ∧ s'.ready = s.ready ++ [t]) ∧
      (∀ x, s'.sems.free x = s.sems.free x - [Sem.save].count x) ∧
      ∀ x, s'.sems.queue x = [] := by
  have hstart : (laneSystem cfg).exec s [.arrive (.call diaryWrite), .run s.ready.length] = _ :=
    exec_start (coroutine_diaryWrite cfg s) (List.cons_ne_nil Sem.save [])
      (fun y => by
        rw [List.count_singleton]
        split_ifs with hy
        · obtain rfl : Sem.save = y := by simpa using hy
          omega
        · exact Nat.zero_le _)
      fun _ _ => hqueue _
  exact ⟨_, StepSystem.Reachable.exec h hstart, hrebuilding,
    ⟨_, ⟨.inr ⟨_, _, rfl⟩, rfl, rfl⟩, rfl⟩, fun _ => rfl, hqueue⟩

/-- A hold that finds its read and write permits free takes them and `n` save permits, and waits
for the next one. -/
lemma hold_arrives {n m : ℕ} (hslots : cfg.readSlots = 1 ∧ cfg.writeSlots = 1)
    (hsaves : cfg.saveSlots = n + (m + 1)) (h : (laneSystem cfg).Reachable s)
    (hrebuilding : s.rebuilding = false)
    (hread : 0 < s.sems.free .read ∧ s.sems.queue .read = [])
    (hwrite : 0 < s.sems.free .write ∧ s.sems.queue .write = [])
    (hsave : s.sems.free .save = n) (hnobody : n = 0 ∨ s.sems.queue .save = []) :
    ∃ s' f, (laneSystem cfg).Reachable s' ∧ s'.rebuilding = false ∧ s'.ready = s.ready ∧
      (∀ x, s'.sems.free x = s.sems.free x -
        ([Sem.read, .write] ++ List.replicate n Sem.save).count x) ∧
      (∀ x, x ≠ .save → s'.sems.queue x = s.sems.queue x) ∧
      s'.sems.queue .save = s.sems.queue .save ++ [f] ∧ f.op = .exclusive false ∧
      f.count .save = n ∧ f.todo = List.replicate (m + 1) .save := by
  have harrives : Arrival.coroutine cfg s .mineExclusive =
      some (.exclusive false, cfg.exclusivePlan) := by
    simp [Arrival.coroutine, hrebuilding]
  have hplan : cfg.exclusivePlan = ([Sem.read, .write] ++ List.replicate n Sem.save) ++
      .save :: List.replicate m .save := by
    rw [Config.exclusivePlan, hslots.1, hslots.2, hsaves, List.replicate_add]
    rfl
  have hfree : ∀ y, ([Sem.read, .write] ++ List.replicate n Sem.save).count y ≤ s.sems.free y := by
    intro y
    cases y with
    | read => simpa [List.count_replicate] using Nat.succ_le_of_lt hread.1
    | write => simpa [List.count_replicate] using Nat.succ_le_of_lt hwrite.1
    | save => simp [hsave]
    | mine => simp [List.count_replicate]
  have hqueue : ∀ y ∈ [Sem.read, .write] ++ List.replicate n Sem.save, s.sems.queue y = [] := by
    intro y hy
    rcases List.mem_append.1 hy with hy | hy
    · rcases List.mem_cons.1 hy with rfl | hy
      · exact hread.2
      · obtain rfl := List.mem_singleton.1 hy
        exact hwrite.2
    · obtain ⟨hn, rfl⟩ := List.mem_replicate.1 hy
      exact hnobody.resolve_left hn
  have hjoin := exec_join harrives hplan hfree hqueue (.inl (by simp [hsave]))
  refine ⟨_, ⟨s.next, .exclusive false, ([Sem.read, .write] ++ List.replicate n Sem.save).reverse,
    .save :: List.replicate m .save⟩, StepSystem.Reachable.exec h hjoin, hrebuilding, rfl,
    fun _ => rfl, fun x hx => ?_, ?_, rfl, ?_, rfl⟩
  · show Function.update s.sems.queue .save _ x = _
    rw [Function.update_of_ne hx]
  · show Function.update s.sems.queue .save _ .save = _
    rw [Function.update_self]
    rfl
  · simp [Task.count]

/-- Two holds that want all save permits each share them out. -/
lemma deadlocks_of_saves (hslots : cfg.readSlots = 1 ∧ cfg.writeSlots = 1)
    (hreads : 2 ≤ cfg.maxRead) (hwrites : 2 ≤ cfg.maxWrite) (hsaves : 2 ≤ cfg.saveSlots) :
    Deadlocks cfg := by
  obtain ⟨k, hk⟩ : ∃ k, cfg.saveSlots = k + 2 := ⟨cfg.saveSlots - 2, by omega⟩
  -- two saves have a permit each
  obtain ⟨s₁, h₁, hrebuilding₁, ⟨c₁, hone₁, hready₁⟩, hfree₁, hqueue₁⟩ :=
    save_arrives (s := State.fresh cfg) (show (laneSystem cfg).Reachable _ from .init rfl) rfl
      (show 0 < cfg.saveSlots by omega) fun _ => rfl
  have hsave₁ : s₁.sems.free .save = k + 1 := by
    rw [hfree₁]
    show cfg.saveSlots - 1 = k + 1
    omega
  obtain ⟨s₂, h₂, hrebuilding₂, ⟨c₂, hone₂, hready₂⟩, hfree₂, hqueue₂⟩ :=
    save_arrives h₁ hrebuilding₁ (by omega) hqueue₁
  have hfree₂' : s₂.sems.free .read = cfg.maxRead ∧ s₂.sems.free .write = cfg.maxWrite ∧
      s₂.sems.free .save = k := by
    refine ⟨?_, ?_, ?_⟩
    · rw [hfree₂, hfree₁]
      rfl
    · rw [hfree₂, hfree₁]
      rfl
    · rw [hfree₂, hsave₁]
      rfl
  -- a hold takes the other save permits, and a second one none
  obtain ⟨s₃, f₁, h₃, hrebuilding₃, hready₃, hfree₃, hqueue₃, hwait₃, hop₃, hcount₃, htodo₃⟩ :=
    hold_arrives (n := k) (m := 1) hslots hk h₂ hrebuilding₂ ⟨by omega, hqueue₂ _⟩
      ⟨by omega, hqueue₂ _⟩ hfree₂'.2.2 (.inr (hqueue₂ _))
  have hfree₃' : 0 < s₃.sems.free .read ∧ 0 < s₃.sems.free .write ∧ s₃.sems.free .save = 0 := by
    refine ⟨?_, ?_, ?_⟩
    · rw [hfree₃, hfree₂'.1]
      simp [List.count_replicate]
      omega
    · rw [hfree₃, hfree₂'.2.1]
      simp [List.count_replicate]
      omega
    · rw [hfree₃, hfree₂'.2.2]
      simp
  obtain ⟨s₄, f₂, h₄, _, hready₄, _, _, hwait₄, hop₄, hcount₄, htodo₄⟩ :=
    hold_arrives (n := 0) (m := k + 1) hslots (by omega) h₃ hrebuilding₃
      ⟨hfree₃'.1, by rw [hqueue₃ _ (by simp), hqueue₂]⟩
      ⟨hfree₃'.2.1, by rw [hqueue₃ _ (by simp), hqueue₂]⟩ hfree₃'.2.2 (.inl rfl)
  have hready : s₄.ready = [c₁, c₂] := by
    rw [hready₄, hready₃, hready₂, hready₁]
    rfl
  have hqueue : s₄.sems.queue .save = [f₁, f₂] := by
    rw [hwait₄, hwait₃, hqueue₂]
    rfl
  refine deadlocks_of_shared h₄ (fun t ht => ?_) (by rw [hready]; rfl) hqueue (fun f hf => ?_)
    (fun f hf => ?_) (by simp) ?_
  · rw [hready] at ht
    rcases List.mem_cons.1 ht with rfl | ht
    · exact hone₁
    · obtain rfl := List.mem_singleton.1 ht
      exact hone₂
  · rcases List.mem_cons.1 hf with rfl | hf
    · exact ⟨[], htodo₃⟩
    · obtain rfl := List.mem_singleton.1 hf
      exact ⟨List.replicate k .save, htodo₄⟩
  · rcases List.mem_cons.1 hf with rfl | hf
    · exact hop₃
    · obtain rfl := List.mem_singleton.1 hf
      exact hop₄
  · rw [weigh_cons, weigh_cons, weigh_nil, hcount₃, hcount₄]
    show cfg.saveSlots ≤ _
    omega

/-! ### When nobody waits for ever -/

/-- Positive settings outside `DeadlockFree` let a hold wait for ever. -/
lemma deadlocks_of_not_free (hmax : 0 < cfg.maxConcurrency) (hread : 0 < cfg.maxRead)
    (hwrite : 0 < cfg.maxWrite) (hsave : 0 < cfg.saveMaxInflight) (hnot : ¬ cfg.DeadlockFree) :
    Deadlocks cfg := by
  have hslots : (cfg.readSlots : ℤ) = cfg.maxConcurrency := by
    unfold Config.readSlots
    omega
  have hsaves : (cfg.saveSlots : ℤ) = cfg.saveMaxInflight := by
    unfold Config.saveSlots
    omega
  by_cases hone : cfg.maxConcurrency = 1
  · have hwrites : cfg.writeSlots = 1 := by
      unfold Config.writeSlots
      rw [hone]
      rfl
    have hmany : cfg.saveMaxInflight ≠ 1 ∧ cfg.maxRead ≠ 1 ∧ cfg.maxWrite ≠ 1 := by
      refine ⟨fun h => hnot ⟨hone, .inl h⟩, fun h => hnot ⟨hone, .inr (.inl h)⟩,
        fun h => hnot ⟨hone, .inr (.inr h)⟩⟩
    exact deadlocks_of_saves ⟨by omega, hwrites⟩ (by omega) (by omega) (by omega)
  · by_cases hfew : cfg.maxRead < cfg.readSlots
    · exact deadlocks_of_few_reads hfew
    · exact deadlocks_of_reads (by omega) hread

/-- **When the exclusive hold cannot deadlock.**  With positive settings, in every state reached
everybody who waits for a permit is handed it after some steps, exactly when the hold takes one
read permit and, besides, one of the read, the write and the save semaphore has one permit. -/
theorem waiting_granted (hmax : 0 < cfg.maxConcurrency) (hread : 0 < cfg.maxRead)
    (hwrite : 0 < cfg.maxWrite) (hsave : 0 < cfg.saveMaxInflight) :
    (∀ s, (laneSystem cfg).Reachable s → ∀ x, ∀ t ∈ s.sems.queue x, s.Granted cfg t) ↔
      cfg.maxConcurrency = 1 ∧
        (cfg.saveMaxInflight = 1 ∨ cfg.maxRead = 1 ∨ cfg.maxWrite = 1) := by
  constructor
  · intro h
    by_contra hnot
    obtain ⟨s, x, t, hreached, ht, _, hwaits⟩ :=
      deadlocks_of_not_free hmax hread hwrite hsave hnot
    exact hwaits (h s hreached x t ht)
  · intro hfree s hreached x t ht
    exact granted_of_deadlockFree ⟨hread, hwrite⟩ hfree hreached ht

/-- The settings with which a hold takes one permit of each kind. -/
def Config.single : Config := { Config.default with maxConcurrency := 1, saveMaxInflight := 1 }

/-- With these nobody waits for ever: the second of two mines does not. -/
theorem waiting_granted_single : ∃ s, (laneSystem Config.single).Reachable s ∧
    ∃ t ∈ s.sems.queue .mine, s.Granted Config.single t := by
  obtain ⟨s, hexec, hend⟩ := StepSystem.exists_of_exec_any (laneSystem Config.single)
    (State.fresh Config.single) [.arrive .mine, .run 0, .arrive .mine, .run 1]
    (fun s => (s.sems.queue .mine).head?.isSome) (by decide)
  obtain ⟨t, hhead⟩ := Option.isSome_iff_exists.1 hend
  have hwaits := List.mem_of_mem_head? hhead
  have hreached : (laneSystem Config.single).Reachable s := .exec (.init rfl) hexec
  have hgranted := (waiting_granted (by decide) (by decide) (by decide)
    (by decide)).2 ⟨rfl, .inl rfl⟩ s hreached .mine t hwaits
  exact ⟨s, hreached, t, hwaits, hgranted⟩

/-- With the default settings four mines that arrive during four reads wait for each other. -/
theorem waiting_granted_fails : ∃ s, (laneSystem Config.default).Reachable s ∧
    ∃ t ∈ s.sems.queue .read, t.op = .exclusive false ∧ ¬ s.Granted Config.default t := by
  obtain ⟨s, hexec, hend⟩ := StepSystem.exists_of_exec_any (laneSystem Config.default)
    (State.fresh Config.default)
    [.arrive .read, .run 0, .run 0, .arrive .read, .run 1, .run 1, .arrive .read, .run 2, .run 2,
      .arrive .read, .run 3, .run 3, .arrive .mineExclusive, .run 4, .arrive .mineExclusive,
      .run 4, .arrive .mineExclusive, .run 4, .arrive .mineExclusive, .run 4,
      -- the reads finish one after the other, and each time the first mine goes on
      .start 0, .finish 0, .run 0, .run 3, .start 1, .finish 1, .run 0, .run 2,
      .start 2, .finish 2, .run 0, .run 1, .start 3, .finish 3, .run 0, .run 0]
    (fun s => decide (4 ≤ weigh (fun t : Task Sem Op => t.count .read) (s.sems.queue .read) ∧
      ∃ t ∈ s.sems.queue .read, t.op = .exclusive false)) (by decide)
  obtain ⟨hwedged, t, ht, hop⟩ := of_decide_eq_true hend
  have hreachable : (laneSystem Config.default).Reachable s := .exec (.init rfl) hexec
  have hstuck : Wedged Config.default s .read := hwedged
  exact ⟨s, hreachable, t, ht, hop, not_granted_of_wedged hreachable hstuck ht (by simp [hop])⟩

end PalaceDaemon.Lanes

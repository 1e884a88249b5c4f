/-
The calls in flight.

A slot of a lane is taken by the coroutine of the call and given back by the callback of its
worker, with a timeout, a cancellation or a refused submission in between.  `Slotted` is what
every step keeps: the counter of a lane is the number of workers that have a slot of it, it is
within the bound, the slots that were taken are the ones given back and the ones that workers
still have, and a call takes a slot once.
-/
import PalaceDaemon.Lanes.Permits

namespace PalaceDaemon.Lanes

open Semaphore Tasks

/-- The slot a worker has: the call that took it, and the lane. -/
def Worker.slot (w : Worker) : Option (ℕ × Lane) :=
  if w.status = .released then none else w.lane.map (w.name, ·)

/-- The slots that workers have. -/
def State.slots (s : State) : List (ℕ × Lane) := s.workers.filterMap Worker.slot

/-- The coroutine is a call that has yet to take a slot, and its name is `n`. -/
def callNamed (n : ℕ) (t : Coroutine) : ℕ :=
  match t.op with
  | .call _ _ => if t.name = n then 1 else 0
  | _ => 0

/-- The books of the lanes. -/
structure Slotted (cfg : Config) (s : State) : Prop where
  counted : ∀ l, s.inflight l = s.workers.countP (Worker.hasSlot l)
  bounded : ∀ l, s.inflight l ≤ max 0 (cfg.bound l)
  accounted : s.taken.Perm (s.released ++ s.slots)
  once : ∀ n, (s.taken.map Prod.fst).count n + s.total (callNamed n) (callNamed n) ≤
    if n < s.next then 1 else 0

variable {cfg : Config} {s s' : State} {t t' : Coroutine} {i j : ℕ} {w : Worker} {l : Lane}

lemma slotted_fresh (cfg : Config) : Slotted cfg (State.fresh cfg) where
  counted _ := rfl
  bounded _ := le_max_left _ _
  accounted := .refl _
  once n := by simp [State.fresh, State.total, Sems.weigh]

/-- Only the coroutines have changed, and no call is new. -/
lemma Slotted.of_same (h : Slotted cfg s) (hinflight : s'.inflight = s.inflight)
    (hworkers : s'.workers = s.workers) (htaken : s'.taken = s.taken)
    (hreleased : s'.released = s.released)
    (honce : ∀ n, s'.total (callNamed n) (callNamed n) + (if n < s.next then 1 else 0) ≤
      s.total (callNamed n) (callNamed n) + if n < s'.next then 1 else 0) :
    Slotted cfg s' where
  counted l := by rw [hinflight, hworkers]; exact h.counted l
  bounded l := by rw [hinflight]; exact h.bounded l
  accounted := by
    rw [htaken, hreleased, State.slots, hworkers]
    exact h.accounted
  once n := by
    have hold := h.once n
    have hnew := honce n
    rw [htaken]
    omega

/-! ### What the workers do -/

/-- A worker that moves keeps its slot until it is released. -/
lemma hasSlot_status {status : Status} (hold : w.status ≠ .released) (hnew : status ≠ .released)
    (l : Lane) : Worker.hasSlot l { w with status := status } = w.hasSlot l := by
  simp [Worker.hasSlot, hold, hnew]

lemma slot_status {status : Status} (hold : w.status ≠ .released) (hnew : status ≠ .released) :
    Worker.slot { w with status := status } = w.slot := by
  simp [Worker.slot, hold, hnew]

/-- The slots after the worker at `j` was exchanged. -/
lemma slots_setStatus (hw : s.workers[j]? = some w) (status : Status) :
    (s.setStatus j w status).slots.Perm
        ((Worker.slot { w with status := status }).toList ++
          (others s.workers j).filterMap Worker.slot) ∧
      s.slots.Perm (w.slot.toList ++ (others s.workers j).filterMap Worker.slot) := by
  constructor
  · have hperm := (perm_replaceAt s.workers j [{ w with status := status }]).filterMap Worker.slot
    cases hslot : Worker.slot { w with status := status } <;>
      simpa [State.slots, State.setStatus, hslot] using hperm
  · have hperm := (perm_others hw).filterMap Worker.slot
    cases hslot : w.slot <;> simpa [State.slots, hslot] using hperm

lemma count_setStatus (hw : s.workers[j]? = some w) (status : Status) (l : Lane) :
    (s.setStatus j w status).workers.countP (Worker.hasSlot l) +
        (if w.hasSlot l then 1 else 0) =
      s.workers.countP (Worker.hasSlot l) +
        if Worker.hasSlot l { w with status := status } then 1 else 0 := by
  have hold := countP_eq (Worker.hasSlot l) hw
  have hnew := countP_replaceAt (Worker.hasSlot l) s.workers j [{ w with status := status }]
  simp only [List.countP_cons, List.countP_nil] at hnew
  show (replaceAt s.workers j _).countP _ + _ = _
  omega

lemma advances_status {status : Status} (h : Advances w status) :
    w.status ≠ .released ∧ (status = .released → w.lane = none) := by
  cases h with
  | start hw | finish hw => simp [hw]
  | callback hw hlane => simp [hw, hlane]

lemma slotted_advances (h : Slotted cfg s) (hw : s.workers[j]? = some w) {status : Status}
    (hadvances : Advances w status) : Slotted cfg (s.setStatus j w status) := by
  obtain ⟨hold, hnone⟩ := advances_status hadvances
  -- without a slot nothing is counted, before or after
  have hslots : Worker.slot { w with status := status } = w.slot ∧
      ∀ l, Worker.hasSlot l { w with status := status } = w.hasSlot l := by
    by_cases hnew : status = .released
    · have hlane := hnone hnew
      simp [Worker.slot, Worker.hasSlot, hlane]
    · exact ⟨slot_status hold hnew, hasSlot_status hold hnew⟩
  refine ⟨fun l => ?_, h.bounded, ?_, h.once⟩
  · have hcount := count_setStatus hw status l
    rw [hslots.2 l] at hcount
    have hsame : (s.setStatus j w status).workers.countP (Worker.hasSlot l) =
        s.workers.countP (Worker.hasSlot l) := by omega
    rw [hsame]
    exact h.counted l
  · obtain ⟨hafter, hbefore⟩ := slots_setStatus hw status
    rw [hslots.1] at hafter
    exact h.accounted.trans ((hbefore.trans hafter.symm).append_left _)

/-! ### A slot is given back -/

@[simp] lemma releaseSlot_inflight_self (s : State) (name : ℕ) (l : Lane) :
    (s.releaseSlot name l).inflight l = max 0 (s.inflight l - 1) := by
  simp [State.releaseSlot]

/-- A worker with a slot is counted. -/
lemma inflight_pos (h : Slotted cfg s) (hw : s.workers[j]? = some w) (hslot : w.hasSlot l) :
    0 < s.inflight l := by
  have hcount := countP_eq (Worker.hasSlot l) hw
  rw [if_pos hslot] at hcount
  rw [h.counted l, hcount]
  omega

/-- The callback finds a call to take off the counter, so the floor at zero is never met. -/
lemma slotted_releases (h : Slotted cfg s) (hw : s.workers[j]? = some w)
    (hended : w.status = .ended) (hlane : w.lane = some l) :
    Slotted cfg ((s.setStatus j w .released).release w.name l) := by
  rw [release_eq]
  have hslot : ∀ l', w.hasSlot l' = decide (l = l') := by
    intro l'
    simp [Worker.hasSlot, hlane, hended]
  have hgone : ∀ l', Worker.hasSlot l' { w with status := .released } = false := by
    intro l'
    simp [Worker.hasSlot]
  have hpos : 0 < s.inflight l := inflight_pos h hw (by simp [hslot])
  have hcount : ∀ l', (s.setStatus j w .released).workers.countP (Worker.hasSlot l') +
      (if l = l' then 1 else 0) = s.workers.countP (Worker.hasSlot l') := by
    intro l'
    have hset := count_setStatus hw .released l'
    simpa [hgone l', hslot l'] using hset
  refine ⟨fun l' => ?_, fun l' => ?_, ?_, h.once⟩
  · have hone := hcount l'
    have hold := h.counted l'
    show Function.update s.inflight l (max 0 (s.inflight l - 1)) l' =
      ((s.setStatus j w .released).workers.countP (Worker.hasSlot l') : ℤ)
    by_cases hl : l' = l
    · subst hl
      rw [Function.update_self]
      rw [if_pos rfl] at hone
      omega
    · rw [Function.update_of_ne hl]
      rw [if_neg (Ne.symm hl)] at hone
      omega
  · show Function.update s.inflight l (max 0 (s.inflight l - 1)) l' ≤ _
    by_cases hl : l' = l
    · subst hl
      rw [Function.update_self]
      have hbound := h.bounded l'
      omega
    · rw [Function.update_of_ne hl]
      exact h.bounded l'
  · obtain ⟨hafter, hbefore⟩ := slots_setStatus hw .released
    have hnone : Worker.slot { w with status := .released } = none := rfl
    have hsome : w.slot = some (w.name, l) := by simp [Worker.slot, hended, hlane]
    rw [hnone] at hafter
    rw [hsome] at hbefore
    show s.taken.Perm ((w.name, l) :: s.released ++ (s.setStatus j w .released).slots)
    refine h.accounted.trans ?_
    refine (hbefore.append_left _).trans ?_
    refine List.perm_middle.trans ?_
    exact (hafter.symm.append_left _).cons _

/-! ### A slot is taken -/

lemma slotted_submits (h : Slotted cfg s) {r : Bool} (ht : s.ready[i]? = some t)
    (hop : t.op = .call l r) (hlt : s.inflight l < cfg.bound l) :
    Slotted cfg ((s.takeSlot t.name l).spawn i t (some l) (.awaiting false r)) := by
  refine ⟨fun l' => ?_, fun l' => ?_, ?_, fun n => ?_⟩
  · have hold := h.counted l'
    show Function.update s.inflight l (s.inflight l + 1) l' =
      ((s.workers ++ [(⟨t.name, some l, .queued⟩ : Worker)]).countP (Worker.hasSlot l') : ℤ)
    rw [List.countP_append, List.countP_cons, List.countP_nil]
    by_cases hl : l' = l
    · subst hl
      rw [Function.update_self]
      simp [Worker.hasSlot, hold]
    · rw [Function.update_of_ne hl]
      simp [Worker.hasSlot, hold, Ne.symm hl]
  · have hbound := h.bounded l'
    show Function.update s.inflight l (s.inflight l + 1) l' ≤ _
    by_cases hl : l' = l
    · subst hl
      rw [Function.update_self]
      omega
    · rwa [Function.update_of_ne hl]
  · have hslots : (s.workers ++ [(⟨t.name, some l, .queued⟩ : Worker)]).filterMap Worker.slot =
        s.slots ++ [(t.name, l)] := by
      rw [List.filterMap_append]
      rfl
    show ((t.name, l) :: s.taken).Perm
      (s.released ++ (s.workers ++ [(⟨t.name, some l, .queued⟩ : Worker)]).filterMap Worker.slot)
    rw [hslots, ← List.append_assoc]
    exact (h.accounted.cons _).trans (List.perm_append_singleton _ _).symm
  · -- the call is counted as taken instead of as a call
    have hold := h.once n
    have htotal := total_become (callNamed n) (callNamed n) ht (.awaiting false r)
    have hcall : callNamed n t = if t.name = n then 1 else 0 := by rw [callNamed, hop]
    have hawaiting : callNamed n { t with op := .awaiting false r } = 0 := rfl
    show (t.name :: s.taken.map Prod.fst).count n +
      (s.become i t (.awaiting false r)).total (callNamed n) (callNamed n) ≤ _
    rw [List.count_cons]
    simp only [beq_iff_eq]
    show _ ≤ if n < s.next then 1 else 0
    omega

/-- A submission that is refused gives the slot back at once. -/
lemma slotted_refused (hregular : Regular cfg s) (h : Slotted cfg s) {r : Bool}
    (ht : s.ready[i]? = some t) (hop : t.op = .call l r) :
    Slotted cfg (((s.takeSlot t.name l).release t.name l).depart i t false) := by
  rw [release_eq]
  have hinflight : ((s.takeSlot t.name l).releaseSlot t.name l).inflight = s.inflight := by
    funext l'
    have hnonneg : 0 ≤ s.inflight l := by
      rw [h.counted l]
      omega
    by_cases hl : l' = l
    · subst hl
      simp [State.releaseSlot, State.takeSlot, hnonneg]
    · simp [State.releaseSlot, State.takeSlot, Function.update_of_ne hl]
  refine ⟨fun l' => ?_, fun l' => ?_, ?_, fun n => ?_⟩
  · show ((s.takeSlot t.name l).releaseSlot t.name l).inflight l' = _
    rw [hinflight]
    exact h.counted l'
  · show ((s.takeSlot t.name l).releaseSlot t.name l).inflight l' ≤ _
    rw [hinflight]
    exact h.bounded l'
  · exact h.accounted.cons (t.name, l)
  · have hold := h.once n
    have hcall : callNamed n t = if t.name = n then 1 else 0 := by rw [callNamed, hop]
    have htotal : (((s.takeSlot t.name l).releaseSlot t.name l).depart i t false).total
        (callNamed n) (callNamed n) + callNamed n t ≤
          s.total (callNamed n) (callNamed n) + weigh (callNamed n) [] :=
      total_depart_le _ _ _ hregular.orderly ht (fun _ _ _ => le_rfl) rfl rfl
    show (t.name :: s.taken.map Prod.fst).count n + _ ≤ if n < s.next then 1 else 0
    rw [List.count_cons]
    rw [weigh_nil] at htotal
    simp only [beq_iff_eq]
    omega

/-! ### Every step keeps the books -/

/-- What a cancellation does to a worker. -/
lemma cancelQueued_same (s : State) (name : ℕ) (l : Lane) :
    (s.cancelQueued name).workers.countP (Worker.hasSlot l) =
        s.workers.countP (Worker.hasSlot l) ∧
      (s.cancelQueued name).slots = s.slots := by
  constructor
  · show (s.workers.map _).countP _ = _
    rw [List.countP_map]
    refine List.countP_congr fun w _ => ?_
    by_cases hcancel : w.name = name ∧ w.status = .queued
    · simp [hcancel, Worker.hasSlot]
    · simp [hcancel]
  · show (s.workers.map _).filterMap _ = _
    rw [List.filterMap_map]
    refine List.filterMap_congr fun w _ => ?_
    by_cases hcancel : w.name = name ∧ w.status = .queued
    · simp [hcancel, Worker.slot]
    · simp [hcancel]

lemma carried_callNamed (s : State) (n : ℕ) : Carried s (callNamed n) where
  same t u hname hop := by simp only [callNamed, hname, hop]
  resumes t u h := by
    cases h with
    | plan _ => exact le_rfl
    | gate _ _ _ => exact Nat.zero_le _
  becomes t op h := by
    have hzero : callNamed n { t with op := op } = 0 := by
      cases h with
      | begins hbegins => cases hbegins <;> rfl
      | submits _ _ => rfl
      | looks _ _ => rfl
    omega
  ends t _ := Nat.zero_le _

/-- A call is counted once, by the name it arrives with. -/
lemma callNamed_traffic (hregular : Regular cfg s) (htraffic : Traffic cfg s s') (n : ℕ) :
    s'.total (callNamed n) (callNamed n) + (if n < s.next then 1 else 0) ≤
      s.total (callNamed n) (callNamed n) + if n < s'.next then 1 else 0 := by
  rcases total_traffic (carried_callNamed s n) hregular.orderly htraffic with
    ⟨hle, hnext⟩ | ⟨a, op, plan, _, heq, hnext⟩
  · rw [hnext]
    omega
  · have hnew : callNamed n ⟨s.next, op, [], plan⟩ ≤ if s.next = n then 1 else 0 := by
      unfold callNamed
      split <;> simp
    rw [heq, hnext]
    split_ifs at hnew ⊢ <;> omega

lemma slotted_moves (hregular : Regular cfg s) (h : Slotted cfg s) (hmoves : Moves cfg s s') :
    Slotted cfg s' := by
  have honce := callNamed_traffic hregular (traffic_of_moves hmoves)
  cases hmoves with
  | submits ht htodo hop hlt => exact slotted_submits h ht hop hlt
  | refused ht hop _ => exact slotted_refused hregular h ht hop
  | advances hw hadvances => exact slotted_advances h hw hadvances
  | releases hw hended hlane => exact slotted_releases h hw hended hlane
  | @begins i t op ht hbegins =>
      -- a worker without a slot is not in the books
      have hsame : Slotted cfg (s.become i t op) := h.of_same rfl rfl rfl rfl honce
      refine ⟨fun l => ?_, h.bounded, ?_, hsame.once⟩
      · show s.inflight l =
          ((s.workers ++ [(⟨t.name, none, .queued⟩ : Worker)]).countP (Worker.hasSlot l) : ℤ)
        rw [List.countP_append]
        simpa [Worker.hasSlot] using h.counted l
      · show s.taken.Perm (s.released ++
          (s.workers ++ [(⟨t.name, none, .queued⟩ : Worker)]).filterMap Worker.slot)
        rw [List.filterMap_append]
        simpa [Worker.slot, State.slots] using h.accounted
  | @leaves i t r ht _ =>
      have hsame : Slotted cfg (s.depart i t false) := h.of_same rfl rfl rfl rfl honce
      refine ⟨fun l => ?_, hsame.bounded, ?_, hsame.once⟩
      · show s.inflight l = ((s.cancelQueued t.name).workers.countP (Worker.hasSlot l) : ℤ)
        rw [(cancelQueued_same s t.name l).1]
        exact h.counted l
      · show s.taken.Perm (s.released ++ (s.cancelQueued t.name).slots)
        rw [(cancelQueued_same s t.name .tool).2]
        exact h.accounted
  | answered | arrives _ | resumes _ _ | passes _ _ _ _ | looks _ _ _ | ends _ _
  | enqueued _ _ | cleared _ _ | abandons _ _ => exact h.of_same rfl rfl rfl rfl honce

theorem slotted_of_reachable (h : (laneSystem cfg).Reachable s) : Slotted cfg s := by
  induction h with
  | init hs =>
      obtain rfl := hs
      exact slotted_fresh cfg
  | step hreached _ hnext ih =>
      exact slotted_moves (regular_of_reachable hreached) ih (moves_of_step hnext)

/-! ### Slots are accounted for -/

/-- A call takes a slot at most once, so no slot is given back twice. -/
lemma Slotted.nodup (h : Slotted cfg s) : (s.released ++ s.slots).Nodup := by
  refine h.accounted.nodup_iff.1 (List.Nodup.of_map Prod.fst ?_)
  refine List.nodup_iff_count_le_one.2 fun n => ?_
  have honce := h.once n
  split_ifs at honce <;> omega

/-- When no callback is pending, the workers with a slot are the active ones. -/
lemma hasSlot_eq_active (hsettled : w.lane = some l → w.status ≠ .ended) :
    w.hasSlot l = (decide (w.lane = some l) && w.isActive) := by
  by_cases hlane : w.lane = some l
  · have hended := hsettled hlane
    cases hstatus : w.status <;> simp_all [Worker.hasSlot, Worker.isActive]
  · simp [Worker.hasSlot, hlane]

/-- The callback of a worker that has a slot takes one call off the counter. -/
lemma callback_releases (h : Slotted cfg s) (hw : s.workers[j]? = some w)
    (hended : w.status = .ended) (hlane : w.lane = some l) :
    ∃ s', s.step cfg (.callback j) = some s' ∧ s'.inflight l = s.inflight l - 1 ∧
      0 ≤ s'.inflight l := by
  have hpos : 0 < s.inflight l := inflight_pos h hw (by simp [Worker.hasSlot, hlane, hended])
  have hafter : ((s.setStatus j w .released).release w.name l).inflight l = s.inflight l - 1 := by
    rw [release_eq, releaseSlot_inflight_self]
    show max 0 (s.inflight l - 1) = _
    omega
  refine ⟨(s.setStatus j w .released).release w.name l, ?_, hafter, ?_⟩
  · simp [State.step, hw, hended, hlane]
  · omega

/-- A call takes a slot exactly when the workers that have one are fewer than the bound. -/
lemma admitted_iff (h : Slotted cfg s) {r : Bool} (ht : s.ready[i]? = some t)
    (hop : t.op = .call l r) (htodo : t.todo = []) :
    (∃ s', s.step cfg (.run i) = some s' ∧ s'.taken = (t.name, l) :: s.taken) ↔
      (s.workers.countP (Worker.hasSlot l) : ℤ) < cfg.bound l := by
  have hturn : s.step cfg (.run i) = if cfg.bound l ≤ s.inflight l then some (s.depart i t false)
      else some ((s.takeSlot t.name l).spawn i t (some l) (.awaiting false r)) := by
    simp [State.step, ht, State.turn, htodo, hop]
  rw [hturn, ← h.counted l]
  by_cases hbusy : cfg.bound l ≤ s.inflight l
  · rw [if_pos hbusy]
    constructor
    · rintro ⟨s', hs', htaken⟩
      obtain rfl := Option.some.inj hs'
      have hlength := congrArg List.length htaken
      simp [State.depart] at hlength
    · intro hlt
      omega
  · rw [if_neg hbusy]
    exact ⟨fun _ => by omega, fun _ => ⟨_, rfl, rfl⟩⟩

/-- **The calls in flight are the workers at work.**  In every state reached, whatever
timeouts, cancellations and refused submissions led there: the counter of a lane is the number of
workers that have a slot of it, and when no callback of the lane is pending these are the ones
that have neither finished nor been cancelled before they started; no counter is above its bound,
and no callback finds it at zero; every slot that was taken was given back once or is had by one
worker; and a call on a lane, a save in particular, is admitted by the workers of this lane alone,
after it waited for no semaphore but its own. -/
theorem slots_accounted (h : (laneSystem cfg).Reachable s) :
    (∀ l, s.inflight l = s.workers.countP (Worker.hasSlot l)) ∧
    (∀ l, (∀ w ∈ s.workers, w.lane = some l → w.status ≠ .ended) →
      s.inflight l = s.workers.countP fun w => decide (w.lane = some l) && w.isActive) ∧
    (∀ l, s.inflight l ≤ max 0 (cfg.bound l)) ∧
    (∀ j w l, s.workers[j]? = some w → w.status = .ended → w.lane = some l →
      ∃ s', s.step cfg (.callback j) = some s' ∧ s'.inflight l = s.inflight l - 1 ∧
        0 ≤ s'.inflight l) ∧
    (s.taken.Perm (s.released ++ s.slots) ∧ (s.released ++ s.slots).Nodup) ∧
    (∀ i t l r, s.ready[i]? = some t → t.op = .call l r → t.todo = [] →
      ((∃ s', s.step cfg (.run i) = some s' ∧ s'.taken = (t.name, l) :: s.taken) ↔
        (s.workers.countP (Worker.hasSlot l) : ℤ) < cfg.bound l)) ∧
    ∀ r : Request, r.lane = .save → r.method ≠ "ping" → semFor r = .save := by
  have hslotted := slotted_of_reachable h
  refine ⟨hslotted.counted, fun l hsettled => ?_, hslotted.bounded,
    fun j w l => callback_releases hslotted, ⟨hslotted.accounted, hslotted.nodup⟩,
    fun i t l r ht hop htodo => admitted_iff hslotted ht hop htodo, fun r => semFor_of_save⟩
  rw [hslotted.counted l]
  congr 1
  exact List.countP_congr fun w hw => by rw [hasSlot_eq_active (hsettled w hw)]

lemma default_init : (laneSystem Config.default).init (State.fresh Config.default) := rfl

/-- A search whose caller timed out still has its slot. -/
theorem slots_accounted_timeout : ∃ s, (laneSystem Config.default).Reachable s ∧
    s.ready = [] ∧ s.inflight .tool = 1 ∧ s.workers.countP (Worker.hasSlot .tool) = 1 := by
  obtain ⟨s, hexec, hend⟩ := StepSystem.exists_of_exec_any (laneSystem Config.default)
    (State.fresh Config.default)
    [.arrive (.call ⟨"tools/call", some ⟨"mempalace_search", []⟩⟩), .run 0, .run 0, .start 0,
      .leave 0]
    (fun s => decide (s.ready = [] ∧ s.inflight .tool = 1)) (by decide)
  obtain ⟨hready, hinflight⟩ := of_decide_eq_true hend
  have hreachable := StepSystem.Reachable.exec (.init default_init) hexec
  have hcounted := (slots_accounted hreachable).1 .tool
  exact ⟨s, hreachable, hready, hinflight, by omega⟩

end PalaceDaemon.Lanes

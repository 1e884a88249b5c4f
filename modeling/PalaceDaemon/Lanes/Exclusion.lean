/-
The exclusive hold.

The body of `_exclusive_palace` runs with every permit it took.  If these are all there are, no
other operation holds one, so no caller has a worker.  What is left are the workers whose callers
have gone.  Those of the save lane are waited for; of the others the code knows nothing, so it is
only when they have finished by the time the hold is entered that the body is alone
(`EntersDrained`).  And if the hold takes fewer permits than there are, an operation that takes one
of the rest runs beside the body, whatever happened before.
-/
import PalaceDaemon.Lanes.Runs
import PalaceDaemon.Lanes.Slots

namespace PalaceDaemon.Lanes

open Semaphore Tasks

/-- The body of `_exclusive_palace` is running. -/
def inBody (t : Coroutine) : Bool :=
  match t.op with
  | .holding _ => t.todo.isEmpty
  | _ => false

/-- The caller of the worker has gone. -/
def State.Left (s : State) (w : Worker) : Prop := ∀ t ∈ s.ready, t.name ≠ w.name

/-- When the step lets an exclusive hold enter its body, the workers whose callers have gone have
finished, except for those that the hold itself waits for. -/
def EntersDrained (cfg : Config) (s : State) (a : Label) : Prop :=
  ∀ s', s.step cfg a = some s' → ∀ t ∈ s'.ready, inBody t → t ∉ s.ready →
    ∀ w ∈ s'.workers, w.isActive → s'.Left w → w.lane = some .save

/-- The body of an exclusive hold is alone: no worker is at work, and no other operation holds a
permit. -/
def State.Excludes (s : State) : Prop :=
  ∀ t ∈ s.ready, inBody t →
    (∀ w ∈ s.workers, w.isActive = false) ∧ ∀ u ∈ s.ready, u ≠ t → u.held = []

/-- The exclusive hold takes every permit there is. -/
def Config.TakesAll (cfg : Config) : Prop :=
  cfg.readSlots = cfg.maxRead ∧ cfg.writeSlots = cfg.maxWrite

variable {cfg : Config} {s s' : State} {t u : Coroutine} {i : ℕ} {x : Sem} {w : Worker}

lemma inBody_iff : inBody t = true ↔ (∃ rebuild, t.op = .holding rebuild) ∧ t.todo = [] := by
  unfold inBody
  cases t.op <;> simp

/-! ### The permits of the hold -/

/-- How many permits of each semaphore the hold takes before the mine permit. -/
lemma count_exclusivePlan (cfg : Config) :
    cfg.exclusivePlan.count .read = cfg.readSlots ∧
      cfg.exclusivePlan.count .write = cfg.writeSlots ∧
      cfg.exclusivePlan.count .save = cfg.saveSlots ∧ cfg.exclusivePlan.count .mine = 0 := by
  simp [Config.exclusivePlan, List.count_append, List.count_replicate]

/-- A hold past the wait for the saves has every permit that it takes before the mine permit. -/
lemma count_of_holding (hfits : Fits cfg t) {rebuild : Bool} (hop : t.op = .holding rebuild)
    (hx : x ≠ .mine) : t.count x = cfg.exclusivePlan.count x := by
  unfold Fits at hfits
  rw [hop] at hfits
  obtain ⟨hplan, htodo⟩ := hfits
  have hnone : t.todo.count x = 0 := by
    refine List.count_eq_zero_of_not_mem fun hmem => hx ?_
    simpa using htodo.mem hmem
  have hcount := congrArg (List.count x) hplan
  simp only [Task.plan, List.count_append, List.count_reverse, hnone] at hcount
  have hmine : List.count x [Sem.mine] = 0 :=
    List.count_eq_zero_of_not_mem (by simpa using hx)
  rw [Task.count]
  omega

/-- The body of the hold has the mine permit besides. -/
lemma count_of_inBody (hfits : Fits cfg t) (hbody : inBody t) :
    t.count x = cfg.exclusivePlan.count x + if x = .mine then 1 else 0 := by
  obtain ⟨⟨rebuild, hop⟩, htodo⟩ := inBody_iff.1 hbody
  unfold Fits at hfits
  rw [hop] at hfits
  have hcount := congrArg (List.count x) hfits.1
  simp only [Task.plan, htodo, List.append_nil, List.count_append, List.count_reverse,
    List.count_cons, List.count_nil, beq_iff_eq, Nat.zero_add] at hcount
  rw [Task.count, hcount]
  simp only [eq_comm]

lemma permits_of_takesAll (htakes : cfg.TakesAll) (hx : x ≠ .mine) :
    cfg.exclusivePlan.count x = cfg.permits x := by
  obtain ⟨hread, hwrite, hsave, _⟩ := count_exclusivePlan cfg
  cases x with
  | read => exact hread.trans htakes.1
  | write => exact hwrite.trans htakes.2
  | save => exact hsave
  | mine => exact absurd rfl hx

/-- When one coroutine holds every permit of a semaphore, no other one holds any. -/
lemma count_eq_zero_of_full (h : Regular cfg s) (hfull : t.count x = cfg.permits x)
    (ht : (t ∈ s.ready ∧ u ≠ t) ∨ ∃ y, t ∈ s.sems.queue y) (hu : u ∈ s.ready) :
    u.count x = 0 := by
  have hconserved := h.conserved x
  rw [permits] at hconserved
  rcases ht with ⟨ht, hne⟩ | ⟨y, ht⟩
  · obtain ⟨i, hi⟩ := List.mem_iff_getElem?.1 ht
    have hothers : u ∈ others s.ready i := ((mem_iff hi).1 hu).resolve_left hne
    have hsum := weigh_eq (fun v : Task Sem Op => v.count x) hi
    have hle := le_weigh (fun v : Task Sem Op => v.count x) hothers
    omega
  · have hwaiting := le_weigh_queue (fun v : Task Sem Op => v.count x) ht
    have hready := le_weigh (fun v : Task Sem Op => v.count x) hu
    omega

/-- Names are not shared. -/
lemma name_ne_of_others (h : Regular cfg s) (ht : s.ready[i]? = some t) :
    (∀ u ∈ others s.ready i, u.name ≠ t.name) ∧
      ∀ x, ∀ u ∈ s.sems.queue x, u.name ≠ t.name := by
  have hnames := h.names t.name
  have hsum := weigh_eq (named t.name) ht
  have hself : named t.name t = 1 := by simp [named]
  have hone : ∀ u : Coroutine, u.name = t.name → named t.name u = 1 := by
    intro u hu
    simp [named, hu]
  rw [State.total] at hnames
  constructor
  · intro u hu hname
    have hle := le_weigh (named t.name) hu
    rw [hone u hname] at hle
    split_ifs at hnames <;> omega
  · intro x u hu hname
    have hle := le_weigh_queue (named t.name) hu
    rw [hone u hname] at hle
    split_ifs at hnames <;> omega

/-! ### The callers of the workers -/

/-- A worker at work belongs to a coroutine that waits for it, or to one that has gone. -/
structure Attached (s : State) : Prop where
  ready : ∀ w ∈ s.workers, w.isActive → ∀ t ∈ s.ready, t.name = w.name →
    ∃ repair r, t.op = .awaiting repair r
  waits : ∀ w ∈ s.workers, w.isActive → ∀ x, ∀ t ∈ s.sems.queue x, t.name ≠ w.name
  known : ∀ w ∈ s.workers, w.name < s.next

lemma attached_fresh (cfg : Config) : Attached (State.fresh cfg) where
  ready _ hw := absurd hw List.not_mem_nil
  waits _ hw := absurd hw List.not_mem_nil
  known _ hw := absurd hw List.not_mem_nil

lemma name_lt_next (h : Regular cfg s) (ht : t ∈ s.ready) : t.name < s.next := by
  have hnames := h.names t.name
  have hle := le_weigh (named t.name) ht
  have hself : named t.name t = 1 := by simp [named]
  by_contra hnot
  rw [State.total, if_neg hnot] at hnames
  omega

/-- Only a coroutine that waits for its worker has one. -/
lemma Attached.not_named (h : Attached s) (ht : t ∈ s.ready)
    (hop : ∀ repair r, t.op ≠ .awaiting repair r) (hw : w ∈ s.workers) (hactive : w.isActive) :
    t.name ≠ w.name := by
  intro hname
  obtain ⟨repair, r, hawaiting⟩ := h.ready w hw hactive t ht hname
  exact hop repair r hawaiting

/-- Only the workers have moved. -/
lemma Attached.of_workers (h : Attached s) (hsems : s'.sems = s.sems)
    (hready : s'.ready = s.ready) (hnext : s'.next = s.next)
    (hworkers : ∀ w' ∈ s'.workers, ∃ w ∈ s.workers, w.name = w'.name ∧
      (w'.isActive → w.isActive)) : Attached s' := by
  refine ⟨fun w' hw' hactive t ht hname => ?_, fun w' hw' hactive x t ht => ?_,
    fun w' hw' => ?_⟩
  · obtain ⟨w, hw, hsame, hwas⟩ := hworkers w' hw'
    exact h.ready w hw (hwas hactive) t (hready ▸ ht) (hname.trans hsame.symm)
  · obtain ⟨w, hw, hsame, hwas⟩ := hworkers w' hw'
    rw [← hsame]
    exact h.waits w hw (hwas hactive) x t (hsems ▸ ht)
  · obtain ⟨w, hw, hsame, _⟩ := hworkers w' hw'
    rw [← hsame, hnext]
    exact h.known w hw

lemma attached_resume {t' : Coroutine} (hregular : Regular cfg s) (h : Attached s)
    (ht : s.ready[i]? = some t) (hresumes : Resumes s t t') : Attached (s.resume i t') := by
  have hmem := List.mem_of_getElem? ht
  -- who takes permits does not wait for a worker
  have hop : ∀ repair r, t.op ≠ .awaiting repair r := by
    intro repair r hop
    cases hresumes with
    | plan htodo =>
        have hfits := hregular.fits t hmem
        unfold Fits at hfits
        rw [hop] at hfits
        obtain ⟨_, _, hnil⟩ := hfits
        exact htodo hnil
    | gate hgate _ _ => cases hgate.symm.trans hop
  have hnot : ∀ w ∈ s.workers, w.isActive → t'.name ≠ w.name := by
    intro w hw hactive
    rw [resumes_name hresumes]
    exact h.not_named hmem hop hw hactive
  refine ⟨fun w hw hactive u hu hname => ?_, fun w hw hactive x u hu => ?_, h.known⟩
  · rcases mem_replaceAt.1 hu with hu | hu
    · obtain ⟨hsame, _⟩ := acquire_some (Option.mem_toList.1 hu)
      exact absurd (hsame.symm.trans hname) (hnot w hw hactive)
    · exact h.ready w hw hactive u (mem_of_mem_others ht hu) hname
  · rcases mem_queue_of_acquire hu with hu | ⟨hsame, _⟩
    · exact h.waits w hw hactive x u hu
    · rw [hsame]
      exact hnot w hw hactive

lemma attached_become {op : Op} (h : Attached s) (ht : s.ready[i]? = some t)
    (hop : ∀ w ∈ s.workers, w.isActive → t.name = w.name → ∃ repair r, op = .awaiting repair r) :
    Attached (s.become i t op) := by
  refine ⟨fun w hw hactive u hu hname => ?_, h.waits, h.known⟩
  rcases mem_replaceAt.1 hu with hu | hu
  · obtain rfl := List.mem_singleton.1 hu
    exact hop w hw hactive hname
  · exact h.ready w hw hactive u (mem_of_mem_others ht hu) hname

lemma attached_spawn {lane : Option Lane} {repair r : Bool} (hregular : Regular cfg s)
    (h : Attached s) (ht : s.ready[i]? = some t) :
    Attached (s.spawn i t lane (.awaiting repair r)) := by
  have hbecome : Attached (s.become i t (.awaiting repair r)) :=
    attached_become h ht fun _ _ _ _ => ⟨_, _, rfl⟩
  have hlt := name_lt_next hregular (List.mem_of_getElem? ht)
  obtain ⟨hothers, hwaiting⟩ := name_ne_of_others hregular ht
  refine ⟨fun w hw hactive u hu hname => ?_, fun w hw hactive x u hu => ?_, fun w hw => ?_⟩
  all_goals rcases List.mem_append.1 hw with hw | hw
  · exact hbecome.ready w hw hactive u hu hname
  · -- the new worker has the name of its coroutine, and of no other
    obtain rfl := List.mem_singleton.1 hw
    rcases mem_replaceAt.1 hu with hu | hu
    · obtain rfl := List.mem_singleton.1 hu
      exact ⟨repair, r, rfl⟩
    · exact absurd hname (hothers u hu)
  · exact hbecome.waits w hw hactive x u hu
  · obtain rfl := List.mem_singleton.1 hw
    exact hwaiting x u hu
  · exact h.known w hw
  · obtain rfl := List.mem_singleton.1 hw
    exact hlt

lemma attached_depart {repair : Bool} (h : Attached s) (ht : s.ready[i]? = some t)
    (hrepair : repair = true → ∀ w ∈ s.workers, w.isActive → t.name ≠ w.name) :
    Attached (s.depart i t repair) := by
  refine ⟨fun w hw hactive u hu hname => ?_, fun w hw hactive x u hu =>
    h.waits w hw hactive x u (mem_queue_of_releaseAll hu), h.known⟩
  rcases List.mem_append.1 hu with hu | hu
  · rcases mem_replaceAt.1 hu with hu | hu
    · cases repair with
      | false => cases hu
      | true =>
          obtain rfl := List.mem_singleton.1 hu
          exact absurd hname (hrepair rfl w hw hactive)
    · exact h.ready w hw hactive u (mem_of_mem_others ht hu) hname
  · obtain ⟨x, v, hv, rfl⟩ := woken_of_releaseAll hu
    exact absurd hname (h.waits w hw hactive x v hv)

/-- A repair that ends has no worker left. -/
lemma not_named_of_ends {repair : Bool} (h : Attached s) (ht : t ∈ s.ready)
    (hends : Ends s t repair) (hrepair : repair = true) (hw : w ∈ s.workers)
    (hactive : w.isActive) : t.name ≠ w.name := by
  cases hends with
  | clearCaches hop => exact h.not_named ht (by simp [hop]) hw hactive
  | busy hop => cases hrepair
  | awaiting hop hdone =>
      intro hname
      have hawaited : s.isAwaited t = true :=
        List.any_eq_true.2 ⟨w, hw, by simp [hname, hactive]⟩
      rw [hdone] at hawaited
      cases hawaited
  | deadline hop => exact h.not_named ht (by simp [hop]) hw hactive
  | body hop _ => exact h.not_named ht (by simp [hop]) hw hactive

lemma mem_setStatus {j : ℕ} {v : Worker} {status : Status} (hv : s.workers[j]? = some v)
    (hw : w ∈ (s.setStatus j v status).workers) :
    w = { v with status := status } ∨ w ∈ s.workers :=
  (mem_replaceAt.1 hw).imp List.mem_singleton.1 fun hw => mem_of_mem_others hv hw

lemma isActive_of_advances {v : Worker} {status : Status} (h : Advances v status)
    (hactive : Worker.isActive { v with status := status }) : v.isActive := by
  cases h with
  | start hv => simp [Worker.isActive, hv]
  | finish _ | callback _ _ => simp [Worker.isActive] at hactive

lemma attached_moves (hregular : Regular cfg s) (h : Attached s) (hmoves : Moves cfg s s') :
    Attached s' := by
  cases hmoves with
  | answered => exact h
  | @arrives a op plan _ =>
      refine ⟨fun w hw hactive u hu hname => ?_, h.waits,
        fun w hw => Nat.lt_succ_of_lt (h.known w hw)⟩
      rcases List.mem_append.1 hu with hu | hu
      · exact h.ready w hw hactive u hu hname
      · obtain rfl := List.mem_singleton.1 hu
        exact absurd (h.known w hw) (hname ▸ lt_irrefl _)
  | resumes ht htodo => exact attached_resume hregular h ht (.plan htodo)
  | passes ht htodo hop hzero => exact attached_resume hregular h ht (.gate hop htodo hzero)
  | begins ht hbegins => cases hbegins <;> exact attached_spawn hregular h ht
  | @submits i t l r ht htodo hop hlt =>
      have hspawn : Attached (s.spawn i t (some l) (.awaiting false r)) :=
        attached_spawn hregular h ht
      exact ⟨hspawn.ready, hspawn.waits, hspawn.known⟩
  | @refused i t l r ht hop hlt =>
      have hdepart : Attached (s.depart i t false) := attached_depart h ht (by simp)
      rw [release_eq]
      exact ⟨hdepart.ready, hdepart.waits, hdepart.known⟩
  | looks ht htodo hop =>
      refine attached_become h ht fun w hw hactive hname => ?_
      exact absurd hname (h.not_named (List.mem_of_getElem? ht) (by simp [hop]) hw hactive)
  | ends ht hends =>
      exact attached_depart h ht fun hrepair w hw hactive =>
        not_named_of_ends h (List.mem_of_getElem? ht) hends hrepair hw hactive
  | @enqueued i t ht _ =>
      have hdepart : Attached (s.depart i t false) := attached_depart h ht (by simp)
      exact ⟨hdepart.ready, hdepart.waits, hdepart.known⟩
  | @cleared i t ht _ =>
      have hdepart : Attached (s.depart i t false) := attached_depart h ht (by simp)
      exact ⟨hdepart.ready, hdepart.waits, hdepart.known⟩
  | @leaves i t r ht hop =>
      have hdepart : Attached (s.depart i t false) := attached_depart h ht (by simp)
      refine hdepart.of_workers rfl rfl rfl fun w' hw' => ?_
      obtain ⟨w, hw, rfl⟩ := List.mem_map.1 hw'
      refine ⟨w, hw, ?_⟩
      split_ifs with hcancel
      · simp [Worker.isActive, hcancel.2]
      · exact ⟨rfl, id⟩
  | @abandons x k t l r ht hop =>
      exact ⟨h.ready, fun w hw hactive y u hu => h.waits w hw hactive y u (mem_queue_of_drop ht hu),
        h.known⟩
  | advances hv hadvances =>
      refine h.of_workers rfl rfl rfl fun w' hw' => ?_
      rcases mem_setStatus hv hw' with rfl | hw'
      · exact ⟨_, List.mem_of_getElem? hv, rfl, isActive_of_advances hadvances⟩
      · exact ⟨w', hw', rfl, id⟩
  | @releases j v l hv hended hlane =>
      rw [release_eq]
      refine h.of_workers rfl rfl rfl fun w' hw' => ?_
      rcases mem_setStatus hv hw' with rfl | hw'
      · exact ⟨v, List.mem_of_getElem? hv, rfl, by simp [Worker.isActive]⟩
      · exact ⟨w', hw', rfl, id⟩

theorem attached_of_reachable (h : (laneSystem cfg).Reachable s) : Attached s := by
  induction h with
  | init hs =>
      obtain rfl := hs
      exact attached_fresh cfg
  | step hreached _ hnext ih =>
      exact attached_moves (regular_of_reachable hreached) ih (moves_of_step hnext)

/-! ### The wait for the saves -/

/-- Past its wait for the saves, a hold finds none in flight. -/
def Waited (s : State) : Prop :=
  ∀ t, s.Has t → (∃ rebuild, t.op = .holding rebuild) → s.inflight .save ≤ 0

/-- Only a call that is admitted adds to the saves in flight. -/
lemma inflight_le_moves (hslotted : Slotted cfg s) (hmoves : Moves cfg s s') :
    s'.inflight .save ≤ s.inflight .save ∨
      ∃ i t r, s.ready[i]? = some t ∧ t.todo = [] ∧ t.op = .call .save r ∧
        s' = (s.takeSlot t.name .save).spawn i t (some .save) (.awaiting false r) := by
  have hnonneg : 0 ≤ s.inflight .save := by
    rw [hslotted.counted .save]
    omega
  cases hmoves with
  | @submits i t l r ht htodo hop hlt =>
      cases l with
      | tool =>
          refine .inl (le_of_eq ?_)
          show Function.update s.inflight .tool (s.inflight .tool + 1) .save = _
          simp
      | save => exact .inr ⟨i, t, r, ht, htodo, hop, rfl⟩
  | @refused i t l r ht hop hlt =>
      refine .inl ?_
      rw [release_eq]
      show Function.update (Function.update s.inflight l _) l _ _ ≤ _
      cases l with
      | tool => simp
      | save => simp [State.takeSlot, hnonneg]
  | @releases j w l hw hended hlane =>
      refine .inl ?_
      rw [release_eq]
      show Function.update s.inflight l (max 0 (s.inflight l - 1)) .save ≤ _
      cases l with
      | tool => simp
      | save =>
          rw [Function.update_self]
          omega
  | answered | arrives _ | resumes _ _ | passes _ _ _ _ | begins _ _ | looks _ _ _ | ends _ _
  | enqueued _ _ | cleared _ _ | leaves _ _ | abandons _ _ | advances _ _ => exact .inl le_rfl

lemma held_of_call {r : Bool} {l : Lane} (hfits : Fits cfg t) (hop : t.op = .call l r)
    (htodo : t.todo = []) : ∃ x, x ≠ .mine ∧ t.count x = 1 := by
  unfold Fits at hfits
  rw [hop] at hfits
  obtain ⟨x, hx, hplan⟩ := hfits
  refine ⟨x, hx, ?_⟩
  rw [Task.count, held_of_plan hplan htodo]
  simp

lemma waited_moves (htakes : cfg.TakesAll) (hregular : Regular cfg s)
    (hslotted : Slotted cfg s) (h : Waited s) (hmoves : Moves cfg s s') : Waited s' := by
  rintro u hu ⟨rebuild, hop⟩
  rcases inflight_le_moves hslotted hmoves with hle | ⟨i, t, r, ht, htodo, hcall, rfl⟩
  · refine hle.trans ?_
    rcases op_origin (traffic_of_moves hmoves) hu with
      ⟨t, ht, hsame⟩ | ⟨a, plan, harrives⟩ | ⟨t, _, hbecomes⟩ | ⟨t, ht, t', hresumes, hsame⟩ |
        hclear
    · exact h t ht ⟨rebuild, hsame.trans hop⟩
    · rw [hop] at harrives
      cases starts_of_coroutine harrives
    · rw [hop] at hbecomes
      cases hbecomes with
      | begins hbegins => cases hbegins
    · cases hresumes with
      | plan _ => exact h t (.inl ht) ⟨rebuild, hsame.trans hop⟩
      | gate _ _ hzero => exact not_lt.1 hzero
    · cases hclear.symm.trans hop
  · -- a save is admitted, but its permit is held by the hold
    exfalso
    have hmem := List.mem_of_getElem? ht
    obtain ⟨x, hx, hone⟩ := held_of_call (hregular.fits t hmem) hcall htodo
    have hhas : (u ∈ s.ready ∧ t ≠ u) ∨ ∃ y, u ∈ s.sems.queue y := by
      refine hu.imp_left fun hu => ?_
      rcases mem_replaceAt.1 hu with hu | hu
      · obtain rfl := List.mem_singleton.1 hu
        cases hop
      · refine ⟨mem_of_mem_others ht hu, ?_⟩
        rintro rfl
        cases hcall.symm.trans hop
    have hfits : Fits cfg u := by
      rcases hhas with ⟨hu, _⟩ | ⟨y, hu⟩
      · exact hregular.fits u hu
      · exact hregular.waits y u hu
    have hfull := (count_of_holding hfits hop hx).trans (permits_of_takesAll htakes hx)
    have hzero := count_eq_zero_of_full hregular hfull hhas hmem
    omega

lemma waited_of_reachable (htakes : cfg.TakesAll) (h : (laneSystem cfg).Reachable s) :
    Waited s := by
  induction h with
  | init hs =>
      obtain rfl := hs
      exact fun _ _ _ => le_rfl
  | step hreached _ hnext ih =>
      exact waited_moves htakes (regular_of_reachable hreached) (slotted_of_reachable hreached) ih
        (moves_of_step hnext)

/-! ### The body is alone -/

/-- A worker at work was at work before, or has just been given its work. -/
lemma active_of_moves (hmoves : Moves cfg s s') (hw : w ∈ s'.workers) (hactive : w.isActive) :
    (∃ v ∈ s.workers, v.isActive) ∨ ∃ u ∈ s'.ready, u.name = w.name := by
  have hspawned : ∀ {i : ℕ} {t : Coroutine} {lane : Option Lane} {op : Op},
      w ∈ s.workers ++ [(⟨t.name, lane, .queued⟩ : Worker)] →
      (∃ v ∈ s.workers, v.isActive) ∨
        ∃ u ∈ replaceAt s.ready i [{ t with op := op }], u.name = w.name := by
    intro i t lane op hmem
    rcases List.mem_append.1 hmem with hmem | hmem
    · exact .inl ⟨w, hmem, hactive⟩
    · obtain rfl := List.mem_singleton.1 hmem
      exact .inr ⟨_, mem_replaceAt.2 (.inl List.mem_cons_self), rfl⟩
  cases hmoves with
  | begins ht _ => exact hspawned hw
  | submits ht _ _ _ => exact hspawned hw
  | refused ht _ _ =>
      rw [release_eq] at hw
      exact .inl ⟨w, hw, hactive⟩
  | @leaves i t r ht hop =>
      obtain ⟨v, hv, rfl⟩ := List.mem_map.1 hw
      refine .inl ⟨v, hv, ?_⟩
      split_ifs at hactive with hcancel
      · simp [Worker.isActive, hcancel.2]
      · exact hactive
  | advances hv hadvances =>
      rcases mem_setStatus hv hw with rfl | hw
      · exact .inl ⟨_, List.mem_of_getElem? hv, isActive_of_advances hadvances hactive⟩
      · exact .inl ⟨w, hw, hactive⟩
  | releases hv hended hlane =>
      rw [release_eq] at hw
      rcases mem_setStatus hv hw with rfl | hw
      · simp [Worker.isActive] at hactive
      · exact .inl ⟨w, hw, hactive⟩
  | answered | arrives _ | resumes _ _ | passes _ _ _ _ | looks _ _ _ | ends _ _
  | enqueued _ _ | cleared _ _ | abandons _ _ => exact .inl ⟨w, hw, hactive⟩

/-- Beside a body that has every permit nobody holds one. -/
lemma held_nil_of_inBody (htakes : cfg.TakesAll) (hregular : Regular cfg s) (ht : t ∈ s.ready)
    (hbody : inBody t) (hu : u ∈ s.ready) (hne : u ≠ t) : u.held = [] := by
  refine List.eq_nil_iff_forall_not_mem.2 fun x hx => ?_
  have hfull : t.count x = cfg.permits x := by
    rw [count_of_inBody (hregular.fits t ht) hbody]
    by_cases hmine : x = .mine
    · subst hmine
      simp [(count_exclusivePlan cfg).2.2.2, Config.permits]
    · rw [if_neg hmine, permits_of_takesAll htakes hmine, Nat.add_zero]
  have hzero := count_eq_zero_of_full hregular hfull (.inl ⟨ht, hne⟩) hu
  exact List.count_eq_zero.1 hzero hx

/-- A hold that takes every permit, and is entered when the workers without a caller have
finished, is alone. -/
lemma excludes_of_takesAll (htakes : cfg.TakesAll)
    (h : (laneSystem cfg).ReachedBy (EntersDrained cfg) s) : s.Excludes := by
  induction h with
  | init hs =>
      obtain rfl := hs
      exact fun t ht => absurd ht List.not_mem_nil
  | @step s s' a hreached hdrained hnext ih =>
      have hbefore := hreached.reachable
      have hafter : (laneSystem cfg).Reachable s' := hbefore.step trivial hnext
      have hregular := regular_of_reachable hafter
      have hattached := attached_of_reachable hafter
      refine fun t ht hbody => ⟨fun w hw => ?_, fun u hu hne =>
        held_nil_of_inBody htakes hregular ht hbody hu hne⟩
      by_contra hidle
      have hactive : w.isActive = true := by simpa using hidle
      by_cases hleft : s'.Left w
      · by_cases hold : t ∈ s.ready
        · -- the body was running before, and its workers had finished
          rcases active_of_moves (moves_of_step hnext) hw hactive with
            ⟨v, hv, hvactive⟩ | ⟨u, hu, hname⟩
          · rw [(ih t hold hbody).1 v hv] at hvactive
            cases hvactive
          · exact hleft u hu hname
        · -- the hold is entered now, after it has waited for the saves
          have hsave := hdrained s' hnext t ht hbody hold w hw hactive hleft
          have hwaited := waited_of_reachable htakes hafter t (.inl ht) (inBody_iff.1 hbody).1
          obtain ⟨j, hj⟩ := List.mem_iff_getElem?.1 hw
          have hpos := inflight_pos (l := .save) (slotted_of_reachable hafter) hj (by
            simp only [Worker.hasSlot, hsave]
            cases hstatus : w.status <;> simp_all [Worker.isActive])
          omega
      · -- the worker has a caller, which holds a permit
        obtain ⟨u, hu, hname⟩ : ∃ u ∈ s'.ready, u.name = w.name := by
          simpa [State.Left] using hleft
        obtain ⟨repair, r, hop⟩ := hattached.ready w hw hactive u hu hname
        have hfits := hregular.fits u hu
        unfold Fits at hfits
        rw [hop] at hfits
        obtain ⟨x, hheld, _⟩ := hfits
        have hne : u ≠ t := by
          rintro rfl
          obtain ⟨rebuild, hholding⟩ := (inBody_iff.1 hbody).1
          cases hop.symm.trans hholding
        rw [held_nil_of_inBody htakes hregular ht hbody hu hne] at hheld
        cases hheld

/-! ### A hold that does not take every permit -/

/-- The body of a hold has what the hold takes, so there is that much. -/
lemma plan_le_of_inBody (hregular : Regular cfg s) (ht : t ∈ s.ready) (hbody : inBody t)
    (x : Sem) : cfg.exclusivePlan.count x ≤ cfg.permits x := by
  have hcount := count_of_inBody (x := x) (hregular.fits t ht) hbody
  have hle := le_weigh (fun v : Task Sem Op => v.count x) ht
  have hconserved := hregular.conserved x
  rw [permits] at hconserved
  omega

lemma drained_of_idle {a : Label} (h : ∀ s', s.step cfg a = some s' → s'.workers = []) :
    EntersDrained cfg s a := by
  intro s' hs' t _ _ _ w hw
  rw [h s' hs'] at hw
  cases hw

/-- While no worker is there, a request may arrive and take its permits. -/
lemma drained_start {a : Arrival} {op : Op} {plan : List Sem}
    (h : (laneSystem cfg).ReachedBy (EntersDrained cfg) s) (hworkers : s.workers = [])
    (ha : a.coroutine cfg s = some (op, plan)) (hplan : plan ≠ [])
    (hfree : ∀ x, plan.count x ≤ s.sems.free x) (hqueue : ∀ x ∈ plan, s.sems.queue x = []) :
    (laneSystem cfg).ReachedBy (EntersDrained cfg) (s.started a op plan) := by
  refine h.exec ?_ (exec_start ha hplan hfree hqueue)
  refine StepSystem.meets_cons.2 ⟨drained_of_idle fun s' hs' => ?_, fun s' hs' => ?_⟩
  · rw [step_arrive ha] at hs'
    obtain rfl := Option.some.inj hs'
    exact hworkers
  · obtain rfl := Option.some.inj ((step_arrive ha).symm.trans hs')
    refine StepSystem.meets_cons.2 ⟨drained_of_idle fun s' hs' => ?_, fun _ _ => trivial⟩
    rw [step_resume (enroll_last { s with repairing := a.flag s.repairing } op plan) hplan] at hs'
    obtain rfl := Option.some.inj hs'
    exact hworkers

/-- The state in which a mine is in the body of the hold, and nothing else was asked for. -/
def State.mining (cfg : Config) : State :=
  { State.fresh cfg with
    sems := ((State.fresh cfg).sems.takeAll cfg.exclusivePlan).takeAll [.mine]
    ready := [⟨0, .holding false, .mine :: cfg.exclusivePlan.reverse, []⟩]
    next := 1 }

lemma exclusivePlan_ne_nil (cfg : Config) : cfg.exclusivePlan ≠ [] := by
  have hpos : 0 < cfg.writeSlots := by
    unfold Config.writeSlots
    omega
  intro hnil
  have hcount := (count_exclusivePlan cfg).2.1
  rw [hnil, List.count_nil] at hcount
  omega

lemma mining_reached (hle : ∀ x, cfg.exclusivePlan.count x ≤ cfg.permits x) :
    (laneSystem cfg).ReachedBy (EntersDrained cfg) (State.mining cfg) := by
  have hstart : (laneSystem cfg).ReachedBy (EntersDrained cfg)
      ((State.fresh cfg).started .mineExclusive (.exclusive false) cfg.exclusivePlan) :=
    drained_start (.init rfl) rfl rfl (exclusivePlan_ne_nil cfg) hle fun _ _ => rfl
  -- the wait for the saves ends at once, and the mine permit is free
  have hgate : (laneSystem cfg).next
      ((State.fresh cfg).started .mineExclusive (.exclusive false) cfg.exclusivePlan) (.run 0) =
        some (State.mining cfg) := by
    have hmine : ∀ x, [Sem.mine].count x ≤
        ((State.fresh cfg).sems.takeAll cfg.exclusivePlan).free x := by
      intro x
      show _ ≤ cfg.permits x - cfg.exclusivePlan.count x
      cases x with
      | mine =>
          rw [(count_exclusivePlan cfg).2.2.2]
          exact le_rfl
      | read | write | save => exact Nat.zero_le _
    show some (State.resume _ 0 _) = _
    rw [resume_of_free hmine fun _ _ => rfl]
    rfl
  refine hstart.step (drained_of_idle fun s' hs' => ?_) hgate
  obtain rfl := Option.some.inj (hgate.symm.trans hs')
  rfl

/-- With a permit to spare an operation runs beside the body. -/
lemma works_beside {a : Arrival} {x : Sem} (ha : ∀ s, a.coroutine cfg s = some (.work false, [x]))
    (hle : ∀ x, cfg.exclusivePlan.count x ≤ cfg.permits x) (hx : x ≠ .mine)
    (hspare : cfg.exclusivePlan.count x < cfg.permits x) :
    ∃ s, (laneSystem cfg).ReachedBy (EntersDrained cfg) s ∧ ¬ s.Excludes := by
  have hfree : ∀ y, [x].count y ≤ (State.mining cfg).sems.free y := by
    intro y
    show _ ≤ cfg.permits y - cfg.exclusivePlan.count y - [Sem.mine].count y
    by_cases hyx : y = x
    · subst hyx
      have hmine : [Sem.mine].count y = 0 := List.count_eq_zero_of_not_mem (by simpa using hx)
      simp only [List.count_singleton_self, hmine]
      omega
    · have hnone : [x].count y = 0 := List.count_eq_zero_of_not_mem (by simpa using hyx)
      omega
  have hstart := drained_start (mining_reached hle) rfl (ha _) (List.cons_ne_nil x [])
    hfree fun _ _ => rfl
  refine ⟨_, hstart.step (a := .run 1) ?_ rfl, ?_⟩
  · -- the body was running before
    intro s' hs' t ht hbody hnew
    obtain rfl := Option.some.inj hs'
    rcases mem_replaceAt.1 ht with ht | ht
    · obtain rfl := List.mem_singleton.1 ht
      cases hbody
    · exact absurd (mem_of_mem_others rfl ht) hnew
  · intro hexcludes
    have halone := (hexcludes ⟨0, .holding false, .mine :: cfg.exclusivePlan.reverse, []⟩
      List.mem_cons_self rfl).1 ⟨1, none, .queued⟩ List.mem_cons_self
    cases halone

/-- **When the exclusive hold excludes.**  Exactly for the settings with which the hold, if it can
be had at all, takes every read and every write permit, its body is alone in every run that enters
it only after the workers without a caller have finished, the saves apart; and a step that enters
it before ends in a state where it is not. -/
theorem exclusive_excludes (cfg : Config) :
    ((∀ s, (laneSystem cfg).ReachedBy (EntersDrained cfg) s → s.Excludes) ↔
      (cfg.readSlots ≤ cfg.maxRead → cfg.writeSlots ≤ cfg.maxWrite → cfg.TakesAll)) ∧
    ∀ s a, ¬ EntersDrained cfg s a → ∃ s', s.step cfg a = some s' ∧ ¬ s'.Excludes := by
  obtain ⟨hread, hwrite, hsave, hmine⟩ := count_exclusivePlan cfg
  refine ⟨?_, fun s a hnot => ?_⟩
  swap
  · simp only [EntersDrained, not_forall] at hnot
    obtain ⟨s', hs', t, ht, hbody, _, w, hw, hactive, _, _⟩ := hnot
    refine ⟨s', hs', fun hexcludes => ?_⟩
    rw [(hexcludes t ht hbody).1 w hw] at hactive
    cases hactive
  constructor
  · intro h hreads hwrites
    have hle : ∀ x, cfg.exclusivePlan.count x ≤ cfg.permits x := by
      intro x
      cases x with
      | read => exact hread.trans_le hreads
      | write => exact hwrite.trans_le hwrites
      | save => exact hsave.le
      | mine => exact hmine.trans_le (Nat.zero_le _)
    by_contra hnot
    have hspare : cfg.readSlots < cfg.maxRead ∨ cfg.writeSlots < cfg.maxWrite := by
      unfold Config.TakesAll at hnot
      omega
    obtain ⟨s, hreached, hfails⟩ : ∃ s, (laneSystem cfg).ReachedBy (EntersDrained cfg) s ∧
        ¬ s.Excludes := by
      rcases hspare with hspare | hspare
      · exact works_beside (a := .read) (fun _ => rfl) hle (by simp) (hread.trans_lt hspare)
      · exact works_beside (a := .write) (fun _ => rfl) hle (by simp) (hwrite.trans_lt hspare)
    exact hfails (h s hreached)
  · intro hcond s hreached t ht hbody
    have hregular := regular_of_reachable hreached.reachable
    have hreads := plan_le_of_inBody hregular ht hbody .read
    have hwrites := plan_le_of_inBody hregular ht hbody .write
    exact excludes_of_takesAll (hcond (hread ▸ hreads) (hwrite ▸ hwrites)) hreached t ht hbody

/-- The caller of a write times out, and a rebuild enters its body while the write goes on. -/
theorem exclusive_excludes_fails : ∃ s, (laneSystem Config.default).Reachable s ∧
    ∃ t ∈ s.ready, inBody t ∧ ∃ w ∈ s.workers, w.isActive := by
  obtain ⟨s, hexec, hend⟩ := StepSystem.exists_of_exec_any (laneSystem Config.default)
    (State.fresh Config.default)
    [.arrive (.call ⟨"tools/call", some ⟨"mempalace_add_drawer", []⟩⟩), .run 0, .run 0, .start 0,
      .leave 0, .arrive (.repair .rebuild), .run 0, .run 0]
    (fun s => decide (∃ t ∈ s.ready, inBody t ∧ ∃ w ∈ s.workers, w.isActive)) (by decide)
  exact ⟨s, .exec (.init default_init) hexec, of_decide_eq_true hend⟩

end PalaceDaemon.Lanes

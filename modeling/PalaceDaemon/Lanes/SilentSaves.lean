/-
Silent saves during a rebuild.

`silent_save` takes a write permit, then it looks at the flag of the repair, and when a rebuild is
in progress it appends the save to the queue file and answers `queued: true`.  The rebuild sets the
flag first and then takes its permits, so a save that has its permit finds the flag.  But a save
that arrives while the body of the rebuild runs needs a write permit before it can look, and the
rebuild has them: it gets there by its own steps exactly when one is free.
-/
import PalaceDaemon.Lanes.Exclusion

namespace PalaceDaemon.Lanes

open Semaphore Tasks

/-- Steps of the coroutine `n`, and of nobody else. -/
inductive OwnSteps (cfg : Config) (n : ℕ) : State → State → Prop
  | refl (s : State) : OwnSteps cfg n s s
  | head {s s' s'' : State} {i : ℕ} {t : Coroutine} : s.ready[i]? = some t → t.name = n →
      s.step cfg (.run i) = some s' → OwnSteps cfg n s' s'' → OwnSteps cfg n s s''

/-- The silent save `n` can get its answer `queued: true` by itself. -/
def State.CompletesAlone (cfg : Config) (s : State) (n : ℕ) : Prop :=
  ∃ s', OwnSteps cfg n s s' ∧ n ∈ s'.queued

/-- Every silent save that is pending gets its answer `queued: true` by itself, and so does one
that arrives. -/
def State.SavesQueue (cfg : Config) (s : State) : Prop :=
  (∀ t, s.Has t → (t.op = .silentSave ∨ t.op = .enqueuing) → s.CompletesAlone cfg t.name) ∧
    ∀ s', s.step cfg (.arrive .silentSave) = some s' → s'.CompletesAlone cfg s.next

variable {cfg : Config} {s s' : State} {t u : Coroutine} {i : ℕ}

/-! ### The flag -/

/-- The coroutine is a `/repair` past its start transition. -/
def isRepair (t : Coroutine) : ℕ :=
  match t.op with
  | .work true | .clearCaches | .awaiting true _ | .exclusive true | .holding true | .clearing => 1
  | _ => 0

/-- The coroutine is a rebuild that takes or has its permits. -/
def isRebuild (t : Coroutine) : ℕ :=
  match t.op with
  | .exclusive true | .holding true => 1
  | _ => 0

/-- There is one repair at a time, and the flag tells a rebuild. -/
structure Flagged (s : State) : Prop where
  repair : s.total isRepair isRepair ≤ if s.repairing.isSome then 1 else 0
  rebuild : s.total isRebuild isRebuild ≤ if s.rebuilding then 1 else 0
  answered : ∀ n ∈ s.queued, n < s.next

lemma flagged_fresh (cfg : Config) : Flagged (State.fresh cfg) where
  repair := by simp [State.fresh, State.total, Sems.weigh]
  rebuild := by simp [State.fresh, State.total, Sems.weigh]
  answered _ hn := absurd hn List.not_mem_nil

lemma isRepair_ends (h : Ends s t true) : isRepair t = 1 := by
  cases h with
  | clearCaches hop | awaiting hop _ | deadline hop | body hop _ => simp [isRepair, hop]

lemma carried_isRepair (s : State) : Carried s isRepair where
  same t u _ hop := by simp only [isRepair, hop]
  resumes t u h := by
    cases h with
    | plan _ => exact le_rfl
    | @gate rebuild hop _ _ => cases rebuild <;> simp [isRepair, hop]
  becomes t op h := by
    cases h with
    | begins hbegins =>
        cases hbegins with
        | @work repair hop _ => cases repair <;> simp [isRepair, hop]
        | silentSave _ _ => exact Nat.zero_le _
        | @again repair hop => cases repair <;> simp [isRepair, hop]
    | submits _ _ => exact Nat.zero_le _
    | looks _ _ => exact Nat.zero_le _
  ends t h := (isRepair_ends h).ge

lemma carried_isRebuild (s : State) : Carried s isRebuild where
  same t u _ hop := by simp only [isRebuild, hop]
  resumes t u h := by
    cases h with
    | plan _ => exact le_rfl
    | @gate rebuild hop _ _ => cases rebuild <;> simp [isRebuild, hop]
  becomes t op h := by
    cases h with
    | begins hbegins => cases hbegins <;> exact Nat.zero_le _
    | submits _ _ => exact Nat.zero_le _
    | looks _ _ => exact Nat.zero_le _
  ends t _ := Nat.zero_le _

lemma isRebuild_le_isRepair (t : Coroutine) : isRebuild t ≤ isRepair t := by
  unfold isRebuild isRepair
  split <;> simp_all

/-- What a request that arrives adds, and what it does to the flag. -/
lemma flag_of_coroutine {a : Arrival} {op : Op} {plan : List Sem}
    (h : a.coroutine cfg s = some (op, plan)) (name : ℕ) :
    (a.flag s.repairing = s.repairing ∧ isRepair ⟨name, op, [], plan⟩ = 0) ∨
      (s.repairing = none ∧ ∃ mode, a.flag s.repairing = some mode ∧
        isRepair ⟨name, op, [], plan⟩ = 1 ∧
        isRebuild ⟨name, op, [], plan⟩ = if mode = .rebuild then 1 else 0) := by
  cases a with
  | repair mode =>
      simp only [Arrival.coroutine] at h
      split at h
      · cases h
      · rename_i hnone
        refine .inr ⟨by simpa using hnone, mode, rfl, ?_⟩
        cases mode with
        | light | scan | prune | rebuild =>
            obtain ⟨rfl, rfl⟩ := Prod.mk.inj (Option.some.inj h)
            exact ⟨rfl, rfl⟩
  | call r =>
      simp only [Arrival.coroutine] at h
      split at h
      · cases h
      · obtain ⟨rfl, rfl⟩ := Prod.mk.inj (Option.some.inj h)
        exact .inl ⟨rfl, rfl⟩
  | mineExclusive =>
      simp only [Arrival.coroutine] at h
      split at h
      · cases h
      · obtain ⟨rfl, rfl⟩ := Prod.mk.inj (Option.some.inj h)
        exact .inl ⟨rfl, rfl⟩
  | read | write | mine | silentSave =>
      obtain ⟨rfl, rfl⟩ := Prod.mk.inj (Option.some.inj h)
      exact .inl ⟨rfl, rfl⟩

lemma weigh_mono {w w' : Coroutine → ℕ} (h : ∀ t, w t ≤ w' t) (s : State) :
    s.total w w ≤ s.total w' w' := by
  have hlist : ∀ ts : List Coroutine, weigh w ts ≤ weigh w' ts := fun ts =>
    List.sum_le_sum fun t _ => h t
  exact Nat.add_le_add (Finset.sum_le_sum fun x _ => hlist _) (hlist _)

/-- The flag is as before, and nobody is new. -/
lemma Flagged.of_traffic (hregular : Regular cfg s) (h : Flagged s) (htraffic : Traffic cfg s s')
    (hnext : s'.next = s.next) (hrepairing : s'.repairing = s.repairing)
    (hqueued : ∀ n ∈ s'.queued, n < s.next) : Flagged s' := by
  have hle : ∀ w : Coroutine → ℕ, Carried s w → s'.total w w ≤ s.total w w := by
    intro w hw
    rcases total_traffic hw hregular.orderly htraffic with ⟨hle, _⟩ | ⟨_, _, _, _, _, hnew⟩
    · exact hle
    · omega
  refine ⟨?_, ?_, fun n hn => hnext ▸ hqueued n hn⟩
  · rw [hrepairing]
    exact (hle isRepair (carried_isRepair s)).trans h.repair
  · rw [State.rebuilding, hrepairing]
    exact (hle isRebuild (carried_isRebuild s)).trans h.rebuild

lemma flagged_moves (hregular : Regular cfg s) (h : Flagged s) (hmoves : Moves cfg s s') :
    Flagged s' := by
  have htraffic := traffic_of_moves hmoves
  cases hmoves with
  | @arrives a op plan harrives =>
      have hrepair := total_enroll isRepair isRepair
        { s with repairing := a.flag s.repairing } op plan
      have hrebuild := total_enroll isRebuild isRebuild
        { s with repairing := a.flag s.repairing } op plan
      have hbefore := h.repair
      have hrebuilds := h.rebuild
      have hle := isRebuild_le_isRepair ⟨s.next, op, [], plan⟩
      refine ⟨?_, ?_, fun n hn => Nat.lt_succ_of_lt (h.answered n hn)⟩
      · rw [hrepair]
        show s.total isRepair isRepair + isRepair ⟨s.next, op, [], plan⟩ ≤
          if (a.flag s.repairing).isSome then 1 else 0
        rcases flag_of_coroutine harrives s.next with ⟨hflag, hzero⟩ | ⟨hnone, mode, hflag, hone, _⟩
        · rw [hflag, hzero]
          exact hbefore
        · rw [hnone] at hbefore
          rw [hflag, hone]
          simpa using hbefore
      · rw [hrebuild]
        show s.total isRebuild isRebuild + isRebuild ⟨s.next, op, [], plan⟩ ≤
          if decide (a.flag s.repairing = some .rebuild) then 1 else 0
        rcases flag_of_coroutine harrives s.next with
          ⟨hflag, hzero⟩ | ⟨hnone, mode, hflag, _, hmode⟩
        · rw [hflag]
          show _ ≤ if s.rebuilding then 1 else 0
          omega
        · -- no repair was in progress, so no rebuild was
          have hfree : s.rebuilding = false := by simp [State.rebuilding, hnone]
          rw [hfree] at hrebuilds
          rw [hflag, hmode]
          simpa using hrebuilds
  | @cleared i t ht hop =>
      have hdepart : (s.depart i t false).total isRepair isRepair + isRepair t ≤
          s.total isRepair isRepair + weigh isRepair [] :=
        total_depart_le _ _ _ hregular.orderly ht (fun _ _ _ => le_rfl) rfl rfl
      have hone : isRepair t = 1 := by simp [isRepair, hop]
      have hbefore := h.repair
      have hzero : (s.depart i t false).total isRepair isRepair = 0 := by
        rw [weigh_nil] at hdepart
        split_ifs at hbefore <;> omega
      have hmono := weigh_mono isRebuild_le_isRepair (s.depart i t false)
      refine ⟨hzero.le, ?_, h.answered⟩
      show (s.depart i t false).total isRebuild isRebuild ≤ _
      omega
  | @enqueued i t ht hop =>
      refine h.of_traffic hregular htraffic rfl rfl fun n hn => ?_
      rcases List.mem_cons.1 hn with rfl | hn
      · exact name_lt_next hregular (List.mem_of_getElem? ht)
      · exact h.answered n hn
  | refused ht hop _ =>
      rw [release_eq] at htraffic ⊢
      exact h.of_traffic hregular htraffic rfl rfl h.answered
  | releases hw hended hlane =>
      rw [release_eq] at htraffic ⊢
      exact h.of_traffic hregular htraffic rfl rfl h.answered
  | answered | resumes _ _ | passes _ _ _ _ | begins _ _ | submits _ _ _ _ | looks _ _ _
  | ends _ _ | leaves _ _ | abandons _ _ | advances _ _ =>
      exact h.of_traffic hregular htraffic rfl rfl h.answered

lemma flagged_of_reachable (h : (laneSystem cfg).Reachable s) : Flagged s := by
  induction h with
  | init hs =>
      obtain rfl := hs
      exact flagged_fresh cfg
  | step hreached _ hnext ih =>
      exact flagged_moves (regular_of_reachable hreached) ih (moves_of_step hnext)

/-- While a rebuild is in its body the flag says so. -/
lemma rebuilding_of_body (h : Flagged s) (ht : t ∈ s.ready) (hop : t.op = .holding true) :
    s.rebuilding = true := by
  have hle := le_total isRebuild (.inl ht)
  have hone : isRebuild t = 1 := by simp [isRebuild, hop]
  have hrebuild := h.rebuild
  by_contra hnot
  rw [if_neg hnot] at hrebuild
  omega

/-! ### Saves that get through -/

lemma completes_enqueuing (hfits : Fits cfg t) (ht : s.ready[i]? = some t)
    (hop : t.op = .enqueuing) : s.CompletesAlone cfg t.name := by
  unfold Fits at hfits
  rw [hop] at hfits
  obtain ⟨x, _, htodo⟩ := hfits
  have hstep : s.step cfg (.run i) =
      some { s.depart i t false with queued := t.name :: s.queued } := by
    simp [State.step, ht, State.turn, htodo, hop]
  exact ⟨_, .head ht rfl hstep (.refl _), List.mem_cons_self⟩

/-- A save that has its permit sees the rebuild. -/
lemma completes_looking (hfits : Fits cfg t) (ht : s.ready[i]? = some t)
    (hop : t.op = .silentSave) (htodo : t.todo = []) (hrebuilding : s.rebuilding = true) :
    s.CompletesAlone cfg t.name := by
  have hstep : s.step cfg (.run i) = some (s.become i t .enqueuing) := by
    simp [State.step, ht, State.turn, htodo, hop, hrebuilding]
  have hbecomes : Becomes t .enqueuing := .looks hop htodo
  obtain ⟨s', hsteps, hqueued⟩ := completes_enqueuing (s := s.become i t .enqueuing)
    (fits_of_becomes hfits hbecomes) (getElem?_replaceAt ht _) rfl
  exact ⟨s', .head ht rfl hstep hsteps, hqueued⟩

/-- A save that has yet to take its permit takes it, when one is free. -/
lemma completes_taking (horderly : Orderly s.sems) (hfits : Fits cfg t)
    (ht : s.ready[i]? = some t) (hop : t.op = .silentSave) (hrebuilding : s.rebuilding = true)
    (hfree : 0 < s.sems.free .write) : s.CompletesAlone cfg t.name := by
  by_cases htodo : t.todo = []
  · exact completes_looking hfits ht hop htodo hrebuilding
  · have hqueue : s.sems.queue .write = [] := by
      by_contra hne
      have hzero := horderly.locked .write hne
      omega
    have hplan := hfits
    unfold Fits at hplan
    rw [hop] at hplan
    have hwrite : t.todo = [.write] := by
      obtain ⟨x, rest, hcons⟩ := List.exists_cons_of_ne_nil htodo
      have hlength := congrArg List.length hplan
      simp only [Task.plan, hcons, List.length_append, List.length_reverse, List.length_cons,
        List.length_nil] at hlength
      have hheld : t.held = [] := List.length_eq_zero_iff.1 (by omega)
      simpa [Task.plan, hheld] using hplan
    have hresume := resume_of_free (s := s) (t := t) (i := i)
      (by
        intro x
        rw [hwrite]
        cases x with
        | write => exact hfree
        | read | save | mine => exact Nat.zero_le _)
      (by
        intro x hx
        rw [hwrite] at hx
        obtain rfl := List.mem_singleton.1 hx
        exact hqueue)
    have hfits' : Fits cfg (t.advance t.todo []) :=
      hfits.of_plan htodo rfl (advance_plan (List.append_nil _).symm) List.nil_suffix
    obtain ⟨s', hsteps, hqueued⟩ := completes_looking (s := s.resume i t) hfits'
      (by rw [hresume]; exact getElem?_replaceAt ht _) hop rfl hrebuilding
    exact ⟨s', .head ht rfl (step_resume ht htodo) hsteps, hqueued⟩

/-- With a free write permit every silent save gets through. -/
lemma savesQueue_of_free (hregular : Regular cfg s) (hrebuilding : s.rebuilding = true)
    (hfree : 0 < s.sems.free .write) : s.SavesQueue cfg := by
  refine ⟨fun t ht hop => ?_, fun s' hs' => ?_⟩
  · rcases ht with ht | ⟨x, ht⟩
    · obtain ⟨i, hi⟩ := List.mem_iff_getElem?.1 ht
      rcases hop with hop | hop
      · exact completes_taking hregular.orderly (hregular.fits t ht) hi hop hrebuilding hfree
      · exact completes_enqueuing (hregular.fits t ht) hi hop
    · -- nobody waits for what a silent save waits for
      exfalso
      have hfits := hregular.waits x t ht
      obtain ⟨rest, htodo⟩ := List.head?_eq_some_iff.1 (hregular.orderly.waits x t ht)
      unfold Fits at hfits
      rcases hop with hop | hop
      · rw [hop] at hfits
        have hwrite : x = .write := by
          have hmem : x ∈ t.plan := by simp [Task.plan, htodo]
          simpa [hfits] using hmem
        subst hwrite
        have hzero := hregular.orderly.locked .write (List.ne_nil_of_mem ht)
        omega
      · rw [hop] at hfits
        obtain ⟨_, _, hnil⟩ := hfits
        rw [hnil] at htodo
        cases htodo
  · have harrive : s.step cfg (.arrive .silentSave) = _ := step_arrive rfl
    obtain rfl := Option.some.inj (harrive.symm.trans hs')
    exact completes_taking (s := s.enroll .silentSave [.write]) hregular.orderly
      (fits_of_starts .silentSave s.next) (enroll_last s _ _) rfl hrebuilding hfree

/-! ### Saves that do not -/

/-- A silent save that arrives while no write permit is free waits, and can do nothing more. -/
lemma not_savesQueue_of_locked (hregular : Regular cfg s) (hflagged : Flagged s)
    (hlocked : s.sems.free .write = 0) : ¬ s.SavesQueue cfg := by
  intro hsaves
  obtain ⟨s', hsteps, hqueued⟩ := hsaves.2 _ (step_arrive (a := .silentSave) rfl)
  have hnew : s.next ∉ s.queued := fun hmem => lt_irrefl _ (hflagged.answered _ hmem)
  cases hsteps with
  | refl => exact hnew hqueued
  | @head _ s₂ _ i t ht hname hstep hrest =>
      -- its only step is the one in which it joins the queue
      have hlast : t = ⟨s.next, .silentSave, [], [.write]⟩ ∧ i = s.ready.length := by
        by_cases hi : i < s.ready.length
        · have hold : s.ready[i]? = some t := by
            rw [← ht]
            exact (List.getElem?_append_left hi).symm
          have hlt := name_lt_next hregular (List.mem_of_getElem? hold)
          omega
        · obtain ⟨hlt, _⟩ := List.getElem?_eq_some_iff.1 ht
          have hlength : i = s.ready.length := by
            simp only [State.enroll, List.length_append, List.length_singleton] at hlt
            omega
          subst hlength
          have hlast := enroll_last { s with repairing := s.repairing } .silentSave [.write]
          exact ⟨Option.some.inj (ht.symm.trans hlast), rfl⟩
      obtain ⟨rfl, rfl⟩ := hlast
      have hwaits := acquire_locked (s := s.sems)
        (t := ⟨s.next, .silentSave, [], [.write]⟩) rfl (.inl hlocked)
      obtain rfl := Option.some.inj ((step_resume ht (by simp)).symm.trans hstep)
      have hready : (State.resume
          ({ s with repairing := Arrival.flag s.repairing .silentSave }.enroll .silentSave
            [.write]) s.ready.length ⟨s.next, .silentSave, [], [.write]⟩).ready =
          s.ready := by
        show replaceAt (s.ready ++ [_]) s.ready.length (acquire s.sems _).2.toList = _
        rw [hwaits, replaceAt_last]
        simp
      cases hrest with
      | refl => exact hnew hqueued
      | @head _ _ _ j u hu hsame _ _ =>
          rw [hready] at hu
          have hlt := name_lt_next hregular (List.mem_of_getElem? hu)
          omega

/-- **When a silent save does not wait for a rebuild.**  In every state reached in which the body of
a rebuild is running, the silent saves that are pending and the ones that arrive get their answer
`queued: true` by themselves exactly when a write permit is free.  With settings that give the
rebuild every write permit they never do. -/
theorem silent_saves_queue (h : (laneSystem cfg).Reachable s) (ht : t ∈ s.ready)
    (hop : t.op = .holding true) (htodo : t.todo = []) :
    (s.SavesQueue cfg ↔ 0 < s.sems.free .write) ∧
      (cfg.maxWrite ≤ cfg.writeSlots → ¬ s.SavesQueue cfg) := by
  have hregular := regular_of_reachable h
  have hflagged := flagged_of_reachable h
  have hrebuilding := rebuilding_of_body hflagged ht hop
  refine ⟨⟨fun hsaves => ?_, savesQueue_of_free hregular hrebuilding⟩, fun hsize => ?_⟩
  · by_contra hnot
    exact not_savesQueue_of_locked hregular hflagged (by omega) hsaves
  · -- the body has every write permit
    have hbody : inBody t = true := inBody_iff.2 ⟨⟨true, hop⟩, htodo⟩
    have hcount := count_of_inBody (x := .write) (hregular.fits t ht) hbody
    have hle := le_weigh (fun v : Task Sem Op => v.count .write) ht
    have hconserved : permits s.sems s.ready .write = cfg.maxWrite := hregular.conserved .write
    have hslots := (count_exclusivePlan cfg).2.1
    rw [permits] at hconserved
    exact not_savesQueue_of_locked hregular hflagged (by omega)

/-- With three write permits and a rebuild that takes two, silent saves are queued. -/
theorem silent_saves_queue_spare :
    ∃ s, (laneSystem { Config.default with maxWrite := 3 }).Reachable s ∧
      s.SavesQueue { Config.default with maxWrite := 3 } := by
  obtain ⟨s, hexec, hend⟩ := StepSystem.exists_of_exec_any
    (laneSystem { Config.default with maxWrite := 3 })
    (State.fresh { Config.default with maxWrite := 3 })
    [.arrive (.repair .rebuild), .run 0, .run 0]
    (fun s => decide ((∃ t ∈ s.ready, t.op = .holding true ∧ t.todo = []) ∧
      0 < s.sems.free .write)) (by decide)
  obtain ⟨⟨t, ht, hop, htodo⟩, hfree⟩ := of_decide_eq_true hend
  have hreachable : (laneSystem { Config.default with maxWrite := 3 }).Reachable s :=
    .exec (.init rfl) hexec
  exact ⟨s, hreachable, (silent_saves_queue hreachable ht hop htodo).1.2 hfree⟩

/-- With the default settings a silent save waits for the rebuild. -/
theorem silent_saves_queue_fails : ∃ s, (laneSystem Config.default).Reachable s ∧
    (∃ t ∈ s.ready, t.op = .holding true ∧ t.todo = []) ∧ ¬ s.SavesQueue Config.default := by
  obtain ⟨s, hexec, hend⟩ := StepSystem.exists_of_exec_any (laneSystem Config.default)
    (State.fresh Config.default) [.arrive (.repair .rebuild), .run 0, .run 0]
    (fun s => decide ((∃ t ∈ s.ready, t.op = .holding true ∧ t.todo = []) ∧
      s.sems.free .write = 0)) (by decide)
  obtain ⟨hbody, hlocked⟩ := of_decide_eq_true hend
  have hreachable : (laneSystem Config.default).Reachable s := .exec (.init rfl) hexec
  exact ⟨s, hreachable, hbody, not_savesQueue_of_locked (regular_of_reachable hreachable)
    (flagged_of_reachable hreachable) hlocked⟩

end PalaceDaemon.Lanes

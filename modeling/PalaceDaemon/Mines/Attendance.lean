/-
Who drains the queue.

An entry in the live file is drained by the next pass, so somebody has to run one.  `Task.attends`
are the coroutines that will: the background drainer, a background request that has yet to kick
it, and the handler of a rebuild up to its return.  A turn can leave the queue without an
attendant at four places.  A rebuild that fails returns without draining.  The handler of a
rebuild that has succeeded returns after one pass, whatever the pass put back.  The drainer stops
after `drainerBound` passes.  And a request that found a rebuild in progress appends its entry
without kicking the drainer, although the rebuild may be over by then.

`queue_attended` says that there is no fifth: if at these places the queue is empty or somebody
else attends to it, then whenever nothing is in progress the queue is empty or the drainer is
about to begin a pass.
-/
import PalaceDaemon.Mines.Server

namespace PalaceDaemon.Mines

/-- The task is going to run a pass, or to see that one runs. -/
def Task.attends : Task → Bool
  | .drainer _ | .drainerPass _ _ | .repair .rebuild | .drainWrites | .drainMines _
  | .enqueue _ true | .kick => true
  | _ => false

/-- Somebody besides the task at `i` attends to the queue. -/
def Server.AttendedBesides (s : Server) (i : ℕ) : Prop :=
  ∃ t ∈ Tasks.others s.tasks i, t.attends = true

/-- An attendant leaves an empty queue or another attendant, and an entry that is queued without
a kick finds one. -/
def HandsOver (s : Server) : Event → Prop
  | .turn i c =>
      match s.tasks[i]?, c with
      | some (.repair .rebuild), .ends false =>
          s.files.live.getD [] = [] ∨ s.AttendedBesides i
      | some (.drainMines _), .run => s.files.live.getD [] = [] ∨ s.AttendedBesides i
      | some (.drainerPass k _), .run =>
          k = drainerBound → s.files.live.getD [] = [] ∨ s.AttendedBesides i
      | some (.enqueue _ false), .run => s.AttendedBesides i
      | _, _ => True
  | _ => True

/-- No request, no repair and no pass is in progress. -/
def Server.Idle (s : Server) : Prop := ∀ t ∈ s.tasks, ∃ k, t = .drainer k

/-! ### Claims are cleared -/

/-- The places from which a pass still removes `.processing`. -/
def Pc.clears : Pc → Bool
  | .claim | .done | .cancelledInReplay | .cancelledInDelay => false
  | _ => true

section moves

variable {env : Env} {f f' : Files} {p p' : Pass} {c : List Entry}

/-- A pass that no longer removes `.processing` has removed it, or never had it. -/
lemma clears_moves (hm : Moves env f p c f' p') (hcalm : p.cancelling = false)
    (hcalm' : p'.cancelling = false) (hf' : f'.processing ≠ none)
    (hclears : p'.pc.clears = false) : f.processing ≠ none ∧ p.pc.clears = false := by
  cases hm <;> simp_all [Pc.clears]

lemma settle_cancelling (p : Pass) (job : Job) (it : Item) (outcome : Outcome) :
    (p.settle env f job it outcome).2.cancelling = p.cancelling := by
  cases outcome with
  | ok =>
      unfold Pass.settle
      cases job.preMineWitness <;> rfl
  | lockHeld =>
      simp only [Pass.settle]
      split_ifs <;> rfl
  | failed => rfl
  | raised => rfl

/-- Only a cancellation cancels. -/
lemma cancelling_next {a : Act} (ha : a ≠ .cancel) (h : p.next env f a = some (f', p')) :
    p'.cancelling = p.cancelling := by
  cases a with
  | run =>
      have hm := moves_of_step h
      generalize p.claims f .run = c at hm
      cases hm with
      | cancelReplay hpc => simp [Pass.next, Pass.step, hpc] at h
      | cancelDelay hpc => simp [Pass.next, Pass.step, hpc] at h
      | _ => rfl
  | mineEnds outcome =>
      simp only [Pass.next] at h
      split at h
      · rename_i job it hpc hcur
        obtain ⟨-, rfl⟩ : _ = f' ∧ _ = p' := by simpa [Prod.ext_iff] using h
        exact settle_cancelling _ _ _ _
      · simp at h
  | wake =>
      simp only [Pass.next] at h
      split_ifs at h
      obtain ⟨-, rfl⟩ : f = f' ∧ _ = p' := by simpa using h
      rfl
  | cancel => exact absurd rfl ha

end moves

/-! ### The invariant -/

/-- What holds of the daemon throughout a run. -/
structure Server.Attended (s : Server) : Prop where
  /-- Somebody attends to a queue that is not empty. -/
  queue : s.files.live.getD [] ≠ [] → ∃ t ∈ s.tasks, t.attends = true
  /-- The repair in progress has its handler. -/
  flag : ∀ mode, s.repairing = some mode → .repair mode ∈ s.tasks
  /-- `.processing` is removed by a pass that runs. -/
  claim : s.files.processing ≠ none → ∃ t ∈ s.tasks, ∃ p ∈ t.pass, p.pc.clears = true
  calm : ∀ t ∈ s.tasks, ∀ p ∈ t.pass, p.cancelling = false

lemma attendedBesides_of_not {s : Server} {i : ℕ} {t : Task} (h : s.Attended)
    (ht : s.tasks[i]? = some t) (hnot : t.attends = false)
    (hlive : s.files.live.getD [] ≠ []) : s.AttendedBesides i := by
  obtain ⟨u, hu, hattends⟩ := h.queue hlive
  rcases (Tasks.mem_iff ht).1 hu with rfl | hu
  · rw [hnot] at hattends
    cases hattends
  · exact ⟨u, hu, hattends⟩

/-- After a turn somebody attends to the queue, unless it is empty. -/
lemma queue_turn {s : Server} {i : ℕ} {t : Task} {c : Turn} {f : Files} {r : Option RepairMode}
    {ts : List Task} (h : s.Attended) (hok : HandsOver s (.turn i c))
    (ht : s.tasks[i]? = some t) (hgoes : Goes s t c f r ts) (hlive : f.live.getD [] ≠ []) :
    (∃ u ∈ ts, u.attends = true) ∨ s.AttendedBesides i := by
  simp only [HandsOver, ht] at hok
  cases hgoes
  case drainerYields k hflag =>
    -- the rebuild in progress attends to the queue
    rcases (Tasks.mem_iff ht).1 (h.flag .rebuild hflag) with heq | hmem
    · cases heq
    · exact .inr ⟨_, hmem, rfl⟩
  case drainerEnds k p hdone hend =>
    rcases hend with hnone | rfl
    · simp [hnone] at hlive
    · exact .inr ((hok rfl).resolve_left hlive)
  case rebuildFails => exact .inr (hok.resolve_left hlive)
  case repairEnds mode ok hmode =>
    have hnot : (Task.repair mode).attends = false := by
      cases mode <;> first | rfl | exact absurd rfl hmode
    exact .inr (attendedBesides_of_not h ht hnot hlive)
  case drainEnds p hdone => exact .inr (hok.resolve_left hlive)
  case mineQueuesForRebuild e b hflag => exact .inr (attendedBesides_of_not h ht rfl hlive)
  case mineRuns e hflag => exact .inr (attendedBesides_of_not h ht rfl hlive)
  case mineEnds => exact .inr (attendedBesides_of_not h ht rfl hlive)
  case appendsForRebuild e => exact .inr hok
  case kickIdle hany =>
    -- there is a drainer, which is not the kicking request
    obtain ⟨u, hu, hdrainer⟩ := List.any_eq_true.1 hany
    rcases (Tasks.mem_iff ht).1 hu with rfl | hu
    · cases hdrainer
    · refine .inr ⟨u, hu, ?_⟩
      cases u <;> first | rfl | cases hdrainer
  all_goals exact .inl ⟨_, List.mem_singleton.2 rfl, rfl⟩

/-- After a turn `.processing` is gone, or a pass that runs will remove it. -/
lemma claim_turn {s : Server} {i : ℕ} {t : Task} {c : Turn} {f : Files} {r : Option RepairMode}
    {ts : List Task} (h : s.Attended) (ht : s.tasks[i]? = some t) (hgoes : Goes s t c f r ts)
    (hproc : f.processing ≠ none) :
    ∃ u, (u ∈ ts ∨ u ∈ Tasks.others s.tasks i) ∧ ∃ p ∈ u.pass, p.pc.clears = true := by
  have hmem : t ∈ s.tasks := (Tasks.mem_iff ht).2 (.inl rfl)
  -- somebody else clears, when the task itself does not
  have hother : s.files.processing ≠ none → (∀ p ∈ t.pass, p.pc.clears = false) →
      ∃ u, (u ∈ ts ∨ u ∈ Tasks.others s.tasks i) ∧ ∃ p ∈ u.pass, p.pc.clears = true := by
    intro hsome hnot
    obtain ⟨u, hu, p, hp, hclears⟩ := h.claim hsome
    rcases (Tasks.mem_iff ht).1 hu with rfl | hu
    · rw [hnot p hp] at hclears
      cases hclears
    · exact ⟨u, .inr hu, p, hp, hclears⟩
  -- the pass of a task, before and after a move
  have hmove : ∀ {p p' : Pass} {a : Act} {t' : Task}, t.pass = some p → t'.pass = some p' →
      t' ∈ ts → a ≠ .cancel → p.next s.env s.files a = some (f, p') →
      ∃ u, (u ∈ ts ∨ u ∈ Tasks.others s.tasks i) ∧ ∃ p ∈ u.pass, p.pc.clears = true := by
    intro p p' a t' hp hp' ht' ha hnext
    by_cases hclears : p'.pc.clears = true
    · exact ⟨t', .inl ht', p', hp', hclears⟩
    · have hcalm := h.calm t hmem p hp
      have hcalm' := (cancelling_next ha hnext).trans hcalm
      obtain ⟨hsome, hnot⟩ := clears_moves (moves_of_next hnext) hcalm hcalm' hproc
        (by simpa using hclears)
      refine hother hsome fun q hq => ?_
      obtain rfl : p = q := by
        rw [hp] at hq
        exact Option.some.inj hq
      exact hnot
  cases hgoes
  case drainerMoves k p a p' ha hnext => exact hmove rfl rfl (List.mem_singleton.2 rfl) ha hnext
  case drainMoves p a p' ha hnext => exact hmove rfl rfl (List.mem_singleton.2 rfl) ha hnext
  case drainerBegins k hflag => exact ⟨_, .inl (List.mem_singleton.2 rfl), .fresh, rfl, rfl⟩
  case drainBegins => exact ⟨_, .inl (List.mem_singleton.2 rfl), .fresh, rfl, rfl⟩
  case drainerEnds | drainerLoops | drainEnds =>
    refine hother hproc fun q hq => ?_
    obtain rfl := Option.some.inj hq
    simp_all [Pc.clears]
  all_goals exact hother hproc fun q hq => by cases hq

lemma calm_turn {s : Server} {i : ℕ} {t : Task} {c : Turn} {f : Files} {r : Option RepairMode}
    {ts : List Task} (h : s.Attended) (ht : s.tasks[i]? = some t) (hgoes : Goes s t c f r ts) :
    ∀ u ∈ ts, ∀ p ∈ u.pass, p.cancelling = false := by
  have hcalm := h.calm t ((Tasks.mem_iff ht).2 (.inl rfl))
  cases hgoes
  case drainerMoves k p a p' ha hnext =>
    simpa [Task.pass] using (cancelling_next ha hnext).trans (hcalm p rfl)
  case drainMoves p a p' ha hnext =>
    simpa [Task.pass] using (cancelling_next ha hnext).trans (hcalm p rfl)
  all_goals simp [Task.pass, Pass.fresh]

lemma flag_turn {s : Server} {i : ℕ} {t : Task} {c : Turn} {f : Files} {r : Option RepairMode}
    {ts : List Task} (h : s.Attended) (ht : s.tasks[i]? = some t) (hgoes : Goes s t c f r ts)
    {mode : RepairMode} (hr : r = some mode) : .repair mode ∈ Tasks.others s.tasks i := by
  have hmem : s.repairing = some mode → (∀ m, t ≠ .repair m) →
      .repair mode ∈ Tasks.others s.tasks i := by
    intro hflag hne
    rcases (Tasks.mem_iff ht).1 (h.flag mode hflag) with heq | hmem
    · exact absurd heq.symm (hne mode)
    · exact hmem
  cases hgoes
  case rebuilt | rebuildFails | repairEnds => cases hr
  all_goals exact hmem hr (by simp)

lemma attended_turn {s s' : Server} {i : ℕ} {c : Turn} (h : s.Attended)
    (hok : HandsOver s (.turn i c)) (hnext : serverSystem.next s (.turn i c) = some s') :
    s'.Attended := by
  obtain ⟨t, f, r, ts, ht, hgoes, rfl⟩ := goes_of_next hnext
  refine ⟨fun hlive => ?_, fun mode hmode => ?_, fun hproc => ?_, fun u hu => ?_⟩
  · rcases queue_turn h hok ht hgoes hlive with ⟨u, hu, hattends⟩ | ⟨u, hu, hattends⟩
    · exact ⟨u, Tasks.mem_replaceAt.2 (.inl hu), hattends⟩
    · exact ⟨u, Tasks.mem_replaceAt.2 (.inr hu), hattends⟩
  · exact Tasks.mem_replaceAt.2 (.inr (flag_turn h ht hgoes hmode))
  · obtain ⟨u, hu, hclears⟩ := claim_turn h ht hgoes hproc
    exact ⟨u, Tasks.mem_replaceAt.2 hu, hclears⟩
  · rcases Tasks.mem_replaceAt.1 hu with hu | hu
    · exact calm_turn h ht hgoes u hu
    · exact h.calm u (Tasks.mem_of_mem_others ht hu)

/-- A coroutine that starts is in no pass; a repair that starts is the one in progress. -/
lemma attended_arrival {s : Server} {r : Option RepairMode} {t : Task} (h : s.Attended)
    (ht : t.pass = none) (hr : ∀ mode, r = some mode → s.repairing = some mode ∨ t = .repair mode) :
    Server.Attended { s with repairing := r, tasks := s.tasks ++ [t] } := by
  refine ⟨fun hlive => ?_, fun mode hmode => ?_, fun hproc => ?_, fun u hu => ?_⟩
  · obtain ⟨u, hu, hattends⟩ := h.queue hlive
    exact ⟨u, List.mem_append_left _ hu, hattends⟩
  · rcases hr mode hmode with hflag | rfl
    · exact List.mem_append_left _ (h.flag mode hflag)
    · exact List.mem_append_right _ (List.mem_singleton.2 rfl)
  · obtain ⟨u, hu, hclears⟩ := h.claim hproc
    exact ⟨u, List.mem_append_left _ hu, hclears⟩
  · rcases List.mem_append.1 hu with hu | hu
    · exact h.calm u hu
    · obtain rfl := List.mem_singleton.1 hu
      simp [ht]

lemma attended_next {s s' : Server} {ev : Event} (h : s.Attended) (hok : HandsOver s ev)
    (hnext : serverSystem.next s ev = some s') : s'.Attended := by
  cases ev with
  | change env =>
      obtain rfl := Option.some.inj hnext
      exact ⟨h.queue, h.flag, h.claim, h.calm⟩
  | post e background =>
      obtain rfl := Option.some.inj hnext
      exact attended_arrival h rfl fun mode hmode => .inl hmode
  | repair mode =>
      simp only [serverSystem] at hnext
      split_ifs at hnext with hflag
      obtain rfl := Option.some.inj hnext
      refine attended_arrival h rfl fun mode' hmode => .inr ?_
      rw [Option.some.inj hmode]
  | turn i c => exact attended_turn h hok hnext

lemma attended_init {s : Server} (h : serverSystem.init s) : s.Attended := by
  obtain ⟨f, hfiles, hflag, htasks⟩ := h
  have hproc : s.files.processing = none := by
    rw [hfiles, recoverOrphaned]
    split <;> first | assumption | rfl
  refine ⟨fun hlive => ?_, fun mode hmode => ?_, fun hsome => absurd hproc hsome, ?_⟩
  · have hsome : s.files.live ≠ none := by
      intro hnone
      simp [hnone] at hlive
    rw [htasks, if_neg hsome]
    exact ⟨_, List.mem_singleton.2 rfl, rfl⟩
  · rw [hflag] at hmode
    cases hmode
  · rw [htasks]
    split_ifs <;> simp [Task.pass]

/-- Nothing is left to drain, or the background drainer begins a pass at its next turn. -/
def Server.Served (s : Server) : Prop :=
  (s.files.live.getD [] = [] ∧ s.files.processing.getD [] = []) ∨
    ∃ i k s', s.tasks[i]? = some (.drainer k) ∧ serverSystem.next s (.turn i .run) = some s' ∧
      .drainerPass (k + 1) .fresh ∈ s'.tasks

/-- The turn of a drainer between two passes begins one when no repair is in progress. -/
lemma served_of_drainer {s : Server} {k : ℕ} (hmem : .drainer k ∈ s.tasks)
    (hflag : s.repairing = none) : s.Served := by
  obtain ⟨i, hi⟩ := List.mem_iff_getElem?.1 hmem
  refine .inr ⟨i, k, { s with tasks := Tasks.replaceAt s.tasks i [.drainerPass (k + 1) .fresh] },
    hi, ?_, Tasks.mem_replaceAt.2 (.inl (List.mem_singleton.2 rfl))⟩
  simp [serverSystem, hi, Server.turn, hflag]

/-- **No stranded queue.**  In a run in which every attendant that leaves hands over, and every
entry that is queued without a kick finds an attendant, whenever nothing is in progress the
queue and its claim are empty, or the background drainer is about to begin a pass. -/
theorem queue_attended {s : Server} (h : serverSystem.ReachedBy HandsOver s) (hidle : s.Idle) :
    s.Served := by
  have hatt : s.Attended :=
    h.invariant (fun _ => attended_init) fun _ _ _ hs hok => attended_next hs hok
  have hflag : s.repairing = none := by
    cases hmode : s.repairing with
    | none => rfl
    | some mode =>
        obtain ⟨k, hk⟩ := hidle _ (hatt.flag mode hmode)
        cases hk
  have hproc : s.files.processing = none := by
    by_contra hsome
    obtain ⟨t, ht, p, hp, -⟩ := hatt.claim hsome
    obtain ⟨k, rfl⟩ := hidle t ht
    cases hp
  by_cases hlive : s.files.live.getD [] = []
  · exact .inl ⟨hlive, by rw [hproc]; rfl⟩
  · obtain ⟨t, ht, -⟩ := hatt.queue hlive
    obtain ⟨k, rfl⟩ := hidle t ht
    exact served_of_drainer ht hflag

/-! ### A run of each kind -/

/-- The daemon at its start, with nothing in the queue. -/
def startedEmpty : Server where
  env := .plain
  files := ⟨none, none, none, [], []⟩
  repairing := none
  tasks := []

lemma startedEmpty_init : serverSystem.init startedEmpty :=
  ⟨⟨none, none, none, [], []⟩, rfl, rfl, rfl⟩

/-- A background request is queued and kicks the drainer. -/
def backgroundMine : List Event :=
  [.post (.ofDir "/a") true, .turn 0 .run, .turn 0 .run, .turn 0 .run]

/-- The entry of a background request is attended to. -/
theorem queue_attended_background : ∃ s : Server, s.files.live.getD [] = [.ofDir "/a"] ∧
    s.Idle ∧ s.Served := by
  obtain ⟨s, hs, hend⟩ := serverSystem.exists_of_exec_any startedEmpty backgroundMine
    (fun s => decide (s.files.live.getD [] = [.ofDir "/a"] ∧ s.tasks = [.drainer 0])) (by decide)
  obtain ⟨hlive, htasks⟩ := of_decide_eq_true hend
  have hmeets : serverSystem.Meets HandsOver startedEmpty backgroundMine := by
    refine StepSystem.meets_cons.2 ⟨trivial, fun s₁ h₁ => ?_⟩
    obtain rfl := Option.some.inj h₁
    refine StepSystem.meets_cons.2 ⟨trivial, fun s₂ h₂ => ?_⟩
    obtain rfl := Option.some.inj h₂
    refine StepSystem.meets_cons.2 ⟨trivial, fun s₃ h₃ => ?_⟩
    obtain rfl := Option.some.inj h₃
    exact StepSystem.meets_cons.2 ⟨trivial, fun _ _ => trivial⟩
  have hidle : s.Idle := fun t ht => ⟨0, by simpa [htasks] using ht⟩
  exact ⟨s, hlive, hidle, queue_attended (.exec (.init startedEmpty_init) hmeets hs) hidle⟩

/-- A request is queued during a rebuild, and the rebuild fails. -/
def failedRebuild : List Event :=
  [.repair .rebuild, .post (.ofDir "/a") true, .turn 1 .run, .turn 1 .run, .turn 0 (.ends false)]

/-- A rebuild that fails leaves the entries that were queued for it to nobody. -/
theorem queue_attended_fails : ¬ ∀ s : Server, serverSystem.Reachable s → s.Idle → s.Served := by
  intro hserved
  obtain ⟨s, hs, hend⟩ := serverSystem.exists_of_exec_any startedEmpty failedRebuild
    (fun s => decide (s.files.live = some [.ofDir "/a"] ∧ s.tasks = [])) (by decide)
  obtain ⟨hlive, htasks⟩ := of_decide_eq_true hend
  have hidle : s.Idle := fun t ht => by simp [htasks] at ht
  rcases hserved s (.exec (.init startedEmpty_init) hs) hidle with ⟨hempty, -⟩ | ⟨i, k, s', hi, -⟩
  · simp [hlive] at hempty
  · simp [htasks] at hi

end PalaceDaemon.Mines

/-
One pass at a time.

A pass takes `.processing` for its own: it reads the file it finds there as the leavings of a
pass that died, renames the live file onto it and rewrites it at every boundary.  That is right
as long as no two passes run at once.  `_kick_mine_drain` sees to it that there is one
background drainer, and `_loop` begins no pass while a rebuild is in progress.  But the handler
of a rebuild drains without asking whether the drainer is in a pass, and the drainer begins a
pass without asking whether a handler is draining.

`single_pass` says that these two places are the only ones: while no handler begins to drain
during a pass, and the drainer begins none while a handler drains, there is one pass, and its
claim is where it put it.  That there are not two background drainers is no condition:
`oneDrainer_of_reachable` has it of every run.
-/
import PalaceDaemon.Mines.Server

namespace PalaceDaemon.Mines

/-- The places at which a pass has a claim in `.processing`. -/
def Pc.holdsClaim : Pc → Bool
  | .load | .writeOpen _ | .writeLines _ | .loop | .replaying _ | .boundary | .mergeRead
  | .mergeRemove _ | .rebalance _ | .deferOpen | .deferWrite | .failOpen | .failWrite _
  | .requeueOpen | .requeueWrite | .sleeping | .remove => true
  | _ => false

/-- A pass and the files, when nobody else touches `.processing`. -/
structure Pass.Owns (f : Files) (p : Pass) : Prop where
  shape : p.Shape f
  written : p.Written f
  claimed : p.pc.holdsClaim → f.processing ≠ none

lemma owns_fresh (f : Files) : Pass.fresh.Owns f where
  shape := shape_fresh f
  written := written_fresh f
  claimed h := by simp [Pass.fresh, Pc.holdsClaim] at h

section moves

variable {env : Env} {f f' : Files} {p p' : Pass} {c : List Entry}

lemma claimed_moves (hm : Moves env f p c f' p') (h : p.pc.holdsClaim → f.processing ≠ none) :
    p'.pc.holdsClaim → f'.processing ≠ none := by
  cases hm <;> simp_all [Pc.holdsClaim]

lemma owns_moves (hm : Moves env f p c f' p') (h : p.Owns f) : p'.Owns f' where
  shape := shape_moves hm h.shape
  written := written_moves hm h.shape h.written
  claimed := claimed_moves hm h.claimed

/-- An append to the live file leaves a pass its claim. -/
lemma owns_append (h : p.Owns f) (lines : List Entry) : p.Owns (f.append lines) where
  shape := ⟨h.shape.1, h.shape.2, h.shape.3, h.shape.4, h.shape.5⟩
  written := ⟨h.written.1, h.written.2, h.written.3⟩
  claimed := h.claimed

end moves

/-! ### The background drainer -/

/-- There is at most one background drainer. -/
def Server.OneDrainer (s : Server) : Prop := s.tasks.countP Task.isDrainer ≤ 1

/-- A turn that leaves no more drainers than it found. -/
lemma oneDrainer_of_le {s : Server} {i : ℕ} {t : Task} {ts : List Task} (h : s.OneDrainer)
    (ht : s.tasks[i]? = some t)
    (hle : ts.countP Task.isDrainer ≤ if t.isDrainer then 1 else 0) :
    (Tasks.replaceAt s.tasks i ts).countP Task.isDrainer ≤ 1 := by
  have hone : s.tasks.countP Task.isDrainer ≤ 1 := h
  rw [Tasks.countP_eq Task.isDrainer ht] at hone
  rw [Tasks.countP_replaceAt]
  omega

/-- A coroutine that starts is no drainer: only `_kick_mine_drain` starts one. -/
lemma oneDrainer_of_arrival {s : Server} {t : Task} (h : s.OneDrainer)
    (ht : t.isDrainer = false) : (s.tasks ++ [t]).countP Task.isDrainer ≤ 1 := by
  have hone : s.tasks.countP Task.isDrainer ≤ 1 := h
  rw [List.countP_append]
  simpa [ht] using hone

lemma oneDrainer_next {s s' : Server} {ev : Event} (h : s.OneDrainer)
    (hnext : serverSystem.next s ev = some s') : s'.OneDrainer := by
  cases ev with
  | change env =>
      obtain rfl := Option.some.inj hnext
      exact h
  | post e background =>
      obtain rfl := Option.some.inj hnext
      exact oneDrainer_of_arrival h rfl
  | repair mode =>
      simp only [serverSystem] at hnext
      split_ifs at hnext with hflag
      obtain rfl := Option.some.inj hnext
      exact oneDrainer_of_arrival h rfl
  | turn i c =>
      obtain ⟨t, f, r, ts, ht, hgoes, rfl⟩ := goes_of_next hnext
      cases hgoes
      case kickStarts hnone =>
        -- the one turn that starts a drainer: it has seen that there is none
        have hcount : s.tasks.countP Task.isDrainer = 0 :=
          List.countP_eq_zero.2 fun u hu => by simpa using List.any_eq_false.1 hnone u hu
        rw [Tasks.countP_eq Task.isDrainer ht] at hcount
        show (Tasks.replaceAt s.tasks i [Task.drainer 0]).countP Task.isDrainer ≤ 1
        rw [Tasks.countP_replaceAt]
        simp only [List.countP_singleton, Task.isDrainer, if_true]
        omega
      all_goals exact oneDrainer_of_le h ht (by simp [Task.isDrainer])

lemma oneDrainer_of_init {s : Server} (h : serverSystem.init s) : s.OneDrainer := by
  obtain ⟨f, -, -, htasks⟩ := h
  rw [Server.OneDrainer, htasks]
  split_ifs <;> simp [Task.isDrainer]

/-- No two background drainers run, whatever happens. -/
theorem oneDrainer_of_reachable {s : Server} (h : serverSystem.Reachable s) : s.OneDrainer :=
  h.invariant (fun _ hs => oneDrainer_of_init hs) fun _ _ _ hs _ hnext => oneDrainer_next hs hnext

/-! ### The condition -/

/-- The background drainer, in a pass. -/
def Task.drainerInPass : Task → Bool
  | .drainerPass _ p => p.pc ≠ .done
  | _ => false

/-- The handler of a rebuild, in a pass. -/
def Task.handlerInPass : Task → Bool
  | .drainMines p => p.pc ≠ .done
  | _ => false

/-- The turn of a task begins no pass that meets another one: a handler of a rebuild begins to
drain only while neither the background drainer nor another handler is in a pass, and the
background drainer begins a pass only while no handler is in one. -/
def Server.BeginsAlone (s : Server) : Task → Prop
  | .drainWrites => ∀ u ∈ s.tasks, u.drainerInPass = false ∧ u.handlerInPass = false
  | .drainer _ => s.repairing = some .rebuild ∨ ∀ u ∈ s.tasks, u.handlerInPass = false
  | _ => True

/-- The condition on a step. -/
def BeginsAlone (s : Server) : Event → Prop
  | .turn i .run => ∀ t ∈ s.tasks[i]?, s.BeginsAlone t
  | _ => True

instance (s : Server) (t : Task) : Decidable (s.BeginsAlone t) :=
  match t with
  | .drainWrites => inferInstanceAs (Decidable (∀ u ∈ s.tasks, _))
  | .drainer _ => inferInstanceAs (Decidable (_ ∨ _))
  | .drainerPass .. | .repair _ | .drainMines _ | .mine .. | .enqueue .. | .kick | .mineNow =>
      .isTrue trivial

instance (s : Server) (ev : Event) : Decidable (BeginsAlone s ev) :=
  match ev with
  | .turn i .run => inferInstanceAs (Decidable (∀ t ∈ s.tasks[i]?, s.BeginsAlone t))
  | .turn _ (.ends _) | .turn _ (.pass _) | .change _ | .post .. | .repair _ => .isTrue trivial

/-- A running pass is one of the drainer's or one of a handler's. -/
lemma inactive_of_inPass {t : Task} (hd : t.drainerInPass = false)
    (hh : t.handlerInPass = false) : t.active = none := by
  cases t <;> simp_all [Task.active, Task.pass, Task.drainerInPass, Task.handlerInPass]

lemma inactive_of_handlerInPass {t : Task} (hd : t.isDrainer = false)
    (hh : t.handlerInPass = false) : t.active = none := by
  cases t <;> simp_all [Task.active, Task.pass, Task.isDrainer, Task.handlerInPass]

/-! ### The invariant -/

/-- At most one pass runs, and it has its claim. -/
structure Server.Single (s : Server) : Prop where
  one : s.active.length ≤ 1
  owns : ∀ p ∈ s.active, p.Owns s.files

/-- A turn that changes no pass and leaves passes their claims. -/
lemma single_of_idle {s : Server} {i : ℕ} {t : Task} {f : Files} {r : Option RepairMode}
    {ts : List Task} (h : s.Single) (ht : s.tasks[i]? = some t)
    (hts : ts.filterMap Task.active = [])
    (hf : ∀ p : Pass, p.Owns s.files → p.Owns f) :
    Server.Single { s with files := f, repairing := r, tasks := Tasks.replaceAt s.tasks i ts } := by
  have hsub : ∀ p ∈ (Tasks.replaceAt s.tasks i ts).filterMap Task.active, p ∈ s.active := by
    intro p hp
    obtain ⟨u, hu, hup⟩ := List.mem_filterMap.1 hp
    rcases Tasks.mem_replaceAt.1 hu with hu | hu
    · have hmem : p ∈ ts.filterMap Task.active := List.mem_filterMap.2 ⟨u, hu, hup⟩
      rw [hts] at hmem
      cases hmem
    · exact List.mem_filterMap.2 ⟨u, Tasks.mem_of_mem_others ht hu, hup⟩
  refine ⟨?_, fun p hp => hf p (h.owns p (hsub p hp))⟩
  have hone : (s.tasks.filterMap Task.active).length ≤ 1 := h.one
  rw [Tasks.length_filterMap_eq Task.active ht] at hone
  show ((Tasks.replaceAt s.tasks i ts).filterMap Task.active).length ≤ 1
  rw [Tasks.length_filterMap_replaceAt, hts]
  simp only [List.length_nil]
  omega

/-- A turn after which the task is in the only pass. -/
lemma single_of_pass {s : Server} {i : ℕ} {f : Files} {r : Option RepairMode}
    (hothers : (Tasks.others s.tasks i).filterMap Task.active = [])
    {t' : Task} {p : Pass} (ht' : t'.pass = some p) (howns : p.Owns f) :
    Server.Single { s with
      files := f, repairing := r, tasks := Tasks.replaceAt s.tasks i [t'] } := by
  have hactive : ∀ q ∈ t'.active, q = p := by
    intro q hq
    rw [Task.active, ht', Option.mem_def, Option.filter_eq_some_iff] at hq
    exact (Option.some.inj hq.1).symm
  refine ⟨?_, fun q hq => ?_⟩
  · show ((Tasks.replaceAt s.tasks i [t']).filterMap Task.active).length ≤ 1
    rw [Tasks.length_filterMap_replaceAt, hothers, List.length_nil, add_zero]
    exact List.length_filterMap_le _ _
  · obtain ⟨u, hu, huq⟩ := List.mem_filterMap.1 hq
    rcases Tasks.mem_replaceAt.1 hu with hu | hu
    · obtain rfl := List.mem_singleton.1 hu
      obtain rfl := hactive q huq
      exact howns
    · have hmem : q ∈ (Tasks.others s.tasks i).filterMap Task.active :=
        List.mem_filterMap.2 ⟨u, hu, huq⟩
      rw [hothers] at hmem
      cases hmem

/-- When a task is in a running pass, no other one is. -/
lemma others_inactive {s : Server} {i : ℕ} {t : Task} {p : Pass} (h : s.Single)
    (ht : s.tasks[i]? = some t) (hp : t.active = some p) :
    (Tasks.others s.tasks i).filterMap Task.active = [] := by
  have hone : (s.tasks.filterMap Task.active).length ≤ 1 := h.one
  rw [Tasks.length_filterMap_eq Task.active ht, hp] at hone
  apply List.length_eq_zero_iff.1
  simp only [Option.toList_some, List.length_singleton] at hone
  omega

/-- A pass that moves has not returned. -/
lemma not_done_of_moves {env : Env} {f f' : Files} {p p' : Pass} {c : List Entry}
    (hm : Moves env f p c f' p') : p.pc ≠ .done := by
  cases hm <;> simp_all

/-- A handler that begins to drain meets no other pass. -/
lemma others_of_handlerBegins {s : Server} {i : ℕ} (ht : s.tasks[i]? = some .drainWrites)
    (hok : BeginsAlone s (.turn i .run)) :
    (Tasks.others s.tasks i).filterMap Task.active = [] := by
  have halone : ∀ u ∈ s.tasks, u.drainerInPass = false ∧ u.handlerInPass = false := hok _ ht
  refine List.filterMap_eq_nil_iff.2 fun u hu => ?_
  obtain ⟨hd, hh⟩ := halone u (Tasks.mem_of_mem_others ht hu)
  exact inactive_of_inPass hd hh

/-- The drainer that begins a pass meets no other one: there is no other drainer, and no handler
is in a pass. -/
lemma others_of_drainerBegins {s : Server} {i k : ℕ} (hone : s.OneDrainer)
    (ht : s.tasks[i]? = some (.drainer k)) (hflag : s.repairing ≠ some .rebuild)
    (hok : BeginsAlone s (.turn i .run)) :
    (Tasks.others s.tasks i).filterMap Task.active = [] := by
  have halone : ∀ u ∈ s.tasks, u.handlerInPass = false := (hok _ ht).resolve_left hflag
  have hothers : (Tasks.others s.tasks i).countP Task.isDrainer = 0 := by
    have hcount : s.tasks.countP Task.isDrainer ≤ 1 := hone
    rw [Tasks.countP_eq Task.isDrainer ht] at hcount
    simpa [Task.isDrainer] using hcount
  refine List.filterMap_eq_nil_iff.2 fun u hu => ?_
  have hd : u.isDrainer = false := by simpa using List.countP_eq_zero.1 hothers u hu
  exact inactive_of_handlerInPass hd (halone u (Tasks.mem_of_mem_others ht hu))

/-- A move of the pass of a task. -/
lemma single_of_move {s : Server} {i : ℕ} {t t' : Task} {p p' : Pass} {a : Act} {f : Files}
    (h : s.Single) (ht : s.tasks[i]? = some t) (hp : t.pass = some p) (hp' : t'.pass = some p')
    (hmove : p.next s.env s.files a = some (f, p')) :
    Server.Single { s with files := f, tasks := Tasks.replaceAt s.tasks i [t'] } := by
  have hactive : t.active = some p := by
    have hgoes : p.pc ≠ .done := not_done_of_moves (moves_of_next hmove)
    rw [Task.active, hp, Option.filter_some, if_pos (by simpa using hgoes)]
  have hmem : p ∈ s.active :=
    List.mem_filterMap.2 ⟨t, (Tasks.mem_iff ht).2 (.inl rfl), hactive⟩
  exact single_of_pass (others_inactive h ht hactive) hp'
    (owns_moves (moves_of_next hmove) (h.owns p hmem))

lemma single_turn {s s' : Server} {i : ℕ} {c : Turn} (h : s.Single) (hone : s.OneDrainer)
    (hok : BeginsAlone s (.turn i c)) (hnext : serverSystem.next s (.turn i c) = some s') :
    s'.Single := by
  obtain ⟨t, f, r, ts, ht, hgoes, rfl⟩ := goes_of_next hnext
  cases hgoes
  -- the two turns that begin a pass
  case drainerBegins k hflag =>
    exact single_of_pass (others_of_drainerBegins hone ht hflag hok) rfl (owns_fresh _)
  case drainBegins =>
    exact single_of_pass (others_of_handlerBegins ht hok) rfl (owns_fresh _)
  case drainerMoves k p a p' hcancel hmove => exact single_of_move h ht rfl rfl hmove
  case drainMoves p a p' hcancel hmove => exact single_of_move h ht rfl rfl hmove
  case appends e => exact single_of_idle h ht rfl fun p hp => owns_append hp _
  case appendsForRebuild e => exact single_of_idle h ht rfl fun p hp => owns_append hp _
  all_goals exact single_of_idle h ht rfl fun p hp => hp

/-- A coroutine that starts is in no pass. -/
lemma single_of_arrival {s : Server} {r : Option RepairMode} {t : Task} (h : s.Single)
    (ht : t.active = none) : Server.Single { s with repairing := r, tasks := s.tasks ++ [t] } := by
  have hactive : (s.tasks ++ [t]).filterMap Task.active = s.active := by
    rw [List.filterMap_append, List.filterMap_cons_none ht]
    exact List.append_nil _
  refine ⟨?_, fun p hp => h.owns p ?_⟩
  · show ((s.tasks ++ [t]).filterMap Task.active).length ≤ 1
    rw [hactive]
    exact h.one
  · rwa [← hactive]

lemma single_next {s s' : Server} {ev : Event} (h : s.Single) (hone : s.OneDrainer)
    (hok : BeginsAlone s ev) (hnext : serverSystem.next s ev = some s') : s'.Single := by
  cases ev with
  | change env =>
      obtain rfl := Option.some.inj hnext
      exact ⟨h.one, h.owns⟩
  | post e background =>
      obtain rfl := Option.some.inj hnext
      exact single_of_arrival h rfl
  | repair mode =>
      simp only [serverSystem] at hnext
      split_ifs at hnext with hflag
      obtain rfl := Option.some.inj hnext
      exact single_of_arrival h rfl
  | turn i c => exact single_turn h hone hok hnext

lemma single_of_init {s : Server} (h : serverSystem.init s) : s.Single := by
  obtain ⟨f, -, -, htasks⟩ := h
  have hnone : s.active = [] := by
    rw [Server.active, htasks]
    split_ifs <;> rfl
  exact ⟨by simp [hnone], fun p hp => by simp [hnone] at hp⟩

/-- What the claim of a running pass can rely on: no other pass runs, none takes its claim for
an orphan or renames over it, and `.processing` is there and lists what the pass holds. -/
def Server.Exclusive (s : Server) : Prop :=
  s.active.length ≤ 1 ∧
    (∀ p ∈ s.active, p.pc = .recover ∨ p.pc = .claim → ∀ q ∈ s.active, q.pc.holdsClaim = false) ∧
    ∀ p ∈ s.active, (p.pc.holdsClaim → s.files.processing ≠ none) ∧
      (p.pc.quiet → ∀ it ∈ p.owned ++ p.current.toList ++ p.deferred,
        it.line ∈ s.files.processing.getD [])

lemma exclusive_of_single {s : Server} (h : s.Single) : s.Exclusive := by
  refine ⟨h.one, fun p hp hpc q hq => ?_, fun p hp => ⟨(h.owns p hp).claimed,
    (h.owns p hp).written.quiet⟩⟩
  obtain rfl : q = p := Tasks.eq_of_length_le_one h.one hq hp
  rcases hpc with hpc | hpc <;> rw [hpc] <;> rfl

/-- **One pass.**  In a run in which no handler of a rebuild begins to drain during a pass, and
the background drainer begins no pass while a handler drains, at most one pass runs at a time
and its claim is its own. -/
theorem single_pass {s : Server} (h : serverSystem.ReachedBy BeginsAlone s) : s.Exclusive := by
  have hsingle : s.Single := by
    induction h with
    | init hs => exact single_of_init hs
    | step hs hok hnext ih =>
        exact single_next ih (oneDrainer_of_reachable hs.reachable) hok hnext
  exact exclusive_of_single hsingle

/-! ### A run of each kind -/

/-- The daemon at its start, with two requests left in the queue. -/
def startedWithTwo : Server where
  env := .plain
  files := .ofLive [.ofDir "/a", .ofDir "/b"]
  repairing := none
  tasks := [.drainer 0]

lemma startedWithTwo_init : serverSystem.init startedWithTwo :=
  ⟨.ofLive [.ofDir "/a", .ofDir "/b"], rfl, rfl, rfl⟩

/-- The background drainer begins a pass and spawns its first mine. -/
def drainerMines : List Event :=
  .turn 0 .run :: List.replicate 4 (.turn 0 (.pass .run))

/-- A rebuild is accepted during the first mine of the drainer; the drainer ends its pass with
the queue empty; a request that comes during the rebuild is queued; the rebuild succeeds, and
its handler drains. -/
def handlerMines : List Event :=
  drainerMines ++ [Event.repair .rebuild, .turn 0 (.pass (.mineEnds .ok))] ++
    List.replicate 5 (Event.turn 0 (.pass .run)) ++ [Event.turn 0 (.pass (.mineEnds .ok))] ++
    List.replicate 9 (Event.turn 0 (.pass .run)) ++ [Event.turn 0 .run, .post (.ofDir "/c") true] ++
    [Event.turn 1 .run, .turn 1 .run, .turn 0 (.ends true), .turn 0 .run] ++
    List.replicate 4 (Event.turn 0 (.pass .run))

/-- The pass of the drainer is over when the handler begins its own, and the handler alone has
its claim while its mine runs. -/
theorem single_pass_handler :
    ∃ s : Server, (∃ p ∈ s.active, p.pc.holdsClaim) ∧ (∃ t ∈ s.tasks, t.handlerInPass) ∧
      s.Exclusive := by
  have hstart : serverSystem.ReachedBy BeginsAlone startedWithTwo := .init startedWithTwo_init
  obtain ⟨s, hs, hend⟩ := hstart.exists_of_execBy_any handlerMines
    (fun s => decide ((∃ p ∈ s.active, p.pc.holdsClaim) ∧ ∃ t ∈ s.tasks, t.handlerInPass))
    (by decide +kernel)
  obtain ⟨hclaim, hhandler⟩ := of_decide_eq_true hend
  exact ⟨s, hclaim, hhandler, single_pass hs⟩

/-- A rebuild is accepted during the first mine of the drainer, and waits for it to end; the
drainer waits for its next mine while the rebuild has the semaphore; the rebuild succeeds, and
its handler drains. -/
def drainDuringPass : List Event :=
  drainerMines ++ [Event.repair .rebuild, .turn 0 (.pass (.mineEnds .ok))] ++
    List.replicate 5 (Event.turn 0 (.pass .run)) ++ [Event.turn 1 (.ends true), .turn 1 .run] ++
    List.replicate 4 (Event.turn 1 (.pass .run))

/-- The handler of the rebuild recovers the claim of the drainer as an orphan: two passes run,
and the one in the middle of its claim has no `.processing`. -/
theorem single_pass_fails : ¬ ∀ s : Server, serverSystem.Reachable s → s.Exclusive := by
  intro hexclusive
  obtain ⟨s, hs, hend⟩ := serverSystem.exists_of_exec_any startedWithTwo drainDuringPass
    (fun s => decide (s.active.length = 2 ∧ s.files.processing = none ∧
      ∃ p ∈ s.active, p.pc.holdsClaim)) (by decide)
  obtain ⟨htwo, -, -⟩ := of_decide_eq_true hend
  have hone := (hexclusive s (.exec (.init startedWithTwo_init) hs)).1
  omega

end PalaceDaemon.Mines

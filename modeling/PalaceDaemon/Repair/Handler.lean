/-
The `/repair` endpoint.

A handler that is accepted sets `_repair_state`, does the work of its mode, and clears it again.
The sections that set and clear it hold `_repair_lock` and wait for nothing inside, so each is one
step.  Between them the handler waits: for its semaphores, for the half second before a rebuild,
and for worker threads (`RepairMode.awaits`).  Each wait comes to an end (`RepairLabel.resume`), or
raises, or is cancelled there; when a semaphore is free is left to the surroundings.  The thread of
a cancelled handler goes on to its end.

An exception in the body is handled, and clears all but the progress of a rebuild.  A
cancellation is no `Exception`: no handler takes it, and nothing is cleared.  So the state is
exact in the runs without these two (`repair_exact`), while in every run at most one repair is
running (`one_repair`).
-/
import PalaceDaemon.Lib.Json
import PalaceDaemon.Lib.StepSystem
import PalaceDaemon.Repair
import PalaceDaemon.Wings

namespace PalaceDaemon

/-! ### The request -/

/-- The modes by their names. -/
def RepairMode.names : List (List Char × RepairMode) :=
  [("light".toList, .light), ("scan".toList, .scan), ("prune".toList, .prune),
    ("rebuild".toList, .rebuild)]

/-- `(body.get("mode") or "light").lower()`, or the status of the refusal.  A body that is not
JSON counts as an empty one. -/
def requestedMode (body : Option Json) : Except ℕ RepairMode :=
  match (body.getD (.obj [])).getD "mode".toList .null with
  | none => .error 500
  | some v =>
      match if v.truthy then v else .str "light".toList with
      | .str s =>
          match RepairMode.names.lookup (Wings.lower s) with
          | some mode => .ok mode
          | none => .error 400
      | _ => .error 500

/-! ### The body -/

/-- What the body of a repair waits for. -/
inductive Await
  /-- A permit of its semaphore; for a rebuild, all of them. -/
  | permits
  /-- `asyncio.sleep(0.5)` -/
  | sleep
  /-- The thread that does the work. -/
  | work
  /-- The thread of `_warn_if_hnsw_threads_unset`, which raises nothing. -/
  | warning
deriving DecidableEq, Repr

/-- The waits of each mode, in order. -/
def RepairMode.awaits : RepairMode → List Await
  | light => [.permits, .warning]
  | scan => [.permits, .work]
  | prune => [.permits, .work, .warning]
  | rebuild => [.permits, .sleep, .work, .warning]

/-- A worker thread is waited for. -/
def Await.onThread : Await → Bool
  | work | warning => true
  | permits | sleep => false

/-- `_repair_state["progress"]["phase"]` -/
inductive RebuildPhase
  | starting
  | extracting
  | stage
  | refile
  | done
deriving DecidableEq, Repr

/-- `_repair_state` -/
structure RepairState where
  inProgress : Bool
  mode : Option RepairMode
  startedAt : Option String
  progress : Option RebuildPhase
deriving DecidableEq, Repr

/-- `_repair_state` when no repair is in progress. -/
def RepairState.idle : RepairState := ⟨false, none, none, none⟩

/-- Where a handler is. -/
inductive RepairPc
  /-- There is no request of this number yet. -/
  | unborn
  /-- It waits for the first of these. -/
  | body (mode : RepairMode) (todo : List Await)
  /-- `_drain_pending_writes` -/
  | drainWrites
  /-- `_drain_pending_mines` -/
  | drainMines
  | returned
  | refused (status : ℕ)
  | cancelled
deriving DecidableEq, Repr

/-- A handler, and whether its worker thread is running. -/
structure RepairHandler where
  pc : RepairPc
  thread : Bool
deriving DecidableEq, Repr

/-- The repairs of a daemon. -/
structure Repairs where
  state : RepairState
  handler : ℕ → RepairHandler

def Repairs.set (s : Repairs) (i : ℕ) (h : RepairHandler) : Repairs :=
  { s with handler := Function.update s.handler i h }

/-- What can happen next, to the handler `i`. -/
inductive RepairLabel
  | request (i : ℕ) (body : Option Json) (now : String)
  /-- What the handler waits for has come. -/
  | resume (i : ℕ)
  /-- What it waits for, or the code after it, raises. -/
  | raise (i : ℕ)
  | cancel (i : ℕ)
  /-- Its worker thread ends. -/
  | threadEnds (i : ℕ)
  /-- The rebuild prints a line of progress. -/
  | print (i : ℕ) (phase : RebuildPhase)

/-- The end transition, or the next wait of a body that waited for `a`. -/
def Repairs.proceed (s : Repairs) (i : ℕ) (mode : RepairMode) (a : Await) : List Await → Repairs
  | [] => { s with state := .idle }.set i
      ⟨if mode = RepairMode.rebuild then .drainWrites else .returned, false⟩
  | b :: todo =>
      let progress :=
        if mode ≠ .rebuild then s.state.progress
        else if b = .work then some .starting
        else if a = .work then some .done
        else s.state.progress
      { s with state := { s.state with progress := progress } }.set i
        ⟨.body mode (b :: todo), b.onThread⟩

/-- A step of the repairs. -/
def Repairs.next (s : Repairs) : RepairLabel → Option Repairs
  | .request i body now =>
      match (s.handler i).pc with
      | .unborn =>
          match requestedMode body with
          | .error status => some (s.set i ⟨.refused status, false⟩)
          | .ok mode =>
              if s.state.inProgress then some (s.set i ⟨.refused 409, false⟩)
              else some ({ s with state := { s.state with
                inProgress := true, mode := some mode, startedAt := some now } }.set i
                  ⟨.body mode mode.awaits, false⟩)
      | _ => none
  | .resume i =>
      match s.handler i with
      | ⟨.body mode (a :: todo), false⟩ => some (s.proceed i mode a todo)
      | ⟨.drainWrites, thread⟩ => some (s.set i ⟨.drainMines, thread⟩)
      | ⟨.drainMines, thread⟩ => some (s.set i ⟨.returned, thread⟩)
      | _ => none
  | .raise i =>
      match s.handler i with
      | ⟨.body _ (a :: _), false⟩ =>
          if a = .warning then none
          else some ({ s with state := { s.state with
            inProgress := false, mode := none, startedAt := none } }.set i ⟨.refused 500, false⟩)
      | ⟨.drainWrites, thread⟩ => some (s.set i ⟨.refused 500, thread⟩)
      | ⟨.drainMines, thread⟩ => some (s.set i ⟨.refused 500, thread⟩)
      | _ => none
  | .cancel i =>
      match s.handler i with
      | ⟨.body _ _, thread⟩ => some (s.set i ⟨.cancelled, thread⟩)
      | ⟨.drainWrites, thread⟩ => some (s.set i ⟨.cancelled, thread⟩)
      | ⟨.drainMines, thread⟩ => some (s.set i ⟨.cancelled, thread⟩)
      | _ => none
  | .threadEnds i =>
      match s.handler i with
      | ⟨pc, true⟩ => some (s.set i ⟨pc, false⟩)
      | _ => none
  | .print i phase =>
      match s.handler i with
      | ⟨.body .rebuild (.work :: _), true⟩ =>
          some { s with state := { s.state with progress := s.state.progress.map fun _ => phase } }
      | _ => none

/-- The repairs from the start of the daemon. -/
def repairSystem : StepSystem Repairs RepairLabel where
  init s := s.state = .idle ∧ ∀ i, s.handler i = ⟨.unborn, false⟩
  next := Repairs.next

/-! ### One repair at a time -/

/-- The handler is between its start and its end transition. -/
def RepairPc.inBody : RepairPc → Bool
  | .body _ _ => true
  | _ => false

/-- The body of the repair has not stopped, or its worker thread has not. -/
def RepairHandler.running (h : RepairHandler) : Bool := h.pc.inBody || h.thread

section

variable {s s' : Repairs} {i : ℕ} {l : RepairLabel}

@[simp] lemma handler_set_self (h : RepairHandler) : (s.set i h).handler i = h :=
  Function.update_self ..

lemma handler_set_of_ne {j : ℕ} (hj : j ≠ i) (h : RepairHandler) :
    (s.set i h).handler j = s.handler j := Function.update_of_ne hj ..

@[simp] lemma state_set (h : RepairHandler) : (s.set i h).state = s.state := rfl

/-- What a step does: a request is accepted, a wait of a body ends, a body stops, or a handler
that has cleared the state, or never set it, goes on. -/
inductive RepairStep (s : Repairs) : RepairLabel → Repairs → Prop
  | accepted {i body now mode} : (s.handler i).pc = .unborn → s.state.inProgress = false →
      RepairStep s (.request i body now) ({ s with state := { s.state with
        inProgress := true, mode := some mode, startedAt := some now } }.set i
          ⟨.body mode mode.awaits, false⟩)
  | waits {i mode a b todo progress} : s.handler i = ⟨.body mode (a :: b :: todo), false⟩ →
      RepairStep s (.resume i) ({ s with state := { s.state with progress := progress } }.set i
        ⟨.body mode (b :: todo), b.onThread⟩)
  | ends {i mode a pc} : s.handler i = ⟨.body mode [a], false⟩ → pc.inBody = false →
      RepairStep s (.resume i) ({ s with state := .idle }.set i ⟨pc, false⟩)
  | fails {i mode todo} : s.handler i = ⟨.body mode todo, false⟩ →
      RepairStep s (.raise i) ({ s with state := { s.state with
        inProgress := false, mode := none, startedAt := none } }.set i ⟨.refused 500, false⟩)
  | cancelled {i mode todo thread} : s.handler i = ⟨.body mode todo, thread⟩ →
      RepairStep s (.cancel i) (s.set i ⟨.cancelled, thread⟩)
  | outside {i l pc thread} : (s.handler i).pc.inBody = false → pc.inBody = false →
      (thread = true → (s.handler i).thread = true) → RepairStep s l (s.set i ⟨pc, thread⟩)
  | threadEnds {i pc} : s.handler i = ⟨pc, true⟩ →
      RepairStep s (.threadEnds i) (s.set i ⟨pc, false⟩)
  | prints {i phase} {todo : List Await} : s.handler i = ⟨.body .rebuild todo, true⟩ →
      RepairStep s (.print i phase)
        { s with state := { s.state with progress := s.state.progress.map fun _ => phase } }

lemma repairStep_of_next (h : s.next l = some s') : RepairStep s l s' := by
  cases l with
  | request i body now =>
      simp only [Repairs.next] at h
      split at h
      · rename_i hpc
        have houtside : (s.handler i).pc.inBody = false := by rw [hpc]; rfl
        split at h
        · obtain rfl := Option.some.inj h
          exact .outside houtside rfl (by simp)
        · split_ifs at h with hflag
          · obtain rfl := Option.some.inj h
            exact .outside houtside rfl (by simp)
          · obtain rfl := Option.some.inj h
            exact .accepted hpc (by simpa using hflag)
      · cases h
  | resume i =>
      simp only [Repairs.next] at h
      split at h
      · rename_i mode a todo hi
        obtain rfl := Option.some.inj h
        cases todo with
        | nil =>
            refine .ends hi ?_
            split_ifs <;> rfl
        | cons b todo => exact .waits hi
      · rename_i thread hi
        obtain rfl := Option.some.inj h
        exact .outside (by rw [hi]; rfl) rfl (by simp [hi])
      · rename_i thread hi
        obtain rfl := Option.some.inj h
        exact .outside (by rw [hi]; rfl) rfl (by simp [hi])
      · cases h
  | raise i =>
      simp only [Repairs.next] at h
      split at h
      · rename_i mode a todo hi
        split_ifs at h
        obtain rfl := Option.some.inj h
        exact .fails hi
      · rename_i thread hi
        obtain rfl := Option.some.inj h
        exact .outside (by rw [hi]; rfl) rfl (by simp [hi])
      · rename_i thread hi
        obtain rfl := Option.some.inj h
        exact .outside (by rw [hi]; rfl) rfl (by simp [hi])
      · cases h
  | cancel i =>
      simp only [Repairs.next] at h
      split at h
      · rename_i mode todo thread hi
        obtain rfl := Option.some.inj h
        exact .cancelled hi
      · rename_i thread hi
        obtain rfl := Option.some.inj h
        exact .outside (by rw [hi]; rfl) rfl (by simp [hi])
      · rename_i thread hi
        obtain rfl := Option.some.inj h
        exact .outside (by rw [hi]; rfl) rfl (by simp [hi])
      · cases h
  | threadEnds i =>
      simp only [Repairs.next] at h
      split at h
      · rename_i pc hi
        obtain rfl := Option.some.inj h
        exact .threadEnds hi
      · cases h
  | print i phase =>
      simp only [Repairs.next] at h
      split at h
      · rename_i todo hi
        obtain rfl := Option.some.inj h
        exact .prints hi
      · cases h

/-- At most one repair is running, and the state says so. -/
structure Repairs.Single (s : Repairs) : Prop where
  one : ∀ i j, (s.handler i).running = true → (s.handler j).running = true → i = j
  flagged : ∀ i, (s.handler i).running = true → s.state.inProgress = true

/-- A step of a running repair, or of none, that starts no other. -/
lemma single_set (h : s.Single) {hd : RepairHandler}
    (hi : hd.running = true → (s.handler i).running = true) : (s.set i hd).Single := by
  have hrunning : ∀ j, ((s.set i hd).handler j).running = true → (s.handler j).running = true := by
    intro j hj
    by_cases hji : j = i
    · subst hji
      rw [handler_set_self] at hj
      exact hi hj
    · rwa [handler_set_of_ne hji] at hj
  exact ⟨fun j k hj hk => h.one j k (hrunning j hj) (hrunning k hk),
    fun j hj => h.flagged j (hrunning j hj)⟩

/-- The only repair that is running changes the state. -/
lemma single_owner (h : s.Single) (hi : (s.handler i).running = true ∨ s.state.inProgress = false)
    {hd : RepairHandler} {state : RepairState}
    (hstate : hd.running = true → state.inProgress = true) :
    ({ s with state := state }.set i hd).Single := by
  have hother : ∀ j, j ≠ i → (s.handler j).running = false := by
    intro j hj
    by_contra hrunning
    have hrunning : (s.handler j).running = true := by simpa using hrunning
    rcases hi with hi | hi
    · exact hj (h.one j i hrunning hi)
    · simp [h.flagged j hrunning] at hi
  have hself : ∀ j, (({ s with state := state }.set i hd).handler j).running = true →
      j = i ∧ hd.running = true := by
    intro j hj
    by_cases hji : j = i
    · subst hji
      rw [handler_set_self] at hj
      exact ⟨rfl, hj⟩
    · rw [handler_set_of_ne hji] at hj
      simp [hother j hji] at hj
  exact ⟨fun j k hj hk => (hself j hj).1.trans (hself k hk).1.symm,
    fun j hj => hstate (hself j hj).2⟩

lemma single_step (h : s.Single) (hstep : RepairStep s l s') : s'.Single := by
  cases hstep with
  | accepted hpc hflag => exact single_owner h (.inr hflag) fun _ => rfl
  | waits hi =>
      have hrunning := (by rw [hi]; rfl : (s.handler _).running = true)
      exact single_owner h (.inl hrunning) fun _ => h.flagged _ hrunning
  | ends hi hpc =>
      refine single_owner h (.inl (by rw [hi]; rfl)) fun hrunning => ?_
      simp [RepairHandler.running, hpc] at hrunning
  | fails hi =>
      refine single_owner h (.inl (by rw [hi]; rfl)) fun hrunning => ?_
      simp [RepairHandler.running, RepairPc.inBody] at hrunning
  | cancelled hi => exact single_set h fun _ => by rw [hi]; rfl
  | @outside i l pc thread hi hpc hthread =>
      refine single_set h fun hrunning => ?_
      have hrunning : thread = true := by simpa [RepairHandler.running, hpc] using hrunning
      simp [RepairHandler.running, hthread hrunning]
  | threadEnds hi => exact single_set h fun _ => by rw [hi]; simp [RepairHandler.running]
  | prints hi => exact ⟨h.one, h.flagged⟩

lemma single_init (h : repairSystem.init s) : s.Single := by
  have hnot : ∀ i, (s.handler i).running = false := fun i => by rw [h.2 i]; rfl
  exact ⟨fun i j hi => by simp [hnot i] at hi, fun i hi => by simp [hnot i] at hi⟩

lemma single_of_reachable {ok : Repairs → RepairLabel → Prop}
    (h : repairSystem.ReachedBy ok s) : s.Single :=
  h.invariant (fun _ => single_init) fun _ _ _ hs _ hnext =>
    single_step hs (repairStep_of_next hnext)

/-- **One repair.**  In every run at most one repair is running, cancelled or not, and while one is
the state has the flag. -/
theorem one_repair (h : repairSystem.Reachable s) :
    (∀ i j, (s.handler i).running = true → (s.handler j).running = true → i = j) ∧
      ∀ i, (s.handler i).running = true → s.state.inProgress = true :=
  ⟨(single_of_reachable h).one, (single_of_reachable h).flagged⟩

/-! ### The state -/

/-- The state is that of the repair that is running. -/
structure Repairs.Exact (s : Repairs) : Prop where
  one : ∀ i j, (s.handler i).running = true → (s.handler j).running = true → i = j
  flag : s.state.inProgress = true ↔ ∃ i, (s.handler i).running = true
  mode : ∀ i mode todo, (s.handler i).pc = .body mode todo → s.state.mode = some mode
  idle : (∀ i, (s.handler i).running = false) → s.state = .idle

/-- A step that leaves the state exact: no handler is cancelled in its body, and none fails there
once the progress of a rebuild is shown. -/
def Clears (s : Repairs) : RepairLabel → Prop
  | .cancel i => (s.handler i).pc.inBody = false
  | .raise i => (s.handler i).pc.inBody = true → s.state.progress = none
  | _ => True

/-- What holds in runs of such steps. -/
structure Repairs.Tidy (s : Repairs) : Prop where
  single : s.Single
  /-- A worker thread belongs to a body. -/
  threads : ∀ i, (s.handler i).thread = true → (s.handler i).pc.inBody = true
  mode : ∀ i mode todo, (s.handler i).pc = .body mode todo → s.state.mode = some mode
  started : s.state.inProgress = true → ∃ i, (s.handler i).pc.inBody = true
  idle : s.state.inProgress = false → s.state = .idle

/-- A body that stops, or one that begins, is the only one. -/
lemma not_inBody_of_ne {j : ℕ} (h : s.Single)
    (hi : (s.handler i).running = true ∨ s.state.inProgress = false) (hj : j ≠ i) :
    (s.handler j).pc.inBody = false := by
  by_contra hbody
  rw [Bool.not_eq_false] at hbody
  have hrunning : (s.handler j).running = true := by
    simp [RepairHandler.running, hbody]
  rcases hi with hi | hi
  · exact hj (h.one j i hrunning hi)
  · simp [h.flagged j hrunning] at hi

/-- The handler `i` leaves its body or enters it, and the state changes with it. -/
lemma tidy_owner (h : s.Tidy) {hd : RepairHandler} {state : RepairState}
    (hsingle : ({ s with state := state }.set i hd).Single)
    (hi : (s.handler i).running = true ∨ s.state.inProgress = false)
    (hthread : hd.thread = true → hd.pc.inBody = true)
    (hmode : ∀ mode todo, hd.pc = .body mode todo → state.mode = some mode)
    (hstarted : state.inProgress = true → hd.pc.inBody = true)
    (hidle : state.inProgress = false → state = .idle) :
    ({ s with state := state }.set i hd).Tidy := by
  have hself : ∀ j, (({ s with state := state }.set i hd).handler j).pc.inBody = true → j = i := by
    intro j hj
    by_contra hji
    rw [handler_set_of_ne hji] at hj
    simp [not_inBody_of_ne h.single hi hji] at hj
  refine ⟨hsingle, fun j hj => ?_, fun j mode todo hj => ?_, fun hflag => ⟨i, ?_⟩, hidle⟩
  · by_cases hji : j = i
    · subst hji
      rw [handler_set_self] at hj ⊢
      exact hthread hj
    · rw [handler_set_of_ne hji] at hj ⊢
      exact h.threads j hj
  · obtain rfl := hself j (by rw [hj]; rfl)
    rw [handler_set_self] at hj
    exact hmode mode todo hj
  · rw [handler_set_self]
    exact hstarted hflag

lemma tidy_step (h : s.Tidy) (hclears : Clears s l) (hstep : RepairStep s l s') : s'.Tidy := by
  have hsingle := single_step h.single hstep
  cases hstep with
  | accepted hpc hflag =>
      refine tidy_owner h hsingle (.inr hflag) nofun (fun mode todo hmode => ?_) (fun _ => rfl)
        nofun
      rw [(RepairPc.body.inj hmode).1]
  | @waits i mode a b todo progress hi =>
      have hrunning : (s.handler i).running = true := by rw [hi]; rfl
      refine tidy_owner h hsingle (.inl hrunning) (fun _ => rfl) (fun mode' todo' hmode => ?_)
        (fun _ => rfl) (fun hflag => ?_)
      · rw [← (RepairPc.body.inj hmode).1]
        exact h.mode i mode (a :: b :: todo) (by rw [hi])
      · rw [h.single.flagged i hrunning] at hflag
        cases hflag
  | @ends i mode a pc hi hpc =>
      refine tidy_owner h hsingle (.inl (by rw [hi]; rfl)) nofun (fun mode' todo hmode => ?_) nofun
        (fun _ => rfl)
      rw [show pc = .body mode' todo from hmode] at hpc
      cases hpc
  | @fails i mode todo hi =>
      have hnone : s.state.progress = none := hclears (by rw [hi]; rfl)
      refine tidy_owner h hsingle (.inl (by rw [hi]; rfl)) nofun nofun nofun (fun _ => ?_)
      exact congrArg (RepairState.mk false none none) hnone
  | @cancelled i mode todo thread hi =>
      have hbody : (s.handler i).pc.inBody = false := hclears
      rw [hi] at hbody
      cases hbody
  | @outside i l pc thread hi hpc hthread =>
      refine ⟨hsingle, fun j hj => ?_, fun j mode todo hj => ?_, fun hflag => ?_, h.idle⟩
      · by_cases hji : j = i
        · subst hji
          rw [handler_set_self] at hj
          have hbody := h.threads j (hthread hj)
          rw [hi] at hbody
          cases hbody
        · rw [handler_set_of_ne hji] at hj ⊢
          exact h.threads j hj
      · by_cases hji : j = i
        · subst hji
          rw [handler_set_self] at hj
          rw [show pc = .body mode todo from hj] at hpc
          cases hpc
        · rw [handler_set_of_ne hji] at hj
          exact h.mode j mode todo hj
      · obtain ⟨j, hj⟩ := h.started hflag
        have hji : j ≠ i := by
          rintro rfl
          rw [hi] at hj
          cases hj
        exact ⟨j, by rwa [handler_set_of_ne hji]⟩
  | @threadEnds i pc hi =>
      have hpc : ∀ j, ((s.set i ⟨pc, false⟩).handler j).pc = (s.handler j).pc := by
        intro j
        by_cases hji : j = i
        · subst hji
          rw [handler_set_self, hi]
        · rw [handler_set_of_ne hji]
      refine ⟨hsingle, fun j hj => ?_, fun j mode todo hj => ?_, fun hflag => ?_, h.idle⟩
      · rw [hpc]
        by_cases hji : j = i
        · subst hji
          rw [handler_set_self] at hj
          cases hj
        · rw [handler_set_of_ne hji] at hj
          exact h.threads j hj
      · exact h.mode j mode todo (by rwa [← hpc j])
      · obtain ⟨j, hj⟩ := h.started hflag
        exact ⟨j, by rwa [hpc j]⟩
  | @prints i phase todo hi =>
      refine ⟨hsingle, h.threads, h.mode, h.started, fun hflag => ?_⟩
      have hrunning := h.single.flagged i (by rw [hi]; rfl)
      rw [show s.state.inProgress = false from hflag] at hrunning
      cases hrunning

lemma tidy_init (h : repairSystem.init s) : s.Tidy := by
  refine ⟨single_init h, fun i hi => ?_, fun i mode todo hi => ?_, fun hflag => ?_, fun _ => h.1⟩
  · rw [h.2 i] at hi
    cases hi
  · rw [h.2 i] at hi
    cases hi
  · rw [h.1] at hflag
    cases hflag

/-- **Exact.**  In a run in which no handler is cancelled in its body and none fails there once the
progress of a rebuild is shown, at most one repair is running, the flag is set just while one is,
with its mode, and otherwise the state is idle. -/
theorem repair_exact (h : repairSystem.ReachedBy Clears s) : s.Exact := by
  have htidy : s.Tidy := h.invariant (fun _ => tidy_init)
    fun _ _ _ hs hclears hnext => tidy_step hs hclears (repairStep_of_next hnext)
  refine ⟨htidy.single.one, ⟨fun hflag => ?_, ?_⟩, htidy.mode, fun hnone => htidy.idle ?_⟩
  · obtain ⟨i, hi⟩ := htidy.started hflag
    exact ⟨i, by simp [RepairHandler.running, hi]⟩
  · rintro ⟨i, hi⟩
    exact htidy.single.flagged i hi
  · by_contra hflag
    rw [Bool.not_eq_false] at hflag
    obtain ⟨i, hi⟩ := htidy.started hflag
    have hrunning := hnone i
    simp [RepairHandler.running, hi] at hrunning

/-! ### Two rebuilds -/

/-- The body of a request for a rebuild. -/
def rebuildBody : Option Json := some (.obj [("mode".toList, .str "rebuild".toList)])

/-- The repairs when the daemon has started. -/
def Repairs.fresh : Repairs := ⟨.idle, fun _ => ⟨.unborn, false⟩⟩

lemma init_repairsFresh : repairSystem.init Repairs.fresh := ⟨rfl, fun _ => rfl⟩

/-- A rebuild is accepted, and its worker thread has begun. -/
def rebuildRuns : List RepairLabel := [.request 0 rebuildBody "now", .resume 0, .resume 0]

/-- The flag is set while the thread of a rebuild is running. -/
theorem repair_exact_rebuild : ∃ s : Repairs, (s.handler 0).thread = true ∧
    s.state.inProgress = true ∧ s.Exact := by
  obtain ⟨s, hs, hend⟩ := repairSystem.exists_of_exec_any Repairs.fresh rebuildRuns
    (fun s => decide ((s.handler 0).thread = true ∧ s.state.inProgress = true)) (by decide)
  obtain ⟨hthread, hflag⟩ := of_decide_eq_true hend
  have hmeets : repairSystem.Meets Clears Repairs.fresh rebuildRuns :=
    StepSystem.meets_of_forall (fun s l hl => by
      rcases List.mem_cons.1 hl with rfl | hl
      · trivial
      · rcases List.mem_cons.1 hl with rfl | hl
        · trivial
        · obtain rfl := List.mem_singleton.1 hl
          trivial) _
  exact ⟨s, hthread, hflag, repair_exact
    ((StepSystem.ReachedBy.init init_repairsFresh).exec hmeets hs)⟩

/-- The handler of the rebuild is cancelled, and its thread ends. -/
def rebuildCancelled : List RepairLabel := rebuildRuns ++ [.cancel 0, .threadEnds 0]

/-- The flag stays set, although nothing is running. -/
theorem repair_exact_fails : ¬ ∀ s : Repairs, repairSystem.Reachable s → s.Exact := by
  intro hexact
  obtain ⟨s, hs, hend⟩ := repairSystem.exists_of_exec_any Repairs.fresh rebuildCancelled
    (fun s => decide (s.state.inProgress = true ∧ s.handler 0 = ⟨.cancelled, false⟩)) (by decide)
  obtain ⟨hflag, hzero⟩ := of_decide_eq_true hend
  have hreach := StepSystem.Reachable.exec (.init init_repairsFresh) hs
  obtain ⟨i, hi⟩ := (hexact s hreach).flag.1 hflag
  by_cases hne : i = 0
  · subst hne
    rw [hzero] at hi
    cases hi
  · have hother : s.handler i = ⟨.unborn, false⟩ := by
      obtain rfl := Option.some.inj hs
      simp [handler_set_of_ne hne, Repairs.proceed, Repairs.fresh]
    rw [hother] at hi
    cases hi

end

end PalaceDaemon

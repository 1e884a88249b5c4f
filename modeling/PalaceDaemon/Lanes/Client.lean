/-
The one client of a Chroma store.

Two clients that are open on one Chroma path corrupt its log store, whether or not they are in one
process, and the subprocess of a mine opens a client of its own.  A blocking `/mine` therefore
takes the exclusive hold, drops and closes the client of the daemon, runs the subprocess and opens
the client again before it gives the hold back.  The mines of the watcher and of the replays do
not: they take the mine permit and spawn (`sole_client_fails`).

A `Store` adds to the state of the lanes whether the daemon has its client open, which of the
operations are such mines, how far the body of a blocking mine has got, and the subprocesses that
a cancelled one has left behind.  The client is opened by every palace operation at work, and also
past all permits, by `/health` and the watchdog.  `sole_client` says what is left to the
run for a subprocess to be alone.
-/
import PalaceDaemon.Lanes.Exclusion

namespace PalaceDaemon.Lanes

open Semaphore Tasks

/-- How far the body of a blocking mine has got. -/
inductive Stage
  /-- No blocking mine is in its body, or the client is yet to be dropped. -/
  | idle
  /-- The client is closed; the wait of `PALACE_CHROMA_FLUSH_SECONDS`. -/
  | closed
  /-- The subprocess runs. -/
  | running
  /-- About to open the client again. -/
  | over
  /-- About to give the hold back. -/
  | done
deriving DecidableEq, Repr

/-- The daemon over a Chroma backend. -/
structure Store where
  lanes : State
  /-- The daemon has a client open. -/
  client : Bool
  /-- The mines of the watcher and of the replays. -/
  mines : List ℕ
  stage : Stage
  /-- Subprocesses that nobody waits for. -/
  orphans : ℕ

/-- What can happen. -/
inductive StoreLabel
  | lane (l : Label)
  /-- The worker at `j` opens the client. -/
  | opens (j : ℕ)
  /-- A rebuild opens it. -/
  | rebuildOpens
  /-- `/health` or the watchdog opens it. -/
  | probe
  /-- `_drop_chroma_client(close=True)` of a blocking mine -/
  | drop
  /-- It raises. -/
  | dropFails
  /-- The subprocess of a blocking mine is spawned. -/
  | spawn
  /-- It is not, since the wait was cancelled or the spawn failed. -/
  | abort
  /-- The subprocess of a blocking mine exits. -/
  | exit
  /-- A blocking mine is cancelled while its subprocess runs. -/
  | cancel
  /-- The end of a blocking mine opens the client again; `ok` says whether that succeeds. -/
  | reopen (ok : Bool)
  /-- A subprocess that nobody waits for exits. -/
  | orphanExits
deriving DecidableEq, Repr

/-- The body of a blocking mine. -/
def isMineBody (t : Coroutine) : Bool := t.op = .holding false && t.todo.isEmpty

/-- The body of a rebuild. -/
def isRebuildBody (t : Coroutine) : Bool := t.op = .holding true && t.todo.isEmpty

/-- The workers at work whose names are in `p`. -/
def State.atWork (s : State) (p : ℕ → Bool) : ℕ :=
  s.workers.countP fun w => w.status = .running && p w.name

namespace Store

/-- The name is that of a mine of the watcher or of a replay. -/
def mine (s : Store) (name : ℕ) : Bool := decide (name ∈ s.mines)

/-- The subprocesses of mines. -/
def subprocesses (s : Store) : ℕ :=
  s.lanes.atWork s.mine + (if s.stage = .running then 1 else 0) + s.orphans

/-- The palace operations that a worker executes. -/
def executing (s : Store) : ℕ := s.lanes.atWork fun name => !s.mine name

/-- The step ends the body of a blocking mine. -/
def endsMine (s : Store) : Label → Bool
  | .run i => s.lanes.ready[i]?.any isMineBody
  | _ => false

/-- The body of a blocking mine goes on. -/
def goOn (s : Store) (stage stage' : Stage) (client : Bool) : Option Store :=
  if s.stage = stage ∧ s.lanes.ready.any isMineBody then some { s with stage := stage', client }
  else none

/-- A step of the daemon. -/
def next (cfg : Config) (s : Store) : StoreLabel → Option Store
  | .lane l =>
      if s.endsMine l ∧ s.stage ≠ .done then none
      else (s.lanes.step cfg l).map fun lanes => { s with
        lanes
        mines := if l = .arrive .mine then s.lanes.next :: s.mines else s.mines
        stage := if s.endsMine l then .idle else s.stage }
  | .opens j => s.lanes.workers[j]?.bind fun w =>
      if w.status = .running ∧ s.mine w.name = false then some { s with client := true } else none
  | .rebuildOpens =>
      if s.lanes.ready.any isRebuildBody then some { s with client := true } else none
  | .probe => some { s with client := true }
  | .drop => s.goOn .idle .closed false
  | .dropFails => s.goOn .idle .over s.client
  | .spawn => s.goOn .closed .running s.client
  | .abort => s.goOn .closed .over s.client
  | .exit => s.goOn .running .over s.client
  | .cancel => (s.goOn .running .over s.client).map fun s => { s with orphans := s.orphans + 1 }
  | .reopen ok => s.goOn .over .done (s.client || ok)
  | .orphanExits => if 0 < s.orphans then some { s with orphans := s.orphans - 1 } else none

/-- While a mine runs, its subprocess has the only client: there is no second one, the client of
the daemon is closed, and neither a worker nor a rebuild is at work. -/
def SoleClient (s : Store) : Prop :=
  0 < s.subprocesses → s.subprocesses = 1 ∧ s.client = false ∧ s.executing = 0 ∧
    s.lanes.ready.any isRebuildBody = false

end Store

/-- The daemon over a Chroma backend, with its client warmed up or not. -/
def storeSystem (cfg : Config) : StepSystem Store StoreLabel where
  init s := s.lanes = State.fresh cfg ∧ s.mines = [] ∧ s.stage = .idle ∧ s.orphans = 0
  next := Store.next cfg

/-- An exclusive hold is entered when the workers whose callers have gone have finished, a mine of
the watcher or of a replay starts when no client is open and nothing is at work, and nothing
starts beside it; no probe opens the client during a mine or before its spawn, and no mine is
cancelled. -/
def Careful (cfg : Config) (s : Store) : StoreLabel → Prop
  | .lane l => EntersDrained cfg s.lanes l ∧ ∀ j w, l = .start j → s.lanes.workers[j]? = some w →
      s.subprocesses = 0 ∧ (s.mine w.name = true → s.client = false ∧ s.executing = 0)
  | .probe => s.subprocesses = 0 ∧ s.stage ≠ .closed
  | .cancel => False
  | _ => True

variable {cfg : Config} {s s' : State} {t u : Coroutine} {i : ℕ} {p : ℕ → Bool} {w : Worker}

/-! ### What the lanes do to the workers and the bodies -/

lemma isMineBody_iff : isMineBody t = true ↔ t.op = .holding false ∧ t.todo = [] := by
  simp [isMineBody]

lemma isRebuildBody_iff : isRebuildBody t = true ↔ t.op = .holding true ∧ t.todo = [] := by
  simp [isRebuildBody]

lemma inBody_of_mine (h : isMineBody t = true) : inBody t = true :=
  inBody_iff.2 ⟨⟨false, (isMineBody_iff.1 h).1⟩, (isMineBody_iff.1 h).2⟩

lemma inBody_of_rebuild (h : isRebuildBody t = true) : inBody t = true :=
  inBody_iff.2 ⟨⟨true, (isRebuildBody_iff.1 h).1⟩, (isRebuildBody_iff.1 h).2⟩

/-- The worker counts as one at work of `p`. -/
def counted (p : ℕ → Bool) (w : Worker) : Bool := w.status = .running && p w.name

lemma atWork_eq (s : State) (p : ℕ → Bool) : s.atWork p = s.workers.countP (counted p) := rfl

lemma atWork_eq_zero (hidle : ∀ w ∈ s.workers, w.isActive = false) : s.atWork p = 0 := by
  refine List.countP_eq_zero.2 fun w hw => ?_
  have hactive := hidle w hw
  simp only [Worker.isActive, Bool.or_eq_false_iff, decide_eq_false_iff_not] at hactive
  simp [hactive.2]

lemma atWork_pos (hw : w ∈ s.workers) (hrunning : w.status = .running) (hp : p w.name = true) :
    0 < s.atWork p :=
  List.countP_pos_iff.2 ⟨w, hw, by simp [hrunning, hp]⟩

/-- The workers at work after the one at `j` has moved. -/
lemma atWork_setStatus (p : ℕ → Bool) (status : Status) {j : ℕ} (hw : s.workers[j]? = some w) :
    (s.setStatus j w status).atWork p + (if counted p w then 1 else 0) =
      s.atWork p + if counted p { w with status := status } then 1 else 0 := by
  have hold := countP_eq (counted p) hw
  have hnew : (s.setStatus j w status).workers.countP (counted p) = _ :=
    countP_replaceAt (counted p) s.workers j [{ w with status := status }]
  simp only [List.countP_singleton] at hnew
  rw [atWork_eq, atWork_eq, hnew, hold]
  omega

lemma atWork_append (hw : w.status = .queued) (hworkers : s'.workers = s.workers ++ [w]) :
    s'.atWork p = s.atWork p := by
  have hnot : counted p w = false := by simp [counted, hw]
  rw [atWork_eq, atWork_eq, hworkers, List.countP_append, List.countP_singleton, hnot]
  rfl

lemma atWork_cancelQueued (s : State) (name : ℕ) :
    (s.cancelQueued name).atWork p = s.atWork p := by
  rw [atWork_eq, atWork_eq, State.cancelQueued, List.countP_map]
  refine List.countP_congr fun w _ => ?_
  show counted p (if w.name = name ∧ w.status = .queued then _ else w) = true ↔ _
  split_ifs with hcancel
  · simp [counted, hcancel.2]
  · rfl

/-- A worker that does not start to work is not at work afterwards. -/
lemma atWork_setStatus_le {j : ℕ} {status : Status} (hw : s.workers[j]? = some w)
    (hstatus : status ≠ .running) : (s.setStatus j w status).atWork p ≤ s.atWork p := by
  have hmoved := atWork_setStatus p status hw
  have hnot : counted p { w with status := status } = false := by simp [counted, hstatus]
  rw [hnot] at hmoved
  simp only [Bool.false_eq_true, if_false] at hmoved
  omega

/-- A turn leaves the workers as they are or adds one that is queued. -/
lemma atWork_turn (h : s.turn cfg i t = some s') : s'.atWork p = s.atWork p := by
  simp only [State.turn] at h
  by_cases htodo : t.todo ≠ []
  · rw [if_pos htodo] at h
    obtain rfl := Option.some.inj h
    rfl
  · rw [if_neg htodo] at h
    cases hop : t.op with
    | work repair =>
        rw [hop] at h
        obtain rfl := Option.some.inj h
        exact atWork_append rfl rfl
    | call l retry =>
        simp only [hop] at h
        split_ifs at h <;> obtain rfl := Option.some.inj h
        · rfl
        · exact atWork_append rfl rfl
    | silentSave =>
        simp only [hop] at h
        split_ifs at h <;> obtain rfl := Option.some.inj h
        · rfl
        · exact atWork_append rfl rfl
    | awaiting repair retry | exclusive rebuild =>
        simp only [hop] at h
        split_ifs at h
        obtain rfl := Option.some.inj h
        rfl
    | clearCaches | enqueuing | holding rebuild | clearing =>
        rw [hop] at h
        obtain rfl := Option.some.inj h
        rfl

/-- Only a worker that starts is at work and was not. -/
lemma atWork_le_step {a : Label} (h : s.step cfg a = some s') (ha : ∀ j, a ≠ .start j) :
    s'.atWork p ≤ s.atWork p := by
  cases a with
  | start j => exact absurd rfl (ha j)
  | arrive a =>
      simp only [State.step] at h
      split at h <;> obtain rfl := Option.some.inj h <;> exact le_rfl
  | run i =>
      obtain ⟨t, ht, h⟩ := Option.bind_eq_some_iff.1 h
      exact (atWork_turn h).le
  | refuse i =>
      obtain ⟨t, ht, h⟩ := Option.bind_eq_some_iff.1 h
      split at h
      · split_ifs at h
        obtain rfl := Option.some.inj h
        rw [release_eq]
        exact le_rfl
      · cases h
  | retry i =>
      obtain ⟨t, ht, h⟩ := Option.bind_eq_some_iff.1 h
      split at h
      · split_ifs at h
        obtain rfl := Option.some.inj h
        exact (atWork_append rfl rfl).le
      · cases h
  | leave i =>
      obtain ⟨t, ht, h⟩ := Option.bind_eq_some_iff.1 h
      split at h
      · obtain rfl := Option.some.inj h
        exact le_rfl
      · obtain rfl := Option.some.inj h
        exact (atWork_cancelQueued s t.name).le
      · cases h
  | abandon x k =>
      obtain ⟨t, ht, h⟩ := Option.bind_eq_some_iff.1 h
      split at h
      · obtain rfl := Option.some.inj h
        exact le_rfl
      · cases h
  | deadline i =>
      obtain ⟨t, ht, h⟩ := Option.bind_eq_some_iff.1 h
      split at h
      · split_ifs at h
        obtain rfl := Option.some.inj h
        exact le_rfl
      · cases h
  | finish j =>
      obtain ⟨w, hw, h⟩ := Option.bind_eq_some_iff.1 h
      split_ifs at h
      obtain rfl := Option.some.inj h
      exact atWork_setStatus_le hw (by simp)
  | callback j =>
      obtain ⟨w, hw, h⟩ := Option.bind_eq_some_iff.1 h
      split_ifs at h
      split at h <;> obtain rfl := Option.some.inj h
      · exact atWork_setStatus_le hw (by simp)
      · rw [release_eq]
        exact atWork_setStatus_le hw (by simp)

lemma mem_depart {repair : Bool} (hu : u ∈ others s.ready i) :
    u ∈ (s.depart i t repair).ready :=
  List.mem_append_left _ (mem_replaceAt.2 (.inr hu))

/-- The turn of a coroutine leaves the other ones that are ready. -/
lemma mem_turn (h : s.turn cfg i t = some s') (hu : u ∈ others s.ready i) : u ∈ s'.ready := by
  have hreplaced : ∀ ts, u ∈ replaceAt s.ready i ts := fun ts => mem_replaceAt.2 (.inr hu)
  simp only [State.turn] at h
  by_cases htodo : t.todo ≠ []
  · rw [if_pos htodo] at h
    obtain rfl := Option.some.inj h
    exact hreplaced _
  · rw [if_neg htodo] at h
    cases hop : t.op with
    | work repair =>
        rw [hop] at h
        obtain rfl := Option.some.inj h
        exact hreplaced _
    | call l retry =>
        simp only [hop] at h
        split_ifs at h <;> obtain rfl := Option.some.inj h
        · exact mem_depart hu
        · exact hreplaced _
    | silentSave =>
        simp only [hop] at h
        split_ifs at h <;> obtain rfl := Option.some.inj h <;> exact hreplaced _
    | awaiting repair retry =>
        simp only [hop] at h
        split_ifs at h
        obtain rfl := Option.some.inj h
        exact mem_depart hu
    | exclusive rebuild =>
        simp only [hop] at h
        split_ifs at h
        obtain rfl := Option.some.inj h
        exact hreplaced _
    | clearCaches | enqueuing | holding rebuild | clearing =>
        rw [hop] at h
        obtain rfl := Option.some.inj h
        exact mem_depart hu

/-- A body goes on until it has its turn. -/
lemma body_stays {a : Label} (h : s.step cfg a = some s') (hu : u ∈ s.ready)
    (hbody : inBody u = true) (ha : ∀ i, a = .run i → s.ready[i]? ≠ some u) : u ∈ s'.ready := by
  obtain ⟨⟨rebuild, hholding⟩, -⟩ := inBody_iff.1 hbody
  -- a coroutine at another place of its operation is another one
  have hother : ∀ {i t}, s.ready[i]? = some t → t.op ≠ .holding rebuild →
      u ∈ others s.ready i := by
    intro i t ht hop
    refine ((mem_iff ht).1 hu).resolve_left ?_
    rintro rfl
    exact hop hholding
  cases a with
  | arrive a =>
      simp only [State.step] at h
      split at h <;> obtain rfl := Option.some.inj h
      · exact hu
      · exact List.mem_append_left _ hu
  | run i =>
      obtain ⟨t, ht, h⟩ := Option.bind_eq_some_iff.1 h
      refine mem_turn h (((mem_iff ht).1 hu).resolve_left ?_)
      rintro rfl
      exact ha i rfl ht
  | refuse i =>
      obtain ⟨t, ht, h⟩ := Option.bind_eq_some_iff.1 h
      split at h
      · rename_i hop
        split_ifs at h
        obtain rfl := Option.some.inj h
        rw [release_eq]
        exact mem_depart (hother ht (by simp [hop]))
      · cases h
  | retry i =>
      obtain ⟨t, ht, h⟩ := Option.bind_eq_some_iff.1 h
      split at h
      · rename_i hop
        split_ifs at h
        obtain rfl := Option.some.inj h
        exact mem_replaceAt.2 (.inr (hother ht (by simp [hop])))
      · cases h
  | leave i =>
      obtain ⟨t, ht, h⟩ := Option.bind_eq_some_iff.1 h
      split at h
      · rename_i hop
        obtain rfl := Option.some.inj h
        exact mem_depart (hother ht (by simp [hop]))
      · rename_i hop
        obtain rfl := Option.some.inj h
        exact mem_depart (hother ht (by simp [hop]))
      · cases h
  | deadline i =>
      obtain ⟨t, ht, h⟩ := Option.bind_eq_some_iff.1 h
      split at h
      · rename_i hop
        split_ifs at h
        obtain rfl := Option.some.inj h
        exact mem_depart (hother ht (by simp [hop]))
      · cases h
  | abandon x k =>
      obtain ⟨t, ht, h⟩ := Option.bind_eq_some_iff.1 h
      split at h
      · obtain rfl := Option.some.inj h
        exact hu
      · cases h
  | start j | finish j =>
      obtain ⟨w, hw, h⟩ := Option.bind_eq_some_iff.1 h
      split_ifs at h
      obtain rfl := Option.some.inj h
      exact hu
  | callback j =>
      obtain ⟨w, hw, h⟩ := Option.bind_eq_some_iff.1 h
      split_ifs at h
      split at h <;> obtain rfl := Option.some.inj h
      · exact hu
      · rw [release_eq]
        exact hu

/-- Two bodies are one. -/
lemma body_unique (htakes : cfg.TakesAll) (hregular : Regular cfg s) (ht : t ∈ s.ready)
    (hbody : inBody t = true) (hu : u ∈ s.ready) (hbody' : inBody u = true) : u = t := by
  by_contra hne
  have hheld := held_nil_of_inBody htakes hregular ht hbody hu hne
  have hcount := count_of_inBody (x := .mine) (hregular.fits u hu) hbody'
  rw [Task.count, hheld, List.count_nil] at hcount
  simp at hcount

/-! ### Runs -/

variable {st st' : Store}

lemma lane_next {l : Label} (h : st.next cfg (.lane l) = some st') :
    ∃ lanes, st.lanes.step cfg l = some lanes ∧ st' = { st with
      lanes
      mines := if l = .arrive .mine then st.lanes.next :: st.mines else st.mines
      stage := if st.endsMine l then .idle else st.stage } := by
  simp only [Store.next, Option.ite_none_left_eq_some] at h
  obtain ⟨lanes, hstep, rfl⟩ := Option.map_eq_some_iff.1 h.2
  exact ⟨lanes, hstep, rfl⟩

lemma goOn_eq {stage stage' : Stage} {client : Bool}
    (h : st.goOn stage stage' client = some st') :
    st.stage = stage ∧ (∃ t ∈ st.lanes.ready, isMineBody t = true) ∧
      st' = { st with stage := stage', client } := by
  simp only [Store.goOn, Option.ite_none_right_eq_some, List.any_eq_true] at h
  obtain ⟨⟨hstage, hbody⟩, hsome⟩ := h
  exact ⟨hstage, hbody, (Option.some.inj hsome).symm⟩

/-- The lanes move by themselves. -/
lemma lanes_next {l : StoreLabel} (h : st.next cfg l = some st') :
    st'.lanes = st.lanes ∨ ∃ a, l = .lane a ∧ st.lanes.step cfg a = some st'.lanes := by
  cases l with
  | lane a =>
      obtain ⟨lanes, hstep, rfl⟩ := lane_next h
      exact .inr ⟨a, rfl, hstep⟩
  | opens j =>
      obtain ⟨w, -, h⟩ := Option.bind_eq_some_iff.1 h
      split_ifs at h
      obtain rfl := Option.some.inj h
      exact .inl rfl
  | rebuildOpens | orphanExits =>
      simp only [Store.next] at h
      split_ifs at h
      obtain rfl := Option.some.inj h
      exact .inl rfl
  | probe =>
      obtain rfl := Option.some.inj h
      exact .inl rfl
  | drop | dropFails | spawn | abort | exit | reopen =>
      obtain ⟨-, -, rfl⟩ := goOn_eq h
      exact .inl rfl
  | cancel =>
      obtain ⟨st₁, hgo, rfl⟩ := Option.map_eq_some_iff.1 h
      obtain ⟨-, -, rfl⟩ := goOn_eq hgo
      exact .inl rfl

/-- The lanes enter their exclusive holds drained. -/
lemma lanes_reachedBy (h : (storeSystem cfg).ReachedBy (Careful cfg) st) :
    (laneSystem cfg).ReachedBy (EntersDrained cfg) st.lanes := by
  induction h with
  | init hinit =>
      rw [hinit.1]
      exact .init rfl
  | step _ hok hnext ih =>
      rcases lanes_next hnext with hsame | ⟨a, rfl, hstep⟩
      · rw [hsame]
        exact ih
      · exact ih.step hok.1 hstep

/-- What every careful run keeps. -/
structure Store.Kept (st : Store) : Prop where
  body : st.stage ≠ .idle → ∃ t ∈ st.lanes.ready, isMineBody t = true
  closed : st.stage = .closed ∨ st.stage = .running → st.client = false
  orphans : st.orphans = 0
  single : st.lanes.atWork st.mine ≤ 1
  alone : 0 < st.lanes.atWork st.mine → st.client = false ∧ st.executing = 0

/-- What is known of the lanes when every hold takes all permits and is entered drained. -/
structure Alone (cfg : Config) (s : State) : Prop where
  takes : (∃ t ∈ s.ready, inBody t = true) → cfg.TakesAll
  regular : Regular cfg s
  known : ∀ w ∈ s.workers, w.name < s.next
  excludes : s.Excludes

lemma alone_of_reachedBy
    (hcfg : cfg.readSlots ≤ cfg.maxRead → cfg.writeSlots ≤ cfg.maxWrite → cfg.TakesAll)
    (h : (laneSystem cfg).ReachedBy (EntersDrained cfg) s) : Alone cfg s := by
  obtain ⟨hread, hwrite, -, -⟩ := count_exclusivePlan cfg
  have hregular := regular_of_reachable h.reachable
  have htakes : (∃ t ∈ s.ready, inBody t = true) → cfg.TakesAll := by
    rintro ⟨t, ht, hbody⟩
    have hreads := plan_le_of_inBody hregular ht hbody .read
    have hwrites := plan_le_of_inBody hregular ht hbody .write
    exact hcfg (hread ▸ hreads) (hwrite ▸ hwrites)
  exact ⟨htakes, hregular, (attached_of_reachable h.reachable).known,
    fun t ht hbody => excludes_of_takesAll (htakes ⟨t, ht, hbody⟩) h t ht hbody⟩

/-- During a body no worker is at work. -/
lemma Alone.atWork_eq_zero (h : Alone cfg s) (ht : t ∈ s.ready) (hbody : inBody t = true)
    (p : ℕ → Bool) : s.atWork p = 0 :=
  Lanes.atWork_eq_zero (h.excludes t ht hbody).1

lemma Alone.no_rebuild (h : Alone cfg s) (ht : t ∈ s.ready) (hbody : isMineBody t = true) :
    s.ready.any isRebuildBody = false := by
  have hin := inBody_of_mine hbody
  refine List.any_eq_false.2 fun u hu hrebuild => ?_
  obtain rfl := body_unique (h.takes ⟨t, ht, hin⟩) h.regular ht hin hu (inBody_of_rebuild hrebuild)
  cases (isMineBody_iff.1 hbody).1.symm.trans (isRebuildBody_iff.1 hrebuild).1

lemma soleClient_of_kept (halone : Alone cfg st.lanes) (h : st.Kept) : st.SoleClient := by
  intro hpos
  rw [Store.subprocesses, h.orphans] at hpos ⊢
  by_cases hrunning : st.stage = .running
  · obtain ⟨t, ht, hbody⟩ := h.body (by simp [hrunning])
    have hzero := halone.atWork_eq_zero ht (inBody_of_mine hbody)
    refine ⟨?_, h.closed (.inr hrunning), hzero _, halone.no_rebuild ht hbody⟩
    rw [hzero, if_pos hrunning]
  · rw [if_neg hrunning] at hpos ⊢
    obtain ⟨hclient, hexecuting⟩ := h.alone hpos
    have hsingle := h.single
    refine ⟨by omega, hclient, hexecuting, ?_⟩
    refine List.any_eq_false.2 fun u hu hrebuild => ?_
    have hzero := halone.atWork_eq_zero hu (inBody_of_rebuild hrebuild) st.mine
    omega

/-- The worker of a mine has its name from the arrival of the mine. -/
lemma atWork_lane {l : Label} (hknown : ∀ w ∈ st.lanes.workers, w.name < st.lanes.next)
    (h : st.next cfg (.lane l) = some st') (hl : ∀ j, l ≠ .start j) (f : Bool → Bool) :
    (st'.lanes.atWork fun name => f (st'.mine name)) ≤
      st.lanes.atWork fun name => f (st.mine name) := by
  obtain ⟨lanes, hstep, rfl⟩ := lane_next h
  by_cases harrive : l = .arrive .mine
  · subst harrive
    obtain rfl := Option.some.inj hstep
    refine le_of_eq (List.countP_congr fun w hw => ?_)
    have hne : w.name ≠ st.lanes.next := (hknown w hw).ne
    simp [Store.mine, hne]
  · have hle := atWork_le_step (p := fun name => f (st.mine name)) hstep hl
    simpa [Store.mine, harrive] using hle

/-- The worker that starts is at work. -/
lemma atWork_start {j : ℕ} (h : st.next cfg (.lane (.start j)) = some st') :
    st'.mine = st.mine ∧ ∃ w, st.lanes.workers[j]? = some w ∧
      ∀ p, st'.lanes.atWork p = st.lanes.atWork p + if p w.name then 1 else 0 := by
  obtain ⟨lanes, hstep, rfl⟩ := lane_next h
  obtain ⟨w, hw, hstep⟩ := Option.bind_eq_some_iff.1 hstep
  rw [Option.ite_none_right_eq_some] at hstep
  obtain ⟨hqueued, hsome⟩ := hstep
  obtain rfl := Option.some.inj hsome
  refine ⟨rfl, w, hw, fun p => ?_⟩
  have hmoved := atWork_setStatus p .running hw
  simpa [counted, hqueued] using hmoved

lemma kept_lane {l : Label} (halone : Alone cfg st.lanes) (h : st.Kept)
    (hok : Careful cfg st (.lane l)) (hnext : st.next cfg (.lane l) = some st') : st'.Kept := by
  have hbody : st'.stage ≠ .idle → st'.stage = st.stage ∧
      ∃ t ∈ st'.lanes.ready, isMineBody t = true := by
    obtain ⟨lanes, hstep, rfl⟩ := lane_next hnext
    intro hstage
    by_cases hends : st.endsMine l = true
    · simp [hends] at hstage
    · simp only [hends, Bool.false_eq_true, if_false] at hstage ⊢
      obtain ⟨t, ht, hmine⟩ := h.body hstage
      refine ⟨trivial, t, body_stays hstep ht (inBody_of_mine hmine) ?_, hmine⟩
      rintro i rfl hi
      exact hends (by simp [Store.endsMine, hi, hmine])
  have hframe : st'.client = st.client ∧ st'.orphans = st.orphans := by
    obtain ⟨lanes, -, rfl⟩ := lane_next hnext
    exact ⟨rfl, rfl⟩
  have hclosed : st'.stage = .closed ∨ st'.stage = .running → st'.client = false := by
    intro hstage
    have hsame := (hbody (by rcases hstage with hstage | hstage <;> simp [hstage])).1
    rw [hframe.1]
    exact h.closed (hsame ▸ hstage)
  refine ⟨fun hstage => (hbody hstage).2, hclosed, hframe.2.trans h.orphans, ?_, ?_⟩
  all_goals by_cases hstart : ∃ j, l = .start j
  · obtain ⟨j, rfl⟩ := hstart
    obtain ⟨hmine, w, hw, hstarted⟩ := atWork_start hnext
    have hnone := (hok.2 j w rfl hw).1
    rw [hmine, hstarted]
    simp only [Store.subprocesses] at hnone
    split_ifs <;> omega
  · have hle := atWork_lane halone.known hnext (by simpa using hstart) id
    exact hle.trans h.single
  · obtain ⟨j, rfl⟩ := hstart
    obtain ⟨hmine, w, hw, hstarted⟩ := atWork_start hnext
    obtain ⟨hnone, hsole⟩ := hok.2 j w rfl hw
    simp only [Store.subprocesses] at hnone
    intro hpos
    rw [hmine, hstarted] at hpos
    -- no mine was at work, so it is one that starts
    have hself : st.mine w.name = true := by
      by_contra hnot
      rw [if_neg hnot] at hpos
      omega
    obtain ⟨hclient, hexecuting⟩ := hsole hself
    refine ⟨hframe.1.trans hclient, ?_⟩
    rw [Store.executing] at hexecuting ⊢
    rw [hmine, hstarted, hexecuting, hself]
    rfl
  · intro hpos
    have hle := atWork_lane halone.known hnext (by simpa using hstart) id
    have hexecuting := atWork_lane halone.known hnext (by simpa using hstart) not
    obtain ⟨hclient, hzero⟩ := h.alone (hpos.trans_le hle)
    exact ⟨hframe.1.trans hclient, Nat.le_zero.1 (hexecuting.trans_eq hzero)⟩

/-- In the body of a blocking mine nothing else is at work. -/
lemma kept_goOn {stage stage' : Stage} {client : Bool} (halone : Alone cfg st.lanes)
    (h : st.Kept) (hgo : st.goOn stage stage' client = some st')
    (hclient : stage' = .closed ∨ stage' = .running → client = false) : st'.Kept := by
  obtain ⟨-, ⟨t, ht, hbody⟩, rfl⟩ := goOn_eq hgo
  have hzero := halone.atWork_eq_zero ht (inBody_of_mine hbody) st.mine
  refine ⟨fun _ => ⟨t, ht, hbody⟩, hclient, h.orphans, h.single, fun hpos => ?_⟩
  exact absurd hzero (Nat.pos_iff_ne_zero.1 hpos)

/-- The client may be opened when no mine runs or is about to be spawned. -/
lemma kept_open (h : st.Kept) (hstage : st.stage ≠ .closed ∧ st.stage ≠ .running)
    (hnone : st.lanes.atWork st.mine = 0) : { st with client := true }.Kept :=
  ⟨h.body, fun hbefore => absurd hbefore (not_or.2 hstage), h.orphans, h.single,
    fun hpos => absurd hnone (Nat.pos_iff_ne_zero.1 hpos)⟩

/-- What executes a palace operation does so when no mine runs or is about to be spawned. -/
lemma idle_of_active (halone : Alone cfg st.lanes) (h : st.Kept)
    (hactive : ∃ w ∈ st.lanes.workers, w.isActive = true) :
    st.stage ≠ .closed ∧ st.stage ≠ .running := by
  obtain ⟨w, hw, hactive⟩ := hactive
  have hidle : st.stage = .idle := by
    by_contra hstage
    obtain ⟨t, ht, hbody⟩ := h.body hstage
    rw [(halone.excludes t ht (inBody_of_mine hbody)).1 w hw] at hactive
    cases hactive
  simp [hidle]

lemma kept_next {l : StoreLabel} (halone : Alone cfg st.lanes) (h : st.Kept)
    (hok : Careful cfg st l) (hnext : st.next cfg l = some st') : st'.Kept := by
  cases l with
  | lane l => exact kept_lane halone h hok hnext
  | opens j =>
      obtain ⟨w, hw, hnext⟩ := Option.bind_eq_some_iff.1 hnext
      rw [Option.ite_none_right_eq_some] at hnext
      obtain ⟨⟨hrunning, hother⟩, hsome⟩ := hnext
      obtain rfl := Option.some.inj hsome
      have hmem := List.mem_of_getElem? hw
      refine kept_open h (idle_of_active halone h ⟨w, hmem, by simp [Worker.isActive, hrunning]⟩) ?_
      by_contra hpos
      have hexecuting := (h.alone (Nat.pos_of_ne_zero hpos)).2
      have hwork : 0 < st.executing := atWork_pos hmem hrunning (by simp [hother])
      omega
  | rebuildOpens =>
      simp only [Store.next, Option.ite_none_right_eq_some, List.any_eq_true] at hnext
      obtain ⟨⟨u, hu, hrebuild⟩, hsome⟩ := hnext
      obtain rfl := Option.some.inj hsome
      have hin := inBody_of_rebuild hrebuild
      have hidle : st.stage = .idle := by
        by_contra hstage
        obtain ⟨t, ht, hbody⟩ := h.body hstage
        have hnone := List.any_eq_false.1 (halone.no_rebuild ht hbody) u hu
        exact hnone hrebuild
      exact kept_open h (by simp [hidle]) (halone.atWork_eq_zero hu hin _)
  | probe =>
      obtain rfl := Option.some.inj hnext
      obtain ⟨hnone, hclosed⟩ := hok
      simp only [Store.subprocesses] at hnone
      refine kept_open h ⟨hclosed, fun hrunning => ?_⟩ (by omega)
      rw [if_pos hrunning] at hnone
      omega
  | drop => exact kept_goOn halone h hnext fun _ => rfl
  | dropFails | abort | exit | reopen => exact kept_goOn halone h hnext (by simp)
  | spawn => exact kept_goOn halone h hnext fun _ => h.closed (.inl (goOn_eq hnext).1)
  | cancel => exact absurd hok id
  | orphanExits =>
      simp only [Store.next, h.orphans, lt_irrefl, if_false] at hnext
      cases hnext

lemma kept_of_reachedBy
    (hcfg : cfg.readSlots ≤ cfg.maxRead → cfg.writeSlots ≤ cfg.maxWrite → cfg.TakesAll)
    (h : (storeSystem cfg).ReachedBy (Careful cfg) st) : st.Kept := by
  induction h with
  | init hinit =>
      obtain ⟨hlanes, hmines, hstage, horphans⟩ := hinit
      have hzero : ∀ p, State.atWork (State.fresh cfg) p = 0 := fun _ => rfl
      refine ⟨fun hbody => absurd hstage hbody, by simp [hstage], horphans, ?_, ?_⟩
      · rw [hlanes, hzero]
        exact Nat.zero_le 1
      · rw [hlanes, hzero]
        exact fun hpos => absurd hpos (lt_irrefl 0)
  | step hreached hok hnext ih =>
      exact kept_next (alone_of_reachedBy hcfg (lanes_reachedBy hreached)) ih hok hnext

/-- **Single client.**  For settings with which the exclusive hold, if it can be had at all, takes
every read and every write permit, in every careful run the subprocess of a mine has the only
client of the store while it runs, and no palace operation is at work. -/
theorem sole_client
    (hcfg : cfg.readSlots ≤ cfg.maxRead → cfg.writeSlots ≤ cfg.maxWrite → cfg.TakesAll)
    (h : (storeSystem cfg).ReachedBy (Careful cfg) st) : st.SoleClient :=
  soleClient_of_kept (alone_of_reachedBy hcfg (lanes_reachedBy h)) (kept_of_reachedBy hcfg h)

/-- The store with the client warmed up. -/
def Store.warm (cfg : Config) : Store := ⟨State.fresh cfg, true, [], .idle, 0⟩

lemma init_warm (cfg : Config) : (storeSystem cfg).init (Store.warm cfg) := ⟨rfl, rfl, rfl, rfl⟩

/-- Without workers a step of the lanes is careful. -/
lemma careful_of_idle {l : Label} (hl : ∀ j, l ≠ .start j)
    (h : ∀ s', st.lanes.step cfg l = some s' → s'.workers = []) : Careful cfg st (.lane l) :=
  ⟨drained_of_idle h, fun j _ hstart => absurd hstart (hl j)⟩

/-- A blocking mine. -/
def blockingMine : List StoreLabel :=
  [.lane (.arrive .mineExclusive), .lane (.run 0), .lane (.run 0), .drop, .spawn]

theorem sole_client_blocking : ∃ st,
    (storeSystem Config.default).ReachedBy (Careful Config.default) st ∧
      st.subprocesses = 1 ∧ st.SoleClient := by
  obtain ⟨st, hexec, hend⟩ := StepSystem.exists_of_exec_any (storeSystem Config.default)
    (Store.warm Config.default) blockingMine (fun st => decide (st.subprocesses = 1)) (by decide)
  have hmeets : (storeSystem Config.default).Meets (Careful Config.default)
      (Store.warm Config.default) blockingMine := by
    refine ⟨careful_of_idle (by simp) fun s' hs' => ?_, fun st₁ h₁ => ?_⟩
    · obtain rfl := Option.some.inj hs'
      rfl
    obtain rfl := Option.some.inj h₁
    refine ⟨careful_of_idle (by simp) fun s' hs' => ?_, fun st₂ h₂ => ?_⟩
    · obtain rfl := Option.some.inj hs'
      rfl
    obtain rfl := Option.some.inj h₂
    refine ⟨careful_of_idle (by simp) fun s' hs' => ?_, ?_⟩
    · obtain rfl := Option.some.inj hs'
      rfl
    exact fun _ _ => ⟨trivial, fun _ _ => ⟨trivial, fun _ _ => trivial⟩⟩
  have hreached := (StepSystem.ReachedBy.init (init_warm Config.default)).exec hmeets hexec
  exact ⟨st, hreached, of_decide_eq_true hend, sole_client (fun _ _ => ⟨rfl, rfl⟩) hreached⟩

/-- The watcher mines beside the open client. -/
def watcherMine : List StoreLabel :=
  [.lane (.arrive .mine), .lane (.run 0), .lane (.run 0), .lane (.start 0)]

theorem sole_client_fails : ∃ st, (storeSystem Config.default).Reachable st ∧
    ¬ st.SoleClient := by
  obtain ⟨st, hexec, hend⟩ := StepSystem.exists_of_exec_any (storeSystem Config.default)
    (Store.warm Config.default) watcherMine
    (fun st => decide (0 < st.subprocesses) && st.client) (by decide)
  rw [Bool.and_eq_true, decide_eq_true_eq] at hend
  refine ⟨st, .exec (.init (init_warm _)) hexec, fun hsole => ?_⟩
  rw [(hsole hend.1).2.1] at hend
  cases hend.2

end PalaceDaemon.Lanes

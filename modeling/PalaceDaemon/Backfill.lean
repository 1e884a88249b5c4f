/-
The backfill of the graph, as a subprocess of the daemon.

`backfill_age` starts a task, unless the task of an earlier request is under way, and the task runs
the subprocess and keeps the end of its output.  A step of `backfillSystem` is what a request, its
task or its subprocess does between two points where the daemon may do something else.

There is one task at a time, but a task that fails as it reads leaves its subprocess behind, and
that is the only way to have two of them (`one_backfill`).  What `backfill_age_status` shows of the
output are the last lines of the last run, and its error is that of the last run that failed, unless
the exception had no text (`status_shows`).  Its reasons for the drawers that are not processed
leave some out if the checkpoint table is empty (`sum_reasons_iff`).

The arguments of the command and the authentication are left out.
-/
import Mathlib
import PalaceDaemon.Lib.StepSystem
import PalaceDaemon.Lib.Threads

namespace PalaceDaemon.Backfill

abbrev Text := List Char

/-! ### The run -/

/-- The subprocess of a task. -/
inductive Proc
  | none
  | running
  | exited (code : ℤ)
deriving DecidableEq

/-- How a task ends. -/
inductive Ending
  | done
  /-- An exception, and its text. -/
  | failed (error : Text)
  /-- `CancelledError`, which is no `Exception`. -/
  | cancelled
deriving DecidableEq

/-- `str(e)` of the exception, if there was one -/
def Ending.error : Ending → Option Text
  | .failed error => some error
  | _ => none

/-- Where the request and its task are. -/
inductive Stage
  | idle
  | refused
  /-- The task has not created the subprocess. -/
  | spawning
  /-- `async for line in proc.stdout` -/
  | reading
  /-- `proc.wait()` -/
  | waiting
  | ended (how : Ending)
deriving DecidableEq

/-- A request, with the lines its task has read. -/
structure Request where
  stage : Stage
  proc : Proc
  lines : List Text

/-- The task is under way. -/
def Stage.active : Stage → Bool
  | .spawning => true
  | .reading => true
  | .waiting => true
  | _ => false

/-- `_backfill_state`, and `active_mines`.  The source does not keep which request came last, and
how the tasks ended, the latest first. -/
structure RunState where
  inProgress : Bool
  startedAt : Option ℚ
  outputLines : List Text
  returncode : Option ℤ
  error : Option Text
  activeMines : Finset ℕ
  last : Option ℕ
  endings : List (ℕ × Ending)

abbrev State := Threads RunState Request

/-- The last elements of a list. -/
def lastOf {α : Type*} (n : ℕ) (xs : List α) : List α := xs.drop (xs.length - n)

/-- A line is appended to the output; of more than 200 lines the last 100 are kept. -/
def keepLine (output : List Text) (line : Text) : List Text :=
  if 200 < (output ++ [line]).length then lastOf 100 (output ++ [line]) else output ++ [line]

/-- `recent_output` of `backfill_age_status` -/
def recentOutput (r : RunState) : List Text := lastOf 10 r.outputLines

/-- `error` of `backfill_age_status`, if it is there -/
def shownError (r : RunState) : Option Text := r.error.filter (· ≠ [])

inductive Label
  /-- `POST /backfill-age`; `postgres` and `dsn` say what the configuration has. -/
  | post (i : ℕ) (postgres dsn : Bool) (now : ℚ)
  /-- `create_subprocess_exec` returns, or raises with the text. -/
  | spawn (i : ℕ) (raised : Option Text)
  /-- A line is read and decoded, or this raises. -/
  | line (i : ℕ) (read : Except Text Text)
  /-- The output is at its end. -/
  | eof (i : ℕ)
  /-- The subprocess exits. -/
  | exit (i : ℕ) (code : ℤ)
  /-- `proc.wait()` returns. -/
  | reap (i : ℕ)
  | cancel (i : ℕ)

/-- The `finally` of `_run_backfill` -/
def State.finish (s : State) (i : ℕ) (how : Ending) : State :=
  s.move i { s.shared with
      inProgress := false
      error := how.error.or s.shared.error
      activeMines := s.shared.activeMines.erase i
      endings := (i, how) :: s.shared.endings }
    { s.own i with stage := .ended how }

/-- `backfill_age` up to the task -/
def State.post (s : State) (i : ℕ) (postgres dsn : Bool) (now : ℚ) : State :=
  if !postgres || s.shared.inProgress || !dsn then
    s.move i s.shared { s.own i with stage := .refused }
  else
    s.move i { s.shared with
        inProgress := true, startedAt := some now, outputLines := [], last := some i }
      { s.own i with stage := .spawning }

/-- A step of a request, its task or its subprocess. -/
def State.next (s : State) : Label → Option State
  | .post i postgres dsn now =>
      if (s.own i).stage = .idle then some (s.post i postgres dsn now) else none
  | .spawn i raised =>
      if (s.own i).stage = .spawning then some (match raised with
        | some error => s.finish i (.failed error)
        | none => s.move i { s.shared with activeMines := insert i s.shared.activeMines }
            { s.own i with stage := .reading, proc := .running })
      else none
  | .line i read =>
      if (s.own i).stage = .reading then some (match read with
        | .error error => s.finish i (.failed error)
        | .ok line =>
            s.move i { s.shared with outputLines := keepLine s.shared.outputLines line }
              { s.own i with lines := (s.own i).lines ++ [line] })
      else none
  | .eof i =>
      if (s.own i).stage = .reading then
        some (s.move i s.shared { s.own i with stage := .waiting })
      else none
  | .exit i code =>
      if (s.own i).proc = .running then
        some (s.move i s.shared { s.own i with proc := .exited code })
      else none
  | .reap i => match (s.own i).stage, (s.own i).proc with
      | .waiting, .exited code => some (State.finish
          { s with shared := { s.shared with returncode := some code } } i .done)
      | _, _ => none
  | .cancel i => if (s.own i).stage.active then some (s.finish i .cancelled) else none

/-- The daemon begins without a run. -/
def backfillSystem : StepSystem State Label where
  init s := s.shared = ⟨false, none, [], none, none, ∅, none, []⟩ ∧
    ∀ i, s.own i = ⟨.idle, .none, []⟩
  next := State.next

/-! ### The output -/

/-- The output that is kept of the lines of a run. -/
structure Kept (output lines : List Text) : Prop where
  suffix : output <:+ lines
  enough : min 100 lines.length ≤ output.length
  length_le : output.length ≤ 200

lemma lastOf_suffix {α : Type*} (n : ℕ) (xs : List α) : lastOf n xs <:+ xs := List.drop_suffix _ _

lemma length_lastOf {α : Type*} (n : ℕ) (xs : List α) : (lastOf n xs).length = min n xs.length := by
  rw [lastOf, List.length_drop]
  omega

/-- The last elements of a list are those of its end, if this has so many. -/
lemma lastOf_of_suffix {α : Type*} {n : ℕ} {xs ys : List α} (h : xs <:+ ys)
    (hlength : min n ys.length ≤ xs.length) : lastOf n xs = lastOf n ys := by
  have hle := h.length_le
  have heq : (lastOf n xs).length = (lastOf n ys).length := by
    rw [length_lastOf, length_lastOf]
    omega
  have hsuffix := List.suffix_of_suffix_length_le ((lastOf_suffix n xs).trans h)
    (lastOf_suffix n ys) heq.le
  exact hsuffix.eq_of_length heq

lemma Kept.nil : Kept [] [] := ⟨List.suffix_rfl, by simp, by simp⟩

lemma Kept.keepLine {output lines : List Text} (h : Kept output lines) (line : Text) :
    Kept (keepLine output line) (lines ++ [line]) := by
  have hsuffix : output ++ [line] <:+ lines ++ [line] := List.suffix_append_self_iff.2 h.suffix
  have henough := h.enough
  rw [Backfill.keepLine]
  split_ifs with hlong
  · refine ⟨(lastOf_suffix _ _).trans hsuffix, ?_, ?_⟩
    · rw [length_lastOf]
      simp only [List.length_append, List.length_singleton] at hlong ⊢
      omega
    · rw [length_lastOf]
      omega
  · refine ⟨hsuffix, ?_, Nat.not_lt.1 hlong⟩
    simp only [List.length_append, List.length_singleton]
    omega

/-! ### One run at a time -/

/-- The task ended with an exception. -/
def Request.Failed (q : Request) : Prop := ∃ error, q.stage = .ended (.failed error)

/-- The task ended without its subprocess. -/
def Request.Left (q : Request) : Prop := q.Failed ∨ q.stage = .ended .cancelled

/-- What holds of each request. -/
structure Fits (r : RunState) (i : ℕ) (q : Request) : Prop where
  current : q.stage.active = true → r.inProgress = true ∧ r.last = some i
  tracked : i ∈ r.activeMines ↔ q.stage = .reading ∨ q.stage = .waiting
  running : q.proc = .running → q.stage = .reading ∨ q.stage = .waiting ∨ q.Left
  lines : r.last = some i → Kept r.outputLines q.lines
  fresh : q.stage = .idle → q.lines = [] ∧ q.proc = .none
  spawning : q.stage = .spawning → q.lines = [] ∧ q.proc = .none

/-- What holds in every run. -/
structure Inv (s : State) : Prop where
  fits : ∀ i, Fits s.shared i (s.own i)
  progress : s.shared.inProgress = true → ∃ i, (s.own i).stage.active = true
  error : s.shared.error = s.shared.endings.findSome? fun e => e.2.error
  endings : ∀ i how, (i, how) ∈ s.shared.endings ↔ (s.own i).stage = .ended how

lemma Inv.unique {s : State} (h : Inv s) {i j : ℕ} (hi : (s.own i).stage.active = true)
    (hj : (s.own j).stage.active = true) : i = j :=
  Option.some.inj (((h.fits i).current hi).2.symm.trans ((h.fits j).current hj).2)

lemma ne_ended_of_active {stage : Stage} (h : stage.active = true) (how : Ending) :
    stage ≠ .ended how := by
  rintro rfl
  cases h

/-- A step at which no task ends. -/
lemma mem_endings_move {s : State} (h : ∀ i how, (i, how) ∈ s.shared.endings ↔
    (s.own i).stage = .ended how) {i : ℕ} {r : RunState} {q : Request}
    (hr : r.endings = s.shared.endings)
    (hq : ∀ how, q.stage = .ended how ↔ (s.own i).stage = .ended how) (j : ℕ) (how : Ending) :
    (j, how) ∈ (s.move i r q).shared.endings ↔ ((s.move i r q).own j).stage = .ended how := by
  rw [Threads.shared_move, hr, h]
  by_cases hji : j = i
  · subst hji
    rw [Threads.own_move_self, hq]
  · rw [Threads.own_move_of_ne hji]

/-- A task that ends leaves the state to the next one. -/
lemma Inv.finish {s : State} (h : Inv s) {i : ℕ} (hactive : (s.own i).stage.active = true)
    {how : Ending} (hdone : how = .done → (s.own i).proc ≠ .running) : Inv (s.finish i how) := by
  refine ⟨?_, fun hno => absurd hno Bool.false_ne_true, ?_, ?_⟩
  · refine Threads.forall_move h.fits ?_ fun j hj hfits => ?_
    · refine ⟨fun hno => absurd hno Bool.false_ne_true, ?_, fun hrunning => ?_, (h.fits i).lines,
        by simp, by simp⟩
      · simp
      · cases how with
        | done => exact absurd hrunning (hdone rfl)
        | failed error => exact .inr (.inr (.inl ⟨error, rfl⟩))
        | cancelled => exact .inr (.inr (.inr rfl))
    · refine ⟨fun hactive' => absurd (h.unique hactive' hactive) hj, ?_, hfits.running, hfits.lines,
        hfits.fresh, hfits.spawning⟩
      rw [Finset.mem_erase]
      exact ⟨fun hmem => hfits.tracked.1 hmem.2, fun hstage => ⟨hj, hfits.tracked.2 hstage⟩⟩
  · -- the exception of this task, or else of the last one before it that had one
    rw [State.finish, Threads.shared_move, List.findSome?_cons, ← h.error]
    cases how.error <;> rfl
  · intro j how'
    rw [State.finish, Threads.shared_move, List.mem_cons, Prod.mk.injEq, h.endings]
    by_cases hji : j = i
    · subst hji
      simp only [Threads.own_move_self, Stage.ended.injEq, true_and,
        ne_ended_of_active hactive how', or_false]
      exact eq_comm
    · rw [Threads.own_move_of_ne hji]
      exact or_iff_right fun heq => hji heq.1

/-- A step of a task that goes on, or of its subprocess. -/
lemma Inv.goOn {s : State} (h : Inv s) {i : ℕ} {r : RunState} {q : Request}
    (hactive : q.stage.active = (s.own i).stage.active)
    (hended : ∀ how, q.stage = .ended how ↔ (s.own i).stage = .ended how) (hself : Fits r i q)
    (hothers : ∀ j, j ≠ i → Fits s.shared j (s.own j) → Fits r j (s.own j))
    (hprogress : r.inProgress = s.shared.inProgress) (herror : r.error = s.shared.error)
    (hendings : r.endings = s.shared.endings) : Inv (s.move i r q) := by
  refine ⟨Threads.forall_move h.fits hself hothers, fun hin => ?_, ?_,
    mem_endings_move h.endings hendings hended⟩
  · refine Threads.exists_move (P := fun _ (q : Request) => q.stage.active = true)
      (h.progress ?_) fun hi => ?_
    · rw [← hprogress]
      exact hin
    · rw [hactive]
      exact hi
  · rw [Threads.shared_move, herror, hendings, h.error]

/-- A request that is refused changes nothing, and one that is not begins a run. -/
lemma Inv.post {s : State} {i : ℕ} (h : Inv s) (hidle : (s.own i).stage = .idle)
    (postgres dsn : Bool) (now : ℚ) : Inv (s.post i postgres dsn now) := by
  obtain ⟨hlines, hproc⟩ := (h.fits i).fresh hidle
  rw [State.post]
  split_ifs with hrefused
  · refine h.goOn (by rw [hidle]; rfl) (by simp [hidle]) ?_ (fun j _ hj => hj) rfl rfl rfl
    have hfits := h.fits i
    refine ⟨by simp [Stage.active], ?_, by simp [hproc], hfits.lines, by simp, by simp⟩
    rw [hfits.tracked, hidle]
    simp
  · -- the flag is clear, so no other task is under way and the output may be emptied
    have hfree : s.shared.inProgress = false := by
      simp only [Bool.or_eq_true, not_or, Bool.not_eq_true] at hrefused
      exact hrefused.1.2
    refine ⟨Threads.forall_move h.fits ?_ fun j hj hfits => ?_, fun _ => ?_, h.error,
      mem_endings_move h.endings rfl (by simp [hidle])⟩
    · refine ⟨fun _ => ⟨rfl, rfl⟩, ?_, by simp [hproc], fun _ => ?_, by simp,
        fun _ => ⟨hlines, hproc⟩⟩
      · rw [(h.fits i).tracked, hidle]
        simp
      · rw [hlines]
        exact Kept.nil
    · refine ⟨fun hactive => ?_, hfits.tracked, hfits.running, fun hlast => ?_, hfits.fresh,
        hfits.spawning⟩
      · exact absurd (hfree.symm.trans (hfits.current hactive).1) Bool.false_ne_true
      · exact absurd (Option.some.inj hlast).symm hj
    · exact ⟨i, by rw [Threads.own_move_self]; rfl⟩

lemma Inv.next {s s' : State} {l : Label} (h : Inv s) (hnext : s.next l = some s') : Inv s' := by
  cases l with
  | post i postgres dsn now =>
      obtain ⟨hidle, hsome⟩ := Option.ite_none_right_eq_some.1 hnext
      exact Option.some.inj hsome ▸ h.post hidle postgres dsn now
  | spawn i raised =>
      obtain ⟨hstage, hsome⟩ := Option.ite_none_right_eq_some.1 hnext
      obtain rfl := Option.some.inj hsome
      have hactive : (s.own i).stage.active = true := by rw [hstage]; rfl
      cases raised with
      | some error => exact h.finish hactive (by simp)
      | none =>
          have hfits := h.fits i
          refine h.goOn (by rw [hactive]; rfl) (by simp [hstage]) ?_ (fun j hj hfits => ?_) rfl rfl
            rfl
          · exact ⟨fun _ => hfits.current hactive, by simp, fun _ => .inl rfl, hfits.lines, by simp,
              by simp⟩
          · refine ⟨hfits.current, ?_, hfits.running, hfits.lines, hfits.fresh, hfits.spawning⟩
            rw [Finset.mem_insert, hfits.tracked]
            exact or_iff_right hj
  | line i read =>
      obtain ⟨hstage, hsome⟩ := Option.ite_none_right_eq_some.1 hnext
      obtain rfl := Option.some.inj hsome
      have hactive : (s.own i).stage.active = true := by rw [hstage]; rfl
      cases read with
      | error error => exact h.finish hactive (by simp)
      | ok line =>
          have hfits := h.fits i
          have hlast := (hfits.current hactive).2
          refine h.goOn rfl (fun _ => Iff.rfl) ?_ (fun j hj hfits => ?_) rfl rfl rfl
          · exact ⟨hfits.current, hfits.tracked, hfits.running,
              fun _ => (hfits.lines hlast).keepLine line, by simp [hstage], by simp [hstage]⟩
          · refine ⟨hfits.current, hfits.tracked, hfits.running, fun hlast' => ?_, hfits.fresh,
              hfits.spawning⟩
            exact absurd (Option.some.inj (hlast'.symm.trans hlast)) hj
  | eof i =>
      obtain ⟨hstage, hsome⟩ := Option.ite_none_right_eq_some.1 hnext
      obtain rfl := Option.some.inj hsome
      have hactive : (s.own i).stage.active = true := by rw [hstage]; rfl
      have hfits := h.fits i
      refine h.goOn (by rw [hactive]; rfl) (by simp [hstage]) ?_ (fun j _ hj => hj) rfl rfl rfl
      refine ⟨fun _ => hfits.current hactive, ?_, fun _ => .inr (.inl rfl), hfits.lines, by simp,
        by simp⟩
      rw [hfits.tracked, hstage]
      simp
  | exit i code =>
      obtain ⟨hrunning, hsome⟩ := Option.ite_none_right_eq_some.1 hnext
      obtain rfl := Option.some.inj hsome
      have hfits := h.fits i
      refine h.goOn rfl (fun _ => Iff.rfl) ?_ (fun j _ hj => hj) rfl rfl rfl
      -- the subprocess may exit at any time, also when its task has left it
      have hproc : (s.own i).proc ≠ .none := by
        rw [hrunning]
        simp
      exact ⟨hfits.current, hfits.tracked, by simp, hfits.lines,
        fun hidle => absurd (hfits.fresh hidle).2 hproc,
        fun hspawning => absurd (hfits.spawning hspawning).2 hproc⟩
  | reap i =>
      rw [State.next] at hnext
      split at hnext
      · next code hstage hproc =>
          obtain rfl := Option.some.inj hnext
          have hactive : (s.own i).stage.active = true := by rw [hstage]; rfl
          -- the return code is in none of the facts
          have h' : Inv { s with shared := { s.shared with returncode := some code } } :=
            ⟨fun j => ⟨(h.fits j).current, (h.fits j).tracked, (h.fits j).running, (h.fits j).lines,
              (h.fits j).fresh, (h.fits j).spawning⟩, h.progress, h.error, h.endings⟩
          refine h'.finish hactive fun _ => ?_
          rw [hproc]
          simp
      · cases hnext
  | cancel i =>
      obtain ⟨hactive, hsome⟩ := Option.ite_none_right_eq_some.1 hnext
      obtain rfl := Option.some.inj hsome
      exact h.finish hactive (by simp)

lemma inv_of_reachable {s : State} (h : backfillSystem.Reachable s) : Inv s := by
  refine StepSystem.ReachedBy.invariant (fun s hs => ?_) (fun s l s' hinv _ hnext =>
    hinv.next hnext) h
  obtain ⟨hshared, hown⟩ := hs
  refine ⟨fun i => ?_, by simp [hshared], by simp [hshared], by simp [hshared, hown]⟩
  rw [hshared, hown i]
  exact ⟨by simp [Stage.active], by simp, by simp, by simp, by simp, by simp⟩

/-- **One subprocess.**  If two subprocesses run at the same time, one of them was left by its task,
which had failed or was cancelled, and the shutdown of the daemon does not know it. -/
theorem one_backfill {s : State} (h : backfillSystem.Reachable s) {i j : ℕ} (hij : i ≠ j)
    (hi : (s.own i).proc = .running) (hj : (s.own j).proc = .running) :
    ((s.own i).Left ∧ i ∉ s.shared.activeMines) ∨ ((s.own j).Left ∧ j ∉ s.shared.activeMines) := by
  have hinv := inv_of_reachable h
  -- a subprocess is read or was left
  have hcases : ∀ k, (s.own k).proc = .running → (s.own k).stage.active = true ∨
      ((s.own k).Left ∧ k ∉ s.shared.activeMines) := by
    intro k hk
    have hfits := hinv.fits k
    by_cases htracked : k ∈ s.shared.activeMines
    · rcases hfits.tracked.1 htracked with hstage | hstage <;>
      · rw [hstage]
        exact .inl rfl
    · rw [hfits.tracked, not_or] at htracked
      have hleft := ((hfits.running hk).resolve_left htracked.1).resolve_left htracked.2
      exact .inr ⟨hleft, by rw [hfits.tracked, not_or]; exact htracked⟩
  rcases hcases i hi with hactive | hleft
  · rcases hcases j hj with hactive' | hleft
    · exact absurd (hinv.unique hactive hactive') hij
    · exact .inr hleft
  · exact .inl hleft

/-- A subprocess that was left because a line could not be decoded, and the next one. -/
theorem one_backfill_left : ∃ s, backfillSystem.Reachable s ∧
    (s.own 0).proc = .running ∧ (s.own 1).proc = .running ∧
    (((s.own 0).Left ∧ 0 ∉ s.shared.activeMines) ∨
      ((s.own 1).Left ∧ 1 ∉ s.shared.activeMines)) := by
  obtain ⟨s, hexec, hend⟩ := backfillSystem.exists_of_exec_any
    ⟨⟨false, none, [], none, none, ∅, none, []⟩, fun _ => ⟨.idle, .none, []⟩⟩
    [Label.post 0 true true 0, .spawn 0 none, .line 0 (.error "decode".toList), .post 1 true true 1,
      .spawn 1 none]
    (fun s => (s.own 0).proc = .running ∧ (s.own 1).proc = .running) (by decide +kernel)
  have hreachable : backfillSystem.Reachable s :=
    StepSystem.Reachable.exec (.init ⟨rfl, fun _ => rfl⟩) hexec
  obtain ⟨h0, h1⟩ := of_decide_eq_true hend
  exact ⟨s, hreachable, h0, h1, one_backfill hreachable (by decide) h0 h1⟩

/-- The text of the last run that failed. -/
def LastError (endings : List (ℕ × Ending)) (error : Text) : Prop :=
  ∃ later i earlier, endings = later ++ (i, .failed error) :: earlier ∧
    ∀ e ∈ later, e.2.error = none

lemma findSome?_eq_some_iff {endings : List (ℕ × Ending)} {error : Text} :
    endings.findSome? (fun e => e.2.error) = some error ↔ LastError endings error := by
  rw [List.findSome?_eq_some_iff]
  constructor
  · rintro ⟨later, ⟨i, how⟩, earlier, rfl, hhow, hlater⟩
    cases how with
    | failed text =>
        obtain rfl := Option.some.inj hhow
        exact ⟨later, i, earlier, rfl, hlater⟩
    | done => cases hhow
    | cancelled => cases hhow
  · rintro ⟨later, i, earlier, rfl, hlater⟩
    exact ⟨later, (i, .failed error), earlier, rfl, rfl, hlater⟩

/-- **The status.**  The recent output are the last ten lines that the last task has read, and never
more than 200 lines are kept.  The error that is shown is the text of the last run that failed,
however many have not failed since then, and none is shown if that text is empty. -/
theorem status_shows {s : State} (h : backfillSystem.Reachable s) {i : ℕ}
    (hlast : s.shared.last = some i) :
    recentOutput s.shared = lastOf 10 (s.own i).lines ∧ s.shared.outputLines.length ≤ 200 ∧
      (∀ error, shownError s.shared = some error ↔
        error ≠ [] ∧ LastError s.shared.endings error) ∧
      ∀ j how, (j, how) ∈ s.shared.endings ↔ (s.own j).stage = .ended how := by
  have hinv := inv_of_reachable h
  have hkept := (hinv.fits i).lines hlast
  refine ⟨lastOf_of_suffix hkept.suffix ?_, hkept.length_le, fun error => ?_, hinv.endings⟩
  · have henough := hkept.enough
    omega
  · rw [shownError, Option.filter_eq_some_iff, hinv.error, findSome?_eq_some_iff,
      decide_eq_true_eq, and_comm]

/-- The status after a run that failed and one that has a line. -/
theorem status_shows_second : ∃ s, backfillSystem.Reachable s ∧ s.shared.last = some 1 ∧
    recentOutput s.shared = lastOf 10 (s.own 1).lines ∧
    shownError s.shared = some "missing".toList ∧
    LastError s.shared.endings "missing".toList := by
  obtain ⟨s, hexec, hend⟩ := backfillSystem.exists_of_exec_any
    ⟨⟨false, none, [], none, none, ∅, none, []⟩, fun _ => ⟨.idle, .none, []⟩⟩
    [Label.post 0 true true 0, .spawn 0 (some "missing".toList), .post 1 true true 1, .spawn 1 none,
      .line 1 (.ok "0/10".toList)]
    (fun s => s.shared.last = some 1 ∧ shownError s.shared = some "missing".toList)
    (by decide +kernel)
  have hreachable : backfillSystem.Reachable s :=
    StepSystem.Reachable.exec (.init ⟨rfl, fun _ => rfl⟩) hexec
  obtain ⟨hlast, hshown⟩ := of_decide_eq_true hend
  obtain ⟨hrecent, -, herror, -⟩ := status_shows hreachable hlast
  exact ⟨s, hreachable, hlast, hrecent, hshown, ((herror _).1 hshown).2⟩

/-! ### The drawers that are not processed -/

/-- A row of `mempalace_kg_backfill_state` with the phase `drawer`. -/
structure Checkpoint where
  key : Text
  completedAt : Option ℚ

/-- A row of `mempalace_drawers`, with its `filed_at`. -/
structure Drawer where
  id : Text
  filedAt : Option ℚ

/-- `x < y` of SQL, as a filter takes it -/
def before : Option ℚ → Option ℚ → Bool
  | some x, some y => x < y
  | _, _ => false

/-- `x <= y` of SQL, as a filter takes it -/
def notAfter : Option ℚ → Option ℚ → Bool
  | some x, some y => x ≤ y
  | _, _ => false

@[simp] lemma before_some (x y : ℚ) : before (some x) (some y) = decide (x < y) := rfl

@[simp] lemma notAfter_some (x y : ℚ) : notAfter (some x) (some y) = decide (x ≤ y) := rfl

@[simp] lemma before_none (x : Option ℚ) : before x none = false := by cases x <;> rfl

@[simp] lemma none_before (x : Option ℚ) : before none x = false := rfl

@[simp] lemma none_notAfter (x : Option ℚ) : notAfter none x = false := rfl

/-- The counts of `_backfill_unprocessed_breakdown`. -/
structure Breakdown where
  total : ℕ
  noFiledAt : ℕ
  preRunUnmarked : ℕ
  addedDuringRun : ℕ
  addedAfterRun : ℕ

/-- `gap` -/
def gap (checkpoints : List Checkpoint) (drawers : List Drawer) : List Drawer :=
  drawers.filter fun d => !checkpoints.any fun c => c.key = d.id

/-- `_backfill_unprocessed_breakdown` -/
def unprocessedBreakdown (checkpoints : List Checkpoint) (drawers : List Drawer) : Breakdown :=
  let runStart := (checkpoints.filterMap Checkpoint.completedAt).min?
  let runEnd := (checkpoints.filterMap Checkpoint.completedAt).max?
  let rows := gap checkpoints drawers
  { total := rows.length
    noFiledAt := rows.countP fun d => d.filedAt.isNone
    preRunUnmarked := rows.countP fun d => d.filedAt.isSome && before d.filedAt runStart
    addedDuringRun := rows.countP fun d =>
      d.filedAt.isSome && notAfter runStart d.filedAt && notAfter d.filedAt runEnd
    addedAfterRun := rows.countP fun d => d.filedAt.isSome && before runEnd d.filedAt }

/-- The sum of the reasons. -/
def Breakdown.reasons (b : Breakdown) : ℕ :=
  b.noFiledAt + b.preRunUnmarked + b.addedDuringRun + b.addedAfterRun

/-- With a first and a last time each row has one reason. -/
lemma countP_reasons {start stop : ℚ} (hle : start ≤ stop) (rows : List Drawer) :
    rows.countP (fun d => d.filedAt.isNone) +
        rows.countP (fun d => d.filedAt.isSome && before d.filedAt (some start)) +
        rows.countP (fun d =>
          d.filedAt.isSome && notAfter (some start) d.filedAt && notAfter d.filedAt (some stop)) +
        rows.countP (fun d => d.filedAt.isSome && before (some stop) d.filedAt) = rows.length := by
  induction rows with
  | nil => rfl
  | cons d rows ih =>
      obtain ⟨id, _ | t⟩ := d
      · simp only [List.countP_cons, List.length_cons, Option.isNone_none, Option.isSome_none,
          Bool.false_and, if_true, Bool.false_eq_true, if_false]
        omega
      · simp only [List.countP_cons, List.length_cons, Option.isNone_some, Option.isSome_some,
          Bool.true_and, before_some, notAfter_some, Bool.false_eq_true, if_false, Bool.and_eq_true,
          decide_eq_true_eq]
        -- the row is before, in or after the run
        rcases lt_or_ge t start with hbefore | hstart
        · rw [if_pos hbefore, if_neg fun h => absurd h.1 (not_le.2 hbefore),
            if_neg (not_lt.2 (hbefore.le.trans hle))]
          omega
        · rcases le_or_gt t stop with hstop | hafter
          · rw [if_neg (not_lt.2 hstart), if_pos ⟨hstart, hstop⟩, if_neg (not_lt.2 hstop)]
            omega
          · rw [if_neg (not_lt.2 hstart), if_neg fun h => absurd h.2 (not_le.2 hafter),
              if_pos hafter]
            omega

/-- **Reasons.**  Every drawer that is not processed has one reason, unless no checkpoint has a
time: then those that have a `filed_at` have none. -/
theorem sum_reasons_iff (checkpoints : List Checkpoint) (drawers : List Drawer) :
    (unprocessedBreakdown checkpoints drawers).reasons =
      (unprocessedBreakdown checkpoints drawers).total ↔
    (∃ c ∈ checkpoints, c.completedAt ≠ none) ∨
      ∀ d ∈ gap checkpoints drawers, d.filedAt = none := by
  rw [Breakdown.reasons, unprocessedBreakdown]
  dsimp only
  have htimes : (∃ c ∈ checkpoints, c.completedAt ≠ none) ↔
      checkpoints.filterMap Checkpoint.completedAt ≠ [] := by
    rw [Ne, List.filterMap_eq_nil_iff, not_forall]
    simp
  rw [htimes]
  generalize gap checkpoints drawers = rows
  rcases hstart : (checkpoints.filterMap Checkpoint.completedAt).min? with _ | start
  · -- without a time only the rows without one are counted
    have hnil := List.min?_eq_none_iff.1 hstart
    have hstop : (checkpoints.filterMap Checkpoint.completedAt).max? = none := by
      rw [hnil]
      rfl
    rw [hstop]
    simp only [before_none, none_before, none_notAfter, Bool.and_false, Bool.false_and,
      List.countP_false, Function.const, add_zero, hnil, ne_eq, not_true_eq_false, false_or,
      List.countP_eq_length, Option.isNone_iff_eq_none]
  · have hne : checkpoints.filterMap Checkpoint.completedAt ≠ [] := by
      intro hnil
      rw [hnil] at hstart
      cases hstart
    obtain ⟨stop, hstop⟩ := Option.isSome_iff_exists.1 (List.isSome_max?_iff.2 hne)
    have hle : start ≤ stop :=
      (List.min?_eq_some_iff.1 hstart).2 stop (List.max?_eq_some_iff.1 hstop).1
    rw [hstop, countP_reasons hle]
    exact iff_of_true rfl (.inl hne)

end PalaceDaemon.Backfill

/-
The quarantine files.

The lines whose replay has failed go to a file that a drain names by the second in which it ends:
`….failed-` and the digits of the local time.  It is opened for writing, so what a file of that
name held is gone.  The drains of the mines and those of the writes have names of their own, but
both forget what they have written before.  `quarantine_kept` says that this is the only way to
lose a quarantined line: in the runs in which no drain opens its file under a stamp whose file has
lines, or is being written, every line that was quarantined stays in some file.
-/
import PalaceDaemon.Mines.Faults
import PalaceDaemon.Writes.Kept

namespace PalaceDaemon

open Mines Writes

/-! ### Drains of writes whose operations fail -/

namespace Writes

/-- The next file operation of a drain fails, a write after `n` of its lines: the drain logs it
and returns. -/
def Queue.fail (s : Queue) (t : Task) (n : ℕ) : Option (Queue × List Task) :=
  match t with
  | .drain => if s.disk.pending = none then none else some (s, [.drainMines])
  | .read | .quarantine _ | .remove => some (s, [.drainMines])
  | .quarantineWrite stamp failed =>
      some ({ s with disk := s.disk.setFailed stamp (failed.take n) }, [.drainMines])
  | _ => none

/-- The lines that the task at `i` is about to write to its quarantine file. -/
def Queue.writing (s : Queue) (i : ℕ) : List Save :=
  match s.tasks[i]? with
  | some (.quarantineWrite _ failed) => failed
  | _ => []

/-- The file that a task has open for its failed lines. -/
def Task.opened : Task → Option ℕ
  | .quarantineWrite stamp _ => some stamp
  | _ => none

/-- The task is about to open a quarantine file. -/
def Task.opens : Task → Bool
  | .quarantine _ => true
  | _ => false

end Writes

/-! ### Both queues -/

/-- The two queues, and the lines that drains of writes have quarantined. -/
structure Drains where
  mines : Passes
  writes : Writes.Queue
  quarantined : List Save

/-- What can happen next. -/
inductive DrainsLabel
  /-- The clock is read as this second from now on. -/
  | clock (stamp : ℕ)
  | restart
  | mines (l : PassesLabel)
  | writes (e : Writes.Event)
  /-- The next operation of the task `i` fails, a write after `n` of its lines. -/
  | writeFails (i n : ℕ)

/-- The drains of both queues, in any order. -/
def drainsSystem : StepSystem Drains DrainsLabel where
  init s := faultySystem.init s.mines ∧ s.writes.tasks = [] ∧ s.quarantined = []
  next s
    | .clock stamp => some { s with
        mines := { s.mines with env := { s.mines.env with stamp } }
        writes := { s.writes with stamp } }
    | .restart => some { s with
        mines := { s.mines with pass := .fresh, faulty := false }
        writes := { s.writes with repairing := none, tasks := [] } }
    | .mines l => (faultySystem.next s.mines l).map fun mines => { s with mines }
    | .writes (.turn i c) => (Writes.queueSystem.next s.writes (.turn i c)).map fun writes =>
        { s with writes, quarantined := s.quarantined ++ s.writes.writing i }
    | .writes e => (Writes.queueSystem.next s.writes e).map fun writes => { s with writes }
    | .writeFails i n =>
        match s.writes.tasks[i]? with
        | none => none
        | some t => (s.writes.fail t n).map fun r =>
            { s with
              writes := { r.1 with tasks := Tasks.replaceAt s.writes.tasks i r.2 }
              quarantined := s.quarantined ++ (s.writes.writing i).take n }

/-- Every line that was quarantined is in a quarantine file. -/
def Drains.Kept (s : Drains) : Prop :=
  (∀ it, .quarantined it ∈ s.mines.settled → it.line ∈ s.mines.files.failedLines) ∧
    ∀ p ∈ s.quarantined, p ∈ s.writes.disk.failedLines

/-- A drain of mines opens no quarantine file that has lines. -/
def Mines.Passes.Apart (s : Passes) : Prop :=
  s.pass.pc = .failOpen → s.pass.failed ≠ [] → ∀ q ∈ s.files.failed, q.1 = s.env.stamp → q.2 = []

/-- Nor does a drain of writes, or one that another drain has open. -/
def Writes.Queue.Apart (s : Writes.Queue) (i : ℕ) : Prop :=
  ∀ t ∈ s.tasks[i]?, t.opens = true → (∀ q ∈ s.disk.failed, q.1 = s.stamp → q.2 = []) ∧
    ∀ u ∈ Tasks.others s.tasks i, u.opened ≠ some s.stamp

/-- No quarantine file is replaced. -/
def Apart (s : Drains) : DrainsLabel → Prop
  | .mines (.act _) => s.mines.Apart
  | .writes (.turn i _) => s.writes.Apart i
  | _ => True

/-! ### The mines -/

/-- What holds of the mines. -/
structure Mines.Passes.Keeps (s : Passes) : Prop where
  emptied : ∀ stamp, s.pass.pc = .failWrite stamp → ∀ q ∈ s.files.failed, q.1 = stamp → q.2 = []
  kept : ∀ it, .quarantined it ∈ s.settled → it.line ∈ s.files.failedLines

section mines

variable {s s' : Passes} {f' : Files} {p p' : Pass}

lemma quarantined_mem_settles {it : Item} (h : .quarantined it ∈ p.settles p') :
    it ∈ p.quarantines := by
  rcases List.mem_append.1 h with h | h
  · rcases List.mem_append.1 h with h | h
    · obtain ⟨m, -, hm⟩ := List.mem_map.1 h
      cases hm
    · obtain ⟨r, -, hr⟩ := List.mem_map.1 h
      cases hr
  · simpa using h

lemma exists_failWrite_of_quarantines {it : Item} (h : it ∈ p.quarantines) :
    ∃ stamp, p.pc = .failWrite stamp ∧ it ∈ p.failed := by
  unfold Pass.quarantines at h
  split at h
  · rename_i stamp hpc
    exact ⟨stamp, hpc, h⟩
  · cases h

/-- A step that settles `xs` and loses no quarantined line. -/
lemma passesKeeps_of_step {files : Files} {pass : Pass} {xs : List Settlement} {faulty : Bool}
    (h : s.Keeps) (hfailed : s.files.failedLines ⊆ files.failedLines)
    (hemptied : ∀ stamp, pass.pc = .failWrite stamp → ∀ q ∈ files.failed, q.1 = stamp → q.2 = [])
    (hxs : ∀ it, .quarantined it ∈ xs → it.line ∈ files.failedLines) :
    Passes.Keeps { s with files, pass, settled := s.settled ++ xs, faulty } := by
  refine ⟨hemptied, fun it hit => ?_⟩
  rcases List.mem_append.1 hit with hit | hit
  · exact hfailed (h.kept it hit)
  · exact hxs it hit

lemma passesKeeps_next {l : PassesLabel} (h : s.Keeps)
    (hok : ∀ a, l = .act a → s.Apart) (hnext : faultySystem.next s l = some s') : s'.Keeps := by
  cases l with
  | post e =>
      obtain rfl := Option.some.inj hnext
      exact ⟨h.emptied, h.kept⟩
  | change env =>
      obtain rfl := Option.some.inj hnext
      exact ⟨h.emptied, h.kept⟩
  | act a =>
      obtain ⟨⟨files, pass⟩, hmove, rfl⟩ := Option.map_eq_some_iff.1 hnext
      have hm := moves_of_next hmove
      refine passesKeeps_of_step h (failedLines_moves hm h.emptied (hok a rfl))
        (fun stamp hpc => emptied_moves hm hpc) fun it hit => ?_
      obtain ⟨stamp, hpc, hfailed⟩ :=
        exists_failWrite_of_quarantines (quarantined_mem_settles hit)
      obtain rfl : s.files.setFailed stamp (s.pass.failed.map Item.line) = files := by
        cases a <;> simp only [Pass.next, Pass.step, hpc, reduceCtorEq, if_false] at hmove
        exact congrArg Prod.fst (Option.some.inj hmove)
      exact List.mem_flatMap.2 ⟨_, mem_setFailed _ stamp _, List.mem_map_of_mem hfailed⟩
  | fail n =>
      obtain ⟨⟨files, pass⟩, hfail, rfl⟩ := Option.map_eq_some_iff.1 hnext
      have hf := fails_of_fail hfail
      refine passesKeeps_of_step h (failedLines_fails hf h.emptied)
        (fun stamp hpc => absurd hpc (fails_pc hf stamp)) fun it hit => ?_
      obtain ⟨it', htake, heq⟩ := List.mem_map.1 hit
      obtain rfl : it' = it := by simpa using heq
      obtain ⟨stamp, hpc, -⟩ := exists_failWrite_of_quarantines (List.mem_of_mem_take htake)
      simp only [Pass.quarantines, hpc] at htake
      obtain rfl : s.files.setFailed stamp ((s.pass.failed.map Item.line).take n) = files := by
        simp only [Pass.fail, hpc] at hfail
        exact congrArg Prod.fst (Option.some.inj hfail)
      refine List.mem_flatMap.2 ⟨_, mem_setFailed _ stamp _, ?_⟩
      rw [← List.map_take]
      exact List.mem_map_of_mem htake
  | again =>
      obtain ⟨-, hnext⟩ := Option.ite_none_right_eq_some.1 hnext
      obtain rfl := Option.some.inj hnext
      exact ⟨fun stamp hpc => by simp [Pass.fresh] at hpc, h.kept⟩

end mines

/-! ### The writes -/

/-- What holds of the writes, of which `qs` were quarantined. -/
structure Writes.Queue.Keeps (s : Writes.Queue) (qs : List Save) : Prop where
  emptied : ∀ t ∈ s.tasks, ∀ stamp ∈ t.opened, ∀ q ∈ s.disk.failed, q.1 = stamp → q.2 = []
  apart : (s.tasks.filterMap Writes.Task.opened).Nodup
  kept : ∀ p ∈ qs, p ∈ s.disk.failedLines

section writes

variable {s s' : Writes.Queue} {qs : List Save} {i : ℕ} {t : Writes.Task} {ts : List Writes.Task}

lemma openPending_failed (d : Writes.Disk) : d.openPending.1.failed = d.failed := by
  unfold Writes.Disk.openPending
  split <;> rfl

/-- A task that neither opens a quarantine file nor writes to one leaves them all. -/
lemma turn_quiet {c : Writes.Turn} (hopens : t.opens = false) (hopened : t.opened = none)
    (hturn : s.turn t c = some (s', ts)) :
    s'.disk.failed = s.disk.failed ∧ ∀ u ∈ ts, u.opened = none := by
  unfold Writes.Queue.turn at hturn
  split at hturn
  case h_11 => cases hopens
  case h_12 => cases hopened
  all_goals
    first
    | cases hturn
    | (split at hturn <;> cases hturn)
  all_goals refine ⟨?_, ?_⟩
  all_goals
    first
    | rfl
    | exact openPending_failed _
    | exact appendAt_failed ..
    | (split_ifs <;> first | rfl | simp [Writes.Task.opened])
    | simp [Writes.Task.opened]

/-- The task at `i` is exchanged for tasks that have no quarantine file open, and the files
stay. -/
lemma queueKeeps_quiet (h : s.Keeps qs) (ht : s.tasks[i]? = some t)
    (hfailed : s'.disk.failed = s.disk.failed) (hts : ∀ u ∈ ts, u.opened = none) :
    Writes.Queue.Keeps { s' with tasks := Tasks.replaceAt s.tasks i ts } qs := by
  have hnone : ts.filterMap Writes.Task.opened = [] := List.filterMap_eq_nil_iff.2 hts
  refine ⟨fun u hu stamp hstamp => ?_, ?_, ?_⟩
  · rcases Tasks.mem_replaceAt.1 hu with hu | hu
    · rw [hts u hu] at hstamp
      cases hstamp
    · dsimp only
      rw [hfailed]
      exact h.emptied u (Tasks.mem_of_mem_others ht hu) stamp hstamp
  · have hperm := (Tasks.perm_replaceAt s.tasks i ts).filterMap Writes.Task.opened
    rw [List.filterMap_append, hnone, List.nil_append] at hperm
    have hold := ((Tasks.perm_others ht).filterMap Writes.Task.opened).nodup_iff.1 h.apart
    refine hperm.nodup_iff.2 (hold.sublist ?_)
    exact (List.sublist_cons_self t _).filterMap Writes.Task.opened
  · simpa only [Writes.Disk.failedLines, hfailed] using h.kept

/-- A quarantine file is opened. -/
lemma queueKeeps_open {failed : List Save} (h : s.Keeps qs)
    (ht : s.tasks[i]? = some (.quarantine failed)) (hok : s.Apart i) :
    Writes.Queue.Keeps { s with
      disk := s.disk.setFailed s.stamp []
      tasks := Tasks.replaceAt s.tasks i [.quarantineWrite s.stamp failed] } qs := by
  obtain ⟨hempty, hothers⟩ := hok _ ht rfl
  have hnodup := ((Tasks.perm_others ht).filterMap Writes.Task.opened).nodup_iff.1 h.apart
  refine ⟨fun u hu stamp hstamp q hq heq => ?_, ?_, fun p hp => ?_⟩
  · rcases Tasks.mem_replaceAt.1 hu with hu | hu
    · obtain rfl := List.mem_singleton.1 hu
      obtain rfl : s.stamp = stamp := by simpa [Writes.Task.opened] using hstamp
      exact failed_setFailed hq heq
    · rcases List.mem_append.1 hq with hq | hq
      · exact h.emptied u (Tasks.mem_of_mem_others ht hu) stamp hstamp q
          (List.mem_of_mem_filter hq) heq
      · rw [List.mem_singleton.1 hq]
  · refine (((Tasks.perm_replaceAt s.tasks i _).filterMap Writes.Task.opened).nodup_iff).2 ?_
    refine List.nodup_cons.2 ⟨fun hmem => ?_, hnodup⟩
    obtain ⟨u, hu, hstamp⟩ := List.mem_filterMap.1 hmem
    exact hothers u hu hstamp
  · exact mem_failedLines_setFailed (h.kept p hp) hempty

/-- The failed lines are written, all or some of them. -/
lemma queueKeeps_write {stamp : ℕ} {failed lines : List Save} (h : s.Keeps qs)
    (ht : s.tasks[i]? = some (.quarantineWrite stamp failed)) (hts : ∀ u ∈ ts, u.opened = none) :
    Writes.Queue.Keeps { s with
      disk := s.disk.setFailed stamp lines
      tasks := Tasks.replaceAt s.tasks i ts } (qs ++ lines) := by
  have hnone : ts.filterMap Writes.Task.opened = [] := List.filterMap_eq_nil_iff.2 hts
  have hempty := h.emptied _ ((Tasks.mem_iff ht).2 (.inl rfl)) stamp rfl
  have hnodup := ((Tasks.perm_others ht).filterMap Writes.Task.opened).nodup_iff.1 h.apart
  obtain ⟨hnotMem, hnodup⟩ := List.nodup_cons.1 (show (stamp :: _).Nodup from hnodup)
  refine ⟨fun u hu stamp' hstamp q hq heq => ?_, ?_, fun p hp => ?_⟩
  · rcases Tasks.mem_replaceAt.1 hu with hu | hu
    · rw [hts u hu] at hstamp
      cases hstamp
    · rcases List.mem_append.1 hq with hq | hq
      · exact h.emptied u (Tasks.mem_of_mem_others ht hu) stamp' hstamp q
          (List.mem_of_mem_filter hq) heq
      · -- the file of another drain has another stamp
        obtain rfl := List.mem_singleton.1 hq
        obtain rfl : stamp = stamp' := heq
        exact absurd (List.mem_filterMap.2 ⟨u, hu, hstamp⟩) hnotMem
  · refine (((Tasks.perm_replaceAt s.tasks i _).filterMap Writes.Task.opened).nodup_iff).2 ?_
    rwa [List.filterMap_append, hnone, List.nil_append]
  · rcases List.mem_append.1 hp with hp | hp
    · exact mem_failedLines_setFailed (h.kept p hp) hempty
    · refine List.mem_flatMap.2 ⟨(stamp, lines), ?_, hp⟩
      exact List.mem_append_right _ (List.mem_singleton.2 rfl)

lemma writing_eq (ht : s.tasks[i]? = some t) :
    (t.opened = none → s.writing i = []) ∧
      ∀ stamp failed, t = .quarantineWrite stamp failed → s.writing i = failed := by
  unfold Writes.Queue.writing
  rw [ht]
  cases t <;> simp [Writes.Task.opened]

lemma queueKeeps_turn {c : Writes.Turn} (h : s.Keeps qs) (hok : s.Apart i)
    (hnext : Writes.queueSystem.next s (.turn i c) = some s') : s'.Keeps (qs ++ s.writing i) := by
  cases ht : s.tasks[i]? with
  | none => simp [Writes.queueSystem, ht] at hnext
  | some t =>
      simp only [Writes.queueSystem, ht, Option.map_eq_some_iff] at hnext
      obtain ⟨⟨s'', ts⟩, hturn, rfl⟩ := hnext
      obtain ⟨hquiet, hwrite⟩ := writing_eq ht
      cases hopens : t.opens with
      | true =>
          cases t <;> simp only [Writes.Task.opens, reduceCtorEq] at hopens
          rename_i failed
          rw [hquiet rfl, List.append_nil]
          cases c <;> simp only [Writes.Queue.turn, reduceCtorEq] at hturn
          obtain ⟨rfl, rfl⟩ := Prod.mk.inj (Option.some.inj hturn)
          exact queueKeeps_open h ht hok
      | false =>
          cases hopened : t.opened with
          | some stamp =>
              cases t <;> simp only [Writes.Task.opened, reduceCtorEq] at hopened
              rename_i stamp failed
              rw [hwrite stamp failed rfl]
              cases c <;> simp only [Writes.Queue.turn, reduceCtorEq] at hturn
              obtain ⟨rfl, rfl⟩ := Prod.mk.inj (Option.some.inj hturn)
              exact queueKeeps_write h ht (by simp [Writes.Task.opened])
          | none =>
              rw [hquiet hopened, List.append_nil]
              obtain ⟨hfailed, hts⟩ := turn_quiet hopens hopened hturn
              exact queueKeeps_quiet h ht hfailed hts

lemma queueKeeps_fail {n : ℕ} (h : s.Keeps qs) (ht : s.tasks[i]? = some t)
    (hfail : s.fail t n = some (s', ts)) :
    Writes.Queue.Keeps { s' with tasks := Tasks.replaceAt s.tasks i ts }
      (qs ++ (s.writing i).take n) := by
  obtain ⟨hquiet, hwrite⟩ := writing_eq ht
  cases hopened : t.opened with
  | some stamp =>
      cases t <;> simp only [Writes.Task.opened, reduceCtorEq] at hopened
      rename_i stamp failed
      rw [hwrite stamp failed rfl]
      obtain ⟨rfl, rfl⟩ := Prod.mk.inj (Option.some.inj hfail)
      exact queueKeeps_write h ht (by simp [Writes.Task.opened])
  | none =>
      rw [hquiet hopened, List.take_nil, List.append_nil]
      obtain ⟨rfl, rfl⟩ : s' = s ∧ ts = [.drainMines] := by
        unfold Writes.Queue.fail at hfail
        split at hfail
        · split_ifs at hfail
          exact ⟨(Prod.mk.inj (Option.some.inj hfail)).1.symm,
            (Prod.mk.inj (Option.some.inj hfail)).2.symm⟩
        all_goals cases hfail
        all_goals first | exact ⟨rfl, rfl⟩ | cases hopened
      exact queueKeeps_quiet h ht rfl (by simp [Writes.Task.opened])

/-- The tasks stay as they are, or one without a quarantine file starts, or all end. -/
lemma queueKeeps_of_failed (h : s.Keeps qs) (hfailed : s'.disk.failed = s.disk.failed)
    (htasks : ∀ t ∈ s'.tasks, t ∈ s.tasks ∨ t.opened = none)
    (hopened : (s'.tasks.filterMap Writes.Task.opened).Sublist
      (s.tasks.filterMap Writes.Task.opened)) :
    s'.Keeps qs := by
  refine ⟨fun t ht stamp hstamp => ?_, h.apart.sublist hopened, ?_⟩
  · rw [hfailed]
    rcases htasks t ht with ht | ht
    · exact h.emptied t ht stamp hstamp
    · rw [ht] at hstamp
      cases hstamp
  · simpa only [Writes.Disk.failedLines, hfailed] using h.kept

lemma queueKeeps_event {e : Writes.Event} (h : s.Keeps qs) (he : ∀ i c, e ≠ .turn i c)
    (hnext : Writes.queueSystem.next s e = some s') : s'.Keeps qs := by
  cases e with
  | turn i c => exact absurd rfl (he i c)
  | post payload =>
      obtain rfl := Option.some.inj hnext
      refine queueKeeps_of_failed h rfl (fun t ht => ?_) (by simp [Writes.Task.opened])
      refine (List.mem_append.1 ht).imp id fun ht => ?_
      rw [List.mem_singleton.1 ht]
      rfl
  | repair mode =>
      obtain ⟨-, hnext⟩ := Option.ite_none_right_eq_some.1 hnext
      obtain rfl := Option.some.inj hnext
      refine queueKeeps_of_failed h rfl (fun t ht => ?_) (by simp [Writes.Task.opened])
      refine (List.mem_append.1 ht).imp id fun ht => ?_
      rw [List.mem_singleton.1 ht]
      rfl
  | tick =>
      obtain rfl := Option.some.inj hnext
      exact queueKeeps_of_failed h rfl (fun t ht => .inl ht) (.refl _)
  | restart =>
      obtain rfl := Option.some.inj hnext
      exact queueKeeps_of_failed h rfl (fun t ht => absurd ht List.not_mem_nil)
        (List.nil_sublist _)

end writes

/-! ### Runs -/

section runs

variable {s s' : Drains}

/-- What holds throughout a run. -/
structure Drains.Keeps (s : Drains) : Prop where
  mines : s.mines.Keeps
  writes : s.writes.Keeps s.quarantined

lemma drainsKeeps_next {l : DrainsLabel} (h : s.Keeps) (hok : Apart s l)
    (hnext : drainsSystem.next s l = some s') : s'.Keeps := by
  cases l with
  | clock stamp =>
      obtain rfl := Option.some.inj hnext
      exact ⟨⟨h.mines.emptied, h.mines.kept⟩, ⟨h.writes.emptied, h.writes.apart, h.writes.kept⟩⟩
  | restart =>
      obtain rfl := Option.some.inj hnext
      refine ⟨⟨fun stamp hpc => by simp [Pass.fresh] at hpc, h.mines.kept⟩, ?_⟩
      exact queueKeeps_event h.writes (by simp) (e := .restart) rfl
  | mines l =>
      obtain ⟨mines, hmines, rfl⟩ := Option.map_eq_some_iff.1 hnext
      refine ⟨passesKeeps_next h.mines (fun a hl => ?_) hmines, h.writes⟩
      subst hl
      exact hok
  | writes e =>
      cases e with
      | turn i c =>
          obtain ⟨writes, hwrites, rfl⟩ := Option.map_eq_some_iff.1 hnext
          exact ⟨h.mines, queueKeeps_turn h.writes hok hwrites⟩
      | _ =>
          simp only [drainsSystem, Option.map_eq_some_iff] at hnext
          obtain ⟨writes, hwrites, rfl⟩ := hnext
          exact ⟨h.mines, queueKeeps_event h.writes (by simp) hwrites⟩
  | writeFails i n =>
      simp only [drainsSystem] at hnext
      split at hnext
      · cases hnext
      · rename_i t ht
        obtain ⟨⟨w, ts⟩, hfail, rfl⟩ := Option.map_eq_some_iff.1 hnext
        exact ⟨h.mines, queueKeeps_fail h.writes ht hfail⟩

/-- **Quarantined lines stay.**  In a run in which no drain opens its quarantine file under a stamp
whose file, of the same queue, has lines or is being written, every line that some drain has
quarantined is in a quarantine file. -/
theorem quarantine_kept (h : drainsSystem.ReachedBy Apart s) : s.Kept := by
  have hkeeps : s.Keeps := by
    refine h.invariant (fun s hs => ?_) fun _ _ _ hs hok hnext => drainsKeeps_next hs hok hnext
    obtain ⟨⟨hpass, hsettled, -, -⟩, htasks, hquarantined⟩ := hs
    refine ⟨⟨fun stamp hpc => ?_, by simp [hsettled]⟩, ⟨by simp [htasks], by simp [htasks],
      by simp [hquarantined]⟩⟩
    simp [hpass, Pass.fresh] at hpc
  exact ⟨hkeeps.mines.kept, hkeeps.writes.kept⟩

end runs

/-! ### Two runs -/

instance (s : Drains) : (l : DrainsLabel) → Decidable (Apart s l)
  | .mines (.act _) => inferInstanceAs (Decidable (_ → _ → _))
  | .writes (.turn i _) => inferInstanceAs (Decidable (∀ t ∈ s.writes.tasks[i]?, _ → _ ∧ _))
  | .mines (.post _) | .mines (.change _) | .mines (.fail _) | .mines .again
  | .clock _ | .restart | .writes (.post _) | .writes (.repair _) | .writes .tick
  | .writes .restart | .writeFails _ _ => inferInstanceAs (Decidable True)

/-- Nothing is queued. -/
def idleDrains : Drains where
  mines := { env := Env.plain, files := .ofLive [], pass := .fresh, posted := [], settled := []
             faulty := false }
  writes := started
  quarantined := []

/-- A rebuild during which one save is queued, and whose drain cannot replay it. -/
def failedDrain (payload : String) : List DrainsLabel :=
  [.repair .rebuild, .post payload, .turn 1 .run, .turn 1 .run, .turn 1 .run, .turn 1 .run,
    .turn 0 (.ends true), .turn 0 .run, .turn 0 .run, .turn 0 (.ends false), .turn 0 .run,
    .turn 0 .run, .turn 0 .run, .turn 0 .run, .turn 0 .run].map .writes

lemma idleDrains_init : drainsSystem.init idleDrains := ⟨⟨rfl, rfl, rfl, rfl⟩, rfl, rfl⟩

/-- Two drains in different seconds. -/
theorem quarantine_kept_clock : ∃ s : Drains,
    s.quarantined = [⟨0, "first"⟩, ⟨1, "second"⟩] ∧ s.Kept := by
  have hstart : drainsSystem.ReachedBy Apart idleDrains := .init idleDrains_init
  obtain ⟨s, hreached, hend⟩ := hstart.exists_of_execBy_any
    (failedDrain "first" ++ [.clock 7] ++ failedDrain "second")
    (fun s => decide (s.quarantined = [⟨0, "first"⟩, ⟨1, "second"⟩])) (by decide)
  exact ⟨s, of_decide_eq_true hend, quarantine_kept hreached⟩

/-- The second drain of a second replaces the quarantine file of the first. -/
theorem quarantine_kept_fails :
    ¬ ∀ s : Drains, drainsSystem.Reachable s → s.Kept := by
  intro hkept
  obtain ⟨s, hs, hend⟩ := drainsSystem.exists_of_exec_any idleDrains
    (failedDrain "first" ++ failedDrain "second")
    (fun s => decide (s.quarantined = [⟨0, "first"⟩, ⟨1, "second"⟩] ∧
      s.writes.disk.failedLines = [⟨1, "second"⟩])) (by decide)
  obtain ⟨hquarantined, hlines⟩ := of_decide_eq_true hend
  have hfirst := (hkept s (StepSystem.Reachable.exec (.init idleDrains_init) hs)).2
    ⟨0, "first"⟩ (by simp [hquarantined])
  simp [hlines] at hfirst

end PalaceDaemon

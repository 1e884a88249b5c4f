/-
What becomes of a queued save.

A save that was answered with `queued: true` is on its way through four places: the pending
file, `.processing`, the palace, a quarantine file.  `Queue.Holds` says it is in one of them.
A turn takes it from one place to the next, except at five points.  A rebuild that fails drains
nothing, so the pending file stays.  An append may come after the rename, to a file that is
never read again, or to a fresh pending file that nobody drains.  The rename of one drain may
land on the `.processing` of another.  A quarantine file may be written over one of the same
second.  And a restart finds neither the pending file nor `.processing`: no drain is started.

`saves_kept` says that there are no others.
-/
import PalaceDaemon.Writes.SilentSave

namespace PalaceDaemon.Writes

/-- The save is in the palace, in a quarantine file, or in the queue. -/
def Queue.Holds (s : Queue) (p : Save) : Prop :=
  p ∈ s.palace ∨ p ∈ s.disk.failedLines ∨ p ∈ linesOf s.disk.pending ∨
    p ∈ linesOf s.disk.processing

/-- The task will rename the pending file. -/
def Task.claims : Task → Bool
  | .repair .rebuild | .drain => true
  | _ => false

/-- The task is a drain that has renamed the pending file. -/
def Task.drains : Task → Bool
  | .read | .replay _ _ | .quarantine _ | .quarantineWrite _ _ | .remove => true
  | _ => false

/-- A write through the handle lands where it will be read: in the pending file while somebody
will rename it, or in `.processing` before it is read. -/
def Queue.Lands (s : Queue) (i inode : ℕ) : Prop :=
  (s.disk.pending.any (·.inode = inode) ∧ ∃ t ∈ Tasks.others s.tasks i, t.claims = true) ∨
    (¬ s.disk.pending.any (·.inode = inode) ∧ s.disk.processing.any (·.inode = inode) ∧
      .read ∈ Tasks.others s.tasks i)

/-- The condition on the steps of a run. -/
def Careful (s : Queue) : Event → Prop
  | .restart => linesOf s.disk.pending = [] ∧ linesOf s.disk.processing = []
  | .turn i c =>
      match s.tasks[i]?, c with
      | some (.repair .rebuild), .ends false =>
          linesOf s.disk.pending = [] ∨ ∃ t ∈ Tasks.others s.tasks i, t.claims = true
      | some (.append _ inode), .run => s.Lands i inode
      | some .drain, .run =>
          s.disk.pending = none ∨ ∀ t ∈ Tasks.others s.tasks i, t.drains = false
      | some (.quarantine _), .run => ∀ q ∈ s.disk.failed, q.1 ≠ s.stamp
      | _, _ => True
  | _ => True

/-! ### The invariant -/

/-- What a task knows of the queue. -/
def Task.Consistent (s : Queue) : Task → Prop
  | .answer p => s.Holds p
  | .replay todo failed =>
      ∀ p ∈ linesOf s.disk.processing, p ∈ s.palace ∨ p ∈ failed ∨ p ∈ todo
  | .quarantine failed => ∀ p ∈ linesOf s.disk.processing, p ∈ s.palace ∨ p ∈ failed
  | .quarantineWrite stamp failed =>
      (∀ p ∈ linesOf s.disk.processing, p ∈ s.palace ∨ p ∈ failed) ∧
        ∀ q ∈ s.disk.failed, q.1 = stamp → q.2 = []
  | .remove => ∀ p ∈ linesOf s.disk.processing, p ∈ s.palace ∨ p ∈ s.disk.failedLines
  | _ => True

/-- What holds throughout a careful run. -/
structure Queue.Kept (s : Queue) : Prop where
  answered : ∀ p ∈ s.answered, s.Holds p
  tasks : ∀ t ∈ s.tasks, t.Consistent s
  pending : linesOf s.disk.pending ≠ [] → ∃ t ∈ s.tasks, t.claims = true
  processing : linesOf s.disk.processing ≠ [] → ∃ t ∈ s.tasks, t.drains = true
  one : s.tasks.countP Task.drains ≤ 1

/-- What a turn from `s` to `s'` has to keep, when the tasks `ts` go on from the one at `i`. -/
structure Keeps (s s' : Queue) (i : ℕ) (ts : List Task) : Prop where
  holds : ∀ p, s.Holds p → s'.Holds p
  answered : ∀ p ∈ s'.answered, p ∈ s.answered ∨ s'.Holds p
  others : ∀ u ∈ Tasks.others s.tasks i, u.drains = true → u.Consistent s → u.Consistent s'
  goesOn : ∀ u ∈ ts, u.Consistent s'
  pending : linesOf s'.disk.pending ≠ [] → ∃ u, (u ∈ ts ∨ u ∈ Tasks.others s.tasks i) ∧
    u.claims = true
  processing : linesOf s'.disk.processing ≠ [] → ∃ u, (u ∈ ts ∨ u ∈ Tasks.others s.tasks i) ∧
    u.drains = true
  one : ts.countP Task.drains + (Tasks.others s.tasks i).countP Task.drains ≤ 1

/-- Consistency does not look at the list of tasks. -/
lemma consistent_tasks (s : Queue) (ts : List Task) (t : Task) :
    t.Consistent { s with tasks := ts } ↔ t.Consistent s := by
  cases t <;> rfl

lemma kept_of_keeps {s s' : Queue} {i : ℕ} {t : Task} {ts : List Task} (h : s.Kept)
    (ht : s.tasks[i]? = some t) (hk : Keeps s s' i ts) :
    Queue.Kept { s' with tasks := Tasks.replaceAt s.tasks i ts } := by
  refine ⟨fun p hp => ?_, fun u hu => ?_, fun hlines => ?_, fun hlines => ?_, ?_⟩
  · rcases hk.answered p hp with hp | hp
    · exact hk.holds p (h.answered p hp)
    · exact hp
  · rw [consistent_tasks]
    rcases Tasks.mem_replaceAt.1 hu with hu | hu
    · exact hk.goesOn u hu
    · have hcons := h.tasks u (Tasks.mem_of_mem_others ht hu)
      by_cases hdrains : u.drains = true
      · exact hk.others u hu hdrains hcons
      · -- of the tasks that are no drain only an answer says something
        cases u <;> first | exact hk.holds _ hcons | trivial
  · obtain ⟨u, hu, hclaims⟩ := hk.pending hlines
    exact ⟨u, Tasks.mem_replaceAt.2 hu, hclaims⟩
  · obtain ⟨u, hu, hdrains⟩ := hk.processing hlines
    exact ⟨u, Tasks.mem_replaceAt.2 hu, hdrains⟩
  · show (Tasks.replaceAt s.tasks i ts).countP Task.drains ≤ 1
    rw [Tasks.countP_replaceAt]
    exact hk.one

section turns

variable {s s' : Queue} {i : ℕ} {t : Task} {ts : List Task}

/-- The other tasks claim what the task itself does not. -/
lemma others_claim (h : s.Kept) (ht : s.tasks[i]? = some t) (hnot : t.claims = false)
    (hlines : linesOf s.disk.pending ≠ []) : ∃ u ∈ Tasks.others s.tasks i, u.claims = true := by
  obtain ⟨u, hu, hclaims⟩ := h.pending hlines
  rcases (Tasks.mem_iff ht).1 hu with rfl | hu
  · rw [hnot] at hclaims
    cases hclaims
  · exact ⟨u, hu, hclaims⟩

lemma others_drain (h : s.Kept) (ht : s.tasks[i]? = some t) (hnot : t.drains = false)
    (hlines : linesOf s.disk.processing ≠ []) :
    ∃ u ∈ Tasks.others s.tasks i, u.drains = true := by
  obtain ⟨u, hu, hdrains⟩ := h.processing hlines
  rcases (Tasks.mem_iff ht).1 hu with rfl | hu
  · rw [hnot] at hdrains
    cases hdrains
  · exact ⟨u, hu, hdrains⟩

lemma count_others (h : s.Kept) (ht : s.tasks[i]? = some t) :
    (if t.drains then 1 else 0) + (Tasks.others s.tasks i).countP Task.drains ≤ 1 := by
  have hone := h.one
  rwa [Tasks.countP_eq Task.drains ht] at hone

/-- While a task drains, no other one does. -/
lemma others_idle (h : s.Kept) (ht : s.tasks[i]? = some t) (hdrains : t.drains = true) :
    ∀ u ∈ Tasks.others s.tasks i, u.drains = false := by
  have hone := count_others h ht
  rw [if_pos hdrains] at hone
  have hzero : (Tasks.others s.tasks i).countP Task.drains = 0 := by omega
  intro u hu
  simpa using List.countP_eq_zero.1 hzero u hu

/-- A turn that leaves the lines of the files as they are. -/
lemma keeps_of_lines_eq (h : s.Kept) (ht : s.tasks[i]? = some t)
    (hpend : linesOf s'.disk.pending = linesOf s.disk.pending)
    (hproc : linesOf s'.disk.processing = linesOf s.disk.processing)
    (hfailed : s'.disk.failed = s.disk.failed) (hpalace : ∀ p ∈ s.palace, p ∈ s'.palace)
    (hanswered : ∀ p ∈ s'.answered, p ∈ s.answered ∨ s'.Holds p)
    (hgoesOn : ∀ u ∈ ts, u.Consistent s')
    (hclaims : t.claims = true → linesOf s.disk.pending ≠ [] →
      ∃ u, (u ∈ ts ∨ u ∈ Tasks.others s.tasks i) ∧ u.claims = true)
    (hdrains : t.drains = true → linesOf s.disk.processing ≠ [] → ∃ u ∈ ts, u.drains = true)
    (hone : ts.countP Task.drains ≤ if t.drains then 1 else 0) : Keeps s s' i ts where
  holds p hp := by
    simp only [Queue.Holds, Disk.failedLines, hpend, hproc, hfailed] at hp ⊢
    exact hp.imp_left (hpalace p)
  answered := hanswered
  others u hu hdrains hcons := by
    cases u <;> simp only [Task.Consistent, Disk.failedLines, hproc, hfailed] at hcons ⊢
    case answer => cases hdrains
    case quarantineWrite => exact ⟨fun p hp => (hcons.1 p hp).imp_left (hpalace p), hcons.2⟩
    all_goals exact fun p hp => (hcons p hp).imp_left (hpalace p)
  goesOn := hgoesOn
  pending hlines := by
    rw [hpend] at hlines
    cases hc : t.claims with
    | true => exact hclaims hc hlines
    | false =>
        obtain ⟨u, hu, hclaims⟩ := others_claim h ht hc hlines
        exact ⟨u, .inr hu, hclaims⟩
  processing hlines := by
    rw [hproc] at hlines
    cases hd : t.drains with
    | true =>
        obtain ⟨u, hu, hdrains⟩ := hdrains hd hlines
        exact ⟨u, .inl hu, hdrains⟩
    | false =>
        obtain ⟨u, hu, hdrains⟩ := others_drain h ht hd hlines
        exact ⟨u, .inr hu, hdrains⟩
  one := Nat.le_trans (Nat.add_le_add_right hone _) (count_others h ht)

/-! ### The turns that change the files -/

lemma keeps_openPending {p : Save} (h : s.Kept) (ht : s.tasks[i]? = some (.openPending p)) :
    Keeps s { s with disk := s.disk.openPending.1 } i [.append p s.disk.openPending.2] := by
  unfold Disk.openPending
  cases hpending : s.disk.pending with
  | some f =>
      refine keeps_of_lines_eq h ht rfl rfl rfl (fun _ hp => hp) (fun _ hp => .inl hp) ?_
        (fun hc => by cases hc) (fun hd => by cases hd) (Nat.le_refl 0)
      simp [Task.Consistent]
  | none =>
      refine keeps_of_lines_eq h ht ?_ rfl rfl (fun _ hp => hp) (fun _ hp => .inl hp) ?_
        (fun hc => by cases hc) (fun hd => by cases hd) (Nat.le_refl 0)
      · simp [hpending]
      · simp [Task.Consistent]

/-- An append that lands is in the queue, and what was in the queue stays there. -/
lemma mem_appendAt_pending (d : Disk) (inode : ℕ) (p q : Save) (h : q ∈ linesOf d.pending) :
    q ∈ linesOf (d.appendAt inode p).pending := by
  unfold Disk.appendAt
  split_ifs
  · cases hpending : d.pending with
    | none => simp [hpending] at h
    | some f =>
        rw [hpending, linesOf_some] at h
        simp [h]
  · exact h
  · exact h

lemma mem_appendAt_processing (d : Disk) (inode : ℕ) (p q : Save)
    (h : q ∈ linesOf d.processing) : q ∈ linesOf (d.appendAt inode p).processing := by
  unfold Disk.appendAt
  split_ifs
  · exact h
  · cases hproc : d.processing with
    | none => simp [hproc] at h
    | some f =>
        rw [hproc, linesOf_some] at h
        simp [h]
  · exact h

lemma appendAt_failed (d : Disk) (inode : ℕ) (p : Save) :
    (d.appendAt inode p).failed = d.failed := by
  unfold Disk.appendAt
  split_ifs <;> rfl

lemma holds_appendAt {p q : Save} {inode : ℕ} (h : s.Holds q) :
    Queue.Holds { s with disk := s.disk.appendAt inode p } q := by
  rcases h with h | h | h | h
  · exact .inl h
  · refine .inr (.inl ?_)
    rwa [Disk.failedLines, appendAt_failed]
  · exact .inr (.inr (.inl (mem_appendAt_pending _ _ _ _ h)))
  · exact .inr (.inr (.inr (mem_appendAt_processing _ _ _ _ h)))

lemma keeps_append {p : Save} {inode : ℕ} (h : s.Kept)
    (ht : s.tasks[i]? = some (.append p inode)) (hok : s.Lands i inode) :
    Keeps s { s with disk := s.disk.appendAt inode p } i [.answer p] := by
  rcases hok with ⟨hhas, hclaimed⟩ | ⟨hnot, hhas, hread⟩
  · -- the pending file, which somebody will rename
    have hproc : (s.disk.appendAt inode p).processing = s.disk.processing := by
      rw [Disk.appendAt, if_pos hhas]
    have hmem : p ∈ linesOf (s.disk.appendAt inode p).pending := by
      rw [Disk.appendAt, if_pos hhas]
      cases hpending : s.disk.pending with
      | none => simp [hpending] at hhas
      | some f => simp
    refine ⟨fun q => holds_appendAt, fun q hq => .inl hq, fun u hu hdrains hcons => ?_, ?_,
      fun _ => ?_, fun hlines => ?_, ?_⟩
    · cases u <;> simp only [Task.Consistent, Disk.failedLines, hproc, appendAt_failed]
        at hcons ⊢ <;> first | exact hcons | cases hdrains
    · intro u hu
      obtain rfl := List.mem_singleton.1 hu
      exact .inr (.inr (.inl hmem))
    · obtain ⟨u, hu, hclaims⟩ := hclaimed
      exact ⟨u, .inr hu, hclaims⟩
    · rw [hproc] at hlines
      obtain ⟨u, hu, hdrains⟩ := others_drain h ht rfl hlines
      exact ⟨u, .inr hu, hdrains⟩
    · have hone := count_others h ht
      simpa [Task.drains] using hone
  · -- `.processing`, which is read next
    have hpend : (s.disk.appendAt inode p).pending = s.disk.pending := by
      rw [Disk.appendAt, if_neg hnot, if_pos hhas]
    have hmem : p ∈ linesOf (s.disk.appendAt inode p).processing := by
      rw [Disk.appendAt, if_neg hnot, if_pos hhas]
      cases hproc : s.disk.processing with
      | none => simp [hproc] at hhas
      | some f => simp
    have hone := count_others h ht
    have hread' : ∀ u ∈ Tasks.others s.tasks i, u.drains = true → u = .read :=
      fun u hu hdrains => Tasks.eq_of_countP_le_one (Nat.le_trans (Nat.le_add_left _ _) hone)
        hu hread hdrains rfl
    refine ⟨fun q => holds_appendAt, fun q hq => .inl hq, fun u hu hdrains _ => ?_, ?_,
      fun hlines => ?_, fun _ => ⟨.read, .inr hread, rfl⟩, ?_⟩
    · rw [hread' u hu hdrains]
      trivial
    · intro u hu
      obtain rfl := List.mem_singleton.1 hu
      exact .inr (.inr (.inr hmem))
    · rw [hpend] at hlines
      obtain ⟨u, hu, hclaims⟩ := others_claim h ht rfl hlines
      exact ⟨u, .inr hu, hclaims⟩
    · simpa [Task.drains] using hone

/-- The rename, when no other drain is at work: `.processing` had nothing left in it. -/
lemma keeps_claim {f : QueueFile} (h : s.Kept) (ht : s.tasks[i]? = some .drain)
    (hpending : s.disk.pending = some f)
    (hok : ∀ u ∈ Tasks.others s.tasks i, u.drains = false) :
    Keeps s { s with disk := { s.disk with pending := none, processing := some f } } i [.read] := by
  have hempty : linesOf s.disk.processing = [] := by
    by_contra hlines
    obtain ⟨u, hu, hdrains⟩ := others_drain h ht rfl hlines
    rw [hok u hu] at hdrains
    cases hdrains
  have hcount : (Tasks.others s.tasks i).countP Task.drains = 0 :=
    List.countP_eq_zero.2 fun u hu => by simp [hok u hu]
  refine ⟨fun p hp => ?_, fun p hp => .inl hp, fun u hu hdrains _ => ?_, ?_, fun hlines => ?_,
    fun _ => ⟨.read, .inl (List.mem_singleton.2 rfl), rfl⟩, ?_⟩
  · rcases hp with hp | hp | hp | hp
    · exact .inl hp
    · exact .inr (.inl hp)
    · refine .inr (.inr (.inr ?_))
      rwa [hpending] at hp
    · rw [hempty] at hp
      cases hp
  · rw [hok u hu] at hdrains
    cases hdrains
  · simp [Task.Consistent]
  · simp at hlines
  · rw [hcount]
    exact Nat.le_refl 1

/-- A quarantine file with a fresh stamp leaves the others. -/
lemma mem_failedLines_setFailed {d : Disk} {stamp : ℕ} {lines : List Save} {p : Save}
    (h : p ∈ d.failedLines) (hstamp : ∀ q ∈ d.failed, q.1 = stamp → q.2 = []) :
    p ∈ (d.setFailed stamp lines).failedLines := by
  obtain ⟨q, hq, hp⟩ := List.mem_flatMap.1 h
  have hne : q.1 ≠ stamp := by
    intro heq
    rw [hstamp q hq heq] at hp
    cases hp
  refine List.mem_flatMap.2 ⟨q, List.mem_append_left _ (List.mem_filter.2 ⟨hq, ?_⟩), hp⟩
  simpa using hne

lemma failed_setFailed {d : Disk} {stamp : ℕ} {lines : List Save} {q : ℕ × List Save}
    (hq : q ∈ (d.setFailed stamp lines).failed) (hstamp : q.1 = stamp) : q.2 = lines := by
  rcases List.mem_append.1 hq with hq | hq
  · have hne := (List.mem_filter.1 hq).2
    simp [hstamp] at hne
  · rw [List.mem_singleton.1 hq]

/-- A drain in its last part: no other task looks at `.processing`. -/
lemma keeps_of_drains (h : s.Kept) (ht : s.tasks[i]? = some t) (hdrains : t.drains = true)
    (hnot : t.claims = false) (hpend : s'.disk.pending = s.disk.pending)
    (hanswered : s'.answered = s.answered) (hholds : ∀ p, s.Holds p → s'.Holds p)
    (hgoesOn : ∀ u ∈ ts, u.Consistent s')
    (hproc : linesOf s'.disk.processing ≠ [] → ∃ u ∈ ts, u.drains = true)
    (hone : ts.countP Task.drains ≤ 1) : Keeps s s' i ts := by
  have hothers := others_idle h ht hdrains
  have hcount : (Tasks.others s.tasks i).countP Task.drains = 0 :=
    List.countP_eq_zero.2 fun u hu => by simp [hothers u hu]
  refine ⟨hholds, fun p hp => .inl (by rwa [← hanswered]), fun u hu hd _ => ?_, hgoesOn,
    fun hlines => ?_, fun hlines => ?_, by omega⟩
  · rw [hothers u hu] at hd
    cases hd
  · rw [hpend] at hlines
    obtain ⟨u, hu, hclaims⟩ := others_claim h ht hnot hlines
    exact ⟨u, .inr hu, hclaims⟩
  · obtain ⟨u, hu, hd⟩ := hproc hlines
    exact ⟨u, .inl hu, hd⟩

lemma keeps_quarantine {failed : List Save} (h : s.Kept)
    (ht : s.tasks[i]? = some (.quarantine failed)) (hok : ∀ q ∈ s.disk.failed, q.1 ≠ s.stamp) :
    Keeps s { s with disk := s.disk.setFailed s.stamp [] } i [.quarantineWrite s.stamp failed] := by
  have hcons : Task.Consistent s (.quarantine failed) :=
    h.tasks _ ((Tasks.mem_iff ht).2 (.inl rfl))
  refine keeps_of_drains h ht rfl rfl rfl rfl (fun p hp => ?_) (fun u hu => ?_)
    (fun _ => ⟨_, List.mem_singleton.2 rfl, rfl⟩) (Nat.le_refl 1)
  · rcases hp with hp | hp | hp
    · exact .inl hp
    · exact .inr (.inl (mem_failedLines_setFailed hp fun q hq heq => absurd heq (hok q hq)))
    · exact .inr (.inr hp)
  · obtain rfl := List.mem_singleton.1 hu
    exact ⟨hcons, fun q hq heq => failed_setFailed hq heq⟩

lemma keeps_quarantineWrite {stamp : ℕ} {failed : List Save} (h : s.Kept)
    (ht : s.tasks[i]? = some (.quarantineWrite stamp failed)) :
    Keeps s { s with disk := s.disk.setFailed stamp failed } i [.remove] := by
  have hcons : Task.Consistent s (.quarantineWrite stamp failed) :=
    h.tasks _ ((Tasks.mem_iff ht).2 (.inl rfl))
  refine keeps_of_drains h ht rfl rfl rfl rfl (fun p hp => ?_) (fun u hu => ?_)
    (fun _ => ⟨_, List.mem_singleton.2 rfl, rfl⟩) (Nat.le_refl 1)
  · rcases hp with hp | hp | hp
    · exact .inl hp
    · exact .inr (.inl (mem_failedLines_setFailed hp hcons.2))
    · exact .inr (.inr hp)
  · obtain rfl := List.mem_singleton.1 hu
    intro p hp
    rcases hcons.1 p hp with hpalace | hfailed
    · exact .inl hpalace
    · refine .inr (List.mem_flatMap.2 ⟨(stamp, failed), ?_, hfailed⟩)
      exact List.mem_append_right _ (List.mem_singleton.2 rfl)

/-- The removal, when everything in `.processing` was replayed or quarantined. -/
lemma keeps_remove (h : s.Kept) (ht : s.tasks[i]? = some .remove) :
    Keeps s { s with disk := { s.disk with processing := none } } i [.drainMines] := by
  have hcons : Task.Consistent s .remove := h.tasks _ ((Tasks.mem_iff ht).2 (.inl rfl))
  refine keeps_of_drains h ht rfl rfl rfl rfl (fun p hp => ?_) (fun u hu => ?_)
    (fun hlines => by simp at hlines) (Nat.zero_le 1)
  · rcases hp with hp | hp | hp | hp
    · exact .inl hp
    · exact .inr (.inl hp)
    · exact .inr (.inr (.inl hp))
    · exact (hcons p hp).imp_right .inl
  · obtain rfl := List.mem_singleton.1 hu
    trivial

/-! ### Every turn -/

lemma keeps_turn {c : Turn} (h : s.Kept) (ht : s.tasks[i]? = some t)
    (hok : Careful s (.turn i c)) (hturn : s.turn t c = some (s', ts)) : Keeps s s' i ts := by
  have hcons : t.Consistent s := h.tasks t ((Tasks.mem_iff ht).2 (.inl rfl))
  simp only [Careful, ht] at hok
  unfold Queue.turn at hturn
  split at hturn
  · -- the test of the flag
    rename_i p
    split_ifs at hturn <;> obtain ⟨rfl, rfl⟩ : s = s' ∧ _ = ts := by simpa using hturn
    all_goals
      refine keeps_of_lines_eq h ht rfl rfl rfl (fun _ hp => hp) (fun _ hp => .inl hp) ?_
        (fun hc => by cases hc) (fun hd => by cases hd) (Nat.le_refl 0)
      simp [Task.Consistent]
  · -- a save that is written at once
    rename_i p ok
    obtain ⟨rfl, rfl⟩ : _ = s' ∧ [] = ts := by simpa using hturn
    refine keeps_of_lines_eq h ht ?_ ?_ ?_ (fun q hq => ?_) (fun q hq => .inl ?_) ?_
      (fun hc => by cases hc) (fun hd => by cases hd) (Nat.le_refl 0)
    · split <;> rfl
    · split <;> rfl
    · split <;> rfl
    · split
      · exact List.mem_append_left _ hq
      · exact hq
    · split at hq <;> exact hq
    · simp
  · obtain ⟨rfl, rfl⟩ : _ = s' ∧ _ = ts := by simpa using hturn
    exact keeps_openPending h ht
  · obtain ⟨rfl, rfl⟩ : _ = s' ∧ _ = ts := by simpa using hturn
    exact keeps_append h ht hok
  · -- the answer: the save is where the append left it
    rename_i p
    obtain ⟨rfl, rfl⟩ : _ = s' ∧ [] = ts := by simpa using hturn
    refine keeps_of_lines_eq h ht rfl rfl rfl (fun _ hp => hp) (fun q hq => ?_) (by simp)
      (fun hc => by cases hc) (fun hd => by cases hd) (Nat.le_refl 0)
    rcases List.mem_append.1 hq with hq | hq
    · exact .inl hq
    · rw [List.mem_singleton.1 hq]
      exact .inr hcons
  · -- the end of a repair
    rename_i mode ok
    obtain ⟨rfl, rfl⟩ : _ = s' ∧ _ = ts := by simpa using hturn
    refine keeps_of_lines_eq h ht rfl rfl rfl (fun _ hp => hp) (fun _ hp => .inl hp)
      (fun u hu => ?_) (fun hc hlines => ?_) (fun hd => by cases hd) ?_
    · split at hu
      · obtain rfl := List.mem_singleton.1 hu
        trivial
      · cases hu
    · have hmode : mode = .rebuild := by cases mode <;> first | rfl | cases hc
      subst hmode
      cases ok with
      | true => exact ⟨.drain, .inl (by simp), rfl⟩
      | false =>
          rcases hok with hnone | ⟨u, hu, hclaims⟩
          · exact absurd hnone hlines
          · exact ⟨u, .inr hu, hclaims⟩
    · split <;> exact Nat.le_refl 0
  · -- the rename
    split at hturn
    · rename_i hpending
      obtain ⟨rfl, rfl⟩ : s = s' ∧ _ = ts := by simpa using hturn
      refine keeps_of_lines_eq h ht rfl rfl rfl (fun _ hp => hp) (fun _ hp => .inl hp)
        (by simp [Task.Consistent]) (fun _ hlines => ?_) (fun hd => by cases hd) (Nat.le_refl 0)
      simp [hpending] at hlines
    · rename_i f hpending
      obtain ⟨rfl, rfl⟩ : _ = s' ∧ _ = ts := by simpa using hturn
      refine keeps_claim h ht hpending (hok.resolve_left ?_)
      simp [hpending]
  · -- the read
    split at hturn
    · rename_i hproc
      obtain ⟨rfl, rfl⟩ : s = s' ∧ _ = ts := by simpa using hturn
      refine keeps_of_drains h ht rfl rfl rfl rfl (fun _ hp => hp) (by simp [Task.Consistent])
        (fun hlines => ?_) (Nat.zero_le 1)
      simp [hproc] at hlines
    · rename_i f hproc
      obtain ⟨rfl, rfl⟩ : s = s' ∧ _ = ts := by simpa using hturn
      refine keeps_of_drains h ht rfl rfl rfl rfl (fun _ hp => hp) (fun u hu => ?_)
        (fun _ => ⟨_, List.mem_singleton.2 rfl, rfl⟩) (Nat.le_refl 1)
      obtain rfl := List.mem_singleton.1 hu
      intro p hp
      rw [hproc] at hp
      exact .inr (.inr hp)
  · -- a replay
    rename_i p todo failed ok
    split_ifs at hturn with hsuccess <;> obtain ⟨rfl, rfl⟩ : _ = s' ∧ _ = ts := by
      simpa using hturn
    all_goals
      refine keeps_of_drains h ht rfl rfl rfl rfl (fun q hq => ?_) (fun u hu => ?_)
        (fun _ => ⟨_, List.mem_singleton.2 rfl, rfl⟩) (Nat.le_refl 1)
    · exact hq.imp_left (List.mem_append_left _)
    · obtain rfl := List.mem_singleton.1 hu
      intro q hq
      have hwhere := hcons q hq
      simp only [List.mem_cons, List.mem_append, List.mem_nil_iff, or_false] at hwhere ⊢
      tauto
    · exact hq
    · obtain rfl := List.mem_singleton.1 hu
      intro q hq
      have hwhere := hcons q hq
      simp only [List.mem_cons, List.mem_append, List.mem_nil_iff, or_false] at hwhere ⊢
      tauto
  · -- everything was replayed
    rename_i failed
    obtain ⟨rfl, rfl⟩ : s = s' ∧ _ = ts := by simpa using hturn
    refine keeps_of_drains h ht rfl rfl rfl rfl (fun _ hp => hp) (fun u hu => ?_) (fun _ => ?_) ?_
    · split at hu
      · rename_i hnil
        obtain rfl := List.mem_singleton.1 hu
        intro p hp
        have hwhere := hcons p hp
        simp only [hnil, List.mem_nil_iff, or_false] at hwhere
        exact .inl hwhere
      · obtain rfl := List.mem_singleton.1 hu
        intro p hp
        have hwhere := hcons p hp
        simpa using hwhere
    · split <;> exact ⟨_, List.mem_singleton.2 rfl, rfl⟩
    · split <;> exact Nat.le_refl 1
  · obtain ⟨rfl, rfl⟩ : _ = s' ∧ _ = ts := by simpa using hturn
    exact keeps_quarantine h ht hok
  · obtain ⟨rfl, rfl⟩ : _ = s' ∧ _ = ts := by simpa using hturn
    exact keeps_quarantineWrite h ht
  · obtain ⟨rfl, rfl⟩ : _ = s' ∧ _ = ts := by simpa using hturn
    exact keeps_remove h ht
  · obtain ⟨rfl, rfl⟩ : s = s' ∧ [] = ts := by simpa using hturn
    exact keeps_of_lines_eq h ht rfl rfl rfl (fun _ hp => hp) (fun _ hp => .inl hp) (by simp)
      (fun hc => by cases hc) (fun hd => by cases hd) (Nat.le_refl 0)
  · simp at hturn

end turns

/-! ### Runs -/

/-- A coroutine that starts knows nothing of the queue. -/
lemma kept_arrival {s : Queue} {t : Task} {r : Option RepairMode} {n : ℕ} (h : s.Kept)
    (hdrains : t.drains = false) (hcons : t.Consistent s) :
    Queue.Kept { s with repairing := r, requests := n, tasks := s.tasks ++ [t] } := by
  refine ⟨h.answered, fun u hu => ?_, fun hlines => ?_, fun hlines => ?_, ?_⟩
  · have hconsistent : u.Consistent s := by
      rcases List.mem_append.1 hu with hu | hu
      · exact h.tasks u hu
      · rwa [List.mem_singleton.1 hu]
    cases u <;> exact hconsistent
  · obtain ⟨u, hu, hclaims⟩ := h.pending hlines
    exact ⟨u, List.mem_append_left _ hu, hclaims⟩
  · obtain ⟨u, hu, hd⟩ := h.processing hlines
    exact ⟨u, List.mem_append_left _ hu, hd⟩
  · show (s.tasks ++ [t]).countP Task.drains ≤ 1
    rw [List.countP_append, List.countP_singleton, hdrains]
    exact h.one

lemma kept_next {s s' : Queue} {ev : Event} (h : s.Kept) (hok : Careful s ev)
    (hnext : queueSystem.next s ev = some s') : s'.Kept := by
  cases ev with
  | post payload =>
      obtain rfl := Option.some.inj hnext
      exact kept_arrival h rfl trivial
  | repair mode =>
      simp only [queueSystem] at hnext
      split_ifs at hnext
      obtain rfl := Option.some.inj hnext
      exact kept_arrival h rfl trivial
  | tick =>
      obtain rfl := Option.some.inj hnext
      refine ⟨h.answered, fun u hu => ?_, h.pending, h.processing, h.one⟩
      have hcons := h.tasks u hu
      cases u <;> exact hcons
  | restart =>
      obtain ⟨hpending, hproc⟩ := hok
      obtain rfl := Option.some.inj hnext
      exact ⟨h.answered, fun u hu => absurd hu List.not_mem_nil,
        fun hlines => absurd hpending hlines,
        fun hlines => absurd hproc hlines, Nat.zero_le 1⟩
  | turn i c =>
      simp only [queueSystem] at hnext
      cases ht : s.tasks[i]? with
      | none => simp [ht] at hnext
      | some t =>
          rw [ht] at hnext
          obtain ⟨⟨s₁, ts⟩, hturn, rfl⟩ := Option.map_eq_some_iff.1 hnext
          exact kept_of_keeps h ht (keeps_turn h ht hok hturn)

/-- Every save that was answered with `queued: true` is in one of its places, and when nothing
is in progress the queue is empty. -/
def Queue.Safe (s : Queue) : Prop :=
  (∀ p ∈ s.answered, s.Holds p) ∧
    (s.tasks = [] → linesOf s.disk.pending = [] ∧ linesOf s.disk.processing = [])

/-- **No lost save.**  In a careful run every queued save is kept, and no save is left in the
queue when nothing is in progress. -/
theorem saves_kept {s : Queue} (h : queueSystem.ReachedBy Careful s) : s.Safe := by
  have hkept : s.Kept := by
    refine h.invariant (fun s hs => ?_) fun _ _ _ hs hok => kept_next hs hok
    obtain ⟨hpending, hproc, -, hanswered, -, htasks⟩ := hs
    refine ⟨fun p hp => ?_, fun t ht => ?_, fun hlines => ?_, fun hlines => ?_, ?_⟩
    · simp [hanswered] at hp
    · simp [htasks] at ht
    · simp [hpending] at hlines
    · simp [hproc] at hlines
    · simp [htasks]
  refine ⟨hkept.answered, fun htasks => ⟨?_, ?_⟩⟩
  · by_contra hlines
    obtain ⟨t, ht, -⟩ := hkept.pending hlines
    simp [htasks] at ht
  · by_contra hlines
    obtain ⟨t, ht, -⟩ := hkept.processing hlines
    simp [htasks] at ht

/-! ### A run of each kind -/

/-- The daemon at its first start. -/
def started : Queue where
  disk := ⟨none, none, [], 0⟩
  stamp := 0
  repairing := none
  palace := []
  answered := []
  requests := 0
  tasks := []

lemma started_init : queueSystem.init started := ⟨rfl, rfl, rfl, rfl, rfl, rfl⟩

/-- A save is queued during a rebuild, and the rebuild succeeds and claims the queue. -/
def queuedAndClaimed (payload : String) : List Event :=
  [.repair .rebuild, .post payload, .turn 1 .run, .turn 1 .run, .turn 1 .run, .turn 1 .run,
    .turn 0 (.ends true), .turn 0 .run]

/-- The claimed save is in `.processing`. -/
theorem saves_kept_claimed : ∃ s : Queue, s.answered = [⟨0, "checkpoint"⟩] ∧ s.Safe := by
  obtain ⟨s, hs, hend⟩ := queueSystem.exists_of_exec_any started (queuedAndClaimed "checkpoint")
    (fun s => decide (s.answered = [⟨0, "checkpoint"⟩])) (by decide)
  have hmeets : queueSystem.Meets Careful started (queuedAndClaimed "checkpoint") := by
    refine StepSystem.meets_cons.2 ⟨trivial, fun s₁ h₁ => ?_⟩
    obtain rfl := Option.some.inj h₁
    refine StepSystem.meets_cons.2 ⟨trivial, fun s₂ h₂ => ?_⟩
    obtain rfl := Option.some.inj h₂
    refine StepSystem.meets_cons.2 ⟨trivial, fun s₃ h₃ => ?_⟩
    obtain rfl := Option.some.inj h₃
    refine StepSystem.meets_cons.2 ⟨trivial, fun s₄ h₄ => ?_⟩
    obtain rfl := Option.some.inj h₄
    refine StepSystem.meets_cons.2 ⟨.inl ⟨rfl, .repair .rebuild, ?_, rfl⟩, fun s₅ h₅ => ?_⟩
    · exact List.mem_cons_self
    obtain rfl := Option.some.inj h₅
    refine StepSystem.meets_cons.2 ⟨trivial, fun s₆ h₆ => ?_⟩
    obtain rfl := Option.some.inj h₆
    refine StepSystem.meets_cons.2 ⟨trivial, fun s₇ h₇ => ?_⟩
    obtain rfl := Option.some.inj h₇
    exact StepSystem.meets_cons.2 ⟨.inr fun t ht => absurd ht List.not_mem_nil,
      fun _ _ => trivial⟩
  exact ⟨s, of_decide_eq_true hend, saves_kept (.exec (.init started_init) hmeets hs)⟩

/-- A restart after the rename leaves `.processing` to nobody, and the rename of the next drain
replaces it: the first save is lost. -/
theorem saves_kept_fails : ¬ ∀ s : Queue, queueSystem.Reachable s → s.Safe := by
  intro hsafe
  obtain ⟨s, hs, hend⟩ := queueSystem.exists_of_exec_any started
    (queuedAndClaimed "first" ++ [.restart] ++ queuedAndClaimed "second")
    (fun s => decide (⟨0, "first"⟩ ∈ s.answered ∧ s.palace = [] ∧ s.disk.failedLines = [] ∧
      s.disk.pending = none ∧ linesOf s.disk.processing = [⟨1, "second"⟩])) (by decide)
  obtain ⟨hanswered, hpalace, hfailed, hpending, hproc⟩ := of_decide_eq_true hend
  have hholds := (hsafe s (.exec (.init started_init) hs)).1 _ hanswered
  simp [Queue.Holds, hpalace, hfailed, hpending, hproc] at hholds

end PalaceDaemon.Writes

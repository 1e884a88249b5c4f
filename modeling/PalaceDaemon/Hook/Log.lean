/-
The log file of the hooks.

`_log` appends a line to `hook.log`.  Before, `_rotate_log_if_needed` looks at the size of the file,
and when there are 10 MiB it drops `hook.log.3`, renames `hook.log.2` and `hook.log.1`, and then
`hook.log`.  Nothing keeps the hooks of two sessions from doing this at the same time, and a step of
`logSystem` is one of these operations.

A file is known by its inode: a hook that has opened `hook.log` goes on writing to this file when
another one renames it, or drops it.  Where no two rotations overlap and no operation fails, every
line that was written is still there, or three full files are (`log_kept`).  Two rotations that
overlap can leave less.

The names are those of a POSIX file system, where a rename replaces the file that has the new name.
The directory of the files, their permissions and the time stamp of a line are left out.
-/
import Mathlib
import PalaceDaemon.Lib.StepSystem
import PalaceDaemon.Lib.Threads

namespace PalaceDaemon.Hook

/-- `_LOG_MAX_BYTES` -/
def logMaxBytes : ℕ := 10 * 1024 * 1024

/-- `_LOG_KEEP` -/
def logKeep : ℕ := 3

/-- A line as it is written. -/
structure LogLine where
  message : ℕ
  bytes : ℕ
deriving DecidableEq

/-! ### The files -/

/-- The name `0` is `hook.log`, and `k` is `hook.log.k`.  The source does not keep `written`. -/
structure Disk where
  names : ℕ → Option ℕ
  content : ℕ → List LogLine
  next : ℕ
  written : List LogLine

/-- `st_size` of a file -/
def Disk.size (d : Disk) (n : ℕ) : ℕ := ((d.content n).map LogLine.bytes).sum

/-- `oldest.unlink()` -/
def Disk.unlink (d : Disk) (k : ℕ) : Disk := { d with names := Function.update d.names k none }

/-- `src.rename(dst)`, if there is such a file -/
def Disk.rename (d : Disk) (src dst : ℕ) : Disk :=
  match d.names src with
  | none => d
  | some n =>
      { d with names := Function.update (Function.update d.names src none) dst (some n) }

/-- The inode of `open(log_path, "a")`, and the disk after it. -/
def Disk.openLog (d : Disk) : ℕ × Disk :=
  match d.names 0 with
  | some n => (n, d)
  | none => (d.next, { d with
      names := Function.update d.names 0 (some d.next), next := d.next + 1 })

/-- `f.write`, and what closes the file -/
def Disk.append (d : Disk) (n : ℕ) (line : LogLine) : Disk :=
  { d with
    content := Function.update d.content n (d.content n ++ [line])
    written := line :: d.written }

/-- `_rotate_log_if_needed` goes on. -/
def Disk.logFull (d : Disk) : Bool :=
  match d.names 0 with
  | none => false
  | some n => decide (logMaxBytes ≤ d.size n)

/-! ### The hooks -/

/-- Where a hook is in `_log`. -/
inductive LogStage
  | idle
  /-- It drops `hook.log.3`. -/
  | drop
  /-- It gives the file with the name `k` the next one. -/
  | shift (k : ℕ)
  | opening
  /-- It has opened the file. -/
  | writing (inode : ℕ)
deriving DecidableEq

/-- What comes after the rename of `k`. -/
def LogStage.afterShift : ℕ → LogStage
  | 0 => .opening
  | k + 1 => .shift k

abbrev LogState := Threads Disk LogStage

/-- An operation of a hook.  What is not `ok` raises an `OSError`, or `exists` has said before that
there is no such file. -/
inductive LogLabel
  | check (i : ℕ) (ok : Bool)
  | drop (i : ℕ) (ok : Bool)
  | shift (i : ℕ) (ok : Bool)
  | opens (i : ℕ) (ok : Bool)
  | write (i : ℕ) (line : LogLine) (ok : Bool)

/-- A step of `_log`; the loop of the rotation and the rename after it are the same step. -/
def LogState.next (s : LogState) : LogLabel → Option LogState
  | .check i ok =>
      if s.own i = .idle then
        some (s.move i s.shared (if ok && s.shared.logFull then .drop else .opening))
      else none
  | .drop i ok =>
      if s.own i = .drop then
        some (s.move i (if ok then s.shared.unlink logKeep else s.shared) (.shift (logKeep - 1)))
      else none
  | .shift i ok => match s.own i with
      | .shift k => some (s.move i (if ok then s.shared.rename k (k + 1) else s.shared)
          (.afterShift k))
      | _ => none
  | .opens i ok =>
      if s.own i = .opening then
        some (if ok then s.move i s.shared.openLog.2 (.writing s.shared.openLog.1)
          else s.move i s.shared .idle)
      else none
  | .write i line ok => match s.own i with
      | .writing n => some (s.move i (if ok then s.shared.append n line else s.shared) .idle)
      | _ => none

/-- There is no log at first. -/
def logSystem : StepSystem LogState LogLabel where
  init s := (s.shared = ⟨fun _ => none, fun _ => [], 0, []⟩) ∧ ∀ i, s.own i = .idle
  next := LogState.next

/-- A rotation is under way. -/
def LogStage.Rotating (stage : LogStage) : Prop := stage = .drop ∨ ∃ k, stage = .shift k

/-- No rotation begins during another one, and no operation of a rotation fails. -/
def RotatesAlone (s : LogState) : LogLabel → Prop
  | .check _ ok => ok = true → s.shared.logFull = true → ∀ j, ¬(s.own j).Rotating
  | .drop _ ok => ok = true
  | .shift _ ok => ok = true
  | _ => True

/-! ### The names -/

/-- What the names are, with a hole at `h` if this is not `0`. -/
structure Shape (d : Disk) (h : ℕ) : Prop where
  old : ∀ k n, d.names k = some n → n < d.next
  distinct : ∀ j k n, d.names j = some n → d.names k = some n → j = k
  within : ∀ k, logKeep < k → d.names k = none
  full : ∀ k n, 0 < k → d.names k = some n → logMaxBytes ≤ d.size n
  hole : 0 < h → d.names h = none
  closed : ∀ a b, 0 < a → a < b → a ≠ h → d.names a = none → d.names b = none
  lost : ∀ n < d.next, (∀ k, d.names k ≠ some n) →
    ∀ a, 0 < a → a ≤ logKeep → a ≠ h → d.names a ≠ none

lemma logKeep_pos : 0 < logKeep := by decide

lemma Disk.unlink_names (d : Disk) (k j : ℕ) :
    (d.unlink k).names j = if j = k then none else d.names j := by
  simp only [Disk.unlink, Function.update_apply]

/-- A rename to a name that is free. -/
lemma Disk.rename_names {d : Disk} {src dst : ℕ} (hfree : d.names dst = none) (j : ℕ) :
    (d.rename src dst).names j =
      if j = dst then d.names src else if j = src then none else d.names j := by
  rw [Disk.rename]
  rcases hsrc : d.names src with _ | n
  · split_ifs with hdst hsrc'
    · rw [hdst, hfree]
    · rw [hsrc', hsrc]
    · rfl
  · simp only [Function.update_apply]

lemma Disk.rename_next (d : Disk) (src dst : ℕ) : (d.rename src dst).next = d.next := by
  rw [Disk.rename]
  split <;> rfl

lemma Disk.rename_content (d : Disk) (src dst : ℕ) : (d.rename src dst).content = d.content := by
  rw [Disk.rename]
  split <;> rfl

lemma Disk.rename_written (d : Disk) (src dst : ℕ) : (d.rename src dst).written = d.written := by
  rw [Disk.rename]
  split <;> rfl

namespace Shape

variable {d : Disk} {h : ℕ}

/-- The oldest file goes. -/
lemma unlink (hd : Shape d 0) : Shape (d.unlink logKeep) logKeep := by
  have hnames := d.unlink_names logKeep
  refine ⟨fun k n hk => ?_, fun j k n hj hk => ?_, fun k hk => ?_, fun k n hpos hk => ?_,
    fun _ => ?_, fun a b ha hab hne hnone => ?_, fun n hn hno a ha hle hne => ?_⟩
  · rw [hnames] at hk
    split_ifs at hk
    exact hd.old k n hk
  · rw [hnames] at hj hk
    split_ifs at hj hk
    exact hd.distinct j k n hj hk
  · rw [hnames, if_neg hk.ne']
    exact hd.within k hk
  · rw [hnames] at hk
    split_ifs at hk
    exact hd.full k n hpos hk
  · rw [hnames, if_pos rfl]
  · rw [hnames, if_neg hne] at hnone
    rw [hnames]
    split_ifs
    · rfl
    · exact hd.closed a b ha hab ha.ne' hnone
  · rw [hnames, if_neg hne]
    rcases hkept : d.names logKeep with _ | m
    · -- nothing was dropped
      have hstill : ∀ k, d.names k ≠ some n := fun k hk => hno k (by
        rw [hnames, if_neg fun heq => ?_, hk]
        rw [heq, hkept] at hk
        cases hk)
      exact absurd hkept (hd.lost n hn hstill logKeep logKeep_pos le_rfl logKeep_pos.ne')
    · rintro hnone
      have hgone := hd.closed a logKeep ha (lt_of_le_of_ne hle hne) ha.ne' hnone
      rw [hkept] at hgone
      cases hgone

/-- A file goes into the hole, and leaves one. -/
lemma rename {k : ℕ} (hd : Shape d (k + 1)) (hk : k < logKeep) (hfull : d.logFull = true) :
    Shape (d.rename k (k + 1)) k := by
  have hnames : ∀ j, (d.rename k (k + 1)).names j =
      if j = k + 1 then d.names k else if j = k then none else d.names j :=
    Disk.rename_names (hd.hole k.succ_pos)
  have hsize : (d.rename k (k + 1)).size = d.size := by
    funext n
    rw [Disk.size, Disk.rename_content, Disk.size]
  obtain ⟨log, hlog, hbytes⟩ : ∃ n, d.names 0 = some n ∧ logMaxBytes ≤ d.size n := by
    rw [Disk.logFull] at hfull
    split at hfull
    · cases hfull
    · rename_i n hn
      exact ⟨n, hn, of_decide_eq_true hfull⟩
  refine ⟨fun j n hj => ?_, fun i j n hi hj => ?_, fun j hj => ?_, fun j n hpos hj => ?_,
    fun _ => ?_, fun a b ha hab _ hnone => ?_, fun n hn hno a ha hle hne => ?_⟩
  · rw [Disk.rename_next]
    rw [hnames] at hj
    split_ifs at hj
    · exact hd.old k n hj
    · exact hd.old j n hj
  · rw [hnames] at hi hj
    split_ifs at hi hj with h1 h2 h3 h4 h5
    · rw [h1, h2]
    · exact absurd (hd.distinct k j n hi hj).symm h3
    · exact absurd (hd.distinct i k n hi hj) h4
    · exact hd.distinct i j n hi hj
  · rw [hnames, if_neg (by omega), if_neg (by omega)]
    exact hd.within j hj
  · rw [hsize]
    rw [hnames] at hj
    split_ifs at hj
    · rcases Nat.eq_zero_or_pos k with hzero | hk0
      · rw [hzero, hlog] at hj
        obtain rfl := Option.some.inj hj
        exact hbytes
      · exact hd.full k n hk0 hj
    · exact hd.full j n hpos hj
  · rw [hnames, if_neg k.succ_ne_self.symm, if_pos rfl]
  · rw [hnames] at hnone ⊢
    split_ifs at hnone with ha1
    · -- the file that is missing is the one that would have been renamed
      have hk0 : 0 < k := Nat.pos_of_ne_zero fun hzero => by
        rw [hzero, hlog] at hnone
        cases hnone
      rw [if_neg (by omega), if_neg (by omega)]
      exact hd.closed k b hk0 (by omega) (by omega) hnone
    · have hb := fun b hab => hd.closed a b ha hab ha1 hnone
      split_ifs with hb1 hb2
      · exact hb k (by omega)
      · rfl
      · exact hb b hab
  · rw [Disk.rename_next] at hn
    have hstill : ∀ j, d.names j ≠ some n := fun j hj => by
      by_cases hjk : j = k
      · refine hno (k + 1) ?_
        rw [hnames, if_pos rfl, ← hjk, hj]
      · refine hno j ?_
        rw [hnames, if_neg, if_neg hjk, hj]
        rintro heq
        rw [heq, hd.hole k.succ_pos] at hj
        cases hj
    have hall := hd.lost n hn hstill
    rw [hnames]
    split_ifs with ha1
    · rcases Nat.eq_zero_or_pos k with hzero | hk0
      · rw [hzero, hlog]
        exact Option.some_ne_none log
      · exact hall k hk0 hk.le (by omega)
    · exact hall a ha hle ha1

/-- The log is opened. -/
lemma openLog (hd : Shape d h) : Shape d.openLog.2 h := by
  rw [Disk.openLog]
  rcases hlog : d.names 0 with _ | n
  swap
  · exact hd
  have hnames : ∀ j, Function.update d.names 0 (some d.next) j =
      if j = 0 then some d.next else d.names j := Function.update_apply _ _ _
  refine ⟨fun k n hk => ?_, fun j k n hj hk => ?_, fun k hk => ?_, fun k n hpos hk => ?_,
    fun hpos => ?_, fun a b ha hab hne hnone => ?_, fun n hn hno a ha hle hne => ?_⟩
  · simp only [hnames] at hk ⊢
    split_ifs at hk
    · cases hk
      exact Nat.lt_succ_self _
    · exact (hd.old k n hk).trans (Nat.lt_succ_self _)
  · simp only [hnames] at hj hk
    split_ifs at hj hk with h1 h2 h2
    · rw [h1, h2]
    · cases hj
      exact absurd (hd.old k _ hk) (lt_irrefl _)
    · cases hk
      exact absurd (hd.old j _ hj) (lt_irrefl _)
    · exact hd.distinct j k n hj hk
  · simp only [hnames]
    rw [if_neg (by omega)]
    exact hd.within k hk
  · simp only [hnames] at hk
    rw [if_neg hpos.ne'] at hk
    exact hd.full k n hpos hk
  · simp only [hnames]
    rw [if_neg hpos.ne']
    exact hd.hole hpos
  · simp only [hnames] at hnone ⊢
    rw [if_neg ha.ne'] at hnone
    rw [if_neg (by omega)]
    exact hd.closed a b ha hab hne hnone
  · simp only [hnames] at hno ⊢
    rw [if_neg ha.ne']
    have hne0 := hno 0
    rw [if_pos rfl] at hne0
    refine hd.lost n ?_ (fun k hk => hno k ?_) a ha hle hne
    · exact lt_of_le_of_ne (Nat.lt_succ_iff.1 hn) fun heq => hne0 (by rw [heq])
    · rw [if_neg, hk]
      rintro rfl
      rw [hlog] at hk
      cases hk

end Shape

lemma Disk.size_append (d : Disk) (n m : ℕ) (line : LogLine) :
    d.size m ≤ (d.append n line).size m := by
  simp only [Disk.size, Disk.append]
  by_cases hm : m = n
  · subst hm
    rw [Function.update_self, List.map_append, List.sum_append]
    exact Nat.le_add_right _ _
  · rw [Function.update_of_ne hm]

/-- A line more. -/
lemma Shape.append {d : Disk} {h : ℕ} (hd : Shape d h) (n : ℕ) (line : LogLine) :
    Shape (d.append n line) h :=
  ⟨hd.old, hd.distinct, hd.within,
    fun k m hpos hk => (hd.full k m hpos hk).trans (d.size_append n m line), hd.hole, hd.closed,
    hd.lost⟩

/-! ### The run -/

/-- What holds of each hook. -/
structure Logs (d : Disk) (h : ℕ) (stage : LogStage) : Prop where
  drop : stage = .drop → h = 0 ∧ d.logFull = true
  shift : ∀ k, stage = .shift k → h = k + 1 ∧ k < logKeep ∧ d.logFull = true
  writing : ∀ n, stage = .writing n → n < d.next

/-- What holds in every run, with the hole. -/
structure LogInvAt (s : LogState) (h : ℕ) : Prop where
  shape : Shape s.shared h
  logs : ∀ i, Logs s.shared h (s.own i)
  alone : ∀ i j, (s.own i).Rotating → (s.own j).Rotating → i = j
  rotates : 0 < h → ∃ i, (s.own i).Rotating
  kept : ∀ line ∈ s.shared.written, ∃ n < s.shared.next, line ∈ s.shared.content n

/-- There is a hole, or none. -/
def LogInv (s : LogState) : Prop := ∃ h, LogInvAt s h

variable {s : LogState} {d : Disk} {h i : ℕ} {stage : LogStage}

/-- A hook that rotates nothing has no more than its file. -/
lemma Logs.of_not_rotating (hstage : ¬stage.Rotating)
    (hwriting : ∀ n, stage = .writing n → n < d.next) : Logs d h stage :=
  ⟨fun hdrop => absurd (.inl hdrop) hstage, fun k hshift => absurd (.inr ⟨k, hshift⟩) hstage,
    hwriting⟩

/-- The log is full during a rotation. -/
lemma Logs.logFull (hlogs : Logs d h stage) (hstage : stage.Rotating) : d.logFull = true := by
  rcases hstage with hdrop | ⟨k, hshift⟩
  · exact (hlogs.drop hdrop).2
  · exact (hlogs.shift k hshift).2.2

/-- What a step that is none of a rotation leaves. -/
lemma Logs.mono {d' : Disk} (hlogs : Logs d h stage) (hnext : d.next ≤ d'.next)
    (hfull : d.logFull = true → d'.logFull = true) : Logs d' h stage := by
  refine ⟨fun hdrop => ?_, fun k hshift => ?_, fun n hn => (hlogs.writing n hn).trans_le hnext⟩
  · exact (hlogs.drop hdrop).imp_right hfull
  · obtain ⟨hh, hk, hold⟩ := hlogs.shift k hshift
    exact ⟨hh, hk, hfull hold⟩

/-- A hook that rotates nothing, before and after. -/
lemma LogInvAt.move (hinv : LogInvAt s h) (hidle : ¬(s.own i).Rotating)
    (hshape : Shape d h) (hnext : s.shared.next ≤ d.next)
    (hfull : s.shared.logFull = true → d.logFull = true) (hstage : ¬stage.Rotating)
    (hwriting : ∀ n, stage = .writing n → n < d.next)
    (hkept : ∀ line ∈ d.written, ∃ n < d.next, line ∈ d.content n) :
    LogInvAt (s.move i d stage) h := by
  have hothers : ∀ j, ((s.move i d stage).own j).Rotating → (s.own j).Rotating := fun j hj => by
    by_cases hji : j = i
    · subst hji
      rw [Threads.own_move_self] at hj
      exact absurd hj hstage
    · rwa [Threads.own_move_of_ne hji] at hj
  refine ⟨hshape, ?_, fun j k hj hk => hinv.alone j k (hothers j hj) (hothers k hk),
    fun hpos => ?_, hkept⟩
  · exact Threads.forall_move (P := fun d _ stage => Logs d h stage) hinv.logs
      (.of_not_rotating hstage hwriting) fun j _ hlogs => hlogs.mono hnext hfull
  · obtain ⟨j, hj⟩ := hinv.rotates hpos
    have hji : j ≠ i := fun heq => hidle (by rwa [heq] at hj)
    exact ⟨j, by rwa [Threads.own_move_of_ne hji]⟩

/-- The hook that rotates, or begins to; the hole moves. -/
lemma LogInvAt.rotate (hinv : LogInvAt s h) {h' : ℕ}
    (hothers : ∀ j, j ≠ i → ¬(s.own j).Rotating) (hshape : Shape d h')
    (hnext : d.next = s.shared.next) (hlogs : Logs d h' stage) (hpos : 0 < h' → stage.Rotating)
    (hcontent : d.content = s.shared.content) (hwritten : d.written = s.shared.written) :
    LogInvAt (s.move i d stage) h' := by
  have hself : ∀ j, ((s.move i d stage).own j).Rotating → j = i := fun j hj => by
    by_contra hji
    rw [Threads.own_move_of_ne hji] at hj
    exact hothers j hji hj
  refine ⟨hshape, ?_, fun j k hj hk => (hself j hj).trans (hself k hk).symm, fun h0 => ?_, ?_⟩
  · intro j
    by_cases hji : j = i
    · subst hji
      rwa [Threads.own_move_self]
    · rw [Threads.own_move_of_ne hji]
      exact .of_not_rotating (hothers j hji) fun n hn =>
        ((hinv.logs j).writing n hn).trans_eq hnext.symm
  · refine ⟨i, ?_⟩
    rw [Threads.own_move_self]
    exact hpos h0
  · rw [Threads.shared_move, hwritten, hnext, hcontent]
    exact hinv.kept

lemma logFull_iff (d : Disk) :
    d.logFull = true ↔ ∃ n, d.names 0 = some n ∧ logMaxBytes ≤ d.size n := by
  rw [Disk.logFull]
  rcases d.names 0 with _ | n <;> simp

/-- A full log stays full until it is renamed. -/
lemma Disk.logFull_append (n : ℕ) (line : LogLine) (hfull : d.logFull = true) :
    (d.append n line).logFull = true := by
  obtain ⟨m, hm, hsize⟩ := (logFull_iff d).1 hfull
  exact (logFull_iff _).2 ⟨m, hm, hsize.trans (d.size_append n m line)⟩

lemma Disk.openLog_of_logFull (hfull : d.logFull = true) : d.openLog.2 = d := by
  obtain ⟨n, hn, -⟩ := (logFull_iff d).1 hfull
  rw [Disk.openLog, hn]

lemma Disk.next_openLog (d : Disk) : d.next ≤ d.openLog.2.next := by
  rw [Disk.openLog]
  split
  · exact le_rfl
  · exact Nat.le_succ _

/-- The file that is opened is one of those on the disk. -/
lemma Shape.openLog_lt (hd : Shape d h) : d.openLog.1 < d.openLog.2.next := by
  rw [Disk.openLog]
  rcases hlog : d.names 0 with _ | n
  · exact Nat.lt_succ_self _
  · exact hd.old 0 n hlog

lemma Disk.openLog_written (d : Disk) : d.openLog.2.written = d.written := by
  rw [Disk.openLog]
  split <;> rfl

lemma Disk.openLog_content (d : Disk) : d.openLog.2.content = d.content := by
  rw [Disk.openLog]
  split <;> rfl

lemma not_rotating_idle : ¬LogStage.idle.Rotating := by rintro (hno | ⟨k, hno⟩) <;> cases hno

lemma not_rotating_opening : ¬LogStage.opening.Rotating := by
  rintro (hno | ⟨k, hno⟩) <;> cases hno

lemma not_rotating_writing (n : ℕ) : ¬(LogStage.writing n).Rotating := by
  rintro (hno | ⟨k, hno⟩) <;> cases hno

/-- A hook that has looked at the size begins a rotation, or opens the log. -/
lemma LogInvAt.check (hinv : LogInvAt s h) {ok : Bool} (hstage : s.own i = .idle)
    (halone : RotatesAlone s (.check i ok)) :
    LogInv (s.move i s.shared (if ok && s.shared.logFull then .drop else .opening)) := by
  split_ifs with hfull
  · obtain ⟨hok, hfull⟩ := Bool.and_eq_true_iff.1 hfull
    have hnobody := halone hok hfull
    -- nobody rotates, so there is no hole
    obtain rfl : h = 0 := Nat.eq_zero_of_not_pos fun hpos =>
      (hinv.rotates hpos).elim fun j hj => hnobody j hj
    refine ⟨0, hinv.rotate (fun j _ => hnobody j) hinv.shape rfl ⟨fun _ => ⟨rfl, hfull⟩, ?_, ?_⟩
      (fun hpos => absurd hpos (lt_irrefl 0)) rfl rfl⟩
    · rintro k hno
      cases hno
    · rintro n hno
      cases hno
  · refine ⟨h, hinv.move ?_ hinv.shape le_rfl id not_rotating_opening ?_ hinv.kept⟩
    · rw [hstage]
      exact not_rotating_idle
    · rintro n hno
      cases hno

/-- No other hook rotates. -/
lemma LogInvAt.others (hinv : LogInvAt s h) (hi : (s.own i).Rotating) :
    ∀ j, j ≠ i → ¬(s.own j).Rotating := fun j hji hj => hji (hinv.alone j i hj hi)

/-- The oldest file is dropped, and the hole is where it was. -/
lemma LogInvAt.dropped (hinv : LogInvAt s h) (hstage : s.own i = .drop) :
    LogInv (s.move i (s.shared.unlink logKeep) (.shift (logKeep - 1))) := by
  obtain ⟨rfl, hfull⟩ := (hinv.logs i).drop hstage
  obtain ⟨n, hn, hsize⟩ := (logFull_iff _).1 hfull
  refine ⟨logKeep, hinv.rotate (hinv.others (.inl hstage)) hinv.shape.unlink rfl ⟨?_, ?_, ?_⟩
    (fun _ => .inr ⟨_, rfl⟩) rfl rfl⟩
  · rintro hno
    cases hno
  · rintro k hk
    cases hk
    refine ⟨rfl, by decide, (logFull_iff _).2 ⟨n, ?_, hsize⟩⟩
    rw [Disk.unlink_names, if_neg logKeep_pos.ne, hn]
  · rintro n hno
    cases hno

/-- A file gets the next name; after the log itself the hook opens a new one. -/
lemma LogInvAt.shifted (hinv : LogInvAt s h) {k : ℕ} (hstage : s.own i = .shift k) :
    LogInv (s.move i (s.shared.rename k (k + 1)) (.afterShift k)) := by
  obtain ⟨rfl, hk, hfull⟩ := (hinv.logs i).shift k hstage
  obtain ⟨n, hn, hsize⟩ := (logFull_iff _).1 hfull
  refine ⟨k, hinv.rotate (hinv.others (.inr ⟨k, hstage⟩)) (hinv.shape.rename hk hfull)
    (Disk.rename_next _ _ _) ?_ ?_ (Disk.rename_content _ _ _) (Disk.rename_written _ _ _)⟩
  · rcases k with _ | k
    · exact .of_not_rotating not_rotating_opening (by rintro n hno; cases hno)
    · refine ⟨?_, ?_, ?_⟩
      · rintro hno
        cases hno
      · rintro j hj
        cases hj
        refine ⟨rfl, Nat.lt_of_succ_lt hk, (logFull_iff _).2 ⟨n, ?_, ?_⟩⟩
        · rw [Disk.rename_names (hinv.shape.hole (Nat.succ_pos _)), if_neg (by omega),
            if_neg (by omega), hn]
        · rwa [Disk.size, Disk.rename_content]
      · rintro n hno
        cases hno
  · rintro hpos
    rcases k with _ | k
    · exact absurd hpos (lt_irrefl 0)
    · exact .inr ⟨k, rfl⟩

/-- The log is opened, or this fails and the line is given up. -/
lemma LogInvAt.opens (hinv : LogInvAt s h) (hstage : s.own i = .opening) (ok : Bool) :
    LogInv (if ok then s.move i s.shared.openLog.2 (.writing s.shared.openLog.1)
      else s.move i s.shared .idle) := by
  have hidle : ¬(s.own i).Rotating := by
    rw [hstage]
    exact not_rotating_opening
  split_ifs
  · refine ⟨h, hinv.move hidle hinv.shape.openLog (Disk.next_openLog _) (fun hfull => ?_)
      (not_rotating_writing _) ?_ ?_⟩
    · rwa [Disk.openLog_of_logFull hfull]
    · rintro n hn
      cases hn
      exact hinv.shape.openLog_lt
    · rintro line hline
      rw [Disk.openLog_written] at hline
      obtain ⟨n, hn, hmem⟩ := hinv.kept line hline
      refine ⟨n, hn.trans_le (Disk.next_openLog _), ?_⟩
      rwa [Disk.openLog_content]
  · refine ⟨h, hinv.move hidle hinv.shape le_rfl id not_rotating_idle ?_ hinv.kept⟩
    rintro n hno
    cases hno

/-- A line is written to the file that was opened, whatever its name is by now. -/
lemma LogInvAt.writes (hinv : LogInvAt s h) {n : ℕ} (hstage : s.own i = .writing n) (ok : Bool)
    (line : LogLine) :
    LogInv (s.move i (if ok then s.shared.append n line else s.shared) .idle) := by
  have hidle : ¬(s.own i).Rotating := by
    rw [hstage]
    exact not_rotating_writing n
  split_ifs
  · refine ⟨h, hinv.move hidle (hinv.shape.append n line) le_rfl (Disk.logFull_append n line)
      not_rotating_idle ?_ ?_⟩
    · rintro m hno
      cases hno
    · rintro l hl
      rcases List.mem_cons.1 hl with rfl | hl
      · refine ⟨n, (hinv.logs i).writing n hstage, ?_⟩
        simp [Disk.append]
      · obtain ⟨m, hm, hmem⟩ := hinv.kept l hl
        refine ⟨m, hm, ?_⟩
        simp only [Disk.append, Function.update_apply]
        split_ifs with heq
        · rw [← heq]
          exact List.mem_append_left _ hmem
        · exact hmem
  · refine ⟨h, hinv.move hidle hinv.shape le_rfl id not_rotating_idle ?_ hinv.kept⟩
    rintro m hno
    cases hno

/-- **One operation.**  A step of these keeps what holds. -/
lemma LogInv.next {s' : LogState} {label : LogLabel} (hinv : LogInv s)
    (halone : RotatesAlone s label) (hnext : s.next label = some s') : LogInv s' := by
  obtain ⟨h, hinv⟩ := hinv
  cases label with
  | check i ok =>
      simp only [LogState.next, Option.ite_none_right_eq_some, Option.some.injEq] at hnext
      obtain ⟨hstage, rfl⟩ := hnext
      exact hinv.check hstage halone
  | drop i ok =>
      simp only [LogState.next, Option.ite_none_right_eq_some, Option.some.injEq] at hnext
      obtain ⟨hstage, rfl⟩ := hnext
      obtain rfl : ok = true := halone
      exact hinv.dropped hstage
  | shift i ok =>
      simp only [LogState.next] at hnext
      rcases hstage : s.own i with _ | _ | k | _ | n
      all_goals rw [hstage] at hnext
      case shift =>
        obtain rfl := Option.some.inj hnext
        obtain rfl : ok = true := halone
        exact hinv.shifted hstage
      all_goals cases hnext
  | opens i ok =>
      simp only [LogState.next, Option.ite_none_right_eq_some, Option.some.injEq] at hnext
      obtain ⟨hstage, rfl⟩ := hnext
      exact hinv.opens hstage ok
  | write i line ok =>
      simp only [LogState.next] at hnext
      rcases hstage : s.own i with _ | _ | k | _ | n
      all_goals rw [hstage] at hnext
      case writing =>
        obtain rfl := Option.some.inj hnext
        exact hinv.writes hstage ok line
      all_goals cases hnext

/-! ### What is kept -/

/-- The line is in one of the files. -/
def Disk.Has (d : Disk) (line : LogLine) : Prop :=
  ∃ k ≤ logKeep, ∃ n, d.names k = some n ∧ line ∈ d.content n

/-- There are as many full files as are kept. -/
def Disk.Filled (d : Disk) : Prop := ∃ files : Finset ℕ, files.card = logKeep ∧
  ∀ n ∈ files, (∃ k ≤ logKeep, d.names k = some n) ∧ logMaxBytes ≤ d.size n

/-- Where a file has been dropped all others are there, and full. -/
lemma LogInvAt.filled (hinv : LogInvAt s h) {n : ℕ} (hn : n < s.shared.next)
    (hno : ∀ k, s.shared.names k ≠ some n) : s.shared.Filled := by
  have hhole : h ∈ Finset.range (logKeep + 1) ∧ (0 < h → s.shared.logFull = true) := by
    rcases Nat.eq_zero_or_pos h with rfl | hpos
    · exact ⟨by simp, fun hno => absurd hno (lt_irrefl 0)⟩
    · obtain ⟨i, hi⟩ := hinv.rotates hpos
      have hfull := (hinv.logs i).logFull hi
      refine ⟨?_, fun _ => hfull⟩
      rcases hi with hdrop | ⟨k, hshift⟩
      · rw [((hinv.logs i).drop hdrop).1] at hpos
        exact absurd hpos (lt_irrefl 0)
      · obtain ⟨rfl, hk, -⟩ := (hinv.logs i).shift k hshift
        exact Finset.mem_range.2 (by omega)
  -- during a rotation the log itself counts for the file that is missing
  have hfile : ∀ k ∈ (Finset.range (logKeep + 1)).erase h,
      ∃ m, s.shared.names k = some m ∧ logMaxBytes ≤ s.shared.size m := by
    intro k hk
    obtain ⟨hne, hmem⟩ := Finset.mem_erase.1 hk
    rcases Nat.eq_zero_or_pos k with rfl | hpos
    · exact (logFull_iff _).1 (hhole.2 (Nat.pos_of_ne_zero hne.symm))
    · have hle : k ≤ logKeep := Nat.lt_succ_iff.1 (Finset.mem_range.1 hmem)
      obtain ⟨m, hm⟩ := Option.ne_none_iff_exists'.1 (hinv.shape.lost n hn hno k hpos hle hne)
      exact ⟨m, hm, hinv.shape.full k m hpos hm⟩
  refine ⟨((Finset.range (logKeep + 1)).erase h).image fun k => (s.shared.names k).getD 0, ?_, ?_⟩
  · rw [Finset.card_image_of_injOn, Finset.card_erase_of_mem hhole.1, Finset.card_range,
      Nat.add_sub_cancel]
    rintro j hj k hk heq
    obtain ⟨m, hm, -⟩ := hfile j hj
    obtain ⟨m', hm', -⟩ := hfile k hk
    simp only [hm, hm', Option.getD_some] at heq
    exact hinv.shape.distinct j k m hm (by rw [hm', heq])
  · rintro m hm
    obtain ⟨k, hk, rfl⟩ := Finset.mem_image.1 hm
    obtain ⟨m, hm, hsize⟩ := hfile k hk
    rw [hm, Option.getD_some]
    have hlt := Finset.mem_range.1 (Finset.mem_of_mem_erase hk)
    exact ⟨⟨k, Nat.lt_succ_iff.1 hlt, hm⟩, hsize⟩

/-- **The log.**  If no rotation begins during another one and no operation of a rotation fails,
every line that was written is in one of the files, or as many full files are there as are kept. -/
theorem log_kept (hs : logSystem.ReachedBy RotatesAlone s) {line : LogLine}
    (hline : line ∈ s.shared.written) : s.shared.Has line ∨ s.shared.Filled := by
  obtain ⟨h, hinv⟩ : LogInv s := by
    refine StepSystem.ReachedBy.invariant (fun s hs => ⟨0, ?_⟩)
      (fun s l s' hinv halone hnext => hinv.next halone hnext) hs
    obtain ⟨hshared, hidle⟩ := hs
    have hnot : ∀ i, ¬(s.own i).Rotating := by
      rintro i (hno | ⟨k, hno⟩) <;> cases (hidle i).symm.trans hno
    refine ⟨?_, fun i => .of_not_rotating (hnot i) fun n hn => ?_,
      fun i _ hi => absurd hi (hnot i), fun hno => absurd hno (lt_irrefl 0), ?_⟩
    · rw [hshared]
      exact ⟨by simp, by simp, by simp, by simp, by simp, by simp, by simp⟩
    · cases (hidle i).symm.trans hn
    · simp [hshared]
  obtain ⟨n, hn, hmem⟩ := hinv.kept line hline
  by_cases hno : ∀ k, s.shared.names k ≠ some n
  · exact .inr (hinv.filled hn hno)
  · obtain ⟨k, hk⟩ := not_forall_not.1 hno
    refine .inl ⟨k, Nat.not_lt.1 fun hlt => ?_, n, hk, hmem⟩
    rw [hinv.shape.within k hlt] at hk
    cases hk

/-- A full log, a rotation, and a line more. -/
def rotatesOnce : List LogLabel :=
  [LogLabel.check 0 true, .opens 0 true, .write 0 ⟨0, 10485760⟩ true, .check 1 true, .drop 1 true,
    .shift 1 true, .shift 1 true, .shift 1 true, .opens 1 true, .write 1 ⟨1, 30⟩ true]

lemma meets_rotatesOnce : logSystem.Meets RotatesAlone
    ⟨⟨fun _ => none, fun _ => [], 0, []⟩, fun _ => .idle⟩ rotatesOnce := by
  rw [rotatesOnce]
  refine StepSystem.meets_cons.2 ⟨?_, fun s hs => ?_⟩
  · rintro _ hno
    cases hno
  obtain rfl := Option.some.inj hs
  refine StepSystem.meets_cons.2 ⟨trivial, fun s hs => ?_⟩
  obtain rfl := Option.some.inj hs
  refine StepSystem.meets_cons.2 ⟨trivial, fun s hs => ?_⟩
  obtain rfl := Option.some.inj hs
  refine StepSystem.meets_cons.2 ⟨?_, fun s _ => ?_⟩
  · rintro _ _ j hj
    have hidle : Function.update (Function.update (Function.update (fun _ : ℕ => LogStage.idle)
        0 .opening) 0 (.writing 0)) 0 .idle j = .idle := by
      simp [Function.update_apply]
    rcases hj with hj | ⟨k, hj⟩
    · cases hidle.symm.trans hj
    · cases hidle.symm.trans hj
  · refine StepSystem.meets_of_forall (fun s a ha => ?_) s
    simp only [List.mem_cons, List.not_mem_nil, or_false] at ha
    rcases ha with rfl | rfl | rfl | rfl | rfl | rfl <;> trivial

/-- Both lines of the run are there. -/
theorem log_kept_rotated : ∃ s, logSystem.ReachedBy RotatesAlone s ∧
    s.shared.names 1 = some 0 ∧ s.shared.names 0 = some 1 ∧
      ∀ line ∈ s.shared.written, s.shared.Has line ∨ s.shared.Filled := by
  obtain ⟨s, hexec, hend⟩ := logSystem.exists_of_exec_any
    ⟨⟨fun _ => none, fun _ => [], 0, []⟩, fun _ => .idle⟩ rotatesOnce
    (fun s => s.shared.names 1 = some 0 ∧ s.shared.names 0 = some 1) (by decide +kernel)
  have hs : logSystem.ReachedBy RotatesAlone s :=
    StepSystem.ReachedBy.exec (.init ⟨rfl, fun _ => rfl⟩) meets_rotatesOnce hexec
  obtain ⟨h1, h0⟩ := of_decide_eq_true hend
  exact ⟨s, hs, h1, h0, fun line hline => log_kept hs hline⟩

/-- The operations of a rotation. -/
def rotation (i : ℕ) : List LogLabel := [LogLabel.drop i true, .shift i true, .shift i true,
  .shift i true]

/-- Two hooks begin a rotation when the log is full for the second time.  It is full once more, and
the first of the three full files is dropped; of the four that are left two are not full. -/
example : ((logSystem.exec ⟨⟨fun _ => none, fun _ => [], 0, []⟩, fun _ => .idle⟩
    ([LogLabel.check 0 true, .opens 0 true, .write 0 ⟨0, 10485760⟩ true, .check 0 true] ++
      rotation 0 ++ [LogLabel.opens 0 true, .write 0 ⟨1, 10485760⟩ true, .check 0 true,
        .check 1 true] ++
      rotation 0 ++ [LogLabel.opens 0 true, .write 0 ⟨2, 30⟩ true] ++
      rotation 1 ++ [LogLabel.opens 1 true, .write 1 ⟨3, 10485760⟩ true, .check 0 true] ++
      rotation 0 ++ [LogLabel.opens 0 true, .write 0 ⟨4, 30⟩ true])).map fun s =>
        (List.range 4).map fun k => (s.shared.names k).map s.shared.size) =
    some [some 30, some 10485760, some 30, some 10485760] := by decide +kernel

end PalaceDaemon.Hook

/-
The restart history (`record_restart` and `crash_loop_state`).

The daemon keeps the times of its restarts in a JSON file, and at each start drops those that are
older than the window and appends the current one.  Reading and parsing the file are guarded; what
the file holds is not.  `restart_history_iff` says which contents the recording survives and keeps
right.
-/
import PalaceDaemon.Lib.PyJson
import PalaceDaemon.Lib.PyValue

namespace PalaceDaemon.CrashLoop

/-! ### Times -/

/-- The microseconds since 1970, in UTC, of a time that a `datetime` can hold. -/
def Representable (t : ℤ) : Prop := -62135596800000000 ≤ t ∧ t ≤ 253402300799999999

instance (t : ℤ) : Decidable (Representable t) := inferInstanceAs (Decidable (_ ∧ _))

/-- What a text is as a timestamp. -/
inductive Stamp
  /-- `fromisoformat` raises `ValueError`. -/
  | malformed
  /-- A time without an offset, which cannot be compared with one that has one. -/
  | naive
  | aware (t : ℤ)

/-- `datetime.fromisoformat` and `datetime.isoformat`, of times in UTC. -/
structure Calendar where
  fromisoformat : PyStr → Stamp
  isoformat : ℤ → PyStr
  read_back : ∀ t, Representable t → fromisoformat (isoformat t) = .aware t

/-- A reading of `datetime.now(timezone.utc)`. -/
structure Now where
  time : ℤ
  representable : Representable time

/-- The settings; the window is in seconds. -/
structure Settings where
  window : ℤ
  threshold : ℤ
  recovery : ℤ

/-- `now - timedelta(seconds=CRASH_LOOP_WINDOW)` as a number. -/
def cutoff (s : Settings) (now : Now) : ℤ := now.time - s.window * 1000000

/-- `now - timedelta(seconds=CRASH_LOOP_WINDOW)`, which raises where no `datetime` holds it. -/
def Settings.cutoff? (s : Settings) (now : Now) : Except PyExc ℤ :=
  if Representable (cutoff s now) then .ok (cutoff s now) else .error .overflowError

/-! ### The file -/

/-- The file: not there, not to be read or parsed, or a JSON value. -/
inductive Content
  | missing
  | unreadable
  | json (data : PyJson)

/-- `data` of `record_restart` -/
def Content.data : Content → PyJson
  | .missing => .obj []
  | .unreadable => .obj []
  | .json data => data

/-- `data.get("restarts", [])`, iterated over -/
def restartsOf (data : PyJson) : Except PyExc (List PyJson) :=
  match data with
  | .obj _ => match ((data.field? "restarts").getD (.arr [])).iterated with
    | some items => .ok items
    | none => .error .typeError
  | _ => .error .attributeError

variable (cal : Calendar)

/-- `datetime.fromisoformat(r) > cutoff` -/
def isRecent (cutoff : ℤ) (r : PyJson) : Except PyExc Bool :=
  match r with
  | .str s => match cal.fromisoformat s with
    | .malformed => .error .valueError
    | .naive => .error .typeError
    | .aware t => .ok (decide (cutoff < t))
  | _ => .error .typeError

/-- `[r for r in items if datetime.fromisoformat(r) > cutoff]` -/
def recent (cutoff : ℤ) : List PyJson → Except PyExc (List PyJson)
  | [] => .ok []
  | r :: items => match isRecent cal cutoff r with
    | .error e => .error e
    | .ok keep => match recent cutoff items with
      | .error e => .error e
      | .ok kept => .ok (if keep then r :: kept else kept)

/-- The entries of a value that are in the window, or the exception of the first that is none. -/
def readRestarts (s : Settings) (now : Now) (data : PyJson) : Except PyExc (List PyJson) :=
  match s.cutoff? now with
  | .error e => .error e
  | .ok cutoff => match restartsOf data with
    | .error e => .error e
    | .ok items => recent cal cutoff items

/-- `{"restarts": restarts}` -/
def history (restarts : List PyJson) : PyJson := .obj [(.of "restarts", .arr restarts)]

/-- `record_restart`: what it writes. -/
def recordRestart (s : Settings) (now : Now) (content : Content) : Except PyExc PyJson :=
  match readRestarts cal s now content.data with
  | .error e => .error e
  | .ok kept => .ok (history (kept ++ [.str (cal.isoformat now.time)]))

/-- What `crash_loop_state` reports; the last two are left out after an exception. -/
structure State where
  crashLoop : Bool
  restartCount : ℕ
  windowSeconds : ℤ
  uptimeSeconds : Option ℚ
  recovered : Option Bool

/-- `crash_loop_state`; `round1` is `round(uptime, 1)`. -/
def crashLoopState (s : Settings) (now : Now) (uptime : ℚ) (round1 : ℚ → ℚ)
    (content : Content) : State :=
  let read : Except PyExc (List PyJson) := match content with
    | .unreadable => .error .valueError
    | content => readRestarts cal s now content.data
  match read with
  | .error _ => ⟨false, 0, s.window, none, none⟩
  | .ok kept =>
    let inLoop := decide (s.threshold ≤ kept.length)
    let recovered := inLoop && decide (s.recovery ≤ uptime)
    ⟨inLoop && !recovered, kept.length, s.window, some (round1 uptime), some recovered⟩

/-! ### What the history should be -/

/-- The entry is a timestamp inside the window. -/
def inWindow (s : Settings) (now : Now) (r : PyJson) : Bool :=
  match r with
  | .str text => match cal.fromisoformat text with
    | .aware t => decide (cutoff s now < t)
    | _ => false
  | _ => false

/-- The entries that were recorded: those of the list under `restarts`. -/
def recorded (content : Content) : List PyJson :=
  match content.data.field? "restarts" with
  | some (.arr items) => items
  | _ => []

/-- The history after a restart: what was recorded inside the window, and the restart. -/
def expected (s : Settings) (now : Now) (content : Content) : List PyJson :=
  (recorded content).filter (inWindow cal s now) ++ [.str (cal.isoformat now.time)]

/-- A restart is recorded, and counted when the history is read at once. -/
def Survives (s : Settings) (now : Now) (uptime : ℚ) (round1 : ℚ → ℚ) (content : Content) : Prop :=
  recordRestart cal s now content = .ok (history (expected cal s now content)) ∧
    (crashLoopState cal s now uptime round1
      (.json (history (expected cal s now content)))).restartCount =
        (expected cal s now content).length

/-! ### Where it is -/

/-- The entry is a timestamp with an offset. -/
def IsTimestamp (r : PyJson) : Prop := ∃ text t, r = .str text ∧ cal.fromisoformat text = .aware t

/-- The file is an object whose restarts, if there are any, are timestamps with an offset in a
list; or what is iterated over instead, the characters of a text or the keys of an object, is such
timestamps, none of them inside the window. -/
structure Sound (s : Settings) (now : Now) (content : Content) : Prop where
  isObj : content.data.isObj = true
  items : ∃ items, ((content.data.field? "restarts").getD (.arr [])).iterated = some items ∧
    (∀ r ∈ items, IsTimestamp cal r) ∧
    ((∃ values, (content.data.field? "restarts").getD (.arr []) = .arr values) ∨
      ∀ r ∈ items, inWindow cal s now r = false)

section

variable {cal} {s : Settings} {now : Now} {uptime : ℚ} {round1 : ℚ → ℚ} {content : Content}

lemma isRecent_of_isTimestamp {r : PyJson} (h : IsTimestamp cal r) :
    isRecent cal (cutoff s now) r = .ok (inWindow cal s now r) := by
  obtain ⟨text, t, rfl, ht⟩ := h
  simp only [isRecent, inWindow, ht]

lemma isTimestamp_of_isRecent {r : PyJson} {c : ℤ} {keep : Bool}
    (h : isRecent cal c r = .ok keep) : IsTimestamp cal r := by
  cases r with
  | str text =>
    cases hs : cal.fromisoformat text with
    | malformed => simp [isRecent, hs] at h
    | naive => simp [isRecent, hs] at h
    | aware t => exact ⟨text, t, rfl, hs⟩
  | _ => cases h

/-- The comprehension gives a result just when all entries are timestamps, and then those in the
window. -/
lemma recent_eq_ok {items kept : List PyJson} :
    recent cal (cutoff s now) items = .ok kept ↔
      (∀ r ∈ items, IsTimestamp cal r) ∧ kept = items.filter (inWindow cal s now) := by
  induction items generalizing kept with
  | nil => simp [recent, eq_comm]
  | cons r items ih =>
    rw [recent]
    constructor
    · intro h
      cases hr : isRecent cal (cutoff s now) r with
      | error e => simp [hr] at h
      | ok keep =>
        have hstamp := isTimestamp_of_isRecent hr
        rw [isRecent_of_isTimestamp hstamp] at hr
        cases hrest : recent cal (cutoff s now) items with
        | error e => simp [isRecent_of_isTimestamp hstamp, hrest] at h
        | ok rest =>
          obtain ⟨hall, rfl⟩ := ih.1 hrest
          rw [isRecent_of_isTimestamp hstamp, hrest] at h
          refine ⟨List.forall_mem_cons.2 ⟨hstamp, hall⟩, ?_⟩
          rw [List.filter_cons]
          exact (Except.ok.inj h).symm
    · rintro ⟨hall, rfl⟩
      rw [List.forall_mem_cons] at hall
      rw [isRecent_of_isTimestamp hall.1, ih.2 ⟨hall.2, rfl⟩, List.filter_cons]

lemma restartsOf_eq_ok {data : PyJson} {items : List PyJson} :
    restartsOf data = .ok items ↔
      data.isObj = true ∧ ((data.field? "restarts").getD (.arr [])).iterated = some items := by
  cases data with
  | obj fields =>
    simp only [restartsOf, PyJson.isObj, true_and]
    cases ((PyJson.obj fields).field? "restarts").getD (.arr []) |>.iterated with
    | none => simp
    | some l => simp
  | _ => simp [restartsOf, PyJson.isObj]

lemma readRestarts_eq_ok {data : PyJson} {kept : List PyJson} :
    readRestarts cal s now data = .ok kept ↔
      Representable (cutoff s now) ∧ data.isObj = true ∧
      ∃ items, ((data.field? "restarts").getD (.arr [])).iterated = some items ∧
        (∀ r ∈ items, IsTimestamp cal r) ∧ kept = items.filter (inWindow cal s now) := by
  rw [readRestarts, Settings.cutoff?]
  by_cases hrep : Representable (cutoff s now)
  · rw [if_pos hrep]
    dsimp only
    constructor
    · intro h
      cases hitems : restartsOf data with
      | error e => simp [hitems] at h
      | ok items =>
        rw [hitems] at h
        obtain ⟨hobj, hiter⟩ := restartsOf_eq_ok.1 hitems
        exact ⟨hrep, hobj, items, hiter, recent_eq_ok.1 h⟩
    · rintro ⟨-, hobj, items, hiter, hkept⟩
      rw [restartsOf_eq_ok.2 ⟨hobj, hiter⟩]
      exact recent_eq_ok.2 hkept
  · rw [if_neg hrep]
    exact iff_of_false (by simp) fun h => hrep h.1

/-- The current time is a timestamp, in the window if that is not empty. -/
lemma inWindow_now :
    inWindow cal s now (.str (cal.isoformat now.time)) = decide (0 < s.window) := by
  have hlt : cutoff s now < now.time ↔ 0 < s.window := by
    rw [cutoff]
    omega
  simp only [inWindow, cal.read_back now.time now.representable, hlt]

/-- What is counted of a history of timestamps. -/
lemma restartCount_history (hrep : Representable (cutoff s now)) {restarts : List PyJson}
    (h : ∀ r ∈ restarts, IsTimestamp cal r) :
    (crashLoopState cal s now uptime round1 (.json (history restarts))).restartCount =
      (restarts.filter (inWindow cal s now)).length := by
  have hread : readRestarts cal s now (history restarts) =
      .ok (restarts.filter (inWindow cal s now)) := by
    refine readRestarts_eq_ok.2 ⟨hrep, rfl, restarts, ?_, h, rfl⟩
    rfl
  simp only [crashLoopState, Content.data, hread]

/-- The reading keeps just what was recorded. -/
lemma filter_recorded {items : List PyJson}
    (hiter : ((content.data.field? "restarts").getD (.arr [])).iterated = some items) :
    items.filter (inWindow cal s now) = (recorded content).filter (inWindow cal s now) ↔
      ((∃ values, (content.data.field? "restarts").getD (.arr []) = .arr values) ∨
        ∀ r ∈ items, inWindow cal s now r = false) := by
  have hnone : items.filter (inWindow cal s now) = [] ↔
      ∀ r ∈ items, inWindow cal s now r = false := by
    rw [List.filter_eq_nil_iff]
    exact forall₂_congr fun r _ => by rw [Bool.not_eq_true]
  cases hfield : content.data.field? "restarts" with
  | none =>
    rw [hfield] at hiter
    obtain rfl : [] = items := Option.some.inj hiter
    simp [recorded, hfield]
  | some v =>
    rw [hfield] at hiter
    cases v with
    | arr values =>
      obtain rfl : values = items := Option.some.inj hiter
      simp [recorded, hfield]
    | _ => simp [recorded, hfield, hnone]

/-- **What the recording survives.**  A restart is recorded, with what was recorded inside the
window before it, and counted at once, if and only if the window is positive and reaches no
further back than a `datetime` does, and the content of the file is sound. -/
theorem restart_history_iff :
    Survives cal s now uptime round1 content ↔
      0 < s.window ∧ Representable (cutoff s now) ∧ Sound cal s now content := by
  have hnow : IsTimestamp cal (.str (cal.isoformat now.time)) :=
    ⟨_, _, rfl, cal.read_back now.time now.representable⟩
  -- what is kept of a window is in the window
  have hcount : Representable (cutoff s now) →
      (∀ r ∈ (recorded content).filter (inWindow cal s now), IsTimestamp cal r) →
      ((crashLoopState cal s now uptime round1
        (.json (history (expected cal s now content)))).restartCount =
          (expected cal s now content).length ↔ 0 < s.window) := by
    intro hrep hall
    rw [restartCount_history hrep, expected, List.filter_append, List.filter_filter,
      List.length_append, List.length_append]
    · simp only [Bool.and_self, List.filter_cons, List.filter_nil, inWindow_now]
      by_cases hpos : 0 < s.window <;> simp [hpos]
    · intro r hr
      rcases List.mem_append.1 hr with hr | hr
      · exact hall r hr
      · rw [List.mem_singleton.1 hr]
        exact hnow
  have hrecorded : ∀ items : List PyJson, (∀ r ∈ items, IsTimestamp cal r) →
      items.filter (inWindow cal s now) = (recorded content).filter (inWindow cal s now) →
      ∀ r ∈ (recorded content).filter (inWindow cal s now), IsTimestamp cal r := by
    intro items hall heq r hr
    rw [← heq] at hr
    exact hall r (List.mem_of_mem_filter hr)
  constructor
  · rintro ⟨hrecord, hstate⟩
    rw [recordRestart] at hrecord
    cases hread : readRestarts cal s now content.data with
    | error e => simp [hread] at hrecord
    | ok kept =>
      rw [hread] at hrecord
      obtain ⟨hrep, hobj, items, hiter, hall, rfl⟩ := readRestarts_eq_ok.1 hread
      have heq : items.filter (inWindow cal s now) =
          (recorded content).filter (inWindow cal s now) := by
        simpa [history, expected] using hrecord
      refine ⟨?_, hrep, hobj, items, hiter, hall, (filter_recorded hiter).1 heq⟩
      exact (hcount hrep (hrecorded items hall heq)).1 hstate
  · rintro ⟨hpos, hrep, hobj, items, hiter, hall, hor⟩
    have heq := (filter_recorded hiter).2 hor
    constructor
    · rw [recordRestart, readRestarts_eq_ok.2 ⟨hrep, hobj, items, hiter, hall, rfl⟩, heq]
      rfl
    · exact (hcount hrep (hrecorded items hall heq)).2 hpos

end

/-- A calendar that knows one way to write a time: its number, in unary, with a sign. -/
def unary : Calendar where
  fromisoformat text :=
    match text with
    | 0 :: rest => .aware rest.length
    | 1 :: rest => .aware (-rest.length)
    | _ => .malformed
  isoformat t := if 0 ≤ t then 0 :: List.replicate t.toNat 0 else 1 :: List.replicate t.natAbs 0
  read_back t _ := by
    split_ifs with h
    · simp only [List.length_replicate, Stamp.aware.injEq]
      omega
    · simp only [List.length_replicate, Stamp.aware.injEq]
      omega

/-- A file that holds a list stops the recording. -/
theorem restart_history_fails :
    ¬ Survives unary ⟨600, 3, 1800⟩ ⟨0, by decide⟩ 0 id (.json (.arr [])) := by
  intro h
  have hrecord : recordRestart unary ⟨600, 3, 1800⟩ ⟨0, by decide⟩ (.json (.arr [])) =
      .error .attributeError := rfl
  rw [Survives, hrecord] at h
  cases h.1

end PalaceDaemon.CrashLoop

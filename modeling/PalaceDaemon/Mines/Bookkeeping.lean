/-
The mined-state file as a drain pass reads it.

The file is JSON that nobody checks: a value that is no witness, a time in the future or at
infinity, and a number no float can hold are all read, compared, subtracted, ranked and written
back.  What raises on the way lands in the catch-all of the replay, which quarantines the entry,
whatever has been done with it before.  `bookkeeping_iff` says in which passes the bookkeeping
costs at most a mine: a debounced transcript was recorded no later than now, its wait can be
logged, and the witness of a mine can be saved.
-/
import PalaceDaemon.Lib.PyFloat
import PalaceDaemon.Mines.Pass
import PalaceDaemon.Mines.RawPass

namespace PalaceDaemon.Mines

/-! ### What a replay reads -/

/-- What the file system does with the saved state. -/
inductive Disk
  | ok
  /-- No temporary file can be made. -/
  | noTemp
  /-- The temporary file cannot be moved into place. -/
  | noReplace
deriving DecidableEq, Repr

/-- What one replay reads, besides the entry and the state. -/
structure Reading where
  env : Env
  /-- The number that `PALACE_MINE_MIN_INTERVAL_S` writes. -/
  minInterval : Option PyFloat
  /-- `st_mtime` of a time in ticks. -/
  seconds : ℤ → ℚ
  /-- `time.time()` at the debounce. -/
  time : ℚ
  /-- `time.monotonic()` when the last deferral of the target is looked up. -/
  monotonic : ℚ
  /-- `time.monotonic()` when this one is noted. -/
  notedAt : ℚ
  mineEnd : MineEnd
  /-- `time.time()` after the mine. -/
  minedAt : ℚ
  disk : Disk
  /-- `os.path.exists`, when the state is pruned. -/
  pathExists : Path → Bool
  /-- The number that a text writes, for `float`. -/
  parseFloat : List Char → Option PyFloat
  /-- `json.dump` does not run out of stack. -/
  dumps : Fields → Bool

/-- The text of the mined-state file. -/
inductive StateFile
  /-- It cannot be read or parsed. -/
  | unreadable
  | content (value : Json)

/-- `_load_mined_state` -/
def loadMinedState : StateFile → Fields
  | .content (.obj fields) => fields
  | _ => []

variable (r : Reading)

/-- `_mine_min_interval_s` -/
def Reading.mineMinInterval : PyFloat :=
  match r.minInterval with
  | some x => x.ofText.maxZero
  | none => .finite 1800

/-! ### The two lookups -/

variable (state : Fields) (directory : Path) (mode : String)

/-- `state.get(_mined_state_key(directory, mode))`, if it is a dictionary. -/
def recorded : Option Fields :=
  match Json.lookup (minedStateKey directory mode) state with
  | some (.obj fields) => some fields
  | _ => none

/-- `recorded.get("mined_at")` as a float, if it is a number; an integer may be out of range. -/
def recordedAt (fields : Fields) : Option (Except PyExc PyFloat) :=
  match fields.get "mined_at" .null with
  | .int n => some ((Json.int n).toFloat r.parseFloat)
  | .float x => some (.ok x)
  | _ => none

/-- How long a transcript that was recorded at `at'` waits. -/
def Reading.wait (at' : PyFloat) : PyFloat :=
  r.mineMinInterval.sub ((PyFloat.finite r.time).sub at')

/-- `_drain_recently_mined` -/
def rawRecentlyMined : Except PyExc (Option PyFloat) :=
  if mode ∉ transcriptModes then .ok none
  else if r.mineMinInterval.le (.finite 0) then .ok none
  else match (recorded state directory mode).bind (recordedAt r) with
    | none => .ok none
    | some (.error exc) => .error exc
    | some (.ok at') =>
      if (PyFloat.finite 0).lt (r.wait at') then .ok (some (r.wait at')) else .ok none

/-- The fields tell the witness of the file. -/
def tells (witness : Witness) (fields : Fields) : Bool :=
  (fields.get "size" .null).equals witness.size &&
    (fields.get "mtime" .null).equals (r.seconds witness.mtime)

/-- `_drain_should_skip_unchanged` -/
def rawSkipUnchanged : Bool :=
  (sourceWitness r.env directory).any fun witness =>
    (recorded state directory mode).any (tells r witness)

/-! ### Saving -/

/-- `float((value or {}).get("mtime") or 0)` -/
def rankOf (value : Json) : Except PyExc PyFloat :=
  match value.orEmpty with
  | .obj fields => ((Fields.get fields "mtime" .null).orZero).toFloat r.parseFloat
  | _ => .error .attributeError

/-- `_prune_mined_state` -/
def rawPruneMinedState : Except PyExc Fields :=
  if state.length ≤ minedStateMaxEntries then .ok state
  else
    let alive := state.filter fun kv => r.pathExists (minedStateSource kv.1)
    if alive.length ≤ minedStateMaxEntries then .ok alive
    else (alive.mapM fun kv => (rankOf r kv.2).map fun rank => (rank, kv)).map fun ranked =>
      ((ranked.insertionSort fun a b => a.1.le b.1).drop
        (ranked.length - minedStateMaxEntries)).map Prod.snd

/-- How a save ends. -/
inductive SaveEnd
  | saved (file : Fields)
  /-- An `OSError`, which is logged. -/
  | logged
  | raised

/-- `_save_mined_state` -/
def saveMinedState : SaveEnd :=
  match r.disk with
  | .noTemp => .logged
  | .ok => match rawPruneMinedState r state with
    | .error _ => .raised
    | .ok pruned => if r.dumps pruned then .saved pruned else .raised
  | .noReplace => match rawPruneMinedState r state with
    | .error _ => .raised
    | .ok pruned => if r.dumps pruned then .logged else .raised

/-! ### The replay -/

/-- The checks of a replay before the mined state is asked. -/
def replayTarget (env : Env) (entry : Fields) : Except Stop (Path × String) :=
  match mineDiskFloorProblem env with
  | some free => .error (.held (.lowDisk free))
  | none =>
    match replayDir entry with
    | .error stop => .error stop
    | .ok (payload, rawDir) =>
      let directory := translateClientPath env.pathMap rawDir
      if ¬ isAbsolute directory ∨ ['.', '.'] ∈ pathParts directory then
        .error (.rejected (.rule .pathShape))
      else match memberOf mineValidModes .invalidMode (payload.get "mode" (text "convos")) with
      | .error stop => .error stop
      | .ok mode =>
        match mineablePathProblem env directory mode with
        | some problem => .error (.rejected (.rule (.notMineable problem)))
        | none => .ok (directory, mode)

/-- What became of an entry. -/
structure Treated where
  /-- Its mine returned 0. -/
  mined : Bool
  requeued : Bool
  quarantined : Bool
  /-- How long the debounce makes it wait. -/
  wait : Option PyFloat
  /-- It was skipped as unchanged. -/
  unchanged : Bool
deriving DecidableEq

/-- Nothing was done with it. -/
def Treated.dropped : Treated := ⟨false, false, false, none, false⟩

/-- What a stop makes of an entry. -/
def Stop.treated : Stop → Treated
  | .held _ => { Treated.dropped with requeued := true }
  | .rejected _ => Treated.dropped
  | .raised _ => { Treated.dropped with quarantined := true }

/-- When a deferral of a target was last logged: `_deferral_logged_at`. -/
abbrev DeferralLog := List (Path × ℚ)

/-- `_time.monotonic() - _deferral_logged_at.get(key, -1e9) >= 600` -/
def logDue (log : DeferralLog) (key : Path) : Bool :=
  600 ≤ r.monotonic - (log.lookup key).getD (-1000000000)

/-- The replay of an entry whose mine returned 0, up to the end of the save. -/
def afterMine (job : Job) : Treated × Fields :=
  match job.preMineWitness with
  | none => ({ Treated.dropped with mined := true }, state)
  | some witness =>
    let state := Json.set (minedStateKey job.directory job.mode) (.obj
      [("mtime".toList, .float (.finite (r.seconds witness.mtime))),
        ("size".toList, .int witness.size), ("mined_at".toList, .float (.finite r.minedAt))]) state
    match saveMinedState r state with
    | .raised => ({ Treated.dropped with mined := true, quarantined := true }, state)
    | _ => ({ Treated.dropped with mined := true }, state)

/-- The replay of an entry that is mined. -/
def treatMine (entry : Fields) (job : Job) : Treated × Fields :=
  match r.mineEnd with
  | .returned => afterMine r state job
  | .lockHeld => match (entry.get "lock_retries" (.int 0)).toInt with
    | .error _ => ({ Treated.dropped with quarantined := true }, state)
    | .ok n => if n + 1 ≤ lockRequeueMax then ({ Treated.dropped with requeued := true }, state)
      else ({ Treated.dropped with quarantined := true }, state)
  | .failed => ({ Treated.dropped with quarantined := true }, state)

/-- The replay of an entry: what becomes of it, and the state and the log after it.  When nothing
is known of any source, `replay` makes the checks that follow the debounce. -/
def treat (log : DeferralLog) (entry : Fields) : Treated × Fields × DeferralLog :=
  match replayTarget r.env entry with
  | .error stop => (stop.treated, state, log)
  | .ok (directory, mode) =>
    let key := minedStateKey directory mode
    if rawSkipUnchanged r state directory mode then
      ({ Treated.dropped with unchanged := true }, state, log)
    else match rawRecentlyMined r state directory mode with
    | .error _ => ({ Treated.dropped with quarantined := true }, state, log)
    | .ok (some wait) =>
      -- the entry is requeued already when `int(wait)` is logged
      if logDue r log key then
        ({ Treated.dropped with
            requeued := true, quarantined := !wait.isFinite, wait := some wait },
          state, (key, r.notedAt) :: log)
      else ({ Treated.dropped with requeued := true, wait := some wait }, state, log)
    | .ok none => match replay r.env [] entry with
      | .error stop => (stop.treated, state, log)
      | .ok job => ((treatMine r state entry job).1, (treatMine r state entry job).2, log)

/-- An entry of a pass, with what its replay meets. -/
structure Treatment where
  reading : Reading
  entry : Fields
  state : Fields
  log : DeferralLog

/-- What became of the entry. -/
def Treatment.treated (t : Treatment) : Treated := (treat t.reading t.state t.log t.entry).1

/-- The turns of a pass, in the order its entries are taken. -/
def turns : Fields → DeferralLog → List (Reading × Fields) → List Treatment
  | _, _, [] => []
  | state, log, (r, entry) :: rest =>
      ⟨r, entry, state, log⟩ ::
        turns (treat r state log entry).2.1 (treat r state log entry).2.2 rest

/-- The turns of a drain pass. -/
def drainPass (file : StateFile) (log : DeferralLog) (steps : List (Reading × Fields)) :
    List Treatment :=
  turns (loadMinedState file) log steps

/-! ### Failing toward mining -/

variable (t : Treatment)

/-- The bookkeeping fails toward mining: a mined entry is done with, none is put back and
quarantined, a debounced transcript was recorded as mined less than one interval ago and waits no
longer than one, and what is skipped as unchanged has a recorded witness that tells the file. -/
structure Treatment.Kept : Prop where
  mined : t.treated.mined → ¬t.treated.requeued ∧ ¬t.treated.quarantined
  apart : ¬(t.treated.requeued ∧ t.treated.quarantined)
  held : ∀ wait ∈ t.treated.wait, ∃ directory mode fields at',
    replayTarget t.reading.env t.entry = .ok (directory, mode) ∧
      recorded t.state directory mode = some fields ∧
      recordedAt t.reading fields = some (.ok at') ∧
      ((PyFloat.finite t.reading.time).sub at').lt t.reading.mineMinInterval ∧
      wait.le t.reading.mineMinInterval
  unchanged : t.treated.unchanged → ∃ directory mode fields witness,
    replayTarget t.reading.env t.entry = .ok (directory, mode) ∧
      recorded t.state directory mode = some fields ∧
      sourceWitness t.reading.env directory = some witness ∧ tells t.reading witness fields

/-- The debounce is asked about a transcript that was recorded at a time. -/
structure Treatment.Debounced (directory : Path) (mode : String) (at' : PyFloat) : Prop where
  target : replayTarget t.reading.env t.entry = .ok (directory, mode)
  changed : rawSkipUnchanged t.reading t.state directory mode = false
  transcript : mode ∈ transcriptModes
  recent : ((PyFloat.finite t.reading.time).sub at').lt t.reading.mineMinInterval = true
  positive : t.reading.mineMinInterval.le (.finite 0) = false
  recorded : (recorded t.state directory mode).bind (recordedAt t.reading) = some (.ok at')

/-- The state can be pruned and written, or is not asked for because there is no place for it. -/
def Reading.Savable (r : Reading) (state : Fields) : Prop :=
  r.disk = .noTemp ∨ ∃ pruned, rawPruneMinedState r state = .ok pruned ∧ r.dumps pruned

/-- The state with the witness of a mine. -/
def Treatment.witnessed (job : Job) (witness : Witness) : Fields :=
  Json.set (minedStateKey job.directory job.mode) (.obj
    [("mtime".toList, .float (.finite (t.reading.seconds witness.mtime))),
      ("size".toList, .int witness.size),
      ("mined_at".toList, .float (.finite t.reading.minedAt))]) t.state

/-- A transcript within the interval was recorded no later than now, and under an infinite
interval its wait is not logged; the state with the witness of a mine can be saved. -/
structure Treatment.Sound : Prop where
  debounced : ∀ directory mode at', t.Debounced directory mode at' →
    if t.reading.mineMinInterval = .inf then
      logDue t.reading t.log (minedStateKey directory mode) = false
    else at'.le (.finite t.reading.time) = true
  saved : ∀ directory mode job witness,
    replayTarget t.reading.env t.entry = .ok (directory, mode) →
    rawSkipUnchanged t.reading t.state directory mode = false →
    rawRecentlyMined t.reading t.state directory mode = .ok none →
    replay t.reading.env [] t.entry = .ok job → t.reading.mineEnd = .returned →
    job.preMineWitness = some witness → t.reading.Savable (t.witnessed job witness)

/-! ### The debounce -/

/-- The interval is infinite or a number in range. -/
lemma mineMinInterval_cases : r.mineMinInterval = .inf ∨
    ∃ q, r.mineMinInterval = .finite q ∧ q < PyFloat.limit := by
  rw [Reading.mineMinInterval]
  rcases r.minInterval with _ | x
  · refine .inr ⟨1800, rfl, PyFloat.lt_limit ?_⟩
    calc (1800 : ℚ) < 2 ^ 11 := by norm_num
      _ ≤ 2 ^ 970 := pow_le_pow_right₀ (by norm_num) (by norm_num)
  · rcases hmax : x.ofText.maxZero with q | _ | _ | _
    · exact .inr ⟨q, hmax, PyFloat.maxZero_ofText_lt hmax⟩
    · exact .inl hmax
    · rw [PyFloat.maxZero] at hmax
      split_ifs at hmax with h
      simp [hmax, PyFloat.lt] at h
    · rw [PyFloat.maxZero] at hmax
      split_ifs at hmax with h
      simp [hmax, PyFloat.lt] at h

variable {r state directory mode}

/-- A transcript is held exactly when it was recorded less than an interval ago. -/
lemma lt_zero_wait_iff (at' : PyFloat) : (PyFloat.finite 0).lt (r.wait at') = true ↔
    ((PyFloat.finite r.time).sub at').lt r.mineMinInterval = true :=
  PyFloat.lt_zero_sub_iff _ _

lemma rawRecentlyMined_eq_some {wait : PyFloat}
    (h : rawRecentlyMined r state directory mode = .ok (some wait)) : mode ∈ transcriptModes ∧
      r.mineMinInterval.le (.finite 0) = false ∧ ∃ at',
        (recorded state directory mode).bind (recordedAt r) = some (.ok at') ∧
        wait = r.wait at' ∧ (PyFloat.finite 0).lt (r.wait at') = true := by
  rw [rawRecentlyMined] at h
  by_cases hmode : mode ∈ transcriptModes
  · rw [if_neg (not_not.2 hmode)] at h
    by_cases hoff : r.mineMinInterval.le (.finite 0) = true
    · rw [if_pos hoff] at h
      cases h
    · rw [if_neg hoff] at h
      refine ⟨hmode, by simpa using hoff, ?_⟩
      rcases hat : (recorded state directory mode).bind (recordedAt r) with _ | exc | at'
      · rw [hat] at h
        cases h
      · rw [hat] at h
        cases h
      · rw [hat] at h
        dsimp only at h
        split_ifs at h with hpos
        · cases h
          exact ⟨at', rfl, rfl, hpos⟩
        · cases h
  · rw [if_pos hmode] at h
    cases h

lemma rawRecentlyMined_of_recorded {at' : PyFloat} (hmode : mode ∈ transcriptModes)
    (hon : r.mineMinInterval.le (.finite 0) = false)
    (hat : (recorded state directory mode).bind (recordedAt r) = some (.ok at'))
    (hrecent : ((PyFloat.finite r.time).sub at').lt r.mineMinInterval = true) :
    rawRecentlyMined r state directory mode = .ok (some (r.wait at')) := by
  rw [rawRecentlyMined, if_neg (not_not.2 hmode), if_neg (by simp [hon]), hat]
  simp only [(lt_zero_wait_iff at').2 hrecent, if_true]

/-- Under a finite interval a transcript waits no longer than one, if it was recorded no later
than now. -/
lemma wait_le_iff {at' : PyFloat} {q : ℚ} (hq : r.mineMinInterval = .finite q)
    (hlt : q < PyFloat.limit) (hpos : (PyFloat.finite 0).lt (r.wait at') = true) :
    (r.wait at').le r.mineMinInterval = true ↔ at'.le (.finite r.time) = true := by
  rw [Reading.wait, hq] at hpos ⊢
  exact PyFloat.le_sub_iff hlt hpos

/-- Under an infinite interval every wait is infinite. -/
lemma wait_eq_inf {at' : PyFloat} (hinf : r.mineMinInterval = .inf)
    (hpos : (PyFloat.finite 0).lt (r.wait at') = true) : r.wait at' = .inf := by
  rw [Reading.wait, hinf] at hpos ⊢
  exact PyFloat.inf_sub_eq hpos

variable {t}

lemma Treatment.Debounced.held {at' : PyFloat} (h : t.Debounced directory mode at') :
    rawRecentlyMined t.reading t.state directory mode = .ok (some (t.reading.wait at')) :=
  rawRecentlyMined_of_recorded h.transcript h.positive h.recorded h.recent

/-- A turn that does not get to the debounce or to a save is sound. -/
lemma Treatment.sound_of (hwait : ∀ directory mode wait,
      replayTarget t.reading.env t.entry = .ok (directory, mode) →
      rawSkipUnchanged t.reading t.state directory mode = false →
      rawRecentlyMined t.reading t.state directory mode ≠ .ok (some wait))
    (hmine : ∀ directory mode job, replayTarget t.reading.env t.entry = .ok (directory, mode) →
      rawSkipUnchanged t.reading t.state directory mode = false →
      rawRecentlyMined t.reading t.state directory mode = .ok none →
      replay t.reading.env [] t.entry ≠ .ok job) : t.Sound :=
  ⟨fun _ _ _ h => absurd h.held (hwait _ _ _ h.target h.changed),
    fun _ _ _ _ htarget hchanged hnone hjob => absurd hjob (hmine _ _ _ htarget hchanged hnone)⟩

/-- What a stop makes of an entry is in order. -/
lemma Treatment.kept_of_stop {stop : Stop} (h : t.treated = stop.treated) : t.Kept := by
  refine ⟨?_, ?_, ?_, ?_⟩ <;> rw [h] <;> rcases stop with _ | _ | _ <;>
    simp [Stop.treated, Treated.dropped]

lemma Treatment.kept_of_dropped {treated : Treated} (h : t.treated = treated)
    (hmined : treated.mined = false) (hwait : treated.wait = none)
    (hunchanged : treated.unchanged = false)
    (hapart : treated.requeued = false ∨ treated.quarantined = false) : t.Kept := by
  subst h
  refine ⟨by simp [hmined], fun ⟨hrequeued, hquarantined⟩ => ?_, by simp [hwait],
    by simp [hunchanged]⟩
  rcases hapart with h | h
  · exact absurd hrequeued (by simp [h])
  · exact absurd hquarantined (by simp [h])

/-- A turn that the debounce holds. -/
lemma Treatment.kept_iff_of_held {at' : PyFloat} (h : t.Debounced directory mode at') :
    t.Kept ↔ t.Sound := by
  have hrecent := h.held
  have hpos := (lt_zero_wait_iff at').2 h.recent
  obtain ⟨fields, hfields, hat⟩ := Option.bind_eq_some_iff.1 h.recorded
  have htreated : t.treated = { Treated.dropped with
      requeued := true
      quarantined := logDue t.reading t.log (minedStateKey directory mode) &&
        !(t.reading.wait at').isFinite
      wait := some (t.reading.wait at') } := by
    simp only [Treatment.treated, treat, h.target, h.changed, hrecent, Bool.false_eq_true, if_false]
    split_ifs with hdue <;> simp [hdue, Treated.dropped]
  have hkept : t.Kept ↔ (logDue t.reading t.log (minedStateKey directory mode) = true →
      (t.reading.wait at').isFinite = true) ∧
        (t.reading.wait at').le t.reading.mineMinInterval = true := by
    constructor
    · intro hk
      refine ⟨fun hdue => ?_, ?_⟩
      · have := hk.apart
        rw [htreated] at this
        simpa [hdue] using this
      · obtain ⟨_, _, _, _, _, _, _, _, hle⟩ :=
          hk.held (t.reading.wait at') (by rw [htreated]; rfl)
        exact hle
    · rintro ⟨hlogged, hle⟩
      refine ⟨?_, ?_, ?_, ?_⟩ <;> rw [htreated]
      · rintro ⟨⟩
      · simpa using hlogged
      · rintro wait ⟨⟩
        exact ⟨directory, mode, fields, at', h.target, hfields, hat, h.recent, hle⟩
      · rintro ⟨⟩
  have hsound : t.Sound ↔ if t.reading.mineMinInterval = .inf then
      logDue t.reading t.log (minedStateKey directory mode) = false
      else at'.le (.finite t.reading.time) = true := by
    refine ⟨fun hs => hs.debounced directory mode at' h, fun hs => ⟨?_, ?_⟩⟩
    · intro directory' mode' at'' h'
      obtain ⟨rfl, rfl⟩ : directory = directory' ∧ mode = mode' := by
        simpa using h.target.symm.trans h'.target
      obtain rfl : at' = at'' := by simpa using h.recorded.symm.trans h'.recorded
      exact hs
    · intro directory' mode' _ _ htarget _ hnone
      obtain ⟨rfl, rfl⟩ : directory = directory' ∧ mode = mode' := by
        simpa using h.target.symm.trans htarget
      rw [hrecent] at hnone
      cases hnone
  rw [hkept, hsound]
  rcases mineMinInterval_cases t.reading with hinf | ⟨q, hq, hlt⟩
  · rw [if_pos hinf, wait_eq_inf hinf hpos, hinf]
    simp [PyFloat.isFinite, PyFloat.le]
  · rw [if_neg (by simp [hq]), ← wait_le_iff hq hlt hpos]
    refine ⟨fun h => h.2, fun hle => ⟨fun _ => ?_, hle⟩⟩
    exact PyFloat.isFinite_of_le hpos (hq ▸ hle)

lemma saveMinedState_raised_iff (r : Reading) (state : Fields) :
    saveMinedState r state = .raised ↔ ¬r.Savable state := by
  rw [saveMinedState, Reading.Savable]
  rcases r.disk with _ | _ | _
  · rcases rawPruneMinedState r state with exc | pruned
    · simp
    · by_cases hdumps : r.dumps pruned = true <;> simp [hdumps]
  · simp
  · rcases rawPruneMinedState r state with exc | pruned
    · simp
    · by_cases hdumps : r.dumps pruned = true <;> simp [hdumps]

/-- A turn that gets to its mine. -/
lemma Treatment.kept_iff_of_mine {job : Job}
    (htarget : replayTarget t.reading.env t.entry = .ok (directory, mode))
    (hchanged : rawSkipUnchanged t.reading t.state directory mode = false)
    (hnone : rawRecentlyMined t.reading t.state directory mode = .ok none)
    (hjob : replay t.reading.env [] t.entry = .ok job) : t.Kept ↔ t.Sound := by
  have htreated : t.treated = (treatMine t.reading t.state t.entry job).1 := by
    simp only [Treatment.treated, treat, htarget, hchanged, hnone, hjob, Bool.false_eq_true,
      if_false]
  have hsound : t.Sound ↔ ∀ witness, t.reading.mineEnd = .returned →
      job.preMineWitness = some witness → t.reading.Savable (t.witnessed job witness) := by
    refine ⟨fun hs witness hend hw => hs.saved _ _ job witness htarget hchanged hnone hjob hend hw,
      fun hs => ⟨fun directory' mode' at' h => ?_, ?_⟩⟩
    · obtain ⟨rfl, rfl⟩ : directory = directory' ∧ mode = mode' := by
        simpa using htarget.symm.trans h.target
      have := h.held
      rw [hnone] at this
      cases this
    · intro _ _ job' witness _ _ _ hjob' hend hw
      obtain rfl : job = job' := by simpa using hjob.symm.trans hjob'
      exact hs witness hend hw
  rw [hsound]
  rw [treatMine] at htreated
  rcases hend : t.reading.mineEnd with _ | _ | _
  · rw [hend] at htreated
    dsimp only at htreated
    rw [afterMine] at htreated
    rcases hw : job.preMineWitness with _ | witness
    · rw [hw] at htreated
      refine iff_of_true ?_ (by rintro _ - ⟨⟩)
      refine ⟨?_, ?_, ?_, ?_⟩ <;> rw [htreated] <;> simp [Treated.dropped]
    · rw [hw] at htreated
      have hsave := saveMinedState_raised_iff t.reading (t.witnessed job witness)
      change t.treated = (match saveMinedState t.reading (t.witnessed job witness) with
        | .raised => ({ Treated.dropped with mined := true, quarantined := true },
            t.witnessed job witness)
        | _ => ({ Treated.dropped with mined := true }, t.witnessed job witness)).1 at htreated
      simp only [Option.some.injEq, forall_eq', forall_const]
      by_cases hsavable : t.reading.Savable (t.witnessed job witness)
      · refine iff_of_true ?_ hsavable
        have hne : saveMinedState t.reading (t.witnessed job witness) ≠ .raised := fun h =>
          hsave.1 h hsavable
        have heq : t.treated = { Treated.dropped with mined := true } := by
          rw [htreated]
          split
          · exact absurd ‹_› hne
          · rfl
        refine ⟨?_, ?_, ?_, ?_⟩ <;> rw [heq] <;> simp [Treated.dropped]
      · refine iff_of_false (fun hk => ?_) hsavable
        rw [hsave.2 hsavable] at htreated
        have := (hk.mined (by rw [htreated])).2
        rw [htreated] at this
        exact this rfl
  · refine iff_of_true ?_ (by rintro _ ⟨⟩)
    rw [hend] at htreated
    dsimp only at htreated
    rcases hn : (t.entry.get "lock_retries" (.int 0)).toInt with exc | n
    · rw [hn] at htreated
      exact Treatment.kept_of_dropped htreated rfl rfl rfl (.inl rfl)
    · rw [hn] at htreated
      dsimp only at htreated
      split_ifs at htreated
      · exact Treatment.kept_of_dropped htreated rfl rfl rfl (.inr rfl)
      · exact Treatment.kept_of_dropped htreated rfl rfl rfl (.inl rfl)
  · rw [hend] at htreated
    exact iff_of_true (Treatment.kept_of_dropped htreated rfl rfl rfl (.inl rfl)) (by rintro _ ⟨⟩)

/-- One turn. -/
lemma Treatment.kept_iff (t : Treatment) : t.Kept ↔ t.Sound := by
  rcases htarget : replayTarget t.reading.env t.entry with stop | ⟨directory, mode⟩
  · refine iff_of_true (Treatment.kept_of_stop (?_ : _ = stop.treated)) (Treatment.sound_of ?_ ?_)
    · simp only [Treatment.treated, treat, htarget]
    · intro _ _ _ h
      rw [htarget] at h
      cases h
    · intro _ _ _ h
      rw [htarget] at h
      cases h
  have htargets : ∀ directory' mode', replayTarget t.reading.env t.entry = .ok (directory', mode') →
      directory' = directory ∧ mode' = mode := by
    intro directory' mode' h
    simpa using h.symm.trans htarget
  rcases hskip : rawSkipUnchanged t.reading t.state directory mode with _ | _
  · rcases hrecent : rawRecentlyMined t.reading t.state directory mode with exc | _ | wait
    · refine iff_of_true (Treatment.kept_of_dropped (?_ : _ = { Treated.dropped with
        quarantined := true }) rfl rfl rfl (.inl rfl)) (Treatment.sound_of ?_ ?_)
      · simp only [Treatment.treated, treat, htarget, hskip, hrecent, Bool.false_eq_true, if_false]
      · intro directory' mode' _ h _ h'
        obtain ⟨rfl, rfl⟩ := htargets _ _ h
        rw [hrecent] at h'
        cases h'
      · intro directory' mode' _ h _ h'
        obtain ⟨rfl, rfl⟩ := htargets _ _ h
        rw [hrecent] at h'
        cases h'
    · rcases hjob : replay t.reading.env [] t.entry with stop | job
      · refine iff_of_true (Treatment.kept_of_stop (?_ : _ = stop.treated))
          (Treatment.sound_of ?_ ?_)
        · simp only [Treatment.treated, treat, htarget, hskip, hrecent, hjob, Bool.false_eq_true,
            if_false]
        · intro directory' mode' _ h _ h'
          obtain ⟨rfl, rfl⟩ := htargets _ _ h
          rw [hrecent] at h'
          cases h'
        · intro _ _ _ _ _ _ h'
          rw [hjob] at h'
          cases h'
      · exact Treatment.kept_iff_of_mine htarget hskip hrecent hjob
    · obtain ⟨hmode, hon, at', hat, rfl, hpos⟩ := rawRecentlyMined_eq_some hrecent
      exact Treatment.kept_iff_of_held
        ⟨htarget, hskip, hmode, (lt_zero_wait_iff at').1 hpos, hon, hat⟩
  · refine iff_of_true ?_ (Treatment.sound_of ?_ ?_)
    · have htreated : t.treated = { Treated.dropped with unchanged := true } := by
        simp only [Treatment.treated, treat, htarget, hskip, if_true]
      rw [rawSkipUnchanged, Option.any_eq_true] at hskip
      obtain ⟨witness, hwitness, hany⟩ := hskip
      obtain ⟨fields, hfields, htells⟩ := (Option.any_eq_true _ _).1 hany
      refine ⟨?_, ?_, ?_, ?_⟩ <;> rw [htreated]
      · rintro ⟨⟩
      · rintro ⟨⟨⟩, -⟩
      · rintro _ ⟨⟩
      · exact fun _ => ⟨directory, mode, fields, witness, htarget, hfields, hwitness, htells⟩
    · intro directory' mode' _ h h'
      obtain ⟨rfl, rfl⟩ := htargets _ _ h
      rw [hskip] at h'
      cases h'
    · intro directory' mode' _ h h'
      obtain ⟨rfl, rfl⟩ := htargets _ _ h
      rw [hskip] at h'
      cases h'

/-- **Bookkeeping.**  Whatever the mined-state file holds and whatever the clocks say: at every
entry of a pass the bookkeeping fails toward mining, if and only if at every entry a transcript
within the interval was recorded no later than now (or, under an infinite interval, its wait is
not logged) and the state with the witness of a mine can be saved. -/
theorem bookkeeping_iff (file : StateFile) (log : DeferralLog) (steps : List (Reading × Fields)) :
    (∀ t ∈ drainPass file log steps, t.Kept) ↔ ∀ t ∈ drainPass file log steps, t.Sound :=
  forall₂_congr fun t _ => t.kept_iff

/-! ### A record at infinity -/

/-- A replay on a daemon with the default interval, whose mine returns. -/
def Reading.plain : Reading where
  env := Env.plain
  minInterval := none
  seconds ticks := ticks
  time := 0
  monotonic := 0
  notedAt := 0
  mineEnd := .returned
  minedAt := 0
  disk := .ok
  pathExists _ := true
  parseFloat _ := none
  dumps _ := true

/-- A request for a directory of transcripts. -/
def transcriptEntry : Fields :=
  [("payload".toList, .obj [("dir".toList, text "/a")])]

/-- A mined-state file that says the directory was mined at infinity. -/
def minedAtInfinity : StateFile :=
  .content (.obj [("/a::convos".toList, .obj [("mined_at".toList, .float .inf)])])

/-- The request is put back, and quarantined when its wait is logged. -/
theorem bookkeeping_fails :
    ¬∀ t ∈ drainPass minedAtInfinity [] [(Reading.plain, transcriptEntry)], t.Kept := by
  intro h
  have hturn : (⟨Reading.plain, transcriptEntry, loadMinedState minedAtInfinity, []⟩ : Treatment) ∈
      drainPass minedAtInfinity [] [(Reading.plain, transcriptEntry)] := List.mem_cons_self
  refine (h _ hturn).apart ?_
  decide +kernel

end PalaceDaemon.Mines

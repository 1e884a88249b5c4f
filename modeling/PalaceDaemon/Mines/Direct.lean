/-
A queued mine and a direct one.

`POST /mine` checks its body, then either builds the command of a mine at once or writes the body
to the queue.  What it writes is the text of a JSON object; a drain pass reads it, and until it
replays the entry it may hand it back any number of times, each time writing the object again
with one of its counters raised.  The replay takes the fields from the object one by one, checks
them again, and builds a command of its own.

The two agree (`queued_eq_direct`): the arguments of the mine are the same, and the checks of the
replay refuse exactly what the checks of the request refuse.
-/
import PalaceDaemon.Mines.Raw
import PalaceDaemon.Wings

namespace PalaceDaemon.Mines

/-! ### The body of the request -/

/-- `_MINE_MODES` -/
def mineModes : List String := ["convos", "projects", "session"]

/-- `_MINE_EXTRACTS` -/
def mineExtracts : List String := ["exchange", "general"]

/-- The fields of a posted body, once they have their types. -/
structure MineFields where
  dir : Path
  wing : Path
  mode : String
  extract : Option String
  limit : Option ℤ
  tunnels : Option Bool
  background : Bool

/-- A field that is refused, with what the validator says. -/
inductive FieldError
  /-- `min_length=1` -/
  | dirEmpty
  /-- `ge=1` -/
  | limitLow
  | value (field message : String)
deriving DecidableEq, Repr

/-- The fields that `MineBody` refuses. -/
def MineFields.errors (f : MineFields) : List FieldError :=
  (if f.dir = [] then [FieldError.dirEmpty]
    else if PyText.strip f.dir = [] then
      [FieldError.value "dir" "'dir' is required and must be non-empty"]
    else []) ++
  (if f.mode ∈ mineModes then []
    else [FieldError.value "mode" "'mode' must be one of: convos, projects, session"]) ++
  (if f.extract.all (· ∈ mineExtracts) then []
    else [FieldError.value "extract" "'extract' must be one of: exchange, general"]) ++
  (if f.limit.all (1 ≤ ·) then [] else [FieldError.limitLow])

/-- `MineBody`: a body that was accepted. -/
structure MineBody where
  dir : Path
  wing : Path
  mode : String
  extract : Option String
  limit : Option ℤ
  tunnels : Option Bool
  background : Bool
  dir_nonblank : PyText.strip dir ≠ []
  wing_normalized : ∃ v, wing = Wings.mineBodyWing v
  mode_valid : mode ∈ mineModes
  extract_valid : ∀ e ∈ extract, e ∈ mineExtracts
  limit_pos : ∀ n ∈ limit, 1 ≤ n

/-- The validators of `MineBody`. -/
def MineBody.validate (f : MineFields) : Except (List FieldError) MineBody :=
  if h : PyText.strip f.dir ≠ [] ∧ f.mode ∈ mineModes ∧ (∀ e ∈ f.extract, e ∈ mineExtracts) ∧
      ∀ n ∈ f.limit, 1 ≤ n then
    .ok { f with
      wing := Wings.mineBodyWing f.wing, dir_nonblank := h.1, wing_normalized := ⟨f.wing, rfl⟩
      mode_valid := h.2.1, extract_valid := h.2.2.1, limit_pos := h.2.2.2 }
  else .error f.errors

/-- **The validators.**  A refusal names a field that is refused, and the bodies are just what is
accepted. -/
theorem MineBody.validate_spec :
    (∀ f es, MineBody.validate f = .error es → es = f.errors ∧ es ≠ []) ∧
    ∀ b : MineBody, ∃ f, MineBody.validate f = .ok b := by
  constructor
  · intro f es h
    rw [validate] at h
    split_ifs at h with hvalid
    obtain rfl := Except.error.inj h
    refine ⟨rfl, fun hnone => hvalid ?_⟩
    simp only [MineFields.errors, List.append_eq_nil_iff, ite_eq_left_iff, List.cons_ne_self,
      imp_false, not_not, Option.all_eq_true, decide_eq_true_eq] at hnone
    obtain ⟨⟨⟨hdir, hmode⟩, hextract⟩, hlimit⟩ := hnone
    refine ⟨fun hblank => ?_, hmode, hextract, hlimit⟩
    rw [if_pos hblank] at hdir
    split_ifs at hdir
  · rintro ⟨dir, wing, mode, extract, limit, tunnels, background, hdir, ⟨v, rfl⟩, hmode, hextract,
      hlimit⟩
    exact ⟨⟨dir, v, mode, extract, limit, tunnels, background⟩,
      dif_pos ⟨hdir, hmode, hextract, hlimit⟩⟩

/-- The payload that the request writes to the queue. -/
def MineBody.payload (b : MineBody) : Payload where
  dir := b.dir
  wing := String.ofList b.wing
  mode := b.mode
  extract := b.extract
  limit := b.limit
  tunnels := b.tunnels

/-! ### The handler -/

/-- The answers with status 400. -/
inductive Refusal
  /-- `'dir' must be an absolute path with no traversal` -/
  | pathShape
  /-- `Directory does not exist` -/
  | missing
  /-- `Cannot mine` -/
  | notMineable (problem : PathProblem)
deriving DecidableEq, Repr

/-- What the handler reads of the daemon. -/
structure MineHost where
  /-- The path of the `mempalace` program. -/
  mempalaceBin : Path
  /-- `PALACE_MINE_LOW_PRIORITY` is not 0. -/
  lowPriority : Bool
  /-- `shutil.which("ionice")` -/
  ionice : Option Path
  /-- `shutil.which("nice")` -/
  nice : Option Path
  /-- Mining is switched off, or a bench holds its lock. -/
  paused : Bool
  /-- A rebuild is in progress. -/
  rebuilding : Bool

/-- `_low_priority` -/
def MineHost.argv (host : MineHost) (args : List Path) : List Path :=
  let cmd := host.mempalaceBin :: args
  if host.lowPriority then
    (match host.ionice with
      | some ionice => [ionice, "-c2".toList, "-n7".toList]
      | none => []) ++
    (match host.nice with
      | some nice => [nice, "-n".toList, "10".toList]
      | none => []) ++ cmd
  else cmd

/-- What the handler does. -/
inductive MineAnswer
  | refused (why : Refusal)
  | paused
  | queued (payload : Payload)
  | lowDisk (free : ℤ)
  | run (argv : List Path)

/-- The checks of the handler on the path. -/
def mineRefusal (env : Env) (directory : Path) (mode : String) : Option Refusal :=
  if ¬ isAbsolute directory ∨ ['.', '.'] ∈ pathParts directory then some .pathShape
  else if env.fs (pathStr directory) = none then some .missing
  else (mineablePathProblem env directory mode).map .notMineable

/-- The arguments that the handler builds. -/
def mineArgs (env : Env) (directory : Path) (body : MineBody) : List Path :=
  ["mine".toList, directory, "--mode".toList, body.mode.toList, "--wing".toList, body.wing] ++
  (match body.extract with
    | some extract => if extract = "" then [] else ["--extract".toList, extract.toList]
    | none => []) ++
  (match body.limit with
    | some limit => if limit = 0 then [] else ["--limit".toList, (toString limit).toList]
    | none => []) ++
  (if tunnelsForTarget env directory body.tunnels then [] else ["--no-tunnels".toList])

/-- `mine` -/
def mine (env : Env) (host : MineHost) (body : MineBody) : MineAnswer :=
  let directory := translateClientPath env.pathMap body.dir
  match mineRefusal env directory body.mode with
  | some why => .refused why
  | none =>
      if host.paused then .paused
      else if host.rebuilding then .queued body.payload
      else if body.background then .queued body.payload
      else match mineDiskFloorProblem env with
        | some free => .lowDisk free
        | none => .run (host.argv (mineArgs env directory body))

/-- The blocking path of the handler: nothing stops it, and the body does not ask for the
queue. -/
def blockingMine (env : Env) (host : MineHost) (body : MineBody) : MineAnswer :=
  mine env { host with paused := false, rebuilding := false } { body with background := false }

/-! ### The queue -/

section Queue

variable (floatRepr : PyFloat → List Char) (floatOf : List Char → PyFloat)

/-- The line that `_enqueue_pending_mine` appends. -/
def queueLine (payload : Payload) (enqueuedAt : String) : Path :=
  Json.dumps floatRepr (.obj [("payload".toList, .obj payload.toFields),
    ("enqueued_at".toList, text enqueuedAt)])

/-- How a pass hands an entry back to the queue. -/
inductive Carry
  /-- The entry is over the cap of the pass, or was displaced. -/
  | deferred
  /-- The replay holds it back. -/
  | requeued
  /-- The palace lock was held. -/
  | lockRetried
  /-- The pass did not end, and the line is recovered as it is. -/
  | recovered

/-- The entry that a pass hands back, when it does not leave the line alone. -/
def Carry.entry (c : Carry) (entry : Fields) : Except PyExc Fields :=
  match c with
  | .deferred => rawCarried entry
  | .lockRetried => rawLockRetried entry
  | _ => .ok entry

/-- The line that a pass writes for a line of its claim. -/
def Carry.write (c : Carry) (line : Path) : Option Path :=
  match c with
  | .recovered => some line
  | _ =>
      match Json.loads floatOf line with
      | some (.obj entry) =>
          (c.entry entry).toOption.map fun entry => Json.dumps floatRepr (.obj entry)
      | _ => none

/-- The line after it has been handed back several times. -/
def carried : List Carry → Path → Option Path
  | [], line => some line
  | c :: cs, line => (c.write floatRepr floatOf line).bind (carried cs)

/-- The entry has the payload, counters that are numbers, and a text that is read back. -/
structure Holds (p : Payload) (entry : Fields) : Prop where
  plain : Json.Plain (.obj entry)
  payload : HasPayload entry p
  deferrals : ∃ n, rawDeferrals entry = .ok n
  retries : ∃ n, (entry.get "lock_retries" (.int 0)).toInt = .ok n

variable {p : Payload} {entry : Fields}

lemma plain_toFields (p : Payload) : Json.Plain (.obj p.toFields) := by
  refine .obj ?_ ?_
  · simp only [Payload.toFields, List.mem_cons, List.not_mem_nil, or_false]
    rintro f (rfl | rfl | rfl | rfl | rfl | rfl)
    · exact .str _
    · exact .str _
    · exact .str _
    · cases p.extract with
      | none => exact .null
      | some e => exact .str _
    · cases p.limit with
      | none => exact .null
      | some n => exact .int n
    · cases p.tunnels with
      | none => exact .null
      | some b => exact .bool b
  · show (["dir", "wing", "mode", "extract", "limit", "tunnels"].map String.toList).Nodup
    decide

/-- What the request writes. -/
lemma holds_queued (p : Payload) (enqueuedAt : String) :
    Holds p [("payload".toList, .obj p.toFields), ("enqueued_at".toList, text enqueuedAt)] where
  plain := by
    refine .obj ?_ ?_
    · simp only [List.mem_cons, List.not_mem_nil, or_false]
      rintro f (rfl | rfl)
      · exact plain_toFields p
      · exact .str _
    · show (["payload", "enqueued_at"].map String.toList).Nodup
      decide
  payload := rfl
  deferrals := ⟨0, rfl⟩
  retries := ⟨0, rfl⟩

/-- Raising a counter keeps the payload. -/
lemma Holds.carry (h : Holds p entry) (c : Carry) : ∃ entry', c.entry entry = .ok entry' ∧
    Holds p entry' := by
  obtain ⟨n, hn⟩ := h.deferrals
  obtain ⟨k, hk⟩ := h.retries
  cases c with
  | deferred =>
      refine ⟨entry.set "drain_deferrals" (.int (n + 1)), ?_, h.plain.set _ (.int _), ?_, ?_, ?_⟩
      · rw [Carry.entry, rawCarried, hn]
        rfl
      · exact (Json.lookup_set_of_ne (by decide) _).trans h.payload
      · rw [rawDeferrals, get_set_self, Json.orZero]
        split_ifs
        · exact ⟨_, rfl⟩
        · exact ⟨_, rfl⟩
      · exact ⟨k, by rw [get_set_of_ne (by decide), hk]⟩
  | lockRetried =>
      refine ⟨entry.set "lock_retries" (.int (k + 1)), ?_, h.plain.set _ (.int _), ?_, ?_, ?_⟩
      · rw [Carry.entry, rawLockRetried, hk]
        rfl
      · exact (Json.lookup_set_of_ne (by decide) _).trans h.payload
      · exact ⟨n, by rw [rawDeferrals, get_set_of_ne (by decide)]; exact hn⟩
      · exact ⟨_, by rw [get_set_self]; rfl⟩
  | requeued => exact ⟨entry, rfl, h⟩
  | recovered => exact ⟨entry, rfl, h⟩

/-- However often it is handed back, the line is the text of an entry with the payload. -/
lemma Holds.carried (h : Holds p entry) (cs : List Carry) :
    ∃ entry', carried floatRepr floatOf cs (Json.dumps floatRepr (.obj entry)) =
      some (Json.dumps floatRepr (.obj entry')) ∧ Holds p entry' := by
  induction cs generalizing entry with
  | nil => exact ⟨entry, rfl, h⟩
  | cons c cs ih =>
      obtain ⟨entry', hentry', h'⟩ := h.carry c
      have hwrite : c.write floatRepr floatOf (Json.dumps floatRepr (.obj entry)) =
          some (Json.dumps floatRepr (.obj entry')) := by
        cases c with
        | recovered =>
            obtain rfl : entry = entry' := Except.ok.inj hentry'
            rfl
        | _ =>
            simp only [Carry.write, Json.loads_dumps h.plain, hentry']
            rfl
      obtain ⟨entry'', hcarried, h''⟩ := ih h'
      exact ⟨entry'', by rw [PalaceDaemon.Mines.carried, hwrite]; exact hcarried, h''⟩

end Queue

/-! ### The two commands -/

/-- A rule that is a check of the entry.  The others leave a valid entry alone: its source is
unchanged, or larger than the miner reads. -/
def RawRejection.IsValidation : RawRejection → Prop
  | .rule .unchanged => False
  | .rule (.overCap _ _) => False
  | _ => True

/-- Why the replay leaves alone an entry that the request would run: the disk is full, the
transcript was mined a moment ago, the source is as it was when it was mined, or it is larger than
the miner reads. -/
def Cause (env : Env) (minedState : MinedState) (directory : Path) (mode : String) : Stop → Prop
  | .held (.lowDisk free) => mineDiskFloorProblem env = some free
  | .held (.recentlyMined wait) => drainRecentlyMined env directory mode minedState = some wait
  | .rejected (.rule .unchanged) => drainShouldSkipUnchanged env directory mode minedState = true
  | .rejected (.rule (.overCap size cap)) =>
      mode ∈ transcriptModes ∧ transcriptOverCap env directory = some (size, cap)
  | _ => False

/-- What the replay and the blocking request do with the same payload. -/
structure SameAsDirect (env : Env) (host : MineHost) (minedState : MinedState) (body : MineBody)
    (entry : Fields) : Prop where
  /-- The replay runs what the request runs. -/
  argv : ∀ job, replay env minedState entry = .ok job →
    blockingMine env host body = .run (host.argv job.cmd)
  /-- What the request runs the replay runs too, unless there is a cause not to. -/
  spawned : ∀ argv, blockingMine env host body = .run argv →
    (∃ job, replay env minedState entry = .ok job ∧ argv = host.argv job.cmd) ∨
    ∃ stop, replay env minedState entry = .error stop ∧
      Cause env minedState (translateClientPath env.pathMap body.dir) body.mode stop
  /-- What is neither run nor refused by a check has its cause. -/
  left : ∀ stop, replay env minedState entry = .error stop →
    (∃ rule, rule.IsValidation ∧ stop = .rejected rule) ∨
      Cause env minedState (translateClientPath env.pathMap body.dir) body.mode stop
  /-- The checks refuse the same payloads, unless the disk is so full that none is checked. -/
  rejected : mineDiskFloorProblem env = none →
    ((∃ rule, rule.IsValidation ∧ replay env minedState entry = .error (.rejected rule)) ↔
      ∃ why, blockingMine env host body = .refused why)

section Same

variable {env : Env} {host : MineHost} {minedState : MinedState} {body : MineBody} {e : Entry}

lemma MineBody.dir_ne_nil (body : MineBody) : body.dir ≠ [] := by
  intro h
  have hblank := body.dir_nonblank
  rw [h] at hblank
  exact hblank rfl

/-- A wing is made of letters, digits and underscores. -/
lemma MineBody.wing_printable (body : MineBody) : '\x00' ∉ body.payload.wing.toList := by
  obtain ⟨v, hv⟩ := body.wing_normalized
  intro h
  rw [MineBody.payload, String.toList_ofList, hv] at h
  exact absurd ((Wings.isSlug_normalizeWingSlug _).chars _ h) (by decide)

/-- What the request refuses, the replay rejects. -/
lemma gate_of_refused (hp : e.payload = body.payload) (hdisk : mineDiskFloorProblem env = none)
    {directory : Path} (htranslate : translateClientPath env.pathMap body.payload.dir = directory)
    {why : Refusal} (h : mineRefusal env directory body.mode = some why) :
    ∃ rule, (RawRejection.rule rule).IsValidation ∧ gate env minedState e = .reject rule := by
  have hdir : body.payload.dir ≠ [] := body.dir_ne_nil
  have hmode : body.payload.mode ∈ mineValidModes := body.mode_valid
  rw [gate, hdisk, hp]
  change mineRefusal env directory body.payload.mode = _ at h
  simp only
  rw [if_neg hdir, htranslate]
  rw [mineRefusal] at h
  split_ifs at h with hshape hmissing
  · exact ⟨.pathShape, trivial, if_pos hshape⟩
  · refine ⟨.notMineable .notFileOrDir, trivial, ?_⟩
    rw [if_neg hshape, if_neg (not_not.2 hmode), mineablePathProblem, hmissing]
  · obtain ⟨problem, hproblem, -⟩ := Option.map_eq_some_iff.1 h
    refine ⟨.notMineable problem, trivial, ?_⟩
    rw [if_neg hshape, if_neg (not_not.2 hmode), hproblem]

/-- What the request accepts, the replay runs or leaves alone for a cause. -/
lemma gate_of_accepted (hp : e.payload = body.payload) (hdisk : mineDiskFloorProblem env = none)
    {directory : Path} (htranslate : translateClientPath env.pathMap body.payload.dir = directory)
    (h : mineRefusal env directory body.mode = none) :
    (∃ job, gate env minedState e = .spawn job ∧ job.cmd = mineArgs env directory body) ∨
    ∃ stop, (gate env minedState e).outcome = .error stop ∧
      Cause env minedState directory body.mode stop := by
  have hdir : body.payload.dir ≠ [] := body.dir_ne_nil
  have hmode : body.payload.mode ∈ mineValidModes := body.mode_valid
  have hextract : ¬ body.payload.extract.any (· ∉ mineValidExtracts) = true := by
    intro hany
    obtain ⟨extract, hextract, hnot⟩ := (Option.any_eq_true _ _).1 hany
    exact of_decide_eq_true hnot (body.extract_valid extract hextract)
  rw [gate, hdisk, hp]
  change mineRefusal env directory body.payload.mode = _ at h
  simp only
  rw [if_neg hdir, htranslate]
  rw [mineRefusal] at h
  split_ifs at h with hshape hmissing
  rw [if_neg hshape, if_neg (not_not.2 hmode), Option.map_eq_none_iff.1 h]
  simp only
  by_cases hskip : drainShouldSkipUnchanged env directory body.payload.mode minedState = true
  · rw [if_pos hskip]
    exact .inr ⟨.rejected (.rule .unchanged), rfl, hskip⟩
  rw [if_neg hskip]
  cases hwait : drainRecentlyMined env directory body.payload.mode minedState with
  | some wait => exact .inr ⟨.held (.recentlyMined wait), rfl, hwait⟩
  | none =>
      simp only [if_neg hextract]
      rcases hcap : (if body.payload.mode ∈ transcriptModes then transcriptOverCap env directory
        else none) with _ | ⟨size, cap⟩
      · refine .inl ⟨_, rfl, ?_⟩
        simp only [Job.cmd, mineArgs, MineBody.payload, String.toList_ofList]
        cases body.extract <;> cases body.limit <;> rfl
      · obtain ⟨htranscript, hover⟩ := Option.ite_none_right_eq_some.1 hcap
        exact .inr ⟨.rejected (.rule (.overCap size cap)), rfl, htranscript, hover⟩

/-- A cause is no check of the entry. -/
lemma Cause.not_validation {directory : Path} {mode : String} {stop : Stop}
    (h : Cause env minedState directory mode stop) :
    ¬ ∃ rule : RawRejection, rule.IsValidation ∧ stop = .rejected rule := by
  rintro ⟨rule, hrule, rfl⟩
  rcases rule with rule | _
  · cases rule with
    | unchanged => exact hrule
    | overCap size cap => exact hrule
    | _ => exact h
  all_goals exact h

/-- The replay runs the entry. -/
lemma sameAsDirect_of_ok {job : Job} (hreplay : replay env minedState entry = .ok job)
    (hblocking : blockingMine env host body = .run (host.argv job.cmd)) :
    SameAsDirect env host minedState body entry where
  argv job' hjob := by
    obtain rfl : job = job' := Except.ok.inj (hreplay.symm.trans hjob)
    exact hblocking
  spawned argv hargv :=
    .inl ⟨job, hreplay, MineAnswer.run.inj (hargv.symm.trans hblocking)⟩
  left stop hstop := by cases hreplay.symm.trans hstop
  rejected _ := by
    refine iff_of_false ?_ ?_
    · rintro ⟨rule, -, hrule⟩
      cases hreplay.symm.trans hrule
    · rintro ⟨why, hwhy⟩
      cases hblocking.symm.trans hwhy

/-- The replay leaves the entry alone for a cause, and the request does not refuse it. -/
lemma sameAsDirect_of_cause {stop : Stop} (hreplay : replay env minedState entry = .error stop)
    (hcause : Cause env minedState (translateClientPath env.pathMap body.dir) body.mode stop)
    (haccepted : mineDiskFloorProblem env = none →
      ¬ ∃ why, blockingMine env host body = .refused why) :
    SameAsDirect env host minedState body entry where
  argv job hjob := by cases hreplay.symm.trans hjob
  spawned _ _ := .inr ⟨stop, hreplay, hcause⟩
  left stop' hstop := by
    obtain rfl : stop = stop' := Except.error.inj (hreplay.symm.trans hstop)
    exact .inr hcause
  rejected hdisk := by
    refine iff_of_false ?_ (haccepted hdisk)
    rintro ⟨rule, hrule, hrejected⟩
    exact hcause.not_validation ⟨rule, hrule, Except.error.inj (hreplay.symm.trans hrejected)⟩

/-- Both refuse the payload. -/
lemma sameAsDirect_of_refused {rule : RawRejection} {why : Refusal} (hrule : rule.IsValidation)
    (hreplay : replay env minedState entry = .error (.rejected rule))
    (hblocking : blockingMine env host body = .refused why) :
    SameAsDirect env host minedState body entry where
  argv job hjob := by cases hreplay.symm.trans hjob
  spawned argv hargv := by cases hblocking.symm.trans hargv
  left stop hstop := .inl ⟨rule, hrule, Except.error.inj (hstop.symm.trans hreplay)⟩
  rejected _ := iff_of_true ⟨rule, hrule, hreplay⟩ ⟨why, hblocking⟩

/-- An entry with the payload of the body is treated as the body is. -/
lemma sameAsDirect (env : Env) (host : MineHost) (minedState : MinedState) {body : MineBody}
    (h : Holds body.payload entry) : SameAsDirect env host minedState body entry := by
  have hreplay : replay env minedState entry =
      (gate env minedState ⟨body.payload, "", 0, 0⟩).outcome :=
    replay_of_hasPayload h.payload body.wing_printable
  obtain ⟨directory, htranslate⟩ : ∃ d, translateClientPath env.pathMap body.payload.dir = d :=
    ⟨_, rfl⟩
  have hdirectory : translateClientPath env.pathMap body.dir = directory := htranslate
  have hblocking : blockingMine env host body = match mineRefusal env directory body.mode with
      | some why => .refused why
      | none => match mineDiskFloorProblem env with
        | some free => .lowDisk free
        | none => .run (host.argv (mineArgs env directory body)) := by
    rw [← htranslate]
    rfl
  cases hdisk : mineDiskFloorProblem env with
  | some free =>
      have hgate : gate env minedState ⟨body.payload, "", 0, 0⟩ = .hold (.lowDisk free) := by
        rw [gate, hdisk]
      refine sameAsDirect_of_cause (hreplay.trans (congrArg _ hgate)) hdisk fun hnone => ?_
      cases hdisk.symm.trans hnone
  | none =>
      rw [hdisk] at hblocking
      cases hrefusal : mineRefusal env directory body.mode with
      | some why =>
          rw [hrefusal] at hblocking
          obtain ⟨rule, hrule, hgate⟩ := @gate_of_refused env minedState body
            ⟨body.payload, "", 0, 0⟩ rfl hdisk directory htranslate why hrefusal
          exact sameAsDirect_of_refused hrule (hreplay.trans (congrArg _ hgate)) hblocking
      | none =>
          rw [hrefusal] at hblocking
          rcases @gate_of_accepted env minedState body ⟨body.payload, "", 0, 0⟩ rfl hdisk directory
            htranslate hrefusal with ⟨job, hgate, hcmd⟩ | ⟨stop, hstop, hcause⟩
          · exact sameAsDirect_of_ok (hreplay.trans (congrArg _ hgate)) (by rw [hblocking, hcmd])
          · refine sameAsDirect_of_cause (hreplay.trans hstop) (hdirectory ▸ hcause) fun _ => ?_
            rintro ⟨why, hwhy⟩
            cases hblocking.symm.trans hwhy

/-- **A queued mine equals a direct mine.**  However often a pass has handed the line of a body
back to the queue, it is read as an entry, and the replay of this entry does what the blocking
request does, unless it has a cause to leave it alone. -/
theorem queued_eq_direct (floatRepr : PyFloat → List Char) (floatOf : List Char → PyFloat)
    (env : Env) (host : MineHost) (minedState : MinedState) (body : MineBody)
    (enqueuedAt : String) (carries : List Carry) :
    ∃ line entry,
      carried floatRepr floatOf carries (queueLine floatRepr body.payload enqueuedAt) = some line ∧
      Json.loads floatOf line = some (.obj entry) ∧
      SameAsDirect env host minedState body entry := by
  obtain ⟨entry, hcarried, hentry⟩ := @Holds.carried floatRepr floatOf body.payload _
    (holds_queued body.payload enqueuedAt) carries
  exact ⟨_, entry, hcarried, Json.loads_dumps hentry.plain,
    sameAsDirect env host minedState hentry⟩

end Same

end PalaceDaemon.Mines

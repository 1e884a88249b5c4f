/-
How a hook hands a transcript to the daemon.

`_ingest_transcript_via_daemon` claims the slot of its target, a lock that another hook may hold,
and posts the transcript to be mined.  `_ingest_with_wake_and_journal` calls it, wakes a sleeping
host and calls it again when the failure was one of the connection, and writes the transcript to
the journal when nothing came of it.

Each system call and each answer of the daemon is an input: an `Attempt` holds those of one call
of the inner function.  What the calls did is the list of their `Event`s.
-/
import PalaceDaemon.Hook.Wing
import PalaceDaemon.Lib.Json

namespace PalaceDaemon.Hook

open PalaceDaemon.Wings

/-! ### The slot of a target -/

/-- The end of `flock(LOCK_EX | LOCK_NB)`. -/
inductive Flock
  | locked
  /-- `BlockingIOError`: another process holds the lock. -/
  | wouldBlock
  /-- Any other `OSError`. -/
  | failed
deriving DecidableEq, Repr

/-- The system calls of `_try_claim_mine_slot`. -/
structure SlotCalls where
  /-- `mkdir` succeeds. -/
  mkdir : Bool
  /-- The target can be encoded in UTF-8, for the hash that names the slot. -/
  encodes : Bool
  /-- `open` succeeds. -/
  opened : Bool
  flock : Flock
deriving DecidableEq, Repr

/-- `_try_claim_mine_slot`: whether the caller has the slot. -/
def tryClaimMineSlot (c : SlotCalls) : Except Exc Bool :=
  if !c.mkdir then .ok false
  else if !c.encodes then .error .valueError
  else if !c.opened then .ok false
  else
    match c.flock with
    | .locked => .ok true
    | .wouldBlock => .ok false
    | .failed => .ok false

/-- Another live hook holds the slot. -/
def SlotCalls.held (c : SlotCalls) : Bool :=
  c.mkdir && c.encodes && c.opened && c.flock == .wouldBlock

/-- The slot is this hook's. -/
def SlotCalls.obtained (c : SlotCalls) : Bool :=
  c.mkdir && c.encodes && c.opened && c.flock == .locked

/-! ### The POST -/

/-- How a POST ends. -/
inductive Reply
  /-- The daemon answers with a status of success and a body, null where it is not JSON. -/
  | answered (status : ℕ) (body : Json)
  /-- `HTTPError` -/
  | httpError (code : ℕ) (reason : Text)
  /-- Any other exception, with its text. -/
  | failed (message : Text)

/-- A decimal number. -/
def decimal (n : ℕ) : Text := (Nat.repr n).toList

/-- `_post_mine`: whether the daemon took the request, and its answer or the reason of the
failure. -/
def postMine : Reply → Bool × Json
  | .answered status body =>
      if status = 200 ∨ status = 202 then (true, body)
      else (false, .obj [("error".toList, .str ("HTTP ".toList ++ decimal status))])
  | .httpError code reason =>
      (false, .obj [("error".toList, .str ("HTTP ".toList ++ decimal code ++ ' ' :: reason))])
  | .failed message =>
      (false, .obj [("error".toList, .str ("network/transport: ".toList ++ message))])

/-- `needle in text` -/
def contains (needle text : Text) : Bool := (afterFirst needle text).isSome

/-- The texts that make a failure one of the connection. -/
def connectionTexts : List Text :=
  ["network/transport".toList, "no route to host".toList, "connection refused".toList,
    "timed out".toList, "timeout".toList, "name or service not known".toList,
    "temporary failure in name resolution".toList]

/-- `_is_wake_eligible_error` -/
def isWakeEligibleError (error : Text) : Bool :=
  if error = [] then false
  else if "http".toList.isPrefixOf (lower error) then false
  else connectionTexts.any fun t => contains t (lower error)

/-- `_is_timeout_error` -/
def isTimeoutError (err : Text) : Bool :=
  contains "timed out".toList (lower err) || contains "timeout".toList (lower err)

/-! ### One ingest -/

/-- The body of a POST to `/mine`. -/
structure MinePost where
  dir : Text
  mode : Text
  background : Bool
  wing : Option Text
deriving DecidableEq, Repr

/-- The target of a slot. -/
structure Target where
  dir : Text
  mode : Text
  wing : Text
deriving DecidableEq, Repr

/-- `p.suffix` -/
def FsPath.suffix (p : FsPath) : Text :=
  let ext := (p.name.reverse.takeWhile (· ≠ '.')).reverse
  if ext ≠ [] ∧ ext.length + 1 < p.name.length then '.' :: ext else []

/-- `_validate_transcript_path`; `resolved` is `Path(transcript_path).expanduser().resolve()`. -/
def validateTranscriptPath (resolved : Except Exc FsPath) (transcriptPath : Text) :
    Except Exc (Option FsPath) :=
  if transcriptPath = [] then .ok none
  else
    match resolved with
    | .error e => .error e
    | .ok path =>
        if path.suffix ∉ [".jsonl".toList, ".json".toList] then .ok none
        else if "..".toList ∈ Mines.pathParts transcriptPath then .ok none
        else .ok (some path)

/-- What one call of `_ingest_transcript_via_daemon` meets. -/
structure Attempt where
  /-- `Path(transcript_path).expanduser().resolve()` -/
  resolved : Except Exc FsPath
  /-- Whether the path is a file of 100 bytes or more. -/
  large : Except Exc Bool
  /-- `_load_hook_settings()` -/
  settings : Json
  slot : SlotCalls
  /-- How the POST of the convos mine ends. -/
  reply : Reply
  /-- How the POST of the session manifest ends. -/
  manifest : Reply

/-- What a hook does outside itself. -/
inductive Event
  | claimed (target : Target) (calls : SlotCalls)
  | posted (body : MinePost) (reply : Reply)
  | woke
  | journaled (line : Json)

/-- The dictionary `failure_out`, when it is filled. -/
structure Failure where
  error : Text
  eligible : Bool

/-- The failure with the given text. -/
def Failure.of (error : Text) : Failure := ⟨error, isWakeEligibleError error⟩

/-- The text of a value that is one. -/
def textOf : Json → Text
  | .str s => s
  | _ => []

/-- The `try` block around the POST of the convos mine: `ok`, and the failure. -/
def convosMine (reply : Reply) : Bool × Option Failure :=
  let (ok, response) := postMine reply
  if ok then
    match response.orEmpty.getD "warning".toList (.str []) with
    | some _ => (true, none)
    -- `.get` raises, after `ok` was set
    | none => (true, some (.of (['\''] ++ response.typeName ++
        "' object has no attribute 'get'".toList)))
  else
    match response.orEmpty.getD "error".toList (.str "unknown".toList) with
    | some err => (false, some (.of (textOf err)))
    | none => (false, some (.of (['\''] ++ response.typeName ++
        "' object has no attribute 'get'".toList)))

/-- `"convos"` -/
def convos : Text := "convos".toList

/-- `"session"` -/
def session : Text := "session".toList

/-- The body that `_post_mine` sends for the mode. -/
def minePost (dir mode wing : Text) : MinePost where
  dir := dir
  mode := mode
  background := true
  wing := if wing = [] then none else some wing

/-- The target of the mine, if the transcript can be ingested. -/
def Attempt.mineDir (a : Attempt) (transcriptPath : Text) : Except Exc (Option Text) :=
  match validateTranscriptPath a.resolved transcriptPath with
  | .error e => .error e
  | .ok none => .ok none
  | .ok (some path) =>
      match a.large with
      | .error e => .error e
      | .ok large => .ok (if large then some path.str else none)

/-- `_ingest_transcript_via_daemon` -/
def ingestTranscriptViaDaemon (transcriptPath wing : Text) (a : Attempt) :
    List Event × Except Exc (Bool × Option Failure) :=
  match a.mineDir transcriptPath with
  | .error e => ([], .error e)
  | .ok none => ([], .ok (false, none))
  | .ok (some dir) =>
      match a.settings.getD "ingest_transcripts".toList (.bool true) with
      | none => ([], .error .attributeError)
      | some ingestTranscripts =>
          if !ingestTranscripts.truthy then ([], .ok (false, none))
          else
            let claim := Event.claimed ⟨dir, convos, wing⟩ a.slot
            match tryClaimMineSlot a.slot with
            | .error e => ([claim], .error e)
            | .ok false => ([claim], .ok (true, none))
            | .ok true =>
                ([claim, .posted (minePost dir convos wing) a.reply,
                  .posted (minePost dir session wing) a.manifest], .ok (convosMine a.reply))

/-! ### Waking and the journal -/

/-- The system calls of `_journal_failed_ingest`. -/
structure JournalCalls where
  /-- `mkdir` succeeds. -/
  mkdir : Bool
  /-- `open` succeeds. -/
  opened : Bool
  /-- The line can be encoded in UTF-8. -/
  encodes : Bool
  /-- The write and the flush succeed. -/
  written : Bool
deriving DecidableEq, Repr

/-- The journal directory is writable. -/
def JournalCalls.writable (j : JournalCalls) : Bool := j.mkdir && j.opened && j.written

/-- The line that `_journal_failed_ingest` writes. -/
def journalLine (transcriptPath wing sessionId ts : Text) : Json :=
  .obj [("transcript_path".toList, .str transcriptPath), ("wing".toList, .str wing),
    ("session_id".toList, .str sessionId), ("ts".toList, .str ts)]

/-- `_journal_failed_ingest` -/
def journalFailedIngest (line : Json) (j : JournalCalls) : List Event × Except Exc Unit :=
  if !j.mkdir || !j.opened then ([], .ok ())
  else if !j.encodes then ([], .error .valueError)
  else if !j.written then ([], .ok ())
  else ([.journaled line], .ok ())

/-- What one call of `_ingest_with_wake_and_journal` meets. -/
structure Outage where
  first : Attempt
  /-- Whether `_load_auto_wake()` gives settings. -/
  autoWake : Except Exc Bool
  /-- `_attempt_wake(daemon_url, wake_settings)` -/
  wake : Except Exc Bool
  second : Attempt
  journal : JournalCalls
  /-- `datetime.now()` -/
  now : Text

/-- The dictionary `outcome_out`. -/
inductive Status
  | ok
  | timeout (detail : Text)
  | failed (detail : Text)
deriving DecidableEq, Repr

/-- The status of a failure. -/
def Status.ofFailure (failure : Option Failure) : Status :=
  let err := (failure.map Failure.error).getD "unknown".toList
  if isTimeoutError err then .timeout err else .failed err

/-- The end of `_ingest_with_wake_and_journal` that writes to the journal. -/
def giveUp (line : Json) (j : JournalCalls) (events : List Event) (failure : Option Failure) :
    List Event × Except Exc (Bool × Status) :=
  let (events', r) := journalFailedIngest line j
  (events ++ events', r.map fun _ => (false, Status.ofFailure failure))

/-- `_ingest_with_wake_and_journal` after its last attempt. -/
def finish (line : Json) (j : JournalCalls) (events : List Event) :
    Except Exc (Bool × Option Failure) → List Event × Except Exc (Bool × Status)
  | .error e => (events, .error e)
  | .ok (true, _) => (events, .ok (true, .ok))
  | .ok (false, failure) => giveUp line j events failure

/-- `_ingest_with_wake_and_journal`: its value and `outcome_out`. -/
def ingestWithWakeAndJournal (o : Outage) (transcriptPath wing sessionId : Text) :
    List Event × Except Exc (Bool × Status) :=
  let line := journalLine transcriptPath wing sessionId o.now
  let (events, r) := ingestTranscriptViaDaemon transcriptPath wing o.first
  match r with
  | .ok (false, some failure) =>
      if failure.eligible then
        match o.autoWake with
        | .error e => (events, .error e)
        | .ok false => giveUp line o.journal events failure
        | .ok true =>
            match o.wake with
            | .error e => (events ++ [.woke], .error e)
            | .ok false => giveUp line o.journal (events ++ [.woke]) failure
            | .ok true =>
                let (events', r') := ingestTranscriptViaDaemon transcriptPath wing o.second
                finish line o.journal (events ++ [.woke] ++ events') r'
      else giveUp line o.journal events failure
  | r => finish line o.journal events r

/-! ### What a truthful outcome is -/

variable (counts : Json → Bool)

/-- The daemon accepted the mine: it answered with 200 or 202, and with a body that counts.  An
answer that mining is paused also has the status 200; whether it counts is left open. -/
def Reply.accepted : Reply → Bool
  | .answered status body => (status == 200 || status == 202) && counts body
  | _ => false

/-- The daemon accepted a convos mine of one of the targets with the wing, or another live hook
holds its slot. -/
def Taken (dirs : Text → Prop) (wing : Text) (events : List Event) : Prop :=
  (∃ dir reply, dirs dir ∧ Event.posted (minePost dir convos wing) reply ∈ events ∧
    reply.accepted counts = true) ∨
  ∃ dir calls, dirs dir ∧ Event.claimed ⟨dir, convos, wing⟩ calls ∈ events ∧ calls.held = true

/-- The target is the transcript itself, as an attempt has resolved its path. -/
def Outage.IsTranscript (o : Outage) (transcriptPath dir : Text) : Prop :=
  ∃ a ∈ [o.first, o.second], ∃ path : FsPath,
    validateTranscriptPath a.resolved transcriptPath = .ok (some path) ∧ dir = path.str

/-- The call returns; if it returns true the transcript is taken, and if it returns false and the
journal is writable the line is in the journal. -/
def Truthful (o : Outage) (transcriptPath wing sessionId : Text) : Prop :=
  ∃ result status,
    (ingestWithWakeAndJournal o transcriptPath wing sessionId).2 = .ok (result, status) ∧
    (result = true → Taken counts (o.IsTranscript transcriptPath) wing
      (ingestWithWakeAndJournal o transcriptPath wing sessionId).1) ∧
    (result = false → o.journal.writable = true →
      .journaled (journalLine transcriptPath wing sessionId o.now) ∈
        (ingestWithWakeAndJournal o transcriptPath wing sessionId).1)

/-! ### When it is -/

/-- The cases that the calls and answers of an attempt make. -/
inductive Fate
  /-- An exception that no handler takes. -/
  | raised
  /-- The slot is neither obtained nor held by another hook, or the answer does not count. -/
  | lost
  /-- There is nothing to post: no transcript of a size, or ingesting is turned off. -/
  | refused
  /-- The slot is held by another hook. -/
  | held
  | accepted
  /-- The daemon did not answer with success. -/
  | failed (eligible : Bool)
deriving DecidableEq, Repr

/-- The case of an attempt once it has the slot. -/
def Reply.fate (reply : Reply) : Fate :=
  if reply.accepted counts then .accepted
  else if (postMine reply).1 then .lost
  else .failed (((convosMine reply).2.map Failure.eligible).getD false)

/-- The case of an attempt that claims its slot. -/
def SlotCalls.fate (c : SlotCalls) (afterwards : Fate) : Fate :=
  if c.held then .held
  else if c.obtained then afterwards
  else if c.mkdir && !c.encodes then .raised
  else .lost

/-- The case of an attempt. -/
def Attempt.fate (transcriptPath : Text) (a : Attempt) : Fate :=
  match a.mineDir transcriptPath, a.settings.getD "ingest_transcripts".toList (.bool true) with
  | .error _, _ => .raised
  | .ok none, _ => .refused
  | .ok (some _), none => .raised
  | .ok (some _), some v => if v.truthy then a.slot.fate (a.reply.fate counts) else .refused

/-- The journal's line cannot be written as UTF-8, where the journal can be opened. -/
def JournalCalls.raises (j : JournalCalls) : Bool := j.mkdir && j.opened && !j.encodes

/-- The attempt ends without success, and nothing raises. -/
def Fate.gaveUp : Fate → Bool
  | refused | failed _ => true
  | _ => false

/-- The host is woken, and there is a second attempt. -/
def Outage.retries (transcriptPath : Text) (o : Outage) : Prop :=
  o.first.fate counts transcriptPath = .failed true ∧ o.autoWake = .ok true ∧ o.wake = .ok true

/-- What has to go right: no attempt that is made loses its slot to an error of the system, and
nothing raises. -/
structure Outage.Fits (transcriptPath : Text) (o : Outage) : Prop where
  first : o.first.fate counts transcriptPath ≠ .raised ∧ o.first.fate counts transcriptPath ≠ .lost
  autoWake : o.first.fate counts transcriptPath = .failed true → ∃ b, o.autoWake = .ok b
  wake : o.first.fate counts transcriptPath = .failed true → o.autoWake = .ok true →
    ∃ b, o.wake = .ok b
  second : o.retries counts transcriptPath →
    o.second.fate counts transcriptPath ≠ .raised ∧ o.second.fate counts transcriptPath ≠ .lost
  journal : (o.first.fate counts transcriptPath).gaveUp = true →
    (o.retries counts transcriptPath → (o.second.fate counts transcriptPath).gaveUp = true) →
    o.journal.raises = false

/-- How an attempt of each case ends. -/
def Fate.Ends (fate : Fate) (dirs : Text → Prop) (wing : Text)
    (out : List Event × Except Exc (Bool × Option Failure)) : Prop :=
  match fate with
  | raised => ∃ e, out.2 = .error e
  | lost => ¬ Taken counts dirs wing out.1 ∧ ∃ failure, out.2 = .ok (true, failure)
  | held | accepted => Taken counts dirs wing out.1 ∧ ∃ failure, out.2 = .ok (true, failure)
  | refused => ¬ Taken counts dirs wing out.1 ∧ out.2 = .ok (false, none)
  | failed eligible => ¬ Taken counts dirs wing out.1 ∧
      ∃ failure, out.2 = .ok (false, some failure) ∧ failure.eligible = eligible

variable {counts} {dirs : Text → Prop}

lemma Reply.accepted_iff {reply : Reply} : reply.accepted counts = true ↔
    (postMine reply).1 = true ∧ counts (postMine reply).2 = true := by
  cases reply with
  | answered status body =>
    simp only [Reply.accepted, postMine, Bool.and_eq_true, Bool.or_eq_true, beq_iff_eq]
    split_ifs with h
    · simp [h]
    · simp [h]
  | httpError code reason => simp [Reply.accepted, postMine]
  | failed message => simp [Reply.accepted, postMine]

lemma convosMine_fst (reply : Reply) : (convosMine reply).1 = (postMine reply).1 := by
  simp only [convosMine]
  cases hok : (postMine reply).1 with
  | true =>
    cases (postMine reply).2.orEmpty.getD "warning".toList (.str []) <;> rfl
  | false =>
    cases (postMine reply).2.orEmpty.getD "error".toList (.str "unknown".toList) <;> rfl

/-- A POST that fails leaves the reason. -/
lemma convosMine_failed {reply : Reply} (h : (postMine reply).1 = false) :
    ∃ failure, (convosMine reply).2 = some failure := by
  simp only [convosMine, h, Bool.false_eq_true, if_false]
  cases (postMine reply).2.orEmpty.getD "error".toList (.str "unknown".toList) <;> exact ⟨_, rfl⟩

lemma not_taken_nil (wing : Text) : ¬ Taken counts dirs wing [] := by
  rintro (⟨_, _, -, hmem, _⟩ | ⟨_, _, -, hmem, _⟩) <;> cases hmem

lemma taken_claimed {wing : Text} {dir : Text} {c : SlotCalls} (hdir : dirs dir) :
    Taken counts dirs wing [.claimed ⟨dir, convos, wing⟩ c] ↔ c.held = true := by
  constructor
  · rintro (⟨_, _, -, hmem, _⟩ | ⟨_, c', -, hmem, hheld⟩)
    · simp at hmem
    · obtain ⟨-, rfl⟩ : _ ∧ c' = c := by simpa using hmem
      exact hheld
  · intro hheld
    exact .inr ⟨dir, c, hdir, by simp, hheld⟩

lemma convos_ne_session : convos ≠ session := by decide

lemma taken_posted {wing dir : Text} {c : SlotCalls} {reply manifest : Reply} (hdir : dirs dir)
    (hc : c.held = false) :
    Taken counts dirs wing [.claimed ⟨dir, convos, wing⟩ c,
      .posted (minePost dir convos wing) reply, .posted (minePost dir session wing) manifest] ↔
      reply.accepted counts = true := by
  constructor
  · rintro (⟨dir', reply', -, hmem, hacc⟩ | ⟨_, c', -, hmem, hheld⟩)
    · simp only [List.mem_cons, List.not_mem_nil, or_false, reduceCtorEq, false_or,
        Event.posted.injEq] at hmem
      rcases hmem with ⟨-, rfl⟩ | ⟨hpost, -⟩
      · exact hacc
      · -- the manifest is not a convos mine
        exact absurd (congrArg MinePost.mode hpost) convos_ne_session
    · simp only [List.mem_cons, List.not_mem_nil, or_false, reduceCtorEq, Event.claimed.injEq]
        at hmem
      rw [hmem.2, hc] at hheld
      cases hheld
  · intro hacc
    exact .inl ⟨dir, reply, hdir, by simp, hacc⟩

lemma tryClaimMineSlot_of_held {c : SlotCalls} (h : c.held = true) :
    tryClaimMineSlot c = .ok false := by
  simp only [SlotCalls.held, Bool.and_eq_true, beq_iff_eq] at h
  obtain ⟨⟨⟨hmkdir, hencodes⟩, hopened⟩, hflock⟩ := h
  simp [tryClaimMineSlot, hmkdir, hencodes, hopened, hflock]

lemma tryClaimMineSlot_of_obtained {c : SlotCalls} (h : c.obtained = true) :
    tryClaimMineSlot c = .ok true := by
  simp only [SlotCalls.obtained, Bool.and_eq_true, beq_iff_eq] at h
  obtain ⟨⟨⟨hmkdir, hencodes⟩, hopened⟩, hflock⟩ := h
  simp [tryClaimMineSlot, hmkdir, hencodes, hopened, hflock]

/-- Without the slot, a claim that does not raise looks like one that another hook holds. -/
lemma tryClaimMineSlot_of_lost {c : SlotCalls} (h : c.obtained = false) :
    tryClaimMineSlot c =
      if c.mkdir && !c.encodes then .error .valueError else .ok false := by
  obtain ⟨mkdir, encodes, opened, flock⟩ := c
  cases mkdir <;> cases encodes <;> cases opened <;> cases flock <;> first | rfl | cases h

lemma not_held_of_obtained {c : SlotCalls} (h : c.obtained = true) : c.held = false := by
  obtain ⟨mkdir, encodes, opened, flock⟩ := c
  cases flock with
  | locked => simp [SlotCalls.held]
  | wouldBlock => simp [SlotCalls.obtained] at h
  | failed => simp [SlotCalls.held]

/-- An attempt that has its slot ends as the answer says. -/
lemma ends_reply_fate (wing : Text) {dir : Text} {c : SlotCalls} {reply manifest : Reply}
    (hdir : dirs dir) (hc : c.held = false) :
    (reply.fate counts).Ends counts dirs wing
      ([.claimed ⟨dir, convos, wing⟩ c, .posted (minePost dir convos wing) reply,
        .posted (minePost dir session wing) manifest], .ok (convosMine reply)) := by
  have hfst := convosMine_fst reply
  rw [Reply.fate]
  split_ifs with hacc hok
  · refine ⟨(taken_posted hdir hc).2 hacc, (convosMine reply).2, ?_⟩
    rw [← (Reply.accepted_iff.1 hacc).1, ← hfst]
  · refine ⟨fun htaken => hacc ((taken_posted hdir hc).1 htaken), (convosMine reply).2, ?_⟩
    rw [← hok, ← hfst]
  · rw [Bool.not_eq_true] at hok
    obtain ⟨failure, hfailure⟩ := convosMine_failed hok
    refine ⟨fun htaken => hacc ((taken_posted hdir hc).1 htaken), failure, ?_, ?_⟩
    · rw [← hok, ← hfst, ← hfailure]
    · rw [hfailure]
      rfl

/-- What is mined is the path that was validated. -/
lemma dirs_of_mineDir {transcriptPath dir : Text} {a : Attempt}
    (hdirs : ∀ path, validateTranscriptPath a.resolved transcriptPath = .ok (some path) →
      dirs path.str)
    (h : a.mineDir transcriptPath = .ok (some dir)) : dirs dir := by
  rw [Attempt.mineDir] at h
  split at h
  · cases h
  · cases h
  · next path hpath =>
      split at h
      · cases h
      · next large _ =>
          cases large with
          | false => cases h
          | true =>
              obtain rfl := Option.some.inj (Except.ok.inj h)
              exact hdirs path hpath

/-- Each attempt ends as its case says. -/
lemma ends_fate (counts : Json → Bool) {transcriptPath : Text} (wing : Text) (a : Attempt)
    (hdirs : ∀ path, validateTranscriptPath a.resolved transcriptPath = .ok (some path) →
      dirs path.str) :
    (a.fate counts transcriptPath).Ends counts dirs wing
      (ingestTranscriptViaDaemon transcriptPath wing a) := by
  rw [ingestTranscriptViaDaemon, Attempt.fate]
  rcases hmine : a.mineDir transcriptPath with e | _ | dir
  · exact ⟨e, rfl⟩
  · exact ⟨not_taken_nil wing, rfl⟩
  · have hdir := dirs_of_mineDir hdirs hmine
    cases a.settings.getD "ingest_transcripts".toList (.bool true) with
    | none => exact ⟨_, rfl⟩
    | some v => cases hv : v.truthy with
      | false => simpa [hv] using ⟨not_taken_nil wing, rfl⟩
      | true =>
        simp only [hv, if_true, Bool.not_true, Bool.false_eq_true, if_false, SlotCalls.fate]
        split_ifs with hheld hobtained hencodes
        · rw [tryClaimMineSlot_of_held hheld]
          exact ⟨(taken_claimed hdir).2 hheld, _, rfl⟩
        · rw [tryClaimMineSlot_of_obtained hobtained]
          exact ends_reply_fate wing hdir (not_held_of_obtained hobtained)
        · rw [tryClaimMineSlot_of_lost (by simpa using hobtained), if_pos hencodes]
          exact ⟨_, rfl⟩
        · rw [tryClaimMineSlot_of_lost (by simpa using hobtained), if_neg hencodes]
          exact ⟨fun htaken => hheld ((taken_claimed hdir).1 htaken), _, rfl⟩

lemma Taken.append_left {wing : Text} {l l' : List Event} (h : Taken counts dirs wing l') :
    Taken counts dirs wing (l ++ l') := by
  rcases h with ⟨dir, reply, hdir, hmem, hacc⟩ | ⟨dir, c, hdir, hmem, hheld⟩
  · exact .inl ⟨dir, reply, hdir, List.mem_append_right _ hmem, hacc⟩
  · exact .inr ⟨dir, c, hdir, List.mem_append_right _ hmem, hheld⟩

/-- What is taken was taken in one of the two parts. -/
lemma Taken.of_append {wing : Text} {l l' : List Event} (h : Taken counts dirs wing (l ++ l')) :
    Taken counts dirs wing l ∨ Taken counts dirs wing l' := by
  rcases h with ⟨dir, reply, hdir, hmem, hacc⟩ | ⟨dir, c, hdir, hmem, hheld⟩
  · exact (List.mem_append.1 hmem).imp (fun h => .inl ⟨dir, reply, hdir, h, hacc⟩)
      fun h => .inl ⟨dir, reply, hdir, h, hacc⟩
  · exact (List.mem_append.1 hmem).imp (fun h => .inr ⟨dir, c, hdir, h, hheld⟩)
      fun h => .inr ⟨dir, c, hdir, h, hheld⟩

lemma not_taken_woke (wing : Text) : ¬ Taken counts dirs wing [.woke] := by
  rintro (⟨_, _, -, hmem, _⟩ | ⟨_, _, -, hmem, _⟩) <;> simp at hmem

/-- A truthful end, for the events and the value alone. -/
def TruthfulEnd (counts : Json → Bool) (dirs : Text → Prop) (wing : Text) (line : Json)
    (writable : Bool) (out : List Event × Except Exc (Bool × Status)) : Prop :=
  ∃ result status, out.2 = .ok (result, status) ∧ (result = true → Taken counts dirs wing out.1) ∧
    (result = false → writable = true → .journaled line ∈ out.1)

/-- Giving up is truthful just when the journal does not raise. -/
lemma truthfulEnd_giveUp {wing : Text} {line : Json} {j : JournalCalls} {events : List Event}
    {failure : Option Failure} :
    TruthfulEnd counts dirs wing line j.writable (giveUp line j events failure) ↔
      j.raises = false := by
  obtain ⟨mkdir, opened, encodes, written⟩ := j
  cases mkdir <;> cases opened <;> cases encodes <;> cases written <;>
    simp [TruthfulEnd, giveUp, journalFailedIngest, JournalCalls.writable, JournalCalls.raises,
      Except.map]

lemma truthfulEnd_error {wing : Text} {line : Json} {writable : Bool} {events : List Event}
    {e : Exc} : ¬ TruthfulEnd counts dirs wing line writable (events, .error e) := by
  rintro ⟨_, _, hr, -⟩
  cases hr

lemma truthfulEnd_true {wing : Text} {line : Json} {writable : Bool} {events : List Event}
    {status : Status} :
    TruthfulEnd counts dirs wing line writable (events, .ok (true, status)) ↔
      Taken counts dirs wing events := by
  constructor
  · rintro ⟨result, _, hr, htaken, -⟩
    cases hr
    exact htaken rfl
  · intro htaken
    exact ⟨true, status, rfl, fun _ => htaken, fun h => by cases h⟩

/-- What has to go right, for a first attempt that is not followed by another. -/
lemma Outage.fits_of_not_retries {transcriptPath : Text} {o : Outage}
    (hretries : ¬ o.retries counts transcriptPath)
    (hautoWake : o.first.fate counts transcriptPath = .failed true → ∃ b, o.autoWake = .ok b)
    (hwake : o.first.fate counts transcriptPath = .failed true → o.autoWake = .ok true →
      ∃ b, o.wake = .ok b) :
    o.Fits counts transcriptPath ↔ (o.first.fate counts transcriptPath ≠ .raised ∧
        o.first.fate counts transcriptPath ≠ .lost) ∧
      ((o.first.fate counts transcriptPath).gaveUp = true → o.journal.raises = false) := by
  constructor
  · intro h
    exact ⟨h.first, fun hgave => h.journal hgave fun hr => absurd hr hretries⟩
  · rintro ⟨hfirst, hjournal⟩
    exact ⟨hfirst, hautoWake, hwake, fun hr => absurd hr hretries, fun hgave _ => hjournal hgave⟩

/-- What has to go right when the host is woken and there is a second attempt. -/
lemma Outage.fits_of_retries {transcriptPath : Text} {o : Outage}
    (hretries : o.retries counts transcriptPath) :
    o.Fits counts transcriptPath ↔ (o.second.fate counts transcriptPath ≠ .raised ∧
        o.second.fate counts transcriptPath ≠ .lost) ∧
      ((o.second.fate counts transcriptPath).gaveUp = true → o.journal.raises = false) := by
  obtain ⟨hfate, hautoWake, hwake⟩ := hretries
  have hgave : (o.first.fate counts transcriptPath).gaveUp = true := by
    rw [hfate]
    rfl
  constructor
  · intro h
    exact ⟨h.second ⟨hfate, hautoWake, hwake⟩, fun hsecond => h.journal hgave fun _ => hsecond⟩
  · rintro ⟨hsecond, hjournal⟩
    exact ⟨by simp [hfate], fun _ => ⟨_, hautoWake⟩, fun _ _ => ⟨_, hwake⟩, fun _ => hsecond,
      fun _ hgave' => hjournal (hgave' ⟨hfate, hautoWake, hwake⟩)⟩

/-- The end of the last attempt, after events in which nothing was taken. -/
lemma truthfulEnd_finish {fate : Fate} {wing : Text} {line : Json} {j : JournalCalls}
    {before events : List Event} {r : Except Exc (Bool × Option Failure)}
    (hbefore : ¬ Taken counts dirs wing before) (hends : fate.Ends counts dirs wing (events, r)) :
    TruthfulEnd counts dirs wing line j.writable (finish line j (before ++ events) r) ↔
      (fate ≠ .raised ∧ fate ≠ .lost) ∧ (fate.gaveUp = true → j.raises = false) := by
  have htaken : Taken counts dirs wing (before ++ events) ↔ Taken counts dirs wing events :=
    ⟨fun h => h.of_append.resolve_left hbefore, fun h => h.append_left⟩
  cases fate with
  | raised =>
    obtain ⟨e, rfl⟩ := hends
    exact iff_of_false truthfulEnd_error fun h => h.1.1 rfl
  | lost =>
    obtain ⟨hnot, failure, rfl⟩ := hends
    exact iff_of_false (fun h => hnot (htaken.1 (truthfulEnd_true.1 h))) fun h => h.1.2 rfl
  | refused =>
    obtain ⟨-, rfl⟩ := hends
    simpa [Fate.gaveUp, finish] using truthfulEnd_giveUp
  | held =>
    obtain ⟨hin, failure, rfl⟩ := hends
    exact iff_of_true (truthfulEnd_true.2 (htaken.2 hin))
      ⟨⟨by decide, by decide⟩, fun h => by cases h⟩
  | accepted =>
    obtain ⟨hin, failure, rfl⟩ := hends
    exact iff_of_true (truthfulEnd_true.2 (htaken.2 hin))
      ⟨⟨by decide, by decide⟩, fun h => by cases h⟩
  | failed eligible =>
    obtain ⟨-, failure, rfl, -⟩ := hends
    simpa [Fate.gaveUp, finish] using truthfulEnd_giveUp

/-- Without a connection failure the first attempt is the last. -/
lemma ingestWithWakeAndJournal_eq_finish {o : Outage} {transcriptPath wing sessionId : Text}
    {events : List Event} {r : Except Exc (Bool × Option Failure)}
    (hin : ingestTranscriptViaDaemon transcriptPath wing o.first = (events, r))
    (hr : ∀ failure, r = .ok (false, some failure) → failure.eligible = false) :
    ingestWithWakeAndJournal o transcriptPath wing sessionId =
      finish (journalLine transcriptPath wing sessionId o.now) o.journal events r := by
  rw [ingestWithWakeAndJournal, hin]
  rcases r with e | ⟨_ | _, _ | failure⟩ <;> try rfl
  simp only [hr failure rfl, Bool.false_eq_true, if_false, finish]

/-- The failure of a first attempt that is not the last is one of the connection. -/
lemma Fate.Ends.eligible {fate : Fate} {wing : Text} {events : List Event}
    {r : Except Exc (Bool × Option Failure)} (hends : fate.Ends counts dirs wing (events, r))
    (hfate : fate ≠ .failed true) :
    ∀ failure, r = .ok (false, some failure) → failure.eligible = false := by
  rintro failure rfl
  cases fate with
  | raised => obtain ⟨e, he⟩ := hends; cases he
  | lost => obtain ⟨-, failure', he⟩ := hends; cases he
  | refused => obtain ⟨-, he⟩ := hends; cases he
  | held => obtain ⟨-, failure', he⟩ := hends; cases he
  | accepted => obtain ⟨-, failure', he⟩ := hends; cases he
  | failed eligible =>
    obtain ⟨-, failure', he, heligible⟩ := hends
    cases he
    cases eligible with
    | true => exact absurd rfl hfate
    | false => exact heligible

/-- **Truthful outcomes.**  `_ingest_with_wake_and_journal` returns true only if the daemon accepted
a mine of this transcript or another live hook is handing it over, and otherwise returns false with
the transcript in a writable journal, just when no attempt loses its slot to an error of the
system, no answer of success is left uncounted, and nothing raises. -/
theorem ingest_truthful_iff (counts : Json → Bool) (o : Outage)
    (transcriptPath wing sessionId : Text) :
    Truthful counts o transcriptPath wing sessionId ↔ o.Fits counts transcriptPath := by
  show TruthfulEnd counts (o.IsTranscript transcriptPath) wing _ _ _ ↔ _
  have hdirs : ∀ a ∈ [o.first, o.second], ∀ path : FsPath,
      validateTranscriptPath a.resolved transcriptPath = .ok (some path) →
        o.IsTranscript transcriptPath path.str := fun a ha path hpath => ⟨a, ha, path, hpath, rfl⟩
  have hfirst := ends_fate counts wing o.first (hdirs o.first List.mem_cons_self)
  have hsecond := ends_fate counts wing o.second
    (hdirs o.second (List.mem_cons_of_mem _ List.mem_cons_self))
  rcases hin : ingestTranscriptViaDaemon transcriptPath wing o.first with ⟨events, r⟩
  rw [hin] at hfirst
  by_cases hfate : o.first.fate counts transcriptPath = .failed true
  · -- the failure is one of the connection
    rw [hfate] at hfirst
    obtain ⟨hnot, failure, rfl, heligible⟩ := hfirst
    have hwoke : ¬ Taken counts (o.IsTranscript transcriptPath) wing (events ++ [.woke]) := fun h =>
      h.of_append.elim hnot (not_taken_woke wing)
    simp only [ingestWithWakeAndJournal, hin, heligible, if_true]
    cases hautoWake : o.autoWake with
    | error e =>
      refine iff_of_false truthfulEnd_error fun h => ?_
      obtain ⟨b, hb⟩ := h.autoWake hfate
      rw [hautoWake] at hb
      cases hb
    | ok auto => cases auto with
      | false =>
        rw [truthfulEnd_giveUp, Outage.fits_of_not_retries (by simp [Outage.retries, hautoWake])
          (fun _ => ⟨_, hautoWake⟩) (by simp [hautoWake]), hfate]
        simp [Fate.gaveUp]
      | true => cases hwake : o.wake with
        | error e =>
          refine iff_of_false truthfulEnd_error fun h => ?_
          obtain ⟨b, hb⟩ := h.wake hfate hautoWake
          rw [hwake] at hb
          cases hb
        | ok woken => cases woken with
          | false =>
            rw [truthfulEnd_giveUp, Outage.fits_of_not_retries (by simp [Outage.retries, hwake])
              (fun _ => ⟨_, hautoWake⟩) (fun _ _ => ⟨_, hwake⟩), hfate]
            simp [Fate.gaveUp]
          | true =>
            rw [Outage.fits_of_retries ⟨hfate, hautoWake, hwake⟩]
            exact truthfulEnd_finish hwoke hsecond
  · -- the first attempt is the last
    rw [ingestWithWakeAndJournal_eq_finish hin (hfirst.eligible hfate),
      Outage.fits_of_not_retries (fun h => hfate h.1) (fun h => absurd h hfate)
        (fun h => absurd h hfate), ← List.nil_append events]
    exact truthfulEnd_finish (not_taken_nil wing) hfirst

/-- An attempt that meets the given calls and answer. -/
def Attempt.ofSlot (slot : SlotCalls) (reply : Reply) : Attempt where
  resolved := .ok ⟨['/'], ["t".toList, "s.jsonl".toList]⟩
  large := .ok true
  settings := .obj []
  slot := slot
  reply := reply
  manifest := reply

/-- The outage in which the first attempt meets the given calls and nothing is woken. -/
def Outage.ofSlot (slot : SlotCalls) (reply : Reply) : Outage where
  first := .ofSlot slot reply
  autoWake := .ok false
  wake := .ok false
  second := .ofSlot slot reply
  journal := ⟨true, true, true, true⟩
  now := []

/-- The lock file cannot be opened, and the hook reports success with nothing posted and nothing in
the journal. -/
theorem ingest_truthful_fails :
    ¬ Truthful (fun _ => true) (.ofSlot ⟨true, true, false, .locked⟩ (.failed []))
      "/t/s.jsonl".toList "palace".toList "1".toList := by
  rintro ⟨result, status, hr, htaken, -⟩
  obtain ⟨rfl, -⟩ : result = true ∧ status = .ok := by
    simpa using (Except.ok.inj hr).symm
  have hdir : (Outage.ofSlot ⟨true, true, false, .locked⟩ (.failed [])).IsTranscript
      "/t/s.jsonl".toList "/t/s.jsonl".toList :=
    ⟨_, List.mem_cons_self, ⟨['/'], ["t".toList, "s.jsonl".toList]⟩, by decide, by decide⟩
  exact absurd ((taken_claimed hdir).1 (htaken rfl)) (by decide)

end PalaceDaemon.Hook

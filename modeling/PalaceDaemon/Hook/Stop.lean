/-
The Stop hook's decision to save.

`hook_stop` compares the number of messages in the transcript with the number at the last save,
which it keeps in a file of the session; the time of that save is in a second file.  A save is due
after `SAVE_INTERVAL` messages, or after some time with a new message.  Whatever the first file
holds, the saves do not stall (`saves_not_stalled`), and of a transcript that only grows nothing is
saved twice (`saves_spaced`).

What the files hold and how the calls on them end is chosen by the surroundings.  A read that fails
counts as nothing in the file, and a write that fails leaves something in it.  A session has one
Stop hook at a time.
-/
import Mathlib.Data.List.Chain
import PalaceDaemon.Hook.Transcript
import PalaceDaemon.Lib.PyFloat
import PalaceDaemon.Lib.PyNumeral
import PalaceDaemon.Lib.StepSystem

namespace PalaceDaemon.Hook

open PalaceDaemon.Wings

/-- `SAVE_INTERVAL` -/
def saveInterval : ℕ := 15

/-- `TIME_SAVE_INTERVAL` -/
def timeSaveInterval : ℕ := 300

/-- `FORCE_MIN_INTERVAL` -/
def forceMinInterval : ℕ := 60

/-! ### The files of a session -/

/-- How a write to a file of the session ends. -/
inductive Write (α : Type*)
  | done
  /-- `OSError`, and what is in the file then -/
  | failed (left : Option α)

/-- The file after the write. -/
def Write.file {α : Type*} (w : Write α) (content : α) : Option α :=
  match w with
  | .done => some content
  | .failed left => left

/-- The files of a session. -/
structure SessionFiles where
  /-- The text of `_last_save`, or none where there is no file or no text in it. -/
  lastSave : Option Text
  /-- What `float` reads in `_last_save_ts`, if it reads something. -/
  lastSaveTs : Option PyFloat

/-- `int(text.strip())` of `_last_save`, or 0 where there is no file or no number in it -/
def SessionFiles.savedCount (f : SessionFiles) : ℤ :=
  match f.lastSave with
  | none => 0
  | some t => (PyText.toInt (PyText.strip t)).getD 0

/-! ### The hook -/

/-- What the Stop hook is given, and what its calls come to. -/
structure StopCall where
  /-- `stop_hook_active` -/
  active : Json
  /-- `_load_hook_settings` -/
  settings : Json
  /-- The transcript can be read to its end. -/
  readable : Bool
  /-- `STATE_DIR.mkdir` succeeds. -/
  mkdir : Bool
  /-- `last_save_file.is_file` raises nothing. -/
  isFile : Bool
  /-- `_last_save` can be read. -/
  lastSaveRead : Bool
  /-- `_last_save_ts` can be read. -/
  lastSaveTsRead : Bool
  rebaseWrite : Write Text
  saveWrite : Write Text
  tsWrite : Write PyFloat
  /-- `time.time()`, where the triggers are decided -/
  now : ℚ
  /-- `time.time()`, where `_write_last_save_ts` asks for it -/
  stamp : ℚ
  /-- `MEMPAL_DIR` names a directory. -/
  mineDir : Bool

/-- `last_save`; a read that fails gives 0. -/
def readLastSave (call : StopCall) (f : SessionFiles) : ℤ :=
  if call.lastSaveRead then f.savedCount else 0

/-- `_read_last_save_ts`; a read that fails gives 0. -/
def readLastSaveTs (call : StopCall) (f : SessionFiles) : PyFloat :=
  if call.lastSaveTsRead then f.lastSaveTs.getD (.finite 0) else .finite 0

inductive Trigger
  | count
  | time
  | force
deriving DecidableEq, Repr

/-- What a save is: a question, the mine of the transcript, or a request to the model. -/
inductive SaveWay
  | mineApproval
  | silent
  | block
deriving DecidableEq, Repr

inductive StopOutcome
  /-- The harness has set `stop_hook_active`. -/
  | suppressed
  | quiet (count : ℕ)
  | save (trigger : Trigger) (count : ℕ) (way : SaveWay)

/-- `str(stop_hook_active).lower() in ("true", "1", "yes")` -/
def stopSuppressed : Json → Bool
  | .bool b => b
  | .int n => n = 1
  | .str s => lower s ∈ ["true".toList, "1".toList, "yes".toList]
  | _ => false

/-- `settings.get("force_min_interval", FORCE_MIN_INTERVAL)` -/
def forceInterval (settings : Json) : Json :=
  (settings.getD "force_min_interval".toList (.int forceMinInterval)).getD .null

/-- `force_trigger`; `>=` raises nothing but `TypeError`. -/
def forceTrigger (settings : Json) (sinceLast : ℤ) (elapsed : PyFloat) : Except Exc Bool :=
  match settings.getD "force_on_stop".toList (.bool true) with
  | none => .error .attributeError
  | some forceOnStop =>
      if forceOnStop.truthy && decide (0 < sinceLast) then
        match Json.ge (.float elapsed) (forceInterval settings) with
        | .error _ => .error .typeError
        | .ok b => .ok b
      else .ok false

/-- The trigger of a save, if there is one. -/
def triggerOf (settings : Json) (count : ℕ) (sinceLast : ℤ) (elapsed : PyFloat) :
    Except Exc (Option Trigger) :=
  let countTrigger := (saveInterval : ℤ) ≤ sinceLast ∧ 0 < count
  let timeTrigger := PyFloat.le (.finite timeSaveInterval) elapsed = true ∧ 0 < sinceLast
  match forceTrigger settings sinceLast elapsed with
  | .error exc => .error exc
  | .ok force =>
      .ok (if countTrigger then some .count else if timeTrigger then some .time
        else if force then some .force else none)

def saveWay (call : StopCall) : SaveWay :=
  if call.mineDir then .mineApproval
  else if ((call.settings.getD "silent_save".toList (.bool true)).getD .null).truthy then .silent
  else .block

/-- A save that is due is written down before it is made. -/
def saveDue (call : StopCall) (count : ℕ) (lastSave : ℤ) (f : SessionFiles) :
    SessionFiles × Except Exc StopOutcome :=
  let elapsed := PyFloat.sub (.finite call.now) (readLastSaveTs call f)
  match triggerOf call.settings count (count - lastSave) elapsed with
  | .error exc => (f, .error exc)
  | .ok none => (f, .ok (.quiet count))
  | .ok (some trigger) =>
      match PyText.strInt count with
      | none => (f, .error .valueError)
      | some t =>
          (⟨call.saveWrite.file t, call.tsWrite.file (.finite call.stamp)⟩,
            .ok (.save trigger count (saveWay call)))

/-- `hook_stop` up to the save itself: the files afterwards, and what was decided.  A count of the
last save that is too high is set right first. -/
def hookStop (call : StopCall) (transcript : Option (List TranscriptLine)) (f : SessionFiles) :
    SessionFiles × Except Exc StopOutcome :=
  if stopSuppressed call.active then (f, .ok .suppressed)
  else
    match countHumanMessages (if call.readable then transcript else none) with
    | .error exc => (f, .error exc)
    | .ok count =>
        if !call.mkdir || !call.isFile then (f, .error .osError)
        else if (count : ℤ) < readLastSave call f then
          match PyText.strInt count with
          | none => (f, .error .valueError)
          | some t => saveDue call count count { f with lastSave := call.rebaseWrite.file t }
        else saveDue call count (readLastSave call f) f

/-! ### Sessions -/

/-- A stop that was neither suppressed nor ended by an exception. -/
structure StopEntry where
  call : StopCall
  count : ℕ
  trigger : Option Trigger

/-- A stop at which a save was due. -/
def StopEntry.saved (e : StopEntry) : Bool := e.trigger.isSome

/-- How a stop went. -/
inductive StopRecord
  | suppressed
  | raised (exc : Exc)
  | decided (e : StopEntry)

/-- The files of a session, its transcript, and all of its stops, the latest first. -/
structure StopState where
  files : SessionFiles
  transcript : Option (List TranscriptLine)
  log : List StopRecord

inductive StopLabel
  /-- Lines come to the transcript. -/
  | append (lines : List TranscriptLine)
  /-- The transcript is replaced or removed. -/
  | replace (transcript : Option (List TranscriptLine))
  /-- `_prune_state_files` removes files of the session. -/
  | prune (lastSave lastSaveTs : Bool)
  | stop (call : StopCall)

/-- What the log keeps of a stop. -/
def StopCall.record (call : StopCall) : Except Exc StopOutcome → StopRecord
  | .ok .suppressed => .suppressed
  | .ok (.quiet count) => .decided ⟨call, count, none⟩
  | .ok (.save trigger count _) => .decided ⟨call, count, some trigger⟩
  | .error exc => .raised exc

def StopState.next (s : StopState) : StopLabel → StopState
  | .append lines => { s with transcript := s.transcript.map (· ++ lines) }
  | .replace transcript => { s with transcript }
  | .prune lastSave lastSaveTs =>
      { s with files := ⟨if lastSave then none else s.files.lastSave,
          if lastSaveTs then none else s.files.lastSaveTs⟩ }
  | .stop call =>
      let out := hookStop call s.transcript s.files
      { s with files := out.1, log := call.record out.2 :: s.log }

/-- The session begins with whatever is in its files. -/
def stopSystem : StepSystem StopState StopLabel where
  init s := s.log = []
  next s a := some (s.next a)

/-! ### What a stop does -/

/-- A count that was written is read back. -/
lemma savedCount_strInt {count : ℕ} {t : Text} (h : PyText.strInt count = some t)
    (ts : Option PyFloat) : SessionFiles.savedCount ⟨some t, ts⟩ = count := by
  obtain ⟨hread, hstrip⟩ := PyText.toInt_strInt h
  rw [SessionFiles.savedCount]
  dsimp only
  rw [hstrip, hread]
  rfl

/-- What a trigger says. -/
def Trigger.Due (settings : Json) (sinceLast : ℤ) (elapsed : PyFloat) : Trigger → Prop
  | .count => (saveInterval : ℤ) ≤ sinceLast
  | .time => PyFloat.le (.finite timeSaveInterval) elapsed = true
  | .force => Json.ge (.float elapsed) (forceInterval settings) = .ok true

lemma triggerOf_eq_some {settings : Json} {count : ℕ} {sinceLast : ℤ} {elapsed : PyFloat}
    {trigger : Trigger} (h : triggerOf settings count sinceLast elapsed = .ok (some trigger)) :
    0 < sinceLast ∧ trigger.Due settings sinceLast elapsed := by
  rw [triggerOf] at h
  rcases hforce : forceTrigger settings sinceLast elapsed with exc | force
  · rw [hforce] at h
    cases h
  · rw [hforce] at h
    have hsome := Except.ok.inj h
    split_ifs at hsome with hcount htime hdue
    · obtain rfl := Option.some.inj hsome
      exact ⟨lt_of_lt_of_le (by decide) hcount.1, hcount.1⟩
    · obtain rfl := Option.some.inj hsome
      exact ⟨htime.2, htime.1⟩
    · obtain rfl := Option.some.inj hsome
      rw [forceTrigger] at hforce
      split at hforce
      · cases hforce
      · split_ifs at hforce with hsince
        · rw [Bool.and_eq_true, decide_eq_true_eq] at hsince
          split at hforce
          · cases hforce
          · next b hge =>
              obtain rfl : b = force := Except.ok.inj hforce
              exact ⟨hsince.2, by rw [Trigger.Due, hge, hdue]⟩
        · obtain rfl : false = force := Except.ok.inj hforce
          cases hdue

/-- No trigger: not enough messages have come. -/
lemma triggerOf_eq_none {settings : Json} {count : ℕ} {sinceLast : ℤ} {elapsed : PyFloat}
    (h : triggerOf settings count sinceLast elapsed = .ok none) :
    sinceLast < saveInterval ∨ count = 0 := by
  rw [triggerOf] at h
  split at h
  · cases h
  · have hnone := Except.ok.inj h
    split_ifs at hnone with hcount
    rw [not_and_or, not_le, Nat.pos_iff_ne_zero, not_not] at hcount
    exact hcount

/-- The count in the file after a stop without a save: a count that was read and is too high is set
right. -/
def StopCall.leaves (call : StopCall) (f : SessionFiles) (count : ℕ) : ℤ :=
  if call.lastSaveRead then min f.savedCount count else f.savedCount

lemma StopCall.leaves_le {call : StopCall} {f : SessionFiles} {count : ℕ} :
    call.leaves f count ≤ f.savedCount := by
  rw [StopCall.leaves]
  split_ifs
  · exact min_le_left _ _
  · exact le_rfl

/-- What a stop does to the files, and what the log keeps of it.  The count of the last save is at
most the count when the triggers are decided. -/
inductive StopMoves (call : StopCall) (counted : Except Exc ℕ) (f f' : SessionFiles) :
    StopRecord → Prop
  | suppressed : f' = f → StopMoves call counted f f' .suppressed
  | raised {exc : Exc} : f' = f → StopMoves call counted f f' (.raised exc)
  | undecided {count : ℕ} {exc : Exc} : counted = .ok count →
      f'.savedCount = call.leaves f count → f'.lastSaveTs = f.lastSaveTs →
      StopMoves call counted f f' (.raised exc)
  | quiet {count : ℕ} : counted = .ok count → f'.savedCount = call.leaves f count →
      f'.lastSaveTs = f.lastSaveTs →
      (count - min (readLastSave call f) count < (saveInterval : ℤ) ∨ count = 0) →
      StopMoves call counted f f' (.decided ⟨call, count, none⟩)
  | save {count : ℕ} {trigger : Trigger} : counted = .ok count → f'.savedCount = count →
      f'.lastSaveTs = call.tsWrite.file (.finite call.stamp) →
      triggerOf call.settings count (count - min (readLastSave call f) count)
        (PyFloat.sub (.finite call.now) (readLastSaveTs call f)) = .ok (some trigger) →
      StopMoves call counted f f' (.decided ⟨call, count, some trigger⟩)

lemma saveDue_moves {counted : Except Exc ℕ} {count : ℕ} (call : StopCall) (f : SessionFiles)
    {f₁ : SessionFiles} (hsave : call.saveWrite = .done) (hcount : counted = .ok count)
    (hread : f₁.savedCount = call.leaves f count) (hts : f₁.lastSaveTs = f.lastSaveTs) :
    StopMoves call counted f (saveDue call count (min (readLastSave call f) count) f₁).1
      (call.record (saveDue call count (min (readLastSave call f) count) f₁).2) := by
  have hts' : readLastSaveTs call f₁ = readLastSaveTs call f := by
    rw [readLastSaveTs, hts, readLastSaveTs]
  rw [saveDue, hts']
  rcases htrigger : triggerOf call.settings count (count - min (readLastSave call f) count)
    (PyFloat.sub (.finite call.now) (readLastSaveTs call f)) with exc | _ | trigger
  · exact .undecided hcount hread hts
  · exact .quiet hcount hread hts (triggerOf_eq_none htrigger)
  · dsimp only
    rcases hstr : PyText.strInt count with _ | t
    · exact .undecided hcount hread hts
    · refine .save hcount ?_ rfl htrigger
      rw [hsave]
      exact savedCount_strInt hstr _

lemma hookStop_moves {call : StopCall} (transcript : Option (List TranscriptLine))
    (f : SessionFiles) (hrebase : call.rebaseWrite = .done) (hsave : call.saveWrite = .done) :
    StopMoves call (countHumanMessages (if call.readable then transcript else none)) f
      (hookStop call transcript f).1 (call.record (hookStop call transcript f).2) := by
  rw [hookStop]
  generalize countHumanMessages (if call.readable then transcript else none) = counted
  by_cases hsuppressed : stopSuppressed call.active = true
  · rw [if_pos hsuppressed]
    exact .suppressed rfl
  rw [if_neg hsuppressed]
  rcases counted with exc | count
  · exact .raised rfl
  dsimp only
  split_ifs with hmkdir hless
  · exact .raised rfl
  · rcases hstr : PyText.strInt count with _ | t
    · exact .raised rfl
    · have hmin : min (readLastSave call f) count = count := min_eq_right hless.le
      -- only a count that was read is above the count of the transcript
      have hreadable : call.lastSaveRead = true := by
        by_contra hunread
        rw [readLastSave, if_neg hunread] at hless
        omega
      have hread : SessionFiles.savedCount { f with lastSave := call.rebaseWrite.file t } =
          call.leaves f count := by
        rw [readLastSave, if_pos hreadable] at hmin
        rw [hrebase, StopCall.leaves, if_pos hreadable, hmin]
        exact savedCount_strInt hstr _
      have hmoves := saveDue_moves call f hsave rfl hread rfl
      rwa [hmin] at hmoves
  · have hle := not_lt.1 hless
    have hread : f.savedCount = call.leaves f count := by
      rw [StopCall.leaves]
      split_ifs with hreadable
      · rw [readLastSave, if_pos hreadable] at hle
        exact (min_eq_left hle).symm
      · rfl
    have hmoves := saveDue_moves call f hsave rfl hread rfl
    rwa [min_eq_left hle] at hmoves

/-! ### Saves do not stall -/

/-- The count of every save is written down. -/
def KeepsCount (_ : StopState) : StopLabel → Prop
  | .stop call => call.rebaseWrite = .done ∧ call.saveWrite = .done
  | _ => True

/-- The stop, if it was decided. -/
def StopRecord.entry : StopRecord → Option StopEntry
  | .decided e => some e
  | _ => none

lemma StopRecord.eq_of_entry {r : StopRecord} {e : StopEntry} (h : r.entry = some e) :
    r = .decided e := by
  cases r with
  | suppressed => cases h
  | raised exc => cases h
  | decided x => rw [Option.some.inj h]

/-- A save was due at the stop. -/
def StopRecord.saved (r : StopRecord) : Bool := r.entry.any fun e => e.trigger.isSome

/-- Between two stops that are an interval apart a save was due, or it was at the second. -/
structure StopState.Served (s : StopState) : Prop where
  /-- Since a stop without a save after it the count of the last save has not grown. -/
  bounded : ∀ between a earlier, s.log = between ++ .decided a :: earlier →
    a.call.lastSaveRead = true → (∀ r ∈ between, r.saved = false) → s.files.savedCount ≤ a.count
  served : ∀ later b between a earlier,
    s.log = later ++ .decided b :: (between ++ .decided a :: earlier) →
    a.call.lastSaveRead = true → a.count + saveInterval ≤ b.count →
    ∃ r ∈ .decided b :: between, StopRecord.saved r = true

lemma StopState.Served.of_le {s s' : StopState} (h : s.Served) (hlog : s'.log = s.log)
    (hread : s'.files.savedCount ≤ max 0 s.files.savedCount) : s'.Served where
  bounded between a earlier heq hok hnone :=
    hread.trans (max_le (Int.natCast_nonneg _) (h.bounded between a earlier (hlog ▸ heq) hok hnone))
  served later b between a earlier heq := h.served later b between a earlier (hlog ▸ heq)

/-- A stop comes to the log. -/
lemma StopState.Served.cons {s s' : StopState} {x : StopRecord} (h : s.Served)
    (hlog : s'.log = x :: s.log)
    (hle : ∀ e, x = .decided e → e.call.lastSaveRead = true → s'.files.savedCount ≤ e.count)
    (hquiet : x.saved = false → s'.files.savedCount ≤ s.files.savedCount)
    (hfew : ∀ e, x = .decided e → x.saved = false →
      e.count - min (readLastSave e.call s.files) e.count < (saveInterval : ℤ) ∨ e.count = 0) :
    s'.Served where
  bounded between a earlier heq hok hnone := by
    rw [hlog] at heq
    rcases between with _ | ⟨y, between⟩
    · obtain ⟨rfl, -⟩ := List.cons.inj heq
      exact hle a rfl hok
    · obtain ⟨rfl, htail⟩ := List.cons.inj heq
      exact (hquiet (hnone x List.mem_cons_self)).trans
        (h.bounded between a earlier htail hok fun r hr => hnone r (List.mem_cons_of_mem x hr))
  served later b between a earlier heq hok hfar := by
    rw [hlog] at heq
    rcases later with _ | ⟨y, later⟩
    · obtain ⟨rfl, htail⟩ := List.cons.inj heq
      by_contra hno
      have hnone : ∀ r ∈ .decided b :: between, r.saved = false := by
        intro r hr
        rw [← Bool.not_eq_true]
        exact fun hsaved => hno ⟨r, hr, hsaved⟩
      -- no save since `a`, so the messages since then are enough for one
      have hbound := h.bounded between a earlier htail hok
        fun r hr => hnone r (List.mem_cons_of_mem _ hr)
      have hlow : readLastSave b.call s.files ≤ a.count := by
        rw [readLastSave]
        split_ifs
        · exact hbound
        · exact Int.natCast_nonneg _
      have hmin : min (readLastSave b.call s.files) (b.count : ℤ) = readLastSave b.call s.files :=
        min_eq_left (by omega)
      have hdue := hfew b rfl (hnone _ List.mem_cons_self)
      rw [hmin] at hdue
      rw [saveInterval] at hfar hdue
      omega
    · obtain ⟨rfl, htail⟩ := List.cons.inj heq
      exact h.served later b between a earlier htail hok hfar

lemma StopState.Served.next {s : StopState} {a : StopLabel} (h : s.Served) (hok : KeepsCount s a) :
    (s.next a).Served := by
  cases a with
  | append lines => exact h.of_le rfl (le_max_right _ _)
  | replace transcript => exact h.of_le rfl (le_max_right _ _)
  | prune lastSave lastSaveTs =>
      refine h.of_le rfl ?_
      cases lastSave
      · exact le_max_right _ _
      · exact le_max_left _ _
  | stop call =>
      obtain ⟨hrebase, hsave⟩ := hok
      have hmoves := hookStop_moves s.transcript s.files hrebase hsave
      rw [StopState.next]
      revert hmoves
      generalize hookStop call s.transcript s.files = out
      intro hmoves
      generalize hrecord : call.record out.2 = record at hmoves ⊢
      cases hmoves with
      | suppressed hfiles =>
          exact h.cons rfl (by rintro e ⟨⟩) (fun _ => by rw [hfiles]) (by rintro e ⟨⟩)
      | raised hfiles =>
          exact h.cons rfl (by rintro e ⟨⟩) (fun _ => by rw [hfiles]) (by rintro e ⟨⟩)
      | undecided _ hread _ =>
          exact h.cons rfl (by rintro e ⟨⟩) (fun _ => hread.le.trans StopCall.leaves_le)
            (by rintro e ⟨⟩)
      | @quiet count _ hread _ hfew =>
          refine h.cons rfl ?_ (fun _ => hread.le.trans StopCall.leaves_le) ?_
          · rintro e he hreadable
            obtain rfl := StopRecord.decided.inj he
            dsimp only at hreadable ⊢
            rw [hread, StopCall.leaves, if_pos hreadable]
            exact min_le_right _ _
          · rintro e he -
            obtain rfl := StopRecord.decided.inj he
            exact hfew
      | save _ hread _ _ =>
          refine h.cons rfl ?_ (by rintro ⟨⟩) (by rintro e - ⟨⟩)
          rintro e he -
          obtain rfl := StopRecord.decided.inj he
          exact hread.le

/-- **Saves do not stall.**  Whatever the files of the session hold at first, and however the
transcript changes: of two stops that were decided and are `SAVE_INTERVAL` messages apart the
second makes a save, or a stop between them does, as long as the counts of the saves can be written
down and the first stop could read the count before it. -/
theorem saves_not_stalled {s : StopState} (h : stopSystem.ReachedBy KeepsCount s)
    {later between earlier : List StopRecord} {a b : StopEntry}
    (hlog : s.log = later ++ .decided b :: (between ++ .decided a :: earlier))
    (hread : a.call.lastSaveRead = true) (hfar : a.count + saveInterval ≤ b.count) :
    ∃ r ∈ .decided b :: between, StopRecord.saved r = true := by
  refine StopState.Served.served (h.invariant ?_ ?_) later b between a earlier hlog hread hfar
  · rintro s hinit
    have hlog : s.log = [] := hinit
    refine ⟨fun between a earlier heq => ?_, fun later b between a earlier heq => ?_⟩
    · simp [hlog] at heq
    · simp [hlog] at heq
  · rintro s a s' hserved hok hnext
    obtain rfl := Option.some.inj hnext
    exact hserved.next hok

/-- A message of the user. -/
def humanLine : TranscriptLine := .value (.obj [("message".toList,
  .obj [("role".toList, .str "user".toList), ("content".toList, .str "hi".toList)])])

/-- A stop with the default settings, all of whose calls succeed. -/
def stopAt (now : ℚ) : StopCall where
  active := .bool false
  settings := .obj []
  readable := true
  mkdir := true
  isFile := true
  lastSaveRead := true
  lastSaveTsRead := true
  rebaseWrite := .done
  saveWrite := .done
  tsWrite := .done
  now := now
  stamp := now
  mineDir := false

/-- The count in the file is no number; 15 messages come, and a stop that is suppressed. -/
theorem saves_not_stalled_garbage : ∃ (s : StopState) (a b : StopEntry) (r : StopRecord),
    s.log = [.decided b, r, .decided a] ∧ a.count = 0 ∧ b.count = 15 ∧
      ∃ r' ∈ [.decided b, r], StopRecord.saved r' = true := by
  obtain ⟨s, hexec, hlog⟩ := stopSystem.exists_of_exec_any ⟨⟨some "x".toList, none⟩, some [], []⟩
    [.stop (stopAt 10), .append (List.replicate 15 humanLine),
      .stop { stopAt 15 with active := .bool true }, .stop (stopAt 20)]
    (fun s => s.log.map (fun r => r.entry.map fun e => (e.count, e.call.lastSaveRead)) =
      [some (15, true), none, some (0, true)]) (by decide +kernel)
  have hinit : stopSystem.ReachedBy KeepsCount ⟨⟨some "x".toList, none⟩, some [], []⟩ := .init rfl
  have hs : stopSystem.ReachedBy KeepsCount s := by
    refine hinit.exec ?_ hexec
    exact ⟨⟨rfl, rfl⟩, fun _ _ => ⟨trivial, fun _ _ => ⟨⟨rfl, rfl⟩, fun _ _ => ⟨⟨rfl, rfl⟩,
      fun _ _ => trivial⟩⟩⟩⟩
  obtain ⟨x, log, heq, hx, hlog⟩ := List.map_eq_cons_iff.1 (of_decide_eq_true hlog)
  obtain ⟨r, log, rfl, -, hlog⟩ := List.map_eq_cons_iff.1 hlog
  obtain ⟨y, log, rfl, hy, hlog⟩ := List.map_eq_cons_iff.1 hlog
  obtain rfl := List.map_eq_nil_iff.1 hlog
  obtain ⟨b, hb, hbpair⟩ := Option.map_eq_some_iff.1 hx
  obtain ⟨a, ha, hapair⟩ := Option.map_eq_some_iff.1 hy
  obtain rfl := StopRecord.eq_of_entry hb
  obtain rfl := StopRecord.eq_of_entry ha
  obtain ⟨hbcount, -⟩ := Prod.mk.inj hbpair
  obtain ⟨hacount, hread⟩ := Prod.mk.inj hapair
  exact ⟨s, a, b, r, heq, hacount, hbcount,
    @saves_not_stalled s hs [] [r] [] a b heq hread (by rw [hacount, hbcount]; decide)⟩

/-! ### What is saved is new -/

/-- A transcript that can be read and only grows, and files that are read and written and stay. -/
def Steady (_ : StopState) : StopLabel → Prop
  | .append _ => True
  | .replace _ => False
  | .prune _ _ => False
  | .stop call => call.readable = true ∧ call.lastSaveRead = true ∧ call.lastSaveTsRead = true ∧
      call.rebaseWrite = .done ∧ call.saveWrite = .done ∧ call.tsWrite = .done

/-- How a save follows the one before it. -/
structure StopEntry.After (later earlier : StopEntry) : Prop where
  new : earlier.count < later.count
  count : later.trigger = some .count → earlier.count + saveInterval ≤ later.count
  time : later.trigger = some .time → earlier.call.stamp + timeSaveInterval ≤ later.call.now
  force : later.trigger = some .force → Json.ge
    (.float (PyFloat.sub (.finite later.call.now) (.finite earlier.call.stamp)))
    (forceInterval later.call.settings) = .ok true

/-- The saves of the log, the latest first. -/
def StopState.saves (s : StopState) : List StopEntry :=
  (s.log.filterMap StopRecord.entry).filter fun e => e.trigger.isSome

/-- The files are those of the latest save, no stop has seen more messages than there are, and
each save follows the one before it. -/
structure StopState.Spaced (s : StopState) : Prop where
  held : ∀ e ∈ s.saves.head?, s.files.savedCount = e.count ∧
    s.files.lastSaveTs = some (.finite e.call.stamp)
  grows : ∀ n, countHumanMessages s.transcript = .ok n → ∀ e, .decided e ∈ s.log → e.count ≤ n
  chain : s.saves.IsChain StopEntry.After

lemma mem_log_of_mem_saves {s : StopState} {e : StopEntry} (h : e ∈ s.saves) :
    .decided e ∈ s.log := by
  obtain ⟨r, hr, hentry⟩ := List.mem_filterMap.1 (List.mem_of_mem_filter h)
  rwa [StopRecord.eq_of_entry hentry] at hr

lemma le_of_le_sub {q x y : ℚ} (hq : q < PyFloat.limit)
    (h : PyFloat.le (.finite q) (PyFloat.sub (.finite x) (.finite y)) = true) : y + q ≤ x := by
  rw [PyFloat.sub] at h
  rcases PyFloat.ofRat_cases (x - y) with ⟨hlarge, -⟩ | ⟨-, heq⟩ | ⟨-, -, heq⟩
  · linarith
  · rw [heq] at h
    cases h
  · rw [heq, PyFloat.le, decide_eq_true_eq] at h
    linarith

lemma timeSaveInterval_lt : ((timeSaveInterval : ℕ) : ℚ) < PyFloat.limit :=
  PyFloat.lt_limit <| calc
    ((timeSaveInterval : ℕ) : ℚ) < 2 ^ 9 := by norm_num [timeSaveInterval]
    _ ≤ 2 ^ 970 := pow_le_pow_right₀ (by norm_num) (by norm_num)

/-- Lines that are appended lower no count. -/
lemma StopState.Spaced.append {s : StopState} (h : s.Spaced) (lines : List TranscriptLine) :
    (s.next (.append lines)).Spaced := by
  refine ⟨h.held, fun n hn e he => ?_, h.chain⟩
  rw [StopState.next] at hn
  dsimp only at hn
  rcases htranscript : s.transcript with _ | before
  · rw [htranscript] at hn
    exact h.grows n (by rw [htranscript]; exact hn) e he
  · rw [htranscript] at hn
    obtain ⟨m, hm, hbefore⟩ := countLines_le_append hn
    exact (h.grows m (by rw [htranscript]; exact hbefore) e he).trans hm

/-- A stop that was not decided adds no save and no count. -/
lemma StopState.Spaced.skip {s : StopState} {x : StopRecord} {files : SessionFiles} (h : s.Spaced)
    (hx : x.entry = none) (hfiles : ∀ e ∈ s.saves.head?,
      files.savedCount = e.count ∧ files.lastSaveTs = some (.finite e.call.stamp)) :
    StopState.Spaced { s with files, log := x :: s.log } := by
  have hsaves : StopState.saves { s with files, log := x :: s.log } = s.saves := by
    rw [StopState.saves, List.filterMap_cons_none hx, StopState.saves]
  refine ⟨by rwa [hsaves], fun n hn e he => ?_, by rw [hsaves]; exact h.chain⟩
  rcases List.mem_cons.1 he with heq | he
  · rw [← heq] at hx
    cases hx
  · exact h.grows n hn e he

/-- A decided stop is the last to count. -/
lemma StopState.Spaced.grows_decided {s : StopState} {x : StopEntry} (h : s.Spaced)
    (hcount : countHumanMessages s.transcript = .ok x.count) :
    ∀ n, countHumanMessages s.transcript = .ok n →
      ∀ e, .decided e ∈ .decided x :: s.log → e.count ≤ n := by
  intro n hn e he
  rcases List.mem_cons.1 he with heq | he
  · obtain rfl := StopRecord.decided.inj heq
    exact (Except.ok.inj (hcount.symm.trans hn)).le
  · exact h.grows n hn e he

lemma StopState.Spaced.next {s : StopState} {a : StopLabel} (h : s.Spaced) (hok : Steady s a) :
    (s.next a).Spaced := by
  cases a with
  | append lines => exact h.append lines
  | replace transcript => exact hok.elim
  | prune lastSave lastSaveTs => exact hok.elim
  | stop call =>
      obtain ⟨hreadable, hread, hreadTs, hrebase, hsave, hts⟩ := hok
      have hmoves := hookStop_moves s.transcript s.files hrebase hsave
      rw [if_pos hreadable] at hmoves
      rw [StopState.next]
      revert hmoves
      generalize hookStop call s.transcript s.files = out
      intro hmoves
      generalize hrecord : call.record out.2 = record at hmoves ⊢
      have hlast : readLastSave call s.files = s.files.savedCount := if_pos hread
      -- the count of the last save is never above the count of the transcript
      have hmin : ∀ count, countHumanMessages s.transcript = .ok count →
          ∀ e ∈ s.saves.head?, min s.files.savedCount count = e.count := by
        intro count hcount e he
        have hle := h.grows count hcount e (mem_log_of_mem_saves (List.mem_of_mem_head? he))
        rw [(h.held e he).1]
        exact min_eq_left (by exact_mod_cast hle)
      -- so a stop that saves nothing leaves both files as the last save wrote them
      have hheld : ∀ count, countHumanMessages s.transcript = .ok count →
          out.1.savedCount = call.leaves s.files count →
          out.1.lastSaveTs = s.files.lastSaveTs → ∀ e ∈ s.saves.head?,
          out.1.savedCount = e.count ∧ out.1.lastSaveTs = some (.finite e.call.stamp) := by
        intro count hcount hleaves hstamp e he
        rw [StopCall.leaves, if_pos hread, hmin count hcount e he] at hleaves
        exact ⟨hleaves, hstamp.trans (h.held e he).2⟩
      cases hmoves with
      | suppressed hfiles =>
          exact h.skip rfl (by rw [hfiles]; exact h.held)
      | raised hfiles => exact h.skip rfl (by rw [hfiles]; exact h.held)
      | undecided hcount hleaves hstamp =>
          exact h.skip rfl (hheld _ hcount hleaves hstamp)
      | quiet hcount hleaves hstamp _ =>
          exact ⟨hheld _ hcount hleaves hstamp, h.grows_decided hcount, h.chain⟩
      | @save count trigger hcount hwritten hstamp htrigger =>
          refine ⟨?_, h.grows_decided hcount, ?_⟩
          · rintro e he
            obtain rfl := Option.some.inj he
            rw [hts] at hstamp
            exact ⟨hwritten, hstamp⟩
          · refine List.isChain_cons.2 ⟨fun e he => ?_, h.chain⟩
            -- the trigger was tested against the count and the time of the save before
            have hstart : readLastSaveTs call s.files = .finite e.call.stamp := by
              rw [readLastSaveTs, if_pos hreadTs, (h.held e he).2]
              rfl
            rw [hlast, hmin count hcount e he, hstart] at htrigger
            obtain ⟨hsince, hdue⟩ := triggerOf_eq_some htrigger
            refine ⟨by exact_mod_cast sub_pos.1 hsince, ?_, ?_, ?_⟩
            · rintro hcause
              obtain rfl := Option.some.inj hcause
              have hdue' : (saveInterval : ℤ) ≤ count - e.count := hdue
              show e.count + saveInterval ≤ count
              omega
            · rintro hcause
              obtain rfl := Option.some.inj hcause
              exact le_of_le_sub timeSaveInterval_lt hdue
            · rintro hcause
              obtain rfl := Option.some.inj hcause
              exact hdue

/-- **What is saved is new.**  In a session whose transcript only grows every save is of more
messages than the one before it, and a save that the interval of messages did not bring comes the
time of its trigger after that one. -/
theorem saves_spaced {s : StopState} (h : stopSystem.ReachedBy Steady s) :
    s.saves.IsChain StopEntry.After := by
  refine StopState.Spaced.chain (h.invariant ?_ ?_)
  · rintro s hinit
    have hlog : s.log = [] := hinit
    have hsaves : s.saves = [] := by rw [StopState.saves, hlog]; rfl
    exact ⟨by simp [hsaves], by simp [hlog], by rw [hsaves]; exact .nil⟩
  · rintro s a s' hspaced hok hnext
    obtain rfl := Option.some.inj hnext
    exact hspaced.next hok

/-- Two messages, a save after each. -/
theorem saves_spaced_twice : ∃ (s : StopState) (earlier later : StopEntry),
    s.saves = [later, earlier] ∧ later.After earlier := by
  obtain ⟨s, hexec, hsaves⟩ := stopSystem.exists_of_exec_any ⟨⟨none, none⟩, some [], []⟩
    [.append [humanLine], .stop (stopAt 100), .append [humanLine], .stop (stopAt 130),
      .stop (stopAt 170)]
    (fun s => s.saves.length = 2) (by decide +kernel)
  have hinit : stopSystem.ReachedBy Steady ⟨⟨none, none⟩, some [], []⟩ := .init rfl
  have hs : stopSystem.ReachedBy Steady s := by
    refine hinit.exec ?_ hexec
    have hstop : ∀ now s, Steady s (.stop (stopAt now)) := fun _ _ =>
      ⟨rfl, rfl, rfl, rfl, rfl, rfl⟩
    exact ⟨trivial, fun _ _ => ⟨hstop _ _, fun _ _ => ⟨trivial, fun _ _ => ⟨hstop _ _,
      fun _ _ => ⟨hstop _ _, fun _ _ => trivial⟩⟩⟩⟩⟩
  obtain ⟨later, earlier, hlist⟩ := List.length_eq_two.1 (of_decide_eq_true hsaves)
  have hchain := saves_spaced hs
  rw [hlist] at hchain
  exact ⟨s, earlier, later, hlist, (List.isChain_cons_cons.1 hchain).1⟩

end PalaceDaemon.Hook

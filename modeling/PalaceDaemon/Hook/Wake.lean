/-
Waking a sleeping host.

A hook that cannot reach the daemon calls `_attempt_wake`: it claims a lock of the host, and if it
gets the lock it runs the wake command that `_load_auto_wake` read in the configuration.  Then it
asks for `/health` until the daemon answers or the time is over; a hook that did not get the lock
only asks.  A step of `wakeSystem` is what one of any number of hooks does between two of its system
calls.

Of two wake commands under the lock the second is not run before the first attempt is over
(`wakes_apart`), and whatever the configuration holds an attempt does not ask without end
(`wake_bounded`).  The lock file may also fail to open, and then the command is run without it; a
command that the shell cannot be given ends the attempt with an exception.
-/
import Mathlib
import PalaceDaemon.Hook.Wing
import PalaceDaemon.Lib.PyFloat
import PalaceDaemon.Lib.StepSystem
import PalaceDaemon.Lib.Threads

namespace PalaceDaemon.Hook

open PalaceDaemon.Wings

/-- `WAKE_FOLLOWER_WAIT` -/
def wakeFollowerWait : ℚ := 20

/-! ### The configuration -/

/-- `max(x, y)` of floats -/
def pyMax (x y : PyFloat) : PyFloat := if PyFloat.lt x y then y else x

/-- `min(x, y)` of floats -/
def pyMin (x y : PyFloat) : PyFloat := if PyFloat.lt y x then y else x

/-- What reading `MEMPALACE_CONFIG_PATH` comes to. -/
inductive ConfigFile
  /-- `FileNotFoundError` -/
  | missing
  /-- Another `OSError` -/
  | unreadable
  /-- `JSONDecodeError` -/
  | malformed
  /-- What `read_text` and `json.loads` raise besides. -/
  | raised (exc : PyExc)
  /-- `lone`: in the command one of the characters stands for a surrogate that cannot be encoded. -/
  | loaded (value : Json) (lone : Bool)

structure WakeSettings where
  command : Text
  /-- The command has a surrogate that cannot be encoded. -/
  lone : Bool
  /-- `timeout_seconds` -/
  timeout : PyFloat
  /-- `poll_interval_seconds` -/
  poll : PyFloat
deriving DecidableEq

/-- `_bounded`; the number of a text is read by `parse`. -/
def bounded (parse : Text → Option PyFloat) (raw : Json) (key : String) (default lo hi : ℚ) :
    Except PyExc PyFloat :=
  match ((raw.getD key.toList (.float (.finite default))).getD .null).toFloat parse with
  | .ok val => .ok (pyMin (pyMax val (.finite lo)) (.finite hi))
  | .error .typeError => .ok (.finite default)
  | .error .valueError => .ok (.finite default)
  | .error exc => .error exc

/-- A text is the command. -/
def entryFields : Json → Json
  | .str s => .obj [("command".toList, .str s)]
  | entry => entry

/-- `_load_auto_wake` of the entry in the configuration -/
def wakeSettings (parse : Text → Option PyFloat) (raw : Json) (lone : Bool) :
    Except PyExc (Option WakeSettings) :=
  match raw.getD "command".toList .null with
  | some (.str command) =>
      if PyText.strip command = [] then .ok none
      else match bounded parse raw "timeout_seconds" 45 5 300,
          bounded parse raw "poll_interval_seconds" 2 (1 / 2) 30 with
        | .ok timeout, .ok poll => .ok (some ⟨PyText.strip command, lone, timeout, poll⟩)
        | .error exc, _ => .error exc
        | _, .error exc => .error exc
  | _ => .ok none

/-- `_load_auto_wake`, where `env` is `PALACE_AUTO_WAKE` -/
def loadAutoWake (parse : Text → Option PyFloat) (env : Option Text) (config : ConfigFile) :
    Except PyExc (Option WakeSettings) :=
  if env.any (fun s => lower (PyText.strip s) ∈ ["0", "false", "no"].map String.toList) then
    .ok none
  else match config with
    | .raised exc => .error exc
    | .loaded value lone => match value.getD "auto_wake".toList .null with
      | some entry => wakeSettings parse (entryFields entry) lone
      | none => .ok none
    | _ => .ok none

/-- The settings are read from a configuration. -/
def WakeSettings.Loaded (s : WakeSettings) : Prop :=
  ∃ parse env config, loadAutoWake parse env config = .ok (some s)

/-- A setting is in its bounds; what is not a number is in none. -/
def Clamped (lo hi : ℚ) (x : PyFloat) : Prop := x = .nan ∨ ∃ q, x = .finite q ∧ lo ≤ q ∧ q ≤ hi

lemma clamped_min_max {lo hi : ℚ} (hle : lo ≤ hi) (x : PyFloat) :
    Clamped lo hi (pyMin (pyMax x (.finite lo)) (.finite hi)) := by
  have hlo : ∀ q, lo ≤ q → Clamped lo hi (pyMin (.finite q) (.finite hi)) := by
    intro q hq
    rw [pyMin, PyFloat.lt]
    split_ifs with hlt
    · exact .inr ⟨hi, rfl, hle, le_rfl⟩
    · exact .inr ⟨q, rfl, hq, by simpa using hlt⟩
  rcases x with q | _ | _ | _
  · rw [pyMax, PyFloat.lt]
    split_ifs with hlt
    · exact hlo lo le_rfl
    · exact hlo q (by simpa using hlt)
  · exact .inr ⟨hi, rfl, hle, le_rfl⟩
  · exact hlo lo le_rfl
  · exact .inl rfl

lemma clamped_bounded {parse : Text → Option PyFloat} {raw : Json} {key : String}
    {default lo hi : ℚ} (hdefault : lo ≤ default ∧ default ≤ hi) {x : PyFloat}
    (h : bounded parse raw key default lo hi = .ok x) : Clamped lo hi x := by
  rw [bounded] at h
  split at h
  · obtain rfl := Except.ok.inj h
    exact clamped_min_max (hdefault.1.trans hdefault.2) _
  · obtain rfl := Except.ok.inj h
    exact .inr ⟨default, rfl, hdefault⟩
  · obtain rfl := Except.ok.inj h
    exact .inr ⟨default, rfl, hdefault⟩
  · cases h

/-- The settings of a configuration are in their bounds. -/
lemma WakeSettings.Loaded.clamped {s : WakeSettings} (h : s.Loaded) :
    Clamped 5 300 s.timeout ∧ Clamped (1 / 2) 30 s.poll := by
  obtain ⟨parse, env, config, h⟩ := h
  obtain ⟨raw, lone, hraw⟩ : ∃ raw lone, wakeSettings parse raw lone = .ok (some s) := by
    unfold loadAutoWake at h
    split at h
    · cases h
    · cases config with
      | missing => cases h
      | unreadable => cases h
      | malformed => cases h
      | raised exc => cases h
      | loaded value lone =>
          dsimp only at h
          split at h
          · exact ⟨_, _, h⟩
          · cases h
  unfold wakeSettings at hraw
  split at hraw
  · split at hraw
    · cases hraw
    · split at hraw
      · next timeout poll htimeout hpoll =>
          obtain rfl := Option.some.inj (Except.ok.inj hraw)
          exact ⟨clamped_bounded (by norm_num) htimeout, clamped_bounded (by norm_num) hpoll⟩
      · cases hraw
      · cases hraw
  · cases hraw

/-! ### An attempt -/

/-- What `_try_claim_wake_lock` returns. -/
inductive WakeClaim
  /-- The file, with the lock on it. -/
  | locked
  /-- `_NULL_LOCK`, if the file cannot be opened. -/
  | unlocked
  /-- `None` -/
  | follower
deriving DecidableEq, Repr

/-- How an attempt ends. -/
inductive WakeEnd
  | commandFailed
  /-- `subprocess.run` raises `ValueError`, which `_run_wake_command` does not catch. -/
  | commandRaised
  | healthy
  | unreachable
  /-- `time.sleep` raises. -/
  | raised
  | died
deriving DecidableEq, Repr

/-- Where a hook is in `_attempt_wake`. -/
inductive WakeStage
  | idle
  /-- It runs the wake command. -/
  | command
  /-- It comes to the condition of the loop. -/
  | loop
  /-- It asks for `/health`. -/
  | asking
  | sleeping (till : ℚ)
  | ended (time : ℚ) (how : WakeEnd)
deriving DecidableEq

structure WakeAttempt where
  settings : WakeSettings
  claim : WakeClaim
  /-- When it claimed the lock. -/
  claimed : ℚ
  /-- When the loop began. -/
  start : ℚ
  /-- How often it has asked for `/health`. -/
  checks : ℕ
  stage : WakeStage

/-- The attempt is under way. -/
def WakeStage.active : WakeStage → Bool
  | .idle => false
  | .ended _ _ => false
  | _ => true

/-- The time, and the hook that has the lock. -/
structure WakeHost where
  now : ℚ
  holder : Option ℕ

/-- How long the hook waits in the loop. -/
def WakeAttempt.wait (a : WakeAttempt) : PyFloat :=
  match a.claim with
  | .follower => pyMin a.settings.timeout (.finite wakeFollowerWait)
  | _ => a.settings.timeout

/-- `time.monotonic() < start + wait` -/
def beforeDeadline (now start : ℚ) : PyFloat → Bool
  | .finite wait => now < start + wait
  | .inf => true
  | _ => false

/-- What `time.sleep` makes of the interval, if it does not raise. -/
def sleepTime : PyFloat → Option ℚ
  | .finite q => if 0 ≤ q then some q else none
  | _ => none

/-- How the wake command ends. -/
inductive CommandEnd
  /-- Its status is 0. -/
  | ok
  /-- Another status, `OSError` or `SubprocessError`. -/
  | failed
  /-- `ValueError` -/
  | raised
deriving DecidableEq, Repr

/-- `subprocess.run` cannot give the command to the shell. -/
def WakeSettings.raises (s : WakeSettings) : Bool := s.lone || s.command.any (·.toNat = 0)

/-- A command that cannot be given to the shell has no status. -/
def WakeSettings.allows (s : WakeSettings) : CommandEnd → Bool
  | .ok => !s.raises
  | .failed => true
  | .raised => s.raises

inductive WakeLabel
  /-- Time passes. -/
  | pass (d : ℚ)
  /-- The hook comes to `_attempt_wake`; `opened` and `failed` say how `open` and `flock` end. -/
  | claim (i : ℕ) (settings : WakeSettings) (opened failed : Bool)
  /-- The wake command ends. -/
  | command (i : ℕ) (how : CommandEnd)
  | test (i : ℕ)
  /-- `_daemon_healthy` returns. -/
  | answer (i : ℕ) (healthy : Bool)
  | wake (i : ℕ)
  /-- The process of the hook dies. -/
  | die (i : ℕ)

abbrev WakeState := Threads WakeHost WakeAttempt

/-- `_try_claim_wake_lock` -/
def tryClaimWakeLock (host : WakeHost) (opened failed : Bool) : WakeClaim :=
  if !opened then .unlocked else if failed || host.holder.isSome then .follower else .locked

/-- The host without the lock of the attempt. -/
def WakeAttempt.release (a : WakeAttempt) (host : WakeHost) : WakeHost :=
  if a.claim = .locked then { host with holder := none } else host

/-- The attempt ends, and its handle is closed. -/
def WakeState.finish (s : WakeState) (i : ℕ) (how : WakeEnd) : WakeState :=
  s.move i ((s.own i).release s.shared) { s.own i with stage := .ended s.shared.now how }

/-- The hook goes on with its attempt. -/
def WakeState.goTo (s : WakeState) (i : ℕ) (a : WakeAttempt) : WakeState := s.move i s.shared a

/-- `_attempt_wake` after `_run_wake_command` -/
def WakeState.commandEnds (s : WakeState) (i : ℕ) : CommandEnd → WakeState
  | .ok => s.goTo i { s.own i with start := s.shared.now, stage := .loop }
  | .failed => s.finish i .commandFailed
  | .raised => s.finish i .commandRaised

/-- The step of a hook in its attempt. -/
def WakeState.next (s : WakeState) : WakeLabel → Option WakeState
  | .pass d => if 0 ≤ d then some { s with shared.now := s.shared.now + d } else none
  | .claim i settings opened failed => match (s.own i).stage with
    | .idle =>
        let claim := tryClaimWakeLock s.shared opened failed
        let host := if claim = .locked then { s.shared with holder := some i } else s.shared
        some (s.move i host ⟨settings, claim, s.shared.now, s.shared.now, 0,
          if claim = .follower then .loop else .command⟩)
    | _ => none
  | .command i how => match (s.own i).stage with
    | .command =>
        if (s.own i).settings.allows how then some (s.commandEnds i how) else none
    | _ => none
  | .test i => match (s.own i).stage with
    | .loop =>
        some (if beforeDeadline s.shared.now (s.own i).start (s.own i).wait then
            s.goTo i { s.own i with checks := (s.own i).checks + 1, stage := .asking }
          else s.finish i .unreachable)
    | _ => none
  | .answer i healthy => match (s.own i).stage with
    | .asking =>
        some (if healthy then s.finish i .healthy
          else match sleepTime (s.own i).settings.poll with
            | some q => s.goTo i { s.own i with stage := .sleeping (s.shared.now + q) }
            | none => s.finish i .raised)
    | _ => none
  | .wake i => match (s.own i).stage with
    | .sleeping till =>
        if till ≤ s.shared.now then some (s.goTo i { s.own i with stage := .loop }) else none
    | _ => none
  | .die i => if (s.own i).stage.active then some (s.finish i .died) else none

/-- The hooks of a host.  No hook has come to `_attempt_wake` yet. -/
def wakeSystem : StepSystem WakeState WakeLabel where
  init s := s.shared.holder = none ∧ ∀ i, (s.own i).stage = .idle ∧ (s.own i).checks = 0
  next := WakeState.next

/-! ### What a step does -/

/-- How an attempt may end. -/
def Ends (now : ℚ) (a : WakeAttempt) : WakeEnd → Prop
  | .unreachable => a.stage = .loop ∧ beforeDeadline now a.start a.wait = false
  | .raised => sleepTime a.settings.poll = none
  | .commandRaised => a.stage = .command ∧ a.settings.raises = true
  | _ => True

/-- How an attempt goes on. -/
inductive GoesOn (now : ℚ) (a : WakeAttempt) : WakeAttempt → Prop
  | loop : a.stage = .command → GoesOn now a { a with start := now, stage := .loop }
  | ask : a.stage = .loop → beforeDeadline now a.start a.wait = true →
      GoesOn now a { a with checks := a.checks + 1, stage := .asking }
  | sleep {q : ℚ} : a.stage = .asking → sleepTime a.settings.poll = some q →
      GoesOn now a { a with stage := .sleeping (now + q) }
  | wake {till : ℚ} : a.stage = .sleeping till → till ≤ now → GoesOn now a { a with stage := .loop }

/-- The steps of the hooks. -/
inductive WakeMoves (s : WakeState) (l : WakeLabel) : WakeState → Prop
  | pass {d : ℚ} : 0 ≤ d → WakeMoves s l { s with shared.now := s.shared.now + d }
  | lead {i : ℕ} {settings : WakeSettings} {opened failed : Bool} :
      l = .claim i settings opened failed → (s.own i).stage = .idle → s.shared.holder = none →
      WakeMoves s l (s.move i { s.shared with holder := some i }
        ⟨settings, .locked, s.shared.now, s.shared.now, 0, .command⟩)
  | join {i : ℕ} {settings : WakeSettings} {opened failed : Bool} {claim : WakeClaim}
      {stage : WakeStage} : l = .claim i settings opened failed → (s.own i).stage = .idle →
      claim ≠ .locked → stage = .command ∨ stage = .loop →
      WakeMoves s l (s.goTo i ⟨settings, claim, s.shared.now, s.shared.now, 0, stage⟩)
  | goes {i : ℕ} {a : WakeAttempt} : GoesOn s.shared.now (s.own i) a → WakeMoves s l (s.goTo i a)
  | ends {i : ℕ} {how : WakeEnd} : (s.own i).stage.active = true →
      Ends s.shared.now (s.own i) how → WakeMoves s l (s.finish i how)

lemma WakeState.now_finish (s : WakeState) (i : ℕ) (how : WakeEnd) :
    (s.finish i how).shared.now = s.shared.now := by
  rw [WakeState.finish, Threads.shared_move, WakeAttempt.release]
  split_ifs <;> rfl

lemma wakeMoves_of_next {s s' : WakeState} {l : WakeLabel} (h : s.next l = some s') :
    WakeMoves s l s' := by
  cases l with
  | pass d =>
      obtain ⟨hd, hsome⟩ := Option.ite_none_right_eq_some.1 h
      obtain rfl := Option.some.inj hsome
      exact .pass hd
  | claim i settings opened failed =>
      rw [WakeState.next] at h
      split at h
      · next hidle =>
          obtain rfl := Option.some.inj h
          rcases hclaim : tryClaimWakeLock s.shared opened failed
          · -- only a file that could be opened, and nobody holds, gives the lock
            have hfree : s.shared.holder = none := by
              rw [tryClaimWakeLock] at hclaim
              split_ifs at hclaim with hopened hheld
              simp only [Bool.or_eq_true, not_or, Option.isSome_iff_ne_none, not_not] at hheld
              exact hheld.2
            exact .lead rfl hidle hfree
          · exact .join rfl hidle (by decide) (.inl rfl)
          · exact .join rfl hidle (by decide) (.inr rfl)
      · cases h
  | command i how =>
      rw [WakeState.next] at h
      split at h
      · next hstage =>
          obtain ⟨hallows, hsome⟩ := Option.ite_none_right_eq_some.1 h
          obtain rfl := Option.some.inj hsome
          have hactive : (s.own i).stage.active = true := by rw [hstage]; rfl
          cases how with
          | ok => exact .goes (.loop hstage)
          | failed => exact .ends hactive trivial
          | raised => exact .ends hactive ⟨hstage, hallows⟩
      · cases h
  | test i =>
      rw [WakeState.next] at h
      split at h
      · next hstage =>
          obtain rfl := Option.some.inj h
          split_ifs with hbefore
          · exact .goes (.ask hstage hbefore)
          · exact .ends (by rw [hstage]; rfl) ⟨hstage, Bool.eq_false_iff.2 hbefore⟩
      · cases h
  | answer i healthy =>
      rw [WakeState.next] at h
      split at h
      · next hstage =>
          obtain rfl := Option.some.inj h
          have hactive : (s.own i).stage.active = true := by rw [hstage]; rfl
          cases healthy
          · rcases hsleep : sleepTime (s.own i).settings.poll with _ | q
            · exact .ends hactive hsleep
            · exact .goes (.sleep hstage hsleep)
          · exact .ends hactive trivial
      · cases h
  | wake i =>
      rw [WakeState.next] at h
      split at h
      · next till hstage =>
          obtain ⟨hle, hsome⟩ := Option.ite_none_right_eq_some.1 h
          obtain rfl := Option.some.inj hsome
          exact .goes (.wake hstage hle)
      · cases h
  | die i =>
      obtain ⟨hactive, hsome⟩ := Option.ite_none_right_eq_some.1 h
      obtain rfl := Option.some.inj hsome
      exact .ends hactive trivial

/-! ### The lock -/

/-- The lock is held by the hook whose attempt with it is under way. -/
def Guarded (s : WakeState) : Prop :=
  ∀ i, s.shared.holder = some i ↔ (s.own i).claim = .locked ∧ (s.own i).stage.active = true

lemma GoesOn.same {now : ℚ} {a a' : WakeAttempt} (h : GoesOn now a a') :
    a.stage.active = true ∧ a'.stage.active = true ∧ a'.claim = a.claim ∧
      a'.claimed = a.claimed ∧ a'.settings = a.settings := by
  cases h with
  | loop hstage => exact ⟨by rw [hstage]; rfl, rfl, rfl, rfl, rfl⟩
  | ask hstage => exact ⟨by rw [hstage]; rfl, rfl, rfl, rfl, rfl⟩
  | sleep hstage => exact ⟨by rw [hstage]; rfl, rfl, rfl, rfl, rfl⟩
  | wake hstage => exact ⟨by rw [hstage]; rfl, rfl, rfl, rfl, rfl⟩

lemma Guarded.moves {s s' : WakeState} {l : WakeLabel} (h : Guarded s)
    (hmoves : WakeMoves s l s') : Guarded s' := by
  cases hmoves with
  | pass => exact h
  | @lead i settings opened failed hl hidle hfree =>
      intro j
      by_cases hj : j = i
      · subst hj
        simp [WakeStage.active]
      · have hnot : s.shared.holder ≠ some j := by
          rw [hfree]
          exact (Option.some_ne_none j).symm
        rw [Threads.own_move_of_ne hj, ← h j, Threads.shared_move]
        exact iff_of_false (fun heq => hj (Option.some.inj heq).symm) hnot
  | @join i settings opened failed claim stage hl hidle hclaim hstage =>
      intro j
      by_cases hj : j = i
      · subst hj
        have hnot : s.shared.holder ≠ some j := by
          rw [Ne, h j, hidle]
          exact fun hactive => Bool.false_ne_true hactive.2
        rw [WakeState.goTo, Threads.own_move_self, Threads.shared_move]
        exact iff_of_false hnot fun hlocked => hclaim hlocked.1
      · rw [WakeState.goTo, Threads.own_move_of_ne hj]
        exact h j
  | @goes i a hgoes =>
      obtain ⟨hactive, hactive', hclaim, -⟩ := hgoes.same
      intro j
      by_cases hj : j = i
      · subst hj
        rw [WakeState.goTo, Threads.own_move_self, Threads.shared_move, h j, hclaim, hactive,
          hactive']
      · rw [WakeState.goTo, Threads.own_move_of_ne hj]
        exact h j
  | @ends i how hactive =>
      intro j
      rw [WakeState.finish, Threads.shared_move, WakeAttempt.release]
      -- an attempt that ends gives the lock back exactly if it had it
      by_cases hlocked : (s.own i).claim = .locked
      · have hholds : s.shared.holder = some i := (h i).2 ⟨hlocked, hactive⟩
        rw [if_pos hlocked]
        refine iff_of_false (Option.some_ne_none j).symm ?_
        by_cases hj : j = i
        · subst hj
          rw [Threads.own_move_self]
          exact fun hno => Bool.false_ne_true hno.2
        · rw [Threads.own_move_of_ne hj, ← h j, hholds]
          exact fun heq => hj (Option.some.inj heq).symm
      · rw [if_neg hlocked]
        by_cases hj : j = i
        · subst hj
          rw [Threads.own_move_self, h j]
          exact iff_of_false (fun hno => hlocked hno.1) fun hno => hlocked hno.1
        · rw [Threads.own_move_of_ne hj]
          exact h j

/-! ### Attempts one after the other -/

/-- An attempt in time. -/
structure Timed (now : ℚ) (a : WakeAttempt) : Prop where
  claimed : a.claimed ≤ now
  start : a.claimed ≤ a.start
  ended : ∀ t how, a.stage = .ended t how → t ≤ now ∧
    (how = .unreachable → beforeDeadline t a.start a.wait = false) ∧
    (how = .raised → sleepTime a.settings.poll = none) ∧
    (how = .commandRaised → a.settings.raises = true)

/-- The attempt of a hook, if it has begun. -/
def TimedIn (host : WakeHost) (_ : ℕ) (a : WakeAttempt) : Prop :=
  a.stage ≠ .idle → Timed host.now a

/-- The attempt was over at the time, and it was given up only after its timeout. -/
def Over (a : WakeAttempt) (time : ℚ) : Prop :=
  ∃ t how, a.stage = .ended t how ∧ t ≤ time ∧
    (how = .unreachable → ∀ q, a.settings.timeout = .finite q → a.claimed + q ≤ t)

lemma Timed.mono {now now' : ℚ} {a : WakeAttempt} (h : Timed now a) (hle : now ≤ now') :
    Timed now' a where
  claimed := h.claimed.trans hle
  start := h.start
  ended t how hstage := ⟨(h.ended t how hstage).1.trans hle, (h.ended t how hstage).2⟩

lemma GoesOn.timed {now : ℚ} {a a' : WakeAttempt} (h : Timed now a) (hgoes : GoesOn now a a') :
    Timed now a' := by
  have hnot : ∀ {t : ℚ} {how : WakeEnd}, a'.stage ≠ .ended t how := by
    rintro t how heq
    have hactive := hgoes.same.2.1
    rw [heq] at hactive
    cases hactive
  refine ⟨?_, ?_, fun t how heq => absurd heq hnot⟩
  · rw [hgoes.same.2.2.2.1]
    exact h.claimed
  · cases hgoes with
    | loop => exact h.claimed
    | ask => exact h.start
    | sleep => exact h.start
    | wake => exact h.start

/-- The attempts that had the lock were one after the other. -/
def Apart (s : WakeState) : Prop :=
  ∀ i j, i ≠ j → (s.own i).claim = .locked → (s.own j).claim = .locked →
    (s.own i).stage ≠ .idle → (s.own j).stage ≠ .idle →
      Over (s.own i) (s.own j).claimed ∨ Over (s.own j) (s.own i).claimed

/-- What holds in every run. -/
structure WakeInv (s : WakeState) : Prop where
  guarded : Guarded s
  timed : ∀ i, TimedIn s.shared i (s.own i)
  apart : Apart s

lemma Timed.over {now : ℚ} {a : WakeAttempt} (h : Timed now a) (hlocked : a.claim = .locked)
    (hidle : a.stage ≠ .idle) (hactive : a.stage.active = false) : Over a now := by
  rcases hstage : a.stage with _ | _ | _ | _ | till | ⟨t, how⟩
  · exact absurd hstage hidle
  · rw [hstage] at hactive
    cases hactive
  · rw [hstage] at hactive
    cases hactive
  · rw [hstage] at hactive
    cases hactive
  · rw [hstage] at hactive
    cases hactive
  · obtain ⟨hle, hunreachable, -⟩ := h.ended t how hstage
    refine ⟨t, how, hstage, hle, fun hhow q hq => ?_⟩
    have hwait : a.wait = .finite q := by rw [WakeAttempt.wait, hlocked, hq]
    have hover := hunreachable hhow
    rw [hwait, beforeDeadline, decide_eq_false_iff_not, not_lt] at hover
    linarith [h.start]

lemma not_over_of_active {a : WakeAttempt} (h : a.stage.active = true) (time : ℚ) :
    ¬Over a time := by
  rintro ⟨t, how, hstage, -⟩
  rw [hstage] at h
  cases h

lemma ne_idle_of_active {stage : WakeStage} (h : stage.active = true) : stage ≠ .idle := by
  rintro rfl
  cases h

/-- An attempt that goes on or ends keeps its place. -/
lemma Apart.move {s : WakeState} (h : Apart s) {i : ℕ} (hactive : (s.own i).stage.active = true)
    {host : WakeHost} {a : WakeAttempt} (hclaim : a.claim = (s.own i).claim)
    (hclaimed : a.claimed = (s.own i).claimed) : Apart (s.move i host a) := by
  have hidle := ne_idle_of_active hactive
  intro j k hjk hj hk hjidle hkidle
  by_cases hji : j = i
  · subst hji
    have hkj : k ≠ j := Ne.symm hjk
    rw [Threads.own_move_self] at hj ⊢
    rw [Threads.own_move_of_ne hkj] at hk hkidle ⊢
    have hover := (h j k hjk (hclaim ▸ hj) hk hidle hkidle).resolve_left
      (not_over_of_active hactive _)
    rw [hclaimed]
    exact .inr hover
  · rw [Threads.own_move_of_ne hji] at hj hjidle ⊢
    by_cases hki : k = i
    · subst hki
      rw [Threads.own_move_self] at hk ⊢
      have hover := (h j k hjk hj (hclaim ▸ hk) hjidle hidle).resolve_right
        (not_over_of_active hactive _)
      rw [hclaimed]
      exact .inl hover
    · rw [Threads.own_move_of_ne hki] at hk hkidle ⊢
      exact h j k hjk hj hk hjidle hkidle

/-- A hook that begins without the lock is in nobody's place. -/
lemma Apart.join {s : WakeState} (h : Apart s) {i : ℕ} {host : WakeHost} {a : WakeAttempt}
    (hclaim : a.claim ≠ .locked) : Apart (s.move i host a) := by
  intro j k hjk hj hk hjidle hkidle
  by_cases hji : j = i
  · subst hji
    rw [Threads.own_move_self] at hj
    exact absurd hj hclaim
  · by_cases hki : k = i
    · subst hki
      rw [Threads.own_move_self] at hk
      exact absurd hk hclaim
    · rw [Threads.own_move_of_ne hji] at hj hjidle ⊢
      rw [Threads.own_move_of_ne hki] at hk hkidle ⊢
      exact h j k hjk hj hk hjidle hkidle

/-- A hook that gets the lock comes after those that had it. -/
lemma WakeInv.lead {s : WakeState} (h : WakeInv s) {i : ℕ} {host : WakeHost} {a : WakeAttempt}
    (hfree : s.shared.holder = none) (hclaimed : a.claimed = s.shared.now) :
    Apart (s.move i host a) := by
  -- whoever had the lock is through with it
  have hover : ∀ j, (s.own j).claim = .locked → (s.own j).stage ≠ .idle →
      Over (s.own j) s.shared.now := by
    rintro j hlocked hidle
    refine (h.timed j hidle).over hlocked hidle (Bool.eq_false_iff.2 fun hactive => ?_)
    rw [← Bool.not_eq_false] at hactive
    have hholds := (h.guarded j).2 ⟨hlocked, Bool.not_eq_false _ ▸ hactive⟩
    rw [hfree] at hholds
    cases hholds
  intro j k hjk hj hk hjidle hkidle
  by_cases hji : j = i
  · subst hji
    have hkj : k ≠ j := Ne.symm hjk
    rw [Threads.own_move_self]
    rw [Threads.own_move_of_ne hkj] at hk hkidle ⊢
    rw [hclaimed]
    exact .inr (hover k hk hkidle)
  · rw [Threads.own_move_of_ne hji] at hj hjidle ⊢
    by_cases hki : k = i
    · subst hki
      rw [Threads.own_move_self, hclaimed]
      exact .inl (hover j hj hjidle)
    · rw [Threads.own_move_of_ne hki] at hk hkidle ⊢
      exact h.apart j k hjk hj hk hjidle hkidle

lemma WakeInv.moves {s s' : WakeState} {l : WakeLabel} (h : WakeInv s)
    (hmoves : WakeMoves s l s') : WakeInv s' := by
  have hguarded := h.guarded.moves hmoves
  cases hmoves with
  | @pass d hd =>
      refine ⟨hguarded, fun i hidle => (h.timed i hidle).mono ?_, h.apart⟩
      exact le_add_of_nonneg_right hd
  | @lead i settings opened failed hl hidle hfree =>
      -- the lock was free, so whoever had it before is through
      refine ⟨hguarded, ?_, h.lead hfree rfl⟩
      refine Threads.forall_move (P := TimedIn) h.timed
        (fun _ => ⟨le_rfl, le_rfl, fun t how heq => by cases heq⟩) fun j _ hj => hj
  | @join i settings opened failed claim stage hl hidle hclaim hstage =>
      refine ⟨hguarded, ?_, h.apart.join hclaim⟩
      refine Threads.forall_move (P := TimedIn) h.timed
        (fun _ => ⟨le_rfl, le_rfl, fun t how heq => ?_⟩) fun j _ hj => hj
      dsimp only at heq
      rw [heq] at hstage
      rcases hstage with hstage | hstage <;> cases hstage
  | @goes i a hgoes =>
      obtain ⟨hactive, -, hclaim, hclaimed, -⟩ := hgoes.same
      refine ⟨hguarded, ?_, h.apart.move hactive hclaim hclaimed⟩
      exact Threads.forall_move (P := TimedIn) h.timed
        (fun _ => hgoes.timed (h.timed i (ne_idle_of_active hactive))) fun j _ hj => hj
  | @ends i how hactive hends =>
      refine ⟨hguarded, ?_, h.apart.move hactive rfl rfl⟩
      have htimed := h.timed i (ne_idle_of_active hactive)
      have hnow := s.now_finish i how
      refine Threads.forall_move (P := TimedIn) h.timed
        (fun _ => ⟨?_, htimed.start, fun t how' heq => ?_⟩) fun j _ hj => ?_
      · rw [hnow]
        exact htimed.claimed
      · obtain ⟨rfl, rfl⟩ := WakeStage.ended.inj heq
        refine ⟨hnow.ge, ?_, ?_, ?_⟩
        · rintro rfl
          exact hends.2
        · rintro rfl
          exact hends
        · rintro rfl
          exact hends.2
      · intro hidle
        rw [hnow]
        exact hj hidle

lemma wakeInv_of_reachable {s : WakeState} (h : wakeSystem.Reachable s) : WakeInv s := by
  refine StepSystem.ReachedBy.invariant (fun s hs => ?_) (fun s a s' hinv _ hnext => ?_) h
  · obtain ⟨hfree, hidle⟩ := hs
    refine ⟨fun i => ?_, fun i hi => absurd (hidle i).1 hi,
      fun i j _ _ _ hi => absurd (hidle i).1 hi⟩
    rw [hfree, (hidle i).1]
    exact iff_of_false (Option.some_ne_none i).symm fun hno => Bool.false_ne_true hno.2
  · exact hinv.moves (wakeMoves_of_next hnext)

/-- **Wake commands.**  Of two hooks that got the lock one was through with its attempt when the
other one ran the wake command, and if the host had not answered it by then, it had waited for its
timeout, or its command had failed, or it had ended by an exception, or its process had ended. -/
theorem wakes_apart {s : WakeState} (h : wakeSystem.Reachable s) {i j : ℕ} (hij : i ≠ j)
    (hi : (s.own i).claim = .locked ∧ (s.own i).stage ≠ .idle)
    (hj : (s.own j).claim = .locked ∧ (s.own j).stage ≠ .idle) :
    Over (s.own i) (s.own j).claimed ∨ Over (s.own j) (s.own i).claimed :=
  (wakeInv_of_reachable h).apart i j hij hi.1 hj.1 hi.2 hj.2

/-- Hooks that have not come to `_attempt_wake`. -/
def asleep : WakeState :=
  ⟨⟨0, none⟩, fun _ => ⟨⟨[], false, .finite 45, .finite 2⟩, .follower, 0, 0, 0, .idle⟩⟩

/-- The attempts of a hook whose wake command brings the host up, and of one that comes later. -/
theorem wakes_apart_twice : ∃ s, wakeSystem.Reachable s ∧ (s.own 1).claimed = 5 ∧
    (Over (s.own 0) (s.own 1).claimed ∨ Over (s.own 1) (s.own 0).claimed) := by
  obtain ⟨s, hexec, hend⟩ := wakeSystem.exists_of_exec_any asleep
    [WakeLabel.claim 0 ⟨"wol".toList, false, .finite 45, .finite 2⟩ true false, .command 0 .ok,
      .pass 3, .test 0, .answer 0 true, .pass 2,
      .claim 1 ⟨"wol".toList, false, .finite 45, .finite 2⟩ true false]
    (fun s => (s.own 0).claim = .locked ∧ (s.own 0).stage ≠ .idle ∧ (s.own 1).claim = .locked ∧
      (s.own 1).stage ≠ .idle ∧ (s.own 1).claimed = 5) (by decide +kernel)
  have hreachable : wakeSystem.Reachable s :=
    StepSystem.Reachable.exec (.init ⟨rfl, fun i => ⟨rfl, rfl⟩⟩) hexec
  obtain ⟨hi, hi', hj, hj', hclaimed⟩ := of_decide_eq_true hend
  exact ⟨s, hreachable, hclaimed, wakes_apart hreachable (by decide) ⟨hi, hi'⟩ ⟨hj, hj'⟩⟩

/-! ### How long an attempt takes -/

/-- The health checks of an attempt are apart by the poll interval. -/
structure Paced (now : ℚ) (a : WakeAttempt) : Prop where
  asked : 0 < a.checks → ∃ t, beforeDeadline t a.start a.wait = true ∧
    ∀ q, sleepTime a.settings.poll = some q → a.start + (a.checks - 1) * q ≤ t
  early : a.stage = .idle ∨ a.stage = .command → a.checks = 0
  loop : a.stage = .loop → ∀ q, sleepTime a.settings.poll = some q → a.start + a.checks * q ≤ now
  asking : a.stage = .asking → ∀ q, sleepTime a.settings.poll = some q →
    a.start + (a.checks - 1) * q ≤ now
  sleeping : ∀ till, a.stage = .sleeping till → ∃ q, sleepTime a.settings.poll = some q ∧
    a.start + a.checks * q ≤ till
  once : sleepTime a.settings.poll = none → a.checks ≤ 1 ∧ (a.stage = .loop → a.checks = 0)
  refused : ∀ t, a.stage = .ended t .commandRaised → a.checks = 0

def PacedIn (host : WakeHost) (_ : ℕ) (a : WakeAttempt) : Prop := Paced host.now a

lemma Paced.mono {now now' : ℚ} {a : WakeAttempt} (h : Paced now a) (hle : now ≤ now') :
    Paced now' a where
  asked := h.asked
  early := h.early
  loop hstage q hq := (h.loop hstage q hq).trans hle
  asking hstage q hq := (h.asking hstage q hq).trans hle
  sleeping := h.sleeping
  once := h.once
  refused := h.refused

/-- An attempt that begins, or has not begun. -/
lemma paced_of_checks {now : ℚ} {a : WakeAttempt} (hchecks : a.checks = 0)
    (hstart : a.stage = .loop → a.start ≤ now)
    (hstage : a.stage ≠ .asking ∧ ∀ till, a.stage ≠ .sleeping till) : Paced now a where
  asked hpos := absurd hchecks hpos.ne'
  early _ := hchecks
  loop hloop q _ := by
    rw [hchecks, Nat.cast_zero, zero_mul, add_zero]
    exact hstart hloop
  asking hasking := absurd hasking hstage.1
  sleeping till hsleeping := absurd hsleeping (hstage.2 till)
  once _ := ⟨by omega, fun _ => hchecks⟩
  refused _ _ := hchecks

lemma GoesOn.paced {now : ℚ} {a a' : WakeAttempt} (h : Paced now a) (hgoes : GoesOn now a a') :
    Paced now a' := by
  cases hgoes with
  | loop hstage =>
      exact paced_of_checks (h.early (.inr hstage)) (fun _ => le_rfl) ⟨by simp, by simp⟩
  | ask hstage hbefore =>
      refine ⟨fun _ => ⟨now, hbefore, fun q hq => ?_⟩, by simp, by simp, fun _ q hq => ?_, by simp,
        fun hnone => ⟨?_, by simp⟩, by simp⟩
      · simpa using h.loop hstage q hq
      · simpa using h.loop hstage q hq
      · rw [(h.once hnone).2 hstage]
  | @sleep q hstage hq =>
      refine ⟨h.asked, by simp, by simp, by simp, fun till heq => ⟨q, hq, ?_⟩, fun hnone => ?_,
        by simp⟩
      · obtain rfl := WakeStage.sleeping.inj heq
        have hle := h.asking hstage q hq
        dsimp only
        linarith
      · cases hq.symm.trans hnone
  | @wake till hstage hle =>
      obtain ⟨q, hq, hstart⟩ := h.sleeping till hstage
      refine ⟨h.asked, by simp, fun _ q' hq' => ?_, by simp, by simp, fun hnone => ?_, by simp⟩
      · obtain rfl := Option.some.inj (hq.symm.trans hq')
        exact hstart.trans hle
      · cases hq.symm.trans hnone

/-- The settings of every attempt are read from a configuration. -/
def Configured (_ : WakeState) : WakeLabel → Prop
  | .claim _ settings _ _ => settings.Loaded
  | _ => True

lemma pacedIn_moves {s s' : WakeState} {l : WakeLabel} (h : ∀ i, PacedIn s.shared i (s.own i))
    (hmoves : WakeMoves s l s') : ∀ i, PacedIn s'.shared i (s'.own i) := by
  cases hmoves with
  | pass hd => exact fun i => (h i).mono (le_add_of_nonneg_right hd)
  | lead hl hidle hfree =>
      refine Threads.forall_move (P := PacedIn) h ?_ fun j _ hj => hj
      exact paced_of_checks rfl (fun _ => le_rfl) ⟨by simp, by simp⟩
  | @join i settings opened failed claim stage hl hidle hclaim hstage =>
      refine Threads.forall_move (P := PacedIn) h ?_ fun j _ hj => hj
      refine paced_of_checks rfl (fun _ => le_rfl) ⟨?_, fun till => ?_⟩
      · rcases hstage with rfl | rfl <;> simp
      · rcases hstage with rfl | rfl <;> simp
  | goes hgoes => exact Threads.forall_move (P := PacedIn) h (hgoes.paced (h _)) fun j _ hj => hj
  | @ends i how hactive hends =>
      have hnow := s.now_finish i how
      refine Threads.forall_move (P := PacedIn) h ?_ fun j _ hj => ?_
      · refine ⟨(h i).asked, by simp, by simp, by simp, by simp, fun hnone =>
          ⟨((h i).once hnone).1, by simp⟩, fun t heq => ?_⟩
        obtain ⟨-, rfl⟩ := WakeStage.ended.inj heq
        exact (h i).early (.inr hends.1)
      · rw [PacedIn, hnow]
        exact hj

/-- The settings of an attempt, once it has begun. -/
def LoadedIn (_ : WakeHost) (_ : ℕ) (a : WakeAttempt) : Prop := a.stage ≠ .idle → a.settings.Loaded

lemma loadedIn_moves {s s' : WakeState} {l : WakeLabel} (h : ∀ i, LoadedIn s.shared i (s.own i))
    (hl : Configured s l) (hmoves : WakeMoves s l s') : ∀ i, LoadedIn s'.shared i (s'.own i) := by
  cases hmoves with
  | pass => exact h
  | lead hclaim =>
      subst hclaim
      exact Threads.forall_move (P := LoadedIn) h (fun _ => hl) fun j _ hj => hj
  | join hclaim =>
      subst hclaim
      exact Threads.forall_move (P := LoadedIn) h (fun _ => hl) fun j _ hj => hj
  | @goes i a hgoes =>
      obtain ⟨hactive, -, -, -, hsettings⟩ := hgoes.same
      refine Threads.forall_move (P := LoadedIn) h (fun _ => ?_) fun j _ hj => hj
      rw [hsettings]
      exact h i (ne_idle_of_active hactive)
  | @ends i how hactive =>
      exact Threads.forall_move (P := LoadedIn) h (fun _ => h i (ne_idle_of_active hactive))
        fun j _ hj => hj

/-- The time in the loop is in the bounds of the timeout. -/
lemma WakeAttempt.clamped_wait {a : WakeAttempt} (h : a.settings.Loaded) :
    Clamped 5 300 a.wait := by
  have htimeout := h.clamped.1
  rw [WakeAttempt.wait]
  split
  · rcases htimeout with hnan | ⟨q, hq, hlo, hhi⟩
    · rw [hnan]
      exact .inl rfl
    · rw [hq, pyMin, PyFloat.lt]
      split_ifs
      · exact .inr ⟨20, rfl, by norm_num, by norm_num⟩
      · exact .inr ⟨q, rfl, hlo, hhi⟩
  · exact htimeout

lemma Paced.checks_le {now : ℚ} {a : WakeAttempt} (h : Paced now a) (hloaded : a.settings.Loaded) :
    a.checks ≤ 600 := by
  rcases hloaded.clamped.2 with hnan | ⟨q, hq, hlo, -⟩
  · have hnone : sleepTime a.settings.poll = none := by rw [hnan]; rfl
    exact (h.once hnone).1.trans (by norm_num)
  · have hsome : sleepTime a.settings.poll = some q := by
      rw [hq, sleepTime, if_pos (hlo.trans' (by norm_num))]
    rcases Nat.eq_zero_or_pos a.checks with hzero | hpos
    · omega
    · -- the time of the last check
      obtain ⟨t, hbefore, hpaced⟩ := h.asked hpos
      rcases a.clamped_wait hloaded with hnan | ⟨w, hw, -, hhi⟩
      · rw [hnan] at hbefore
        cases hbefore
      · rw [hw, beforeDeadline, decide_eq_true_eq] at hbefore
        have hlast := hpaced q hsome
        have hchecks : (1 : ℚ) ≤ a.checks := by exact_mod_cast hpos
        have hprod : ((a.checks : ℚ) - 1) * (1 / 2) ≤ (a.checks - 1) * q :=
          mul_le_mul_of_nonneg_left hlo (by linarith)
        have hlt : (a.checks : ℚ) < 601 := by linarith
        exact Nat.lt_succ_iff.1 (by exact_mod_cast hlt)

/-- What holds in every run with settings that were read. -/
def PacedInv (s : WakeState) : Prop :=
  (∀ i, PacedIn s.shared i (s.own i)) ∧ ∀ i, LoadedIn s.shared i (s.own i)

lemma pacedInv_of_reachedBy {s : WakeState} (h : wakeSystem.ReachedBy Configured s) :
    PacedInv s := by
  refine StepSystem.ReachedBy.invariant (fun s hs => ?_) (fun s l s' hinv hl hnext => ?_) h
  · refine ⟨fun i => ?_, fun i hi => absurd (hs.2 i).1 hi⟩
    obtain ⟨hidle, hchecks⟩ := hs.2 i
    exact paced_of_checks hchecks (by simp [hidle]) (by simp [hidle])
  · have hmoves := wakeMoves_of_next hnext
    exact ⟨pacedIn_moves hinv.1 hmoves, loadedIn_moves hinv.2 hl hmoves⟩

/-- **Limits.**  Whatever is in the configuration, a hook asks for `/health` at most 600 times.
`_attempt_wake` raises only if the poll interval is not a number, or before it has asked, if the
command cannot be given to the shell. -/
theorem wake_bounded {s : WakeState} (h : wakeSystem.ReachedBy Configured s) (i : ℕ) :
    (s.own i).checks ≤ 600 ∧
      (∀ t, (s.own i).stage = .ended t .raised → (s.own i).settings.poll = .nan) ∧
      ∀ t, (s.own i).stage = .ended t .commandRaised →
        (s.own i).settings.raises = true ∧ (s.own i).checks = 0 := by
  obtain ⟨hpaced, hloaded⟩ := pacedInv_of_reachedBy h
  have hinv := wakeInv_of_reachable h.reachable
  by_cases hidle : (s.own i).stage = .idle
  · refine ⟨by rw [(hpaced i).early (.inl hidle)]; norm_num, fun t heq => ?_, fun t heq => ?_⟩
    · cases hidle.symm.trans heq
    · cases hidle.symm.trans heq
  · refine ⟨(hpaced i).checks_le (hloaded i hidle), fun t heq => ?_, fun t heq => ?_⟩
    · have hnone := ((hinv.timed i hidle).ended t .raised heq).2.2.1 rfl
      rcases (hloaded i hidle).clamped.2 with hnan | ⟨q, hq, hlo, -⟩
      · exact hnan
      · rw [hq, sleepTime, if_pos (hlo.trans' (by norm_num))] at hnone
        cases hnone
    · exact ⟨((hinv.timed i hidle).ended t _ heq).2.2.2 rfl, (hpaced i).refused t heq⟩

/-- A configuration with a command and an interval that is not a number. -/
def nanConfig : ConfigFile :=
  .loaded (.obj [("auto_wake".toList, .obj [("command".toList, .str "wol".toList),
    ("poll_interval_seconds".toList, .float .nan)])]) false

lemma loaded_nan : (⟨"wol".toList, false, .finite 45, .nan⟩ : WakeSettings).Loaded := by
  refine ⟨fun _ => none, none, nanConfig, ?_⟩
  decide +kernel

/-- The limits of a hook that finds the host asleep after its command, and cannot sleep. -/
theorem wake_bounded_nan : ∃ s, wakeSystem.ReachedBy Configured s ∧
    (s.own 0).stage = .ended 0 .raised ∧ (s.own 0).checks ≤ 600 := by
  obtain ⟨s, hexec, hstage⟩ := wakeSystem.exists_of_exec_any asleep
    [WakeLabel.claim 0 ⟨"wol".toList, false, .finite 45, .nan⟩ true false, .command 0 .ok, .test 0,
      .answer 0 false] (fun s => (s.own 0).stage = .ended 0 .raised) (by decide +kernel)
  have hreached : wakeSystem.ReachedBy Configured s := by
    refine StepSystem.ReachedBy.exec (.init ⟨rfl, fun i => ⟨rfl, rfl⟩⟩) ?_ hexec
    refine ⟨loaded_nan, fun s' _ => ?_⟩
    refine StepSystem.meets_of_forall (fun s l hl => ?_) s'
    simp only [List.mem_cons, List.not_mem_nil, or_false] at hl
    rcases hl with rfl | rfl | rfl <;> trivial
  exact ⟨s, hreached, of_decide_eq_true hstage, (wake_bounded hreached 0).1⟩

end PalaceDaemon.Hook

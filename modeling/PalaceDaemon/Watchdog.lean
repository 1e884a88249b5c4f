/-
The watchdog of systemd (`src/sd_watchdog.py`).

When `WatchdogSec` is set, systemd kills the daemon after that time without a keepalive.
`watchdog_loop` sleeps for half of it, but for ten seconds at least, and sends one if the collection
can be had, or if a rebuild is in progress.  A step of `watchdogSystem` is what the loop does up to
its next await, or what happens around it.

A daemon whose collection is there in time is never killed exactly if the sleep and this time are
less than `WatchdogSec` together (`never_killed_iff`).  That a rebuild is not killed holds of the
rebuilds that do not begin during a probe (`rebuild_killed`).  And a single probe that fails is
fatal, unless two sleeps are less than `WatchdogSec` (`survives_miss_iff`).

The shutdown of the daemon and a message that does not arrive are left out.
-/
import Mathlib
import PalaceDaemon.Lib.StepSystem

namespace PalaceDaemon.Watchdog

/-! ### The loop -/

/-- `watchdog_interval`, for what `int` makes of `WATCHDOG_USEC`, or `none` for a `ValueError`. -/
def watchdogInterval (usec : Option ℤ) : ℤ :=
  match usec with
  | none => 0
  | some n => n / 1000000

/-- `tick` of `watchdog_loop`, in seconds -/
def tick (interval : ℤ) : ℤ := max 10 (interval / 2)

/-- Where the loop is. -/
inductive Stage
  /-- The loop was not started. -/
  | off
  | sleeping (due : ℚ)
  /-- `_get_collection` runs; the sleep before it was due then. -/
  | probing (due : ℚ)
deriving DecidableEq

/-- The clock, the loop and what systemd knows.  The source does not keep `missed`: a probe has
failed since the last keepalive. -/
structure State where
  clock : ℚ
  lastPing : ℚ
  stage : Stage
  rebuilding : Bool
  missed : Bool
  killed : Bool
deriving DecidableEq

/-- What happens. -/
inductive Label
  | pass (time : ℚ)
  /-- The sleep of the loop ends. -/
  | wake
  /-- The probe ends, with a collection, or without one or with an exception. -/
  | probed (found : Bool)
  /-- A rebuild begins or ends. -/
  | rebuild (begins : Bool)
  /-- systemd kills the daemon. -/
  | kill

/-- The time of systemd, in seconds -/
def timeout (usec : ℤ) : ℚ := usec / 1000000

/-- `tick` for the setting -/
def period (usec : ℤ) : ℚ := tick (watchdogInterval (some usec))

/-- `WATCHDOG=1` -/
def State.ping (s : State) : State := { s with lastPing := s.clock, missed := false }

/-- The loop goes to sleep. -/
def State.sleep (usec : ℤ) (s : State) : State :=
  { s with stage := .sleeping (s.clock + period usec) }

/-- A step of a daemon that has not been killed. -/
def State.go (usec : ℤ) (s : State) : Label → Option State
  | .pass time => if 0 ≤ time then some { s with clock := s.clock + time } else none
  | .wake => match s.stage with
      | .sleeping due =>
          if due ≤ s.clock then
            some (if s.rebuilding then s.ping.sleep usec else { s with stage := .probing due })
          else none
      | _ => none
  | .probed found => match s.stage with
      | .probing _ =>
          some ((if found then s.ping else { s with missed := true }).sleep usec)
      | _ => none
  | .rebuild begins => some { s with rebuilding := begins }
  | .kill => if s.lastPing + timeout usec ≤ s.clock then some { s with killed := true } else none

def State.next (usec : ℤ) (s : State) (label : Label) : Option State :=
  if s.killed then none else s.go usec label

/-- The daemon has sent `READY=1`, and starts the loop if `watchdog_interval` is positive. -/
def start (usec : ℤ) (clock : ℚ) : State where
  clock := clock
  lastPing := clock
  stage := if 0 < watchdogInterval (some usec) then .sleeping (clock + period usec) else .off
  rebuilding := false
  missed := false
  killed := false

/-- The daemon under a systemd that sets `WATCHDOG_USEC`. -/
def watchdogSystem (usec : ℤ) : StepSystem State Label where
  init s := ∃ clock, s = start usec clock
  next := State.next usec

lemma ten_le_period (usec : ℤ) : 10 ≤ period usec := by
  rw [period, tick]
  exact_mod_cast le_max_left 10 _

/-- What a step does. -/
inductive Goes (usec : ℤ) (s : State) : Label → State → Prop
  | pass {time : ℚ} : 0 ≤ time → Goes usec s (.pass time) { s with clock := s.clock + time }
  | fed {due : ℚ} : s.stage = .sleeping due → due ≤ s.clock → s.rebuilding = true →
      Goes usec s .wake (s.ping.sleep usec)
  | probes {due : ℚ} : s.stage = .sleeping due → due ≤ s.clock → s.rebuilding = false →
      Goes usec s .wake { s with stage := .probing due }
  | found {due : ℚ} : s.stage = .probing due → Goes usec s (.probed true) (s.ping.sleep usec)
  | fails {due : ℚ} : s.stage = .probing due →
      Goes usec s (.probed false) (State.sleep usec { s with missed := true })
  | rebuild (begins : Bool) : Goes usec s (.rebuild begins) { s with rebuilding := begins }
  | kill : s.lastPing + timeout usec ≤ s.clock → Goes usec s .kill { s with killed := true }

lemma goes_of_next {usec : ℤ} {s s' : State} {label : Label}
    (h : s.next usec label = some s') : s.killed = false ∧ Goes usec s label s' := by
  rw [State.next] at h
  split_ifs at h with hkilled
  refine ⟨by simpa using hkilled, ?_⟩
  cases label with
  | pass time =>
      simp only [State.go, Option.ite_none_right_eq_some, Option.some.injEq] at h
      obtain ⟨htime, rfl⟩ := h
      exact .pass htime
  | wake =>
      simp only [State.go] at h
      rcases hstage : s.stage with _ | due | due <;> rw [hstage] at h
      · cases h
      · simp only [Option.ite_none_right_eq_some, Option.some.injEq] at h
        obtain ⟨hdue, rfl⟩ := h
        split_ifs with hrebuild
        · exact .fed hstage hdue hrebuild
        · exact .probes hstage hdue (by simpa using hrebuild)
      · cases h
  | probed found =>
      simp only [State.go] at h
      rcases hstage : s.stage with _ | due | due <;> rw [hstage] at h
      · cases h
      · cases h
      · obtain rfl := Option.some.inj h
        cases found
        · exact .fails hstage
        · exact .found hstage
  | rebuild begins =>
      obtain rfl := Option.some.inj h
      exact .rebuild begins
  | kill =>
      simp only [State.go, Option.ite_none_right_eq_some, Option.some.injEq] at h
      obtain ⟨hlate, rfl⟩ := h
      exact .kill hlate

/-! ### A healthy daemon -/

/-- The end of the last sleep, or of the one that goes on. -/
def Stage.due : Stage → Option ℚ
  | .off => none
  | .sleeping due => some due
  | .probing due => some due

/-- A probe that a rebuild may keep waiting. -/
def State.Blocked (s : State) : Prop := s.rebuilding = true ∧ ∃ due, s.stage = .probing due

/-- The loop wakes, and its probe has ended, within the delay, and there is a collection; of probes
during a rebuild nothing is said. -/
def Prompt (delay : ℚ) (s : State) : Label → Prop
  | .pass time => ¬s.Blocked → ∀ due ∈ s.stage.due, s.clock + time ≤ due + delay
  | .probed found => ¬s.Blocked → found = true
  | _ => True

/-- No rebuild begins during a probe, besides. -/
def Healthy (delay : ℚ) (s : State) (label : Label) : Prop :=
  Prompt delay s label ∧ (label = .rebuild true → ∀ due, s.stage ≠ .probing due)

/-- What holds in the runs of a healthy daemon. -/
structure Kept (usec : ℤ) (delay : ℚ) (s : State) : Prop where
  alive : s.killed = false
  free : ¬s.Blocked
  due : s.stage.due = some (s.lastPing + period usec)
  inTime : s.clock ≤ s.lastPing + period usec + delay

variable {usec : ℤ} {delay clock : ℚ} {s s' : State} {label : Label}

lemma not_blocked_of_sleep (s : State) : ¬(s.sleep usec).Blocked := by
  rintro ⟨-, due, hstage⟩
  cases hstage

/-- A keepalive, and a sleep. -/
lemma Kept.ping (h : Kept usec delay s) (hdelay : 0 ≤ delay) :
    Kept usec delay (s.ping.sleep usec) := by
  refine ⟨h.alive, not_blocked_of_sleep _, rfl, ?_⟩
  have hperiod := ten_le_period usec
  simp only [State.sleep, State.ping]
  linarith

lemma Kept.goes (h : Kept usec delay s) (hdelay : 0 ≤ delay)
    (hless : period usec + delay < timeout usec) (hok : Healthy delay s label)
    (hgoes : Goes usec s label s') : Kept usec delay s' := by
  obtain ⟨hprompt, hquiet⟩ := hok
  cases hgoes with
  | pass => exact ⟨h.alive, h.free, h.due, hprompt h.free _ h.due⟩
  | fed => exact h.ping hdelay
  | probes hstage hdue hrebuild =>
      -- the flag of the rebuild was looked at just now
      refine ⟨h.alive, ?_, ?_, h.inTime⟩
      · rintro ⟨hno, -⟩
        rw [show s.rebuilding = true from hno] at hrebuild
        cases hrebuild
      · have hsame := h.due
        rwa [hstage] at hsame
  | found => exact h.ping hdelay
  | fails => exact absurd (hprompt h.free) Bool.false_ne_true
  | rebuild begins =>
      refine ⟨h.alive, ?_, h.due, h.inTime⟩
      rintro ⟨hbegins, due, hstage⟩
      obtain rfl : begins = true := hbegins
      exact hquiet rfl due hstage
  | kill hlate =>
      have hinTime := h.inTime
      linarith

/-- **A healthy daemon.**  If its collection is always there within the delay, and no rebuild begins
during a probe, the daemon is never killed exactly if a sleep and the delay are less than the
time of systemd. -/
theorem never_killed_iff (husec : 0 < usec) (hdelay : 0 ≤ delay) :
    (∀ s, (watchdogSystem usec).ReachedBy (Healthy delay) s → s.killed = false) ↔
      period usec + delay < timeout usec := by
  have hperiod := ten_le_period usec
  have htimeout : 0 < timeout usec := by
    rw [timeout]
    have : (0 : ℚ) < usec := by exact_mod_cast husec
    positivity
  constructor
  · intro hnever
    by_contra hless
    rw [not_lt] at hless
    -- time passes up to the deadline, and the loop has not come to its keepalive
    have hpass : (watchdogSystem usec).ReachedBy (Healthy delay)
        { start usec 0 with clock := timeout usec } := by
      refine .step (a := .pass (timeout usec)) (.init ⟨0, rfl⟩) ⟨fun _ due hdue => ?_, ?_⟩ ?_
      · rw [start] at hdue ⊢
        split_ifs at hdue
        · obtain rfl := Option.some.inj hdue
          linarith
        · cases hdue
      · rintro hno
        cases hno
      · simp [watchdogSystem, State.next, State.go, start, htimeout.le]
    have hkill : (watchdogSystem usec).ReachedBy (Healthy delay)
        { start usec 0 with clock := timeout usec, killed := true } := by
      refine .step (a := .kill) hpass ⟨trivial, ?_⟩ ?_
      · rintro hno
        cases hno
      · simp [watchdogSystem, State.next, State.go, start]
    cases hnever _ hkill
  · rintro hless s hs
    refine (StepSystem.ReachedBy.invariant (fun s hs => ?_) (fun s label s' hinv hok hnext => ?_)
      hs : Kept usec delay s).alive
    · obtain ⟨clock, rfl⟩ := hs
      have hstarts : 0 < watchdogInterval (some usec) := by
        rw [watchdogInterval]
        have hsec : (1 : ℚ) ≤ usec / 1000000 := by
          rw [timeout] at hless
          linarith
        have : (1000000 : ℤ) ≤ usec := by
          rw [le_div_iff₀ (by norm_num)] at hsec
          exact_mod_cast hsec
        omega
      refine ⟨rfl, ?_, ?_, ?_⟩
      · rintro ⟨hno, -⟩
        cases hno
      · rw [start]
        simp only [if_pos hstarts]
        rfl
      · simp only [start]
        linarith
    · exact hinv.goes hdelay hless hok (goes_of_next hnext).2

/-- `WatchdogSec=120`, and a collection that is there within five seconds. -/
theorem never_killed_iff_shipped : period 120000000 = 60 ∧
    ((∀ s, (watchdogSystem 120000000).ReachedBy (Healthy 5) s → s.killed = false) ↔
      period 120000000 + 5 < timeout 120000000) :=
  ⟨by decide +kernel, never_killed_iff (by decide) (by decide +kernel)⟩

/-! ### A rebuild that begins during a probe -/

/-- The loop is at its first probe. -/
def atProbe (usec : ℤ) : State where
  clock := period usec
  lastPing := 0
  stage := .probing (period usec)
  rebuilding := false
  missed := false
  killed := false

lemma start_of_lt (h : 10 < timeout usec) (clock : ℚ) : start usec clock =
    ⟨clock, clock, .sleeping (clock + period usec), false, false, false⟩ := by
  have hstarts : 0 < watchdogInterval (some usec) := by
    rw [timeout, lt_div_iff₀ (by norm_num)] at h
    have : (10 * 1000000 : ℤ) < usec := by exact_mod_cast h
    rw [watchdogInterval]
    omega
  rw [start, if_pos hstarts]

/-- The first probe is reached on time. -/
lemma reachedBy_atProbe (usec : ℤ) (h : 10 < timeout usec) (hdelay : 0 ≤ delay) :
    (watchdogSystem usec).ReachedBy (Prompt delay) (atProbe usec) := by
  have hperiod := ten_le_period usec
  have hsleep : (watchdogSystem usec).ReachedBy (Prompt delay)
      ⟨period usec, 0, .sleeping (period usec), false, false, false⟩ := by
    refine .step (a := .pass (period usec)) (.init ⟨0, (start_of_lt h 0).symm⟩)
      (fun _ due hdue => ?_) ?_
    · obtain rfl := Option.some.inj hdue
      simp only [zero_add]
      linarith
    · have hpos : 0 ≤ period usec := by linarith
      simp [watchdogSystem, State.next, State.go, hpos]
  refine .step (a := .wake) hsleep trivial ?_
  simp [watchdogSystem, State.next, State.go, atProbe]

/-- **A rebuild.**  Whatever the settings, a daemon whose loop is prompt and whose probes have not
failed can be killed in the middle of a rebuild, if this begins during a probe and keeps it
waiting. -/
theorem rebuild_killed (hdelay : 0 ≤ delay) (hless : period usec + delay < timeout usec) :
    ∃ s₀ s time due, (watchdogSystem usec).ReachedBy (Prompt delay) s₀ ∧
      s₀.stage = .probing due ∧ s₀.rebuilding = false ∧ s₀.missed = false ∧
      (watchdogSystem usec).exec s₀ [.rebuild true, .pass time, .kill] = some s ∧
      (watchdogSystem usec).ReachedBy (Prompt delay) s ∧ s.stage = .probing due ∧
      s.rebuilding = true ∧ s.killed = true := by
  have hperiod := ten_le_period usec
  have hwait : 0 ≤ timeout usec - period usec := by linarith
  have hprobe := reachedBy_atProbe usec (by linarith) hdelay
  let killed : State := ⟨timeout usec, 0, .probing (period usec), true, false, true⟩
  -- the probe waits for the rebuild, and nobody else sends a keepalive
  have hexec : (watchdogSystem usec).exec (atProbe usec)
      [.rebuild true, .pass (timeout usec - period usec), .kill] = some killed := by
    simp [watchdogSystem, State.next, State.go, atProbe, hwait, killed]
  have hprompt : (watchdogSystem usec).Meets (Prompt delay) (atProbe usec)
      [.rebuild true, .pass (timeout usec - period usec), .kill] := by
    refine ⟨trivial, fun s hs => ⟨fun hfree => ?_, fun _ _ => ⟨trivial, fun _ _ => trivial⟩⟩⟩
    obtain rfl := Option.some.inj hs
    exact absurd ⟨rfl, _, rfl⟩ hfree
  exact ⟨atProbe usec, killed, _, _, hprobe, rfl, rfl, rfl, hexec, hprobe.exec hprompt hexec, rfl,
    rfl, rfl⟩

theorem rebuild_killed_shipped : ∃ s₀ s time due,
    (watchdogSystem 120000000).ReachedBy (Prompt 5) s₀ ∧ s₀.stage = .probing due ∧
      s₀.rebuilding = false ∧ s₀.missed = false ∧
      (watchdogSystem 120000000).exec s₀ [.rebuild true, .pass time, .kill] = some s ∧
      (watchdogSystem 120000000).ReachedBy (Prompt 5) s ∧ s.stage = .probing due ∧
      s.rebuilding = true ∧ s.killed = true :=
  rebuild_killed (by decide +kernel) (by decide +kernel)

/-! ### A probe that fails -/

/-- How long ago the last keepalive was when the sleep ends. -/
structure Spaced (usec : ℤ) (s : State) : Prop where
  due : ∀ due ∈ s.stage.due, s.lastPing + period usec ≤ due
  missed : s.missed = true → ∀ due ∈ s.stage.due, s.lastPing + 2 * period usec ≤ due
  probing : ∀ due, s.stage = .probing due → due ≤ s.clock

lemma spaced_ping (s : State) : Spaced usec (s.ping.sleep usec) := by
  refine ⟨fun due hdue => ?_, fun hno => ?_, fun due hno => ?_⟩
  · obtain rfl := Option.some.inj hdue
    exact le_rfl
  · cases hno
  · cases hno

lemma Spaced.goes (h : Spaced usec s) (hgoes : Goes usec s label s') : Spaced usec s' := by
  cases hgoes with
  | pass htime =>
      exact ⟨h.due, h.missed, fun due hstage =>
        (h.probing due hstage).trans (le_add_of_nonneg_right htime)⟩
  | fed => exact spaced_ping s
  | probes hstage hdue =>
      refine ⟨fun due hsame => h.due due ?_, fun hmissed due hsame => h.missed hmissed due ?_,
        fun due hsame => ?_⟩
      · rwa [hstage]
      · rwa [hstage]
      · obtain rfl := Stage.probing.inj hsame
        exact hdue
  | found => exact spaced_ping s
  | fails hstage =>
      -- the next sleep begins after the one that should have brought a keepalive
      have hdue := h.due _ (by rw [hstage]; rfl)
      have hclock := h.probing _ hstage
      have htwice : s.lastPing + 2 * period usec ≤ s.clock + period usec := by linarith
      refine ⟨fun due hsame => ?_, fun _ due hsame => ?_, fun due hno => ?_⟩
      · obtain rfl := Option.some.inj hsame
        have hperiod := ten_le_period usec
        simp only [State.sleep]
        linarith
      · obtain rfl := Option.some.inj hsame
        exact htwice
      · cases hno
  | rebuild begins => exact ⟨h.due, h.missed, h.probing⟩
  | kill => exact ⟨h.due, h.missed, h.probing⟩

/-- **A missed keepalive.**  A daemon whose probe has failed can send a keepalive in time exactly if
two sleeps are less than the time of systemd. -/
theorem survives_miss_iff :
    (∃ s label s', (watchdogSystem usec).Reachable s ∧ s.missed = true ∧
      s.next usec label = some s' ∧ s'.missed = false ∧ s.clock < s.lastPing + timeout usec) ↔
      2 * period usec < timeout usec := by
  have hperiod := ten_le_period usec
  constructor
  · rintro ⟨s, label, s', hs, hmissed, hnext, hfed, hclock⟩
    have hspaced : Spaced usec s := by
      refine StepSystem.ReachedBy.invariant (fun s hs => ?_)
        (fun s label s' hinv _ hnext => hinv.goes (goes_of_next hnext).2) hs
      obtain ⟨clock, rfl⟩ := hs
      refine ⟨fun due hdue => ?_, fun hno => ?_, fun due hstage => ?_⟩
      · rw [start] at hdue ⊢
        split_ifs at hdue
        · exact (Option.some.inj hdue).le
        · cases hdue
      · cases hno
      · rw [start] at hstage
        split_ifs at hstage
    have htwice : ∀ due ∈ s.stage.due, due ≤ s.clock → 2 * period usec < timeout usec :=
      fun due hdue hle => by
        have hlast := hspaced.missed hmissed due hdue
        linarith
    -- what ends a miss is a keepalive
    cases (goes_of_next hnext).2 with
    | fed hstage hdue => exact htwice _ (by rw [hstage]; rfl) hdue
    | found hstage => exact htwice _ (by rw [hstage]; rfl) (hspaced.probing _ hstage)
    | fails => cases hfed
    | pass => exact absurd (hmissed.symm.trans hfed) (by decide)
    | probes => exact absurd (hmissed.symm.trans hfed) (by decide)
    | rebuild => exact absurd (hmissed.symm.trans hfed) (by decide)
    | kill => exact absurd (hmissed.symm.trans hfed) (by decide)
  · intro hless
    have hpos : 0 ≤ period usec := by linarith
    have hprobe := (reachedBy_atProbe usec (by linarith) le_rfl).reachable
    have hfailed : (watchdogSystem usec).Reachable
        ⟨period usec, 0, .sleeping (period usec + period usec), false, true, false⟩ :=
      .step (a := .probed false) hprobe trivial rfl
    have hslept : (watchdogSystem usec).Reachable ⟨period usec + period usec, 0,
        .sleeping (period usec + period usec), false, true, false⟩ := by
      refine .step (a := .pass (period usec)) hfailed trivial ?_
      simp [watchdogSystem, State.next, State.go, hpos]
    have hagain : (watchdogSystem usec).Reachable ⟨period usec + period usec, 0,
        .probing (period usec + period usec), false, true, false⟩ := by
      refine .step (a := .wake) hslept trivial ?_
      simp [watchdogSystem, State.next, State.go]
    refine ⟨_, .probed true, _, hagain, rfl, rfl, rfl, ?_⟩
    simp only [zero_add]
    linarith

end PalaceDaemon.Watchdog

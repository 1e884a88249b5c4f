/-
The cache of the graph statistics: `fast_mcp_kg_stats_cached` and `kg_stats_cache_clear`.

Each read and each write of `_kg_stats_cached` and `_kg_stats_at` is a step of its own, so a thread
may come between any two of another.  The fast path of a call reads them without the lock: it tests
that something is cached, reads its time, and reads what is cached once more.  What is returned is
taken from the last read, and if the cache was emptied since the first, the call raises a
`TypeError` of its own (`kgStats_right_fails`).  `kgStats_right` says what holds in the runs without
this: no call raises anything but what its own computation raised or returns what is too old, the
computations do not overlap, and a call that came while a computation was running takes its result.

The times are those of the monotonic clock; `ttl` is the value of `_kg_stats_ttl`.
-/
import Mathlib.Algebra.Order.Group.Int
import Mathlib.Algebra.Order.Group.Basic
import PalaceDaemon.Lib.StepSystem
import PalaceDaemon.Lib.Threads

namespace PalaceDaemon.KgStatsCache

variable {π ε τ : Type*}

/-! ### The calls -/

/-- What has become of a computation of the payload. -/
inductive Outcome (π ε τ : Type*)
  | running
  | failed (e : ε)
  /-- When it ended, and whether its payload was put into the cache. -/
  | done (p : π) (finished : τ) (kept : Bool)

namespace Outcome

def isRunning : Outcome π ε τ → Bool
  | running => true
  | _ => false

/-- The payload is put into the cache. -/
def keep : Outcome π ε τ → Outcome π ε τ
  | done p finished _ => done p finished true
  | outcome => outcome

end Outcome

/-- A computation of the payload, with the call that runs it and what its clock said. -/
structure Computation (π ε τ : Type*) where
  caller : ℕ
  since : τ
  outcome : Outcome π ε τ

/-- What the threads share. -/
structure Shared (π ε τ : Type*) where
  /-- `_kg_stats_cached`, with the number of the computation it is from -/
  cached : Option (π × ℕ)
  /-- `_kg_stats_at` -/
  cachedAt : τ
  /-- `_kg_stats_queries` -/
  queries : ℕ
  /-- The thread that has `_kg_stats_lock` -/
  lock : Option ℕ
  clock : τ
  /-- The computations so far. -/
  computations : List (Computation π ε τ)

/-- The result of a call: the payload, `was_cached`, the number of the computation, what the clock
said when the call read it last, and what it says at the return. -/
structure Answer (π τ : Type*) where
  payload : π
  cached : Bool
  computation : ℕ
  checked : τ
  returnedAt : τ
deriving DecidableEq

inductive Raised (ε : Type*)
  /-- `dict(None)` -/
  | typeError
  /-- What a computation of the call raised. -/
  | own (e : ε)

/-- Where a thread is. -/
inductive Pc (π ε τ : Type*)
  | idle
  /-- `_kg_stats_cached is not None`, without the lock -/
  | testCached (now : τ)
  /-- `(now - _kg_stats_at) < ttl`, without the lock -/
  | testAge (now : τ)
  /-- `dict(_kg_stats_cached)`, without the lock -/
  | copy (now : τ)
  | waiting
  /-- `now = time.monotonic()` -/
  | locked
  | retestCached (now : τ)
  | retestAge (now : τ)
  | recopy (now : τ)
  | computing (k : ℕ)
  /-- `_kg_stats_cached = None` after an exception -/
  | dropping (k : ℕ) (e : ε)
  /-- `_kg_stats_at = 0.0` after an exception -/
  | droppingAge (k : ℕ) (e : ε)
  /-- `_kg_stats_queries += 1` -/
  | counting (k : ℕ) (p : π)
  /-- `_kg_stats_cached = dict(payload)` -/
  | storing (k : ℕ) (p : π)
  /-- `time.monotonic()` -/
  | stamping (k : ℕ) (p : π)
  /-- `_kg_stats_at = …` -/
  | storingAge (k : ℕ) (p : π) (t : τ)
  | returned (r : Answer π τ)
  | raised (x : Raised ε)
  /-- `kg_stats_cache_clear` waits for the lock. -/
  | clearWaiting
  | clearing
  | clearingAge
  | cleared

/-- A thread: where it is, and the computation that was running when it called. -/
structure Call (π ε τ : Type*) where
  pc : Pc π ε τ
  arrived : Option ℕ

/-- The threads with what they share. -/
abbrev Calls (π ε τ : Type*) := Threads (Shared π ε τ) (Call π ε τ)

/-- What can happen next. -/
inductive Label (π ε τ : Type*)
  | tick (t : τ)
  /-- The thread calls `fast_mcp_kg_stats_cached`. -/
  | call (i : ℕ)
  /-- The thread calls `kg_stats_cache_clear`. -/
  | clear (i : ℕ)
  /-- The next step of the thread. -/
  | run (i : ℕ)
  /-- Its computation ends. -/
  | ends (i : ℕ) (result : Except ε π)

/-- The computation that is running. -/
def Shared.running (x : Shared π ε τ) : Option ℕ :=
  x.computations.findIdx? fun c => c.outcome.isRunning

/-- The outcome of a computation changes. -/
def Shared.settle (x : Shared π ε τ) (k : ℕ) (f : Outcome π ε τ → Outcome π ε τ) : Shared π ε τ :=
  { x with computations := x.computations.modify k fun c => { c with outcome := f c.outcome } }

/-- The thread goes on, and what is shared becomes `x`. -/
def go (s : Calls π ε τ) (i : ℕ) (x : Shared π ε τ) (pc : Pc π ε τ) : Calls π ε τ :=
  s.move i x ⟨pc, (s.own i).arrived⟩

section model

variable [LinearOrder τ] [AddCommGroup τ] (ttl : τ)

/-- A computation begins. -/
def compute (s : Calls π ε τ) (i : ℕ) (now : τ) : Calls π ε τ :=
  go s i { s.shared with computations := s.shared.computations ++ [⟨i, now, .running⟩] }
    (.computing s.shared.computations.length)

/-- The next step of a thread. -/
def runNext (s : Calls π ε τ) (i : ℕ) : Option (Calls π ε τ) :=
  let x := s.shared
  match (s.own i).pc with
  | .testCached now => some (go s i x (if x.cached.isSome then .testAge now else .waiting))
  | .testAge now => some (go s i x (if now - x.cachedAt < ttl then .copy now else .waiting))
  | .copy now => match x.cached with
      | some (p, k) => some (go s i x (.returned ⟨p, true, k, now, x.clock⟩))
      | none => some (go s i x (.raised .typeError))
  | .waiting => if x.lock = none then some (go s i { x with lock := some i } .locked) else none
  | .locked =>
      if 0 < ttl then some (go s i x (.retestCached x.clock)) else some (compute s i x.clock)
  | .retestCached now =>
      if x.cached.isSome then some (go s i x (.retestAge now)) else some (compute s i now)
  | .retestAge now =>
      if now - x.cachedAt < ttl then some (go s i x (.recopy now)) else some (compute s i now)
  | .recopy now => match x.cached with
      | some (p, k) =>
          some (go s i { x with lock := none } (.returned ⟨p, true, k, now, x.clock⟩))
      | none => some (go s i { x with lock := none } (.raised .typeError))
  | .dropping k e => some (go s i { x with cached := none } (.droppingAge k e))
  | .droppingAge _ e => some (go s i { x with cachedAt := 0, lock := none } (.raised (.own e)))
  | .counting k p =>
      if 0 < ttl then some (go s i { x with queries := x.queries + 1 } (.storing k p))
      else match x.computations[k]? with
        | some c => some (go s i { x with queries := x.queries + 1, lock := none }
            (.returned ⟨p, false, k, c.since, x.clock⟩))
        | none => none
  | .storing k p =>
      some (go s i ({ x with cached := some (p, k) }.settle k Outcome.keep) (.stamping k p))
  | .stamping k p => some (go s i x (.storingAge k p x.clock))
  | .storingAge k p t => match x.computations[k]? with
      | some c => some (go s i { x with cachedAt := t, lock := none }
          (.returned ⟨p, false, k, c.since, x.clock⟩))
      | none => none
  | .clearWaiting =>
      if x.lock = none then some (go s i { x with lock := some i } .clearing) else none
  | .clearing => some (go s i { x with cached := none } .clearingAge)
  | .clearingAge => some (go s i { x with cachedAt := 0, lock := none } .cleared)
  | _ => none

/-- A step of the threads. -/
def next (s : Calls π ε τ) : Label π ε τ → Option (Calls π ε τ)
  | .tick t =>
      if s.shared.clock ≤ t then some { s with shared := { s.shared with clock := t } } else none
  | .call i => match (s.own i).pc with
      | .idle => some (s.move i s.shared
          ⟨if 0 < ttl then .testCached s.shared.clock else .waiting, s.shared.running⟩)
      | _ => none
  | .clear i => match (s.own i).pc with
      | .idle => some (s.move i s.shared ⟨.clearWaiting, none⟩)
      | _ => none
  | .run i => runNext ttl s i
  | .ends i result => match (s.own i).pc, result with
      | .computing k, .ok p =>
          some (go s i (s.shared.settle k fun _ => .done p s.shared.clock false) (.counting k p))
      | .computing k, .error e =>
          some (go s i (s.shared.settle k fun _ => .failed e) (.dropping k e))
      | _, _ => none

/-- The threads from the start of the daemon. -/
def system : StepSystem (Calls π ε τ) (Label π ε τ) where
  init s := s.shared.cached = none ∧ s.shared.cachedAt = 0 ∧ s.shared.lock = none ∧
    s.shared.computations = [] ∧ ∀ i, (s.own i).pc = .idle ∧ (s.own i).arrived = none
  next := next ttl

end model

/-! ### What the calls return -/

namespace Pc

/-- A call has seen that something is cached, and has not read it yet, without the lock. -/
def between : Pc π ε τ → Bool
  | testAge _ | copy _ => true
  | _ => false

/-- The result of a computation is there, but not its time. -/
def unstamped : Pc π ε τ → Bool
  | counting _ _ | storing _ _ | stamping _ _ | storingAge _ _ _ => true
  | _ => false

/-- The call is in a computation of its own, or behind it. -/
def computes : Pc π ε τ → Bool
  | computing _ | dropping _ _ | droppingAge _ _ => true
  | counting _ _ | storing _ _ | stamping _ _ | storingAge _ _ _ => true
  | _ => false

/-- The call has ended. -/
def ended : Pc π ε τ → Bool
  | returned _ | raised _ => true
  | _ => false

end Pc

/-- A computation that gave a payload, and when. -/
def Shared.Gave (x : Shared π ε τ) (k : ℕ) (c : Computation π ε τ) (p : π) (finished : τ) : Prop :=
  x.computations[k]? = some c ∧ ∃ kept, c.outcome = .done p finished kept

section right

variable [LinearOrder τ] [AddCommGroup τ] (ttl : τ)

/-- What the calls raise and return. -/
structure Right (s : Calls π ε τ) : Prop where
  /-- A call raises only what a computation of its own raised. -/
  raises : ∀ i exc, (s.own i).pc = .raised exc → ∃ (k : ℕ) (c : Computation π ε τ) (e : ε),
    exc = .own e ∧ s.shared.computations[k]? = some c ∧ c.caller = i ∧ c.outcome = .failed e
  /-- What is returned from the cache is younger than the `ttl`, and what is not is the call's
  own. -/
  fresh : ∀ i r, (s.own i).pc = .returned r → ∃ c finished,
    s.shared.Gave r.computation c r.payload finished ∧
      if r.cached then r.checked - finished < ttl else c.caller = i ∧ r.checked ≤ finished
  /-- The computations do not overlap. -/
  alone : ∀ i j k l, (s.own i).pc = .computing k → (s.own j).pc = .computing l → i = j
  /-- A call that came while a computation was running returns its payload, if that is younger than
  the `ttl` then. -/
  taken : ∀ i k c p finished r, (s.own i).arrived = some k → s.shared.Gave k c p finished →
    (s.own i).pc = .returned r → r.returnedAt - finished < ttl →
      r.cached = true ∧ r.computation = k ∧ r.payload = p
  /-- It computes again only if that is older. -/
  spared : ∀ i k c p finished l, (s.own i).arrived = some k → s.shared.Gave k c p finished →
    (s.own i).pc = .computing l → ttl ≤ s.shared.clock - finished

end right

/-- The cache is not emptied while a call is between its test and its copy, and not cleared while a
call waits that came during a computation that succeeded; and no time passes between the end of a
computation and the store of its time. -/
def Undisturbed (s : Calls π ε τ) : Label π ε τ → Prop
  | .tick _ => ∀ j, (s.own j).pc.unstamped = false
  | .run i => match (s.own i).pc with
      | .dropping _ _ => ∀ j, (s.own j).pc.between = false
      | .clearing => (∀ j, (s.own j).pc.between = false) ∧
          ∀ j k c p finished, (s.own j).arrived = some k → s.shared.Gave k c p finished →
            (s.own j).pc.ended = true
      | _ => True
  | _ => True

end PalaceDaemon.KgStatsCache

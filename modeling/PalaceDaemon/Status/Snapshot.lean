/-
The snapshot behind `/status/fast`.

`SnapshotCache` is used by several threads.  The sections under `_lock` wait for nothing, so each
is one step; `_sync` is held over the computation of a value.  Between its sections a thread has
only its local variables (`SnapshotPc`), and the clock may move on.

What is remembered besides the fields are the steps at which a computation began and at which
the cache was last invalidated.  `snapshot_coherent` is the invariant that the two locks, the
generation and the flags keep between them.
-/
import Mathlib.Algebra.Order.Group.Int
import PalaceDaemon.Lib.StepSystem

namespace PalaceDaemon.Status

variable {V τ : Type*}

/-- `_value` and `_at`. -/
structure Stored (V τ : Type*) where
  payload : V
  storedAt : τ
  /-- The step at which the computation of the value began. -/
  began : ℕ

/-- What `get` returns, and the reading of the clock that it has checked. -/
structure Answer (V τ : Type*) where
  payload : V
  age : τ
  storedAt : τ
  reading : τ
  /-- The value was computed by this call. -/
  computed : Bool

/-- What the threads share. -/
structure Shared (V τ : Type*) where
  value : Option (Stored V τ)
  stale : Bool
  refreshing : Bool
  gen : ℕ
  /-- The thread that holds `_sync`. -/
  sync : Option ℕ
  /-- `time.monotonic()` -/
  clock : τ
  /-- How many steps there have been. -/
  steps : ℕ
  /-- The step of the last `invalidate`. -/
  invalidated : ℕ

/-- Where a thread is; `refresh` tells `_refresh` from `get`. -/
inductive SnapshotPc (V τ : Type*)
  | idle
  /-- `get` has read the clock. -/
  | reading (now : τ)
  /-- `_start_refresh`, before `get` returns this answer or `warm` returns. -/
  | starting (answer : Option (Answer V τ))
  /-- It has set the flag, and starts the thread. -/
  | spawning (answer : Option (Answer V τ))
  /-- `with self._sync` -/
  | waiting (refresh : Bool)
  /-- `get` holds `_sync` and looks again. -/
  | rechecking
  | generation (refresh : Bool)
  | beginning (refresh : Bool) (gen : ℕ)
  /-- `_compute()`; `before` is the value stored when it began. -/
  | computing (refresh : Bool) (gen began : ℕ) (before : Option (Stored V τ))
  | storing (refresh : Bool) (gen began : ℕ) (before : Option (Stored V τ)) (payload : V)
  /-- The computation has raised. -/
  | failed (refresh : Bool) (before : Option (Stored V τ))
  /-- It leaves `with self._sync`. -/
  | leaving (refresh : Bool) (answer : Option (Answer V τ))
  /-- The `finally` of `_refresh`. -/
  | clearing
  | returned (answer : Option (Answer V τ))
  | raised

/-- What a thread does next. -/
inductive SnapshotMove (V : Type*)
  | get
  | warm
  | run
  /-- Its computation ends with a value. -/
  | computed (payload : V)
  /-- Its computation raises, or the thread that it starts cannot be started. -/
  | fails

/-- What can happen next. -/
inductive SnapshotLabel (V τ : Type*)
  | tick (t : τ)
  | invalidate
  | move (i : ℕ) (a : SnapshotMove V)
  /-- The thread `i` starts the background refresh `j`. -/
  | spawn (i j : ℕ)

/-- The cache and its threads. -/
structure Snapshot (V τ : Type*) where
  shared : Shared V τ
  thread : ℕ → SnapshotPc V τ

section model

variable [AddCommGroup τ] [LinearOrder τ] (ttl maxAge : τ)

/-- The next section of the thread `i`. -/
def SnapshotPc.run (i : ℕ) (m : Shared V τ) : SnapshotPc V τ → Option (Shared V τ × SnapshotPc V τ)
  | .reading now =>
      match m.value with
      | some v =>
          if now - v.storedAt < maxAge then
            let answer : Answer V τ := ⟨v.payload, now - v.storedAt, v.storedAt, now, false⟩
            if m.stale = true ∨ ttl ≤ now - v.storedAt then some (m, .starting (some answer))
            else some (m, .returned (some answer))
          else some (m, .waiting false)
      | none => some (m, .waiting false)
  | .starting answer =>
      if m.refreshing then some (m, .returned answer)
      else some ({ m with refreshing := true }, .spawning answer)
  | .waiting refresh =>
      if m.sync = none then
        some ({ m with sync := some i }, if refresh then .generation true else .rechecking)
      else none
  | .rechecking =>
      match m.value with
      | some v =>
          if m.clock - v.storedAt < maxAge then
            some (m, .leaving false
              (some ⟨v.payload, m.clock - v.storedAt, v.storedAt, m.clock, false⟩))
          else some (m, .generation false)
      | none => some (m, .generation false)
  | .generation refresh => some (m, .beginning refresh m.gen)
  | .beginning refresh gen => some (m, .computing refresh gen (m.steps + 1) m.value)
  | .storing refresh gen began _ payload =>
      some ({ m with
        value := some ⟨payload, m.clock, began⟩, stale := decide (gen ≠ m.gen) },
        .leaving refresh (if refresh then none else some ⟨payload, 0, m.clock, m.clock, true⟩))
  | .failed refresh _ => some ({ m with sync := none }, if refresh then .clearing else .raised)
  | .leaving refresh answer =>
      some ({ m with sync := none }, if refresh then .clearing else .returned answer)
  | .clearing => some ({ m with refreshing := false }, .returned none)
  | _ => none

/-- A move of the thread `i`. -/
def SnapshotPc.move (i : ℕ) (m : Shared V τ) (pc : SnapshotPc V τ) :
    SnapshotMove V → Option (Shared V τ × SnapshotPc V τ)
  | .get =>
      match pc with
      | .idle => some (m, .reading m.clock)
      | _ => none
  | .warm =>
      match pc with
      | .idle => some (m, .starting none)
      | _ => none
  | .run => pc.run ttl maxAge i m
  | .computed payload =>
      match pc with
      | .computing refresh gen began before =>
          some (m, .storing refresh gen began before payload)
      | _ => none
  | .fails =>
      match pc with
      | .computing refresh _ _ before => some (m, .failed refresh before)
      | .spawning _ => some (m, .raised)
      | _ => none

/-- The cache from its construction. -/
def snapshotSystem : StepSystem (Snapshot V τ) (SnapshotLabel V τ) where
  init s := s.shared.value = none ∧ s.shared.stale = false ∧ s.shared.refreshing = false ∧
    s.shared.gen = 0 ∧ s.shared.sync = none ∧ s.shared.steps = 0 ∧ s.shared.invalidated = 0 ∧
    ∀ i, s.thread i = .idle
  next s
    | .tick t =>
        if s.shared.clock ≤ t then
          some { s with shared := { s.shared with clock := t, steps := s.shared.steps + 1 } }
        else none
    | .invalidate => some { s with shared := { s.shared with
        stale := true, gen := s.shared.gen + 1, steps := s.shared.steps + 1
        invalidated := s.shared.steps + 1 } }
    | .move i a => ((s.thread i).move ttl maxAge i s.shared a).map fun mp =>
        ⟨{ mp.1 with steps := s.shared.steps + 1 }, Function.update s.thread i mp.2⟩
    | .spawn i j =>
        match s.thread i, s.thread j with
        | .spawning answer, .idle =>
            some ⟨{ s.shared with steps := s.shared.steps + 1 },
              Function.update (Function.update s.thread i (.returned answer)) j (.waiting true)⟩
        | _, _ => none

end model

/-! ### What a thread does -/

namespace SnapshotPc

/-- The thread holds `_sync`. -/
def holds : SnapshotPc V τ → Bool
  | rechecking | generation _ | beginning _ _ | computing _ _ _ _ | storing _ _ _ _ _ | failed _ _
  | leaving _ _ => true
  | _ => false

/-- The thread is a background refresh, or starts one. -/
def refreshes : SnapshotPc V τ → Bool
  | spawning _ | clearing => true
  | waiting refresh | generation refresh | beginning refresh _ | computing refresh _ _ _
  | storing refresh _ _ _ _ | failed refresh _ | leaving refresh _ => refresh
  | _ => false

/-- What `get` is going to return, or has returned. -/
def answer : SnapshotPc V τ → Option (Answer V τ)
  | starting answer | spawning answer | leaving _ answer | returned answer => answer
  | _ => none

/-- The computation of a value is going on. -/
def computes : SnapshotPc V τ → Bool
  | computing _ _ _ _ => true
  | _ => false

/-- What a move of the thread `i` may change. -/
structure Changes (i : ℕ) (m m' : Shared V τ) (pc pc' : SnapshotPc V τ) : Prop where
  clock : m'.gen = m.gen ∧ m'.invalidated = m.invalidated
  sync : m'.sync = m.sync ∧ (pc'.holds → pc.holds) ∨ m.sync = none ∧ m'.sync = some i ∨
    pc.holds ∧ pc'.holds = false
  refreshing : m'.refreshing = m.refreshing ∧ (pc'.refreshes → pc.refreshes) ∨
    m.refreshing = false ∧ m'.refreshing = true ∨ pc.refreshes ∧ pc'.refreshes = false
  value : m'.value = m.value ∧ m'.stale = m.stale ∨ ∃ refresh gen began before payload,
    pc = .storing refresh gen began before payload ∧
    m'.value = some ⟨payload, m.clock, began⟩ ∧ m'.stale = decide (gen ≠ m.gen)

variable [AddCommGroup τ] [LinearOrder τ]

/-- What the local variables of a thread say about the cache. -/
structure Fits (maxAge : τ) (m : Shared V τ) (pc : SnapshotPc V τ) : Prop where
  /-- Of a generation read before the last invalidation. -/
  gen : ∀ refresh gen, pc = .beginning refresh gen → gen ≤ m.gen
  computing : ∀ refresh gen began before, pc = .computing refresh gen began before →
    gen ≤ m.gen ∧ (gen = m.gen → m.invalidated < began) ∧ before = m.value
  storing : ∀ refresh gen began before payload,
    pc = .storing refresh gen began before payload →
    gen ≤ m.gen ∧ (gen = m.gen → m.invalidated < began) ∧ before = m.value
  failed : ∀ refresh before, pc = .failed refresh before → before = m.value
  answer : ∀ a ∈ pc.answer, a.computed = true ∨ a.reading - a.storedAt < maxAge

end SnapshotPc

section moves

variable {i : ℕ} {m m' : Shared V τ} {pc pc' : SnapshotPc V τ}

/-- A step that only moves the thread. -/
lemma changes_of_eq (hholds : pc'.holds → pc.holds) (hrefreshes : pc'.refreshes → pc.refreshes) :
    SnapshotPc.Changes i m m pc pc' where
  clock := ⟨rfl, rfl⟩
  sync := .inl ⟨rfl, hholds⟩
  refreshing := .inl ⟨rfl, hrefreshes⟩
  value := .inl ⟨rfl, rfl⟩

/-- A thread that leaves `_sync`. -/
lemma changes_leave (hholds : pc.holds) (hholds' : pc'.holds = false)
    (hrefreshes : pc'.refreshes → pc.refreshes) :
    SnapshotPc.Changes i m { m with sync := none } pc pc' where
  clock := ⟨rfl, rfl⟩
  sync := .inr (.inr ⟨hholds, hholds'⟩)
  refreshing := .inl ⟨rfl, hrefreshes⟩
  value := .inl ⟨rfl, rfl⟩

variable [AddCommGroup τ] [LinearOrder τ] {ttl maxAge : τ} {a : SnapshotMove V}

lemma changes_run (h : pc.run ttl maxAge i m = some (m', pc')) :
    SnapshotPc.Changes i m m' pc pc' := by
  cases pc <;> simp only [SnapshotPc.run, reduceCtorEq] at h
  case reading now =>
    split at h
    · split_ifs at h
      all_goals
        obtain ⟨rfl, rfl⟩ := Prod.mk.inj (Option.some.inj h)
        exact changes_of_eq (by simp [SnapshotPc.holds]) (by simp [SnapshotPc.refreshes])
    · obtain ⟨rfl, rfl⟩ := Prod.mk.inj (Option.some.inj h)
      exact changes_of_eq (by simp [SnapshotPc.holds]) (by simp [SnapshotPc.refreshes])
  case starting answer =>
    split_ifs at h with hflag
    · obtain ⟨rfl, rfl⟩ := Prod.mk.inj (Option.some.inj h)
      exact changes_of_eq (by simp [SnapshotPc.holds]) (by simp [SnapshotPc.refreshes])
    · obtain ⟨rfl, rfl⟩ := Prod.mk.inj (Option.some.inj h)
      exact ⟨⟨rfl, rfl⟩, .inl ⟨rfl, by simp [SnapshotPc.holds]⟩,
        .inr (.inl ⟨by simpa using hflag, rfl⟩), .inl ⟨rfl, rfl⟩⟩
  case waiting refresh =>
    split_ifs at h with hsync
    all_goals
      obtain ⟨rfl, rfl⟩ := Prod.mk.inj (Option.some.inj h)
      refine ⟨⟨rfl, rfl⟩, .inr (.inl ⟨hsync, rfl⟩), .inl ⟨rfl, ?_⟩, .inl ⟨rfl, rfl⟩⟩
      simp_all [SnapshotPc.refreshes]
  case rechecking =>
    split at h
    · split_ifs at h
      all_goals
        obtain ⟨rfl, rfl⟩ := Prod.mk.inj (Option.some.inj h)
        exact changes_of_eq (fun _ => rfl) (by simp [SnapshotPc.refreshes])
    · obtain ⟨rfl, rfl⟩ := Prod.mk.inj (Option.some.inj h)
      exact changes_of_eq (fun _ => rfl) (by simp [SnapshotPc.refreshes])
  case generation refresh =>
    obtain ⟨rfl, rfl⟩ := Prod.mk.inj (Option.some.inj h)
    exact changes_of_eq (fun _ => rfl) id
  case beginning refresh gen =>
    obtain ⟨rfl, rfl⟩ := Prod.mk.inj (Option.some.inj h)
    exact changes_of_eq (fun _ => rfl) id
  case storing refresh gen began before payload =>
    obtain ⟨rfl, rfl⟩ := Prod.mk.inj (Option.some.inj h)
    exact ⟨⟨rfl, rfl⟩, .inl ⟨rfl, fun _ => rfl⟩, .inl ⟨rfl, id⟩,
      .inr ⟨refresh, gen, began, before, payload, rfl, rfl, rfl⟩⟩
  case failed refresh before =>
    obtain ⟨rfl, rfl⟩ := Prod.mk.inj (Option.some.inj h)
    cases refresh <;> exact changes_leave rfl rfl (by simp [SnapshotPc.refreshes])
  case leaving refresh answer =>
    obtain ⟨rfl, rfl⟩ := Prod.mk.inj (Option.some.inj h)
    cases refresh <;> exact changes_leave rfl rfl (by simp [SnapshotPc.refreshes])
  case clearing =>
    obtain ⟨rfl, rfl⟩ := Prod.mk.inj (Option.some.inj h)
    exact ⟨⟨rfl, rfl⟩, .inl ⟨rfl, by simp [SnapshotPc.holds]⟩, .inr (.inr ⟨rfl, rfl⟩),
      .inl ⟨rfl, rfl⟩⟩

lemma changes_move (h : pc.move ttl maxAge i m a = some (m', pc')) :
    SnapshotPc.Changes i m m' pc pc' := by
  cases a <;> simp only [SnapshotPc.move] at h
  case run => exact changes_run h
  all_goals
    split at h
    all_goals first
      | obtain ⟨rfl, rfl⟩ := Prod.mk.inj (Option.some.inj h)
        exact changes_of_eq (by simp [SnapshotPc.holds]) (by simp [SnapshotPc.refreshes])
      | cases h

lemma fits_run (h : pc.run ttl maxAge i m = some (m', pc')) (hsteps : m.invalidated ≤ m.steps)
    (hfits : pc.Fits maxAge m) : pc'.Fits maxAge m' := by
  have hanswer := hfits.answer
  cases pc <;> simp only [SnapshotPc.run, reduceCtorEq] at h
  case reading now =>
    split at h
    · split_ifs at h with hage hold
      all_goals
        obtain ⟨rfl, rfl⟩ := Prod.mk.inj (Option.some.inj h)
        constructor <;> simp_all [SnapshotPc.answer]
    · obtain ⟨rfl, rfl⟩ := Prod.mk.inj (Option.some.inj h)
      constructor <;> simp [SnapshotPc.answer]
  case starting answer =>
    split_ifs at h
    all_goals
      obtain ⟨rfl, rfl⟩ := Prod.mk.inj (Option.some.inj h)
      exact ⟨by simp, by simp, by simp, by simp, hanswer⟩
  case waiting refresh =>
    split_ifs at h
    all_goals
      obtain ⟨rfl, rfl⟩ := Prod.mk.inj (Option.some.inj h)
      constructor <;> simp [SnapshotPc.answer]
  case rechecking =>
    split at h
    · split_ifs at h with hage
      all_goals
        obtain ⟨rfl, rfl⟩ := Prod.mk.inj (Option.some.inj h)
        constructor <;> simp_all [SnapshotPc.answer]
    · obtain ⟨rfl, rfl⟩ := Prod.mk.inj (Option.some.inj h)
      constructor <;> simp [SnapshotPc.answer]
  case generation refresh =>
    obtain ⟨rfl, rfl⟩ := Prod.mk.inj (Option.some.inj h)
    refine ⟨?_, by simp, by simp, by simp, by simp [SnapshotPc.answer]⟩
    rintro _ _ ⟨⟩
    exact le_rfl
  case beginning refresh gen =>
    obtain ⟨rfl, rfl⟩ := Prod.mk.inj (Option.some.inj h)
    refine ⟨by simp, ?_, by simp, by simp, by simp [SnapshotPc.answer]⟩
    rintro _ _ _ _ ⟨⟩
    exact ⟨hfits.gen refresh gen rfl, fun _ => Nat.lt_succ_of_le hsteps, rfl⟩
  case storing refresh gen began before payload =>
    obtain ⟨rfl, rfl⟩ := Prod.mk.inj (Option.some.inj h)
    cases refresh <;> exact ⟨by simp, by simp, by simp, by simp, by simp [SnapshotPc.answer]⟩
  case failed refresh before =>
    obtain ⟨rfl, rfl⟩ := Prod.mk.inj (Option.some.inj h)
    cases refresh <;> exact ⟨by simp, by simp, by simp, by simp, by simp [SnapshotPc.answer]⟩
  case leaving refresh answer =>
    obtain ⟨rfl, rfl⟩ := Prod.mk.inj (Option.some.inj h)
    cases refresh
    · exact ⟨by simp, by simp, by simp, by simp, hanswer⟩
    · exact ⟨by simp, by simp, by simp, by simp, by simp [SnapshotPc.answer]⟩
  case clearing =>
    obtain ⟨rfl, rfl⟩ := Prod.mk.inj (Option.some.inj h)
    constructor <;> simp [SnapshotPc.answer]

lemma fits_move (h : pc.move ttl maxAge i m a = some (m', pc')) (hsteps : m.invalidated ≤ m.steps)
    (hfits : pc.Fits maxAge m) : pc'.Fits maxAge m' := by
  cases a <;> simp only [SnapshotPc.move] at h
  case run => exact fits_run h hsteps hfits
  case computed payload =>
    split at h
    · rename_i refresh gen began before
      obtain ⟨rfl, rfl⟩ := Prod.mk.inj (Option.some.inj h)
      refine ⟨by simp, by simp, ?_, by simp, by simp [SnapshotPc.answer]⟩
      rintro _ _ _ _ _ ⟨⟩
      exact hfits.computing refresh gen began before rfl
    · cases h
  case fails =>
    split at h
    · rename_i refresh gen began before
      obtain ⟨rfl, rfl⟩ := Prod.mk.inj (Option.some.inj h)
      refine ⟨by simp, by simp, by simp, ?_, by simp [SnapshotPc.answer]⟩
      rintro _ _ ⟨⟩
      exact (hfits.computing refresh gen began before rfl).2.2
    · obtain ⟨rfl, rfl⟩ := Prod.mk.inj (Option.some.inj h)
      constructor <;> simp [SnapshotPc.answer]
    · cases h
  all_goals
    split at h
    · obtain ⟨rfl, rfl⟩ := Prod.mk.inj (Option.some.inj h)
      constructor <;> simp [SnapshotPc.answer]
    · cases h

end moves

/-! ### The invariant -/

section coherent

variable [AddCommGroup τ] [LinearOrder τ] {ttl maxAge : τ}

/-- What holds of the cache and its threads in every run. -/
structure Snapshot.Inv (maxAge : τ) (s : Snapshot V τ) : Prop where
  steps : s.shared.invalidated ≤ s.shared.steps
  sync : ∀ i, (s.thread i).holds → s.shared.sync = some i
  flag : ∀ i, (s.thread i).refreshes → s.shared.refreshing = true
  one : ∀ i j, (s.thread i).refreshes → (s.thread j).refreshes → i = j
  fresh : ∀ v ∈ s.shared.value, s.shared.stale = false → s.shared.invalidated < v.began
  fits : ∀ i, (s.thread i).Fits maxAge s.shared

/-- The status snapshot is coherent. -/
structure Snapshot.Coherent (maxAge : τ) (s : Snapshot V τ) : Prop where
  /-- One background refresh at a time. -/
  refresh : ∀ i j, (s.thread i).refreshes → (s.thread j).refreshes → i = j
  /-- One computation at a time. -/
  computation : ∀ i j, (s.thread i).computes → (s.thread j).computes → i = j
  /-- What is not stale was computed after the last invalidation. -/
  fresh : ∀ v ∈ s.shared.value, s.shared.stale = false → s.shared.invalidated < v.began
  /-- `get` returns what it has computed itself, or what is young enough. -/
  answer : ∀ i a, s.thread i = .returned (some a) →
    a.computed = true ∨ a.reading - a.storedAt < maxAge
  /-- After a computation has failed, what is stored is what was stored when it began. -/
  failed : ∀ i refresh before, s.thread i = .failed refresh before → s.shared.value = before

variable {s s' : Snapshot V τ}

lemma snapshotInv_init (h : (snapshotSystem ttl maxAge).init s) : s.Inv maxAge := by
  obtain ⟨hvalue, -, -, -, -, -, hinvalidated, hthread⟩ := h
  refine ⟨by omega, fun i hi => ?_, fun i hi => ?_, fun i j hi => ?_, by simp [hvalue],
    fun i => ?_⟩
  · simp [hthread i, SnapshotPc.holds] at hi
  · simp [hthread i, SnapshotPc.refreshes] at hi
  · simp [hthread i, SnapshotPc.refreshes] at hi
  · rw [hthread i]
    constructor <;> simp [SnapshotPc.answer]

/-- A thread that does not move, while the cache changes. -/
lemma fits_mono {m m' : Shared V τ} {pc : SnapshotPc V τ} (h : pc.Fits maxAge m)
    (hclock : m'.gen = m.gen ∧ m'.invalidated = m.invalidated)
    (hvalue : pc.holds → m'.value = m.value) : pc.Fits maxAge m' := by
  refine ⟨?_, ?_, ?_, ?_, h.answer⟩
  · rintro refresh gen rfl
    rw [hclock.1]
    exact h.gen refresh gen rfl
  · rintro refresh gen began before rfl
    rw [hclock.1, hclock.2, hvalue rfl]
    exact h.computing refresh gen began before rfl
  · rintro refresh gen began before payload rfl
    rw [hclock.1, hclock.2, hvalue rfl]
    exact h.storing refresh gen began before payload rfl
  · rintro refresh before rfl
    rw [hvalue rfl]
    exact h.failed refresh before rfl

lemma snapshotInv_move {i : ℕ} {a : SnapshotMove V} {m : Shared V τ} {pc : SnapshotPc V τ}
    (h : s.Inv maxAge) (hmove : (s.thread i).move ttl maxAge i s.shared a = some (m, pc)) :
    Snapshot.Inv maxAge ⟨{ m with steps := s.shared.steps + 1 },
      Function.update s.thread i pc⟩ := by
  have hch := changes_move hmove
  have hfits := fits_move hmove h.steps (h.fits i)
  have hself : Function.update s.thread i pc i = pc := Function.update_self ..
  have hother : ∀ j, j ≠ i → Function.update s.thread i pc j = s.thread j := fun j hj =>
    Function.update_of_ne hj ..
  -- nobody else holds `_sync` while this thread does
  have halone : ∀ j, j ≠ i → (s.thread i).holds → ¬ (s.thread j).holds := fun j hj hi hholds =>
    hj (Option.some.inj ((h.sync j hholds).symm.trans (h.sync i hi)))
  have hholds : ∀ j, (Function.update s.thread i pc j).holds → m.sync = some j := by
    intro j hj
    by_cases hji : j = i
    · subst hji
      rw [hself] at hj
      rcases hch.sync with ⟨heq, hholds⟩ | ⟨-, heq⟩ | ⟨-, hnot⟩
      · exact heq.trans (h.sync j (hholds hj))
      · exact heq
      · rw [hnot] at hj
        cases hj
    · rw [hother j hji] at hj
      rcases hch.sync with ⟨heq, -⟩ | ⟨hnone, -⟩ | ⟨hi, -⟩
      · exact heq.trans (h.sync j hj)
      · rw [h.sync j hj] at hnone
        cases hnone
      · exact absurd hj (halone j hji hi)
  have hone : ∀ j, (Function.update s.thread i pc j).refreshes → m.refreshing = true ∧
      ∀ k, (Function.update s.thread i pc k).refreshes → j = k := by
    rcases hch.refreshing with ⟨heq, hold⟩ | ⟨hnone, hflag⟩ | ⟨hi, hnot⟩
    · have hback : ∀ j, (Function.update s.thread i pc j).refreshes → (s.thread j).refreshes := by
        intro j hj
        by_cases hji : j = i
        · subst hji
          rw [hself] at hj
          exact hold hj
        · rwa [hother j hji] at hj
      exact fun j hj => ⟨heq.trans (h.flag j (hback j hj)),
        fun k hk => h.one j k (hback j hj) (hback k hk)⟩
    · have honly : ∀ j, (Function.update s.thread i pc j).refreshes → j = i := by
        intro j hj
        by_contra hji
        rw [hother j hji] at hj
        exact absurd (h.flag j hj) (by simp [hnone])
      exact fun j hj => ⟨hflag, fun k hk => (honly j hj).trans (honly k hk).symm⟩
    · intro j hj
      by_cases hji : j = i
      · subst hji
        rw [hself, hnot] at hj
        cases hj
      · rw [hother j hji] at hj
        exact absurd (h.one j i hj hi) hji
  refine ⟨?_, hholds, fun j hj => (hone j hj).1, fun j k hj hk => (hone j hj).2 k hk, ?_,
    fun j => ?_⟩
  · exact (hch.clock.2.trans_le h.steps).trans (Nat.le_succ _)
  · intro v hv hstale
    change m.invalidated < v.began
    rw [hch.clock.2]
    rcases hch.value with ⟨hvalue, hst⟩ | ⟨refresh, gen, began, before, payload, hpc, hvalue, hst⟩
    · exact h.fresh v (hvalue ▸ hv) (hst ▸ hstale)
    · obtain rfl : _ = v := Option.some.inj (hvalue.symm.trans hv)
      have hgen : gen = s.shared.gen := by simpa [hst] using hstale
      exact ((h.fits i).storing refresh gen began before payload hpc).2.1 hgen
  · by_cases hji : j = i
    · subst hji
      change (Function.update s.thread j pc j).Fits maxAge _
      rw [hself]
      exact fits_mono hfits ⟨rfl, rfl⟩ fun _ => rfl
    · change (Function.update s.thread i pc j).Fits maxAge _
      rw [hother j hji]
      refine fits_mono (h.fits j) hch.clock fun hj => ?_
      rcases hch.value with ⟨hvalue, -⟩ | ⟨refresh, gen, began, before, payload, hpc, -, -⟩
      · exact hvalue
      · exact absurd hj (halone j hji (by rw [hpc]; rfl))

lemma snapshotInv_spawn {i j : ℕ} {answer : Option (Answer V τ)} (h : s.Inv maxAge)
    (hi : s.thread i = .spawning answer) (hj : s.thread j = .idle) :
    Snapshot.Inv maxAge ⟨{ s.shared with steps := s.shared.steps + 1 },
      Function.update (Function.update s.thread i (.returned answer)) j (.waiting true)⟩ := by
  have hij : i ≠ j := by
    rintro rfl
    rw [hi] at hj
    cases hj
  have hthread : ∀ k, Function.update (Function.update s.thread i (.returned answer)) j
      (.waiting true) k =
        if k = j then .waiting true else if k = i then .returned answer else s.thread k := by
    intro k
    simp only [Function.update_apply]
  have hrefresher : (s.thread i).refreshes = true := by rw [hi]; rfl
  -- the flag passes from the thread that starts the refresh to the refresh
  have hrefreshes : ∀ k, (Function.update (Function.update s.thread i (.returned answer)) j
      (.waiting true) k).refreshes → k = j := by
    intro k hk
    rw [hthread] at hk
    split_ifs at hk with hkj hki
    · exact hkj
    · cases hk
    · exact absurd (h.one k i hk hrefresher) hki
  refine ⟨h.steps.trans (Nat.le_succ _), fun k hk => ?_, fun _ _ => h.flag i hrefresher,
    fun k l hk hl => (hrefreshes k hk).trans (hrefreshes l hl).symm, h.fresh, fun k => ?_⟩
  · simp only [hthread] at hk
    split_ifs at hk
    · cases hk
    · cases hk
    · exact h.sync k hk
  · simp only [hthread]
    split_ifs with hkj hki
    · constructor <;> simp [SnapshotPc.answer]
    · have hanswer := (h.fits i).answer
      rw [hi] at hanswer
      exact ⟨by simp, by simp, by simp, by simp, hanswer⟩
    · exact fits_mono (h.fits k) ⟨rfl, rfl⟩ fun _ => rfl

/-- An invalidation outdates every generation that was read. -/
lemma snapshotInv_invalidate (h : s.Inv maxAge) :
    Snapshot.Inv maxAge { s with shared := { s.shared with
    stale := true, gen := s.shared.gen + 1, steps := s.shared.steps + 1
    invalidated := s.shared.steps + 1 } } := by
  refine ⟨le_rfl, h.sync, h.flag, h.one, fun v _ hstale => ?_, fun i => ?_⟩
  · cases hstale
  obtain ⟨hgen, hcomputing, hstoring, hfailed, hanswer⟩ := h.fits i
  refine ⟨fun refresh gen hpc => (hgen refresh gen hpc).trans (Nat.le_succ _), ?_, ?_, hfailed,
    hanswer⟩
  · intro refresh gen began before hpc
    obtain ⟨hle, -, hbefore⟩ := hcomputing refresh gen began before hpc
    exact ⟨hle.trans (Nat.le_succ _), fun heq => absurd heq (Nat.lt_succ_of_le hle).ne, hbefore⟩
  · intro refresh gen began before payload hpc
    obtain ⟨hle, -, hbefore⟩ := hstoring refresh gen began before payload hpc
    exact ⟨hle.trans (Nat.le_succ _), fun heq => absurd heq (Nat.lt_succ_of_le hle).ne, hbefore⟩

lemma snapshotInv_next {l : SnapshotLabel V τ} (h : s.Inv maxAge)
    (hnext : (snapshotSystem ttl maxAge).next s l = some s') : s'.Inv maxAge := by
  cases l with
  | tick t =>
      simp only [snapshotSystem] at hnext
      split_ifs at hnext
      obtain rfl := Option.some.inj hnext
      exact ⟨h.steps.trans (Nat.le_succ _), h.sync, h.flag, h.one, h.fresh,
        fun i => fits_mono (h.fits i) ⟨rfl, rfl⟩ fun _ => rfl⟩
  | invalidate =>
      obtain rfl := Option.some.inj hnext
      exact snapshotInv_invalidate h
  | move i a =>
      obtain ⟨⟨m, pc⟩, hmove, rfl⟩ := Option.map_eq_some_iff.1 hnext
      exact snapshotInv_move h hmove
  | spawn i j =>
      simp only [snapshotSystem] at hnext
      split at hnext
      · rename_i answer hi hj
        obtain rfl := Option.some.inj hnext
        exact snapshotInv_spawn h hi hj
      · cases hnext

/-- **Coherence.**  In every run of the threads at most one background refresh is active, the
computations do not overlap, what is not stale was computed after the last invalidation, `get`
returns nothing that was too old when it looked, and a failed computation leaves what is stored. -/
theorem snapshot_coherent (h : (snapshotSystem ttl maxAge).Reachable s) : s.Coherent maxAge := by
  have hinv : s.Inv maxAge :=
    h.invariant (fun _ => snapshotInv_init) fun _ _ _ hs _ hnext => snapshotInv_next hs hnext
  refine ⟨hinv.one, fun i j hi hj => ?_, hinv.fresh, fun i a hi => ?_,
    fun i refresh before hi => ?_⟩
  · have hholds : ∀ k, (s.thread k).computes → (s.thread k).holds := by
      intro k
      cases s.thread k <;> simp [SnapshotPc.computes, SnapshotPc.holds]
    exact Option.some.inj ((hinv.sync i (hholds i hi)).symm.trans (hinv.sync j (hholds j hj)))
  · exact (hinv.fits i).answer a (by rw [hi]; rfl)
  · exact ((hinv.fits i).failed refresh before hi).symm

/-- The cache when it has been constructed. -/
def Snapshot.fresh : Snapshot ℕ ℤ :=
  ⟨⟨none, false, false, 0, none, 0, 0, 0⟩, fun _ => .idle⟩

/-- A value is invalidated while it is computed, and stays stale once it is stored. -/
theorem snapshot_coherent_stale : ∃ s : Snapshot ℕ ℤ, s.shared.value ≠ none ∧
    s.shared.stale = true ∧ s.Coherent 900 := by
  obtain ⟨s, hs, hend⟩ := (snapshotSystem (V := ℕ) (τ := ℤ) 60 900).exists_of_exec_any
    Snapshot.fresh [.move 0 .get, .move 0 .run, .move 0 .run, .move 0 .run, .move 0 .run,
      .move 0 .run, .invalidate, .move 0 (.computed 7), .move 0 .run]
    (fun s => s.shared.value.isSome && s.shared.stale) (by decide)
  rw [Bool.and_eq_true, Option.isSome_iff_ne_none] at hend
  exact ⟨s, hend.1, hend.2, snapshot_coherent (StepSystem.Reachable.exec
    (.init ⟨rfl, rfl, rfl, rfl, rfl, rfl, rfl, fun _ => rfl⟩) hs)⟩

end coherent

end PalaceDaemon.Status

/-
A cached value behind a lock, with the check made twice.

A caller that finds the value younger than `ttl` takes it.  Otherwise the caller waits for the lock,
looks again, and computes a new value if it is still as old.  A caller may give up at any time, and
then the lock is free again.

At most one value is being computed (`one_computation`).  The computations that end are `ttl` apart
(`runs_spaced`), so there are not more of them than that allows (`runs_rate`), and what a caller is
given was computed less than `ttl` before, or by the caller (`answers_young`).  No caller has to
wait for ever (`can_be_answered`).
-/
import Mathlib.Algebra.Order.Archimedean.Basic
import Mathlib.Data.List.Chain
import PalaceDaemon.Lib.StepSystem
import PalaceDaemon.Lib.Threads

namespace CheckedCache

variable {τ ρ : Type*}

/-- A value, and the time at which it was there. -/
structure Entry (τ ρ : Type*) where
  time : τ
  value : ρ
deriving DecidableEq

/-- A computation that ended: when it began, and what it came to. -/
structure Run (τ ρ : Type*) where
  started : τ
  entry : Entry τ ρ

/-- What a caller is given, when, and whether the caller did not compute it. -/
structure Answer (τ ρ : Type*) where
  caller : ℕ
  entry : Entry τ ρ
  time : τ
  cached : Bool

/-- What the callers share: the clock, the cache, the lock and who holds it, and what has happened,
the latest first. -/
structure Shared (τ ρ : Type*) where
  clock : τ
  entry : Entry τ ρ
  lock : Option ℕ
  runs : List (Run τ ρ)
  answers : List (Answer τ ρ)

/-- Where a caller is. -/
inductive Pc (τ : Type*)
  | idle
  | waiting
  | computing (started : τ)
deriving DecidableEq

abbrev Callers (τ ρ : Type*) := Threads (Shared τ ρ) (Pc τ)

inductive Label (τ ρ : Type*)
  | tick (d : τ)
  /-- A caller looks at the cache. -/
  | ask (i : ℕ)
  /-- A caller has the lock and looks again. -/
  | enter (i : ℕ)
  /-- The value of a caller is there. -/
  | finish (i : ℕ) (value : ρ)
  | giveUp (i : ℕ)

section system

variable [AddCommGroup τ] [LinearOrder τ] (ttl : τ)

/-- The value is too old. -/
def Shared.stale (x : Shared τ ρ) : Bool := ttl ≤ x.clock - x.entry.time

/-- The caller is given the value of the cache. -/
def Shared.answer (x : Shared τ ρ) (i : ℕ) (cached : Bool) : Shared τ ρ :=
  { x with answers := ⟨i, x.entry, x.clock, cached⟩ :: x.answers }

/-- A computation that began at this time is there. -/
def Shared.store (x : Shared τ ρ) (started : τ) (value : ρ) : Shared τ ρ :=
  { x with
    entry := ⟨x.clock, value⟩
    lock := none
    runs := ⟨started, ⟨x.clock, value⟩⟩ :: x.runs }

def next (s : Callers τ ρ) : Label τ ρ → Option (Callers τ ρ)
  | .tick d => some { s with shared := { s.shared with clock := s.shared.clock + d } }
  | .ask i =>
      match s.own i with
      | .idle =>
          if s.shared.stale ttl then some (s.move i s.shared .waiting)
          else some (s.move i (s.shared.answer i true) .idle)
      | _ => none
  | .enter i =>
      match s.own i, s.shared.lock with
      | .waiting, none =>
          if s.shared.stale ttl then
            some (s.move i { s.shared with lock := some i } (.computing s.shared.clock))
          else some (s.move i (s.shared.answer i true) .idle)
      | _, _ => none
  | .finish i value =>
      match s.own i with
      | .computing started =>
          some (s.move i ((s.shared.store started value).answer i false) .idle)
      | _ => none
  | .giveUp i =>
      match s.own i with
      | .idle => none
      | .waiting => some (s.move i s.shared .idle)
      | .computing _ => some (s.move i { s.shared with lock := none } .idle)

/-- At the beginning there is a first value in the cache, and nobody has asked. -/
def start (clock : τ) (first : Entry τ ρ) : Callers τ ρ :=
  ⟨⟨clock, first, none, [], []⟩, fun _ => .idle⟩

def system (clock : τ) (first : Entry τ ρ) : StepSystem (Callers τ ρ) (Label τ ρ) where
  init s := s = start clock first
  next := next ttl

/-! ### What the callers and the cache keep -/

variable {ttl} {clock : τ} {first : Entry τ ρ} {s s' : Callers τ ρ} {i j : ℕ}

/-- A caller that computes has the lock, and began when the value was old. -/
def Fits (ttl : τ) (x : Shared τ ρ) (i : ℕ) (pc : Pc τ) : Prop :=
  (pc = .idle ∨ pc = .waiting) ∧ x.lock ≠ some i ∨
    ∃ t, pc = .computing t ∧ x.lock = some i ∧ ttl ≤ t - x.entry.time

/-- The value before the computation, and the one after it. -/
def Apart (ttl : τ) (later earlier : Run τ ρ) : Prop := ttl ≤ later.started - earlier.entry.time

/-- An answer has the value of a computation, or the first one: that of the caller, or one that is
young. -/
def Answer.Fits (ttl : τ) (entries : List (Entry τ ρ)) (a : Answer τ ρ) : Prop :=
  a.entry ∈ entries ∧
    if a.cached then a.time - a.entry.time < ttl else a.time = a.entry.time

structure Inv (ttl : τ) (first : Entry τ ρ) (s : Callers τ ρ) : Prop where
  callers : ∀ i, Fits ttl s.shared i (s.own i)
  latest : (s.shared.runs.map Run.entry ++ [first]).head? = some s.shared.entry
  apart : s.shared.runs.IsChain (Apart ttl)
  answers : ∀ a ∈ s.shared.answers, a.Fits ttl (s.shared.runs.map Run.entry ++ [first])

lemma inv_start (clock : τ) (first : Entry τ ρ) : Inv ttl first (start clock first) where
  callers _ := .inl ⟨.inl rfl, nofun⟩
  latest := rfl
  apart := .nil
  answers := nofun

lemma Inv.free (h : Inv ttl first s) (hi : s.own i = .idle ∨ s.own i = .waiting) :
    s.shared.lock ≠ some i := by
  rcases h.callers i with ⟨-, hlock⟩ | ⟨t, hpc, -⟩
  · exact hlock
  · rw [hpc] at hi
    rcases hi with hi | hi <;> cases hi

lemma Inv.holds (h : Inv ttl first s) {t : τ} (hi : s.own i = .computing t) :
    s.shared.lock = some i ∧ ttl ≤ t - s.shared.entry.time := by
  rcases h.callers i with ⟨hpc, -⟩ | ⟨t', hpc, hlock, hold⟩
  · rw [hi] at hpc
    rcases hpc with hpc | hpc <;> cases hpc
  · obtain rfl := Pc.computing.inj (hi.symm.trans hpc)
    exact ⟨hlock, hold⟩

/-- A caller that does not have the lock moves and leaves the lock and the cache as they are. -/
lemma Inv.move {x : Shared τ ρ} {pc : Pc τ} (h : Inv ttl first s) (hlock : x.lock = s.shared.lock)
    (hentry : x.entry = s.shared.entry) (hruns : x.runs = s.shared.runs)
    (hanswers : ∀ a ∈ x.answers, a.Fits ttl (x.runs.map Run.entry ++ [first]))
    (hfree : s.shared.lock ≠ some i) (hpc : pc = .idle ∨ pc = .waiting) :
    Inv ttl first (s.move i x pc) where
  callers := Threads.forall_move h.callers (.inl ⟨hpc, by rwa [hlock]⟩) fun j _ hj => by
    rwa [Fits, hlock, hentry]
  latest := by rw [Threads.shared_move, hruns, hentry]; exact h.latest
  apart := by rw [Threads.shared_move, hruns]; exact h.apart
  answers := hanswers

lemma Inv.entry_mem (h : Inv ttl first s) :
    s.shared.entry ∈ s.shared.runs.map Run.entry ++ [first] :=
  List.mem_of_mem_head? h.latest

lemma Inv.fits_answer (h : Inv ttl first s) (hyoung : s.shared.stale ttl = false) :
    ∀ a ∈ (s.shared.answer i true).answers,
      a.Fits ttl (s.shared.runs.map Run.entry ++ [first]) := by
  intro a ha
  rcases List.mem_cons.1 ha with rfl | ha
  · refine ⟨h.entry_mem, ?_⟩
    rw [if_pos rfl]
    simpa [Shared.stale] using hyoung
  · exact h.answers a ha

/-- The caller that computes moves, and the lock is free. -/
lemma Inv.callers_release (h : Inv ttl first s) {t : τ} (hi : s.own i = .computing t)
    {x : Shared τ ρ} (hx : x.lock = none) : ∀ j, Fits ttl x j ((s.move i x .idle).own j) := by
  obtain ⟨hlock, -⟩ := h.holds hi
  refine Threads.forall_move h.callers (.inl ⟨.inl rfl, by rw [hx]; exact nofun⟩) ?_
  rintro j hj (⟨hpc, -⟩ | ⟨-, -, hlock', -⟩)
  · exact .inl ⟨hpc, by rw [hx]; exact nofun⟩
  · exact absurd (Option.some.inj (hlock'.symm.trans hlock)) hj

lemma Inv.next (h : Inv ttl first s) {a : Label τ ρ} (hnext : next ttl s a = some s') :
    Inv ttl first s' := by
  cases a with
  | tick d =>
      obtain rfl := Option.some.inj hnext
      exact ⟨h.callers, h.latest, h.apart, h.answers⟩
  | ask i =>
      rw [CheckedCache.next] at hnext
      split at hnext
      · next hi =>
          have hfree := h.free (.inl hi)
          split_ifs at hnext with hstale
          · obtain rfl := Option.some.inj hnext
            exact h.move rfl rfl rfl h.answers hfree (.inr rfl)
          · obtain rfl := Option.some.inj hnext
            exact h.move rfl rfl rfl (h.fits_answer (by simpa using hstale)) hfree (.inl rfl)
      · cases hnext
  | enter i =>
      rw [CheckedCache.next] at hnext
      split at hnext
      · next hi hlock =>
          split_ifs at hnext with hstale
          · obtain rfl := Option.some.inj hnext
            have hold : ttl ≤ s.shared.clock - s.shared.entry.time := of_decide_eq_true hstale
            -- nobody else is in the section, since the lock was free
            refine ⟨Threads.forall_move h.callers (.inr ⟨_, rfl, rfl, hold⟩) ?_, h.latest, h.apart,
              h.answers⟩
            rintro j hj (⟨hpc, -⟩ | ⟨-, -, hlock', -⟩)
            · exact .inl ⟨hpc, fun heq => hj (Option.some.inj heq).symm⟩
            · cases hlock.symm.trans hlock'
          · obtain rfl := Option.some.inj hnext
            exact h.move rfl rfl rfl (h.fits_answer (by simpa using hstale))
              (by rw [hlock]; exact nofun) (.inl rfl)
      · cases hnext
  | finish i value =>
      rw [CheckedCache.next] at hnext
      split at hnext
      · next started hi =>
          obtain rfl := Option.some.inj hnext
          refine ⟨h.callers_release hi rfl, rfl, ?_, ?_⟩
          · refine List.isChain_cons.2 ⟨fun r hr => ?_, h.apart⟩
            -- the latest computation before this one left the value that was found old
            have hentry : r.entry = s.shared.entry := by
              obtain ⟨rs, hrs⟩ := List.head?_eq_some_iff.1 hr
              have hlatest := h.latest
              rw [hrs] at hlatest
              exact Option.some.inj hlatest
            rw [Apart, hentry]
            exact (h.holds hi).2
          · intro a ha
            rcases List.mem_cons.1 ha with rfl | ha
            · exact ⟨List.mem_cons_self, rfl⟩
            · exact ⟨List.mem_cons_of_mem _ (h.answers a ha).1, (h.answers a ha).2⟩
      · cases hnext
  | giveUp i =>
      rw [CheckedCache.next] at hnext
      split at hnext
      · cases hnext
      · next hi =>
          obtain rfl := Option.some.inj hnext
          exact h.move rfl rfl rfl h.answers (h.free (.inr hi)) (.inl rfl)
      · next t hi =>
          obtain rfl := Option.some.inj hnext
          exact ⟨h.callers_release hi rfl, h.latest, h.apart, h.answers⟩

lemma inv_of_reachable (h : (system ttl clock first).Reachable s) : Inv ttl first s :=
  StepSystem.ReachedBy.invariant (by rintro s rfl; exact inv_start clock first)
    (fun _ _ _ hinv _ hnext => hinv.next hnext) h

/-- **One computation.**  At most one caller computes a value. -/
theorem one_computation (h : (system ttl clock first).Reachable s) {t u : τ}
    (hi : s.own i = .computing t) (hj : s.own j = .computing u) : i = j := by
  have hinv := inv_of_reachable h
  exact Option.some.inj ((hinv.holds hi).1.symm.trans (hinv.holds hj).1)

/-! ### No caller waits for ever -/

/-- A step of the caller, whose computation comes to `own`, or the end of the computation that is
running. -/
def GoesOn (s : Callers τ ρ) (i : ℕ) (running own : ρ) (a : Label τ ρ) : Prop :=
  a = .enter i ∨ a = .finish i own ∨ ∃ j t, s.own j = .computing t ∧ a = .finish j running

/-- With the lock free, the next steps are the caller's own. -/
lemma answered_of_free (ttl clock : τ) (first : Entry τ ρ) (own : ρ) (hi : s.own i = .waiting)
    (hlock : s.shared.lock = none) : ∃ as s' a, (∀ b ∈ as, b = .enter i ∨ b = .finish i own) ∧
      (system ttl clock first).exec s as = some s' ∧ s'.own i = .idle ∧
      s'.shared.answers = a :: s.shared.answers ∧ a.caller = i := by
  by_cases hstale : s.shared.stale ttl = true
  · let s₁ := s.move i { s.shared with lock := some i } (.computing s.shared.clock)
    let s₂ := s₁.move i ((s₁.shared.store s.shared.clock own).answer i false) .idle
    have henter : (system ttl clock first).next s (.enter i) = some s₁ := by
      simp [system, CheckedCache.next, hi, hlock, hstale, s₁]
    have hfinish : (system ttl clock first).next s₁ (.finish i own) = some s₂ := by
      simp only [system, CheckedCache.next, s₁, s₂, Threads.own_move_self]
    refine ⟨[.enter i, .finish i own], s₂, ⟨i, ⟨s.shared.clock, own⟩, s.shared.clock, false⟩,
      by simp, ?_, Threads.own_move_self, rfl, rfl⟩
    rw [StepSystem.exec_cons, henter, Option.bind_some, StepSystem.exec_cons, hfinish]
    rfl
  · let s₁ := s.move i (s.shared.answer i true) .idle
    have henter : (system ttl clock first).next s (.enter i) = some s₁ := by
      simp [system, CheckedCache.next, hi, hlock, hstale, s₁]
    refine ⟨[.enter i], s₁, ⟨i, s.shared.entry, s.shared.clock, true⟩, by simp, ?_,
      Threads.own_move_self, rfl, rfl⟩
    rw [StepSystem.exec_cons, henter]
    rfl

/-- **Answers.**  Whatever has happened, a caller that waits can be given an answer by its own
steps, as soon as the computation that is running has ended and the lock is free. -/
theorem can_be_answered (running own : ρ) (h : (system ttl clock first).Reachable s)
    (hi : s.own i = .waiting) : ∃ as s' a answers, (∀ b ∈ as, GoesOn s i running own b) ∧
      (system ttl clock first).exec s as = some s' ∧ s'.own i = .idle ∧
      s'.shared.answers = a :: answers ∧ a.caller = i := by
  have hinv := inv_of_reachable h
  rcases hlock : s.shared.lock with _ | j
  · obtain ⟨as, s', a, hon, hexec, hidle, hanswers, hcaller⟩ :=
      answered_of_free ttl clock first own hi hlock
    exact ⟨as, s', a, _, fun b hb => (hon b hb).imp id .inl, hexec, hidle, hanswers, hcaller⟩
  · obtain ⟨-, hlock'⟩ | ⟨t, hj, -, -⟩ := hinv.callers j
    · exact absurd hlock hlock'
    · have hfinish : (system ttl clock first).next s (.finish j running) =
          some (s.move j ((s.shared.store t running).answer j false) .idle) := by
        simp [system, CheckedCache.next, hj]
      have hij : i ≠ j := by
        rintro rfl
        cases hi.symm.trans hj
      obtain ⟨as, s', a, hon, hexec, hidle, hanswers, hcaller⟩ :=
        answered_of_free ttl clock first own
          (s := s.move j ((s.shared.store t running).answer j false) .idle)
          ((Threads.own_move_of_ne hij).trans hi) rfl
      refine ⟨.finish j running :: as, s', a, _, List.forall_mem_cons.2
        ⟨.inr (.inr ⟨j, t, hj, rfl⟩), fun b hb => (hon b hb).imp id .inl⟩, ?_, hidle, hanswers,
        hcaller⟩
      rw [StepSystem.exec_cons, hfinish]
      exact hexec

/-- A step that adds a computation. -/
lemma runs_next {a : Label τ ρ} (hnext : next ttl s a = some s') :
    s'.shared.runs = s.shared.runs ∨ ∃ i value r, a = .finish i value ∧ r.entry.value = value ∧
      s'.shared.runs = r :: s.shared.runs := by
  cases a with
  | tick d =>
      obtain rfl := Option.some.inj hnext
      exact .inl rfl
  | ask i =>
      rw [CheckedCache.next] at hnext
      split at hnext
      · split_ifs at hnext <;> obtain rfl := Option.some.inj hnext <;> exact .inl rfl
      · cases hnext
  | enter i =>
      rw [CheckedCache.next] at hnext
      split at hnext
      · split_ifs at hnext <;> obtain rfl := Option.some.inj hnext <;> exact .inl rfl
      · cases hnext
  | finish i value =>
      rw [CheckedCache.next] at hnext
      split at hnext
      · obtain rfl := Option.some.inj hnext
        exact .inr ⟨i, value, _, rfl, rfl, rfl⟩
      · cases hnext
  | giveUp i =>
      rw [CheckedCache.next] at hnext
      split at hnext
      · cases hnext
      · obtain rfl := Option.some.inj hnext
        exact .inl rfl
      · obtain rfl := Option.some.inj hnext
        exact .inl rfl

/-! ### How many computations there are -/

/-- The clock is not set back. -/
def Forward (_ : Callers τ ρ) : Label τ ρ → Prop
  | .tick d => 0 ≤ d
  | _ => True

/-- A computation that is running began after the beginning, and in the past. -/
def Past (clock : τ) (x : Shared τ ρ) (_ : ℕ) (pc : Pc τ) : Prop :=
  ∀ t, pc = .computing t → clock ≤ t ∧ t ≤ x.clock

/-- What has happened is in the past, and the computations took their time. -/
structure Timely (ttl clock : τ) (first : Entry τ ρ) (s : Callers τ ρ) : Prop where
  inv : Inv ttl first s
  past : clock ≤ s.shared.clock
  begun : ∀ i, Past clock s.shared i (s.own i)
  ended : s.shared.runs ≠ [] → s.shared.entry.time ≤ s.shared.clock
  took : ∀ r ∈ s.shared.runs, r.started ≤ r.entry.time
  rate : ∀ k, s.shared.runs.length = k + 1 → clock + k • ttl ≤ s.shared.entry.time
  answers : ttl ≤ clock - first.time →
    ∀ a ∈ s.shared.answers, a.entry ∈ s.shared.runs.map Run.entry

lemma timely_start (ttl clock : τ) (first : Entry τ ρ) :
    Timely ttl clock first (start clock first) where
  inv := inv_start clock first
  past := le_rfl
  begun _ _ hcomputing := by cases hcomputing
  ended hruns := absurd rfl hruns
  took := nofun
  rate _ hlength := by cases hlength
  answers _ := nofun

/-- A caller that comes to wait, or to nothing, leaves the others as they are. -/
lemma Timely.begun_move (h : Timely ttl clock first s) {x : Shared τ ρ} {pc : Pc τ}
    (hx : x.clock = s.shared.clock) (hpc : ∀ t, pc ≠ .computing t) :
    ∀ j, Past clock x j ((s.move i x pc).own j) := by
  refine Threads.forall_move h.begun (fun t ht => absurd ht (hpc t)) fun _ _ hj => ?_
  rwa [Past, hx]

variable [IsOrderedAddMonoid τ]

/-- The first value is found old. -/
lemma Timely.runs_ne_nil (h : Timely ttl clock first s) (hfirst : ttl ≤ clock - first.time)
    (hyoung : s.shared.stale ttl = false) : s.shared.runs ≠ [] := by
  intro hruns
  have hlatest := h.inv.latest
  rw [hruns] at hlatest
  have hentry : first = s.shared.entry := Option.some.inj hlatest
  rw [Shared.stale, ← hentry, decide_eq_false_iff_not, not_le] at hyoung
  exact absurd (hfirst.trans (sub_le_sub_right h.past _)) (not_le.2 hyoung)

lemma Timely.answer_mem (h : Timely ttl clock first s) (hfirst : ttl ≤ clock - first.time)
    (hyoung : s.shared.stale ttl = false) :
    ∀ a ∈ (s.shared.answer i true).answers, a.entry ∈ s.shared.runs.map Run.entry := by
  intro a ha
  rcases List.mem_cons.1 ha with rfl | ha
  · obtain ⟨r, runs, hruns⟩ := List.exists_cons_of_ne_nil (h.runs_ne_nil hfirst hyoung)
    have hlatest := h.inv.latest
    rw [hruns] at hlatest
    show s.shared.entry ∈ _
    rw [hruns, ← Option.some.inj hlatest]
    exact List.mem_cons_self
  · exact h.answers hfirst a ha

lemma Timely.next (h : Timely ttl clock first s) {a : Label τ ρ} (hok : Forward s a)
    (hnext : next ttl s a = some s') : Timely ttl clock first s' := by
  have hinv := h.inv.next hnext
  cases a with
  | tick d =>
      obtain rfl := Option.some.inj hnext
      have hlater : s.shared.clock ≤ s.shared.clock + d := le_add_of_nonneg_right hok
      exact ⟨hinv, h.past.trans hlater,
        fun i t hi => ⟨(h.begun i t hi).1, (h.begun i t hi).2.trans hlater⟩,
        fun hruns => (h.ended hruns).trans hlater, h.took, h.rate, h.answers⟩
  | ask i =>
      rw [CheckedCache.next] at hnext
      split at hnext
      · split_ifs at hnext with hstale
        · obtain rfl := Option.some.inj hnext
          exact ⟨hinv, h.past, h.begun_move rfl nofun, h.ended, h.took, h.rate, h.answers⟩
        · obtain rfl := Option.some.inj hnext
          exact ⟨hinv, h.past, h.begun_move rfl nofun, h.ended, h.took, h.rate,
            fun hfirst => h.answer_mem hfirst (by simpa using hstale)⟩
      · cases hnext
  | enter i =>
      rw [CheckedCache.next] at hnext
      split at hnext
      · split_ifs at hnext with hstale
        · obtain rfl := Option.some.inj hnext
          refine ⟨hinv, h.past, ?_, h.ended, h.took, h.rate, h.answers⟩
          refine Threads.forall_move h.begun ?_ fun _ _ hj => hj
          rintro t ht
          obtain rfl := Pc.computing.inj ht
          exact ⟨h.past, le_rfl⟩
        · obtain rfl := Option.some.inj hnext
          exact ⟨hinv, h.past, h.begun_move rfl nofun, h.ended, h.took, h.rate,
            fun hfirst => h.answer_mem hfirst (by simpa using hstale)⟩
      · cases hnext
  | finish i value =>
      rw [CheckedCache.next] at hnext
      split at hnext
      · next started hi =>
          obtain rfl := Option.some.inj hnext
          obtain ⟨hclock, hended⟩ := h.begun i started hi
          refine ⟨hinv, h.past, h.begun_move rfl nofun, fun _ => le_rfl,
            List.forall_mem_cons.2 ⟨hended, h.took⟩, ?_, ?_⟩
          · rintro k hlength
            have hruns : s.shared.runs.length = k := Nat.succ.inj hlength
            show clock + k • ttl ≤ s.shared.clock
            rcases k with _ | k
            · rw [zero_nsmul, add_zero]
              exact h.past
            · -- the value before was old when this computation began
              calc clock + (k + 1) • ttl = clock + k • ttl + ttl := by rw [succ_nsmul, add_assoc]
                _ ≤ s.shared.entry.time + (started - s.shared.entry.time) :=
                    add_le_add (h.rate k hruns) (h.inv.holds hi).2
                _ = started := by rw [add_sub_cancel]
                _ ≤ s.shared.clock := hended
          · rintro hfirst a ha
            rcases List.mem_cons.1 ha with rfl | ha
            · exact List.mem_cons_self
            · exact List.mem_cons_of_mem _ (h.answers hfirst a ha)
      · cases hnext
  | giveUp i =>
      rw [CheckedCache.next] at hnext
      split at hnext
      · cases hnext
      · obtain rfl := Option.some.inj hnext
        exact ⟨hinv, h.past, h.begun_move rfl nofun, h.ended, h.took, h.rate, h.answers⟩
      · obtain rfl := Option.some.inj hnext
        exact ⟨hinv, h.past, h.begun_move rfl nofun, h.ended, h.took, h.rate, h.answers⟩

lemma timely_of_reachedBy (h : (system ttl clock first).ReachedBy Forward s) :
    Timely ttl clock first s :=
  h.invariant (by rintro s rfl; exact timely_start ttl clock first)
    fun _ _ _ htimely hok hnext => htimely.next hok hnext

lemma spaced_of_isChain {r r' : Run τ ρ} {between earlier : List (Run τ ρ)}
    (h : (r :: (between ++ r' :: earlier)).IsChain (Apart ttl))
    (htook : ∀ r ∈ between, r.started ≤ r.entry.time) :
    r'.entry.time + (between.length + 1) • ttl ≤ r.started := by
  induction between generalizing r with
  | nil =>
      have hapart : ttl ≤ r.started - r'.entry.time := (List.isChain_cons_cons.1 h).1
      rw [List.length_nil, zero_add, one_nsmul, add_comm]
      exact le_sub_iff_add_le.1 hapart
  | cons x between ih =>
      obtain ⟨hapart, hrest⟩ := List.isChain_cons_cons.1 h
      obtain ⟨hx, htook⟩ := List.forall_mem_cons.1 htook
      calc r'.entry.time + ((between.length + 1) + 1) • ttl
          = r'.entry.time + (between.length + 1) • ttl + ttl := by rw [succ_nsmul, add_assoc]
        _ ≤ x.entry.time + ttl := add_le_add_left ((ih hrest htook).trans hx) ttl
        _ ≤ r.started := by
            rw [add_comm]
            exact le_sub_iff_add_le.1 hapart

/-- **Spacing.**  A computation begins as many times `ttl` after the end of an earlier one as there
are between the two, and once more. -/
theorem runs_spaced (h : (system ttl clock first).ReachedBy Forward s)
    {later between earlier : List (Run τ ρ)} {r r' : Run τ ρ}
    (hruns : s.shared.runs = later ++ r :: (between ++ r' :: earlier)) :
    r'.entry.time + (between.length + 1) • ttl ≤ r.started := by
  have htimely := timely_of_reachedBy h
  have hchain := htimely.inv.apart
  have htook := htimely.took
  rw [hruns] at hchain htook
  exact spaced_of_isChain (List.isChain_append.1 hchain).2.1 fun x hx => htook x (by simp [hx])

/-- **Rate.**  Computations end at most every `ttl`: the time since the beginning has room for all
of them but one. -/
theorem runs_rate (h : (system ttl clock first).ReachedBy Forward s) {k : ℕ}
    (hlength : s.shared.runs.length = k + 1) : clock + k • ttl ≤ s.shared.clock := by
  have htimely := timely_of_reachedBy h
  refine (htimely.rate k hlength).trans (htimely.ended fun hruns => ?_)
  rw [hruns] at hlength
  cases hlength

/-- **Young answers.**  If the first value is old from the beginning, every answer is the value of
a computation: of the caller's, or of one that ended less than `ttl` before. -/
theorem answers_young (h : (system ttl clock first).ReachedBy Forward s)
    (hfirst : ttl ≤ clock - first.time) {a : Answer τ ρ} (ha : a ∈ s.shared.answers) :
    a.entry ∈ s.shared.runs.map Run.entry ∧
      if a.cached then a.time - a.entry.time < ttl else a.time = a.entry.time := by
  have htimely := timely_of_reachedBy h
  exact ⟨htimely.answers hfirst a ha, (htimely.inv.answers a ha).2⟩

end system

end CheckedCache

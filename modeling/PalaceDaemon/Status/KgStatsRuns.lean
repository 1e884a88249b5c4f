/-
What holds in the runs of the calls of the graph statistics.

Each thread has something where it is (`ThreadOk`): a thread that has the lock knows all that is
shared, a call without it only that the cache is not emptied, and that what is cached is not older
than what it saw.  A step is made by one thread, and does not take it from the others: a thread
without the lock changes nothing that is shared (`Inv.stay`), and the one that has it changes
nothing that they rely on (`Inv.hold`).
-/
import PalaceDaemon.Status.KgStatsCache

namespace PalaceDaemon.KgStatsCache

variable {π ε τ : Type*}

/-! ### What every step keeps -/

section invariant

variable [LinearOrder τ] [AddCommGroup τ] (ttl : τ)

/-- What is cached is fresh for a reading of the clock. -/
def Shared.Fresh (x : Shared π ε τ) (now : τ) : Prop :=
  x.cached.isSome = true ∧ ∀ p k, x.cached = some (p, k) → ∃ c finished,
    x.computations[k]? = some c ∧ c.outcome = .done p finished true ∧ now - finished < ttl

/-- Nothing is cached that is fresh for a reading of the clock. -/
def Shared.Cold (x : Shared π ε τ) (now : τ) : Prop :=
  ttl ≤ 0 ∨ x.cached = none ∨ ttl ≤ now - x.cachedAt

/-- The thread runs a computation, which found the cache cold. -/
def Shared.Runs (x : Shared π ε τ) (i k : ℕ) (outcome : Outcome π ε τ) : Prop :=
  x.lock = some i ∧ ∃ c, x.computations[k]? = some c ∧ c.caller = i ∧ c.outcome = outcome ∧
    c.since ≤ x.clock ∧ x.Cold ttl c.since

/-- The thread has stored the payload of its computation, whose time is to come. -/
def Shared.Stamps (x : Shared π ε τ) (i k : ℕ) (p : π) : Prop :=
  x.lock = some i ∧ x.cached = some (p, k) ∧ ∃ c, x.computations[k]? = some c ∧ c.caller = i ∧
    c.outcome = .done p x.clock true ∧ c.since ≤ x.clock

/-- What a call returned. -/
def Shared.Answered (x : Shared π ε τ) (i : ℕ) (r : Answer π τ) : Prop :=
  r.returnedAt ≤ x.clock ∧ ∃ c finished, x.Gave r.computation c r.payload finished ∧
    if r.cached then r.checked - finished < ttl else c.caller = i ∧ r.checked ≤ finished

/-- What a thread has where it is. -/
def PcOk (x : Shared π ε τ) (i : ℕ) : Pc π ε τ → Prop
  | .testCached now => 0 < ttl ∧ now ≤ x.clock
  | .testAge now => 0 < ttl ∧ now ≤ x.clock ∧ x.cached.isSome = true
  | .copy now => now ≤ x.clock ∧ x.Fresh ttl now
  | .locked => x.lock = some i
  | .retestCached now => x.lock = some i ∧ 0 < ttl ∧ now ≤ x.clock
  | .retestAge now => x.lock = some i ∧ 0 < ttl ∧ now ≤ x.clock ∧ x.cached.isSome = true
  | .recopy now => x.lock = some i ∧ now ≤ x.clock ∧ x.Fresh ttl now
  | .computing k => x.Runs ttl i k .running
  | .dropping k e => x.Runs ttl i k (.failed e)
  | .droppingAge k e => x.lock = some i ∧ x.cached = none ∧
      ∃ c, x.computations[k]? = some c ∧ c.caller = i ∧ c.outcome = .failed e
  | .counting k p => x.Runs ttl i k (.done p x.clock false)
  | .storing k p => 0 < ttl ∧ x.Runs ttl i k (.done p x.clock false)
  | .stamping k p => x.Stamps i k p
  | .storingAge k p t => x.Stamps i k p ∧ t = x.clock
  | .returned r => x.Answered ttl i r
  | .raised exc => ∃ (k : ℕ) (c : Computation π ε τ) (e : ε), exc = .own e ∧
      x.computations[k]? = some c ∧ c.caller = i ∧ c.outcome = .failed e
  | .clearing => x.lock = some i
  | .clearingAge => x.lock = some i ∧ x.cached = none
  | .idle | .waiting | .clearWaiting | .cleared => True

/-- The result of a computation is still to be put into the cache. -/
def Outcome.isOpen : Outcome π ε τ → Bool
  | .running => true
  | .done _ _ false => 0 < ttl
  | _ => false

/-- The thread is to put the result of the computation into the cache. -/
def Pc.WorksOn (k : ℕ) : Pc π ε τ → Prop
  | .computing l | .counting l _ | .storing l _ => l = k
  | _ => False

/-- The thread is to store the time of the computation. -/
def Pc.StampsOn (k : ℕ) : Pc π ε τ → Prop
  | .stamping l _ | .storingAge l _ _ => l = k
  | _ => False

/-- A call has not found the cache fresh yet, when a computation is running that found it cold. -/
def Pc.Early (since : τ) : Pc π ε τ → Prop
  | .testCached now | .testAge now => since ≤ now
  | .waiting => True
  | _ => False

/-- What a call has that came while the computation `k` was running. -/
structure Waits (x : Shared π ε τ) (k : ℕ) (c : Computation π ε τ) (pc : Pc π ε τ) : Prop where
  early : c.outcome.isOpen ttl = true → pc.Early c.since
  later : ∀ p finished kept, c.outcome = .done p finished kept →
    ∀ r, pc = .returned r → finished ≤ r.returnedAt
  current : ∀ p finished, c.outcome = .done p finished true → pc.ended = false →
    x.cached = some (p, k) ∨ ttl ≤ x.clock - finished
  spared : ∀ p finished, c.outcome = .done p finished true → pc.computes = true →
    ttl ≤ x.clock - finished
  taken : ∀ p finished, c.outcome = .done p finished true → ∀ r, pc = .returned r →
    r.returnedAt - finished < ttl → r.cached = true ∧ r.computation = k ∧ r.payload = p

/-- What a thread has. -/
structure ThreadOk (x : Shared π ε τ) (i : ℕ) (t : Call π ε τ) : Prop where
  pc : PcOk ttl x i t.pc
  arrived : ∀ k, t.arrived = some k →
    ∃ c, x.computations[k]? = some c ∧ Waits ttl x k c t.pc

/-- What holds in the runs that meet the conditions. -/
structure Inv (s : Calls π ε τ) : Prop where
  thread : ∀ i, ThreadOk ttl s.shared i (s.own i)
  cached : ∀ p k, s.shared.cached = some (p, k) → 0 < ttl ∧ ∃ c finished,
    s.shared.computations[k]? = some c ∧ c.outcome = .done p finished true ∧
      (s.shared.cachedAt = finished ∨ ∃ i, (s.own i).pc.StampsOn k)
  works : ∀ (k : ℕ) (c : Computation π ε τ),
    s.shared.computations[k]? = some c → c.outcome.isOpen ttl = true →
    ∃ i, (s.own i).pc.WorksOn k
  finished : ∀ (k : ℕ) (c : Computation π ε τ) p finished kept,
    s.shared.computations[k]? = some c → c.outcome = .done p finished kept →
    finished ≤ s.shared.clock

variable {ttl} {s : Calls π ε τ} {x x' : Shared π ε τ} {i j k : ℕ} {pc : Pc π ε τ}

/-! ### Threads without the lock -/

/-- The thread has the lock. -/
def Pc.holds : Pc π ε τ → Bool
  | .locked | .retestCached _ | .retestAge _ | .recopy _ => true
  | .computing _ | .dropping _ _ | .droppingAge _ _ => true
  | .counting _ _ | .storing _ _ | .stamping _ _ | .storingAge _ _ _ => true
  | .clearing | .clearingAge => true
  | _ => false

lemma PcOk.lock (h : PcOk ttl x i pc) (hpc : pc.holds = true) : x.lock = some i := by
  cases pc <;> first
    | exact absurd hpc Bool.false_ne_true
    | exact h
    | exact h.1
    | exact h.1.1
    | exact h.2.1

omit [LinearOrder τ] [AddCommGroup τ] in
lemma Pc.holds_of_stampsOn (h : pc.StampsOn k) : pc.holds = true := by
  cases pc <;> first
    | exact h.elim
    | rfl

lemma PcOk.stamps (h : PcOk ttl x i pc) (hk : pc.StampsOn k) : ∃ p, x.Stamps i k p := by
  cases pc <;> first
    | exact hk.elim
    | subst hk
  · exact ⟨_, h⟩
  · exact ⟨_, h.1⟩

lemma PcOk.runs (h : PcOk ttl x i pc) (hk : pc.WorksOn k) : ∃ outcome, x.Runs ttl i k outcome := by
  cases pc <;> first
    | exact hk.elim
    | subst hk
  · exact ⟨_, h⟩
  · exact ⟨_, h⟩
  · exact ⟨_, h.2⟩

/-- The lock is given away or taken, and the queries are counted. -/
lemma PcOk.relock {l : Option ℕ} {q : ℕ} (h : PcOk ttl x i pc) (hl : x.lock = some i → l = some i) :
    PcOk ttl { x with lock := l, queries := q } i pc := by
  cases pc <;> first
    | exact h
    | exact hl h
    | exact ⟨hl h.1, h.2⟩
    | exact ⟨⟨hl h.1.1, h.1.2⟩, h.2⟩
    | exact ⟨h.1, hl h.2.1, h.2.2⟩

/-- A call that waits needs only what is cached and the clock. -/
lemma Waits.congr {c : Computation π ε τ} (h : Waits ttl x k c pc) (hcached : x'.cached = x.cached)
    (hclock : x'.clock = x.clock) : Waits ttl x' k c pc where
  early := h.early
  later := h.later
  current := by
    rw [hcached, hclock]
    exact h.current
  spared := by
    rw [hclock]
    exact h.spared
  taken := h.taken

/-- Two threads do not have the lock. -/
lemma Inv.holds_unique (h : Inv ttl s) (hi : (s.own i).pc.holds = true)
    (hj : (s.own j).pc.holds = true) : i = j :=
  Option.some.inj (((h.thread i).pc.lock hi).symm.trans ((h.thread j).pc.lock hj))

/-- A thread moves, and of what is shared only the lock and the counter change. -/
lemma Inv.stay {l : Option ℕ} {q : ℕ} {t : Call π ε τ} (h : Inv ttl s)
    (hl : ∀ j, j ≠ i → s.shared.lock = some j → l = some j)
    (ht : ThreadOk ttl { s.shared with lock := l, queries := q } i t)
    (hstamps : ∀ k, (s.own i).pc.StampsOn k → t.pc.StampsOn k)
    (hworks : ∀ (k : ℕ) (c : Computation π ε τ), s.shared.computations[k]? = some c →
      c.outcome.isOpen ttl = true → (s.own i).pc.WorksOn k → t.pc.WorksOn k) :
    Inv ttl (s.move i { s.shared with lock := l, queries := q } t) where
  thread := Threads.forall_move h.thread ht fun j hj hthread =>
    ⟨hthread.pc.relock (hl j hj), fun k hk => by
      obtain ⟨c, hc, hwaits⟩ := hthread.arrived k hk
      exact ⟨c, hc, hwaits.congr rfl rfl⟩⟩
  cached p k hcached := by
    obtain ⟨hpos, c, finished, hc, hout, hat⟩ := h.cached p k hcached
    exact ⟨hpos, c, finished, hc, hout, hat.imp id fun hex =>
      Threads.exists_move (P := fun _ (t : Call π ε τ) => t.pc.StampsOn k) hex (hstamps k)⟩
  works k c hc hopen := Threads.exists_move (P := fun _ (t : Call π ε τ) => t.pc.WorksOn k)
    (h.works k c hc hopen) (hworks k c hc hopen)
  finished := h.finished

/-- A call that waits goes on. -/
lemma Waits.step {c : Computation π ε τ} {pc' : Pc π ε τ} (h : Waits ttl x k c pc)
    (hended : pc.ended = false) (hended' : pc'.ended = false)
    (hearly : c.outcome.isOpen ttl = true → pc.Early c.since → pc'.Early c.since)
    (hcomputes : ∀ p finished, c.outcome = .done p finished true → pc'.computes = true →
      pc.computes = true ∨ ttl ≤ x.clock - finished) : Waits ttl x k c pc' where
  early hopen := hearly hopen (h.early hopen)
  later := by
    rintro p finished kept - r rfl
    exact absurd hended'.symm Bool.false_ne_true
  current p finished hout _ := h.current p finished hout hended
  spared p finished hout hpc :=
    (hcomputes p finished hout hpc).elim (h.spared p finished hout) id
  taken := by
    rintro p finished - r rfl
    exact absurd hended'.symm Bool.false_ne_true

/-- A call that waits raises. -/
lemma Waits.raise {c : Computation π ε τ} {exc : Raised ε} (h : Waits ttl x k c pc)
    (hearly : ¬ pc.Early c.since) : Waits ttl x k c (.raised exc) where
  early hopen := absurd (h.early hopen) hearly
  later := nofun
  current := nofun
  spared := nofun
  taken := nofun

/-- A call that waits returns what is cached, or what it computed. -/
lemma Waits.answer {c : Computation π ε τ} {r : Answer π τ} (h : Waits ttl x k c pc)
    (hearly : ¬ pc.Early c.since) (hended : pc.ended = false) (hr : r.returnedAt = x.clock)
    (hfinished : ∀ p finished kept, c.outcome = .done p finished kept → finished ≤ x.clock)
    (hok : x.cached = some (r.payload, r.computation) ∧ r.cached = true ∨ pc.computes = true) :
    Waits ttl x k c (.returned r) where
  early hopen := absurd (h.early hopen) hearly
  later := by
    rintro p finished kept hout _ ⟨⟩
    rw [hr]
    exact hfinished p finished kept hout
  current := nofun
  spared := nofun
  taken := by
    rintro p finished hout _ ⟨⟩ hlt
    rw [hr] at hlt
    rcases hok with ⟨hcached, hwas⟩ | hcomputes
    · rcases h.current p finished hout hended with heq | hle
      · obtain ⟨hp, hk⟩ := Prod.mk.inj (Option.some.inj (hcached.symm.trans heq))
        exact ⟨hwas, hk, hp⟩
      · exact absurd hlt (not_lt.2 hle)
    · exact absurd hlt (not_lt.2 (h.spared p finished hout hcomputes))

/-- A computation whose payload is not cached yet found the cache cold, and its thread has the
lock. -/
lemma Inv.cold_of_open (h : Inv ttl s) {c : Computation π ε τ}
    (hc : s.shared.computations[k]? = some c) (hopen : c.outcome.isOpen ttl = true) :
    (∃ i, s.shared.lock = some i ∧ (s.own i).pc.WorksOn k) ∧ s.shared.Cold ttl c.since := by
  obtain ⟨i, hi⟩ := h.works k c hc hopen
  obtain ⟨outcome, hlock, d, hd, -, -, -, hcold⟩ := (h.thread i).pc.runs hi
  obtain rfl := Option.some.inj (hc.symm.trans hd)
  exact ⟨⟨i, hlock, hi⟩, hcold⟩

/-! ### Steps that leave the cache alone -/

/-- A thread goes on, and of what is shared only the lock and the counter change. -/
lemma Inv.go_stay {l : Option ℕ} {q : ℕ} {pc' : Pc π ε τ} (h : Inv ttl s)
    (hl : ∀ j, j ≠ i → s.shared.lock = some j → l = some j)
    (hpc : PcOk ttl { s.shared with lock := l, queries := q } i pc')
    (hwaits : ∀ (k : ℕ) (c : Computation π ε τ), s.shared.computations[k]? = some c →
      Waits ttl s.shared k c (s.own i).pc → Waits ttl s.shared k c pc')
    (hstamps : ∀ k, (s.own i).pc.StampsOn k → pc'.StampsOn k)
    (hworks : ∀ (k : ℕ) (c : Computation π ε τ), s.shared.computations[k]? = some c →
      c.outcome.isOpen ttl = true → (s.own i).pc.WorksOn k → pc'.WorksOn k) :
    Inv ttl (go s i { s.shared with lock := l, queries := q } pc') := by
  refine h.stay hl ⟨hpc, fun k hk => ?_⟩ hstamps hworks
  obtain ⟨c, hc, hw⟩ := (h.thread i).arrived k hk
  exact ⟨c, hc, (hwaits k c hc hw).congr rfl rfl⟩

lemma inv_testCached {now : τ} (h : Inv ttl s) (hpc : (s.own i).pc = .testCached now) :
    Inv ttl (go s i s.shared (if s.shared.cached.isSome then .testAge now else .waiting)) := by
  have hok := (h.thread i).pc
  rw [hpc] at hok
  refine h.go_stay (l := s.shared.lock) (q := s.shared.queries) (fun _ _ => id) ?_
    (fun k c hc hw => ?_) ?_ ?_
  · split_ifs with hcached
    · exact ⟨hok.1, hok.2, hcached⟩
    · trivial
  · rw [hpc] at hw
    split_ifs
    · exact hw.step rfl rfl (fun _ => id) nofun
    · exact hw.step rfl rfl (fun _ _ => trivial) nofun
  · rw [hpc]
    exact fun _ => False.elim
  · rw [hpc]
    exact fun _ _ _ _ => False.elim

/-- A call returns what is cached, which is fresh for the reading of its clock. -/
lemma Shared.answered {now : τ} {p : π} (hfresh : x.Fresh ttl now)
    (hcached : x.cached = some (p, k)) : x.Answered ttl i ⟨p, true, k, now, x.clock⟩ := by
  obtain ⟨c, finished, hc, hout, hlt⟩ := hfresh.2 p k hcached
  exact ⟨le_rfl, c, finished, ⟨hc, true, hout⟩, hlt⟩

lemma inv_copy {now : τ} {p : π} (h : Inv ttl s) (hpc : (s.own i).pc = .copy now)
    (hcached : s.shared.cached = some (p, k)) :
    Inv ttl (go s i s.shared (.returned ⟨p, true, k, now, s.shared.clock⟩)) := by
  have hok := (h.thread i).pc
  rw [hpc] at hok
  refine h.go_stay (l := s.shared.lock) (q := s.shared.queries) (fun _ _ => id)
    (Shared.answered hok.2 hcached) (fun l c hc hw => ?_) ?_ ?_
  · rw [hpc] at hw
    exact hw.answer id rfl rfl (fun p finished kept => h.finished l c p finished kept hc)
      (.inl ⟨hcached, rfl⟩)
  · rw [hpc]
    exact fun _ => False.elim
  · rw [hpc]
    exact fun _ _ _ _ => False.elim

/-- Where the lock is free, no result is still to be put into the cache. -/
lemma Inv.isOpen_of_free (h : Inv ttl s) (hlock : s.shared.lock = none) {c : Computation π ε τ}
    (hc : s.shared.computations[k]? = some c) : c.outcome.isOpen ttl = false := by
  by_contra hopen
  obtain ⟨⟨i, hi, -⟩, -⟩ := h.cold_of_open hc (Bool.not_eq_false _ ▸ hopen)
  rw [hlock] at hi
  cases hi

lemma inv_waiting (h : Inv ttl s) (hpc : (s.own i).pc = .waiting)
    (hlock : s.shared.lock = none) :
    Inv ttl (go s i { s.shared with lock := some i } .locked) := by
  refine h.go_stay (q := s.shared.queries) (fun j _ hj => ?_) rfl (fun k c hc hw => ?_) ?_ ?_
  · rw [hlock] at hj
    cases hj
  · rw [hpc] at hw
    refine hw.step rfl rfl (fun hopen _ => ?_) nofun
    exact absurd ((h.isOpen_of_free hlock hc).symm.trans hopen) Bool.false_ne_true
  · rw [hpc]
    exact fun _ => False.elim
  · rw [hpc]
    exact fun _ _ _ _ => False.elim

lemma inv_clearWaiting (h : Inv ttl s) (hpc : (s.own i).pc = .clearWaiting)
    (hlock : s.shared.lock = none) :
    Inv ttl (go s i { s.shared with lock := some i } .clearing) := by
  refine h.go_stay (q := s.shared.queries) (fun j _ hj => ?_) rfl (fun k c hc hw => ?_) ?_ ?_
  · rw [hlock] at hj
    cases hj
  · rw [hpc] at hw
    refine hw.step rfl rfl (fun hopen _ => ?_) nofun
    exact absurd ((h.isOpen_of_free hlock hc).symm.trans hopen) Bool.false_ne_true
  · rw [hpc]
    exact fun _ => False.elim
  · rw [hpc]
    exact fun _ _ _ _ => False.elim

/-- The call has the lock, and looks whether what is cached is fresh. -/
def Pc.probes : Pc π ε τ → Bool
  | .locked | .retestCached _ | .retestAge _ | .recopy _ => true
  | _ => false

omit [AddCommGroup τ] in
lemma Pc.of_probes (h : pc.probes = true) : pc.ended = false ∧ pc.computes = false ∧
    pc.holds = true ∧ (∀ b, ¬ pc.Early b) ∧ (∀ k, ¬ pc.StampsOn k) ∧ ∀ k, ¬ pc.WorksOn k := by
  cases pc <;> first
    | exact absurd h Bool.false_ne_true
    | exact ⟨rfl, rfl, rfl, fun _ => id, fun _ => id, fun _ => id⟩

/-- The call that has the lock looks on. -/
lemma inv_probe {pc' : Pc π ε τ} (h : Inv ttl s) (hpc : (s.own i).pc.probes = true)
    (hpc' : pc'.probes = true) (hok : PcOk ttl s.shared i pc') : Inv ttl (go s i s.shared pc') := by
  obtain ⟨hended, -, -, hearly, hstamps, hworks⟩ := Pc.of_probes hpc
  obtain ⟨hended', hcomputes', -, -, -, -⟩ := Pc.of_probes hpc'
  refine h.go_stay (l := s.shared.lock) (q := s.shared.queries) (fun _ _ => id) hok
    (fun k c hc hw => ?_) (fun k hk => absurd hk (hstamps k))
    fun k _ _ _ hk => absurd hk (hworks k)
  refine hw.step hended hended' (fun _ he => absurd he (hearly _)) fun _ _ _ hc => ?_
  exact absurd (hcomputes'.symm.trans hc) Bool.false_ne_true

lemma inv_recopy {now : τ} {p : π} (h : Inv ttl s) (hpc : (s.own i).pc = .recopy now)
    (hcached : s.shared.cached = some (p, k)) :
    Inv ttl (go s i { s.shared with lock := none }
      (.returned ⟨p, true, k, now, s.shared.clock⟩)) := by
  have hok := (h.thread i).pc
  rw [hpc] at hok
  obtain ⟨hlock, -, hfresh⟩ := hok
  refine h.go_stay (q := s.shared.queries) (fun j hj hlock' => ?_)
    (Shared.answered (x := s.shared) hfresh hcached) (fun l c hc hw => ?_) ?_ ?_
  · exact absurd (Option.some.inj (hlock'.symm.trans hlock)) hj
  · rw [hpc] at hw
    exact hw.answer id rfl rfl (fun p finished kept => h.finished l c p finished kept hc)
      (.inl ⟨hcached, rfl⟩)
  · rw [hpc]
    exact fun _ => False.elim
  · rw [hpc]
    exact fun _ _ _ _ => False.elim

lemma inv_stamping {p : π} (h : Inv ttl s) (hpc : (s.own i).pc = .stamping k p) :
    Inv ttl (go s i s.shared (.storingAge k p s.shared.clock)) := by
  have hok := (h.thread i).pc
  rw [hpc] at hok
  refine h.go_stay (l := s.shared.lock) (q := s.shared.queries) (fun _ _ => id) ⟨hok, rfl⟩
    (fun l c hc hw => ?_) ?_ ?_
  · rw [hpc] at hw
    exact hw.step rfl rfl (fun _ => False.elim) fun _ _ _ _ => .inl rfl
  · rw [hpc]
    exact fun _ => id
  · rw [hpc]
    exact fun _ _ _ _ => False.elim

lemma inv_counting {p : π} (h : Inv ttl s) (hpc : (s.own i).pc = .counting k p)
    (hpos : 0 < ttl) :
    Inv ttl (go s i { s.shared with queries := s.shared.queries + 1 } (.storing k p)) := by
  have hok := (h.thread i).pc
  rw [hpc] at hok
  refine h.go_stay (l := s.shared.lock) (fun _ _ => id) ⟨hpos, hok⟩
    (fun l c hc hw => ?_) ?_ ?_
  · rw [hpc] at hw
    exact hw.step rfl rfl (fun _ => False.elim) fun _ _ _ _ => .inl rfl
  · rw [hpc]
    exact fun _ => False.elim
  · rw [hpc]
    exact fun _ _ _ _ => id

/-- A call returns what it computed. -/
lemma Shared.Runs.answered {c : Computation π ε τ} {p : π} {kept : Bool}
    (hc : x.computations[k]? = some c) (hcaller : c.caller = i)
    (hout : c.outcome = .done p x.clock kept) (hsince : c.since ≤ x.clock) :
    x.Answered ttl i ⟨p, false, k, c.since, x.clock⟩ :=
  ⟨le_rfl, c, x.clock, ⟨hc, kept, hout⟩, hcaller, hsince⟩

/-- Without a positive `ttl` nothing is cached. -/
lemma inv_uncached {p : π} {c : Computation π ε τ} (h : Inv ttl s)
    (hpc : (s.own i).pc = .counting k p) (hpos : ¬ 0 < ttl)
    (hc : s.shared.computations[k]? = some c) :
    Inv ttl (go s i { s.shared with queries := s.shared.queries + 1, lock := none }
      (.returned ⟨p, false, k, c.since, s.shared.clock⟩)) := by
  have hok := (h.thread i).pc
  rw [hpc] at hok
  obtain ⟨hlock, d, hd, hcaller, hout, hsince, -⟩ := hok
  obtain rfl := Option.some.inj (hc.symm.trans hd)
  refine h.go_stay (fun j hj hlock' => ?_) (Shared.Runs.answered hc hcaller hout hsince)
    (fun l d hd hw => ?_) ?_ ?_
  · exact absurd (Option.some.inj (hlock'.symm.trans hlock)) hj
  · rw [hpc] at hw
    exact hw.answer id rfl rfl (fun p finished kept => h.finished l d p finished kept hd)
      (.inr rfl)
  · rw [hpc]
    exact fun _ => False.elim
  · intro l d hd hopen hl
    rw [hpc] at hl
    obtain rfl : k = l := hl
    obtain rfl := Option.some.inj (hc.symm.trans hd)
    rw [hout] at hopen
    exact absurd (of_decide_eq_true hopen) hpos

/-! ### Steps of the thread that has the lock -/

/-- What the thread that has the lock does not change: the clock, and the outcome of a computation
that has one, but for the payload that is put into the cache. -/
structure Shared.Keeps (x x' : Shared π ε τ) : Prop where
  clock : x'.clock = x.clock
  found : ∀ (k : ℕ) (c : Computation π ε τ), x.computations[k]? = some c →
    c.outcome.isRunning = false → ∃ c', x'.computations[k]? = some c' ∧ c'.caller = c.caller ∧
      (c'.outcome = c.outcome ∨ c'.outcome = c.outcome.keep)

omit [LinearOrder τ] [AddCommGroup τ] in
lemma Shared.Keeps.gave {c : Computation π ε τ} {p : π} {finished : τ} (h : x.Keeps x')
    (hc : x.Gave k c p finished) : ∃ c', x'.Gave k c' p finished ∧ c'.caller = c.caller := by
  obtain ⟨hget, kept, hout⟩ := hc
  obtain ⟨c', hget', hcaller, hout' | hout'⟩ := h.found k c hget (by rw [hout]; rfl)
  · exact ⟨c', ⟨hget', kept, hout'.trans hout⟩, hcaller⟩
  · exact ⟨c', ⟨hget', true, by rw [hout', hout, Outcome.keep]⟩, hcaller⟩

/-- A thread without the lock needs no more than this of what is shared. -/
lemma PcOk.other (h : PcOk ttl x j pc) (hnot : pc.holds = false) (hkeeps : x.Keeps x')
    (hcached : pc.between = true → x'.cached.isSome = true)
    (hfresh : ∀ now, pc = .copy now → x.Fresh ttl now → now ≤ x.clock → x'.Fresh ttl now) :
    PcOk ttl x' j pc := by
  cases pc <;> first
    | exact absurd hnot.symm Bool.false_ne_true
    | trivial
    | skip
  case testCached now => exact ⟨h.1, hkeeps.clock ▸ h.2⟩
  case testAge now => exact ⟨h.1, hkeeps.clock ▸ h.2.1, hcached rfl⟩
  case copy now => exact ⟨hkeeps.clock ▸ h.1, hfresh now rfl h.2 h.1⟩
  case returned r =>
    obtain ⟨hr, c, finished, hgave, hcase⟩ := h
    obtain ⟨c', hgave', hcaller⟩ := hkeeps.gave hgave
    refine ⟨hkeeps.clock ▸ hr, c', finished, hgave', ?_⟩
    rwa [hcaller]
  case raised exc =>
    obtain ⟨k, c, e, hexc, hc, hcaller, hout⟩ := h
    obtain ⟨c', hc', hcaller', hout'⟩ := hkeeps.found k c hc (by rw [hout]; rfl)
    refine ⟨k, c', e, hexc, hc', hcaller'.trans hcaller, ?_⟩
    rw [hout] at hout'
    exact hout'.elim id id

/-- The thread that has the lock changes what is shared. -/
lemma Inv.hold {t : Call π ε τ} (h : Inv ttl s) (hholds : (s.own i).pc.holds = true)
    (hkeeps : s.shared.Keeps x')
    (hcached : ∀ j, (s.own j).pc.between = true → x'.cached.isSome = true)
    (hfresh : ∀ now, now ≤ s.shared.clock → s.shared.Fresh ttl now →
      (∃ j, (s.own j).pc = .copy now) → x'.Fresh ttl now)
    (hwaits : ∀ j k c, (s.own j).arrived = some k → s.shared.computations[k]? = some c →
      j ≠ i → Waits ttl s.shared k c (s.own j).pc →
      ∃ c', x'.computations[k]? = some c' ∧ Waits ttl x' k c' (s.own j).pc)
    (ht : ThreadOk ttl x' i t) : ∀ j, ThreadOk ttl x' j ((s.move i x' t).own j) := by
  refine Threads.forall_move h.thread ht fun j hj hthread => ⟨?_, fun k hk => ?_⟩
  · have hnot : (s.own j).pc.holds = false := by
      by_contra hholds'
      exact hj (h.holds_unique (Bool.not_eq_false _ ▸ hholds') hholds)
    exact hthread.pc.other hnot hkeeps (hcached j) fun now hpc hf hnow =>
      hfresh now hnow hf ⟨j, hpc⟩
  · obtain ⟨c, hc, hw⟩ := hthread.arrived k hk
    exact hwaits j k c hk hc hj hw

/-- What is cached stays as fresh as it was. -/
lemma Shared.Fresh.keeps {now : τ} (h : x.Fresh ttl now) (hkeeps : x.Keeps x')
    (hcached : x'.cached = x.cached) : x'.Fresh ttl now := by
  refine ⟨hcached ▸ h.1, fun p k hpk => ?_⟩
  obtain ⟨c, finished, hc, hout, hlt⟩ := h.2 p k (hcached ▸ hpk)
  obtain ⟨c', hc', -, hout'⟩ := hkeeps.found k c hc (by rw [hout]; rfl)
  refine ⟨c', finished, hc', ?_, hlt⟩
  rw [hout] at hout'
  exact hout'.elim id id

lemma PcOk.isSome (h : PcOk ttl x j pc) (hpc : pc.between = true) : x.cached.isSome = true := by
  cases pc <;> first
    | exact absurd hpc Bool.false_ne_true
    | exact h.2.2
    | exact h.2.1

lemma getElem?_concat_some {α : Type*} {l : List α} {a b : α} :
    (l ++ [a])[k]? = some b ↔ l[k]? = some b ∨ k = l.length ∧ a = b := by
  rcases Nat.lt_trichotomy k l.length with hk | rfl | hk
  · rw [List.getElem?_append_left hk]
    exact ⟨.inl, fun h => h.resolve_right fun h => absurd h.1 hk.ne⟩
  · simp
  · have hnone : l[k]? = none := List.getElem?_eq_none hk.le
    have hnone' : (l ++ [a])[k]? = none :=
      List.getElem?_eq_none (by simpa using Nat.succ_le_of_lt hk)
    rw [hnone, hnone']
    exact ⟨nofun, fun h => h.elim nofun fun h => absurd h.1 hk.ne'⟩

omit [LinearOrder τ] [AddCommGroup τ] in
lemma settle_self {f : Outcome π ε τ → Outcome π ε τ} {c : Computation π ε τ}
    (hc : x.computations[k]? = some c) :
    (x.settle k f).computations[k]? = some { c with outcome := f c.outcome } := by
  rw [Shared.settle, List.getElem?_modify, hc]
  simp

omit [LinearOrder τ] [AddCommGroup τ] in
lemma settle_of_ne {f : Outcome π ε τ → Outcome π ε τ} {l : ℕ} (hl : k ≠ l) :
    (x.settle k f).computations[l]? = x.computations[l]? := by
  rw [Shared.settle, List.getElem?_modify]
  simp [hl]

omit [LinearOrder τ] [AddCommGroup τ] in
/-- Only the outcome of the computation changes. -/
lemma settle_cases {f : Outcome π ε τ → Outcome π ε τ} {c c' : Computation π ε τ} {l : ℕ}
    (hc : x.computations[k]? = some c) (hc' : (x.settle k f).computations[l]? = some c') :
    l = k ∧ c' = { c with outcome := f c.outcome } ∨ k ≠ l ∧ x.computations[l]? = some c' := by
  by_cases hl : k = l
  · subst hl
    exact .inl ⟨rfl, (Option.some.inj ((settle_self hc).symm.trans hc')).symm⟩
  · exact .inr ⟨hl, (settle_of_ne hl).symm.trans hc'⟩

/-- A call waits as before, when the computation that it came to ends. -/
lemma Waits.settled {c : Computation π ε τ} {o : Outcome π ε τ} (h : Waits ttl x k c pc)
    (hopen : c.outcome.isOpen ttl = true) (ho : ∀ p finished, o ≠ .done p finished true) :
    Waits ttl x' k { c with outcome := o } pc where
  early _ := h.early hopen
  later := by
    rintro p finished kept - r rfl
    exact (h.early hopen).elim
  current p finished hout := absurd hout (ho p finished)
  spared p finished hout := absurd hout (ho p finished)
  taken p finished hout := absurd hout (ho p finished)

/-- A call waits for the payload that it came for, when this is put into the cache. -/
lemma Waits.stored {c : Computation π ε τ} {p : π} {finished : τ} (h : Waits ttl x k c pc)
    (hopen : c.outcome.isOpen ttl = true) (hcached : x'.cached = some (p, k)) :
    Waits ttl x' k { c with outcome := .done p finished true } pc where
  early := nofun
  later := by
    rintro _ _ _ - r rfl
    exact (h.early hopen).elim
  current := by
    rintro _ _ ⟨⟩ -
    exact .inl hcached
  spared := by
    rintro _ _ - hcomputes
    have hearly := h.early hopen
    cases pc <;> first
      | exact hearly.elim
      | cases hcomputes
  taken := by
    rintro _ _ - r rfl
    exact (h.early hopen).elim

/-- The computation of a call ends. -/
lemma inv_ends {o : Outcome π ε τ} {pc' : Pc π ε τ} (h : Inv ttl s)
    (hpc : (s.own i).pc = .computing k) (ho : ∀ p finished, o ≠ .done p finished true)
    (hfinished : ∀ p finished kept, o = .done p finished kept → finished ≤ s.shared.clock)
    (hended : pc'.ended = false) (hworks : o.isOpen ttl = true → pc'.WorksOn k)
    (hok : s.shared.Runs ttl i k .running → PcOk ttl (s.shared.settle k fun _ => o) i pc') :
    Inv ttl (go s i (s.shared.settle k fun _ => o) pc') := by
  have hruns := (h.thread i).pc
  rw [hpc] at hruns
  obtain ⟨-, c, hc, -, hout, -⟩ := id hruns
  have hopen : c.outcome.isOpen ttl = true := by
    rw [hout]
    rfl
  have hholds : (s.own i).pc.holds = true := by
    rw [hpc]
    rfl
  -- the other computations are as they were
  have hother : ∀ {l : ℕ} {d : Computation π ε τ}, s.shared.computations[l]? = some d →
      d.outcome.isRunning = false → (s.shared.settle k fun _ => o).computations[l]? = some d := by
    intro l d hd hrunning
    have hne : k ≠ l := by
      rintro rfl
      obtain rfl := Option.some.inj (hc.symm.trans hd)
      rw [hout] at hrunning
      cases hrunning
    exact (settle_of_ne hne).trans hd
  have hkeeps : s.shared.Keeps (s.shared.settle k fun _ => o) :=
    ⟨rfl, fun l d hd hrunning => ⟨d, hother hd hrunning, rfl, .inl rfl⟩⟩
  have hwaits : ∀ {l : ℕ} {d : Computation π ε τ} {pc'' : Pc π ε τ},
      s.shared.computations[l]? = some d → Waits ttl s.shared l d pc'' →
      ∃ d', (s.shared.settle k fun _ => o).computations[l]? = some d' ∧
        Waits ttl (s.shared.settle k fun _ => o) l d' pc'' := by
    intro l d pc'' hd hw
    by_cases hl : k = l
    · subst hl
      obtain rfl := Option.some.inj (hc.symm.trans hd)
      exact ⟨_, settle_self hc, hw.settled hopen ho⟩
    · exact ⟨d, (settle_of_ne hl).trans hd, hw.congr rfl rfl⟩
  refine ⟨h.hold hholds hkeeps (fun j hj => (h.thread j).pc.isSome hj)
    (fun _ _ hf _ => hf.keeps hkeeps rfl) (fun j l d _ hd _ hw => hwaits hd hw)
    ⟨hok hruns, fun l hl => ?_⟩, ?_, ?_, ?_⟩
  · obtain ⟨d, hd, hw⟩ := (h.thread i).arrived l hl
    rw [hpc] at hw
    exact hwaits hd (hw.step rfl hended (fun _ => False.elim) fun _ _ _ _ => .inl rfl)
  · intro p l hpl
    obtain ⟨hpos, d, finished, hd, hout', hat⟩ := h.cached p l hpl
    refine ⟨hpos, d, finished, hother hd (by rw [hout']; rfl), hout', hat.imp id fun hex => ?_⟩
    refine Threads.exists_move (P := fun _ (t : Call π ε τ) => t.pc.StampsOn l) hex ?_
    rw [hpc]
    exact False.elim
  · intro l d hd hopen'
    rcases settle_cases hc hd with ⟨rfl, rfl⟩ | ⟨hne, hd⟩
    · refine ⟨i, ?_⟩
      rw [go, Threads.own_move_self]
      exact hworks hopen'
    · refine Threads.exists_move (P := fun _ (t : Call π ε τ) => t.pc.WorksOn l)
        (h.works l d hd hopen') fun hl => ?_
      rw [hpc] at hl
      exact absurd hl hne
  · intro l d p finished kept hd hout'
    rcases settle_cases hc hd with ⟨rfl, rfl⟩ | ⟨-, hd⟩
    · exact hfinished p finished kept hout'
    · exact h.finished l d p finished kept hd hout'

/-- The thread that has the lock sets the time and gives the lock away. -/
lemma inv_release {a : τ} {pc' : Pc π ε τ} (h : Inv ttl s)
    (hholds : (s.own i).pc.holds = true) (hworks : ∀ k, ¬ (s.own i).pc.WorksOn k)
    (hat : ∀ p k, s.shared.cached = some (p, k) → ∃ (c : Computation π ε τ) (finished : τ),
      s.shared.computations[k]? = some c ∧ c.outcome = .done p finished true ∧ a = finished)
    (hok : PcOk ttl { s.shared with cachedAt := a, lock := none } i pc')
    (hwaits : ∀ (k : ℕ) (c : Computation π ε τ), s.shared.computations[k]? = some c →
      Waits ttl s.shared k c (s.own i).pc → Waits ttl s.shared k c pc') :
    Inv ttl (go s i { s.shared with cachedAt := a, lock := none } pc') := by
  have hkeeps : s.shared.Keeps { s.shared with cachedAt := a, lock := none } :=
    ⟨rfl, fun k c hc _ => ⟨c, hc, rfl, .inl rfl⟩⟩
  refine ⟨h.hold hholds hkeeps (fun j hj => (h.thread j).pc.isSome hj)
    (fun _ _ hf _ => hf.keeps hkeeps rfl) (fun j k c _ hc _ hw => ⟨c, hc, hw.congr rfl rfl⟩)
    ⟨hok, fun k hk => ?_⟩, fun p k hpk => ?_, fun k c hc hopen => ?_, h.finished⟩
  · obtain ⟨c, hc, hw⟩ := (h.thread i).arrived k hk
    exact ⟨c, hc, (hwaits k c hc hw).congr rfl rfl⟩
  · obtain ⟨c, finished, hc, hout, ha⟩ := hat p k hpk
    exact ⟨(h.cached p k hpk).1, c, finished, hc, hout, .inl ha⟩
  · exact Threads.exists_move (P := fun _ (t : Call π ε τ) => t.pc.WorksOn k)
      (h.works k c hc hopen) fun hk => absurd hk (hworks k)

/-- The thread that has the lock empties the cache. -/
lemma inv_empty {pc' : Pc π ε τ} (h : Inv ttl s) (hholds : (s.own i).pc.holds = true)
    (hworks : ∀ k, ¬ (s.own i).pc.WorksOn k)
    (hbetween : ∀ j, (s.own j).pc.between = false)
    (hold : ∀ j k (c : Computation π ε τ) p finished, (s.own j).arrived = some k →
      s.shared.computations[k]? = some c → c.outcome = .done p finished true →
      (s.own j).pc.ended = false → (s.shared.cached = some (p, k) ∨
        ttl ≤ s.shared.clock - finished) → ttl ≤ s.shared.clock - finished)
    (hok : PcOk ttl { s.shared with cached := none } i pc')
    (hended : (s.own i).pc.ended = false) (hended' : pc'.ended = false)
    (hearly : ∀ b, ¬ (s.own i).pc.Early b)
    (hcomputes : pc'.computes = true → (s.own i).pc.computes = true) :
    Inv ttl (go s i { s.shared with cached := none } pc') := by
  have hkeeps : s.shared.Keeps { s.shared with cached := none } :=
    ⟨rfl, fun k c hc _ => ⟨c, hc, rfl, .inl rfl⟩⟩
  have hwaits : ∀ {j k : ℕ} {c : Computation π ε τ}, (s.own j).arrived = some k →
      s.shared.computations[k]? = some c → Waits ttl s.shared k c (s.own j).pc →
      Waits ttl { s.shared with cached := none } k c (s.own j).pc := by
    intro j k c hk hc hw
    refine ⟨hw.early, hw.later, fun p finished hout hnot => .inr ?_, hw.spared, hw.taken⟩
    exact hold j k c p finished hk hc hout hnot (hw.current p finished hout hnot)
  refine ⟨h.hold hholds hkeeps (fun j hj => absurd ((hbetween j).symm.trans hj) Bool.false_ne_true)
    (fun now _ _ hex => ?_) (fun j k c hk hc _ hw => ⟨c, hc, hwaits hk hc hw⟩)
    ⟨hok, fun k hk => ?_⟩, nofun, fun k c hc hopen => ?_, h.finished⟩
  · obtain ⟨j, hj⟩ := hex
    have hnot := hbetween j
    rw [hj] at hnot
    cases hnot
  · obtain ⟨c, hc, hw⟩ := (h.thread i).arrived k hk
    exact ⟨c, hc, (hwaits hk hc hw).step hended hended' (fun _ he => absurd he (hearly _))
      fun _ _ _ hc => .inl (hcomputes hc)⟩
  · exact Threads.exists_move (P := fun _ (t : Call π ε τ) => t.pc.WorksOn k)
      (h.works k c hc hopen) fun hk => absurd hk (hworks k)

/-- Time passes for a thread that has no time to store. -/
lemma PcOk.tick {t : τ} (h : PcOk ttl x j pc) (ht : x.clock ≤ t) (hpc : pc.unstamped = false) :
    PcOk ttl { x with clock := t } j pc := by
  have hruns : ∀ {k : ℕ} {o : Outcome π ε τ}, x.Runs ttl j k o →
      Shared.Runs ttl { x with clock := t } j k o := by
    rintro k o ⟨hlock, c, hc, hcaller, hout, hsince, hcold⟩
    exact ⟨hlock, c, hc, hcaller, hout, hsince.trans ht, hcold⟩
  cases pc <;> first
    | exact absurd hpc.symm Bool.false_ne_true
    | exact h
    | skip
  case testCached now => exact ⟨h.1, h.2.trans ht⟩
  case testAge now => exact ⟨h.1, h.2.1.trans ht, h.2.2⟩
  case copy now => exact ⟨h.1.trans ht, h.2⟩
  case retestCached now => exact ⟨h.1, h.2.1, h.2.2.trans ht⟩
  case retestAge now => exact ⟨h.1, h.2.1, h.2.2.1.trans ht, h.2.2.2⟩
  case recopy now => exact ⟨h.1, h.2.1.trans ht, h.2.2⟩
  case computing k => exact hruns h
  case dropping k e => exact hruns h
  case returned r => exact ⟨h.1.trans ht, h.2⟩

/-! ### Calls that begin, and time that passes -/

omit [LinearOrder τ] [AddCommGroup τ] in
/-- The first computation that is running is found. -/
lemma running_eq_some (h : x.running = some k) :
    ∃ c, x.computations[k]? = some c ∧ c.outcome.isRunning = true := by
  obtain ⟨hk, hrunning, -⟩ := List.findIdx?_eq_some_iff_getElem.1 h
  exact ⟨_, List.getElem?_eq_getElem hk, hrunning⟩

lemma inv_call (h : Inv ttl s) (hpc : (s.own i).pc = .idle) : Inv ttl (s.move i s.shared
    ⟨if 0 < ttl then .testCached s.shared.clock else .waiting, s.shared.running⟩) := by
  refine h.stay (l := s.shared.lock) (q := s.shared.queries) (fun _ _ => id) ⟨?_, fun k hk => ?_⟩
    ?_ ?_
  · split_ifs with hpos
    · exact ⟨hpos, le_rfl⟩
    · trivial
  · obtain ⟨c, hc, hrunning⟩ := running_eq_some hk
    have hout : c.outcome = .running := by
      rcases hout : c.outcome with _ | e | ⟨p, finished, kept⟩
      · rfl
      all_goals
        rw [hout] at hrunning
        cases hrunning
    obtain ⟨j, hj⟩ := h.works k c hc (by rw [hout]; rfl)
    obtain ⟨o, -, d, hd, -, -, hsince, -⟩ := (h.thread j).pc.runs hj
    obtain rfl := Option.some.inj (hc.symm.trans hd)
    refine ⟨c, hc, fun _ => ?_, ?_, ?_, ?_, ?_⟩
    · split_ifs
      · exact hsince
      · trivial
    all_goals
      rw [hout]
      exact nofun
  · rw [hpc]
    exact fun _ => False.elim
  · rw [hpc]
    exact fun _ _ _ _ => False.elim

lemma inv_clear (h : Inv ttl s) (hpc : (s.own i).pc = .idle) :
    Inv ttl (s.move i s.shared ⟨.clearWaiting, none⟩) := by
  refine h.stay (l := s.shared.lock) (q := s.shared.queries) (fun _ _ => id)
    ⟨trivial, nofun⟩ ?_ ?_
  · rw [hpc]
    exact fun _ => False.elim
  · rw [hpc]
    exact fun _ _ _ _ => False.elim

variable [IsOrderedAddMonoid τ]

/-- What is cached is not older than its time says. -/
lemma Inv.fresh (h : Inv ttl s) {now : τ} (hnow : now ≤ s.shared.clock)
    (hcached : s.shared.cached.isSome = true) (hlt : now - s.shared.cachedAt < ttl) :
    s.shared.Fresh ttl now := by
  refine ⟨hcached, fun p k hpk => ?_⟩
  obtain ⟨hpos, c, finished, hc, hout, hat⟩ := h.cached p k hpk
  refine ⟨c, finished, hc, hout, ?_⟩
  rcases hat with rfl | ⟨j, hj⟩
  · exact hlt
  · -- its time is to be stored, and is that of the clock
    obtain ⟨q, -, -, d, hd, -, hout', -⟩ := (h.thread j).pc.stamps hj
    obtain rfl := Option.some.inj (hc.symm.trans hd)
    obtain ⟨-, rfl, -⟩ := Outcome.done.inj (hout.symm.trans hout')
    exact (sub_nonpos.2 hnow).trans_lt hpos

/-- To the thread that has the lock and found the cache cold, everything that is cached is old. -/
lemma Inv.expired (h : Inv ttl s) (hholds : (s.own i).pc.holds = true)
    (hstamps : ∀ k, ¬ (s.own i).pc.StampsOn k) {now : τ} (hcold : s.shared.Cold ttl now)
    (hnow : now ≤ s.shared.clock) {c : Computation π ε τ} {p : π} {finished : τ}
    (hc : s.shared.computations[k]? = some c) (hout : c.outcome = .done p finished true)
    (hcurrent : s.shared.cached = some (p, k) ∨ ttl ≤ s.shared.clock - finished) :
    ttl ≤ s.shared.clock - finished := by
  rcases hcurrent with hcached | hle
  · obtain ⟨hpos, d, finished', hd, hout', hat⟩ := h.cached p k hcached
    obtain rfl := Option.some.inj (hc.symm.trans hd)
    obtain ⟨-, rfl, -⟩ := Outcome.done.inj (hout.symm.trans hout')
    rcases hcold with hle | hnone | hle
    · exact absurd hpos (not_lt.2 hle)
    · rw [hnone] at hcached
      cases hcached
    · rcases hat with rfl | ⟨j, hj⟩
      · exact hle.trans (sub_le_sub_right hnow _)
      · obtain rfl := h.holds_unique hholds (Pc.holds_of_stampsOn hj)
        exact absurd hj (hstamps k)
  · exact hle

lemma inv_testAge {now : τ} (h : Inv ttl s) (hpc : (s.own i).pc = .testAge now) :
    Inv ttl (go s i s.shared
      (if now - s.shared.cachedAt < ttl then .copy now else .waiting)) := by
  have hok := (h.thread i).pc
  rw [hpc] at hok
  obtain ⟨hpos, hnow, hcached⟩ := hok
  refine h.go_stay (l := s.shared.lock) (q := s.shared.queries) (fun _ _ => id) ?_
    (fun k c hc hw => ?_) ?_ ?_
  · split_ifs with hlt
    · exact ⟨hnow, h.fresh hnow hcached hlt⟩
    · trivial
  · rw [hpc] at hw
    split_ifs with hlt
    · refine hw.step rfl rfl (fun hopen hearly => ?_) nofun
      -- a computation that is running found the cache cold, before this call came
      rcases (h.cold_of_open hc hopen).2 with hle | hnone | hle
      · exact absurd hpos (not_lt.2 hle)
      · rw [hnone] at hcached
        cases hcached
      · exact absurd hlt (not_lt.2 (hle.trans (sub_le_sub_right hearly _)))
    · exact hw.step rfl rfl (fun _ _ => trivial) nofun
  · rw [hpc]
    exact fun _ => False.elim
  · rw [hpc]
    exact fun _ _ _ _ => False.elim

lemma inv_compute {now : τ} (h : Inv ttl s) (hpc : (s.own i).pc.probes = true)
    (hnow : now ≤ s.shared.clock) (hcold : s.shared.Cold ttl now) : Inv ttl (compute s i now) := by
  obtain ⟨hended, -, hholds, hearly, hstamps, hworks⟩ := Pc.of_probes hpc
  have hlock := (h.thread i).pc.lock hholds
  have hold : ∀ {k : ℕ} {c : Computation π ε τ}, s.shared.computations[k]? = some c →
      (s.shared.computations ++ [⟨i, now, .running⟩])[k]? = some c :=
    fun hc => getElem?_concat_some.2 (.inl hc)
  have hkeeps : s.shared.Keeps
      { s.shared with computations := s.shared.computations ++ [⟨i, now, .running⟩] } :=
    ⟨rfl, fun k c hc _ => ⟨c, hold hc, rfl, .inl rfl⟩⟩
  refine ⟨h.hold hholds hkeeps (fun j hj => (h.thread j).pc.isSome hj)
    (fun _ _ hf _ => hf.keeps hkeeps rfl)
    (fun j k c hk hc _ hw => ⟨c, hold hc, hw.congr rfl rfl⟩) ⟨?_, fun k hk => ?_⟩, ?_, ?_, ?_⟩
  · exact ⟨hlock, _, getElem?_concat_some.2 (.inr ⟨rfl, rfl⟩), rfl, rfl, hnow, hcold⟩
  · obtain ⟨c, hc, hw⟩ := (h.thread i).arrived k hk
    refine ⟨c, hold hc, (hw.step hended rfl (fun _ he => absurd he (hearly _))
      fun p finished hout _ => .inr ?_).congr rfl rfl⟩
    exact h.expired hholds hstamps hcold hnow hc hout (hw.current p finished hout hended)
  · intro p k hpk
    obtain ⟨hpos, c, finished, hc, hout, hat⟩ := h.cached p k hpk
    exact ⟨hpos, c, finished, hold hc, hout, hat.imp id fun hex => Threads.exists_move
      (P := fun _ (t : Call π ε τ) => t.pc.StampsOn k) hex fun hk => absurd hk (hstamps k)⟩
  · intro k c hc hopen
    rcases getElem?_concat_some.1 hc with hc | ⟨rfl, rfl⟩
    · exact Threads.exists_move (P := fun _ (t : Call π ε τ) => t.pc.WorksOn k)
        (h.works k c hc hopen) fun hk => absurd hk (hworks k)
    · refine ⟨i, ?_⟩
      rw [compute, go, Threads.own_move_self]
      rfl
  · intro k c p finished kept hc hout
    rcases getElem?_concat_some.1 hc with hc | ⟨rfl, rfl⟩
    · exact h.finished k c p finished kept hc hout
    · cases hout

/-- A computation that failed empties the cache, where everything was old. -/
lemma inv_dropping {e : ε} (h : Inv ttl s) (hpc : (s.own i).pc = .dropping k e)
    (hbetween : ∀ j, (s.own j).pc.between = false) :
    Inv ttl (go s i { s.shared with cached := none } (.droppingAge k e)) := by
  have hok := (h.thread i).pc
  rw [hpc] at hok
  obtain ⟨hlock, c, hc, hcaller, hout, hsince, hcold⟩ := hok
  refine inv_empty h ?_ ?_ hbetween (fun j l d p finished _ hd hout' _ hcurrent => ?_)
    ⟨hlock, rfl, c, hc, hcaller, hout⟩ ?_ rfl ?_ ?_
  · rw [hpc]
    rfl
  · rw [hpc]
    exact fun _ => id
  · refine h.expired (i := i) ?_ ?_ hcold hsince hd hout' hcurrent <;> rw [hpc]
    · rfl
    · exact fun _ => id
  all_goals rw [hpc]
  · rfl
  · exact fun _ => id
  · exact fun _ => rfl

/-- The payload of a computation is put into the cache, where everything was old. -/
lemma inv_storing {p : π} (h : Inv ttl s) (hpc : (s.own i).pc = .storing k p) :
    Inv ttl (go s i ({ s.shared with cached := some (p, k) }.settle k Outcome.keep)
      (.stamping k p)) := by
  have hok := (h.thread i).pc
  rw [hpc] at hok
  obtain ⟨hpos, hlock, c, hc, hcaller, hout, hsince, hcold⟩ := hok
  have hholds : (s.own i).pc.holds = true := by
    rw [hpc]
    rfl
  have hstamps : ∀ k, ¬ (s.own i).pc.StampsOn k := by
    rw [hpc]
    exact fun _ => id
  have hopen : c.outcome.isOpen ttl = true := by
    rw [hout]
    exact decide_eq_true hpos
  set x' := { s.shared with cached := some (p, k) }.settle k Outcome.keep with hx'
  have hself : x'.computations[k]? = some { c with outcome := .done p s.shared.clock true } := by
    rw [hx', settle_self (x := { s.shared with cached := some (p, k) }) hc, hout]
    rfl
  have hne : ∀ {l : ℕ}, k ≠ l → x'.computations[l]? = s.shared.computations[l]? :=
    fun hl => settle_of_ne (x := { s.shared with cached := some (p, k) }) hl
  have hkeeps : s.shared.Keeps x' := by
    refine ⟨rfl, fun l d hd _ => ?_⟩
    by_cases hl : k = l
    · subst hl
      obtain rfl := Option.some.inj (hc.symm.trans hd)
      exact ⟨_, hself, rfl, .inr (by rw [hout]; rfl)⟩
    · exact ⟨d, (hne hl).trans hd, rfl, .inl rfl⟩
  have hwaits : ∀ {l : ℕ} {d : Computation π ε τ} {pc'' : Pc π ε τ},
      s.shared.computations[l]? = some d → Waits ttl s.shared l d pc'' →
      ∃ d', x'.computations[l]? = some d' ∧ Waits ttl x' l d' pc'' := by
    intro l d pc'' hd hw
    by_cases hl : k = l
    · subst hl
      obtain rfl := Option.some.inj (hc.symm.trans hd)
      exact ⟨_, hself, hw.stored hopen rfl⟩
    · refine ⟨d, (hne hl).trans hd, hw.early, hw.later, fun q finished hout' hended => .inr ?_,
        hw.spared, hw.taken⟩
      exact h.expired hholds hstamps hcold hsince hd hout' (hw.current q finished hout' hended)
  refine ⟨h.hold hholds hkeeps (fun _ _ => rfl) (fun now hnow _ _ => ⟨rfl, fun q l hql => ?_⟩)
    (fun j l d _ hd _ hw => hwaits hd hw) ⟨?_, fun l hl => ?_⟩, fun q l hql => ?_,
    fun l d hd hopen' => ?_, fun l d q finished kept hd hout' => ?_⟩
  · obtain ⟨rfl, rfl⟩ := Prod.mk.inj (Option.some.inj hql)
    exact ⟨_, _, hself, rfl, (sub_nonpos.2 hnow).trans_lt hpos⟩
  · exact ⟨hlock, rfl, _, hself, hcaller, rfl, hsince⟩
  · obtain ⟨d, hd, hw⟩ := (h.thread i).arrived l hl
    rw [hpc] at hw
    exact hwaits hd (hw.step rfl rfl (fun _ => False.elim) fun _ _ _ _ => .inl rfl)
  · obtain ⟨rfl, rfl⟩ := Prod.mk.inj (Option.some.inj hql)
    refine ⟨hpos, _, _, hself, rfl, .inr ⟨i, ?_⟩⟩
    rw [go, Threads.own_move_self]
    rfl
  · by_cases hl : k = l
    · subst hl
      obtain rfl := Option.some.inj (hself.symm.trans hd)
      cases hopen'
    · refine Threads.exists_move (P := fun _ (t : Call π ε τ) => t.pc.WorksOn l)
        (h.works l d ((hne hl).symm.trans hd) hopen') fun hi => ?_
      rw [hpc] at hi
      exact absurd hi hl
  · by_cases hl : k = l
    · subst hl
      obtain rfl := Option.some.inj (hself.symm.trans hd)
      obtain ⟨-, rfl, -⟩ := Outcome.done.inj hout'
      exact le_rfl
    · exact h.finished l d q finished kept ((hne hl).symm.trans hd) hout'

/-- The clock goes on, when no computation has ended whose time is to be stored. -/
lemma inv_tick {t : τ} (h : Inv ttl s) (ht : s.shared.clock ≤ t)
    (hstamped : ∀ j, (s.own j).pc.unstamped = false) :
    Inv ttl { s with shared := { s.shared with clock := t } } := by
  refine ⟨fun j => ⟨?_, fun k hk => ?_⟩, h.cached, h.works, fun k c p finished kept hc hout =>
    (h.finished k c p finished kept hc hout).trans ht⟩
  · exact (h.thread j).pc.tick ht (hstamped j)
  · obtain ⟨c, hc, hw⟩ := (h.thread j).arrived k hk
    refine ⟨c, hc, hw.early, hw.later, fun p finished hout hended => ?_,
      fun p finished hout hcomputes => ?_, hw.taken⟩
    · exact (hw.current p finished hout hended).imp id fun hle =>
        hle.trans (sub_le_sub_right ht _)
    · exact (hw.spared p finished hout hcomputes).trans (sub_le_sub_right ht _)

/-! ### Runs -/

/-- A step of a thread that meets the conditions. -/
lemma inv_run {s' : Calls π ε τ} (h : Inv ttl s) (hok : Undisturbed s (.run i))
    (hnext : runNext ttl s i = some s') : Inv ttl s' := by
  have hthread := (h.thread i).pc
  rw [runNext] at hnext
  split at hnext
  case h_18 => cases hnext
  all_goals
    rename_i hpc
    rw [hpc] at hthread
  · obtain rfl := Option.some.inj hnext
    exact inv_testCached h hpc
  · obtain rfl := Option.some.inj hnext
    exact inv_testAge h hpc
  · -- the cache was not emptied since the test
    split at hnext
    · obtain rfl := Option.some.inj hnext
      exact inv_copy h hpc ‹_›
    · rename_i hnone
      rw [PcOk, Shared.Fresh, hnone] at hthread
      cases hthread.2.1
  · split_ifs at hnext with hlock
    obtain rfl := Option.some.inj hnext
    exact inv_waiting h hpc hlock
  · have hprobes : (s.own i).pc.probes = true := by
      rw [hpc]
      rfl
    split_ifs at hnext with hpos
    · obtain rfl := Option.some.inj hnext
      exact inv_probe h hprobes rfl ⟨hthread, hpos, le_rfl⟩
    · obtain rfl := Option.some.inj hnext
      exact inv_compute h hprobes le_rfl (.inl (not_lt.1 hpos))
  · rename_i now
    have hprobes : (s.own i).pc.probes = true := by
      rw [hpc]
      rfl
    obtain ⟨hlock, hpos, hnow⟩ := hthread
    split_ifs at hnext with hcached
    · obtain rfl := Option.some.inj hnext
      exact inv_probe h hprobes rfl ⟨hlock, hpos, hnow, hcached⟩
    · obtain rfl := Option.some.inj hnext
      exact inv_compute h hprobes hnow (.inr (.inl (Option.not_isSome_iff_eq_none.1 hcached)))
  · rename_i now
    have hprobes : (s.own i).pc.probes = true := by
      rw [hpc]
      rfl
    obtain ⟨hlock, hpos, hnow, hcached⟩ := hthread
    split_ifs at hnext with hlt
    · obtain rfl := Option.some.inj hnext
      exact inv_probe h hprobes rfl ⟨hlock, hnow, h.fresh hnow hcached hlt⟩
    · obtain rfl := Option.some.inj hnext
      exact inv_compute h hprobes hnow (.inr (.inr (not_lt.1 hlt)))
  · split at hnext
    · obtain rfl := Option.some.inj hnext
      exact inv_recopy h hpc ‹_›
    · rename_i hnone
      rw [PcOk, Shared.Fresh, hnone] at hthread
      cases hthread.2.2.1
  · obtain rfl := Option.some.inj hnext
    rw [Undisturbed, hpc] at hok
    exact inv_dropping h hpc hok
  · obtain rfl := Option.some.inj hnext
    obtain ⟨hlock, hnone, c, hc, hcaller, hout⟩ := hthread
    refine inv_release h (by rw [hpc]; rfl) (by rw [hpc]; exact fun _ => id) (fun p k hpk => ?_)
      ⟨_, c, _, rfl, hc, hcaller, hout⟩ fun k c _ hw => ?_
    · rw [hnone] at hpk
      cases hpk
    · rw [hpc] at hw
      exact hw.raise id
  · split_ifs at hnext with hpos
    · obtain rfl := Option.some.inj hnext
      exact inv_counting h hpc hpos
    · split at hnext
      · obtain rfl := Option.some.inj hnext
        exact inv_uncached h hpc hpos ‹_›
      · cases hnext
  · obtain rfl := Option.some.inj hnext
    exact inv_storing h hpc
  · obtain rfl := Option.some.inj hnext
    exact inv_stamping h hpc
  · obtain ⟨⟨hlock, hcached, c, hc, hcaller, hout, hsince⟩, rfl⟩ := hthread
    rw [hc] at hnext
    obtain rfl := Option.some.inj hnext
    refine inv_release h (by rw [hpc]; rfl) (by rw [hpc]; exact fun _ => id) (fun p k hpk => ?_)
      (Shared.Runs.answered hc hcaller hout hsince) fun k d hd hw => ?_
    · obtain ⟨rfl, rfl⟩ := Prod.mk.inj (Option.some.inj (hcached.symm.trans hpk))
      exact ⟨c, _, hc, hout, rfl⟩
    · rw [hpc] at hw
      exact hw.answer id rfl rfl (fun p finished kept => h.finished k d p finished kept hd)
        (.inr rfl)
  · split_ifs at hnext with hlock
    obtain rfl := Option.some.inj hnext
    exact inv_clearWaiting h hpc hlock
  · obtain rfl := Option.some.inj hnext
    rw [Undisturbed, hpc] at hok
    refine inv_empty h (by rw [hpc]; rfl) (by rw [hpc]; exact fun _ => id) hok.1
      (fun j k c p finished hk hc hout hended _ => ?_) ⟨hthread, rfl⟩ (by rw [hpc]; rfl) rfl
      (by rw [hpc]; exact fun _ => id) nofun
    have hended' := hok.2 j k c p finished hk ⟨hc, true, hout⟩
    exact absurd (hended.symm.trans hended') Bool.false_ne_true
  · obtain rfl := Option.some.inj hnext
    refine inv_release h (by rw [hpc]; rfl) (by rw [hpc]; exact fun _ => id) (fun p k hpk => ?_)
      trivial fun k c _ hw => ?_
    · rw [hthread.2] at hpk
      cases hpk
    · rw [hpc] at hw
      exact hw.step rfl rfl (fun _ => False.elim) nofun

lemma inv_next {s' : Calls π ε τ} {l : Label π ε τ} (h : Inv ttl s) (hok : Undisturbed s l)
    (hnext : next ttl s l = some s') : Inv ttl s' := by
  cases l with
  | tick t =>
      obtain ⟨ht, hsome⟩ := Option.ite_none_right_eq_some.1 hnext
      obtain rfl := Option.some.inj hsome
      exact inv_tick h ht hok
  | call i =>
      simp only [next] at hnext
      split at hnext
      · obtain rfl := Option.some.inj hnext
        exact inv_call h ‹_›
      · cases hnext
  | clear i =>
      simp only [next] at hnext
      split at hnext
      · obtain rfl := Option.some.inj hnext
        exact inv_clear h ‹_›
      · cases hnext
  | run i => exact inv_run h hok hnext
  | ends i result =>
      simp only [next] at hnext
      split at hnext
      · rename_i k p hpc
        obtain rfl := Option.some.inj hnext
        refine inv_ends h hpc nofun (fun q finished kept hout => ?_) rfl (fun _ => rfl)
          fun ⟨hlock, c, hc, hcaller, _, hsince, hcold⟩ => ?_
        · obtain ⟨-, rfl, -⟩ := Outcome.done.inj hout
          exact le_rfl
        · exact ⟨hlock, _, settle_self hc, hcaller, rfl, hsince, hcold⟩
      · rename_i k e hpc
        obtain rfl := Option.some.inj hnext
        refine inv_ends h hpc nofun nofun rfl nofun
          fun ⟨hlock, c, hc, hcaller, _, hsince, hcold⟩ => ?_
        exact ⟨hlock, _, settle_self hc, hcaller, rfl, hsince, hcold⟩
      · cases hnext

/-- What the invariant says of the call that came while a computation was running. -/
lemma Inv.right (h : Inv ttl s) : Right ttl s where
  raises i exc hpc := by
    have hok := (h.thread i).pc
    rw [hpc] at hok
    exact hok
  fresh i r hpc := by
    have hok := (h.thread i).pc
    rw [hpc] at hok
    exact hok.2
  alone i j k l hi hj := h.holds_unique (by rw [hi]; rfl) (by rw [hj]; rfl)
  taken i k c p finished r hk hgave hpc hlt := by
    obtain ⟨hc, kept, hout⟩ := hgave
    obtain ⟨d, hd, hw⟩ := (h.thread i).arrived k hk
    obtain rfl := Option.some.inj (hc.symm.trans hd)
    rw [hpc] at hw
    cases kept with
    | true => exact hw.taken p finished hout r rfl hlt
    | false =>
        -- without a positive `ttl` nothing is younger than it
        have hpos : ¬ 0 < ttl := fun hpos => hw.early (by rw [hout]; exact decide_eq_true hpos)
        have hle := sub_nonneg.2 (hw.later p finished false hout r rfl)
        exact absurd (hle.trans_lt hlt) hpos
  spared i k c p finished l hk hgave hpc := by
    obtain ⟨hc, kept, hout⟩ := hgave
    obtain ⟨d, hd, hw⟩ := (h.thread i).arrived k hk
    obtain rfl := Option.some.inj (hc.symm.trans hd)
    rw [hpc] at hw
    cases kept with
    | true => exact hw.spared p finished hout rfl
    | false =>
        have hpos : ¬ 0 < ttl := fun hpos => hw.early (by rw [hout]; exact decide_eq_true hpos)
        exact (not_lt.1 hpos).trans (sub_nonneg.2 (h.finished k c p finished false hc hout))

/-- **The cache of the statistics.**  In the runs that meet the conditions the calls raise and
return what they should. -/
theorem kgStats_right (h : (system ttl).ReachedBy Undisturbed s) : Right ttl s := by
  refine Inv.right (h.invariant (fun s hs => ?_) fun _ _ _ hs hok hnext => inv_next hs hok hnext)
  obtain ⟨hcached, -, -, hcomputations, hown⟩ := hs
  refine ⟨fun i => ⟨?_, fun k hk => ?_⟩, fun p k hpk => ?_, fun k c hc => ?_,
    fun k c p finished kept hc => ?_⟩
  · rw [(hown i).1]
    trivial
  · rw [(hown i).2] at hk
    cases hk
  · rw [hcached] at hpk
    cases hpk
  · rw [hcomputations] at hc
    cases hc
  · rw [hcomputations] at hc
    cases hc

end invariant

/-! ### Two runs -/

/-- No call yet. -/
def unasked : Calls ℕ ℕ ℤ := ⟨⟨none, 0, 0, none, 0, []⟩, fun _ => ⟨.idle, none⟩⟩

lemma init_unasked : (system 120).init unasked := ⟨rfl, rfl, rfl, rfl, fun _ => ⟨rfl, rfl⟩⟩

/-- A call computes, and another one comes in the meantime. -/
def coldRun : List (Label ℕ ℕ ℤ) :=
  [.call 0, .run 0, .run 0, .run 0, .run 0, .call 1, .run 1, .ends 0 (.ok 7), .run 0, .run 0,
    .run 0, .run 0]

/-- Something is cached when a call tests it, and is cleared before the call copies it. -/
def clearedRun : List (Label ℕ ℕ ℤ) :=
  coldRun ++ [Label.call 2, .run 2, .clear 3, .run 3, .run 3, .run 2, .run 2]

/-- No time passes, and nothing empties the cache. -/
def Plain (s : Calls ℕ ℕ ℤ) : Label ℕ ℕ ℤ → Bool
  | .tick _ => false
  | .run i => match (s.own i).pc with
      | .dropping _ _ | .clearing => false
      | _ => true
  | _ => true

lemma undisturbed_of_plain {s : Calls ℕ ℕ ℤ} {l : Label ℕ ℕ ℤ} (h : Plain s l = true) :
    Undisturbed s l := by
  cases l with
  | tick t => cases h
  | run i =>
      rw [Plain] at h
      rw [Undisturbed]
      rcases hpc : (s.own i).pc <;> rw [hpc] at h <;> trivial
  | call i => trivial
  | clear i => trivial
  | ends i result => trivial

/-- The call that came in the meantime takes the payload. -/
theorem kgStats_right_cold : ∃ s : Calls ℕ ℕ ℤ,
    (s.own 1).pc = .returned ⟨7, true, 0, 0, 0⟩ ∧ Right 120 s := by
  have hinit : (system 120).ReachedBy (fun s l => Plain s l = true) unasked := .init init_unasked
  obtain ⟨s, hs, hend⟩ := hinit.exists_of_execBy_any
    (coldRun ++ [.run 1, .run 1, .run 1, .run 1, .run 1])
    (fun s => match (s.own 1).pc with
      | .returned r => r = ⟨7, true, 0, 0, 0⟩
      | _ => false) (by decide +kernel)
  split at hend
  · rename_i r hpc
    obtain rfl := of_decide_eq_true hend
    exact ⟨s, hpc, kgStats_right (hs.mono fun s l => undisturbed_of_plain)⟩
  · cases hend

theorem kgStats_right_fails :
    ¬∀ s : Calls ℕ ℕ ℤ, (system 120).Reachable s → Right 120 s := by
  intro hright
  obtain ⟨s, hs, hend⟩ := (system 120).exists_of_exec_any unasked clearedRun
    (fun s => match (s.own 2).pc with
      | .raised .typeError => true
      | _ => false) (by decide +kernel)
  split at hend
  · rename_i hpc
    obtain ⟨_, _, _, hexc, -⟩ :=
      (hright s (StepSystem.Reachable.exec (.init init_unasked) hs)).raises 2 _ hpc
    cases hexc
  · cases hend

end PalaceDaemon.KgStatsCache

/-
What the palace holds from one transcript.

`source_status` keeps what it has read from the database by the path, and `invalidate_source`
forgets it when a mine of the path has ended.  The cache is under `_SOURCE_LOCK`, but the query
runs outside of it, between the section that looks into the cache and the one that stores: what
was read before an invalidation can be stored after it, and is then given to later calls.
`source_fresh` says that this is the only way: in the runs in which no invalidation falls between a
query and its store, no call returns what was read before an invalidation that it began after.
-/
import Mathlib
import PalaceDaemon.Lib.PyText
import PalaceDaemon.Lib.StepSystem

namespace PalaceDaemon.Status

variable {τ : Type*}

/-- A path, as the characters of its text. -/
abbrev SourcePath := List Char

/-- The path is the target or under it: `key == target or key.startswith(prefix)`. -/
def covers (target path : SourcePath) : Prop :=
  path = target ∨ ((target.reverse.dropWhile (· = '/')).reverse ++ ['/']) <+: path

instance (target path : SourcePath) : Decidable (covers target path) :=
  inferInstanceAs (Decidable (_ ∨ _))

/-- `_SOURCE_CACHE_MAX` -/
def sourceCacheMax : ℕ := 2000

/-- What was read from the database. -/
structure DrawerSide (τ : Type*) where
  drawers : ℕ
  newest : Option τ
  /-- The step at which the query ran. -/
  readAt : ℕ
deriving DecidableEq

/-- A value of the cache, with its time. -/
structure SourceEntry (τ : Type*) where
  time : τ
  side : DrawerSide τ

/-- Where a call of `source_status` is. -/
inductive SourcePc (τ : Type*)
  | idle
  /-- `_drawer_side` has read the clock. -/
  | looking (path : SourcePath) (now : τ)
  | querying (path : SourcePath) (now : τ)
  | storing (path : SourcePath) (now : τ) (side : DrawerSide τ)
  | returned (path : SourcePath) (side : DrawerSide τ) (cached : Bool)
  | raised

/-- A call, and the step at which it began. -/
structure SourceCall (τ : Type*) where
  pc : SourcePc τ
  started : ℕ

/-- The cache with the calls that use it. -/
structure Sources (τ : Type*) where
  /-- `_SOURCE_CACHE`, in the order of its keys. -/
  cache : List (SourcePath × SourceEntry τ)
  /-- `time.monotonic()` -/
  clock : τ
  call : ℕ → SourceCall τ
  /-- How many steps there have been. -/
  steps : ℕ
  /-- The invalidations, each with its step. -/
  invalidated : List (ℕ × SourcePath)

/-- What can happen next. -/
inductive SourceLabel (τ : Type*)
  | tick (t : τ)
  | start (i : ℕ) (path : SourcePath)
  /-- The section of the call `i` that looks into the cache, or the one that stores. -/
  | run (i : ℕ)
  /-- The query gives these timestamps, if they are there and can be read. -/
  | read (i : ℕ) (rows : List (Option τ))
  | fails (i : ℕ)
  | invalidate (target : SourcePath)

def Sources.set (s : Sources τ) (i : ℕ) (pc : SourcePc τ) : Sources τ :=
  { s with call := Function.update s.call i ⟨pc, (s.call i).started⟩, steps := s.steps + 1 }

section model

variable [LinearOrder τ]

/-- The first key with the oldest time: `min(_SOURCE_CACHE, key=…)`. -/
def oldest (cache : List (SourcePath × SourceEntry τ)) : Option SourcePath :=
  (cache.argmin fun e => e.2.time).map Prod.fst

/-- The cache after a store, which keeps its size. -/
def storeSource (cache : List (SourcePath × SourceEntry τ)) (path : SourcePath)
    (e : SourceEntry τ) : List (SourcePath × SourceEntry τ) :=
  if path ∈ cache.map Prod.fst then cache.map fun c => if c.1 = path then (path, e) else c
  else
    (if sourceCacheMax ≤ cache.length then cache.filter fun c => some c.1 ≠ oldest cache
      else cache) ++ [(path, e)]

variable [AddCommGroup τ] (ttl : τ)

/-- A step of the calls. -/
def Sources.next (s : Sources τ) : SourceLabel τ → Option (Sources τ)
  | .tick t => if s.clock ≤ t then some { s with clock := t, steps := s.steps + 1 } else none
  | .start i path =>
      match (s.call i).pc with
      | .idle => some { s with
          call := Function.update s.call i ⟨.looking path s.clock, s.steps + 1⟩
          steps := s.steps + 1 }
      | _ => none
  | .run i =>
      match (s.call i).pc with
      | .looking path now =>
          match s.cache.lookup path with
          | some hit =>
              if now - hit.time < ttl then some (s.set i (.returned path hit.side true))
              else some (s.set i (.querying path now))
          | none => some (s.set i (.querying path now))
      | .storing path now side =>
          some { s.set i (.returned path side false) with
            cache := storeSource s.cache path ⟨now, side⟩ }
      | _ => none
  | .read i rows =>
      match (s.call i).pc with
      | .querying path now =>
          some (s.set i (.storing path now
            ⟨rows.length, (rows.filterMap id).max?, s.steps + 1⟩))
      | _ => none
  | .fails i =>
      match (s.call i).pc with
      | .querying _ _ => some (s.set i .raised)
      | _ => none
  | .invalidate target => some { s with
      cache := s.cache.filter fun c => ¬ covers target c.1
      steps := s.steps + 1
      invalidated := s.invalidated ++ [(s.steps + 1, target)] }

/-- The calls from the start of the daemon. -/
def sourceSystem : StepSystem (Sources τ) (SourceLabel τ) where
  init s := s.cache = [] ∧ s.invalidated = [] ∧ ∀ i, (s.call i).pc = .idle
  next := Sources.next ttl

end model

/-! ### What is fresh -/

/-- A call that began after an invalidation of its path returns what was read after it. -/
def Sources.Fresh (s : Sources τ) : Prop :=
  ∀ i path side cached, (s.call i).pc = .returned path side cached →
    ∀ v ∈ s.invalidated, covers v.2 path → v.1 < (s.call i).started → v.1 < side.readAt

/-- No call for the target or a path under it is between its query and its store. -/
def Unhurried (s : Sources τ) : SourceLabel τ → Prop
  | .invalidate target => ∀ i path now side, (s.call i).pc = .storing path now side →
      ¬ covers target path
  | _ => True

/-- It was read after every invalidation of the path. -/
def Sources.Since (s : Sources τ) (path : SourcePath) (side : DrawerSide τ) : Prop :=
  ∀ v ∈ s.invalidated, covers v.2 path → v.1 < side.readAt

/-- What holds in the runs without such an invalidation. -/
structure Sources.Inv (s : Sources τ) : Prop where
  steps : ∀ v ∈ s.invalidated, v.1 ≤ s.steps
  started : ∀ i, (s.call i).pc ≠ .idle → (s.call i).started ≤ s.steps
  cache : ∀ e ∈ s.cache, s.Since e.1 e.2.side
  storing : ∀ i path now side, (s.call i).pc = .storing path now side → s.Since path side
  fresh : s.Fresh

section moves

variable {s s' : Sources τ} {i : ℕ} {path : SourcePath} {now : τ} {side : DrawerSide τ}

@[simp] lemma call_set_self (pc : SourcePc τ) : (s.set i pc).call i = ⟨pc, (s.call i).started⟩ :=
  Function.update_self ..

lemma call_set_of_ne {j : ℕ} (hj : j ≠ i) (pc : SourcePc τ) : (s.set i pc).call j = s.call j :=
  Function.update_of_ne hj ..

/-- One call moves on, and the cache stays. -/
lemma sourcesInv_set (h : s.Inv) {pc : SourcePc τ} (hpc : (s.call i).pc ≠ .idle)
    (hstoring : ∀ path now side, pc = .storing path now side → s.Since path side)
    (hreturned : ∀ path side cached, pc = .returned path side cached → s.Since path side) :
    (s.set i pc).Inv := by
  refine ⟨fun v hv => (h.steps v hv).trans (Nat.le_succ _), fun j hj => ?_, h.cache,
    fun j path now side hj => ?_, fun j path side cached hj v hv hcovers hlt => ?_⟩
  all_goals by_cases hji : j = i
  · subst hji
    rw [call_set_self]
    exact (h.started j hpc).trans (Nat.le_succ _)
  · rw [call_set_of_ne hji] at hj ⊢
    exact (h.started j hj).trans (Nat.le_succ _)
  · subst hji
    rw [call_set_self] at hj
    exact hstoring path now side hj
  · rw [call_set_of_ne hji] at hj
    exact h.storing j path now side hj
  · subst hji
    rw [call_set_self] at hj
    exact hreturned path side cached hj v hv hcovers
  · rw [call_set_of_ne hji] at hj hlt
    exact h.fresh j path side cached hj v hv hcovers hlt

/-- What is in the cache after a store was there, or is stored. -/
lemma mem_storeSource [LinearOrder τ] {cache : List (SourcePath × SourceEntry τ)}
    {e : SourceEntry τ} {c : SourcePath × SourceEntry τ} (h : c ∈ storeSource cache path e) :
    c ∈ cache ∨ c = (path, e) := by
  unfold storeSource at h
  split_ifs at h
  · obtain ⟨b, hb, rfl⟩ := List.mem_map.1 h
    split_ifs
    · exact .inr rfl
    · exact .inl hb
  · rcases List.mem_append.1 h with h | h
    · exact .inl (List.mem_of_mem_filter h)
    · exact .inr (List.mem_singleton.1 h)
  · rcases List.mem_append.1 h with h | h
    · exact .inl h
    · exact .inr (List.mem_singleton.1 h)

variable [AddCommGroup τ] [LinearOrder τ] {ttl : τ}

omit [AddCommGroup τ] [LinearOrder τ] in
lemma sourcesInv_start (h : s.Inv) (hidle : (s.call i).pc = .idle) : Sources.Inv { s with
    call := Function.update s.call i ⟨.looking path s.clock, s.steps + 1⟩
    steps := s.steps + 1 } := by
  refine ⟨fun v hv => (h.steps v hv).trans (Nat.le_succ _), fun j hj => ?_, h.cache,
    fun j path now side hj => ?_, fun j path side cached hj v hv hcovers hlt => ?_⟩
  all_goals by_cases hji : j = i
  · subst hji
    simp
  · simp only [Function.update_of_ne hji] at hj ⊢
    exact (h.started j hj).trans (Nat.le_succ _)
  · subst hji
    simp at hj
  · simp only [Function.update_of_ne hji] at hj
    exact h.storing j path now side hj
  · subst hji
    simp at hj
  · simp only [Function.update_of_ne hji] at hj hlt
    exact h.fresh j path side cached hj v hv hcovers hlt

lemma sourcesInv_run (h : s.Inv) (hnext : s.next ttl (.run i) = some s') : s'.Inv := by
  simp only [Sources.next] at hnext
  split at hnext
  · rename_i path now hpc
    have hne : (s.call i).pc ≠ .idle := by simp [hpc]
    have hquery : (s.set i (.querying path now)).Inv := sourcesInv_set h hne nofun nofun
    split at hnext
    · rename_i hit hlookup
      split_ifs at hnext
      · obtain rfl := Option.some.inj hnext
        refine sourcesInv_set h hne nofun ?_
        rintro _ _ _ ⟨⟩
        obtain ⟨before, after, hcache, -⟩ := List.lookup_eq_some_iff.1 hlookup
        exact h.cache (path, hit) (by simp [hcache])
      · obtain rfl := Option.some.inj hnext
        exact hquery
    · obtain rfl := Option.some.inj hnext
      exact hquery
  · rename_i path now side hpc
    obtain rfl := Option.some.inj hnext
    have hside := h.storing i path now side hpc
    have hset : (s.set i (.returned path side false)).Inv := by
      refine sourcesInv_set h (by simp [hpc]) nofun ?_
      rintro _ _ _ ⟨⟩
      exact hside
    refine ⟨hset.steps, hset.started, fun e he => ?_, hset.storing, hset.fresh⟩
    rcases mem_storeSource he with he | rfl
    · exact h.cache e he
    · exact hside
  · cases hnext

lemma sourcesInv_next {l : SourceLabel τ} (h : s.Inv) (hok : Unhurried s l)
    (hnext : s.next ttl l = some s') : s'.Inv := by
  cases l with
  | tick t =>
      simp only [Sources.next] at hnext
      split_ifs at hnext
      obtain rfl := Option.some.inj hnext
      exact ⟨fun v hv => (h.steps v hv).trans (Nat.le_succ _),
        fun i hi => (h.started i hi).trans (Nat.le_succ _), h.cache, h.storing, h.fresh⟩
  | start i path =>
      simp only [Sources.next] at hnext
      split at hnext
      · rename_i hidle
        obtain rfl := Option.some.inj hnext
        exact sourcesInv_start h hidle
      · cases hnext
  | run i => exact sourcesInv_run h hnext
  | read i rows =>
      simp only [Sources.next] at hnext
      split at hnext
      · rename_i path now hpc
        obtain rfl := Option.some.inj hnext
        refine sourcesInv_set h (by simp [hpc]) ?_ nofun
        rintro _ _ _ ⟨⟩ v hv -
        exact Nat.lt_succ_of_le (h.steps v hv)
      · cases hnext
  | fails i =>
      simp only [Sources.next] at hnext
      split at hnext
      · rename_i path now hpc
        obtain rfl := Option.some.inj hnext
        exact sourcesInv_set h (by simp [hpc]) nofun nofun
      · cases hnext
  | invalidate target =>
      obtain rfl := Option.some.inj hnext
      refine ⟨fun v hv => ?_, fun i hi => (h.started i hi).trans (Nat.le_succ _),
        fun e he v hv hcovers => ?_, fun i path now side hi v hv hcovers => ?_,
        fun i path side cached hi v hv hcovers hlt => ?_⟩
      all_goals rcases List.mem_append.1 hv with hv | hv
      · exact (h.steps v hv).trans (Nat.le_succ _)
      · rw [List.mem_singleton.1 hv]
      · exact h.cache e (List.mem_of_mem_filter he) v hv hcovers
      · rw [List.mem_singleton.1 hv] at hcovers
        exact absurd hcovers (by simpa using (List.mem_filter.1 he).2)
      · exact h.storing i path now side hi v hv hcovers
      · rw [List.mem_singleton.1 hv] at hcovers
        exact absurd hcovers (hok i path now side hi)
      · exact h.fresh i path side cached hi v hv hcovers hlt
      · -- the call began before this invalidation
        have hstarted := h.started i (by rw [show (s.call i).pc = _ from hi]; exact nofun)
        rw [List.mem_singleton.1 hv] at hlt
        exact absurd (hlt.trans_le hstarted) (by simp)

/-- **Nothing from before an invalidation.**  In a run in which no invalidation falls between the
query of a call for the target, or a path under it, and its store, no call returns what was read
before an invalidation of its path that it began after. -/
theorem source_fresh (h : (sourceSystem ttl).ReachedBy Unhurried s) : s.Fresh := by
  refine Sources.Inv.fresh (h.invariant (fun s hs => ?_) fun _ _ _ hs hok hnext =>
    sourcesInv_next hs hok hnext)
  obtain ⟨hcache, hinvalidated, hcall⟩ := hs
  refine ⟨by simp [hinvalidated], fun i hi => absurd (hcall i) hi, by simp [hcache],
    fun i path now side hi => ?_, fun i path side cached hi => ?_⟩
  · rw [hcall i] at hi
    cases hi
  · rw [hcall i] at hi
    cases hi

end moves

/-! ### Two runs -/

/-- No call yet. -/
def Sources.none : Sources ℤ := ⟨[], 0, fun _ => ⟨.idle, 0⟩, 0, []⟩

lemma init_sourcesNone : (sourceSystem 600).init Sources.none := ⟨rfl, rfl, fun _ => rfl⟩

/-- A call after an invalidation. -/
theorem source_fresh_later : ∃ s : Sources ℤ,
    (s.call 1).pc = .returned ['/', 'a'] ⟨2, some 7, 4⟩ false ∧ s.Fresh := by
  obtain ⟨s, hs, hend⟩ := (sourceSystem 600).exists_of_exec_any Sources.none
    [.invalidate ['/', 'a'], .start 1 ['/', 'a'], .run 1, .read 1 [some 3, some 7], .run 1]
    (fun s => match (s.call 1).pc with
      | .returned path side cached =>
          decide (path = ['/', 'a'] ∧ side = ⟨2, some 7, 4⟩ ∧ cached = false)
      | _ => false) (by decide)
  have hmeets : (sourceSystem 600).Meets Unhurried Sources.none
      [.invalidate ['/', 'a'], .start 1 ['/', 'a'], .run 1, .read 1 [some 3, some 7], .run 1] := by
    refine StepSystem.meets_cons.2 ⟨fun i path now side hi => ?_, fun s' _ =>
      StepSystem.meets_of_forall (fun s l hl => ?_) s'⟩
    · cases hi
    · rcases List.mem_cons.1 hl with rfl | hl
      · trivial
      · rcases List.mem_cons.1 hl with rfl | hl
        · trivial
        · rcases List.mem_cons.1 hl with rfl | hl
          · trivial
          · obtain rfl := List.mem_singleton.1 hl
            trivial
  split at hend
  · rename_i path side cached hpc
    obtain ⟨rfl, rfl, rfl⟩ := of_decide_eq_true hend
    exact ⟨s, hpc, source_fresh ((StepSystem.ReachedBy.init init_sourcesNone).exec hmeets hs)⟩
  · cases hend

/-- What was read before an invalidation is stored after it, and given to a later call. -/
theorem source_fresh_fails : ¬ ∀ s : Sources ℤ, (sourceSystem 600).Reachable s → s.Fresh := by
  intro hfresh
  obtain ⟨s, hs, hend⟩ := (sourceSystem 600).exists_of_exec_any Sources.none
    [.start 0 ['/', 'a'], .run 0, .read 0 [], .invalidate ['/', 'a'], .run 0,
      .start 1 ['/', 'a'], .run 1]
    (fun s => decide (s.invalidated = [(4, ['/', 'a'])] ∧ (s.call 1).started = 6) &&
      match (s.call 1).pc with
      | .returned path side cached => decide (path = ['/', 'a'] ∧ side.readAt = 3)
      | _ => false) (by decide)
  rw [Bool.and_eq_true] at hend
  obtain ⟨hinvalidated, hstarted⟩ := of_decide_eq_true hend.1
  have hreturned := hend.2
  split at hreturned
  · rename_i path side cached hpc
    obtain ⟨rfl, hread⟩ := of_decide_eq_true hreturned
    have hlt := hfresh s (StepSystem.Reachable.exec (.init init_sourcesNone) hs) 1 _ side cached hpc
      (4, ['/', 'a']) (by simp [hinvalidated]) (by decide) (by simp [hstarted])
    simp [hread] at hlt
  · cases hreturned

end PalaceDaemon.Status

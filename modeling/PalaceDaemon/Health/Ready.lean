/-
The readiness probe, `GET /health/ready`.

A probe is a search through `_call`, and `_ready_cache` holds the last one.  A request that finds it
older than `PALACE_READY_TTL_SECONDS` waits for `_ready_lock`, looks again and runs a probe, so the
requests are the callers of a `CheckedCache`.  Of the search only its end is modelled; the log lines
are left out.
-/
import Mathlib.Algebra.Order.Ring.Rat
import PalaceDaemon.Lib.CheckedCache
import PalaceDaemon.Lib.Json

namespace PalaceDaemon.Health

open CheckedCache

/-! ### A probe -/

/-- How the search of a probe ends. -/
inductive SearchEnd
  | returned (result : Json)
  | raised

/-- A search and the time it took. -/
structure Search where
  ended : SearchEnd
  latencyMs : ℕ

/-- `result.get("error") if isinstance(result, dict) else None` -/
def errorOf (result : Json) : Json := (result.getD "error".toList .null).getD .null

/-- `error is None` -/
def isNone : Json → Bool
  | .null => true
  | _ => false

/-- The fields of `_ready_cache`, without the time. -/
structure Probe where
  ok : Option Bool
  errorCode : Json
  latencyMs : Option ℕ

/-- `_run_ready_probe`.  An error that is neither an object nor false has no message to log, which
raises. -/
def runReadyProbe (search : Search) : Probe :=
  let failed : Probe := ⟨some false, .int (-32000), some search.latencyMs⟩
  match search.ended with
  | .raised => failed
  | .returned result =>
      let error := errorOf result
      if isNone error then ⟨some true, .null, some search.latencyMs⟩
      else if error.orEmpty.isObj then
        ⟨some false, (error.getD "code".toList .null).getD .null, some search.latencyMs⟩
      else failed

/-- `_ready_cache`, after a search or before the first one. -/
def readyCache : Option Search → Probe
  | none => ⟨none, .null, none⟩
  | some search => runReadyProbe search

/-! ### The requests -/

/-- A response, without the names that never change. -/
structure Response where
  code : ℕ
  ready : Bool
  latencyMs : Option ℕ
  cached : Bool
  ttlSeconds : ℚ
  errorCode : Option Json

/-- The end of `health_ready` -/
def healthReady (ttl : ℚ) (cache : Probe) (cached : Bool) : Response :=
  let ready := cache.ok = some true
  { code := if ready then 200 else 503
    ready := ready
    latencyMs := cache.latencyMs
    cached := cached
    ttlSeconds := ttl
    errorCode := if ready then none else some cache.errorCode }

/-- The requests, with what they share. -/
abbrev Requests := Callers ℚ (Option Search)

inductive ReadyLabel
  | tick (d : ℚ)
  /-- A request arrives. -/
  | request (i : ℕ)
  /-- A request gets `_ready_lock`. -/
  | locked (i : ℕ)
  /-- The search of a request ends. -/
  | searched (i : ℕ) (search : Search)
  /-- A request is cancelled. -/
  | cancelled (i : ℕ)

def ReadyLabel.toLabel : ReadyLabel → Label ℚ (Option Search)
  | .tick d => .tick d
  | .request i => .ask i
  | .locked i => .enter i
  | .searched i search => .finish i (some search)
  | .cancelled i => .giveUp i

/-- The daemon starts at a time of the clock, with a cache that says 0. -/
def readySystem (ttl clock : ℚ) : StepSystem Requests ReadyLabel where
  init s := s = start clock ⟨0, none⟩
  next s a := next ttl s a.toLabel

/-- The response of a request that has its answer -/
def responseOf (ttl : ℚ) (a : Answer ℚ (Option Search)) : Response :=
  healthReady ttl (readyCache a.entry.value) a.cached

/-! ### What a response says -/

/-- The search came back without an error. -/
def Search.Fine (search : Search) : Prop :=
  ∃ result, search.ended = .returned result ∧ errorOf result = .null

lemma isNone_iff (value : Json) : isNone value = true ↔ value = .null := by
  cases value <;> simp [isNone]

lemma runReadyProbe_ok_iff (search : Search) :
    (runReadyProbe search).ok = some true ↔ search.Fine := by
  rw [runReadyProbe, Search.Fine]
  split
  · next hraised => simp [hraised]
  · next result hreturned =>
      rw [hreturned]
      dsimp only
      split_ifs with hnone hobj
      · exact iff_of_true rfl ⟨result, rfl, (isNone_iff _).1 hnone⟩
      · refine iff_of_false (by simp) ?_
        rintro ⟨result', heq, hnull⟩
        obtain rfl := SearchEnd.returned.inj heq
        exact hnone ((isNone_iff _).2 hnull)
      · refine iff_of_false (by simp) ?_
        rintro ⟨result', heq, hnull⟩
        obtain rfl := SearchEnd.returned.inj heq
        exact hnone ((isNone_iff _).2 hnull)

lemma healthReady_code (ttl : ℚ) (cache : Probe) (cached : Bool) :
    (healthReady ttl cache cached).code = 200 ↔ cache.ok = some true := by
  rw [healthReady]
  split_ifs with hok
  · exact iff_of_true rfl hok
  · exact iff_of_false (fun h => by cases h) hok

/-- The clock is not set back. -/
def SteadyClock (_ : Requests) : ReadyLabel → Prop
  | .tick d => 0 ≤ d
  | _ => True

variable {ttl clock : ℚ} {s : Requests}

lemma reachedBy_callers (h : (readySystem ttl clock).ReachedBy SteadyClock s) :
    (system ttl clock ⟨0, none⟩).ReachedBy Forward s := by
  induction h with
  | init hs => exact .init hs
  | @step s s' a _ hok hnext ih =>
      refine ih.step (a := a.toLabel) ?_ hnext
      cases a with
      | tick d => exact hok
      | _ => trivial

/-- The computations are searches. -/
def AllSearches (s : Requests) : Prop :=
  ∀ run ∈ s.shared.runs, ∃ search, run.entry.value = some search

lemma allSearches_of_reachedBy (h : (readySystem ttl clock).ReachedBy SteadyClock s) :
    AllSearches s := by
  refine h.invariant ?_ ?_
  · rintro s rfl
    exact nofun
  · rintro s a s' hs - hnext
    rcases runs_next hnext with hruns | ⟨i, value, r, ha, hvalue, hruns⟩
    · rwa [AllSearches, hruns]
    · rw [AllSearches, hruns]
      refine List.forall_mem_cons.2 ⟨?_, hs⟩
      cases a with
      | searched j search =>
          obtain ⟨-, rfl⟩ := Label.finish.inj ha
          exact ⟨search, hvalue⟩
      | _ => cases ha

/-- **Honest responses.**  If the clock of the daemon starts no earlier than the TTL, every response
is of a search that has ended: it says 200 just if the search came back without an error, and that
was less than the TTL before, or the search was the request's own. -/
theorem ready_honest (hclock : ttl ≤ clock) (h : (readySystem ttl clock).ReachedBy SteadyClock s)
    {a : Answer ℚ (Option Search)} (ha : a ∈ s.shared.answers) :
    ∃ run ∈ s.shared.runs, ∃ search, run.entry.value = some search ∧
      ((responseOf ttl a).code = 200 ↔ search.Fine) ∧
      if a.cached then a.time - run.entry.time < ttl else a.time = run.entry.time := by
  obtain ⟨hmem, htime⟩ := answers_young (reachedBy_callers h) (by simpa using hclock) ha
  obtain ⟨run, hrun, hentry⟩ := List.mem_map.1 hmem
  obtain ⟨search, hsearch⟩ := allSearches_of_reachedBy h run hrun
  refine ⟨run, hrun, search, hsearch, ?_, by rwa [hentry]⟩
  rw [responseOf, healthReady_code, ← hentry, hsearch]
  exact runReadyProbe_ok_iff search

/-- A search that takes a millisecond and finds something. -/
def fineSearch : Search := ⟨.returned (.obj []), 1⟩

/-- Two requests, the second of which waits for the search of the first; then a third one, after
the TTL. -/
def twoSearches : List ReadyLabel :=
  [ReadyLabel.request 0, .locked 0, .request 1, .tick 1, .searched 0 fineSearch, .locked 1,
    .tick 30, .request 2, .locked 2, .searched 2 fineSearch]

lemma meets_twoSearches (n : ℕ) (s : Requests) :
    (readySystem 30 1000).Meets SteadyClock s (twoSearches.take n) := by
  refine StepSystem.meets_of_forall (fun _ a ha => ?_) s
  have hmem := List.mem_of_mem_take ha
  simp only [twoSearches, List.mem_cons, List.not_mem_nil, or_false] at hmem
  rcases hmem with rfl | rfl | rfl | rfl | rfl | rfl | rfl | rfl | rfl | rfl
  all_goals trivial

/-- What can be computed of the end of a part of the run. -/
lemma exists_twoSearches (n : ℕ) (p : Requests → Bool)
    (hp : ((readySystem 30 1000).exec (start 1000 ⟨0, none⟩) (twoSearches.take n)).any p = true) :
    ∃ s, (readySystem 30 1000).ReachedBy SteadyClock s ∧ p s = true := by
  obtain ⟨s, hexec, hs⟩ := (readySystem 30 1000).exists_of_exec_any _ _ p hp
  exact ⟨s, .exec (.init rfl) (meets_twoSearches n _) hexec, hs⟩

/-- The second request is given the search of the first. -/
theorem ready_honest_shared : ∃ (s : Requests) (a : Answer ℚ (Option Search)),
    a ∈ s.shared.answers ∧ a.cached = true ∧ ∃ run ∈ s.shared.runs, ∃ search,
      run.entry.value = some search ∧ ((responseOf 30 a).code = 200 ↔ search.Fine) ∧
        a.time - run.entry.time < 30 := by
  obtain ⟨s, hs, hcached⟩ := exists_twoSearches 6
    (fun s => s.shared.answers.map Answer.cached = [true, false]) (by decide +kernel)
  obtain ⟨a, answers, hanswers, ha, -⟩ := List.map_eq_cons_iff.1 (of_decide_eq_true hcached)
  have hmem : a ∈ s.shared.answers := by
    rw [hanswers]
    exact List.mem_cons_self
  obtain ⟨run, hrun, search, hsearch, hcode, htime⟩ := ready_honest (by decide +kernel) hs hmem
  rw [if_pos ha] at htime
  exact ⟨s, a, hmem, ha, run, hrun, search, hsearch, hcode, htime⟩

/-- **Few searches.**  However many requests there are, at most one of them searches.  Of the
searches that have ended, the latest first, one begins at least the TTL after the end of the one
before it, and so for each between it and an earlier one; the time since the start has room for all
but one. -/
theorem ready_searches (h : (readySystem ttl clock).ReachedBy SteadyClock s) :
    (∀ i j t u, s.own i = .computing t → s.own j = .computing u → i = j) ∧
      (∀ later r between r' earlier, s.shared.runs = later ++ r :: (between ++ r' :: earlier) →
        r'.entry.time + (between.length + 1) • ttl ≤ r.started) ∧
      ∀ k, s.shared.runs.length = k + 1 → clock + k • ttl ≤ s.shared.clock := by
  have hcallers := reachedBy_callers h
  exact ⟨fun i j t u hi hj => one_computation hcallers.reachable hi hj,
    fun later r between r' earlier hruns => runs_spaced hcallers hruns,
    fun k hlength => runs_rate hcallers hlength⟩

/-- The second search comes after the TTL. -/
theorem ready_searches_two : ∃ (s : Requests) (r r' : Run ℚ (Option Search)),
    s.shared.runs = [r, r'] ∧ r'.entry.time = 1001 ∧ 1031 ≤ r.started := by
  obtain ⟨s, hs, htimes⟩ := exists_twoSearches 10
    (fun s => s.shared.runs.map (fun r => r.entry.time) = [1031, 1001]) (by decide +kernel)
  obtain ⟨r, runs, hruns, -, htimes⟩ := List.map_eq_cons_iff.1 (of_decide_eq_true htimes)
  obtain ⟨r', runs, rfl, hr', htimes⟩ := List.map_eq_cons_iff.1 htimes
  obtain rfl := List.map_eq_nil_iff.1 htimes
  have hspaced := (ready_searches hs).2.1 [] r [] r' [] hruns
  rw [hr'] at hspaced
  exact ⟨s, r, r', hruns, hr', by norm_num at hspaced; exact hspaced⟩

/-- A step of the request, or the end of the search that is running. -/
def OwnOrRunning (s : Requests) (i : ℕ) (running own : Search) (a : ReadyLabel) : Prop :=
  a = .locked i ∨ a = .searched i own ∨ ∃ j t, s.own j = .computing t ∧ a = .searched j running

lemma exec_toLabel (s : Requests) (as : List ReadyLabel) : (readySystem ttl clock).exec s as =
    (system ttl clock ⟨0, none⟩).exec s (as.map ReadyLabel.toLabel) := by
  induction as generalizing s with
  | nil => rfl
  | cons a as ih =>
      rw [List.map_cons, StepSystem.exec_cons, StepSystem.exec_cons]
      exact congrArg _ (funext fun t => ih t)

/-- The steps that a waiting request needs are steps of the daemon. -/
lemma exists_labels {running own : Search} {i : ℕ} {as : List (Label ℚ (Option Search))}
    (h : ∀ b ∈ as, GoesOn s i (some running) (some own) b) :
    ∃ bs : List ReadyLabel, bs.map ReadyLabel.toLabel = as ∧
      ∀ b ∈ bs, OwnOrRunning s i running own b := by
  induction as with
  | nil => exact ⟨[], rfl, by simp⟩
  | cons a as ih =>
      obtain ⟨ha, has⟩ := List.forall_mem_cons.1 h
      obtain ⟨bs, rfl, hbs⟩ := ih has
      rcases ha with rfl | rfl | ⟨j, t, hj, rfl⟩
      · exact ⟨.locked i :: bs, rfl, List.forall_mem_cons.2 ⟨.inl rfl, hbs⟩⟩
      · exact ⟨.searched i own :: bs, rfl, List.forall_mem_cons.2 ⟨.inr (.inl rfl), hbs⟩⟩
      · exact ⟨.searched j running :: bs, rfl,
          List.forall_mem_cons.2 ⟨.inr (.inr ⟨j, t, hj, rfl⟩), hbs⟩⟩

end PalaceDaemon.Health

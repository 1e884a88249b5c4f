/-
What a step of the daemon can do.

`Moves` has one constructor for each thing that happens: a request arrives, a coroutine goes on
taking permits, it has work done, it gives its permits back, or a worker moves.
`moves_of_step` is the only place where the step function is unfolded; every invariant is proved
by cases on `Moves`.
-/
import PalaceDaemon.Lanes.System

namespace PalaceDaemon.Lanes

open Semaphore Tasks

lemma release_eq (s : State) (name : ℕ) (l : Lane) : s.release name l = s.releaseSlot name l := by
  cases l <;> rfl

/-- The coroutine has a worker do its work outside the lanes, and goes on with `op`. -/
inductive Begins (t : Coroutine) : Op → Prop
  | work {repair : Bool} : t.op = .work repair → t.todo = [] → Begins t (.awaiting repair false)
  | silentSave : t.op = .silentSave → t.todo = [] → Begins t (.awaiting false false)
  | again {repair : Bool} : t.op = .awaiting repair true → Begins t (.awaiting repair false)

/-- The coroutine gives its permits back and changes nothing else; `repair` says whether it has
yet to clear the flag. -/
inductive Ends (s : State) (t : Coroutine) : Bool → Prop
  | clearCaches : t.op = .clearCaches → Ends s t true
  | busy {l : Lane} {r : Bool} : t.op = .call l r → Ends s t false
  | awaiting {repair r : Bool} : t.op = .awaiting repair r → s.isAwaited t = false →
      Ends s t repair
  | deadline {rebuild : Bool} : t.op = .exclusive rebuild → Ends s t rebuild
  | body {rebuild : Bool} : t.op = .holding rebuild → t.todo = [] → Ends s t rebuild

/-- A move of a worker that has no slot to give back. -/
inductive Advances (w : Worker) : Status → Prop
  | start : w.status = .queued → Advances w .running
  | finish : w.status = .running → Advances w .ended
  | callback : w.status = .ended → w.lane = none → Advances w .released

/-- What a step can do. -/
inductive Moves (cfg : Config) (s : State) : State → Prop
  /-- A request is answered at once. -/
  | answered : Moves cfg s s
  | arrives {a : Arrival} {op : Op} {plan : List Sem} : a.coroutine cfg s = some (op, plan) →
      Moves cfg s ({ s with repairing := a.flag s.repairing }.enroll op plan)
  | resumes {i : ℕ} {t : Coroutine} : s.ready[i]? = some t → t.todo ≠ [] →
      Moves cfg s (s.resume i t)
  /-- An exclusive hold finds no save in flight. -/
  | passes {i : ℕ} {t : Coroutine} {rebuild : Bool} : s.ready[i]? = some t → t.todo = [] →
      t.op = .exclusive rebuild → ¬ 0 < s.inflight .save →
      Moves cfg s (s.resume i { t with op := .holding rebuild, todo := [.mine] })
  | begins {i : ℕ} {t : Coroutine} {op : Op} : s.ready[i]? = some t → Begins t op →
      Moves cfg s (s.spawn i t none op)
  | submits {i : ℕ} {t : Coroutine} {l : Lane} {r : Bool} : s.ready[i]? = some t →
      t.todo = [] → t.op = .call l r → s.inflight l < cfg.bound l →
      Moves cfg s ((s.takeSlot t.name l).spawn i t (some l) (.awaiting false r))
  | refused {i : ℕ} {t : Coroutine} {l : Lane} {r : Bool} : s.ready[i]? = some t →
      t.op = .call l r → s.inflight l < cfg.bound l →
      Moves cfg s (((s.takeSlot t.name l).release t.name l).depart i t false)
  /-- A silent save sees the rebuild. -/
  | looks {i : ℕ} {t : Coroutine} : s.ready[i]? = some t → t.todo = [] → t.op = .silentSave →
      Moves cfg s (s.become i t .enqueuing)
  | ends {i : ℕ} {t : Coroutine} {repair : Bool} : s.ready[i]? = some t → Ends s t repair →
      Moves cfg s (s.depart i t repair)
  | enqueued {i : ℕ} {t : Coroutine} : s.ready[i]? = some t → t.op = .enqueuing →
      Moves cfg s { s.depart i t false with queued := t.name :: s.queued }
  | cleared {i : ℕ} {t : Coroutine} : s.ready[i]? = some t → t.op = .clearing →
      Moves cfg s { s.depart i t false with repairing := none }
  | leaves {i : ℕ} {t : Coroutine} {r : Bool} : s.ready[i]? = some t →
      t.op = .awaiting false r → Moves cfg s ((s.cancelQueued t.name).depart i t false)
  | abandons {x : Sem} {k : ℕ} {t : Coroutine} {l : Lane} {r : Bool} :
      (s.sems.queue x)[k]? = some t → t.op = .call l r → Moves cfg s (s.abandon x k)
  | advances {j : ℕ} {w : Worker} {status : Status} : s.workers[j]? = some w →
      Advances w status → Moves cfg s (s.setStatus j w status)
  | releases {j : ℕ} {w : Worker} {l : Lane} : s.workers[j]? = some w → w.status = .ended →
      w.lane = some l → Moves cfg s ((s.setStatus j w .released).release w.name l)

lemma moves_of_turn {cfg : Config} {s s' : State} {i : ℕ} {t : Coroutine}
    (ht : s.ready[i]? = some t) (h : s.turn cfg i t = some s') : Moves cfg s s' := by
  unfold State.turn at h
  by_cases htodo : t.todo = []
  · rw [if_neg (not_not_intro htodo)] at h
    cases hop : t.op with
    | work repair =>
        simp only [hop, Option.some.injEq] at h
        subst h
        exact .begins ht (.work hop htodo)
    | clearCaches =>
        simp only [hop, Option.some.injEq] at h
        subst h
        exact .ends ht (.clearCaches hop)
    | call l retry =>
        simp only [hop] at h
        split at h <;> obtain rfl := Option.some.inj h
        · exact .ends ht (.busy hop)
        · exact .submits ht htodo hop (by omega)
    | awaiting repair retry =>
        simp only [hop] at h
        split at h
        · cases h
        · obtain rfl := Option.some.inj h
          exact .ends ht (.awaiting hop (by simpa using ‹¬ s.isAwaited t = true›))
    | silentSave =>
        simp only [hop] at h
        split at h <;> obtain rfl := Option.some.inj h
        · exact .looks ht htodo hop
        · exact .begins ht (.silentSave hop htodo)
    | enqueuing =>
        simp only [hop, Option.some.injEq] at h
        subst h
        exact .enqueued ht hop
    | exclusive rebuild =>
        simp only [hop] at h
        split at h
        · cases h
        · obtain rfl := Option.some.inj h
          exact .passes ht htodo hop ‹_›
    | holding rebuild =>
        simp only [hop, Option.some.injEq] at h
        subst h
        exact .ends ht (.body hop htodo)
    | clearing =>
        simp only [hop, Option.some.injEq] at h
        subst h
        exact .cleared ht hop
  · rw [if_pos htodo] at h
    obtain rfl := Option.some.inj h
    exact .resumes ht htodo

/-- Every step is a move. -/
theorem moves_of_step {cfg : Config} {s s' : State} {a : Label} (h : s.step cfg a = some s') :
    Moves cfg s s' := by
  cases a with
  | arrive a =>
      simp only [State.step] at h
      split at h <;> obtain rfl := Option.some.inj h
      · exact .answered
      · exact .arrives ‹_›
  | run i =>
      obtain ⟨t, ht, h⟩ := Option.bind_eq_some_iff.1 h
      exact moves_of_turn ht h
  | refuse i =>
      obtain ⟨t, ht, h⟩ := Option.bind_eq_some_iff.1 h
      split at h
      · split at h
        · rename_i hop hadmitted
          obtain rfl := Option.some.inj h
          exact .refused ht hop hadmitted.2
        · cases h
      · cases h
  | retry i =>
      obtain ⟨t, ht, h⟩ := Option.bind_eq_some_iff.1 h
      split at h
      · split at h
        · cases h
        · obtain rfl := Option.some.inj h
          exact .begins ht (.again ‹_›)
      · cases h
  | leave i =>
      obtain ⟨t, ht, h⟩ := Option.bind_eq_some_iff.1 h
      split at h
      · obtain rfl := Option.some.inj h
        exact .ends ht (.busy ‹_›)
      · obtain rfl := Option.some.inj h
        exact .leaves ht ‹_›
      · cases h
  | abandon x k =>
      obtain ⟨t, ht, h⟩ := Option.bind_eq_some_iff.1 h
      split at h
      · obtain rfl := Option.some.inj h
        exact .abandons ht ‹_›
      · cases h
  | deadline i =>
      obtain ⟨t, ht, h⟩ := Option.bind_eq_some_iff.1 h
      split at h
      · split at h
        · obtain rfl := Option.some.inj h
          exact .ends ht (.deadline ‹_›)
        · cases h
      · cases h
  | start j =>
      obtain ⟨w, hw, h⟩ := Option.bind_eq_some_iff.1 h
      split at h
      · obtain rfl := Option.some.inj h
        exact .advances hw (.start ‹_›)
      · cases h
  | finish j =>
      obtain ⟨w, hw, h⟩ := Option.bind_eq_some_iff.1 h
      split at h
      · obtain rfl := Option.some.inj h
        exact .advances hw (.finish ‹_›)
      · cases h
  | callback j =>
      obtain ⟨w, hw, h⟩ := Option.bind_eq_some_iff.1 h
      split at h
      · split at h <;> obtain rfl := Option.some.inj h
        · exact .advances hw (.callback ‹_› ‹_›)
        · exact .releases hw ‹_› ‹_›
      · cases h

end PalaceDaemon.Lanes

/-
Steps that can be taken.

To show that a state is reached one writes down the labels that lead there.  The lemmas below say
what the usual labels do in any state that has what they need: a request arrives and takes its
permits, or it waits for the first one; an operation does its work and gives its permit back.
-/
import PalaceDaemon.Lanes.Permits

namespace PalaceDaemon.Lanes

open Semaphore Tasks

variable {cfg : Config} {s : State} {t : Coroutine} {i : ℕ}

/-- The state after a request arrived and took the permits of its plan. -/
def State.started (s : State) (a : Arrival) (op : Op) (plan : List Sem) : State :=
  { s with
    repairing := a.flag s.repairing
    next := s.next + 1
    sems := s.sems.takeAll plan
    ready := s.ready ++ [⟨s.next, op, plan.reverse, []⟩] }

lemma steps_head {s' s'' : State} {a : Label} (h : s.step cfg a = some s')
    (hrest : (laneSystem cfg).Steps s' s'') : (laneSystem cfg).Steps s s'' := .head h hrest

lemma step_arrive {a : Arrival} {op : Op} {plan : List Sem}
    (ha : a.coroutine cfg s = some (op, plan)) :
    s.step cfg (.arrive a) = some ({ s with repairing := a.flag s.repairing }.enroll op plan) := by
  simp [State.step, ha]

lemma step_resume (ht : s.ready[i]? = some t) (htodo : t.todo ≠ []) :
    s.step cfg (.run i) = some (s.resume i t) := by
  simp [State.step, ht, State.turn, htodo]

/-- A coroutine whose permits are free takes them. -/
lemma resume_of_free (hfree : ∀ x, t.todo.count x ≤ s.sems.free x)
    (hqueue : ∀ x ∈ t.todo, s.sems.queue x = []) :
    s.resume i t = { s with
      sems := s.sems.takeAll t.todo
      ready := replaceAt s.ready i [t.advance t.todo []] } := by
  rw [State.resume, acquire_of_free hfree hqueue]
  rfl

lemma enroll_last (s : State) (op : Op) (plan : List Sem) :
    (s.enroll op plan).ready[s.ready.length]? = some ⟨s.next, op, [], plan⟩ := by
  simp [State.enroll]

/-- A request that arrives takes its permits when they are free. -/
lemma exec_start {a : Arrival} {op : Op} {plan : List Sem}
    (ha : a.coroutine cfg s = some (op, plan)) (hplan : plan ≠ [])
    (hfree : ∀ x, plan.count x ≤ s.sems.free x) (hqueue : ∀ x ∈ plan, s.sems.queue x = []) :
    (laneSystem cfg).exec s [.arrive a, .run s.ready.length] = some (s.started a op plan) := by
  have harrive : (laneSystem cfg).next s (.arrive a) = _ := step_arrive ha
  have hrun : (laneSystem cfg).next ({ s with repairing := a.flag s.repairing }.enroll op plan)
      (.run s.ready.length) = _ :=
    step_resume (enroll_last { s with repairing := a.flag s.repairing } op plan) hplan
  rw [StepSystem.exec_cons, harrive, Option.bind_some, StepSystem.exec_cons, hrun,
    Option.bind_some, StepSystem.exec_nil, resume_of_free hfree hqueue]
  simp only [State.enroll, State.started, replaceAt_last]
  simp [Task.advance]

/-- The state after a request arrived, took the permits `xs` and waits for `x`. -/
def State.joined (s : State) (a : Arrival) (op : Op) (xs : List Sem) (x : Sem)
    (rest : List Sem) : State :=
  { s with
    repairing := a.flag s.repairing
    next := s.next + 1
    sems := (s.sems.takeAll xs).join x ⟨s.next, op, xs.reverse, x :: rest⟩ }

/-- A request that arrives takes what is free, and waits for the first semaphore that is locked. -/
lemma exec_join {a : Arrival} {op : Op} {plan xs rest : List Sem} {x : Sem}
    (ha : a.coroutine cfg s = some (op, plan)) (hplan : plan = xs ++ x :: rest)
    (hfree : ∀ y, xs.count y ≤ s.sems.free y) (hqueue : ∀ y ∈ xs, s.sems.queue y = [])
    (hlocked : s.sems.free x - xs.count x = 0 ∨ s.sems.queue x ≠ []) :
    (laneSystem cfg).exec s [.arrive a, .run s.ready.length] =
      some (s.joined a op xs x rest) := by
  have harrive : (laneSystem cfg).next s (.arrive a) = _ := step_arrive ha
  have hne : plan ≠ [] := by simp [hplan]
  have hrun : (laneSystem cfg).next ({ s with repairing := a.flag s.repairing }.enroll op plan)
      (.run s.ready.length) = _ :=
    step_resume (enroll_last { s with repairing := a.flag s.repairing } op plan) hne
  have hacquire : acquire s.sems ⟨s.next, op, [], plan⟩ =
      ((s.sems.takeAll xs).join x ⟨s.next, op, xs.reverse, x :: rest⟩, none) := by
    have htake := acquire_take (t := (⟨s.next, op, [], plan⟩ : Coroutine)) hplan hfree hqueue
    rw [htake]
    have hwait := acquire_locked (s := s.sems.takeAll xs)
      (t := Task.advance (⟨s.next, op, [], plan⟩ : Coroutine) xs (x :: rest)) rfl hlocked
    simpa [Task.advance] using hwait
  rw [StepSystem.exec_cons, harrive, Option.bind_some, StepSystem.exec_cons, hrun,
    Option.bind_some, StepSystem.exec_nil]
  simp only [State.resume, State.enroll, State.joined, hacquire, replaceAt_last,
    Option.toList_none, List.append_nil]

end PalaceDaemon.Lanes

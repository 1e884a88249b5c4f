/-
Counting semaphores with first-come-first-served queues.

A task takes permits of several semaphores, one at a time and in the order of its plan: `held`
are the permits it has (the last one first), `todo` the semaphores it has yet to take.  A task
takes what is free without giving up control; at the first semaphore that is locked (no free
permit, or somebody waits already) it joins the queue (`acquire`).  A permit that is given back
goes to the first task of the queue, which goes on from there (`release`).

`acquire_spec` says what an acquisition does, and everything else about it follows.  Two facts
are used of such systems.  Permits are conserved: what is free, held by waiting tasks and held
by the others adds up (`acquire_permits`, `releaseAll_permits`).  And a queue is orderly: nobody
waits for a semaphore that has a free permit, and everybody waits for what comes next in the
plan (`Orderly`).  Sums over the waiting tasks (`Sems.weigh`) serve for counts and for measures.
-/
import Mathlib.Algebra.BigOperators.Group.Finset.Basic
import Mathlib.Algebra.BigOperators.Group.List.Basic
import Mathlib.Algebra.BigOperators.Ring.Finset
import Mathlib.Algebra.BigOperators.Ring.List
import Mathlib.Algebra.Order.BigOperators.Group.Finset
import Mathlib.Algebra.Order.BigOperators.Group.List
import Mathlib.Algebra.Order.Group.Nat
import Mathlib.Data.Fintype.Basic
import Mathlib.Tactic.Common
import PalaceDaemon.Lib.Tasks

namespace Semaphore

/-- A task on its way through the semaphores of its plan. -/
structure Task (κ β : Type*) where
  name : ℕ
  op : β
  held : List κ
  todo : List κ
deriving DecidableEq, Repr

/-- The free permits of each semaphore, and the tasks that wait for it. -/
structure Sems (κ β : Type*) where
  free : κ → ℕ
  queue : κ → List (Task κ β)

variable {κ β : Type*}

/-- The semaphores of the plan of a task, in order. -/
def Task.plan (t : Task κ β) : List κ := t.held.reverse ++ t.todo

/-- The task after it took the permits `xs`, with `rest` still to take. -/
def Task.advance (t : Task κ β) (xs rest : List κ) : Task κ β :=
  { t with held := xs.reverse ++ t.held, todo := rest }

/-- The task after it was handed a permit of `x`. -/
def Task.handed (t : Task κ β) (x : κ) : Task κ β :=
  { t with held := x :: t.held, todo := t.todo.tail }

@[simp] lemma advance_name (t : Task κ β) (xs rest : List κ) :
    (t.advance xs rest).name = t.name := rfl

@[simp] lemma advance_op (t : Task κ β) (xs rest : List κ) : (t.advance xs rest).op = t.op := rfl

@[simp] lemma advance_todo (t : Task κ β) (xs rest : List κ) :
    (t.advance xs rest).todo = rest := rfl

lemma advance_plan {t : Task κ β} {xs rest : List κ} (h : t.todo = xs ++ rest) :
    (t.advance xs rest).plan = t.plan := by
  simp [Task.plan, Task.advance, h]

@[simp] lemma handed_name (t : Task κ β) (x : κ) : (t.handed x).name = t.name := rfl

@[simp] lemma handed_op (t : Task κ β) (x : κ) : (t.handed x).op = t.op := rfl

lemma handed_plan {t : Task κ β} {x : κ} (h : t.todo.head? = some x) :
    (t.handed x).plan = t.plan := by
  obtain ⟨rest, hrest⟩ := List.head?_eq_some_iff.1 h
  simp [Task.plan, Task.handed, hrest]

variable [DecidableEq κ]

/-- The permits of `x` that a task holds. -/
def Task.count (t : Task κ β) (x : κ) : ℕ := t.held.count x

/-- The permits `xs` are taken. -/
def Sems.takeAll (s : Sems κ β) (xs : List κ) : Sems κ β :=
  { s with free := fun x => s.free x - xs.count x }

/-- One more task in the queue. -/
def Sems.join (s : Sems κ β) (x : κ) (t : Task κ β) : Sems κ β :=
  { s with queue := Function.update s.queue x (s.queue x ++ [t]) }

/-- Take the permits of `todo` up to the first semaphore that is locked.  The task comes back
when it has them all. -/
def acquireFrom (name : ℕ) (op : β) :
    Sems κ β → List κ → List κ → Sems κ β × Option (Task κ β)
  | s, held, [] => (s, some ⟨name, op, held, []⟩)
  | s, held, x :: todo =>
      if 0 < s.free x ∧ s.queue x = [] then
        acquireFrom name op (s.takeAll [x]) (x :: held) todo
      else (s.join x ⟨name, op, held, x :: todo⟩, none)

/-- `Semaphore.acquire`, for the rest of the plan of a task. -/
def acquire (s : Sems κ β) (t : Task κ β) : Sems κ β × Option (Task κ β) :=
  acquireFrom t.name t.op s t.held t.todo

/-- `Semaphore.release`: the permit goes to the first task that waits. -/
def release (s : Sems κ β) (x : κ) : Sems κ β × List (Task κ β) :=
  match s.queue x with
  | [] => ({ s with free := Function.update s.free x (s.free x + 1) }, [])
  | t :: ts => ({ s with queue := Function.update s.queue x ts }, [t.handed x])

/-- Give back several permits, in this order. -/
def releaseAll : Sems κ β → List κ → Sems κ β × List (Task κ β)
  | s, [] => (s, [])
  | s, x :: xs =>
      ((releaseAll (release s x).1 xs).1, (release s x).2 ++ (releaseAll (release s x).1 xs).2)

/-- The task at `k` of a queue waits no longer. -/
def Sems.drop (s : Sems κ β) (x : κ) (k : ℕ) : Sems κ β :=
  { s with queue := Function.update s.queue x (Tasks.others (s.queue x) k) }

lemma release_cons {s : Sems κ β} {x : κ} {t : Task κ β} {ts : List (Task κ β)}
    (h : s.queue x = t :: ts) :
    release s x = ({ s with queue := Function.update s.queue x ts }, [t.handed x]) := by
  simp [release, h]

/-! ### What an acquisition does -/

@[simp] lemma takeAll_nil (s : Sems κ β) : s.takeAll [] = s := by
  simp [Sems.takeAll]

lemma takeAll_takeAll (s : Sems κ β) (xs ys : List κ) :
    (s.takeAll xs).takeAll ys = s.takeAll (xs ++ ys) := by
  unfold Sems.takeAll
  congr 1
  funext x
  rw [List.count_append, Nat.sub_sub]

lemma join_mem {s : Sems κ β} {x y : κ} {t u : Task κ β} :
    u ∈ (s.join x t).queue y ↔ u ∈ s.queue y ∨ (u = t ∧ y = x) := by
  unfold Sems.join
  by_cases hyx : y = x
  · subst hyx
    simp
  · simp [hyx]

/-- The task takes a part `xs` of its plan that is free; then it has everything, or it waits
for a semaphore that is locked. -/
theorem acquire_spec (s : Sems κ β) (t : Task κ β) :
    ∃ xs rest, t.todo = xs ++ rest ∧ (∀ x, xs.count x ≤ s.free x) ∧
      ((rest = [] ∧ acquire s t = (s.takeAll xs, some (t.advance xs []))) ∨
        ∃ x rest', rest = x :: rest' ∧ (s.free x = xs.count x ∨ s.queue x ≠ []) ∧
          acquire s t = ((s.takeAll xs).join x (t.advance xs rest), none)) := by
  obtain ⟨name, op, held, todo⟩ := t
  unfold acquire
  induction todo generalizing s held with
  | nil => exact ⟨[], [], rfl, by simp, .inl ⟨rfl, by simp [acquireFrom, Task.advance]⟩⟩
  | cons y todo ih =>
      by_cases hfree : 0 < s.free y ∧ s.queue y = []
      · -- one permit more, and on with the rest
        obtain ⟨xs, rest, htodo, hcount, hend⟩ := ih (s.takeAll [y]) (y :: held)
        have hle : ∀ x, (y :: xs).count x ≤ s.free x := by
          intro x
          have hx := hcount x
          simp only [Sems.takeAll, List.count_cons, List.count_nil] at hx ⊢
          by_cases hxy : y = x
          · subst hxy
            have hpos := hfree.1
            simp only [beq_self_eq_true, if_true] at hx ⊢
            omega
          · simp only [beq_iff_eq, hxy, if_false] at hx ⊢
            omega
        refine ⟨y :: xs, rest, by simpa using htodo, hle, ?_⟩
        have hstep : acquireFrom name op s held (y :: todo) =
            acquireFrom name op (s.takeAll [y]) (y :: held) todo := by
          rw [acquireFrom, if_pos hfree]
        rcases hend with ⟨hrest, heq⟩ | ⟨x, rest', hrest, hlocked, heq⟩
        · refine .inl ⟨hrest, ?_⟩
          rw [hstep, heq, takeAll_takeAll]
          simp [Task.advance]
        · refine .inr ⟨x, rest', hrest, ?_, ?_⟩
          · refine hlocked.imp_left fun hx => ?_
            have hlex := hle x
            simp only [Sems.takeAll, List.count_cons, List.count_nil] at hx hlex ⊢
            omega
          · rw [hstep, heq, takeAll_takeAll]
            simp [Task.advance]
      · refine ⟨[], y :: todo, rfl, by simp, .inr ⟨y, todo, rfl, ?_, ?_⟩⟩
        · by_cases hqueue : s.queue y = []
          · refine .inl ?_
            have hnot : ¬ 0 < s.free y := fun hpos => hfree ⟨hpos, hqueue⟩
            simpa using hnot
          · exact .inr hqueue
        · rw [acquireFrom, if_neg hfree]
          simp [Task.advance]

/-- A task takes `xs` when they are free and nobody waits for them, and then it goes on. -/
lemma acquire_take {s : Sems κ β} {t : Task κ β} {xs rest : List κ} (htodo : t.todo = xs ++ rest)
    (hfree : ∀ x, xs.count x ≤ s.free x) (hqueue : ∀ x ∈ xs, s.queue x = []) :
    acquire s t = acquire (s.takeAll xs) (t.advance xs rest) := by
  obtain ⟨name, op, held, todo⟩ := t
  obtain rfl : todo = xs ++ rest := htodo
  unfold acquire
  induction xs generalizing s held with
  | nil => simp [Task.advance]
  | cons x xs ih =>
      have hpos : 0 < s.free x := lt_of_lt_of_le (by simp) (hfree x)
      have htail : ∀ y, xs.count y ≤ (s.takeAll [x]).free y := by
        intro y
        have hy := hfree y
        show xs.count y ≤ s.free y - [x].count y
        rw [List.count_cons] at hy
        rw [List.count_singleton]
        omega
      have hrest := ih htail (fun y hy => hqueue y (List.mem_cons_of_mem x hy)) (x :: held)
      rw [takeAll_takeAll] at hrest
      show acquireFrom name op s held (x :: (xs ++ rest)) = _
      rw [acquireFrom, if_pos ⟨hpos, hqueue x List.mem_cons_self⟩]
      simpa [Task.advance] using hrest

/-- A task that wants a locked semaphore next waits for it. -/
lemma acquire_locked {s : Sems κ β} {t : Task κ β} {x : κ} {rest : List κ}
    (htodo : t.todo = x :: rest) (hlocked : s.free x = 0 ∨ s.queue x ≠ []) :
    acquire s t = (s.join x t, none) := by
  obtain ⟨name, op, held, todo⟩ := t
  obtain rfl : todo = x :: rest := htodo
  have hnot : ¬ (0 < s.free x ∧ s.queue x = []) := by
    rintro ⟨hpos, hnil⟩
    rcases hlocked with hzero | hne
    · omega
    · exact hne hnil
  show acquireFrom name op s held (x :: rest) = _
  rw [acquireFrom, if_neg hnot]

/-- A task takes all it wants when that is free and nobody waits for it. -/
lemma acquire_of_free {s : Sems κ β} {t : Task κ β} (hfree : ∀ x, t.todo.count x ≤ s.free x)
    (hqueue : ∀ x ∈ t.todo, s.queue x = []) :
    acquire s t = (s.takeAll t.todo, some (t.advance t.todo [])) := by
  rw [acquire_take (List.append_nil _).symm hfree hqueue]
  rfl

/-! ### Orderly queues -/

/-- Nobody waits for a semaphore with a free permit, and everybody waits for what is next in
the plan. -/
structure Orderly (s : Sems κ β) : Prop where
  locked : ∀ x, s.queue x ≠ [] → s.free x = 0
  waits : ∀ x, ∀ t ∈ s.queue x, t.todo.head? = some x

omit [DecidableEq κ] in
/-- With fewer tasks in the queues they stay orderly. -/
lemma Orderly.mono {s s' : Sems κ β} (h : Orderly s) (hfree : s'.free = s.free)
    (hqueue : ∀ x, ∀ t ∈ s'.queue x, t ∈ s.queue x) : Orderly s' := by
  refine ⟨fun x hx => ?_, fun x t ht => h.waits x t (hqueue x t ht)⟩
  obtain ⟨t, ht⟩ := List.exists_mem_of_ne_nil _ hx
  rw [hfree]
  exact h.locked x (List.ne_nil_of_mem (hqueue x t ht))

lemma mem_queue_of_drop {s : Sems κ β} {x y : κ} {k : ℕ} {t u : Task κ β}
    (ht : (s.queue x)[k]? = some t) (hu : u ∈ (s.drop x k).queue y) : u ∈ s.queue y := by
  by_cases hyx : y = x
  · subst hyx
    have hothers : u ∈ Tasks.others (s.queue y) k := by
      simpa [Sems.drop] using hu
    exact Tasks.mem_of_mem_others ht hothers
  · simpa [Sems.drop, hyx] using hu

lemma orderly_drop {s : Sems κ β} (h : Orderly s) {x : κ} {k : ℕ} {t : Task κ β}
    (ht : (s.queue x)[k]? = some t) : Orderly (s.drop x k) :=
  h.mono rfl fun _ _ hu => mem_queue_of_drop ht hu

lemma orderly_acquire {s : Sems κ β} (h : Orderly s) (t : Task κ β) :
    Orderly (acquire s t).1 := by
  obtain ⟨xs, rest, htodo, hcount, ⟨-, heq⟩ | ⟨x, rest', rfl, hlocked, heq⟩⟩ := acquire_spec s t
  · rw [heq]
    refine ⟨fun y hy => ?_, h.waits⟩
    have hfree := h.locked y hy
    simp [Sems.takeAll, hfree]
  · rw [heq]
    refine ⟨fun y hy => ?_, fun y u hu => ?_⟩
    · show s.free y - xs.count y = 0
      by_cases hyx : y = x
      · subst hyx
        rcases hlocked with hfree | hqueue
        · omega
        · have hfree := h.locked y hqueue
          omega
      · have hqueue : s.queue y ≠ [] := by
          simpa [Sems.join, Sems.takeAll, Function.update_of_ne hyx] using hy
        have hfree := h.locked y hqueue
        omega
    · rcases join_mem.1 hu with hu | ⟨rfl, rfl⟩
      · exact h.waits y u hu
      · rfl

lemma orderly_release {s : Sems κ β} (h : Orderly s) (x : κ) : Orderly (release s x).1 := by
  unfold release
  cases hq : s.queue x with
  | nil =>
      refine ⟨fun y hy => ?_, h.waits⟩
      have hyx : y ≠ x := fun heq => hy (by rw [heq]; exact hq)
      show Function.update s.free x (s.free x + 1) y = 0
      rw [Function.update_of_ne hyx]
      exact h.locked y hy
  | cons t ts =>
      have hsub : ∀ y, ∀ u ∈ Function.update s.queue x ts y, u ∈ s.queue y := by
        intro y u hu
        by_cases hyx : y = x
        · subst hyx
          rw [Function.update_self] at hu
          rw [hq]
          exact List.mem_cons_of_mem t hu
        · rwa [Function.update_of_ne hyx] at hu
      exact h.mono rfl hsub

lemma orderly_releaseAll {s : Sems κ β} (h : Orderly s) (xs : List κ) :
    Orderly (releaseAll s xs).1 := by
  induction xs generalizing s with
  | nil => exact h
  | cons x xs ih => exact ih (orderly_release h x)

/-! ### Who waits, and who goes on -/

/-- The tasks that wait after a release waited before. -/
lemma mem_queue_of_release {s : Sems κ β} {x y : κ} {t : Task κ β}
    (h : t ∈ (release s x).1.queue y) : t ∈ s.queue y := by
  unfold release at h
  cases hq : s.queue x with
  | nil => simpa [hq] using h
  | cons u us =>
      rw [hq] at h
      by_cases hyx : y = x
      · subst hyx
        simp only [Function.update_self] at h
        rw [hq]
        exact List.mem_cons_of_mem u h
      · simpa [Function.update_of_ne hyx] using h

/-- A task that a release wakes was handed the permit. -/
lemma woken_of_release {s : Sems κ β} {x : κ} {t : Task κ β} (h : t ∈ (release s x).2) :
    ∃ u ∈ s.queue x, t = u.handed x := by
  unfold release at h
  cases hq : s.queue x with
  | nil => simp [hq] at h
  | cons u us => exact ⟨u, List.mem_cons_self, by simpa [hq] using h⟩

/-- A task that waits is still waiting after a release, or was woken by it. -/
lemma waits_or_woken {s : Sems κ β} {x y : κ} {t : Task κ β} (h : t ∈ s.queue y) :
    t ∈ (release s x).1.queue y ∨ ∃ u ∈ (release s x).2, u.name = t.name := by
  unfold release
  cases hq : s.queue x with
  | nil => exact .inl h
  | cons u us =>
      by_cases hyx : y = x
      · subst hyx
        rw [hq] at h
        rcases List.mem_cons.1 h with rfl | h
        · exact .inr ⟨_, List.mem_singleton.2 rfl, rfl⟩
        · exact .inl (by simpa using h)
      · exact .inl (by simpa [Function.update_of_ne hyx] using h)

lemma mem_queue_of_releaseAll {s : Sems κ β} {xs : List κ} {y : κ} {t : Task κ β}
    (h : t ∈ (releaseAll s xs).1.queue y) : t ∈ s.queue y := by
  induction xs generalizing s with
  | nil => exact h
  | cons x xs ih => exact mem_queue_of_release (ih h)

lemma woken_of_releaseAll {s : Sems κ β} {xs : List κ} {t : Task κ β}
    (h : t ∈ (releaseAll s xs).2) : ∃ x, ∃ u ∈ s.queue x, t = u.handed x := by
  induction xs generalizing s with
  | nil => cases h
  | cons x xs ih =>
      rcases List.mem_append.1 h with h | h
      · exact ⟨x, woken_of_release h⟩
      · obtain ⟨y, u, hu, rfl⟩ := ih h
        exact ⟨y, u, mem_queue_of_release hu, rfl⟩

lemma waits_or_woken_all {s : Sems κ β} {xs : List κ} {y : κ} {t : Task κ β}
    (h : t ∈ s.queue y) :
    t ∈ (releaseAll s xs).1.queue y ∨ ∃ u ∈ (releaseAll s xs).2, u.name = t.name := by
  induction xs generalizing s with
  | nil => exact .inl h
  | cons x xs ih =>
      rcases waits_or_woken (x := x) h with h | ⟨u, hu, hname⟩
      · exact (ih h).imp_right fun ⟨u, hu, hname⟩ => ⟨u, List.mem_append_right _ hu, hname⟩
      · exact .inr ⟨u, List.mem_append_left _ hu, hname⟩

/-- Who waits keeps waiting when somebody else acquires. -/
lemma mem_queue_acquire {s : Sems κ β} {t u : Task κ β} {y : κ} (h : u ∈ s.queue y) :
    u ∈ (acquire s t).1.queue y := by
  obtain ⟨xs, rest, htodo, hcount, ⟨-, heq⟩ | ⟨x, rest', rfl, hlocked, heq⟩⟩ := acquire_spec s t
  · rw [heq]
    exact h
  · rw [heq]
    exact join_mem.2 (.inl h)

/-- A task that comes back has all it wanted; one that does not waits with the same plan. -/
lemma acquire_some {s : Sems κ β} {t u : Task κ β} (h : (acquire s t).2 = some u) :
    u.name = t.name ∧ u.op = t.op ∧ u.plan = t.plan ∧ u.todo = [] := by
  obtain ⟨xs, rest, htodo, hcount, ⟨rfl, heq⟩ | ⟨x, rest', rfl, hlocked, heq⟩⟩ := acquire_spec s t
  · rw [heq] at h
    obtain rfl := Option.some.inj h
    exact ⟨rfl, rfl, advance_plan htodo, rfl⟩
  · rw [heq] at h
    cases h

lemma mem_queue_of_acquire {s : Sems κ β} {t u : Task κ β} {y : κ}
    (h : u ∈ (acquire s t).1.queue y) :
    u ∈ s.queue y ∨ (u.name = t.name ∧ u.op = t.op ∧ u.plan = t.plan ∧ u.todo <:+ t.todo) := by
  obtain ⟨xs, rest, htodo, hcount, ⟨-, heq⟩ | ⟨x, rest', rfl, hlocked, heq⟩⟩ := acquire_spec s t
  · rw [heq] at h
    exact .inl h
  · rw [heq] at h
    rcases join_mem.1 h with h | ⟨rfl, -⟩
    · exact .inl h
    · exact .inr ⟨rfl, rfl, advance_plan htodo, xs, htodo.symm⟩

/-- A release of other semaphores leaves a queue alone. -/
lemma queue_releaseAll {s : Sems κ β} {x : κ} {xs : List κ} (hx : x ∉ xs) :
    (releaseAll s xs).1.queue x = s.queue x := by
  induction xs generalizing s with
  | nil => rfl
  | cons y ys ih =>
      rw [List.mem_cons, not_or] at hx
      show (releaseAll (release s y).1 ys).1.queue x = _
      rw [ih hx.2]
      unfold release
      cases hq : s.queue y with
      | nil => rfl
      | cons t ts => exact Function.update_of_ne hx.1 _ _

/-- An acquisition adds at most to the end of a queue. -/
lemma queue_acquire (s : Sems κ β) (t : Task κ β) (y : κ) :
    ∃ us, (acquire s t).1.queue y = s.queue y ++ us := by
  obtain ⟨xs, rest, htodo, hcount, ⟨-, heq⟩ | ⟨x, rest', rfl, hlocked, heq⟩⟩ := acquire_spec s t
  · exact ⟨[], by rw [heq, List.append_nil]; rfl⟩
  · rw [heq]
    by_cases hyx : y = x
    · subst hyx
      exact ⟨[t.advance xs (y :: rest')], Function.update_self _ _ _⟩
    · exact ⟨[], by rw [List.append_nil]; exact Function.update_of_ne hyx _ _⟩

/-! ### Sums over the tasks -/

section sums

variable (w : Task κ β → ℕ)

/-- A sum over tasks. -/
def weigh (ts : List (Task κ β)) : ℕ := (ts.map w).sum

omit [DecidableEq κ] in
@[simp] lemma weigh_nil : weigh w ([] : List (Task κ β)) = 0 := rfl

omit [DecidableEq κ] in
@[simp] lemma weigh_cons (t : Task κ β) (ts : List (Task κ β)) :
    weigh w (t :: ts) = w t + weigh w ts := by
  simp [weigh]

omit [DecidableEq κ] in
@[simp] lemma weigh_append (ts us : List (Task κ β)) :
    weigh w (ts ++ us) = weigh w ts + weigh w us := by
  simp [weigh]

omit [DecidableEq κ] in
lemma le_weigh {t : Task κ β} {ts : List (Task κ β)} (h : t ∈ ts) : w t ≤ weigh w ts :=
  List.single_le_sum (by simp) _ (List.mem_map_of_mem h)

omit [DecidableEq κ] in
/-- A sum over tasks, with the one at `i` first. -/
lemma weigh_eq {ts : List (Task κ β)} {i : ℕ} {t : Task κ β} (ht : ts[i]? = some t) :
    weigh w ts = w t + weigh w (Tasks.others ts i) :=
  Tasks.sum_eq w ht

omit [DecidableEq κ] in
lemma weigh_replaceAt (ts : List (Task κ β)) (i : ℕ) (us : List (Task κ β)) :
    weigh w (Tasks.replaceAt ts i us) = weigh w us + weigh w (Tasks.others ts i) :=
  Tasks.sum_replaceAt w ts i us

variable [Fintype κ]

/-- A sum over the tasks that wait. -/
def Sems.weigh (s : Sems κ β) : ℕ := ∑ y, Semaphore.weigh w (s.queue y)

omit [DecidableEq κ] in
/-- One queue weighs at most what all of them do. -/
lemma weigh_queue_le (s : Sems κ β) (x : κ) : weigh w (s.queue x) ≤ s.weigh w :=
  Finset.single_le_sum (f := fun y => weigh w (s.queue y)) (fun _ _ => Nat.zero_le _)
    (Finset.mem_univ x)

omit [DecidableEq κ] in
lemma le_weigh_queue {s : Sems κ β} {x : κ} {t : Task κ β} (h : t ∈ s.queue x) :
    w t ≤ s.weigh w :=
  (le_weigh w h).trans (weigh_queue_le w s x)

omit [DecidableEq κ] in
/-- Where a sum is positive, a task is. -/
lemma exists_of_weigh_pos {s : Sems κ β} (h : 0 < s.weigh w) :
    ∃ y, ∃ t ∈ s.queue y, 0 < w t := by
  by_contra hnone
  have hzero : s.weigh w = 0 := by
    refine Finset.sum_eq_zero fun y _ => List.sum_eq_zero fun n hn => ?_
    obtain ⟨t, ht, rfl⟩ := List.mem_map.1 hn
    exact Nat.eq_zero_of_not_pos fun hpos => hnone ⟨y, t, ht, hpos⟩
  omega

omit [DecidableEq κ] in
/-- Sums compare as their terms do. -/
lemma weigh_le_mul {s : Sems κ β} {w v : Task κ β → ℕ} {c : ℕ}
    (h : ∀ y, ∀ t ∈ s.queue y, w t ≤ c * v t) : s.weigh w ≤ c * s.weigh v := by
  unfold Sems.weigh
  rw [Finset.mul_sum]
  refine Finset.sum_le_sum fun y _ => ?_
  rw [weigh, weigh, ← List.sum_map_mul_left]
  exact List.sum_le_sum fun t ht => h y t ht

/-- The sum over the waiting tasks when one queue is exchanged. -/
lemma weigh_update (s : Sems κ β) (y : κ) (q : List (Task κ β)) :
    Sems.weigh w { s with queue := Function.update s.queue y q } + weigh w (s.queue y) =
      s.weigh w + weigh w q := by
  have hnew : Sems.weigh w { s with queue := Function.update s.queue y q } =
      weigh w q + ∑ z ∈ Finset.univ.erase y, weigh w (s.queue z) := by
    show ∑ z, weigh w (Function.update s.queue y q z) = _
    rw [← Finset.add_sum_erase _ _ (Finset.mem_univ y)]
    congr 1
    · simp
    · refine Finset.sum_congr rfl fun z hz => ?_
      rw [Function.update_of_ne (Finset.ne_of_mem_erase hz)]
  have hold : s.weigh w = weigh w (s.queue y) + ∑ z ∈ Finset.univ.erase y, weigh w (s.queue z) :=
    (Finset.add_sum_erase _ _ (Finset.mem_univ y)).symm
  omega

lemma weigh_join (s : Sems κ β) (x : κ) (t : Task κ β) :
    (s.join x t).weigh w = s.weigh w + w t := by
  have hupdate := weigh_update w s x (s.queue x ++ [t])
  rw [weigh_append, weigh_cons, weigh_nil] at hupdate
  show Sems.weigh w { s with queue := Function.update s.queue x (s.queue x ++ [t]) } = _
  omega

@[simp] lemma weigh_takeAll (s : Sems κ β) (xs : List κ) :
    (s.takeAll xs).weigh w = s.weigh w := rfl

lemma weigh_drop {s : Sems κ β} {x : κ} {k : ℕ} {t : Task κ β}
    (ht : (s.queue x)[k]? = some t) : (s.drop x k).weigh w + w t = s.weigh w := by
  have hupdate := weigh_update w s x (Tasks.others (s.queue x) k)
  have hsum := weigh_eq w ht
  show Sems.weigh w { s with queue := Function.update s.queue x _ } + w t = _
  omega

/-- What an acquisition does to a sum: the task weighs at most `b` afterwards, whether it waits
or comes back. -/
lemma weigh_acquire_le {w w' : Task κ β → ℕ} {b : ℕ} (s : Sems κ β) (t : Task κ β)
    (hwaits : ∀ xs x rest, t.todo = xs ++ x :: rest → w (t.advance xs (x :: rest)) ≤ b)
    (hback : w' (t.advance t.todo []) ≤ b) :
    (acquire s t).1.weigh w + weigh w' (acquire s t).2.toList ≤ s.weigh w + b := by
  obtain ⟨xs, rest, htodo, hcount, ⟨rfl, heq⟩ | ⟨x, rest', rfl, hlocked, heq⟩⟩ := acquire_spec s t
  · rw [heq]
    obtain rfl : t.todo = xs := by simpa using htodo
    simpa using hback
  · rw [heq]
    have hle := hwaits xs x rest' htodo
    rw [weigh_join, weigh_takeAll]
    simpa using hle

/-- A release moves the first waiting task out of the sum. -/
lemma weigh_release (s : Sems κ β) (x : κ) :
    ∃ ts : List (Task κ β), (∀ t ∈ ts, t ∈ s.queue x) ∧ (release s x).2 = ts.map (·.handed x) ∧
      (release s x).1.weigh w + weigh w ts = s.weigh w := by
  unfold release
  cases hq : s.queue x with
  | nil => exact ⟨[], by simp, rfl, rfl⟩
  | cons t us =>
      refine ⟨[t], by simp, rfl, ?_⟩
      have hupdate := weigh_update w s x us
      rw [hq, weigh_cons] at hupdate
      rw [weigh_cons, weigh_nil]
      show Sems.weigh w { s with queue := Function.update s.queue x us } + (w t + 0) = _
      omega

/-- What releases do to a sum: tasks that are handed a permit weigh no more than before. -/
lemma weigh_releaseAll_le {w w' : Task κ β → ℕ}
    (hw : ∀ t x, t.todo.head? = some x → w' (t.handed x) ≤ w t) {s : Sems κ β} (h : Orderly s)
    (xs : List κ) : (releaseAll s xs).1.weigh w + weigh w' (releaseAll s xs).2 ≤ s.weigh w := by
  induction xs generalizing s with
  | nil => simp [releaseAll]
  | cons x xs ih =>
      obtain ⟨ts, hmem, hwoken, hsum⟩ := weigh_release w s x
      have hrest := ih (orderly_release h x)
      have hle : weigh w' (release s x).2 ≤ weigh w ts := by
        rw [hwoken, weigh, weigh, List.map_map]
        exact List.sum_le_sum fun t ht => hw t x (h.waits x t (hmem t ht))
      simp only [releaseAll, weigh_append]
      omega

end sums

/-! ### Permits are conserved -/

section permits

variable [Fintype κ]

/-- The permits of `x` that are free or held, when the tasks `ts` do not wait. -/
def permits (s : Sems κ β) (ts : List (Task κ β)) (x : κ) : ℕ :=
  s.free x + s.weigh (·.count x) + weigh (·.count x) ts

lemma permits_append (s : Sems κ β) (ts us : List (Task κ β)) (x : κ) :
    permits s (ts ++ us) x = permits s ts x + weigh (·.count x) us := by
  simp only [permits, weigh_append, Nat.add_assoc]

/-- Taking permits conserves them. -/
theorem acquire_permits (s : Sems κ β) (t : Task κ β) (x : κ) :
    permits (acquire s t).1 (acquire s t).2.toList x = permits s [t] x := by
  obtain ⟨xs, rest, htodo, hcount, ⟨-, heq⟩ | ⟨y, rest', rfl, hlocked, heq⟩⟩ := acquire_spec s t
  all_goals
    have hx := hcount x
    have hheld : ∀ rest, (t.advance xs rest).count x = xs.count x + t.count x := fun rest => by
      simp [Task.count, Task.advance]
    rw [heq]
  · simp only [permits, weigh_takeAll, Option.toList_some, weigh_cons, weigh_nil, hheld]
    show s.free x - xs.count x + _ + _ = _
    omega
  · simp only [permits, weigh_join, weigh_takeAll, Option.toList_none, weigh_cons, weigh_nil,
      hheld]
    show s.free x - xs.count x + _ + _ = _
    omega

lemma release_permits (s : Sems κ β) (y x : κ) :
    permits (release s y).1 (release s y).2 x = permits s [] x + [y].count x := by
  unfold release
  cases hq : s.queue y with
  | nil =>
      show Function.update s.free y (s.free y + 1) x + s.weigh _ + 0 = _
      by_cases hxy : x = y
      · subst hxy
        simp [permits]
        omega
      · have hne : (y == x) = false := beq_false_of_ne (Ne.symm hxy)
        rw [Function.update_of_ne hxy]
        simp [permits, List.count_cons, hne]
  | cons t ts =>
      have hupdate := weigh_update (·.count x) s y ts
      rw [hq, weigh_cons] at hupdate
      simp only [permits, weigh_cons, weigh_nil, Task.count, Task.handed, List.count_cons,
        List.count_nil] at hupdate ⊢
      omega

/-- Giving permits back conserves them. -/
theorem releaseAll_permits (s : Sems κ β) (xs : List κ) (x : κ) :
    permits (releaseAll s xs).1 (releaseAll s xs).2 x = permits s [] x + xs.count x := by
  induction xs generalizing s with
  | nil => simp [releaseAll]
  | cons y ys ih =>
      have hone := release_permits s y x
      have hrest := ih (release s y).1
      rw [List.count_cons]
      simp only [releaseAll, permits, weigh_append, weigh_nil, List.count_cons,
        List.count_nil] at hone hrest ⊢
      omega

end permits

end Semaphore

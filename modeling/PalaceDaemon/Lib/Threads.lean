/-
Threads that share a state.

A step belongs to one thread: it changes the shared state and what the thread has of its own.  What
is said of each thread and the shared state holds after the step if the thread that moves has it,
and if the change of the shared state does not take it from the others (`forall_move`).
-/
import Mathlib.Data.Nat.Notation
import Mathlib.Logic.Function.Basic

/-- A shared state, and what each thread has of its own. -/
structure Threads (σ τ : Type*) where
  shared : σ
  own : ℕ → τ

namespace Threads

variable {σ τ : Type*} {s : Threads σ τ} {i j : ℕ} {x : σ} {t : τ}

/-- The thread `i` moves. -/
def move (s : Threads σ τ) (i : ℕ) (x : σ) (t : τ) : Threads σ τ := ⟨x, Function.update s.own i t⟩

@[simp] lemma shared_move : (s.move i x t).shared = x := rfl

@[simp] lemma own_move_self : (s.move i x t).own i = t := Function.update_self ..

lemma own_move_of_ne (h : j ≠ i) : (s.move i x t).own j = s.own j := Function.update_of_ne h ..

/-- **Interference.**  What the thread that moves has, and the others keep, all threads have. -/
lemma forall_move {P : σ → ℕ → τ → Prop} (h : ∀ j, P s.shared j (s.own j)) (hself : P x i t)
    (hothers : ∀ j, j ≠ i → P s.shared j (s.own j) → P x j (s.own j)) :
    ∀ j, P x j ((s.move i x t).own j) := by
  intro j
  by_cases hj : j = i
  · subst hj
    rw [own_move_self]
    exact hself
  · rw [own_move_of_ne hj]
    exact hothers j hj (h j)

/-- A thread that has something moves to have something else, or another one moves. -/
lemma exists_move {P : ℕ → τ → Prop} (h : ∃ j, P j (s.own j)) (hself : P i (s.own i) → P i t) :
    ∃ j, P j ((s.move i x t).own j) := by
  obtain ⟨j, hj⟩ := h
  refine ⟨j, ?_⟩
  by_cases hji : j = i
  · subst hji
    rw [own_move_self]
    exact hself hj
  · rwa [own_move_of_ne hji]

end Threads

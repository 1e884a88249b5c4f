/-
Tasks in a list.

A scheduler that may run any of its tasks next is a list of tasks and the index of the one
whose turn it is.  The turn exchanges that task for the tasks that go on from it: none when it
returns, itself in its next state, or more when it starts another.  `replaceAt` is that
exchange, and `others` are the tasks whose turn it is not.

What one wants to know of a turn does not depend on the order of the tasks, so the two facts
about it are permutations.  Sums over the tasks, counts and membership follow.
-/
import Mathlib.Algebra.BigOperators.Group.List.Basic
import Mathlib.Tactic.Common

namespace Tasks

variable {τ : Type*} {xs ts : List τ} {i : ℕ} {t u : τ}

/-- The tasks besides the one at `i`. -/
def others (xs : List τ) (i : ℕ) : List τ := xs.take i ++ xs.drop (i + 1)

/-- The tasks after the one at `i` was exchanged for `ts`. -/
def replaceAt (xs : List τ) (i : ℕ) (ts : List τ) : List τ := xs.take i ++ ts ++ xs.drop (i + 1)

lemma perm_others (h : xs[i]? = some t) : xs.Perm (t :: others xs i) := by
  obtain ⟨hi, rfl⟩ := List.getElem?_eq_some_iff.1 h
  have hsplit : xs = xs.take i ++ xs[i] :: xs.drop (i + 1) := by
    rw [← List.drop_eq_getElem_cons hi, List.take_append_drop]
  exact (List.Perm.of_eq hsplit).trans List.perm_middle

lemma perm_replaceAt (xs : List τ) (i : ℕ) (ts : List τ) :
    (replaceAt xs i ts).Perm (ts ++ others xs i) := by
  unfold replaceAt others
  rw [← List.append_assoc]
  exact List.perm_append_comm.append_right _

lemma getElem?_replaceAt (h : xs[i]? = some t) (u : τ) : (replaceAt xs i [u])[i]? = some u := by
  obtain ⟨hi, rfl⟩ := List.getElem?_eq_some_iff.1 h
  have hlength : (xs.take i).length = i := by
    rw [List.length_take]
    omega
  rw [replaceAt, List.append_assoc, List.getElem?_append_right (by omega), hlength]
  simp

lemma replaceAt_replaceAt (h : xs[i]? = some t) (u : τ) (ts : List τ) :
    replaceAt (replaceAt xs i [u]) i ts = replaceAt xs i ts := by
  obtain ⟨hi, rfl⟩ := List.getElem?_eq_some_iff.1 h
  have hlength : (xs.take i).length = i := by
    rw [List.length_take]
    omega
  have htake : (xs.take i ++ [u] ++ xs.drop (i + 1)).take i = xs.take i := by
    rw [List.append_assoc, List.take_append_of_le_length (by omega), List.take_take]
    simp
  have hdrop : (xs.take i ++ [u] ++ xs.drop (i + 1)).drop (i + 1) = xs.drop (i + 1) := by
    refine List.drop_left' ?_
    rw [List.length_append, hlength]
    rfl
  rw [replaceAt, replaceAt, htake, hdrop, replaceAt]

/-- The exchange of the last task. -/
lemma replaceAt_last (xs : List τ) (t : τ) (ts : List τ) :
    replaceAt (xs ++ [t]) xs.length ts = xs ++ ts := by
  simp [replaceAt]

lemma mem_iff (h : xs[i]? = some t) : u ∈ xs ↔ u = t ∨ u ∈ others xs i :=
  (perm_others h).mem_iff.trans List.mem_cons

lemma mem_replaceAt : u ∈ replaceAt xs i ts ↔ u ∈ ts ∨ u ∈ others xs i :=
  (perm_replaceAt xs i ts).mem_iff.trans List.mem_append

lemma mem_of_mem_others (h : xs[i]? = some t) (hu : u ∈ others xs i) : u ∈ xs :=
  (mem_iff h).2 (.inr hu)

section sum

variable {M : Type*} [AddCommMonoid M] (f : τ → M)

/-- A sum over the tasks, with the one at `i` first. -/
lemma sum_eq (h : xs[i]? = some t) : (xs.map f).sum = f t + ((others xs i).map f).sum := by
  rw [((perm_others h).map f).sum_eq, List.map_cons, List.sum_cons]

lemma sum_replaceAt (xs : List τ) (i : ℕ) (ts : List τ) :
    ((replaceAt xs i ts).map f).sum = (ts.map f).sum + ((others xs i).map f).sum := by
  rw [((perm_replaceAt xs i ts).map f).sum_eq, List.map_append, List.sum_append]

end sum

lemma eq_of_length_le_one (h : xs.length ≤ 1) (ht : t ∈ xs) (hu : u ∈ xs) : t = u := by
  cases xs with
  | nil => cases ht
  | cons v vs =>
      obtain rfl : vs = [] := List.length_eq_zero_iff.1 (by simpa using h)
      rw [List.mem_singleton.1 ht, List.mem_singleton.1 hu]

section countP

variable (p : τ → Bool)

/-- A count over the tasks, with the one at `i` first. -/
lemma countP_eq (h : xs[i]? = some t) :
    xs.countP p = (if p t then 1 else 0) + (others xs i).countP p := by
  rw [(perm_others h).countP_eq, List.countP_cons, Nat.add_comm]

lemma countP_replaceAt (xs : List τ) (i : ℕ) (ts : List τ) :
    (replaceAt xs i ts).countP p = ts.countP p + (others xs i).countP p := by
  rw [(perm_replaceAt xs i ts).countP_eq, List.countP_append]

/-- Of the tasks that count there is one. -/
lemma eq_of_countP_le_one {p : τ → Bool} (h : xs.countP p ≤ 1) (ht : t ∈ xs) (hu : u ∈ xs)
    (hpt : p t = true) (hpu : p u = true) : t = u := by
  rw [List.countP_eq_length_filter] at h
  exact eq_of_length_le_one h (List.mem_filter.2 ⟨ht, hpt⟩) (List.mem_filter.2 ⟨hu, hpu⟩)

end countP

section filterMap

variable {β : Type*} (f : τ → Option β)

lemma length_filterMap_eq (h : xs[i]? = some t) :
    (xs.filterMap f).length = (f t).toList.length + ((others xs i).filterMap f).length := by
  rw [((perm_others h).filterMap f).length_eq]
  cases hf : f t with
  | none => simp [hf]
  | some b => simp [hf, Nat.add_comm]

lemma length_filterMap_replaceAt (xs : List τ) (i : ℕ) (ts : List τ) :
    ((replaceAt xs i ts).filterMap f).length =
      (ts.filterMap f).length + ((others xs i).filterMap f).length := by
  rw [((perm_replaceAt xs i ts).filterMap f).length_eq, List.filterMap_append,
    List.length_append]

end filterMap

end Tasks

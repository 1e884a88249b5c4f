/-
A queue of bounded length, and what it still shows of what was put into it.

`append` puts an element at the end and drops the oldest one if there is no room, as a deque with a
greatest length does.  The queue is then the end of what was appended (`appendAll_eq`).  If that
has increasing keys, all the elements from a key on are in the queue as long as it is not full or
its oldest element is below that key (`filter_eq_of_not_full`); otherwise it has some of them
(`filter_sublist`), the newest ones (`filter_eq_of_full`), and no element from the key on is
dropped unnoticed (`full_of_dropped`).
-/
import Mathlib

namespace BoundedQueue

variable {α κ : Type*}

/-- `append` of a queue of at most `maxlen` elements -/
def append (maxlen : ℕ) (queue : List α) (x : α) : List α :=
  if maxlen < (queue ++ [x]).length then (queue ++ [x]).tail else queue ++ [x]

/-- The queue after the elements were appended, beginning with the empty one. -/
def appendAll (maxlen : ℕ) (xs : List α) : List α := xs.foldl (append maxlen) []

/-- The elements that are no longer in the queue. -/
def dropped (maxlen : ℕ) (xs : List α) : List α := xs.take (xs.length - maxlen)

lemma appendAll_eq (maxlen : ℕ) (xs : List α) :
    appendAll maxlen xs = xs.drop (xs.length - maxlen) := by
  induction xs using List.reverseRecOn with
  | nil => exact List.drop_nil.symm
  | append_singleton xs x ih =>
      have hlength : (xs.drop (xs.length - maxlen)).length = min xs.length maxlen := by
        rw [List.length_drop]
        omega
      rw [appendAll, List.foldl_append, List.foldl_cons, List.foldl_nil, ← appendAll, ih, append]
      simp only [List.length_append, List.length_singleton, hlength]
      rcases Nat.lt_or_ge xs.length maxlen with h | h
      · have hzero : xs.length - maxlen = 0 := by omega
        have hzero' : xs.length + 1 - maxlen = 0 := by omega
        rw [if_neg (by omega), hzero, hzero', List.drop_zero, List.drop_zero]
      · have hsucc : xs.length + 1 - maxlen = xs.length - maxlen + 1 := by omega
        rw [if_pos (by omega), hsucc, ← List.drop_append_of_le_length (by omega), List.tail_drop]

lemma length_appendAll (maxlen : ℕ) (xs : List α) :
    (appendAll maxlen xs).length = min xs.length maxlen := by
  rw [appendAll_eq, List.length_drop]
  omega

lemma dropped_append_appendAll (maxlen : ℕ) (xs : List α) :
    dropped maxlen xs ++ appendAll maxlen xs = xs := by
  rw [appendAll_eq, dropped, List.take_append_drop]

/-- A queue from which something was dropped is full. -/
lemma length_eq_of_dropped {maxlen : ℕ} {xs : List α} (h : dropped maxlen xs ≠ []) :
    (appendAll maxlen xs).length = maxlen := by
  rw [length_appendAll]
  by_contra hlength
  refine h ?_
  rw [dropped, Nat.sub_eq_zero_of_le (by omega), List.take_zero]

section keys

variable [LinearOrder κ] (key : α → κ)

/-- The queue is full, and its oldest element is from the key on. -/
def full (maxlen : ℕ) (bound : κ) (queue : List α) : Bool :=
  queue.length = maxlen && queue.head?.any fun x => bound ≤ key x

variable {key} {maxlen : ℕ} {bound : κ} {xs : List α}

lemma filter_sublist (p : α → Bool) :
    ((appendAll maxlen xs).filter p).Sublist (xs.filter p) := by
  have hsub : (appendAll maxlen xs).Sublist xs := by
    rw [appendAll_eq]
    exact List.drop_sublist _ _
  exact hsub.filter p

/-- A queue that is full of elements from the key on has no others. -/
lemma filter_eq_of_full (hsorted : xs.Pairwise fun x y => key x ≤ key y)
    (h : full key maxlen bound (appendAll maxlen xs) = true) :
    (appendAll maxlen xs).filter (fun x => bound ≤ key x) = xs.drop (xs.length - maxlen) := by
  rw [appendAll_eq] at h ⊢
  rw [List.filter_eq_self]
  have hqueue := hsorted.sublist (List.drop_sublist (xs.length - maxlen) xs)
  rcases hlist : xs.drop (xs.length - maxlen) with _ | ⟨y, ys⟩
  · simp
  · rw [full, hlist, List.head?_cons, Option.any_some, Bool.and_eq_true,
      decide_eq_true_eq, decide_eq_true_eq] at h
    rw [hlist, List.pairwise_cons] at hqueue
    intro x hx
    rcases List.mem_cons.1 hx with rfl | hx
    · exact decide_eq_true h.2
    · exact decide_eq_true (h.2.trans (hqueue.1 x hx))

/-- An element from the key on is dropped only from a queue that is full of such elements. -/
lemma full_of_dropped (hpos : 0 < maxlen) (hsorted : xs.Pairwise fun x y => key x ≤ key y) {x : α}
    (hx : x ∈ dropped maxlen xs) (hbound : bound ≤ key x) :
    full key maxlen bound (appendAll maxlen xs) = true := by
  have hlength := length_eq_of_dropped (List.ne_nil_of_mem hx)
  obtain ⟨y, hy⟩ : ∃ y, (appendAll maxlen xs).head? = some y :=
    Option.isSome_iff_exists.1 (List.isSome_head?.2 (List.ne_nil_of_length_pos (by omega)))
  have hle : key x ≤ key y := by
    rw [← dropped_append_appendAll maxlen xs] at hsorted
    exact (List.pairwise_append.1 hsorted).2.2 x hx y (List.mem_of_head? hy)
  rw [full, hy]
  simpa [hlength] using le_trans hbound hle

/-- A queue that is not full of elements from the key on has all of them. -/
lemma filter_eq_of_not_full (hpos : 0 < maxlen)
    (hsorted : xs.Pairwise fun x y => key x ≤ key y)
    (h : full key maxlen bound (appendAll maxlen xs) = false) :
    (appendAll maxlen xs).filter (fun x => bound ≤ key x) =
      xs.filter fun x => bound ≤ key x := by
  have hnone : (dropped maxlen xs).filter (fun x => bound ≤ key x) = [] := by
    refine List.filter_eq_nil_iff.2 fun x hx hbound => ?_
    have hfull := full_of_dropped hpos hsorted hx (of_decide_eq_true hbound)
    exact Bool.false_ne_true (h.symm.trans hfull)
  calc (appendAll maxlen xs).filter (fun x => bound ≤ key x)
      = (dropped maxlen xs ++ appendAll maxlen xs).filter (fun x => bound ≤ key x) := by
        rw [List.filter_append, hnone, List.nil_append]
    _ = xs.filter fun x => bound ≤ key x := by rw [dropped_append_appendAll]

end keys

end BoundedQueue

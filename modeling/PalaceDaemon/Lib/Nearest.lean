/-
The nearest element of a list, as a loop finds it.

The loop keeps the least distance so far and the position it was seen at, starts from a bound and
moves only on a strict improvement; an element without a distance is passed over.  `least` is what
the loop computes: the least of the bound and of the distances.
-/
import Mathlib.Order.MinMax
import Mathlib.Tactic.Tauto

namespace Nearest

variable {α β : Type*} [LinearOrder β] (d : α → Option β)

/-- The least of `top` and of the distances. -/
def least (top : β) : List α → β
  | [] => top
  | x :: xs => match d x with
    | some v => min v (least top xs)
    | none => least top xs

/-- The loop from position `i` on. -/
def search : ℕ → β × ℕ → List α → β × ℕ
  | _, best, [] => best
  | i, best, x :: xs => match d x with
    | none => search (i + 1) best xs
    | some v => search (i + 1) (if v < best.1 then (v, i) else best) xs

variable {d} {top : β}

lemma le_least_iff {c : β} {xs : List α} :
    c ≤ least d top xs ↔ c ≤ top ∧ ∀ x ∈ xs, ∀ v ∈ d x, c ≤ v := by
  induction xs with
  | nil => simp [least]
  | cons x xs ih =>
      rw [least, List.forall_mem_cons]
      rcases d x with _ | v
      · simpa using ih
      · rw [le_min_iff, ih]
        simp only [Option.mem_some_iff, forall_eq']
        tauto

lemma least_le_top (xs : List α) : least d top xs ≤ top := (le_least_iff.1 le_rfl).1

lemma least_le {xs : List α} {x : α} {v : β} (hx : x ∈ xs) (hv : v ∈ d x) :
    least d top xs ≤ v :=
  (le_least_iff.1 le_rfl).2 x hx v hv

/-- A least distance below the bound is the distance of an element. -/
lemma exists_of_least_lt {xs : List α} (h : least d top xs < top) :
    ∃ x ∈ xs, least d top xs ∈ d x := by
  induction xs with
  | nil => exact absurd h (lt_irrefl top)
  | cons x xs ih =>
      rw [least] at h ⊢
      rcases hx : d x with _ | v
      · rw [hx] at h
        obtain ⟨y, hy, hyv⟩ := ih h
        exact ⟨y, List.mem_cons_of_mem x hy, hyv⟩
      · rw [hx] at h
        dsimp only at h ⊢
        rcases le_total v (least d top xs) with hv | hv
        · exact ⟨x, List.mem_cons_self, by rw [min_eq_left hv, hx]; rfl⟩
        · rw [min_eq_right hv] at h ⊢
          obtain ⟨y, hy, hyv⟩ := ih h
          exact ⟨y, List.mem_cons_of_mem x hy, hyv⟩

/-- A list is at least as near as another one, when each distance below the bound in the other is
reached in it. -/
lemma least_le_least {xs : List α} {γ : Type*} {e : γ → Option β} {ys : List γ}
    (h : ∀ y ∈ ys, ∀ v ∈ e y, v < top → ∃ x ∈ xs, ∃ u ∈ d x, u ≤ v) :
    least d top xs ≤ least e top ys := by
  rw [le_least_iff]
  refine ⟨least_le_top xs, fun y hy v hv => ?_⟩
  rcases lt_or_ge v top with hlt | hge
  · obtain ⟨x, hx, u, hu, huv⟩ := h y hy v hv hlt
    exact (least_le hx hu).trans huv
  · exact (least_le_top xs).trans hge

/-- The loop ends with the least distance. -/
lemma search_fst (i : ℕ) (best : β × ℕ) (xs : List α) :
    (search d i best xs).1 = least d best.1 xs := by
  induction xs generalizing i best with
  | nil => rfl
  | cons x xs ih =>
      rw [search, least]
      rcases d x with _ | v
      · exact ih (i + 1) best
      · simp only [ih]
        split
        case isTrue hv =>
          refine le_antisymm (le_min (least_le_top xs) ?_) (le_least_iff.2 ⟨min_le_left _ _, ?_⟩)
          · exact le_least_iff.2 ⟨(least_le_top xs).trans hv.le, fun y hy u hu => least_le hy hu⟩
          · exact fun y hy u hu => (min_le_right _ _).trans (least_le hy hu)
        case isFalse hv =>
          exact (min_eq_right ((least_le_top xs).trans (not_lt.1 hv))).symm

/-- The loop ends where it began, or at an element that has the least distance. -/
lemma search_snd (i : ℕ) (best : β × ℕ) (xs : List α) :
    search d i best xs = best ∨
      ∃ j x, xs[j]? = some x ∧ (search d i best xs).2 = i + j ∧ (search d i best xs).1 ∈ d x := by
  induction xs generalizing i best with
  | nil => exact .inl rfl
  | cons x xs ih =>
      rw [search]
      rcases hx : d x with _ | v
      · rcases ih (i + 1) best with h | ⟨j, y, hy, hsnd, hfst⟩
        · exact .inl h
        · exact .inr ⟨j + 1, y, by simpa using hy, by simp only [hsnd]; omega, hfst⟩
      · simp only
        rcases ih (i + 1) (if v < best.1 then (v, i) else best) with h | ⟨j, y, hy, hsnd, hfst⟩
        · rw [h]
          split
          · exact .inr ⟨0, x, rfl, rfl, hx⟩
          · exact .inl rfl
        · exact .inr ⟨j + 1, y, by simpa using hy, by rw [hsnd]; omega, hfst⟩

end Nearest

/-
Keyed absorption: items that stand for groups of lines.

A list of lines is turned into items, one for each key: a line whose key an item already has
is absorbed by that item, which is changed to account for it, and any other line becomes an
item of its own.  What such a process conserves is that the lines are split into groups, one
for each item, and that every item stands for its own group in whatever sense `R` says.
`Grouped R lines items` is that statement, over multisets, so it does not depend on the order
in which the lines and the items are kept.

The lemmas follow the life of an item: it starts as a group of one line (`Grouped.ofLine`),
absorbs lines (`Grouped.absorb`), is changed without absorbing any (`Grouped.replace`), and
two collections are put together (`Grouped.add`).  Every item has its group among the lines
(`Grouped.exists_group`).
-/
import Mathlib.Data.Multiset.Bind
import Mathlib.Data.Multiset.Lattice
import Mathlib.Algebra.BigOperators.Group.Multiset.Basic
import Mathlib.Tactic

variable {ι ℓ κ : Type*}

/-- The lines are split into groups, one for each item, and each item stands for its own. -/
def Grouped (R : ι → Multiset ℓ → Prop) (lines : Multiset ℓ) (items : Multiset ι) : Prop :=
  ∃ groups : Multiset (ι × Multiset ℓ), groups.map Prod.fst = items ∧
    (groups.map Prod.snd).sum = lines ∧ ∀ g ∈ groups, R g.1 g.2

namespace Grouped

variable {R : ι → Multiset ℓ → Prop} {lines lines' : Multiset ℓ} {items items' : Multiset ι}

lemma zero : Grouped R 0 0 := ⟨0, rfl, rfl, by simp⟩

/-- No items stand for no lines. -/
lemma eq_zero (h : Grouped R lines 0) : lines = 0 := by
  obtain ⟨gs, hfst, rfl, -⟩ := h
  obtain rfl := Multiset.map_eq_zero.1 hfst
  rfl

lemma ofGroup {i : ι} {g : Multiset ℓ} (h : R i g) : Grouped R g {i} :=
  ⟨{(i, g)}, by simp, by simp, by simpa using h⟩

lemma add (h : Grouped R lines items) (h' : Grouped R lines' items') :
    Grouped R (lines + lines') (items + items') := by
  obtain ⟨gs, hfst, hsnd, hR⟩ := h
  obtain ⟨gs', hfst', hsnd', hR'⟩ := h'
  refine ⟨gs + gs', by simp [hfst, hfst'], by simp [hsnd, hsnd'], fun g hg => ?_⟩
  rcases Multiset.mem_add.1 hg with hg | hg
  · exact hR g hg
  · exact hR' g hg

/-- One item exchanged for another that also stands for the lines `extra`. -/
lemma replace {i i' : ι} {extra : Multiset ℓ} (h : Grouped R lines (i ::ₘ items))
    (hR : ∀ g, R i g → R i' (extra + g)) : Grouped R (extra + lines) (i' ::ₘ items) := by
  obtain ⟨gs, hfst, rfl, hgs⟩ := h
  obtain ⟨g, hg, rfl⟩ : ∃ g ∈ gs, g.1 = i := by
    have hi : i ∈ gs.map Prod.fst := by rw [hfst]; exact Multiset.mem_cons_self i items
    exact Multiset.mem_map.1 hi
  obtain ⟨gs, rfl⟩ := Multiset.exists_cons_of_mem hg
  have hrest : gs.map Prod.fst = items := by
    rw [Multiset.map_cons] at hfst
    exact (Multiset.cons_inj_right _).1 hfst
  refine ⟨(i', extra + g.2) ::ₘ gs, by simp [hrest], by simp [add_assoc], fun p hp => ?_⟩
  rcases Multiset.mem_cons.1 hp with rfl | hp
  · exact hR _ (hgs g (Multiset.mem_cons_self g gs))
  · exact hgs p (Multiset.mem_cons_of_mem hp)

/-- Every item has its group among the lines. -/
lemma exists_group (h : Grouped R lines items) {i : ι} (hi : i ∈ items) :
    ∃ g ≤ lines, R i g := by
  obtain ⟨gs, rfl, rfl, hgs⟩ := h
  obtain ⟨g, hg, rfl⟩ := Multiset.mem_map.1 hi
  exact ⟨g.2, Multiset.le_sum_of_mem (Multiset.mem_map_of_mem _ hg), hgs g hg⟩

end Grouped

/-! ### Absorbing a line -/

section absorb

variable [DecidableEq κ] (key : ι → κ)

/-- Change the last item of the list that has the key `k`. -/
def absorbLast (k : κ) (f : ι → ι) : List ι → List ι
  | [] => []
  | x :: xs =>
      if xs.any (key · = k) then x :: absorbLast k f xs
      else if key x = k then f x :: xs else x :: xs

variable {key} {k : κ} {f : ι → ι}

/-- Absorbing changes one item with the key and leaves the others. -/
lemma absorbLast_spec {xs : List ι} (h : xs.any (key · = k) = true) :
    ∃ i rest, key i = k ∧ (xs : Multiset ι) = i ::ₘ rest ∧
      (absorbLast key k f xs : Multiset ι) = f i ::ₘ rest := by
  induction xs with
  | nil => simp at h
  | cons x xs ih =>
      by_cases hxs : xs.any (key · = k) = true
      · obtain ⟨i, rest, hi, hrest, habs⟩ := ih hxs
        refine ⟨i, x ::ₘ rest, hi, ?_, ?_⟩
        · rw [← Multiset.cons_coe, hrest, Multiset.cons_swap]
        · rw [absorbLast, if_pos hxs, ← Multiset.cons_coe, habs, Multiset.cons_swap]
      · have hx : key x = k := by
          simpa [hxs] using h
        refine ⟨x, xs, hx, rfl, ?_⟩
        rw [absorbLast, if_neg hxs, if_pos hx]
        rfl

lemma mem_absorbLast {xs : List ι} {i : ι} (h : i ∈ absorbLast key k f xs) :
    i ∈ xs ∨ ∃ j ∈ xs, i = f j := by
  induction xs with
  | nil => cases h
  | cons x xs ih =>
      rw [absorbLast] at h
      split_ifs at h
      · rcases List.mem_cons.1 h with rfl | h
        · exact .inl List.mem_cons_self
        · rcases ih h with h | ⟨j, hj, rfl⟩
          · exact .inl (List.mem_cons_of_mem _ h)
          · exact .inr ⟨j, List.mem_cons_of_mem _ hj, rfl⟩
      · rcases List.mem_cons.1 h with rfl | h
        · exact .inr ⟨x, List.mem_cons_self, rfl⟩
        · exact .inl (List.mem_cons_of_mem _ h)
      · exact .inl h

lemma mem_absorbLast_of_mem {xs : List ι} {i : ι} (h : i ∈ xs) :
    i ∈ absorbLast key k f xs ∨ f i ∈ absorbLast key k f xs := by
  induction xs with
  | nil => cases h
  | cons x xs ih =>
      rw [absorbLast]
      split_ifs
      · rcases List.mem_cons.1 h with rfl | h
        · exact .inl List.mem_cons_self
        · exact (ih h).imp (List.mem_cons_of_mem _) (List.mem_cons_of_mem _)
      · rcases List.mem_cons.1 h with rfl | h
        · exact .inr List.mem_cons_self
        · exact .inl (List.mem_cons_of_mem _ h)
      · exact .inl h

lemma map_absorbLast {β : Type*} {g : ι → β} (hg : ∀ i, g (f i) = g i) (xs : List ι) :
    (absorbLast key k f xs).map g = xs.map g := by
  induction xs with
  | nil => rfl
  | cons x xs ih =>
      rw [absorbLast]
      split_ifs
      · simp [ih]
      · simp [hg]
      · rfl

/-- Where no item has the key, nothing changes. -/
lemma map_ite_of_forall_ne {xs : List ι} (h : ∀ i ∈ xs, key i ≠ k) :
    (xs.map fun i => if key i = k then f i else i) = xs :=
  (List.map_congr_left fun i hi => if_neg (h i hi)).trans (List.map_id' xs)

/-- Where the keys are different, absorbing changes the item that has the key. -/
lemma absorbLast_eq_map {xs : List ι} (h : (xs.map key).Nodup) :
    absorbLast key k f xs = xs.map fun i => if key i = k then f i else i := by
  induction xs with
  | nil => rfl
  | cons x xs ih =>
      rw [List.map_cons, List.nodup_cons] at h
      rw [absorbLast, List.map_cons, ih h.2]
      by_cases hx : key x = k
      · -- the others have other keys
        have hrest : ∀ i ∈ xs, key i ≠ k := fun i hi hk =>
          h.1 (hx.trans hk.symm ▸ List.mem_map_of_mem hi)
        have hany : ¬ xs.any (key · = k) = true := by simpa using hrest
        rw [if_neg hany, if_pos hx, if_pos hx, map_ite_of_forall_ne hrest]
      · rw [if_neg hx]
        split_ifs with hany
        · rfl
        · rw [map_ite_of_forall_ne (by simpa using hany)]

variable {R : ι → Multiset ℓ → Prop} {lines : Multiset ℓ}

/-- A line that an item with its key absorbs joins the group of that item. -/
lemma Grouped.absorb {xs : List ι} {others : Multiset ι} {l : ℓ}
    (h : Grouped R lines (xs + others)) (hxs : xs.any (key · = k) = true)
    (hR : ∀ i g, key i = k → R i g → R (f i) (l ::ₘ g)) :
    Grouped R (l ::ₘ lines) (absorbLast key k f xs + others) := by
  obtain ⟨i, rest, hi, hrest, habs⟩ := absorbLast_spec (f := f) hxs
  rw [hrest, Multiset.cons_add] at h
  rw [habs, Multiset.cons_add, ← Multiset.singleton_add]
  exact h.replace fun g hg => by simpa using hR i g hi hg

end absorb

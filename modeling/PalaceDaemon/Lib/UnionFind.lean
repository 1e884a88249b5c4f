/-
Union-find on a map from each element to its parent.

The two loops of a find are `climb`, which follows the parents to the root, and `compress`, which
walks the same way again and points each element at that root while it leaves it.  `Rooted` is what
a parent map keeps: an assignment of roots that the parents respect, and a depth that they lower.
Compression changes neither; linking one root below another merges two classes and deepens one
(`Rooted.link`).  A map whose roots classify the elements as an equivalence closure does, still does
so after a link along a new pair (`classifies_link`).
-/
import Mathlib.Data.Set.Function
import Mathlib.Logic.Relation
import Mathlib.Tactic.Common

namespace UnionFind

variable {α : Type} [DecidableEq α]

/-- The map with a new parent for one element. -/
def setParent (parent : α → Option α) (x p : α) : α → Option α :=
  fun y => if y = x then some p else parent y

lemma isSome_setParent {parent : α → Option α} {x p y : α} :
    (setParent parent x p y).isSome ↔ (parent y).isSome ∨ y = x := by
  unfold setParent
  split_ifs with hyx
  · exact iff_of_true rfl (.inr hyx)
  · exact (or_iff_left hyx).symm

/-- A new parent of an element that has one adds no element. -/
lemma isSome_setParent_of_isSome {parent : α → Option α} {x p : α} (hx : (parent x).isSome)
    (y : α) : (setParent parent x p y).isSome = (parent y).isSome := by
  rw [Bool.eq_iff_iff, isSome_setParent, or_iff_left_of_imp]
  rintro rfl
  exact hx

/-- Up the parents until an element is its own. -/
def climb : ℕ → (α → Option α) → α → Option α
  | 0, _, _ => none
  | n + 1, parent, x => do
      let p ← parent x
      if p = x then some x else climb n parent p

/-- Up the parents again, making each element that is left a child of the root. -/
def compress : ℕ → (α → Option α) → α → α → Option (α → Option α)
  | 0, _, _, _ => none
  | n + 1, parent, root, x => do
      let p ← parent x
      if p = root then some parent else compress n (setParent parent x root) root p

/-- `root` gives the root of each element; an element without a parent is alone. -/
structure Rooted (parent : α → Option α) (root : α → α) (depth : α → ℕ) : Prop where
  free : ∀ x, parent x = none → root x = x
  fixed : ∀ x, parent x = some x → root x = x
  climbs : ∀ x p, parent x = some p → p ≠ x →
    (parent p).isSome ∧ root p = root x ∧ depth p < depth x

namespace Rooted

variable {parent : α → Option α} {root : α → α} {depth : α → ℕ}

/-- **Climbing ends at the root.** -/
theorem climb_eq (h : Rooted parent root depth) {n : ℕ} {x : α} (hx : (parent x).isSome)
    (hn : depth x < n) : climb n parent x = some (root x) := by
  induction n generalizing x with
  | zero => exact absurd hn (Nat.not_lt_zero _)
  | succ n ih =>
    obtain ⟨p, hp⟩ := Option.isSome_iff_exists.1 hx
    rw [climb, hp, Option.bind_eq_bind, Option.bind_some]
    by_cases hself : p = x
    · rw [if_pos hself, h.fixed x (hself ▸ hp)]
    · obtain ⟨hsome, hroot, hdepth⟩ := h.climbs x p hp hself
      rw [if_neg hself, ih hsome (by omega), hroot]

/-- The root is its own parent, and where it is another element it is less deep. -/
lemma parent_root (h : Rooted parent root depth) {x : α} (hx : (parent x).isSome) :
    parent (root x) = some (root x) ∧ (root x = x ∨ depth (root x) < depth x) := by
  induction hd : depth x using Nat.strong_induction_on generalizing x with
  | _ d ih =>
    obtain ⟨p, hp⟩ := Option.isSome_iff_exists.1 hx
    by_cases hself : p = x
    · rw [h.fixed x (hself ▸ hp)]
      exact ⟨hself ▸ hp, .inl rfl⟩
    · obtain ⟨hsome, hroot, hdepth⟩ := h.climbs x p hp hself
      obtain ⟨hparent, hless⟩ := ih _ (hd ▸ hdepth) hsome rfl
      rw [hroot] at hparent hless
      refine ⟨hparent, .inr ?_⟩
      rcases hless with heq | hlt
      · rw [heq]
        exact hd ▸ hdepth
      · omega

lemma root_root (h : Rooted parent root depth) (x : α) : root (root x) = root x := by
  cases hx : parent x with
  | none => rw [h.free x hx, h.free x hx]
  | some p => exact h.fixed _ (h.parent_root (by rw [hx]; rfl)).1

/-- A new element is its own root. -/
lemma add (h : Rooted parent root depth) {x : α} (hx : parent x = none) :
    Rooted (setParent parent x x) root depth := by
  refine ⟨fun y hy => ?_, fun y hy => ?_, fun y p hy hp => ?_⟩
  · unfold setParent at hy
    split_ifs at hy
    exact h.free y hy
  · by_cases hyx : y = x
    · exact hyx ▸ h.free x hx
    · rw [setParent, if_neg hyx] at hy
      exact h.fixed y hy
  · unfold setParent at hy ⊢
    split_ifs at hy with hyx
    · exact absurd ((Option.some_injective _ hy).symm.trans hyx.symm) hp
    · obtain ⟨hsome, hroot, hdepth⟩ := h.climbs y p hy hp
      refine ⟨?_, hroot, hdepth⟩
      split_ifs
      · rfl
      · exact hsome

/-- An element may be moved to its root. -/
lemma setParent_root (h : Rooted parent root depth) {x : α} (hx : (parent x).isSome)
    (hroot : root x ≠ x) : Rooted (setParent parent x (root x)) root depth := by
  obtain ⟨hparent, hless⟩ := h.parent_root hx
  refine ⟨fun y hy => ?_, fun y hy => ?_, fun y p hy hp => ?_⟩
  · unfold setParent at hy
    split_ifs at hy
    exact h.free y hy
  · by_cases hyx : y = x
    · rw [setParent, if_pos hyx] at hy
      exact absurd ((Option.some_injective _ hy).trans hyx) hroot
    · rw [setParent, if_neg hyx] at hy
      exact h.fixed y hy
  · unfold setParent at hy ⊢
    split_ifs at hy with hyx
    · obtain rfl := Option.some_injective _ hy
      rw [if_neg hroot, hparent, hyx]
      exact ⟨rfl, h.root_root x, hless.resolve_left hroot⟩
    · obtain ⟨hsome, hroot, hdepth⟩ := h.climbs y p hy hp
      refine ⟨?_, hroot, hdepth⟩
      split_ifs
      · rfl
      · exact hsome

/-- **Compression.** It ends, no element is lost, and every element keeps its root. -/
theorem compress_eq (h : Rooted parent root depth) {x : α} (hx : (parent x).isSome) :
    ∃ parent', (∀ n, depth x < n → compress n parent (root x) x = some parent') ∧
      Rooted parent' root depth ∧ ∀ y, (parent' y).isSome = (parent y).isSome := by
  induction hd : depth x using Nat.strong_induction_on generalizing parent x with
  | _ d ih =>
    obtain ⟨p, hp⟩ := Option.isSome_iff_exists.1 hx
    have hstep : ∀ n, d < n → ∃ m, n = m + 1 ∧ d ≤ m ∧ compress n parent (root x) x =
        if p = root x then some parent
        else compress m (setParent parent x (root x)) (root x) p := by
      intro n hn
      obtain ⟨m, rfl⟩ := Nat.exists_eq_succ_of_ne_zero (Nat.ne_zero_of_lt hn)
      refine ⟨m, rfl, by omega, ?_⟩
      rw [compress, hp, Option.bind_eq_bind, Option.bind_some]
    by_cases hstop : p = root x
    · refine ⟨parent, fun n hn => ?_, h, fun _ => rfl⟩
      obtain ⟨m, -, -, hrun⟩ := hstep n hn
      rw [hrun, if_pos hstop]
    · have hself : p ≠ x := by
        rintro rfl
        exact hstop (h.fixed p hp).symm
      have hroot : root x ≠ x := by
        intro heq
        have := (h.parent_root hx).1
        rw [heq, hp] at this
        exact hself (Option.some_injective _ this)
      obtain ⟨hsome, hpx, hdepth⟩ := h.climbs x p hp hself
      have hkeeps := isSome_setParent_of_isSome (p := root x) hx
      obtain ⟨parent', hends, hrooted, hsame⟩ :=
        ih _ (hd ▸ hdepth) (h.setParent_root hx hroot) ((hkeeps p).trans hsome) rfl
      refine ⟨parent', fun n hn => ?_, hrooted, fun y => (hsame y).trans (hkeeps y)⟩
      obtain ⟨m, -, hm, hrun⟩ := hstep n hn
      rw [hrun, if_neg hstop]
      exact hpx ▸ hends m (by omega)

/-- **Link.** The class of the root that is put below another root joins the class of that. -/
theorem link (h : Rooted parent root depth) {r s : α} (hr : parent r = some r)
    (hs : parent s = some s) (hrs : r ≠ s) :
    Rooted (setParent parent s r) (fun x => if root x = s then r else root x)
      (fun x => if root x = s then depth x + depth r + 1 else depth x) := by
  have hrootr := h.fixed r hr
  have hroots := h.fixed s hs
  refine ⟨fun x hx => ?_, fun x hx => ?_, fun x p hx hp => ?_⟩
  · unfold setParent at hx
    split_ifs at hx with hxs
    rw [h.free x hx, if_neg hxs]
  · unfold setParent at hx
    split_ifs at hx with hxs
    · exact absurd ((Option.some_injective _ hx).trans hxs) hrs
    · rw [h.fixed x hx, if_neg hxs]
  · unfold setParent at hx ⊢
    split_ifs at hx with hxs
    · -- the root that is put below the other one
      obtain rfl := Option.some_injective _ hx
      rw [hxs, if_neg hrs, hr, hrootr, hroots, if_neg hrs, if_pos rfl, if_neg hrs, if_pos rfl]
      exact ⟨rfl, rfl, by omega⟩
    · obtain ⟨hsome, hroot, hdepth⟩ := h.climbs x p hx hp
      rw [hroot]
      refine ⟨?_, rfl, ?_⟩
      · split_ifs
        · rfl
        · exact hsome
      · split_ifs
        · omega
        · exact hdepth

end Rooted

/-! ### Classes -/

open Relation

variable {root : α → α} {rel : α → α → Prop} {a b r s : α}

/-- After a link two elements have one root if they had one before or both are in a linked class. -/
lemma linked_iff (x y : α) :
    (if root x = s then r else root x) = (if root y = s then r else root y) ↔
      root x = root y ∨ (root x = r ∨ root x = s) ∧ (root y = r ∨ root y = s) := by
  split_ifs with hx hy hy
  · exact ⟨fun _ => .inl (hx.trans hy.symm), fun _ => rfl⟩
  · constructor
    · exact fun h => .inr ⟨.inr hx, .inl h.symm⟩
    · rintro (h | ⟨-, h | h⟩)
      · exact absurd (h.symm.trans hx) hy
      · exact h.symm
      · exact absurd h hy
  · constructor
    · exact fun h => .inr ⟨.inl h, .inr hy⟩
    · rintro (h | ⟨h | h, -⟩)
      · exact absurd (h.trans hy) hx
      · exact h
      · exact absurd h hx
  · constructor
    · exact .inl
    · rintro (h | ⟨h | h, h' | h'⟩)
      · exact h
      · exact h.trans h'.symm
      · exact absurd h' hy
      · exact absurd h hx
      · exact absurd h hx

/-- **A link along a pair.** If the roots classify the elements as `rel` does, then after a link of
the roots of `a` and `b`, in either order, they classify them as `rel` with that pair does. -/
theorem classifies_link (h : ∀ x y, root x = root y ↔ EqvGen rel x y)
    (hlink : r = root a ∧ s = root b ∨ r = root b ∧ s = root a) (x y : α) :
    (if root x = s then r else root x) = (if root y = s then r else root y) ↔
      EqvGen (fun x y => rel x y ∨ x = a ∧ y = b) x y := by
  have hmono : ∀ {x y}, EqvGen rel x y → EqvGen (fun x y => rel x y ∨ x = a ∧ y = b) x y :=
    fun hxy => EqvGen.mono (fun _ _ h => Or.inl h) _ _ hxy
  have hab : EqvGen (fun x y => rel x y ∨ x = a ∧ y = b) a b := .rel _ _ (.inr ⟨rfl, rfl⟩)
  -- whatever is in a linked class is related to `a`
  have hclass : ∀ {x}, root x = r ∨ root x = s →
      EqvGen (fun x y => rel x y ∨ x = a ∧ y = b) x a := by
    intro x hx
    have hx' : root x = root a ∨ root x = root b := by
      rcases hlink with ⟨rfl, rfl⟩ | ⟨rfl, rfl⟩
      · exact hx
      · exact hx.symm
    rcases hx' with hxa | hxb
    · exact hmono ((h x a).1 hxa)
    · exact (hmono ((h x b).1 hxb)).trans _ _ _ (hab.symm _ _)
  constructor
  · rw [linked_iff]
    rintro (heq | ⟨hx, hy⟩)
    · exact hmono ((h x y).1 heq)
    · exact (hclass hx).trans _ _ _ ((hclass hy).symm _ _)
  · intro hxy
    induction hxy with
    | rel x y hxy =>
      rcases hxy with hrel | ⟨rfl, rfl⟩
      · rw [(h x y).2 (.rel _ _ hrel)]
      · rw [linked_iff]
        rcases hlink with ⟨rfl, rfl⟩ | ⟨rfl, rfl⟩
        · exact .inr ⟨.inl rfl, .inr rfl⟩
        · exact .inr ⟨.inr rfl, .inl rfl⟩
    | refl x => rfl
    | symm x y _ ih => exact ih.symm
    | trans x y z _ _ ih ih' => exact ih.trans ih'

end UnionFind

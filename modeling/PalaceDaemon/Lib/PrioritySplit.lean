/-
Taking the best of a list by priority.

`split prio n xs` sorts a list by a numeric priority, lower first and equal
priorities in list order, and cuts it after `n` elements.  The part that is kept comes in the
sorted order; the rest comes in the order of the list.  Nothing is lost or repeated
(`split_perm`), and the kept part has at most `n` elements.
-/
import Mathlib.Data.List.Sort
import Mathlib.Data.List.Nodup
import Mathlib.Tactic

namespace PrioritySplit

variable {α : Type*}

/-- The order in which numbered elements are taken: by priority, then by number. -/
def takenBefore (prio : α → ℕ) (a b : α × ℕ) : Prop :=
  prio a.1 < prio b.1 ∨ (prio a.1 = prio b.1 ∧ a.2 ≤ b.2)

instance (prio : α → ℕ) : DecidableRel (takenBefore prio) :=
  fun a b => inferInstanceAs (Decidable (prio a.1 < prio b.1 ∨ (prio a.1 = prio b.1 ∧ a.2 ≤ b.2)))

/-- The elements with their positions, in the order in which they are taken. -/
def order (prio : α → ℕ) (xs : List α) : List (α × ℕ) :=
  xs.zipIdx.insertionSort (takenBefore prio)

/-- The `n` best elements in the order in which they are taken, and the others in list
order. -/
def split (prio : α → ℕ) (n : ℕ) (xs : List α) : List α × List α :=
  let taken := (order prio xs).take n
  (taken.map Prod.fst, (xs.zipIdx.filter fun p => p.2 ∉ taken.map Prod.snd).map Prod.fst)

variable (prio : α → ℕ) (n : ℕ) (xs : List α)

lemma order_perm : (order prio xs).Perm xs.zipIdx :=
  List.perm_insertionSort _ _

lemma zipIdx_nodup_snd : (xs.zipIdx.map Prod.snd).Nodup := by
  rw [List.zipIdx_map_snd]
  exact List.nodup_range' 1

lemma zipIdx_snd_injOn {a b : α × ℕ} (ha : a ∈ xs.zipIdx) (hb : b ∈ xs.zipIdx)
    (h : a.2 = b.2) : a = b :=
  List.inj_on_of_nodup_map (zipIdx_nodup_snd xs) ha hb h

lemma order_nodup : (order prio xs).Nodup :=
  (order_perm prio xs).nodup_iff.2 (zipIdx_nodup_snd xs).of_map

/-- The numbered elements that are taken are the ones whose numbers are. -/
lemma taken_perm_filter :
    ((order prio xs).take n).Perm
      (xs.zipIdx.filter fun p => p.2 ∈ ((order prio xs).take n).map Prod.snd) := by
  have hsub : ∀ p ∈ (order prio xs).take n, p ∈ xs.zipIdx := fun p hp =>
    (order_perm prio xs).mem_iff.1 (List.mem_of_mem_take hp)
  rw [List.perm_ext_iff_of_nodup ((order_nodup prio xs).sublist (List.take_sublist _ _))
    ((zipIdx_nodup_snd xs).of_map.filter _)]
  intro p
  simp only [List.mem_filter, List.mem_map, decide_eq_true_eq]
  constructor
  · intro hp
    exact ⟨hsub p hp, p, hp, rfl⟩
  · rintro ⟨hp, q, hq, hpq⟩
    have hqp : q = p := zipIdx_snd_injOn xs (hsub q hq) hp hpq
    exact hqp ▸ hq

theorem split_perm :
    ((split prio n xs).1 ++ (split prio n xs).2).Perm xs := by
  have hsplit := List.filter_append_perm
    (fun p : α × ℕ => decide (p.2 ∈ ((order prio xs).take n).map Prod.snd)) xs.zipIdx
  have htaken := (taken_perm_filter prio n xs).append_right
    (xs.zipIdx.filter fun p => !decide (p.2 ∈ ((order prio xs).take n).map Prod.snd))
  have hall := ((htaken.trans hsplit).map Prod.fst)
  rw [List.map_append, List.zipIdx_map_fst] at hall
  simpa [split] using hall

lemma split_length_le : (split prio n xs).1.length ≤ n := by
  simp only [split, List.length_map, List.length_take]
  exact min_le_left _ _

lemma split_length : (split prio n xs).1.length = min n xs.length := by
  simp only [split, List.length_map, List.length_take, (order_perm prio xs).length_eq,
    List.length_zipIdx]

/-! ### The order of the two parts -/

instance (prio : α → ℕ) : Std.Total (takenBefore prio) where
  total a b := by
    unfold takenBefore
    omega

instance (prio : α → ℕ) : IsTrans (α × ℕ) (takenBefore prio) where
  trans a b c := by
    unfold takenBefore
    omega

lemma order_pairwise : (order prio xs).Pairwise (takenBefore prio) :=
  List.pairwise_insertionSort _ _

section related

variable {prio n xs} {R : α → α → Prop}

/-- Of two numbered elements, the one that is taken before the other is related to it. -/
lemma related_of_takenBefore (hlt : ∀ a b, prio a < prio b → R a b)
    (htie : xs.Pairwise fun a b => prio a = prio b → R a b) {p q : α × ℕ}
    (hp : p ∈ xs.zipIdx) (hq : q ∈ xs.zipIdx) (hne : p ≠ q) (hpq : takenBefore prio p q) :
    R p.1 q.1 := by
  rcases hpq with hprio | ⟨hprio, hle⟩
  · exact hlt _ _ hprio
  · obtain ⟨hplt, hpget⟩ := List.mem_zipIdx' hp
    obtain ⟨hqlt, hqget⟩ := List.mem_zipIdx' hq
    have hidx : p.2 < q.2 := lt_of_le_of_ne hle fun h => hne (zipIdx_snd_injOn xs hp hq h)
    have hrelated := List.pairwise_iff_getElem.1 htie p.2 q.2 hplt hqlt hidx
    rw [← hpget, ← hqget] at hrelated
    exact hrelated hprio

/-- The part that is kept is in order, and each of its elements comes before each of the others,
in any order that prefers the lower priority and lists elements of equal priority as the list
does. -/
theorem split_related (hlt : ∀ a b, prio a < prio b → R a b)
    (htie : xs.Pairwise fun a b => prio a = prio b → R a b) :
    (split prio n xs).1.Pairwise R ∧
      ∀ a ∈ (split prio n xs).1, ∀ b ∈ (split prio n xs).2, R a b := by
  have hmem : ∀ p ∈ order prio xs, p ∈ xs.zipIdx := fun p => (order_perm prio xs).mem_iff.1
  have horder : (order prio xs).Pairwise fun p q => R p.1 q.1 := by
    refine ((order_pairwise prio xs).and (order_nodup prio xs)).imp_of_mem ?_
    rintro p q hp hq ⟨hpq, hne⟩
    exact related_of_takenBefore hlt htie (hmem p hp) (hmem q hq) hne hpq
  rw [← List.take_append_drop n (order prio xs), List.pairwise_append] at horder
  obtain ⟨htake, -, hcross⟩ := horder
  refine ⟨List.pairwise_map.2 htake, ?_⟩
  intro a ha b hb
  simp only [split, List.mem_map, List.mem_filter, decide_eq_true_eq] at ha hb
  obtain ⟨p, hp, rfl⟩ := ha
  obtain ⟨q, ⟨hq, hnot⟩, rfl⟩ := hb
  -- an element that is not taken is among the dropped ones
  have hdrop : q ∈ (order prio xs).drop n := by
    have hq' := (order_perm prio xs).mem_iff.2 hq
    rw [← List.take_append_drop n (order prio xs)] at hq'
    exact (List.mem_append.1 hq').resolve_left fun h => hnot ⟨q, h, rfl⟩
  exact hcross p hp q hdrop

end related

/-! ### The place of an element that is not taken -/

section place

variable {prio n} {before after : List α} {x : α}

lemma split_snd_sublist : (split prio n xs).2.Sublist xs := by
  have hfilter := (List.filter_sublist
    (p := fun p : α × ℕ => decide (p.2 ∉ ((order prio xs).take n).map Prod.snd))
    (l := xs.zipIdx)).map Prod.fst
  rwa [List.zipIdx_map_fst] at hfilter

/-- An element that is not taken keeps its place among the others. -/
lemma split_snd_place (hbefore : x ∉ before) (hafter : x ∉ after)
    (hx : x ∈ (split prio n (before ++ x :: after)).2) :
    ∃ front back, (split prio n (before ++ x :: after)).2 = front ++ x :: back ∧
      front.Sublist before ∧ back.Sublist after := by
  obtain ⟨front, rest, heq, hfront, hrest⟩ :=
    List.sublist_append_iff.1
      (show (split prio n (before ++ x :: after)).2.Sublist _ from split_snd_sublist _)
  rw [heq, List.mem_append] at hx
  have hmem : x ∈ rest := hx.resolve_left fun h => hbefore (hfront.subset h)
  rcases List.sublist_cons_iff.1 hrest with h | ⟨back, rfl, hback⟩
  · exact absurd (h.subset hmem) hafter
  · exact ⟨front, back, heq, hfront, hback⟩

/-- Where no element is better than the one that is not taken, all that are taken stand before
it. -/
lemma mem_before_of_taken (hafter : x ∉ after)
    (hbest : ∀ y ∈ before ++ x :: after, prio x ≤ prio y)
    (hx : x ∈ (split prio n (before ++ x :: after)).2) {a : α}
    (ha : a ∈ (split prio n (before ++ x :: after)).1) : a ∈ before := by
  -- an element is taken before `x` only if it is better or stands before it
  have htie : (before ++ x :: after).Pairwise fun a b =>
      prio a = prio b → (prio a < prio b ∨ b ≠ x ∨ a ∈ before) := by
    refine List.pairwise_append.2 ⟨?_, List.pairwise_cons.2 ⟨?_, ?_⟩, ?_⟩
    · exact List.pairwise_of_forall_mem_list fun a ha b hb _ => .inr (.inr ha)
    · rintro b hb -
      exact .inr (.inl fun h => hafter (h ▸ hb))
    · exact List.pairwise_of_forall_mem_list fun a ha b hb _ =>
        .inr (.inl fun h => hafter (h ▸ hb))
    · exact fun a ha b hb _ => .inr (.inr ha)
  have hrelated := (split_related (n := n) (fun _ _ => .inl) htie).2
  have hle := hbest a ((split_perm prio n _).mem_iff.1 (List.mem_append_left _ ha))
  rcases hrelated a ha x hx with h | h | h
  · omega
  · exact absurd rfl h
  · exact h

/-- **Ahead of the rest.**  Where no element is better than the one that is not taken, as many as
may be taken stand before it, besides those that are not taken either. -/
theorem split_snd_of_best (hnodup : (before ++ x :: after).Nodup)
    (hbest : ∀ y ∈ before ++ x :: after, prio x ≤ prio y)
    (hx : x ∈ (split prio n (before ++ x :: after)).2) :
    ∃ front back, (split prio n (before ++ x :: after)).2 = front ++ x :: back ∧
      front.Sublist before ∧ back.Sublist after ∧ front.length + n ≤ before.length := by
  have hperm := split_perm prio n (before ++ x :: after)
  have hafter : x ∉ after := (List.nodup_cons.1 (List.nodup_append.1 hnodup).2.1).1
  have hbefore : x ∉ before := fun h =>
    (List.nodup_append.1 hnodup).2.2 x h x List.mem_cons_self rfl
  obtain ⟨front, back, heq, hfront, hback⟩ := split_snd_place hbefore hafter hx
  refine ⟨front, back, heq, hfront, hback, ?_⟩
  have hfull : (split prio n (before ++ x :: after)).1.length = n := by
    have hlength := split_length prio n (before ++ x :: after)
    have hsum := hperm.length_eq
    have hpos := List.length_pos_of_mem hx
    rw [List.length_append] at hsum
    omega
  have hboth : ((split prio n (before ++ x :: after)).1 ++ front).Nodup := by
    refine (hperm.nodup_iff.2 hnodup).sublist ?_
    rw [heq]
    exact (List.sublist_append_left front (x :: back)).append_left _
  have hle := (List.subperm_of_subset hboth fun a ha => (List.mem_append.1 ha).elim
    (mem_before_of_taken hafter hbest hx) fun h => hfront.subset h).length_le
  rw [List.length_append, hfull] at hle
  omega

/-- Of a list in which one element is better than those before it, and as good as those after
it, that one is taken first. -/
theorem split_one (hnodup : (before ++ x :: after).Nodup)
    (hbefore : ∀ y ∈ before, prio x < prio y) (hafter : ∀ y ∈ after, prio x ≤ prio y) :
    split prio 1 (before ++ x :: after) = ([x], before ++ after) := by
  have hperm := split_perm prio 1 (before ++ x :: after)
  have hone : (split prio 1 (before ++ x :: after)).1.length = 1 := by
    rw [split_length, List.length_append, List.length_cons]
    omega
  obtain ⟨y, hy⟩ := List.length_eq_one_iff.1 hone
  have hrest : x ∉ (split prio 1 (before ++ x :: after)).2 := by
    intro hx
    have hout : x ∉ after := (List.nodup_cons.1 (List.nodup_append.1 hnodup).2.1).1
    have hmem : y ∈ before := mem_before_of_taken hout (fun z hz => by
      rcases List.mem_append.1 hz with hz | hz
      · exact (hbefore z hz).le
      · rcases List.mem_cons.1 hz with rfl | hz
        · exact le_rfl
        · exact hafter z hz) hx (by simp [hy])
    -- what is taken is not worse than what is not
    have htie : (before ++ x :: after).Pairwise fun a b => prio a = prio b → prio a ≤ prio b :=
      List.pairwise_of_forall fun _ _ h => h.le
    have hle := (split_related (n := 1) (fun _ _ h => h.le) htie).2 y (by simp [hy]) x hx
    exact absurd (hbefore y hmem) (not_lt.2 hle)
  have htaken : x ∈ (split prio 1 (before ++ x :: after)).1 :=
    (List.mem_append.1 (hperm.mem_iff.2 (by simp))).resolve_right hrest
  rw [hy, List.mem_singleton] at htaken
  subst htaken
  rw [hy] at hperm
  have hsub : (split prio 1 (before ++ x :: after)).2.Sublist (before ++ after) := by
    obtain ⟨front, rest, heq, hfront, hback⟩ := List.sublist_append_iff.1
      (show (split prio 1 (before ++ x :: after)).2.Sublist _ from split_snd_sublist _)
    rw [heq] at hrest ⊢
    rcases List.sublist_cons_iff.1 hback with h | ⟨back, rfl, -⟩
    · exact hfront.append h
    · exact absurd (by simp) hrest
  have hlength := hperm.length_eq
  simp only [List.length_append, List.length_cons, List.length_nil] at hlength
  rw [Prod.ext_iff]
  exact ⟨hy, hsub.eq_of_length (by rw [List.length_append]; omega)⟩

end place

/-! ### Elements that carry something besides -/

/-- Splitting does not see what the priority does not look at. -/
theorem split_map {β : Type*} (g : β → α) (ys : List β) :
    split prio n (ys.map g) =
      ((split (prio ∘ g) n ys).1.map g, (split (prio ∘ g) n ys).2.map g) := by
  have hzip : (ys.map g).zipIdx = ys.zipIdx.map (Prod.map g id) := List.zipIdx_map
  have horder : order prio (ys.map g) = (order (prio ∘ g) ys).map (Prod.map g id) := by
    rw [order, order, hzip]
    refine (List.map_insertionSort _ _ _ _ ?_).symm
    intro a _ b _
    rfl
  simp only [split, horder, hzip, List.filter_map, ← List.map_take, List.map_map]
  rfl

end PrioritySplit

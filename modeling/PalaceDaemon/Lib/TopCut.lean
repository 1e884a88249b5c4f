/-
The first entries of a list in order of their scores.

A stable sort keeps entries of one score in the order in which it is given them.  If that order is
arbitrary, the first `n` entries of the result are well determined exactly when every tie is below
the cut (`take_ranked_iff`).  Where the order leaves no ties, the place of an entry is the number
of those before it (`getElem?_eq_some_iff_countP`).
-/
import Mathlib.Data.List.Nodup
import Mathlib.Data.List.Sort

namespace TopCut

variable {α S : Type*} [LinearOrder S] {f : α → S} {l l₁ l₂ : List α} {a b : α} {i n : ℕ}

/-- The entries by decreasing score; a stable sort. -/
def ranked (f : α → S) (l : List α) : List α := l.insertionSort fun a b => f b ≤ f a

/-- The number of the entries with a score above `s`. -/
def above (f : α → S) (s : S) (l : List α) : ℕ := l.countP fun b => decide (s < f b)

lemma ranked_perm (f : α → S) (l : List α) : (ranked f l).Perm l := List.perm_insertionSort _ l

lemma mem_ranked : a ∈ ranked f l ↔ a ∈ l := (ranked_perm f l).mem_iff

lemma ranked_pairwise (f : α → S) (l : List α) :
    (ranked f l).Pairwise fun a b => f b ≤ f a := by
  have : Std.Total fun a b : α => f b ≤ f a := ⟨fun a b => le_total (f b) (f a)⟩
  have : IsTrans α fun a b => f b ≤ f a := ⟨fun a b c hab hbc => le_trans hbc hab⟩
  exact List.pairwise_insertionSort _ l

lemma above_perm (h : l₁.Perm l₂) (s : S) : above f s l₁ = above f s l₂ := h.countP_eq _

/-- The scores in the order of the entries do not depend on the order the entries came in. -/
lemma ranked_scores (h : l₁.Perm l₂) : (ranked f l₁).map f = (ranked f l₂).map f := by
  have hperm : ((ranked f l₁).map f).Perm ((ranked f l₂).map f) :=
    (((ranked_perm f l₁).trans h).trans (ranked_perm f l₂).symm).map f
  have hsorted : ∀ l : List α, ((ranked f l).map f).Pairwise fun x y => y ≤ x := fun l =>
    List.pairwise_map.2 (ranked_pairwise f l)
  refine List.Perm.eq_of_pairwise ?_ (hsorted l₁) (hsorted l₂) hperm
  intro x y _ _ hxy hyx
  exact le_antisymm hyx hxy

/-- In a list without repetitions that an antisymmetric order sorts, the position of an entry is
the number of the entries before it. -/
lemma getElem?_eq_some_iff_countP {r : α → α → Bool} (hsorted : l.Pairwise fun a b => r a b)
    (hanti : ∀ a ∈ l, ∀ b ∈ l, r a b → r b a → a = b) (hl : l.Nodup) [DecidableEq α] :
    l[i]? = some a ↔ a ∈ l ∧ l.countP (fun b => r b a && b ≠ a) = i := by
  have hcount : ∀ {j}, l[j]? = some a → l.countP (fun b => r b a && b ≠ a) = j := by
    intro j hj
    obtain ⟨hlt, ha⟩ := List.getElem?_eq_some_iff.1 hj
    have hsplit : l = l.take j ++ a :: l.drop (j + 1) := by
      rw [← ha, List.getElem_cons_drop, List.take_append_drop]
    have hmem : a ∈ l := List.mem_of_getElem? hj
    rw [hsplit, List.pairwise_append, List.pairwise_cons] at hsorted
    rw [hsplit, List.nodup_append, List.nodup_cons] at hl
    have hbefore : (l.take j).countP (fun b => r b a && b ≠ a) = j := by
      have hall : (l.take j).countP (fun b => r b a && b ≠ a) = (l.take j).length := by
        refine List.countP_eq_length.2 fun b hb => ?_
        have hle := hsorted.2.2 b hb a List.mem_cons_self
        have hne : b ≠ a := hl.2.2 b hb a List.mem_cons_self
        simp [hle, hne]
      rw [hall, List.length_take_of_le hlt.le]
    have hafter : (l.drop (j + 1)).countP (fun b => r b a && b ≠ a) = 0 := by
      refine List.countP_eq_zero.2 fun b hb hba => ?_
      rw [Bool.and_eq_true, decide_eq_true_eq] at hba
      exact hba.2 (hanti b (List.mem_of_mem_drop hb) a hmem hba.1 (hsorted.2.1.1 b hb))
    calc l.countP (fun b => r b a && b ≠ a)
        = (l.take j ++ a :: l.drop (j + 1)).countP (fun b => r b a && b ≠ a) := by rw [← hsplit]
      _ = j := by
        rw [List.countP_append, List.countP_cons_of_neg (by simp), hbefore, hafter, Nat.add_zero]
  constructor
  · exact fun h => ⟨List.mem_of_getElem? h, hcount h⟩
  · rintro ⟨hmem, rfl⟩
    obtain ⟨j, hj⟩ := List.getElem?_of_mem hmem
    rw [hcount hj, hj]

/-- An entry that is cut off has no higher score than those that are not, and there are as many of
these as the cut leaves room for. -/
lemma le_of_notMem_take (hb : b ∈ l) (hcut : b ∉ (ranked f l).take n) :
    ((ranked f l).take n).length = n ∧ ∀ a ∈ (ranked f l).take n, f b ≤ f a := by
  have hdrop : b ∈ (ranked f l).drop n := by
    have hmem := mem_ranked (f := f).2 hb
    rw [← List.take_append_drop n (ranked f l), List.mem_append] at hmem
    exact hmem.resolve_left hcut
  constructor
  · have hpos := List.length_pos_of_mem hdrop
    rw [List.length_drop] at hpos
    exact List.length_take_of_le (by omega)
  · intro a ha
    have hp := ranked_pairwise f l
    rw [← List.take_append_drop n (ranked f l), List.pairwise_append] at hp
    exact hp.2.2 a ha b hdrop

/-- Of the entries above the one at position `i`, all stand before it. -/
lemma above_le (h : (ranked f l)[i]? = some a) : above f (f a) l ≤ i := by
  obtain ⟨hi, ha⟩ := List.getElem?_eq_some_iff.1 h
  have hsplit : ranked f l = (ranked f l).take i ++ a :: (ranked f l).drop (i + 1) := by
    rw [← ha, List.getElem_cons_drop, List.take_append_drop]
  have hrest : (a :: (ranked f l).drop (i + 1)).countP (fun b => decide (f a < f b)) = 0 := by
    have hp := ranked_pairwise f l
    rw [hsplit, List.pairwise_append] at hp
    refine List.countP_eq_zero.2 fun b hb => ?_
    rw [decide_eq_true_eq, not_lt]
    rcases List.mem_cons.1 hb with rfl | hb
    · exact le_rfl
    · exact (List.pairwise_cons.1 hp.2.1).1 b hb
  rw [← above_perm (ranked_perm f l), above, hsplit, List.countP_append, hrest, Nat.add_zero]
  exact le_trans List.countP_le_length (List.length_take_le i _)

/-- The first entry of a list comes right after those above it. -/
lemma ranked_cons (a : α) (l : List α) : (ranked f (a :: l))[above f (f a) l]? = some a := by
  rw [← above_perm (ranked_perm f l), ranked, List.insertionSort_cons]
  have hp := ranked_pairwise f l
  change (List.orderedInsert (fun a b => f b ≤ f a) a (ranked f l))[_]? = _
  generalize ranked f l = sorted at hp ⊢
  induction sorted with
  | nil => rfl
  | cons b rest ih =>
    rw [List.pairwise_cons] at hp
    rw [List.orderedInsert_cons]
    by_cases hab : f b ≤ f a
    · have hzero : above f (f a) (b :: rest) = 0 := by
        refine List.countP_eq_zero.2 fun c hc => ?_
        rw [decide_eq_true_eq, not_lt]
        rcases List.mem_cons.1 hc with rfl | hc
        · exact hab
        · exact le_trans (hp.1 c hc) hab
      rw [if_pos hab, hzero]
      rfl
    · have hsucc : above f (f a) (b :: rest) = above f (f a) rest + 1 :=
        List.countP_cons_of_pos (decide_eq_true (not_le.1 hab))
      rw [if_neg hab, hsucc, List.getElem?_cons_succ]
      exact ih hp.2

/-- **Ties below the cut.**  The first `n` entries are the same in whatever order the entries come
if and only if of two entries with one score neither is among the first `n`. -/
theorem take_ranked_iff (hl : l.Nodup) :
    (∀ l₁ l₂ : List α, l₁.Perm l → l₂.Perm l → (ranked f l₁).take n = (ranked f l₂).take n) ↔
      ∀ a ∈ l, ∀ b ∈ l, a ≠ b → f a = f b → n ≤ above f (f a) l := by
  constructor
  · intro h a ha b hb hab hf
    by_contra hlt
    rw [not_le] at hlt
    have first : ∀ c ∈ l, ∃ l', l.Perm (c :: l') := by
      intro c hc
      obtain ⟨before, after, rfl⟩ := List.append_of_mem hc
      exact ⟨before ++ after, List.perm_middle⟩
    obtain ⟨l₁, hl₁⟩ := first a ha
    obtain ⟨l₂, hl₂⟩ := first b hb
    have hcount : ∀ {c : α} {l' : List α}, l.Perm (c :: l') →
        above f (f c) l' = above f (f c) l := by
      intro c l' hperm
      rw [above_perm hperm, above, above, List.countP_cons_of_neg]
      simp
    have hget := congrArg (·[above f (f a) l]?) (h _ _ hl₁.symm hl₂.symm)
    rw [List.getElem?_take_of_lt hlt, List.getElem?_take_of_lt hlt, ← hcount hl₁, ranked_cons,
      hcount hl₁, hf, ← hcount hl₂, ranked_cons] at hget
    exact hab (Option.some.inj hget)
  · intro h l₁ l₂ h₁ h₂
    refine List.ext_getElem? fun i => ?_
    by_cases hi : i < n
    · rw [List.getElem?_take_of_lt hi, List.getElem?_take_of_lt hi]
      have hscores := congrArg (·[i]?) (ranked_scores (f := f) (h₁.trans h₂.symm))
      simp only [List.getElem?_map] at hscores
      cases ha : (ranked f l₁)[i]? with
      | none =>
        rw [ha] at hscores
        exact (Option.map_eq_none_iff.1 hscores.symm).symm
      | some a =>
        rw [ha] at hscores
        obtain ⟨b, hb, hab⟩ := Option.map_eq_some_iff.1 hscores.symm
        rw [hb]
        by_contra hne
        have hmem : a ∈ l := h₁.mem_iff.1 (mem_ranked.1 (List.mem_of_getElem? ha))
        have hmem' : b ∈ l := h₂.mem_iff.1 (mem_ranked.1 (List.mem_of_getElem? hb))
        have hn := h a hmem b hmem' (fun heq => hne (by rw [heq])) hab.symm
        rw [← above_perm h₁] at hn
        exact absurd (le_trans hn (above_le ha)) (not_le.2 hi)
    · rw [List.getElem?_take_eq_none (not_lt.1 hi), List.getElem?_take_eq_none (not_lt.1 hi)]

end TopCut

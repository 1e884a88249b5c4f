/-
Walking the pages of a listing by a cursor.

A page request gives some rows and, if there may be more, the cursor of the next page, or it
fails.  `Walk page c rows` says that following the cursors from `c` until there is none gives
`rows`; it is an inductive definition, so it also says that the walk ends.

The pages here are the first `L` rows of what a cursor selects, and a full page has the cursor of
its last row (`pageOf`).  The walk gives a listing exactly when the cursor of the last row of
each full page selects what the listing has after that row, as far as the next page goes
(`walk_iff_slices`).  For a listing in strictly ascending order, in which what cannot be compared
comes last, this is so exactly when each of these cursors selects the rows after its own, and
all of them (`walk_iff_exact`).
-/
import Mathlib.Data.List.Pairwise
import Mathlib.Data.List.TakeDrop
import Mathlib.Order.Basic
import Mathlib.Tactic

namespace Keyset

variable {ρ γ : Type*}

/-- Following the cursors from `c` until there is none gives the rows, page after page. -/
inductive Walk (page : Option γ → Option (List ρ × Option γ)) : Option γ → List ρ → Prop
  | last {c rows} : page c = some (rows, none) → Walk page c rows
  | more {c rows c' rest} : page c = some (rows, some c') → Walk page (some c') rest →
      Walk page c (rows ++ rest)

variable (L : ℕ) (select : Option γ → Option (List ρ)) (cursor : ρ → γ)

/-- A page: the first `L` rows that the cursor selects, and the cursor of the last one when there
are so many. -/
def pageOf (c : Option γ) : Option (List ρ × Option γ) :=
  (select c).map fun rows =>
    (rows.take L, if (rows.take L).length = L then (rows.take L).getLast?.map cursor else none)

variable {L select cursor}

lemma walk_inv {c : Option γ} {rows : List ρ} (hL : 0 < L)
    (h : Walk (pageOf L select cursor) c rows) :
    ∃ sel, select c = some sel ∧ (sel.length < L ∧ rows = sel ∨
      ∃ r rest, L ≤ sel.length ∧ (sel.take L).getLast? = some r ∧ rows = sel.take L ++ rest ∧
        Walk (pageOf L select cursor) (some (cursor r)) rest) := by
  cases h with
  | last hpage =>
      obtain ⟨sel, hsel, heq⟩ := Option.map_eq_some_iff.1 hpage
      obtain ⟨rfl, hnone⟩ := Prod.mk.inj heq
      refine ⟨sel, hsel, .inl ?_⟩
      have hlt : sel.length < L := by
        by_contra hle
        have hlen : (sel.take L).length = L := by simp; omega
        rw [if_pos hlen, Option.map_eq_none_iff, List.getLast?_eq_none_iff] at hnone
        rw [hnone] at hlen
        simp at hlen
        omega
      exact ⟨hlt, List.take_of_length_le hlt.le⟩
  | @more _ _ c' rest hpage hrest =>
      obtain ⟨sel, hsel, heq⟩ := Option.map_eq_some_iff.1 hpage
      obtain ⟨rfl, hsome⟩ := Prod.mk.inj heq
      split_ifs at hsome with hlen
      obtain ⟨r, hr, rfl⟩ := Option.map_eq_some_iff.1 hsome
      refine ⟨sel, hsel, .inr ⟨r, rest, ?_, hr, rfl, hrest⟩⟩
      rw [List.length_take] at hlen
      omega

/-- The rows of a walk are rows that its first cursor selects, or the cursor of some row. -/
lemma selected_of_walk {c : Option γ} {rows : List ρ} (h : Walk (pageOf L select cursor) c rows) :
    ∀ x ∈ rows, ∃ c' sel, (c' = c ∨ ∃ r, c' = some (cursor r)) ∧ select c' = some sel ∧
      x ∈ sel := by
  induction h with
  | @last c rows hpage =>
      intro x hx
      obtain ⟨sel, hsel, heq⟩ := Option.map_eq_some_iff.1 hpage
      obtain ⟨rfl, -⟩ := Prod.mk.inj heq
      exact ⟨c, sel, .inl rfl, hsel, List.mem_of_mem_take hx⟩
  | @more c rows c' rest hpage _ ih =>
      intro x hx
      obtain ⟨sel, hsel, heq⟩ := Option.map_eq_some_iff.1 hpage
      obtain ⟨rfl, hsome⟩ := Prod.mk.inj heq
      split_ifs at hsome with hlen
      obtain ⟨r, -, rfl⟩ := Option.map_eq_some_iff.1 hsome
      rcases List.mem_append.1 hx with hx | hx
      · exact ⟨c, sel, .inl rfl, hsel, List.mem_of_mem_take hx⟩
      · obtain ⟨c'', sel', hc'', hsel', hx'⟩ := ih x hx
        refine ⟨c'', sel', .inr ?_, hsel', hx'⟩
        rcases hc'' with rfl | hc''
        · exact ⟨r, rfl⟩
        · exact hc''

/-! ### Slices -/

section slices

variable (L select) in
/-- From the cursor the next page is the one of the listing at `n`. -/
def Continues (M : List ρ) (n : ℕ) (c : Option γ) : Prop :=
  ∃ sel, select c = some sel ∧ sel.take L = (M.drop n).take L

variable {M : List ρ}

/-- A walk that gives the rest of the listing begins with its next page. -/
lemma continues_of_walk (hL : 0 < L) {n : ℕ} {c : Option γ}
    (h : Walk (pageOf L select cursor) c (M.drop n)) : Continues L select M n c := by
  obtain ⟨sel, hsel, ⟨-, heq⟩ | ⟨r, rest, hle, -, heq, -⟩⟩ := walk_inv hL h
  · exact ⟨sel, hsel, by rw [heq]⟩
  · refine ⟨sel, hsel, ?_⟩
    rw [heq, List.take_append_of_le_length (by simp; omega), List.take_take, min_self]

lemma getLast?_take_drop {n : ℕ} (hL : 0 < L) (hlen : n + L ≤ M.length) :
    ((M.drop n).take L).getLast? = M[n + L - 1]? := by
  rw [List.getLast?_eq_getElem?, List.length_take, List.length_drop,
    min_eq_left (by omega), List.getElem?_take, if_pos (by omega), List.getElem?_drop]
  congr 1
  omega

/-- A walk through the rest of the listing continues after each of its full pages. -/
lemma slices_of_walk (hL : 0 < L) (k : ℕ) : ∀ {n : ℕ} {c : Option γ} {r : ρ},
    Walk (pageOf L select cursor) c (M.drop n) → M[n + (k + 1) * L - 1]? = some r →
    Continues L select M (n + (k + 1) * L) (some (cursor r)) := by
  induction k with
  | zero =>
      intro n c r h hr
      rw [Nat.zero_add, Nat.one_mul] at hr ⊢
      have hlt := (List.getElem?_eq_some_iff.1 hr).1
      obtain ⟨sel, -, ⟨hshort, heq⟩ | ⟨r', rest, hle, hr', heq, hrest⟩⟩ := walk_inv hL h
      · have hlen := congrArg List.length heq
        rw [List.length_drop] at hlen
        omega
      · have htake : (M.drop n).take L = sel.take L := by
          rw [heq, List.take_append_of_le_length (by simp; omega), List.take_take, min_self]
        rw [← htake, getLast?_take_drop hL (by omega), hr] at hr'
        obtain rfl := Option.some.inj hr'
        have hdrop : M.drop (n + L) = rest := by
          rw [← List.drop_drop, heq, List.drop_append_of_le_length (by simp; omega),
            List.drop_of_length_le (by simp), List.nil_append]
        exact continues_of_walk hL (by rwa [hdrop])
  | succ k ih =>
      intro n c r h hr
      have hlt := (List.getElem?_eq_some_iff.1 hr).1
      have hmul : (k + 1 + 1) * L = L + (k + 1) * L := by ring
      obtain ⟨sel, -, ⟨hshort, heq⟩ | ⟨r', rest, hle, hr', heq, hrest⟩⟩ := walk_inv hL h
      · have hlen := congrArg List.length heq
        rw [List.length_drop] at hlen
        omega
      · have hdrop : M.drop (n + L) = rest := by
          rw [← List.drop_drop, heq, List.drop_append_of_le_length (by simp; omega),
            List.drop_of_length_le (by simp), List.nil_append]
        rw [← hdrop] at hrest
        rw [hmul, ← Nat.add_assoc] at hr ⊢
        exact ih hrest hr

/-- Pages that continue one after the other are a walk. -/
lemma walk_of_slices (hL : 0 < L) (d : ℕ) : ∀ {n : ℕ} {c : Option γ}, M.length - n ≤ d →
    Continues L select M n c →
    (∀ k r, M[n + (k + 1) * L - 1]? = some r →
      Continues L select M (n + (k + 1) * L) (some (cursor r))) →
    Walk (pageOf L select cursor) c (M.drop n) := by
  induction d using Nat.strong_induction_on with
  | _ d ih =>
    rintro n c hd ⟨sel, hsel, htake⟩ h
    have hlen : (sel.take L).length = min L (M.length - n) := by
      rw [htake, List.length_take, List.length_drop]
    by_cases hshort : M.length - n < L
    · have heq : sel.take L = M.drop n := by
        rw [htake, List.take_of_length_le (by rw [List.length_drop]; omega)]
      have hpage : pageOf L select cursor c = some (sel.take L, none) := by
        rw [pageOf, hsel, Option.map_some, if_neg (by omega)]
      rw [← heq]
      exact .last hpage
    · have hlt : n + L - 1 < M.length := by omega
      obtain ⟨r, hr⟩ : ∃ r, M[n + L - 1]? = some r := ⟨_, List.getElem?_eq_getElem hlt⟩
      have hpage : pageOf L select cursor c = some (sel.take L, some (cursor r)) := by
        rw [pageOf, hsel, Option.map_some, if_pos (by omega), htake,
          getLast?_take_drop hL (by omega), hr, Option.map_some]
      have hnext : Continues L select M (n + L) (some (cursor r)) := by
        have := h 0 r (by simpa using hr)
        simpa using this
      have hrest := ih (d - L) (by omega) (n := n + L) (by omega) hnext fun k r' hr' => by
        have hmul : (k + 1 + 1) * L = L + (k + 1) * L := by ring
        have := h (k + 1) r'
        rw [hmul, ← Nat.add_assoc] at this
        exact this hr'
      have heq : M.drop n = sel.take L ++ M.drop (n + L) := by
        rw [htake, ← List.drop_drop, List.take_append_drop]
      rw [heq]
      exact .more hpage hrest

/-- **Slices.**  The walk gives what is selected without a cursor exactly when it continues after
each full page. -/
theorem walk_iff_slices (hL : 0 < L) (hM : select none = some M) :
    Walk (pageOf L select cursor) none M ↔ ∀ k r, M[(k + 1) * L - 1]? = some r →
      Continues L select M ((k + 1) * L) (some (cursor r)) := by
  constructor
  · intro h k r hr
    have := slices_of_walk hL k (n := 0) (c := none) (r := r) h (by simpa using hr)
    simpa using this
  · intro h
    exact walk_of_slices hL M.length (n := 0) (by omega) ⟨M, hM, rfl⟩ fun k r hr => by
      simpa using h k r (by simpa using hr)

end slices

/-! ### Sorted listings -/

section sorted

variable {β : Type*} [LinearOrder β] {rank : ρ → β} {M : List ρ}

/-- What is above an element of a sorted listing comes after it. -/
lemma filter_lt_eq_drop (hM : M.Pairwise fun x y => rank x < rank y) {i : ℕ} {r : ρ}
    (hr : M[i]? = some r) {p : ρ → Bool} (hp : ∀ x ∈ M, p x = true ↔ rank r < rank x) :
    M.filter p = M.drop (i + 1) := by
  induction M generalizing i with
  | nil => simp
  | cons x M ih =>
      obtain ⟨hx, hM⟩ := List.pairwise_cons.1 hM
      have hrest : ∀ y ∈ M, p y = true ↔ rank r < rank y :=
        fun y hy => hp y (List.mem_cons_of_mem x hy)
      cases i with
      | zero =>
          obtain rfl : x = r := by simpa using hr
          have hself : p x = false := by
            rw [Bool.eq_false_iff, Ne, hp x List.mem_cons_self]
            exact lt_irrefl _
          rw [List.filter_cons_of_neg (by simp [hself]), List.drop_one, List.tail_cons,
            List.filter_eq_self]
          exact fun y hy => (hrest y hy).2 (hx y hy)
      | succ i =>
          have hmem : r ∈ M := List.mem_of_getElem? (by simpa using hr)
          have hbelow : p x = false := by
            rw [Bool.eq_false_iff, Ne, hp x List.mem_cons_self]
            exact (hx r hmem).le.not_gt
          rw [List.filter_cons_of_neg (by simp [hbelow]), List.drop_succ_cons]
          exact ih hM (by simpa using hr) hrest

lemma mem_drop_of_lt (hM : M.Pairwise fun x y => rank x < rank y) {i : ℕ} {r x : ρ}
    (hr : M[i]? = some r) (hx : x ∈ M) (hlt : rank r < rank x) : x ∈ M.drop (i + 1) := by
  have hmem : x ∈ M.filter fun y => rank r < rank y := by simp [hx, hlt]
  rwa [filter_lt_eq_drop hM hr (by simp)] at hmem

lemma lt_of_mem_drop (hM : M.Pairwise fun x y => rank x < rank y) {i : ℕ} {r x : ρ}
    (hr : M[i]? = some r) (hx : x ∈ M.drop (i + 1)) : rank r < rank x := by
  rw [← filter_lt_eq_drop hM hr (p := fun y => rank r < rank y) (by simp)] at hx
  simpa using (List.mem_filter.1 hx).2

/-- The first element of a sorted list is the least. -/
lemma head_le (hM : M.Pairwise fun x y => rank x < rank y) {y x : ρ} (hy : M.head? = some y)
    (hx : x ∈ M) : x = y ∨ rank y < rank x := by
  cases M with
  | nil => cases hx
  | cons z M =>
      obtain rfl : z = y := by simpa using hy
      rcases List.mem_cons.1 hx with rfl | hx
      · exact .inl rfl
      · exact .inr ((List.pairwise_cons.1 hM).1 x hx)

variable {sees : ρ → Option (ρ → Bool)} {comparable : ρ → Prop}

/-- When every page continues and there is more than one, everything can be compared: the last
element of the listing is on a later page. -/
lemma comparable_of_slices (hL : 0 < L) (hM : M.Pairwise fun x y => rank x < rank y)
    (hselect : ∀ r, select (some (cursor r)) = (sees r).map fun p => M.filter p)
    (hcomparable : ∀ r p, sees r = some p → ∀ x ∈ M, p x = true → comparable x)
    (hlast : ∀ x ∈ M, ∀ y ∈ M, rank x < rank y → comparable y → comparable x)
    (h : ∀ k r, M[(k + 1) * L - 1]? = some r →
      Continues L select M ((k + 1) * L) (some (cursor r)))
    (hmore : L < M.length) : ∀ x ∈ M, comparable x := by
  -- the cursor before the last page, and the first element after it
  set n := L * ((M.length - 1) / L) with hn
  have hdiv : 1 ≤ (M.length - 1) / L := (Nat.one_le_div_iff hL).2 (by omega)
  have hmod := Nat.div_add_mod (M.length - 1) L
  have hmodlt := Nat.mod_lt (M.length - 1) hL
  have hpos : L ≤ n := Nat.le_mul_of_pos_right L hdiv
  obtain ⟨r, hr⟩ : ∃ r, M[n - 1]? = some r := ⟨_, List.getElem?_eq_getElem (by omega)⟩
  obtain ⟨y, hy⟩ : ∃ y, M[n]? = some y := ⟨_, List.getElem?_eq_getElem (by omega)⟩
  have hsucc : n - 1 + 1 = n := by omega
  obtain ⟨sel, hsel, htake⟩ : Continues L select M n (some (cursor r)) := by
    have hk : ((M.length - 1) / L - 1 + 1) * L = n := by
      rw [Nat.sub_add_cancel hdiv, Nat.mul_comm]
    have := h ((M.length - 1) / L - 1) r
    rw [hk] at this
    exact this hr
  rw [hselect] at hsel
  obtain ⟨p, hp, rfl⟩ := Option.map_eq_some_iff.1 hsel
  rw [List.take_of_length_le (l := M.drop _) (by rw [List.length_drop]; omega)] at htake
  have hselected : ∀ x ∈ M.drop n, comparable x := by
    intro x hx
    rw [← htake] at hx
    obtain ⟨hxM, hxp⟩ := List.mem_filter.1 (List.mem_of_mem_take hx)
    exact hcomparable _ p hp x hxM hxp
  have hydrop : y ∈ M.drop n := by
    have hy' : (M.drop n)[0]? = some y := by simpa using hy
    exact List.mem_of_getElem? hy'
  intro x hx
  by_cases hlt : rank r < rank x
  · exact hselected x (hsucc ▸ mem_drop_of_lt hM hr hx hlt)
  · have hry : rank r < rank y := lt_of_mem_drop hM hr (hsucc.symm ▸ hydrop)
    exact hlast x hx y (List.mem_of_getElem? hy) (lt_of_le_of_lt (not_lt.1 hlt) hry)
      (hselected y hydrop)

variable (comparable) in
/-- **Exact cursors.**  The walk gives a sorted listing exactly when the cursor of the last row
of every full page selects the rows that come after it. -/
theorem walk_iff_exact (hL : 0 < L) (hnone : select none = some M)
    (hM : M.Pairwise fun x y => rank x < rank y)
    (hselect : ∀ r, select (some (cursor r)) = (sees r).map fun p => M.filter p)
    (hcomparable : ∀ r p, sees r = some p → ∀ x ∈ M, p x = true → comparable x)
    (hupward : ∀ r p, sees r = some p → ∀ x ∈ M, ∀ y ∈ M, p x = true → rank x < rank y →
      comparable y → p y = true)
    (hlast : ∀ x ∈ M, ∀ y ∈ M, rank x < rank y → comparable y → comparable x) :
    Walk (pageOf L select cursor) none M ↔ ∀ k r, M[(k + 1) * L - 1]? = some r →
      ∃ p, sees r = some p ∧ ∀ x ∈ M, p x = true ↔ rank r < rank x := by
  rw [walk_iff_slices hL hnone]
  have hsucc : ∀ k, (k + 1) * L - 1 + 1 = (k + 1) * L := by
    intro k
    have : 0 < (k + 1) * L := Nat.mul_pos k.succ_pos hL
    omega
  constructor
  · intro h k r hr
    obtain ⟨sel, hsel, htake⟩ := h k r hr
    rw [hselect] at hsel
    obtain ⟨p, hp, rfl⟩ := Option.map_eq_some_iff.1 hsel
    refine ⟨p, hp, fun x hx => ?_⟩
    cases hrest : M.drop ((k + 1) * L) with
    | nil =>
        -- nothing comes after, so nothing is selected
        have hfilter : M.filter p = [] := by
          rw [hrest, List.take_nil, List.take_eq_nil_iff] at htake
          exact htake.resolve_left hL.ne'
        constructor
        · intro hpx
          have hmem : x ∈ M.filter p := List.mem_filter.2 ⟨hx, hpx⟩
          rw [hfilter] at hmem
          cases hmem
        · intro hlt
          have hmem := mem_drop_of_lt hM hr hx hlt
          rw [hsucc, hrest] at hmem
          cases hmem
    | cons y rest =>
        have hlen := congrArg List.length hrest
        rw [List.length_drop, List.length_cons] at hlen
        have hmore : L < M.length := by
          have : L ≤ (k + 1) * L := Nat.le_mul_of_pos_left L k.succ_pos
          omega
        have hall := comparable_of_slices hL hM hselect hcomparable hlast h hmore
        -- the first row selected is the first one after the cursor
        have hhead : (M.filter p).head? = some y := by
          have hhead := congrArg List.head? htake
          rw [hrest, List.head?_take, List.head?_take, if_neg hL.ne', if_neg hL.ne'] at hhead
          simpa using hhead
        have hymem : y ∈ M.drop ((k + 1) * L) := by simp [hrest]
        have hry : rank r < rank y := lt_of_mem_drop hM hr (by rwa [hsucc])
        have hyp := (List.mem_filter.1 (List.mem_of_mem_head? hhead))
        constructor
        · intro hpx
          rcases head_le (hM.filter p) hhead (List.mem_filter.2 ⟨hx, hpx⟩) with rfl | hlt
          · exact hry
          · exact hry.trans hlt
        · intro hlt
          have hxmem := mem_drop_of_lt hM hr hx hlt
          rw [hsucc, hrest] at hxmem
          rcases List.mem_cons.1 hxmem with rfl | hxrest
          · exact hyp.2
          · have hsorted : (M.drop ((k + 1) * L)).Pairwise fun x y => rank x < rank y :=
              hM.sublist (List.drop_sublist _ _)
            rw [hrest] at hsorted
            exact hupward _ p hp y hyp.1 x hx hyp.2
              ((List.pairwise_cons.1 hsorted).1 x hxrest) (hall x hx)
  · intro h k r hr
    obtain ⟨p, hp, hexact⟩ := h k r hr
    refine ⟨M.filter p, by rw [hselect, hp, Option.map_some], ?_⟩
    rw [filter_lt_eq_drop hM hr hexact, hsucc]

end sorted

end Keyset

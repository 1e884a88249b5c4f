/-
The order in which a pass takes its entries.

A pass keeps what it owns sorted by priority and hands back what is over the cap.  At a boundary
only the owned entries and the arrivals are sorted anew; what was set aside before is not looked
at again.  Still the pass always takes the best of everything it knows: `Known` numbers the
entries of the pass in the order in which they came to it, and `Ordered` is the invariant, that
the owned entries are sorted by priority and number, that each of them comes before each of those
set aside, and that the pass owns as many entries as it may still take once it has set one aside.

The last part is what a boundary needs.  An arrival gets in only where an owned entry falls out,
so it is better than an entry that is better than those set aside.
-/
import PalaceDaemon.Mines.Conservation

namespace PalaceDaemon.Mines

/-! ### The entries that a pass knows, numbered -/

/-- An entry with the number under which it came to the pass. -/
abbrev Numbered := Item × ℕ

/-- The priority of a numbered entry. -/
def Numbered.priority (a : Numbered) : ℕ := drainEntryPriority a.1.entry

/-- A better priority, or the same one and the pass has known it for longer. -/
def Numbered.Before (a b : Numbered) : Prop :=
  a.priority < b.priority ∨ a.priority = b.priority ∧ a.2 < b.2

/-- The entries of a pass in the order in which they came to it. -/
structure Known where
  /-- What the pass still has to replay. -/
  owned : List Numbered
  /-- What it has set aside. -/
  deferred : List Numbered
  /-- What it has taken for replay. -/
  taken : List Numbered
  /-- The number of the next entry that comes. -/
  next : ℕ

/-- A pass that has not begun knows nothing. -/
def Known.fresh : Known where
  owned := []
  deferred := []
  taken := []
  next := 0

/-- Cut numbered entries at a budget. -/
def splitNumbered (budget : ℕ) (entries : List Numbered) : List Numbered × List Numbered :=
  PrioritySplit.split Numbered.priority budget entries

/-- What the pass knows after its next step: numbers are given when it loads its claim and when a
boundary takes in arrivals. -/
def Known.after (env : Env) (f : Files) (p : Pass) (k : Known) : Known :=
  match p.pc with
  | .load =>
      let entries := (dedup (f.processing.getD [])).zipIdx
      let (batch, deferred) := splitNumbered (drainBatchSize env.drainBatch) entries
      { k with owned := batch, deferred := deferred, next := entries.length }
  | .loop => { k with owned := k.owned.tail, taken := k.taken ++ k.owned.head?.toList }
  | .boundary =>
      if p.cap ≤ p.consumed then
        { k with owned := [], deferred := k.deferred ++ k.owned }
      else k
  | .rebalance arrivals =>
      let (owned, unique) := mergeArrivals p.owned arrivals
      let entries := owned.zip (k.owned.map Prod.snd) ++ unique.zipIdx k.next
      let (keep, displaced) := splitNumbered (p.cap - p.consumed) entries
      { k with
        owned := keep, deferred := k.deferred ++ displaced, next := k.next + unique.length }
  | _ => k

/-- One pass from its start, with the numbers of its entries. -/
def orderSystem : StepSystem (Run × Known) Label where
  init s := passSystem.init s.1 ∧ s.2 = .fresh
  next s l :=
    (passSystem.next s.1 l).map fun r =>
      (r, match l with
        | .act _ => s.2.after s.1.env s.1.files s.1.pass
        | _ => s.2)

/-- Requests are queued without a deferral counter. -/
def PostsFresh : Run × Known → Label → Prop
  | _, .post e => e.drainDeferrals = 0
  | _, _ => True

/-! ### Splitting numbered entries -/

lemma splitNumbered_map_fst (budget : ℕ) (entries : List Numbered) :
    splitClaim budget (entries.map Prod.fst) =
      ((splitNumbered budget entries).1.map Prod.fst,
        (splitNumbered budget entries).2.map Prod.fst) :=
  PrioritySplit.split_map _ _ _ _

lemma splitNumbered_perm (budget : ℕ) (entries : List Numbered) :
    ((splitNumbered budget entries).1 ++ (splitNumbered budget entries).2).Perm entries :=
  PrioritySplit.split_perm _ _ _

/-- Entries of which those of one priority are listed by number are split in order. -/
lemma splitNumbered_before (budget : ℕ) {entries : List Numbered}
    (h : entries.Pairwise fun a b => a.priority = b.priority → a.2 < b.2) :
    (splitNumbered budget entries).1.Pairwise Numbered.Before ∧
      ∀ a ∈ (splitNumbered budget entries).1, ∀ b ∈ (splitNumbered budget entries).2,
        a.Before b :=
  PrioritySplit.split_related (fun _ _ => Or.inl)
    (h.imp fun hab hprio => .inr ⟨hprio, hab hprio⟩)

/-! ### The arrivals -/

/-- The lines have no deferral counter. -/
def Zero (lines : List Entry) : Prop := ∀ l ∈ lines, l.drainDeferrals = 0

lemma Item.absorb_zero (it : Item) : it.absorb 0 = it := by
  simp [Item.absorb]

lemma absorbLast_id {ι κ : Type*} [DecidableEq κ] {key : ι → κ} {k : κ} {f : ι → ι}
    (hf : ∀ i, f i = i) (xs : List ι) : absorbLast key k f xs = xs := by
  have h := @map_absorbLast ι κ _ key k f ι id hf xs
  simpa using h

lemma mergeArrival_fst_of_zero (claim : List Item × List Item) {l : Entry}
    (hl : l.drainDeferrals = 0) : (mergeArrival claim l).1 = claim.1 := by
  unfold mergeArrival
  split_ifs
  · exact absorbLast_id (by rw [hl]; exact Item.absorb_zero) _
  · rfl
  · rfl

/-- Arrivals without a counter leave the owned entries as they are. -/
lemma mergeArrivals_fst_of_zero {owned : List Item} {arrivals : List Entry} (h : Zero arrivals) :
    (mergeArrivals owned arrivals).1 = owned := by
  have hfold : ∀ (as : List Entry) (claim : List Item × List Item), Zero as →
      (as.foldl mergeArrival claim).1 = claim.1 := by
    intro as
    induction as with
    | nil => intro claim _; rfl
    | cons l as ih =>
      intro claim hzero
      rw [List.foldl_cons, ih _ fun l' hl' => hzero l' (List.mem_cons_of_mem _ hl'),
        mergeArrival_fst_of_zero _ (hzero l List.mem_cons_self)]
  exact hfold _ _ fun l hl => h l (List.mem_reverse.1 hl)

/-! ### One boundary -/

section boundary

variable {owned deferred : List Numbered} {unique : List Item} {budget next : ℕ}

lemma zipIdx_pairwise (xs : List Item) (n : ℕ) :
    (xs.zipIdx n).Pairwise fun a b => a.2 < b.2 := by
  induction xs generalizing n with
  | nil => exact .nil
  | cons x xs ih =>
    rw [List.zipIdx_cons]
    refine List.pairwise_cons.2 ⟨fun b hb => ?_, ih (n + 1)⟩
    exact List.le_snd_of_mem_zipIdx hb

/-- Owned entries in order, with new ones behind them, list each priority by number. -/
lemma combined_pairwise (unique : List Item) (hsorted : owned.Pairwise Numbered.Before)
    (hnumbers : ∀ a ∈ owned, a.2 < next) :
    (owned ++ unique.zipIdx next).Pairwise fun a b => a.priority = b.priority → a.2 < b.2 := by
  refine List.pairwise_append.2 ⟨?_, ?_, ?_⟩
  · refine hsorted.imp fun {a b} hab hprio => ?_
    rcases hab with hlt | ⟨-, hlt⟩
    · omega
    · exact hlt
  · exact (zipIdx_pairwise unique next).imp
      fun {a b} (h : a.2 < b.2) (_ : Numbered.priority a = Numbered.priority b) => h
  · intro a ha b hb _
    exact (hnumbers a ha).trans_le (List.le_snd_of_mem_zipIdx hb)

/-- Where the claim is full, an arrival gets in only by being better than an owned entry that
falls out. -/
lemma displaced_of_arrival (hsorted : owned.Pairwise Numbered.Before)
    (hnumbers : ∀ a ∈ owned, a.2 < next) (hfull : owned.length = budget) {a : Numbered}
    (ha : a ∈ (splitNumbered budget (owned ++ unique.zipIdx next)).1)
    (hnew : a ∈ unique.zipIdx next) : ∃ b ∈ owned, a.priority < b.priority := by
  have hlength : (splitNumbered budget (owned ++ unique.zipIdx next)).1.length = owned.length := by
    have hsplit := PrioritySplit.split_length Numbered.priority budget
      (owned ++ unique.zipIdx next)
    rw [List.length_append, ← hfull, Nat.min_eq_left (Nat.le_add_right _ _)] at hsplit
    rwa [hfull] at hsplit ⊢
  have hnodup : owned.Nodup := hsorted.imp fun {a b} hab => by
    rintro rfl
    rcases hab with h | ⟨-, h⟩ <;> exact absurd h (lt_irrefl _)
  have hge : next ≤ a.2 := List.le_snd_of_mem_zipIdx hnew
  -- otherwise what is kept is what was owned, and the arrival is not
  obtain ⟨b, hb, hout⟩ : ∃ b ∈ owned,
      b ∉ (splitNumbered budget (owned ++ unique.zipIdx next)).1 := by
    by_contra hall
    push Not at hall
    have hperm := (List.subperm_of_subset hnodup hall).perm_of_length_le hlength.le
    exact absurd (hnumbers a (hperm.mem_iff.2 ha)) (not_lt.2 hge)
  refine ⟨b, hb, ?_⟩
  have hset : b ∈ (splitNumbered budget (owned ++ unique.zipIdx next)).2 :=
    (List.mem_append.1 ((splitNumbered_perm budget _).mem_iff.2
      (List.mem_append_left _ hb))).resolve_left hout
  rcases (splitNumbered_before budget (combined_pairwise _ hsorted hnumbers)).2 a ha b hset with
    h | ⟨-, h⟩
  · exact h
  · exact absurd (h.trans (hnumbers b hb)) (not_lt.2 hge)

/-- A boundary keeps the order: what is kept is sorted and comes before everything set aside. -/
lemma boundary_before (unique : List Item) (hsorted : owned.Pairwise Numbered.Before)
    (hcross : ∀ a ∈ owned, ∀ b ∈ deferred, a.Before b) (hnumbers : ∀ a ∈ owned, a.2 < next)
    (hfull : deferred ≠ [] → owned.length = budget) :
    (splitNumbered budget (owned ++ unique.zipIdx next)).1.Pairwise Numbered.Before ∧
      ∀ a ∈ (splitNumbered budget (owned ++ unique.zipIdx next)).1,
        ∀ b ∈ deferred ++ (splitNumbered budget (owned ++ unique.zipIdx next)).2, a.Before b := by
  obtain ⟨hkeep, hdisplaced⟩ := splitNumbered_before budget
    (combined_pairwise unique hsorted hnumbers)
  refine ⟨hkeep, fun a ha b hb => ?_⟩
  rcases List.mem_append.1 hb with hb | hb
  · have hmem : a ∈ owned ++ unique.zipIdx next :=
      (splitNumbered_perm _ _).mem_iff.1 (List.mem_append_left _ ha)
    rcases List.mem_append.1 hmem with hold | hnew
    · exact hcross a hold b hb
    · obtain ⟨c, hc, hlt⟩ := displaced_of_arrival hsorted hnumbers
        (hfull (List.ne_nil_of_mem hb)) ha hnew
      -- the arrival is better than an owned entry, which is better than what was set aside
      rcases hcross c hc b hb with hcb | ⟨hcb, -⟩
      · exact .inl (hlt.trans hcb)
      · exact .inl (hcb ▸ hlt)
  · exact hdisplaced a ha b hb

/-- The numbers at a boundary are below the next one. -/
lemma boundary_numbers (hnumbers : ∀ a ∈ owned, a.2 < next) {a : Numbered}
    (ha : a ∈ owned ++ unique.zipIdx next) : a.2 < next + unique.length := by
  rcases List.mem_append.1 ha with ha | ha
  · exact (hnumbers a ha).trans_le (Nat.le_add_right _ _)
  · exact List.snd_lt_add_of_mem_zipIdx ha

/-- A boundary that sets something aside leaves the claim full. -/
lemma boundary_full (unique : List Item) (hfull : deferred ≠ [] → owned.length = budget)
    (hset : deferred ++ (splitNumbered budget (owned ++ unique.zipIdx next)).2 ≠ []) :
    (splitNumbered budget (owned ++ unique.zipIdx next)).1.length = budget := by
  have hlength := PrioritySplit.split_length Numbered.priority budget
    (owned ++ unique.zipIdx next)
  have hperm := (splitNumbered_perm budget (owned ++ unique.zipIdx next)).length_eq
  rw [List.length_append] at hperm
  change (splitNumbered budget _).1.length = _ at hlength
  rw [List.length_append] at hlength hperm
  by_cases hdeferred : deferred = []
  · have hpos : (splitNumbered budget (owned ++ unique.zipIdx next)).2.length ≠ 0 := by
      rw [Ne, List.length_eq_zero_iff]
      simpa [hdeferred] using hset
    omega
  · have := hfull hdeferred
    omega

end boundary

/-! ### The invariant -/

/-- The places between the claim of a pass and its last boundary. -/
def Pc.rolling : Pc → Bool
  | .load | .writeOpen _ | .writeLines _ | .loop | .replaying _ | .boundary | .mergeRead
  | .mergeRemove _ | .rebalance _ => true
  | _ => false

/-- What the pass knows is what it holds, and it is in order. -/
structure Known.Ordered (f : Files) (p : Pass) (k : Known) : Prop where
  owned : k.owned.map Prod.fst = p.owned
  deferred : k.deferred.map Prod.fst = p.deferred
  sorted : k.owned.Pairwise Numbered.Before
  cross : ∀ a ∈ k.owned, ∀ b ∈ k.deferred, a.Before b
  numbers : ∀ a ∈ k.owned ++ k.deferred, a.2 < k.next
  early : p.pc.early → k.owned = [] ∧ k.deferred = [] ∧ k.taken = []
  count : k.taken.length = p.consumed
  budget : p.consumed + k.owned.length ≤ p.cap
  full : k.deferred ≠ [] → p.consumed + k.owned.length = p.cap
  live : p.pc.rolling → Zero (f.live.getD [])
  merge : p.pc = .mergeRead → Zero (f.merge.getD [])
  arrivals : ∀ as, p.pc = .mergeRemove as ∨ p.pc = .rebalance as → Zero as

section moves

variable {env : Env} {f f' : Files} {p p' : Pass} {c : List Entry} {k : Known}

lemma ordered_fresh (f : Files) : Known.fresh.Ordered f .fresh where
  owned := rfl
  deferred := rfl
  sorted := .nil
  cross := by simp [Known.fresh]
  numbers := by simp [Known.fresh]
  early _ := ⟨rfl, rfl, rfl⟩
  count := rfl
  budget := le_refl 0
  full h := absurd rfl h
  live h := by simp [Pass.fresh, Pc.rolling] at h
  merge h := by simp [Pass.fresh] at h
  arrivals as h := by simp [Pass.fresh] at h

lemma ordered_append (h : k.Ordered f p) {e : Entry} (he : e.drainDeferrals = 0) :
    k.Ordered (f.append [e]) p where
  owned := h.owned
  deferred := h.deferred
  sorted := h.sorted
  cross := h.cross
  numbers := h.numbers
  early := h.early
  count := h.count
  budget := h.budget
  full := h.full
  live hpc l hl := by
    rcases List.mem_append.1 hl with hl | hl
    · exact h.live hpc l hl
    · rw [List.mem_singleton.1 hl, he]
  merge := h.merge
  arrivals := h.arrivals

/-- A move that leaves the lists alone leaves the order alone. -/
lemma ordered_of_eq (h : k.Ordered f p) (howned : p'.owned = p.owned)
    (hdeferred : p'.deferred = p.deferred) (hconsumed : p'.consumed = p.consumed)
    (hcap : p'.cap = p.cap) (hearly : p'.pc.early → p.pc.early)
    (hlive : p'.pc.rolling → Zero (f'.live.getD []))
    (hmerge : p'.pc = .mergeRead → Zero (f'.merge.getD []))
    (harrivals : ∀ as, p'.pc = .mergeRemove as ∨ p'.pc = .rebalance as → Zero as) :
    k.Ordered f' p' where
  owned := howned ▸ h.owned
  deferred := hdeferred ▸ h.deferred
  sorted := h.sorted
  cross := h.cross
  numbers := h.numbers
  early hpc := h.early (hearly hpc)
  count := hconsumed ▸ h.count
  budget := by rw [hconsumed, hcap]; exact h.budget
  full hne := by rw [hconsumed, hcap]; exact h.full hne
  live := hlive
  merge := hmerge
  arrivals := harrivals

/-- The claim is loaded: its entries are numbered, and the best of them are owned. -/
lemma ordered_load {lines : List Entry} {batch deferred : List Item} {pc : Pc}
    {state : MinedState} (h : k.Ordered f p) (hpc : p.pc = .load)
    (hproc : f.processing = some lines)
    (hsplit : splitClaim (drainBatchSize env.drainBatch) (dedup lines) = (batch, deferred))
    (hpc' : pc = .loop ∨ ∃ ls, pc = .writeOpen ls) :
    (k.after env f p).Ordered f { p with
      pc := pc, owned := batch, deferred := deferred, cap := drainBatchSize env.drainBatch
      minedState := state } := by
  obtain ⟨hnil, -, htaken⟩ := h.early (by rw [hpc]; rfl)
  have hconsumed : p.consumed = 0 := by rw [← h.count, htaken]; rfl
  have hmap := splitNumbered_map_fst (drainBatchSize env.drainBatch) (dedup lines).zipIdx
  rw [List.zipIdx_map_fst, hsplit] at hmap
  obtain ⟨hbatch, hdeferred⟩ := Prod.mk.inj hmap
  have hperm := splitNumbered_perm (drainBatchSize env.drainBatch) (dedup lines).zipIdx
  have hordered := splitNumbered_before (drainBatchSize env.drainBatch)
    ((zipIdx_pairwise (dedup lines) 0).imp
      fun {a b} (hab : a.2 < b.2) (_ : Numbered.priority a = Numbered.priority b) => hab)
  have hlength := PrioritySplit.split_length Numbered.priority (drainBatchSize env.drainBatch)
    (dedup lines).zipIdx
  change (splitNumbered _ _).1.length = _ at hlength
  have hlive := h.live (by rw [hpc]; rfl)
  have hafter : k.after env f p = { k with
      owned := (splitNumbered (drainBatchSize env.drainBatch) (dedup lines).zipIdx).1
      deferred := (splitNumbered (drainBatchSize env.drainBatch) (dedup lines).zipIdx).2
      next := (dedup lines).zipIdx.length } := by
    simp [Known.after, hpc, hproc]
  rw [hafter]
  refine ⟨hbatch.symm, hdeferred.symm, hordered.1, hordered.2, fun a ha => ?_, ?_, ?_, ?_,
    fun hne => ?_, fun _ => hlive, ?_, ?_⟩
  · have hmem := List.mem_zipIdx' (hperm.mem_iff.1 ha)
    simpa using hmem.1
  · rcases hpc' with rfl | ⟨ls, rfl⟩ <;> intro hearly <;> cases hearly
  · rw [htaken, hconsumed]; rfl
  · simp only [hconsumed, hlength]
    omega
  · -- something is over the cap, so the batch is as long as the cap
    have hpos : (splitNumbered (drainBatchSize env.drainBatch)
        (dedup lines).zipIdx).2.length ≠ 0 := by
      rw [Ne, List.length_eq_zero_iff]
      exact hne
    have hsum := hperm.length_eq
    rw [List.length_append] at hsum
    simp only [hconsumed]
    omega
  · rcases hpc' with rfl | ⟨ls, rfl⟩ <;> simp
  · rcases hpc' with rfl | ⟨ls, rfl⟩ <;> simp

/-- A boundary merges its arrivals. -/
lemma ordered_rebalance {as : List Entry} {keep displaced : List Item} {ls : List Entry}
    (h : k.Ordered f p) (hpc : p.pc = .rebalance as)
    (hsplit : rebalance p.owned (p.cap - p.consumed) as = (keep, displaced)) :
    (k.after env f p).Ordered f { p with
      pc := .writeOpen ls, owned := keep, deferred := p.deferred ++ displaced } := by
  have hzero := h.arrivals as (.inr hpc)
  have hfst : (mergeArrivals p.owned as).1 = p.owned := mergeArrivals_fst_of_zero hzero
  have hzip : p.owned.zip (k.owned.map Prod.snd) = k.owned := by
    rw [← h.owned]
    exact (List.zip_of_prod rfl rfl).symm
  have hbudget := h.budget
  have hfull : k.deferred ≠ [] → k.owned.length = p.cap - p.consumed := fun hne => by
    have := h.full hne
    omega
  have hnumbers : ∀ a ∈ k.owned, a.2 < k.next := fun a ha =>
    h.numbers a (List.mem_append_left _ ha)
  have hafter : k.after env f p = { k with
      owned := (splitNumbered (p.cap - p.consumed)
        (k.owned ++ (mergeArrivals p.owned as).2.zipIdx k.next)).1
      deferred := k.deferred ++ (splitNumbered (p.cap - p.consumed)
        (k.owned ++ (mergeArrivals p.owned as).2.zipIdx k.next)).2
      next := k.next + (mergeArrivals p.owned as).2.length } := by
    simp [Known.after, hpc, hfst, hzip]
  have hmap := splitNumbered_map_fst (p.cap - p.consumed)
    (k.owned ++ (mergeArrivals p.owned as).2.zipIdx k.next)
  have hperm := splitNumbered_perm (p.cap - p.consumed)
    (k.owned ++ (mergeArrivals p.owned as).2.zipIdx k.next)
  obtain ⟨hsorted, hcross⟩ := boundary_before (mergeArrivals p.owned as).2
    h.sorted h.cross hnumbers hfull
  have hlength := PrioritySplit.split_length_le Numbered.priority (p.cap - p.consumed)
    (k.owned ++ (mergeArrivals p.owned as).2.zipIdx k.next)
  change (splitNumbered _ _).1.length ≤ _ at hlength
  rw [List.map_append, h.owned, List.zipIdx_map_fst] at hmap
  simp only [rebalance, hfst, hmap, Prod.mk.injEq] at hsplit
  obtain ⟨rfl, rfl⟩ := hsplit
  rw [hafter]
  refine ⟨rfl, ?_, hsorted, hcross, fun a ha => ?_, fun hearly => (nomatch hearly), h.count,
    ?_, fun hne => ?_, fun _ => h.live (by rw [hpc]; rfl), by simp, by simp⟩
  · rw [List.map_append, h.deferred]
  · -- the numbers of the arrivals begin at `k.next`
    have hle : k.next ≤ k.next + (mergeArrivals p.owned as).2.length := Nat.le_add_right _ _
    rcases List.mem_append.1 ha with ha | ha
    · exact boundary_numbers hnumbers (hperm.mem_iff.1 (List.mem_append_left _ ha))
    · rcases List.mem_append.1 ha with ha | ha
      · exact (h.numbers a (List.mem_append_right _ ha)).trans_le hle
      · exact boundary_numbers hnumbers (hperm.mem_iff.1 (List.mem_append_right _ ha))
  · dsimp only
    omega
  · have hkeep := boundary_full (mergeArrivals p.owned as).2 hfull hne
    dsimp only
    omega

/-- The best entry is taken. -/
lemma ordered_take {it : Item} {owned : List Item} (h : k.Ordered f p) (hpc : p.pc = .loop)
    (howned : p.owned = it :: owned) {p' : Pass} (howned' : p'.owned = owned)
    (hdeferred : p'.deferred = p.deferred) (hconsumed : p'.consumed = p.consumed + 1)
    (hcap : p'.cap = p.cap) (hpc' : p'.pc = .boundary ∨ ∃ job, p'.pc = .replaying job) :
    (k.after env f p).Ordered f p' := by
  obtain ⟨a, rest, hk, -, hrest⟩ := List.map_eq_cons_iff.1 (h.owned.trans howned)
  have hafter : k.after env f p = { k with owned := rest, taken := k.taken ++ [a] } := by
    simp [Known.after, hpc, hk]
  have hsorted := h.sorted
  have hbudget := h.budget
  rw [hk, List.pairwise_cons] at hsorted
  rw [hk, List.length_cons] at hbudget
  rw [hafter]
  refine ⟨howned' ▸ hrest, hdeferred ▸ h.deferred, hsorted.2, fun b hb => ?_, fun b hb => ?_,
    fun hearly => ?_, ?_, ?_, fun hne => ?_, fun _ => h.live (by rw [hpc]; rfl), ?_, ?_⟩
  · exact h.cross b (hk ▸ List.mem_cons_of_mem _ hb)
  · exact h.numbers b (hk ▸ List.mem_cons_of_mem _ hb)
  · rcases hpc' with hpc' | ⟨job, hpc'⟩ <;> rw [hpc'] at hearly <;> cases hearly
  · rw [List.length_append, h.count, hconsumed]
    rfl
  · rw [hconsumed, hcap]
    dsimp only
    omega
  · have hfull := h.full hne
    rw [hk, List.length_cons] at hfull
    rw [hconsumed, hcap]
    dsimp only
    omega
  · rcases hpc' with hpc' | ⟨job, hpc'⟩ <;> simp [hpc']
  · rcases hpc' with hpc' | ⟨job, hpc'⟩ <;> simp [hpc']

lemma ordered_moves (hm : Moves env f p c f' p') (h : k.Ordered f p) :
    (k.after env f p).Ordered f' p' := by
  cases hm
  case loadAll lines batch hpc hproc hsplit =>
    exact ordered_load h hpc hproc hsplit (.inl rfl)
  case loadSome lines batch deferred hpc hproc hsplit _ =>
    exact ordered_load h hpc hproc hsplit (.inr ⟨_, rfl⟩)
  case rebalance as keep displaced hpc hsplit => exact ordered_rebalance h hpc hsplit
  case hold it owned why hpc howned _ =>
    exact ordered_take h hpc howned rfl rfl rfl rfl (.inl rfl)
  case reject it owned rule hpc howned _ =>
    exact ordered_take h hpc howned rfl rfl rfl rfl (.inl rfl)
  case spawn it owned job hpc howned _ =>
    exact ordered_take h hpc howned rfl rfl rfl rfl (.inr ⟨job, rfl⟩)
  case loadNone hpc hproc =>
    obtain ⟨howned, hdeferred, htaken⟩ := h.early (by rw [hpc]; rfl)
    have hbudget := h.budget
    have hafter : k.after env f p = { k with next := 0 } := by
      rw [Known.after, hpc, hproc]
      simp [dedup, mergeArrivals, splitNumbered, PrioritySplit.split, PrioritySplit.order, howned,
        hdeferred]
    rw [hafter]
    exact ⟨h.owned, h.deferred, h.sorted, h.cross, by simp [howned, hdeferred],
      fun hearly => absurd hearly Bool.false_ne_true, h.count, h.budget, h.full,
      fun hrolling => absurd hrolling Bool.false_ne_true, by simp, by simp⟩
  case loopEnd hpc howned =>
    have hnil : k.owned = [] := List.map_eq_nil_iff.1 (h.owned.trans howned)
    have hafter : k.after env f p = k := by
      cases k
      simp_all [Known.after]
    rw [hafter]
    exact ordered_of_eq h rfl rfl rfl rfl (fun hearly => absurd hearly Bool.false_ne_true)
      (fun hrolling => absurd hrolling Bool.false_ne_true) (by simp) (by simp)
  case budgetSpent hpc hspent =>
    have hbudget := h.budget
    have hnil : k.owned = [] := List.eq_nil_of_length_eq_zero (by omega)
    have howned : p.owned = [] := by rw [← h.owned, hnil]; rfl
    have hafter : k.after env f p = k := by
      cases k
      simp_all [Known.after]
    rw [hafter]
    refine ordered_of_eq h (by simp [howned]) (by simp [howned]) rfl rfl
      (fun hearly => absurd hearly Bool.false_ne_true) (fun _ => h.live (by rw [hpc]; rfl))
      (by simp) (by simp)
  case arrivals hpc hlt hlive =>
    have hzero := h.live (by rw [hpc]; rfl)
    rw [hlive] at hzero
    have hafter : k.after env f p = k := by simp [Known.after, hpc, Nat.not_le.2 hlt]
    rw [hafter]
    exact ordered_of_eq h rfl rfl rfl rfl (fun hearly => absurd hearly Bool.false_ne_true)
      (by simp [Zero]) (fun _ => hzero) (by simp)
  case noArrivals hpc hlt hlive =>
    have hafter : k.after env f p = k := by simp [Known.after, hpc, Nat.not_le.2 hlt]
    rw [hafter]
    exact ordered_of_eq h rfl rfl rfl rfl (fun hearly => absurd hearly Bool.false_ne_true)
      (by simp [Zero, hlive]) (by simp) (by simp [Zero])
  case claim hpc hlive =>
    have hafter : k.after env f p = k := by simp [Known.after, hpc]
    rw [hafter]
    exact ordered_of_eq h rfl rfl rfl rfl (fun _ => by rw [hpc]; rfl) (by simp [Zero]) (by simp)
      (by simp)
  case mergeRead hpc =>
    have hafter : k.after env f p = k := by simp [Known.after, hpc]
    rw [hafter]
    exact ordered_of_eq h rfl rfl rfl rfl (fun hearly => absurd hearly Bool.false_ne_true)
      (fun _ => h.live (by rw [hpc]; rfl)) (by simp) (by simpa using h.merge hpc)
  case mergeRemove as hpc =>
    have hafter : k.after env f p = k := by simp [Known.after, hpc]
    rw [hafter]
    exact ordered_of_eq h rfl rfl rfl rfl (fun hearly => absurd hearly Bool.false_ne_true)
      (fun _ => h.live (by rw [hpc]; rfl)) (by simp) (by simpa using h.arrivals as (.inl hpc))
  all_goals
    have hafter : k.after env f p = k := by simp_all [Known.after]
    have hlive := h.live
    rw [hafter]
    refine ordered_of_eq h ?_ ?_ ?_ ?_ ?_ ?_ ?_ ?_ <;> simp_all [Pc.early, Pc.rolling]

end moves

lemma ordered_next {s s' : Run × Known} {l : Label} (h : s.2.Ordered s.1.files s.1.pass)
    (hok : PostsFresh s l) (hnext : orderSystem.next s l = some s') :
    s'.2.Ordered s'.1.files s'.1.pass := by
  obtain ⟨r, hr, rfl⟩ := Option.map_eq_some_iff.1 hnext
  cases l with
  | post e =>
    obtain rfl := Option.some.inj hr
    exact ordered_append h hok
  | change env =>
    obtain rfl := Option.some.inj hr
    exact h
  | act a =>
    obtain ⟨⟨files, pass⟩, hmove, rfl⟩ := Option.map_eq_some_iff.1 hr
    exact ordered_moves (moves_of_next hmove) h

lemma ordered_of_reached {s : Run × Known} (h : orderSystem.ReachedBy PostsFresh s) :
    s.2.Ordered s.1.files s.1.pass := by
  refine h.invariant ?_ fun _ _ _ hs hok hnext => ordered_next hs hok hnext
  rintro ⟨r, k⟩ ⟨⟨hpass, -⟩, hfresh⟩
  obtain rfl : k = .fresh := hfresh
  rw [show r.pass = .fresh from hpass]
  exact ordered_fresh r.files

/-- **The order of a pass.**  In every run of a pass, whatever is in the queue and whatever arrives
at its boundaries, the pass takes at most as many entries as its cap says.  What it owns and what
it has set aside are the known entries, and the one it takes next comes before every other: none
of them has a better priority, and none of the same priority came earlier.  So an entry that is
better than all the others is the one it takes. -/
theorem pass_in_order {s : Run} {k : Known} (h : orderSystem.ReachedBy PostsFresh (s, k)) :
    k.taken.length ≤ s.pass.cap ∧
    k.owned.map Prod.fst = s.pass.owned ∧ k.deferred.map Prod.fst = s.pass.deferred ∧
    ∀ next others, s.pass.pc = .loop → k.owned = next :: others →
      (∀ other ∈ others ++ k.deferred, next.Before other) ∧
      ∀ best ∈ k.owned ++ k.deferred,
        (∀ other ∈ k.owned ++ k.deferred, other ≠ best → best.priority < other.priority) →
        best = next := by
  have hordered := ordered_of_reached h
  have hbudget := hordered.budget
  refine ⟨?_, hordered.owned, hordered.deferred, fun next others _ hk => ?_⟩
  · rw [hordered.count]
    exact Nat.le_of_add_right_le hbudget
  have hsorted := hordered.sorted
  rw [hk, List.pairwise_cons] at hsorted
  have hbefore : ∀ other ∈ others ++ k.deferred, next.Before other := by
    intro other hother
    rcases List.mem_append.1 hother with hother | hother
    · exact hsorted.1 other hother
    · exact hordered.cross next (by rw [hk]; exact List.mem_cons_self) other hother
  refine ⟨hbefore, fun best hbest hall => ?_⟩
  by_contra hne
  rw [hk, List.cons_append] at hbest hall
  have hother := (List.mem_cons.1 hbest).resolve_left hne
  have hbetter := hall next List.mem_cons_self fun heq => hne heq.symm
  rcases hbefore best hother with hlt | ⟨heq, -⟩
  · exact absurd hbetter (not_lt.2 hlt.le)
  · exact absurd hbetter (heq ▸ lt_irrefl _)

/-- A request for a document, which is mined before the transcripts. -/
def Entry.ofDocument (path : String) : Entry :=
  { Entry.ofDir path with
    payload := { (Entry.ofDir path).payload with mode := "projects" } }

/-- Three transcripts, a cap of two. -/
def transcripts : Run where
  env := { Env.plain with drainBatch := some 2 }
  files := .ofLive [.ofDir "/a", .ofDir "/b", .ofDir "/c"]
  pass := .fresh
  posted := [.ofDir "/a", .ofDir "/b", .ofDir "/c"]
  claimed := []
  ended := []

/-- The pass up to its first boundary, with a document that arrives during the first mine. -/
def documentArrives : List Label :=
  List.replicate 6 (Label.act .run) ++ [Label.post (.ofDocument "/d"), .act (.mineEnds .ok)] ++
    List.replicate 6 (Label.act .run)

/-- With a cap of two and three transcripts in the queue, a document that arrives during the first
mine is what the pass takes next. -/
theorem pass_in_order_document : ∃ (s : Run) (k : Known),
    s.pass.pc = .loop ∧ k.owned = [(Item.ofLine (.ofDocument "/d"), 3)] ∧
    k.deferred = [(Item.ofLine (.ofDir "/c"), 2), (Item.ofLine (.ofDir "/b"), 1)] ∧
    k.taken.length ≤ s.pass.cap ∧
    ∀ other ∈ [] ++ k.deferred, Numbered.Before (Item.ofLine (.ofDocument "/d"), 3) other := by
  obtain ⟨⟨s, k⟩, hexec, hend⟩ := orderSystem.exists_of_exec_any (transcripts, .fresh)
    documentArrives (fun s => decide (s.1.pass.pc = .loop ∧
      s.2.owned = [(Item.ofLine (.ofDocument "/d"), 3)] ∧
      s.2.deferred = [(Item.ofLine (.ofDir "/c"), 2), (Item.ofLine (.ofDir "/b"), 1)]))
    (by decide)
  obtain ⟨hpc, howned, hdeferred⟩ := of_decide_eq_true hend
  have hstart : orderSystem.ReachedBy PostsFresh (transcripts, Known.fresh) :=
    .init ⟨⟨rfl, rfl, rfl, rfl⟩, rfl⟩
  have hmeets : orderSystem.Meets PostsFresh (transcripts, Known.fresh) documentArrives := by
    refine StepSystem.meets_of_forall (fun s l hl => ?_) _
    simp only [documentArrives, List.mem_append, List.mem_replicate, List.mem_cons,
      List.not_mem_nil, or_false] at hl
    rcases hl with (⟨-, rfl⟩ | rfl | rfl) | ⟨-, rfl⟩ <;> trivial
  obtain ⟨hcap, -, -, hnext⟩ := pass_in_order (hstart.exec hmeets hexec)
  exact ⟨s, k, hpc, howned, hdeferred, hcap, (hnext _ [] hpc howned).1⟩

end PalaceDaemon.Mines

/-
The claim of a drain pass: dedup, split and rebalance.

A pass claims the lines of the pending file at its start, and again at every mine boundary.
Claimed lines are deduplicated by (directory, wing, mode): going through them from the newest
to the oldest, a line whose key the pass already owns is absorbed by the entry that has it,
which keeps the larger deferral counter of the two (`mergeArrival`).  At the start the pass
owns nothing yet, so `dedup` is the same fold over an empty claim.  What is owned is then
cut at the budget by priority (`PrioritySplit.split`).

`Represents it g` says what it means for an item to stand for the lines `g`, and the three
theorems say that each operation keeps the claimed lines split into groups, one for each item.
-/
import PalaceDaemon.Lib.Grouping
import PalaceDaemon.Lib.PrioritySplit
import PalaceDaemon.Lib.PyText
import PalaceDaemon.Mines.Entry

namespace PalaceDaemon.Mines

/-- The key of a claimed item. -/
def Item.key (it : Item) : DedupKey := dedupKey it.entry

/-- The item after it absorbed a line with the deferral counter `d`: `prior["drain_deferrals"]
= d` when `d` is the larger one. -/
def Item.absorb (d : ℕ) (it : Item) : Item :=
  if it.entry.drainDeferrals < d then { it with entry := it.entry.setDeferrals d } else it

/-- One arriving line against the claim: what the pass owned before, and the arrivals that
are new to it, from the newest. -/
def mergeArrival (claim : List Item × List Item) (l : Entry) : List Item × List Item :=
  if claim.1.any (·.key = dedupKey l) then
    (absorbLast Item.key (dedupKey l) (Item.absorb l.drainDeferrals) claim.1, claim.2)
  else if claim.2.any (·.key = dedupKey l) then
    (claim.1, absorbLast Item.key (dedupKey l) (Item.absorb l.drainDeferrals) claim.2)
  else (claim.1, claim.2 ++ [Item.ofLine l])

/-- The dedup of `_rebalance_claim`: the arrivals in reverse against the claim; the new ones
come back in arrival order. -/
def mergeArrivals (owned : List Item) (arrivals : List Entry) : List Item × List Item :=
  let merged := arrivals.reverse.foldl mergeArrival (owned, [])
  (merged.1, merged.2.reverse)

/-- The dedup at the start of `_drain_pending_mines`: the newest line of each key stays. -/
def dedup (lines : List Entry) : List Item := (mergeArrivals [] lines).2

/-- Cut a claim at a budget: what runs this pass, in run order, and what waits. -/
def splitClaim (budget : ℕ) (entries : List Item) : List Item × List Item :=
  PrioritySplit.split (fun it => drainEntryPriority it.entry) budget entries

/-- The merge of `_rebalance_claim` for a positive budget: the kept and the displaced entries. -/
def rebalance (owned : List Item) (budget : ℕ) (arrivals : List Entry) :
    List Item × List Item :=
  let (owned', unique) := mergeArrivals owned arrivals
  splitClaim budget (owned' ++ unique)

/-! ### Absorbing keeps the lines -/

@[simp] lemma Item.absorb_line (d : ℕ) (it : Item) : (it.absorb d).line = it.line := by
  unfold Item.absorb
  split <;> rfl

lemma mergeArrival_map_line (claim : List Item × List Item) (l : Entry) :
    (mergeArrival claim l).1.map Item.line = claim.1.map Item.line := by
  unfold mergeArrival
  split_ifs
  · exact map_absorbLast (by simp) _
  · rfl
  · rfl

/-- The owned entries keep their lines: only their counters change. -/
lemma mergeArrivals_map_line (owned : List Item) (arrivals : List Entry) :
    (mergeArrivals owned arrivals).1.map Item.line = owned.map Item.line := by
  have hfold : ∀ (as : List Entry) (claim : List Item × List Item),
      (as.foldl mergeArrival claim).1.map Item.line = claim.1.map Item.line := by
    intro as
    induction as with
    | nil => intro claim; rfl
    | cons l as ih =>
        intro claim
        rw [List.foldl_cons, ih, mergeArrival_map_line]
  exact hfold _ _

/-! ### What the items stand for -/

/-- An item stands for the lines `g`: its own line is one of them, they all have its key, its
counter is the largest of theirs, and nothing else of its line was changed but the count of
lock retries. -/
structure Represents (it : Item) (g : Multiset Entry) : Prop where
  line_mem : it.line ∈ g
  key_eq : ∀ l ∈ g, dedupKey l = it.key
  deferrals_eq : it.entry.drainDeferrals = (g.map Entry.drainDeferrals).sup
  payload_eq : it.entry.payload = it.line.payload

lemma Represents.ofLine (l : Entry) : Represents (Item.ofLine l) {l} where
  line_mem := by simp
  key_eq := by simp [Item.key]
  deferrals_eq := by simp
  payload_eq := rfl

@[simp] lemma Item.absorb_payload (d : ℕ) (it : Item) :
    (it.absorb d).entry.payload = it.entry.payload := by
  unfold Item.absorb
  split <;> rfl

@[simp] lemma Item.absorb_key (d : ℕ) (it : Item) : (it.absorb d).key = it.key := by
  unfold Item.absorb Item.key
  split <;> rfl

lemma Item.absorb_deferrals (d : ℕ) (it : Item) :
    (it.absorb d).entry.drainDeferrals = max it.entry.drainDeferrals d := by
  unfold Item.absorb
  split_ifs with h
  · exact (max_eq_right h.le).symm
  · exact (max_eq_left (not_lt.1 h)).symm

lemma Represents.absorb {it : Item} {g : Multiset Entry} {l : Entry} (h : Represents it g)
    (hkey : it.key = dedupKey l) : Represents (it.absorb l.drainDeferrals) (l ::ₘ g) where
  line_mem := by simpa using Or.inr h.line_mem
  key_eq := by
    intro l' hl'
    rw [Item.absorb_key]
    rcases Multiset.mem_cons.1 hl' with rfl | hl'
    · exact hkey.symm
    · exact h.key_eq l' hl'
  deferrals_eq := by
    rw [Item.absorb_deferrals, Multiset.map_cons, Multiset.sup_cons, h.deferrals_eq, max_comm]
  payload_eq := by rw [Item.absorb_payload, Item.absorb_line, h.payload_eq]

/-- Counting a lock retry leaves an item standing for the same lines. -/
lemma Represents.setLockRetries {it : Item} {g : Multiset Entry} (h : Represents it g) (n : ℕ) :
    Represents { it with entry := it.entry.setLockRetries n } g where
  line_mem := h.line_mem
  key_eq := h.key_eq
  deferrals_eq := h.deferrals_eq
  payload_eq := h.payload_eq

/-! ### Each operation keeps the lines grouped -/

section grouped

variable {lines : Multiset Entry} {rest : Multiset Item} {claim : List Item × List Item}

/-- One arriving line joins the group of the entry that absorbs it, or is a group of its own. -/
lemma mergeArrival_grouped (l : Entry)
    (h : Grouped Represents lines (claim.1 + (claim.2 + rest) : Multiset Item)) :
    Grouped Represents (l ::ₘ lines)
      ((mergeArrival claim l).1 + ((mergeArrival claim l).2 + rest) : Multiset Item) := by
  have habsorb : ∀ it g, it.key = dedupKey l → Represents it g →
      Represents (it.absorb l.drainDeferrals) (l ::ₘ g) := fun it g hkey hg => hg.absorb hkey
  unfold mergeArrival
  split_ifs with hown huniq
  · exact h.absorb hown habsorb
  · rw [add_left_comm] at h ⊢
    exact h.absorb huniq habsorb
  · have hnew := (Grouped.ofGroup (Represents.ofLine l)).add h
    rw [Multiset.singleton_add] at hnew
    convert hnew using 1
    rw [← Multiset.coe_add, Multiset.coe_singleton]
    abel

lemma foldl_mergeArrival_grouped (arrivals : List Entry)
    (h : Grouped Represents lines (claim.1 + (claim.2 + rest) : Multiset Item)) :
    Grouped Represents (arrivals + lines)
      ((arrivals.foldl mergeArrival claim).1 + ((arrivals.foldl mergeArrival claim).2 + rest) :
        Multiset Item) := by
  induction arrivals generalizing lines claim with
  | nil => simpa using h
  | cons l arrivals ih =>
      have hstep := ih (mergeArrival_grouped l h)
      rw [List.foldl_cons]
      rwa [← Multiset.cons_coe, Multiset.cons_add, ← Multiset.add_cons]

/-- **Merging conserves.**  The arrivals join the groups of the claim or form new ones; what
the pass has besides its claim is not touched. -/
theorem mergeArrivals_grouped {owned : List Item} (arrivals : List Entry)
    (h : Grouped Represents lines (owned + rest : Multiset Item)) :
    Grouped Represents (arrivals + lines)
      ((mergeArrivals owned arrivals).1 + ((mergeArrivals owned arrivals).2 + rest) :
        Multiset Item) := by
  have hclaim : Grouped Represents lines ((owned, ([] : List Item)).1 +
      ((owned, ([] : List Item)).2 + rest) : Multiset Item) := by simpa using h
  have hfold := foldl_mergeArrival_grouped arrivals.reverse hclaim
  simpa [mergeArrivals] using hfold

/-- The claim of a pass at its start: every line is in the group of an entry. -/
theorem dedup_grouped (lines : List Entry) :
    Grouped Represents (lines : Multiset Entry) (dedup lines : Multiset Item) := by
  have hempty : Grouped Represents 0 (([] : List Item) + 0 : Multiset Item) := Grouped.zero
  have h := mergeArrivals_grouped lines hempty
  have hnil : (mergeArrivals [] lines).1 = [] := by
    have hlines := mergeArrivals_map_line [] lines
    simpa using hlines
  rw [hnil] at h
  simpa [dedup] using h

lemma mem_of_mem_dedup {lines : List Entry} {it : Item} (h : it ∈ dedup lines) :
    it.line ∈ lines := by
  obtain ⟨g, hle, hg⟩ := (dedup_grouped lines).exists_group (Multiset.mem_coe.2 h)
  exact Multiset.mem_coe.1 (Multiset.mem_of_le hle hg.line_mem)

lemma splitClaim_perm (budget : ℕ) (entries : List Item) :
    ((splitClaim budget entries).1 ++ (splitClaim budget entries).2).Perm entries :=
  PrioritySplit.split_perm _ _ _

lemma splitClaim_coe (budget : ℕ) (entries : List Item) :
    ((splitClaim budget entries).1 + (splitClaim budget entries).2 : Multiset Item) = entries :=
  Multiset.coe_eq_coe.2 (splitClaim_perm budget entries)

/-- The parts of a claim that was cut. -/
lemma split_perm {budget : ℕ} {entries batch deferred : List Item}
    (hsplit : splitClaim budget entries = (batch, deferred)) :
    (batch ++ deferred).Perm entries := by
  have hperm := splitClaim_perm budget entries
  rwa [hsplit] at hperm

/-- What a boundary keeps and displaces. -/
lemma rebalance_perm {owned keep displaced : List Item} {budget : ℕ} {arrivals : List Entry}
    (hrebalance : rebalance owned budget arrivals = (keep, displaced)) :
    (keep ++ displaced).Perm
      ((mergeArrivals owned arrivals).1 ++ (mergeArrivals owned arrivals).2) :=
  split_perm hrebalance

/-- **Rebalancing conserves.**  Kept and displaced entries together stand for the lines of the
claim and the arrivals. -/
theorem rebalance_grouped {owned : List Item} (budget : ℕ) (arrivals : List Entry)
    (h : Grouped Represents lines (owned + rest : Multiset Item)) :
    Grouped Represents (arrivals + lines)
      ((rebalance owned budget arrivals).1 + (rebalance owned budget arrivals).2 + rest :
        Multiset Item) := by
  unfold rebalance
  rw [splitClaim_coe, ← Multiset.coe_add, add_assoc]
  exact mergeArrivals_grouped arrivals h

end grouped

/-! ### Merging keeps the keys and the places -/

/-- The keys of a claim, the owned entries and the new ones. -/
def claimKeys (claim : List Item × List Item) : List DedupKey :=
  (claim.1 ++ claim.2).map Item.key

section keys

variable {k : DedupKey} {d : ℕ}

/-- An arriving line leaves the keys of the claim in place; a new one comes behind them. -/
lemma mergeArrival_keys (claim : List Item × List Item) (l : Entry) :
    (mergeArrival claim l).1.map Item.key = claim.1.map Item.key ∧
      (mergeArrival claim l).2.map Item.key = claim.2.map Item.key ++
        if dedupKey l ∈ claimKeys claim then [] else [dedupKey l] := by
  have hmap : ∀ its : List Item,
      (absorbLast Item.key (dedupKey l) (Item.absorb l.drainDeferrals) its).map Item.key =
        its.map Item.key := map_absorbLast (Item.absorb_key _)
  have hany : ∀ its : List Item, its.any (·.key = dedupKey l) = true ↔
      dedupKey l ∈ its.map Item.key := by
    intro its
    simp
  simp only [mergeArrival, hany, claimKeys, List.map_append, List.mem_append]
  by_cases hown : dedupKey l ∈ claim.1.map Item.key
  · simp only [if_pos hown, hmap, if_pos (Or.inl hown), List.append_nil, and_self]
  · by_cases hunique : dedupKey l ∈ claim.2.map Item.key
    · simp only [if_neg hown, if_pos hunique, hmap, if_pos (Or.inr hunique), List.append_nil,
        and_self]
    · simp only [if_neg hown, if_neg hunique, if_neg (not_or.2 ⟨hown, hunique⟩), List.map_append,
        true_and]
      rfl

lemma mem_claimKeys_mergeArrival (claim : List Item × List Item) (l : Entry) :
    k ∈ claimKeys (mergeArrival claim l) ↔ k ∈ claimKeys claim ∨ k = dedupKey l := by
  obtain ⟨hfst, hsnd⟩ := mergeArrival_keys claim l
  rw [claimKeys, List.map_append, hfst, hsnd, ← List.append_assoc, ← List.map_append,
    ← claimKeys, List.mem_append]
  split_ifs with h
  · refine ⟨fun hk => hk.imp_right fun hk => (List.not_mem_nil hk).elim, ?_⟩
    rintro (hk | rfl)
    · exact .inl hk
    · exact .inl h
  · rw [List.mem_singleton]

lemma mem_claimKeys_foldl (as : List Entry) (claim : List Item × List Item) :
    k ∈ claimKeys (as.foldl mergeArrival claim) ↔
      k ∈ claimKeys claim ∨ k ∈ as.map dedupKey := by
  induction as generalizing claim with
  | nil => simp
  | cons l as ih =>
      rw [List.foldl_cons, ih, mem_claimKeys_mergeArrival, List.map_cons, List.mem_cons, or_assoc]

/-- A merged claim has the keys of the owned entries and of the arrivals. -/
lemma mem_claimKeys_mergeArrivals (owned : List Item) (as : List Entry) :
    k ∈ claimKeys (mergeArrivals owned as) ↔ k ∈ owned.map Item.key ∨ k ∈ as.map dedupKey := by
  have hfold := mem_claimKeys_foldl (k := k) as.reverse (owned, [])
  simpa [claimKeys, mergeArrivals] using hfold

section split

variable {budget : ℕ} {lines : List Entry} {owned batch deferred keep displaced : List Item}

/-- The entries of a fresh claim have the keys of its lines. -/
lemma mem_keys_of_split (hsplit : splitClaim budget (dedup lines) = (batch, deferred)) :
    k ∈ (batch ++ deferred).map Item.key ↔ k ∈ lines.map dedupKey := by
  have hnil : (mergeArrivals [] lines).1 = [] := by
    simpa using mergeArrivals_map_line [] lines
  have hmem := mem_claimKeys_mergeArrivals (k := k) [] lines
  rw [claimKeys, hnil, List.nil_append] at hmem
  rw [((split_perm hsplit).map Item.key).mem_iff, dedup, hmem]
  simp

/-- The entries of a boundary have the keys of the claim and of the arrivals. -/
lemma mem_keys_of_rebalance (hrebalance : rebalance owned budget lines = (keep, displaced)) :
    k ∈ (keep ++ displaced).map Item.key ↔ k ∈ owned.map Item.key ∨ k ∈ lines.map dedupKey := by
  rw [((rebalance_perm hrebalance).map Item.key).mem_iff]
  exact mem_claimKeys_mergeArrivals owned lines

end split

/-- Arriving lines leave the keys of the claim in place; the new ones, each once, come behind
them. -/
lemma foldl_mergeArrival_keys (as : List Entry) (claim : List Item × List Item) :
    (as.foldl mergeArrival claim).1.map Item.key = claim.1.map Item.key ∧
      ∃ ks, (as.foldl mergeArrival claim).2.map Item.key = claim.2.map Item.key ++ ks ∧
        ks.Nodup ∧ ∀ y ∈ ks, y ∈ as.map dedupKey ∧ y ∉ claimKeys claim := by
  induction as generalizing claim with
  | nil => exact ⟨rfl, [], (List.append_nil _).symm, .nil, by simp⟩
  | cons l as ih =>
      obtain ⟨hfst, hsnd⟩ := mergeArrival_keys claim l
      obtain ⟨hfst', ks, hsnd', hnodup, hks⟩ := ih (mergeArrival claim l)
      have hnew : ∀ y ∈ ks, y ∈ as.map dedupKey ∧ y ∉ claimKeys claim ∧ y ≠ dedupKey l := by
        intro y hy
        obtain ⟨hmem, hnot⟩ := hks y hy
        rw [mem_claimKeys_mergeArrival, not_or] at hnot
        exact ⟨hmem, hnot⟩
      refine ⟨hfst'.trans hfst, _, hsnd'.trans ((congrArg (· ++ ks) hsnd).trans
        (List.append_assoc ..)), ?_, fun y hy => ?_⟩
      · split_ifs
        · exact hnodup
        · exact List.nodup_cons.2 ⟨fun h => (hnew _ h).2.2 rfl, hnodup⟩
      · rcases List.mem_append.1 hy with hy | hy
        · split_ifs at hy with h
          · cases hy
          · obtain rfl := List.mem_singleton.1 hy
            exact ⟨List.mem_cons_self, h⟩
        · exact ⟨List.mem_cons_of_mem _ (hnew y hy).1, (hnew y hy).2.1⟩

lemma dedup_keys_nodup (lines : List Entry) : ((dedup lines).map Item.key).Nodup := by
  obtain ⟨-, ks, hks, hnodup, -⟩ := foldl_mergeArrival_keys lines.reverse ([], [])
  rw [dedup, mergeArrivals, List.map_reverse, List.nodup_reverse, hks]
  simpa using hnodup

/-- The counter of an entry never gets smaller as lines arrive. -/
lemma foldl_mergeArrival_deferrals (as : List Entry) {claim : List Item × List Item}
    (h : ∃ it ∈ claim.2, it.key = k ∧ d ≤ it.entry.drainDeferrals) :
    ∃ it ∈ (as.foldl mergeArrival claim).2, it.key = k ∧ d ≤ it.entry.drainDeferrals := by
  induction as generalizing claim with
  | nil => exact h
  | cons l as ih =>
      refine ih ?_
      obtain ⟨it, hit, hkey, hd⟩ := h
      unfold mergeArrival
      split_ifs
      · exact ⟨it, hit, hkey, hd⟩
      · have habsorb : it ∈ absorbLast Item.key (dedupKey l) (Item.absorb l.drainDeferrals) _ ∨ _ :=
          mem_absorbLast_of_mem hit
        rcases habsorb with hmem | hmem
        · exact ⟨it, hmem, hkey, hd⟩
        · refine ⟨_, hmem, (Item.absorb_key _ it).trans hkey, hd.trans ?_⟩
          rw [Item.absorb_deferrals]
          exact le_max_left _ _
      · exact ⟨it, List.mem_append_left _ hit, hkey, hd⟩

/-- **Places.**  Where a target is new to the claim, the new entries before its own are those
of the targets whose newest line comes before its newest line. -/
theorem mergeArrivals_place {owned : List Item} {before after : List Entry} {l : Entry}
    (howned : dedupKey l ∉ owned.map Item.key) (hafter : dedupKey l ∉ after.map dedupKey) :
    ∃ front it back, (mergeArrivals owned (before ++ l :: after)).2 = front ++ it :: back ∧
      it.key = dedupKey l ∧ l.drainDeferrals ≤ it.entry.drainDeferrals ∧
      (∀ y ∈ front.map Item.key, y ∈ before.map dedupKey ∧ y ≠ dedupKey l ∧
        y ∉ after.map dedupKey) ∧
      dedupKey l ∉ back.map Item.key := by
  -- what the newer lines have made of the claim, and then the line itself
  have hmem : ∀ y, y ∈ claimKeys (after.reverse.foldl mergeArrival (owned, [])) ↔
      y ∈ owned.map Item.key ∨ y ∈ after.map dedupKey := fun y => by
    rw [mem_claimKeys_foldl]
    simp [claimKeys]
  have heq : (mergeArrivals owned (before ++ l :: after)).2 = (before.reverse.foldl mergeArrival
      (mergeArrival (after.reverse.foldl mergeArrival (owned, [])) l)).2.reverse := by
    simp [mergeArrivals, List.foldl_append]
  rw [heq]
  clear heq
  generalize after.reverse.foldl mergeArrival (owned, []) = newer at *
  have hnew : dedupKey l ∉ claimKeys newer := fun h =>
    ((hmem _).1 h).elim howned hafter
  obtain ⟨-, hline⟩ := mergeArrival_keys newer l
  rw [if_neg hnew] at hline
  have hdeferrals : ∃ it ∈ (mergeArrival newer l).2,
      it.key = dedupKey l ∧ l.drainDeferrals ≤ it.entry.drainDeferrals := by
    have hmem : Item.ofLine l ∈ (mergeArrival newer l).2 := by
      have hnone : ∀ its : List Item, dedupKey l ∉ its.map Item.key →
          ¬ its.any (·.key = dedupKey l) = true := by
        intro its h
        simpa using h
      rw [claimKeys, List.map_append, List.mem_append, not_or] at hnew
      rw [mergeArrival, if_neg (hnone _ hnew.1), if_neg (hnone _ hnew.2)]
      exact List.mem_append_right _ (List.mem_singleton.2 rfl)
    exact ⟨_, hmem, rfl, le_rfl⟩
  -- the older lines leave the entries in place and come behind them
  obtain ⟨-, ks', hks', -, hnew'⟩ :=
    foldl_mergeArrival_keys before.reverse (mergeArrival newer l)
  obtain ⟨it', hit', hkey', hd'⟩ := foldl_mergeArrival_deferrals before.reverse hdeferrals
  generalize (before.reverse.foldl mergeArrival (mergeArrival newer l)).2 = its at *
  rw [hline, List.append_assoc, List.map_eq_append_iff] at hks'
  obtain ⟨back, rest, rfl, hback, hrest⟩ := hks'
  obtain ⟨it, front, rfl, hkey, hfront⟩ := List.map_eq_cons_iff.1 hrest
  have hout : dedupKey l ∉ back.map Item.key := by
    rw [hback]
    intro h
    exact hnew (by rw [claimKeys, List.map_append]; exact List.mem_append_right _ h)
  have hfront' : ∀ y ∈ front.map Item.key, y ∈ before.map dedupKey ∧ y ≠ dedupKey l ∧
      y ∉ after.map dedupKey := by
    intro y hy
    rw [hfront] at hy
    obtain ⟨hmem', hnot⟩ := hnew' y hy
    rw [mem_claimKeys_mergeArrival, hmem, not_or, not_or] at hnot
    exact ⟨by simpa using hmem', hnot.2, hnot.1.2⟩
  refine ⟨front.reverse, it, back.reverse, by simp, hkey, ?_, ?_, ?_⟩
  · rcases List.mem_append.1 hit' with h | h
    · exact absurd (hkey' ▸ List.mem_map_of_mem h) hout
    · rcases List.mem_cons.1 h with rfl | h
      · exact hd'
      · exact absurd rfl (hkey' ▸ (hfront' _ (List.mem_map_of_mem h)).2.1)
  · intro y hy
    exact hfront' y (by simpa using hy)
  · simpa using hout

/-- Lines of different targets become an entry each. -/
lemma dedup_of_nodup {lines : List Entry} (h : (lines.map dedupKey).Nodup) :
    dedup lines = lines.map Item.ofLine := by
  have hfold : ∀ (as : List Entry) (claim : List Item × List Item), (as.map dedupKey).Nodup →
      (∀ l ∈ as, dedupKey l ∉ claimKeys claim) →
      (as.foldl mergeArrival claim).2 = claim.2 ++ as.map Item.ofLine := by
    intro as
    induction as with
    | nil => intro claim _ _; simp
    | cons l as ih =>
        intro claim hnodup hnew
        have hl := hnew l List.mem_cons_self
        have hmerge : mergeArrival claim l = (claim.1, claim.2 ++ [Item.ofLine l]) := by
          rw [claimKeys, List.map_append, List.mem_append, not_or] at hl
          rw [mergeArrival, if_neg (by simpa using hl.1), if_neg (by simpa using hl.2)]
        rw [List.map_cons, List.nodup_cons] at hnodup
        rw [List.foldl_cons, ih _ hnodup.2 fun l' hl' => ?_, hmerge]
        · simp
        · rw [mem_claimKeys_mergeArrival, not_or]
          exact ⟨hnew l' (List.mem_cons_of_mem _ hl'),
            fun heq => hnodup.1 (heq ▸ List.mem_map_of_mem hl')⟩
  have hmerged := hfold lines.reverse ([], []) (by simpa using h) (by simp [claimKeys])
  rw [dedup, mergeArrivals, hmerged]
  simp

end keys

end PalaceDaemon.Mines

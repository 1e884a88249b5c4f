/-
The place of a target in the queue.

A pass reads the queue in the order of its newest lines (`mergeArrivals_place`), takes the best of
what it reads, and files the rest behind what is queued by then.  `Queued` says of lines that they
contain the target, and which targets are read before it; `Held` says the same of the entries
that a pass is going to file.  An entry that is not taken is filed with a counter one higher, and
once the counter has reached the escape threshold, all the entries that are taken instead stand
before it (`held_of_split`).  So the passes that can still defer a target are bounded by the
passes up to the threshold, and then by the targets before it (`passesLeft`).
-/
import PalaceDaemon.Mines.Conservation

namespace PalaceDaemon.Mines

/-! ### Lines and entries before a target -/

/-- The lines contain the target `k`, with a counter of at least `c`.  Targets that have a line
before its newest one are `ahead`, or they have another line behind it, now or `later`. -/
def Queued (k : DedupKey) (ahead : Finset DedupKey) (later : List DedupKey) (c : ℕ)
    (lines : List Entry) : Prop :=
  ∃ before l after, lines = before ++ l :: after ∧ dedupKey l = k ∧ c ≤ l.drainDeferrals ∧
    k ∉ after.map dedupKey ∧ ∀ e ∈ before, dedupKey e ∈ ahead ∨ dedupKey e = k ∨
      dedupKey e ∈ after.map dedupKey ∨ dedupKey e ∈ later

/-- The entries contain one of the target `k`, which is filed with a counter of at least `c`, and
only entries of targets that are `ahead` come before it. -/
def Held (k : DedupKey) (ahead : Finset DedupKey) (c : ℕ) (entries : List Item) : Prop :=
  ∃ before it after, entries = before ++ it :: after ∧ it.key = k ∧
    c ≤ it.entry.carried.drainDeferrals ∧ k ∉ after.map Item.key ∧ ∀ b ∈ before, b.key ∈ ahead

section lists

variable {k : DedupKey} {ahead : Finset DedupKey} {later : List DedupKey} {c : ℕ}
  {lines added : List Entry} {entries others : List Item}

lemma Queued.mem (h : Queued k ahead later c lines) : k ∈ lines.map dedupKey := by
  obtain ⟨before, l, after, rfl, rfl, -⟩ := h
  simp

/-- A line for the target is appended. -/
lemma queued_append_self {e : Entry} (hlines : ∀ l ∈ lines, dedupKey l ∈ ahead) :
    Queued (dedupKey e) ahead later 0 (lines ++ [e]) :=
  ⟨lines, e, [], rfl, rfl, Nat.zero_le _, by simp, fun l hl => .inl (hlines l hl)⟩

/-- Lines for other targets are appended, some of them the ones that were to come. -/
lemma Queued.append (h : Queued k ahead (later ++ added.map dedupKey) c lines)
    (hnot : k ∉ added.map dedupKey) : Queued k ahead later c (lines ++ added) := by
  obtain ⟨before, l, after, rfl, hl, hc, hafter, hbefore⟩ := h
  refine ⟨before, l, after ++ added, by simp, hl, hc, ?_, fun e he => ?_⟩
  · rw [List.map_append, List.mem_append, not_or]
    exact ⟨hafter, hnot⟩
  · rw [List.map_append, List.mem_append]
    rcases hbefore e he with h | h | h | h
    · exact .inl h
    · exact .inr (.inl h)
    · exact .inr (.inr (.inl (.inl h)))
    · rcases List.mem_append.1 h with h | h
      · exact .inr (.inr (.inr h))
      · exact .inr (.inr (.inl (.inr h)))

lemma Queued.mono {later' : List DedupKey} (h : Queued k ahead later c lines)
    (hlater : later ⊆ later') : Queued k ahead later' c lines := by
  obtain ⟨before, l, after, hlines, hl, hc, hafter, hbefore⟩ := h
  exact ⟨before, l, after, hlines, hl, hc, hafter, fun e he =>
    (hbefore e he).imp_right (.imp_right (.imp_right fun h => hlater h))⟩

lemma Held.mem (h : Held k ahead c entries) : k ∈ entries.map Item.key := by
  obtain ⟨before, it, after, rfl, rfl, -⟩ := h
  simp

/-- More entries of other targets are held back. -/
lemma Held.append (h : Held k ahead c entries) (hnot : k ∉ others.map Item.key) :
    Held k ahead c (entries ++ others) := by
  obtain ⟨before, it, after, rfl, hit, hc, hafter, hbefore⟩ := h
  refine ⟨before, it, after ++ others, by simp, hit, hc, ?_, hbefore⟩
  rw [List.map_append, List.mem_append, not_or]
  exact ⟨hafter, hnot⟩

lemma Held.append_left (h : Held k ahead c entries) (hothers : ∀ it ∈ others, it.key ∈ ahead) :
    Held k ahead c (others ++ entries) := by
  obtain ⟨before, it, after, rfl, hit, hc, hafter, hbefore⟩ := h
  refine ⟨others ++ before, it, after, by simp, hit, hc, hafter, fun b hb => ?_⟩
  exact (List.mem_append.1 hb).elim (hothers b) (hbefore b)

/-- Every entry of the target that is held is the last one of its. -/
lemma held_of_mem (h : k ∈ entries.map Item.key) (hall : ∀ it ∈ entries, it.key ∈ ahead) :
    Held k ahead 0 entries := by
  induction entries using List.reverseRecOn with
  | nil => cases h
  | append_singleton entries it ih =>
      have hmem : ∀ b ∈ entries, b.key ∈ ahead := fun b hb => hall b (List.mem_append_left _ hb)
      by_cases hit : it.key = k
      · exact ⟨entries, it, [], rfl, hit, Nat.zero_le _, by simp, hmem⟩
      · have hk : k ∈ entries.map Item.key := by
          rw [List.map_append, List.mem_append] at h
          exact h.resolve_right fun h => hit (List.mem_singleton.1 h).symm
        exact (ih hk hmem).append (by simpa using Ne.symm hit)

/-- The entries that are held are filed behind the lines. -/
lemma Held.file (h : Held k ahead c entries)
    (hlines : ∀ l ∈ lines, dedupKey l ∈ entries.map Item.key ∨ dedupKey l ∈ later) :
    Queued k ahead later c (lines ++ entries.map fun it => it.entry.carried) := by
  obtain ⟨before, it, after, rfl, hit, hc, hafter, hbefore⟩ := h
  have hkeys : ∀ its : List Item,
      (its.map fun it => it.entry.carried).map dedupKey = its.map Item.key := by
    intro its
    simp [Item.key]
  refine ⟨lines ++ before.map fun it => it.entry.carried, it.entry.carried,
    after.map fun it => it.entry.carried, by simp, hit, hc, by rwa [hkeys], fun e he => ?_⟩
  rw [hkeys]
  rcases List.mem_append.1 he with he | he
  · rcases hlines e he with h | h
    · obtain ⟨b, hb, hkey⟩ := List.mem_map.1 h
      rw [← hkey]
      rcases List.mem_append.1 hb with hb | hb
      · exact .inl (hbefore b hb)
      · rcases List.mem_cons.1 hb with rfl | hb
        · exact .inr (.inl hit)
        · exact .inr (.inr (.inl (List.mem_map_of_mem hb)))
    · exact .inr (.inr (.inr h))
  · obtain ⟨b, hb, rfl⟩ := List.mem_map.1 he
    exact .inl (hbefore b hb)

end lists

/-! ### What is deferred -/

/-- How many passes can still defer a target with the counter `c` and `a` targets before it. -/
def passesLeft (cap c a : ℕ) : ℕ := (drainPriorityEscapeDeferrals - c) + a / cap

/-- A pass that defers the target uses up one: the counter grows, or the pass takes as many of the
targets before it as it may. -/
lemma passesLeft_deferred {cap c a a' : ℕ} (hcap : 0 < cap) (ha : a' ≤ a)
    (hescaped : drainPriorityEscapeDeferrals ≤ c → a' + cap ≤ a) :
    passesLeft cap (c + 1) a' < passesLeft cap c a := by
  unfold passesLeft
  by_cases hc : drainPriorityEscapeDeferrals ≤ c
  · have hdiv : a' / cap + 1 ≤ a / cap := by
      rw [← Nat.add_div_right a' hcap]
      exact Nat.div_le_div_right (hescaped hc)
    omega
  · have hdiv : a' / cap ≤ a / cap := Nat.div_le_div_right ha
    omega

section split

variable {k : DedupKey} {ahead : Finset DedupKey} {c budget : ℕ} {lines : List Entry}
  {owned batch deferred : List Item}

/-- The entries of new targets, in order: those before the target are `ahead`. -/
lemma Queued.merge (h : Queued k ahead [] c lines) (howned : k ∉ owned.map Item.key) :
    ∃ front it back, (mergeArrivals owned lines).2 = front ++ it :: back ∧ it.key = k ∧
      c ≤ it.entry.drainDeferrals ∧ (∀ b ∈ front, b.key ∈ ahead ∧ b.key ≠ k) ∧
      k ∉ back.map Item.key := by
  obtain ⟨before, l, after, rfl, rfl, hc, hafter, hbefore⟩ := h
  obtain ⟨front, it, back, heq, hit, hd, hfront, hback⟩ := mergeArrivals_place howned hafter
  refine ⟨front, it, back, heq, hit, hc.trans hd, fun b hb => ?_, hback⟩
  obtain ⟨hmem, hne, hnot⟩ := hfront b.key (List.mem_map_of_mem hb)
  obtain ⟨e, he, hkey⟩ := List.mem_map.1 hmem
  rcases hbefore e he with h | h | h | h
  · exact ⟨hkey ▸ h, hne⟩
  · exact absurd (hkey.symm.trans h) hne
  · exact absurd (hkey ▸ h) hnot
  · cases h

/-- The target of a claim is taken, or it is held with fewer passes left. -/
lemma held_of_split (h : Queued k ahead [] c lines) (hbudget : 0 < budget)
    (hsplit : splitClaim budget (dedup lines) = (batch, deferred)) :
    k ∈ batch.map Item.key ∨ ∃ ahead' : Finset DedupKey, Held k ahead' (c + 1) deferred ∧
      passesLeft budget (c + 1) ahead'.card < passesLeft budget c ahead.card := by
  have hnone : k ∉ ([] : List Item).map Item.key := by simp
  obtain ⟨front, it, back, heq, rfl, hc, hfront, hback⟩ := h.merge hnone
  have hkeys := dedup_keys_nodup lines
  have hperm := split_perm hsplit
  change dedup lines = _ at heq
  rw [heq] at hsplit hkeys hperm
  have hmem : it ∈ batch ++ deferred := hperm.mem_iff.2 (by simp)
  rcases List.mem_append.1 hmem with hmem | hmem
  · exact .inl (List.mem_map_of_mem hmem)
  refine .inr ?_
  have hcard : front.length ≤ ahead.card := by
    have hnodup : (front.map Item.key).Nodup := by
      rw [List.map_append] at hkeys
      exact (List.nodup_append.1 hkeys).1
    rw [← List.length_map Item.key, ← List.toFinset_card_of_nodup hnodup]
    refine Finset.card_le_card fun y hy => ?_
    obtain ⟨b, hb, rfl⟩ := List.mem_map.1 (List.mem_toFinset.1 hy)
    exact (hfront b hb).1
  have hin : it ∈ (splitClaim budget (front ++ it :: back)).2 := by rwa [hsplit]
  have hheld : ∀ front' back', deferred = front' ++ it :: back' → back'.Sublist back →
      Held it.key (front'.map Item.key).toFinset (c + 1) deferred := by
    rintro front' back' rfl hsub
    refine ⟨front', it, back', rfl, rfl, Nat.add_le_add_right hc 1, fun h => ?_, fun b hb => ?_⟩
    · exact hback ((hsub.map _).subset h)
    · exact List.mem_toFinset.2 (List.mem_map_of_mem hb)
  have hcard' : ∀ front' : List Item, (front'.map Item.key).toFinset.card ≤ front'.length :=
    fun front' => (List.toFinset_card_le _).trans_eq (List.length_map _)
  have hnodup : (front ++ it :: back).Nodup := hkeys.of_map
  by_cases hescaped : drainPriorityEscapeDeferrals ≤ c
  · -- the target is of the best priority, so what is taken stood before it
    have hbest : ∀ y ∈ front ++ it :: back,
        drainEntryPriority it.entry ≤ drainEntryPriority y.entry := by
      intro y _
      rw [drainEntryPriority, if_pos (hescaped.trans hc)]
      exact Nat.zero_le _
    obtain ⟨front', back', heq', -, hback', hlength⟩ :=
      PrioritySplit.split_snd_of_best hnodup hbest hin
    rw [← splitClaim, hsplit] at heq'
    have := hcard' front'
    exact ⟨_, hheld front' back' heq' hback', passesLeft_deferred hbudget (by omega)
      fun _ => by omega⟩
  · have hout : it ∉ front ∧ it ∉ back := by
      rw [List.nodup_middle, List.nodup_cons, List.mem_append, not_or] at hnodup
      exact hnodup.1
    obtain ⟨front', back', heq', hfront', hback'⟩ :=
      PrioritySplit.split_snd_place hout.1 hout.2 hin
    rw [← splitClaim, hsplit] at heq'
    have := hcard' front'
    have := hfront'.length_le
    exact ⟨_, hheld front' back' heq' hback', passesLeft_deferred hbudget (by omega)
      fun h => absurd h hescaped⟩

/-- The target of a boundary is kept, or it is displaced behind what is held. -/
lemma held_of_rebalance {keep displaced : List Item} (h : Queued k ahead [] 0 lines)
    (hnot : k ∉ owned.map Item.key) (howned : ∀ it ∈ owned, it.key ∈ ahead)
    (hrebalance : rebalance owned budget lines = (keep, displaced)) :
    k ∈ keep.map Item.key ∨ Held k ahead 0 displaced := by
  obtain ⟨front, it, back, heq, rfl, -, hfront, hback⟩ := h.merge hnot
  have hkeys : (mergeArrivals owned lines).1.map Item.key = owned.map Item.key :=
    (foldl_mergeArrival_keys lines.reverse (owned, [])).1
  have hperm := rebalance_perm hrebalance
  change splitClaim budget ((mergeArrivals owned lines).1 ++ (mergeArrivals owned lines).2) = _
    at hrebalance
  have hmem : it ∈ keep ++ displaced := hperm.mem_iff.2 (by simp [heq])
  rcases List.mem_append.1 hmem with hmem | hmem
  · exact .inl (List.mem_map_of_mem hmem)
  refine .inr ?_
  have hbefore : ∀ b ∈ (mergeArrivals owned lines).1 ++ front, b.key ∈ ahead ∧ b.key ≠ it.key := by
    intro b hb
    rcases List.mem_append.1 hb with hb | hb
    · have hbk : b.key ∈ owned.map Item.key := hkeys ▸ List.mem_map_of_mem hb
      obtain ⟨a, ha, hab⟩ := List.mem_map.1 hbk
      exact ⟨hab ▸ howned a ha, fun h => hnot (h ▸ hbk)⟩
    · exact hfront b hb
  have hin : it ∈ (PrioritySplit.split (fun it : Item => drainEntryPriority it.entry) budget
      (((mergeArrivals owned lines).1 ++ front) ++ it :: back)).2 := by
    rw [List.append_assoc, ← heq, ← splitClaim, hrebalance]
    exact hmem
  obtain ⟨front', back', heq', hfront', hback'⟩ := PrioritySplit.split_snd_place
    (fun h => (hbefore it h).2 rfl) (fun h => hback (List.mem_map_of_mem h)) hin
  rw [List.append_assoc, ← heq, ← splitClaim, hrebalance] at heq'
  exact ⟨front', it, back', heq', rfl, Nat.zero_le _, fun h => hback ((hback'.map _).subset h),
    fun b hb => (hbefore b (hfront'.subset hb)).1⟩

end split

end PalaceDaemon.Mines

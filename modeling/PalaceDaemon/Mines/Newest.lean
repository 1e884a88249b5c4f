/-
Which request of a target is replayed.

A pass keeps one entry for the lines of a target, and replays it with the request of one of them.
At the start of the pass that is the newest line: the dedup reads the file from its end.  At a
boundary the arrivals are read from the newest too, but a target that the pass still owns keeps
the request it had, and only the deferral counter is raised.  `newest_taken` says that the entry
is that of the newest line, with the largest counter, in the runs in which no arrival differs from
what is owned, and none comes for a target set aside with a larger counter.
-/
import PalaceDaemon.Mines.Conservation

namespace PalaceDaemon.Mines

/-! ### The lines of a target -/

/-- The lines of a target. -/
def ofKey (k : DedupKey) (lines : List Entry) : List Entry := lines.filter (dedupKey · = k)

/-- The largest deferral counter of some lines. -/
def largest (lines : List Entry) : ℕ := ((lines : Multiset Entry).map Entry.drainDeferrals).sup

section lines

variable {k : DedupKey} {l : Entry} {lines lines' : List Entry} {it : Item}

@[simp] lemma ofKey_nil : ofKey k [] = [] := rfl

@[simp] lemma ofKey_append : ofKey k (lines ++ lines') = ofKey k lines ++ ofKey k lines' :=
  List.filter_append _ _

lemma ofKey_cons_self (l : Entry) : ofKey (dedupKey l) (l :: lines) =
    l :: ofKey (dedupKey l) lines :=
  List.filter_cons_of_pos (by simp)

lemma ofKey_cons_of_ne (h : dedupKey l ≠ k) : ofKey k (l :: lines) = ofKey k lines :=
  List.filter_cons_of_neg (by simpa using h)

lemma ofKey_eq_nil : ofKey k lines = [] ↔ k ∉ lines.map dedupKey := by
  simp [ofKey, List.filter_eq_nil_iff]

lemma mem_ofKey : l ∈ ofKey k lines ↔ l ∈ lines ∧ dedupKey l = k := by
  simp [ofKey]

/-- The lines of a target, when those of another one are left out. -/
lemma ofKey_filter_ne {k' : DedupKey} (h : k ≠ k') :
    ofKey k (lines.filter (dedupKey · ≠ k')) = ofKey k lines := by
  rw [ofKey, List.filter_filter]
  refine List.filter_congr fun l _ => ?_
  by_cases hl : dedupKey l = k <;> simp [hl, h]

lemma ofKey_filter_self {k' : DedupKey} (h : k = k') :
    ofKey k (lines.filter (dedupKey · ≠ k')) = [] := by
  subst h
  rw [ofKey_eq_nil]
  simp

@[simp] lemma largest_nil : largest [] = 0 := rfl

@[simp] lemma largest_cons : largest (l :: lines) = max l.drainDeferrals (largest lines) := by
  simp [largest, ← Multiset.cons_coe]

@[simp] lemma largest_append :
    largest (lines ++ lines') = max (largest lines) (largest lines') := by
  induction lines with
  | nil => simp
  | cons l lines ih => rw [List.cons_append, largest_cons, largest_cons, ih, max_assoc]

/-- An entry has the request of the newest of the lines, and their largest counter. -/
structure Item.Stands (it : Item) (g : List Entry) : Prop where
  payload : ∃ l, g.getLast? = some l ∧ it.entry.payload = l.payload
  deferrals : it.entry.drainDeferrals = largest g

lemma Item.Stands.ofLine (l : Entry) : (Item.ofLine l).Stands [l] where
  payload := ⟨l, rfl, rfl⟩
  deferrals := by simp

/-- An older line is absorbed. -/
lemma Item.Stands.absorb {g : List Entry} (h : it.Stands g) (l : Entry) :
    (it.absorb l.drainDeferrals).Stands (l :: g) where
  payload := by
    obtain ⟨l', hlast, hpayload⟩ := h.payload
    exact ⟨l', by rw [List.getLast?_cons, hlast]; rfl, by rw [Item.absorb_payload, hpayload]⟩
  deferrals := by rw [Item.absorb_deferrals, h.deferrals, largest_cons, max_comm]

end lines

/-! ### The merge -/

section merge

variable {it : Item} {owned : List Item} {as : List Entry}

/-- The claim after the arrivals, from the newest, before the new entries are put in order. -/
abbrev mergedBy (owned : List Item) (as : List Entry) : List Item × List Item :=
  as.reverse.foldl mergeArrival (owned, [])

lemma mergedBy_cons (owned : List Item) (l : Entry) (as : List Entry) :
    mergedBy owned (l :: as) = mergeArrival (mergedBy owned as) l := by
  simp [mergedBy, List.foldl_append]

lemma mergedBy_fst_keys : (mergedBy owned as).1.map Item.key = owned.map Item.key :=
  (foldl_mergeArrival_keys as.reverse (owned, [])).1

/-- The new entries have different keys, those of arrivals that the pass does not own. -/
lemma mergedBy_snd_keys : ((mergedBy owned as).2.map Item.key).Nodup ∧
    ∀ y ∈ (mergedBy owned as).2.map Item.key, y ∈ as.map dedupKey ∧ y ∉ owned.map Item.key := by
  obtain ⟨-, ks, hks, hnodup, hnew⟩ := foldl_mergeArrival_keys as.reverse (owned, [])
  rw [List.map_nil, List.nil_append] at hks
  refine ⟨hks ▸ hnodup, fun y hy => ?_⟩
  rw [hks] at hy
  simpa [claimKeys] using hnew y hy

lemma any_key_iff {its : List Item} {l : Entry} :
    its.any (·.key = dedupKey l) = true ↔ dedupKey l ∈ its.map Item.key := by
  simp

/-- An owned entry keeps its request, and gets the largest counter of the arrivals. -/
lemma mergedBy_fst (hnodup : (owned.map Item.key).Nodup) (h : it ∈ (mergedBy owned as).1) :
    ∃ it' ∈ owned, it'.key = it.key ∧ it.entry.payload = it'.entry.payload ∧
      it.entry.drainDeferrals = max it'.entry.drainDeferrals (largest (ofKey it.key as)) := by
  induction as generalizing it with
  | nil => exact ⟨it, h, rfl, rfl, by simp⟩
  | cons l as ih =>
      rw [mergedBy_cons, mergeArrival] at h
      have hkeys : ((mergedBy owned as).1.map Item.key).Nodup := by rwa [mergedBy_fst_keys]
      have hother : it ∈ (mergedBy owned as).1 → it.key ≠ dedupKey l →
          ∃ it' ∈ owned, it'.key = it.key ∧ it.entry.payload = it'.entry.payload ∧
            it.entry.drainDeferrals =
              max it'.entry.drainDeferrals (largest (ofKey it.key (l :: as))) := by
        intro hmem hne
        rw [ofKey_cons_of_ne (Ne.symm hne)]
        exact ih hmem
      split_ifs at h with hown hunique
      · rw [absorbLast_eq_map hkeys] at h
        obtain ⟨it₀, hit₀, rfl⟩ := List.mem_map.1 h
        split_ifs with hkey
        · obtain ⟨it', hit', hkey', hpayload, hdeferrals⟩ := ih hit₀
          refine ⟨it', hit', by rw [Item.absorb_key, hkey'], by rw [Item.absorb_payload, hpayload],
            ?_⟩
          rw [Item.absorb_key, Item.absorb_deferrals, hdeferrals, hkey, ofKey_cons_self,
            largest_cons]
          omega
        · rw [if_neg hkey] at hother
          exact hother hit₀ hkey
      · refine hother h fun hkey => hown (any_key_iff.2 (hkey ▸ List.mem_map_of_mem h))
      · refine hother h fun hkey => hown (any_key_iff.2 (hkey ▸ List.mem_map_of_mem h))

/-- A new entry is that of the newest arrival for its target. -/
lemma mergedBy_snd (h : it ∈ (mergedBy owned as).2) : it.Stands (ofKey it.key as) := by
  induction as generalizing it with
  | nil => cases h
  | cons l as ih =>
      obtain ⟨hnodup, hnew⟩ :
          ((mergedBy owned as).2.map Item.key).Nodup ∧ _ := mergedBy_snd_keys
      rw [mergedBy_cons, mergeArrival] at h
      have hother : it ∈ (mergedBy owned as).2 → it.key ≠ dedupKey l →
          it.Stands (ofKey it.key (l :: as)) := by
        intro hmem hne
        rw [ofKey_cons_of_ne (Ne.symm hne)]
        exact ih hmem
      split_ifs at h with hown hunique
      · refine hother h fun hkey => (hnew it.key (List.mem_map_of_mem h)).2 ?_
        rw [hkey, ← mergedBy_fst_keys]
        exact any_key_iff.1 hown
      · rw [absorbLast_eq_map hnodup] at h
        obtain ⟨it₀, hit₀, rfl⟩ := List.mem_map.1 h
        split_ifs with hkey
        · rw [Item.absorb_key, hkey, ofKey_cons_self, ← hkey]
          exact (ih hit₀).absorb l
        · rw [if_neg hkey] at hother
          exact hother hit₀ hkey
      · rcases List.mem_append.1 h with h | h
        · exact hother h fun hkey => hunique (any_key_iff.2 (hkey ▸ List.mem_map_of_mem h))
        · obtain rfl := List.mem_singleton.1 h
          have hnone : ofKey (dedupKey l) as = [] := by
            refine ofKey_eq_nil.2 fun hmem => ?_
            have hclaim := (mem_claimKeys_foldl as.reverse (owned, [])).2
              (.inr (by simpa using hmem))
            rw [claimKeys, List.map_append, List.mem_append] at hclaim
            exact hclaim.elim (fun h => hown (any_key_iff.2 h)) fun h => hunique (any_key_iff.2 h)
          show (Item.ofLine l).Stands (ofKey (dedupKey l) (l :: as))
          rw [ofKey_cons_self, hnone]
          exact .ofLine l

/-- **The claim at the start.**  Each entry is that of the newest line of its target. -/
theorem dedup_stands {lines : List Entry} (h : it ∈ dedup lines) :
    it.Stands (ofKey it.key lines) :=
  mergedBy_snd (List.mem_reverse.1 h)

/-- What a boundary keeps or displaces. -/
lemma mem_rebalance {budget : ℕ} {keep displaced : List Item}
    (h : rebalance owned budget as = (keep, displaced)) (hit : it ∈ keep ++ displaced) :
    it ∈ (mergedBy owned as).1 ∨ it ∈ (mergedBy owned as).2 := by
  exact (List.mem_append.1 ((rebalance_perm h).mem_iff.1 hit)).imp id List.mem_reverse.1

/-- What a boundary keeps has different keys. -/
lemma rebalance_keys_nodup {budget : ℕ} {keep displaced : List Item}
    (h : rebalance owned budget as = (keep, displaced)) (hnodup : (owned.map Item.key).Nodup) :
    (keep.map Item.key).Nodup := by
  obtain ⟨hsnd, hnew⟩ : ((mergedBy owned as).2.map Item.key).Nodup ∧ _ := mergedBy_snd_keys
  have hall : (((mergeArrivals owned as).1 ++ (mergeArrivals owned as).2).map Item.key).Nodup := by
    rw [List.map_append]
    refine List.Nodup.append ?_ ?_ ?_
    · show ((mergedBy owned as).1.map Item.key).Nodup
      rwa [mergedBy_fst_keys]
    · show ((mergedBy owned as).2.reverse.map Item.key).Nodup
      rw [List.map_reverse]
      exact List.nodup_reverse.2 hsnd
    · intro y hy hy'
      rw [show (mergeArrivals owned as).1 = (mergedBy owned as).1 from rfl, mergedBy_fst_keys] at hy
      refine (hnew y ?_).2 hy
      rwa [show (mergeArrivals owned as).2 = (mergedBy owned as).2.reverse from rfl,
        List.map_reverse, List.mem_reverse] at hy'
  have hparts := ((rebalance_perm h).map Item.key).nodup_iff.2 hall
  rw [List.map_append] at hparts
  exact hparts.of_append_left

end merge

/-! ### The runs of a pass, with what was taken -/

/-- The entry that the next step of a pass takes. -/
def Pass.taken (p : Pass) : Option Item :=
  match p.pc with
  | .loop => p.owned.head?
  | _ => none

/-- An entry that was taken, with the lines that the pass had claimed by then. -/
structure Taken where
  item : Item
  claimed : List Entry
  /-- The lines of its target that were claimed since the target was last taken. -/
  group : List Entry

/-- A run of a pass, and what it has taken. -/
structure Traced where
  run : Run
  /-- The claimed lines of the targets that were not taken since. -/
  since : List Entry
  taken : List Taken

/-- One pass from its start, with what it takes. -/
def tracedSystem : StepSystem Traced Label where
  init t := passSystem.init t.run ∧ t.since = [] ∧ t.taken = []
  next t l := (passSystem.next t.run l).map fun run =>
    match l, t.run.pass.taken with
    | .act _, some it =>
        { run, since := t.since.filter (dedupKey · ≠ it.key)
          taken := t.taken ++ [⟨it, t.run.claimed, ofKey it.key t.since⟩] }
    | .act a, none => { t with run, since := t.since ++ t.run.pass.claims t.run.files a }
    | _, _ => { t with run }

/-- The entry has the request of the newest line for its target that the pass had claimed, and the
largest counter of the lines it stands for. -/
structure Taken.Newest (x : Taken) : Prop where
  payload : ∃ l, (ofKey x.item.key x.claimed).getLast? = some l ∧
    x.item.entry.payload = l.payload
  deferrals : x.item.entry.drainDeferrals = largest x.group

/-- The arrivals that a boundary is about to merge. -/
def Pc.arrivals : Pc → Option (List Entry)
  | .rebalance as => some as
  | _ => none

/-- The newest arrival for an owned target asks for what the owned entry asks for. -/
def Traced.SameRequests (t : Traced) (as : List Entry) : Prop :=
  ∀ it ∈ t.run.pass.owned, ∀ l ∈ (ofKey it.key as).getLast?, l.payload = it.entry.payload

/-- An arrival for a target that was set aside has no smaller counter than the lines that were. -/
def Traced.NoLargerAside (t : Traced) (as : List Entry) : Prop :=
  ∀ l ∈ as, dedupKey l ∉ t.run.pass.owned.map Item.key →
    largest (ofKey (dedupKey l) t.since) ≤ largest (ofKey (dedupKey l) as)

/-- What a boundary merges agrees with what the pass has claimed before. -/
def Agrees (t : Traced) : Label → Prop
  | .act _ => ∀ as ∈ t.run.pass.pc.arrivals, t.SameRequests as ∧ t.NoLargerAside as
  | _ => True

/-! ### The invariant -/

/-- The owned entries stand for the lines that were merged. -/
structure Pass.StandsFor (p : Pass) (f : Files) (since : List Entry) : Prop where
  merged : ∃ merged, since = merged ++ p.waiting f ∧ (p.pc.early → merged = []) ∧
    ∀ it ∈ p.owned, it.Stands (ofKey it.key merged)
  nodup : (p.owned.map Item.key).Nodup

/-- What holds throughout a run. -/
structure Traced.Inv (t : Traced) : Prop where
  stands : t.run.pass.StandsFor t.run.files t.since
  suffix : ∀ k, ofKey k t.since <:+ ofKey k t.run.claimed
  newest : ∀ x ∈ t.taken, x.Newest

section moves

variable {env : Env} {f f' : Files} {p p' : Pass} {c since : List Entry} {it : Item}

/-- A step that merges nothing and takes nothing. -/
lemma standsFor_quiet (h : p.StandsFor f since) (hwaiting : p'.waiting f' = p.waiting f ++ c)
    (hearly : p'.pc.early → p.pc.early) (howned : p'.owned = p.owned ∨ p'.owned = []) :
    p'.StandsFor f' (since ++ c) := by
  obtain ⟨⟨merged, rfl, hmerged, hstands⟩, hnodup⟩ := h
  refine ⟨⟨merged, by rw [hwaiting, List.append_assoc], fun hpc => hmerged (hearly hpc), ?_⟩, ?_⟩
  · rcases howned with howned | howned
    · rwa [howned]
    · simp [howned]
  · rcases howned with howned | howned
    · rwa [howned]
    · simp [howned]

/-- The pass loads its claim. -/
lemma standsFor_load {lines : List Entry} {batch deferred : List Item} {budget : ℕ}
    (h : p.StandsFor f since) (hpc : p.pc = .load) (hproc : f.processing = some lines)
    (hsplit : splitClaim budget (dedup lines) = (batch, deferred)) (howned : p'.owned = batch)
    (hwaiting : p'.waiting f' = []) (hearly : ¬ p'.pc.early) : p'.StandsFor f' since := by
  obtain ⟨⟨merged, rfl, hmerged, -⟩, -⟩ := h
  have hlines : merged ++ p.waiting f = lines := by
    rw [hmerged (by rw [hpc]; rfl), List.nil_append]
    simp [Pass.waiting, hpc, hproc]
  have hperm := split_perm hsplit
  refine ⟨⟨lines, by rw [hlines, hwaiting, List.append_nil], fun h => absurd h hearly,
    fun it hit => ?_⟩, ?_⟩
  · rw [howned] at hit
    exact dedup_stands (hperm.mem_iff.1 (List.mem_append_left _ hit))
  · have hkeys := (hperm.map Item.key).nodup_iff.2 (dedup_keys_nodup lines)
    rw [List.map_append] at hkeys
    rw [howned]
    exact hkeys.of_append_left

/-- A boundary merges arrivals that agree with what is owned. -/
lemma standsFor_rebalance {as : List Entry} {keep displaced : List Item} {budget : ℕ}
    (h : p.StandsFor f since) (hpc : p.pc = .rebalance as)
    (hrebalance : rebalance p.owned budget as = (keep, displaced)) (howned : p'.owned = keep)
    (hwaiting : p'.waiting f' = []) (hearly : ¬ p'.pc.early)
    (hsame : ∀ it ∈ p.owned, ∀ l ∈ (ofKey it.key as).getLast?, l.payload = it.entry.payload)
    (hcounter : ∀ l ∈ as, dedupKey l ∉ p.owned.map Item.key →
      largest (ofKey (dedupKey l) since) ≤ largest (ofKey (dedupKey l) as)) :
    p'.StandsFor f' since := by
  obtain ⟨⟨merged, rfl, -, hstands⟩, hnodup⟩ := h
  have has : p.waiting f = as := by simp [Pass.waiting, hpc]
  rw [has] at hcounter ⊢
  refine ⟨⟨merged ++ as, by rw [hwaiting, List.append_nil], fun h => absurd h hearly,
    fun it hit => ?_⟩, howned ▸ rebalance_keys_nodup hrebalance hnodup⟩
  rw [howned] at hit
  rcases mem_rebalance hrebalance (List.mem_append_left _ hit) with hit | hit
  · -- an owned entry keeps its request
    obtain ⟨it', hit', hkey, hpayload, hdeferrals⟩ := mergedBy_fst hnodup hit
    obtain ⟨⟨l, hlast, hl⟩, hcount⟩ := hstands it' hit'
    rw [hkey] at hlast hcount
    refine ⟨?_, ?_⟩
    · cases has' : (ofKey it.key as).getLast? with
      | none => exact ⟨l, by simp [has', hlast], hpayload.trans hl⟩
      | some l' =>
          refine ⟨l', by simp [has'], hpayload.trans ?_⟩
          exact (hsame it' hit' l' (by rw [hkey, has']; rfl)).symm
    · rw [hdeferrals, hcount, ofKey_append, largest_append]
  · -- a new entry is that of the newest arrival
    obtain ⟨⟨l, hlast, hl⟩, hcount⟩ := mergedBy_snd hit
    have hkey := (mergedBy_snd_keys.2 it.key (List.mem_map_of_mem hit)).2
    obtain ⟨hmem, hkey'⟩ := mem_ofKey.1 (List.mem_of_getLast? hlast)
    refine ⟨⟨l, by simp [hlast], hl⟩, ?_⟩
    have hle := hcounter l hmem (by rwa [hkey'])
    rw [hkey', ofKey_append, largest_append] at hle
    rw [hcount, ofKey_append, largest_append]
    omega

/-- The loop takes an entry: what is left stands for the lines of the other targets. -/
lemma standsFor_take {owned : List Item} (h : p.StandsFor f since) (hpc : p.pc = .loop)
    (howned : p.owned = it :: owned) (howned' : p'.owned = owned) (hwaiting : p'.waiting f' = [])
    (hearly : ¬ p'.pc.early) :
    it.Stands (ofKey it.key since) ∧
      p'.StandsFor f' (since.filter (dedupKey · ≠ it.key)) := by
  obtain ⟨⟨merged, rfl, -, hstands⟩, hnodup⟩ := h
  have hnone : p.waiting f = [] := by simp [Pass.waiting, hpc]
  rw [howned, List.map_cons, List.nodup_cons] at hnodup
  rw [hnone, List.append_nil]
  rw [howned] at hstands
  refine ⟨hstands it List.mem_cons_self, ⟨merged.filter (dedupKey · ≠ it.key),
    by rw [hwaiting, List.append_nil], fun h => absurd h hearly, fun it' hit' => ?_⟩,
    by rw [howned']; exact hnodup.2⟩
  rw [howned'] at hit'
  have hne : it'.key ≠ it.key := fun heq => hnodup.1 (heq ▸ List.mem_map_of_mem hit')
  rw [ofKey_filter_ne hne]
  exact hstands it' (List.mem_cons_of_mem _ hit')

/-- A move that takes nothing keeps what the pass stands for, if what it merges agrees. -/
lemma standsFor_moves (hm : Moves env f p c f' p') (htakes : p.taken = none)
    (h : p.StandsFor f since) (hok : ∀ as, p.pc = .rebalance as →
      (∀ it ∈ p.owned, ∀ l ∈ (ofKey it.key as).getLast?, l.payload = it.entry.payload) ∧
      ∀ l ∈ as, dedupKey l ∉ p.owned.map Item.key →
        largest (ofKey (dedupKey l) since) ≤ largest (ofKey (dedupKey l) as)) :
    p'.StandsFor f' (since ++ c) := by
  have hearly := early_moves hm
  have hwaiting := waiting_moves hm
  cases hm
  case loadNone hpc hproc =>
    exact standsFor_quiet h (by simp [Pass.waiting, hpc, hproc]) hearly (.inl rfl)
  case loadAll hpc hproc hsplit =>
    rw [List.append_nil]
    exact standsFor_load h hpc hproc hsplit rfl rfl (by simp [Pc.early])
  case loadSome hpc hproc hsplit hdeferred =>
    rw [List.append_nil]
    exact standsFor_load h hpc hproc hsplit rfl rfl (by simp [Pc.early])
  case rebalance hpc hrebalance =>
    rw [List.append_nil]
    exact standsFor_rebalance h hpc hrebalance rfl rfl (by simp [Pc.early]) (hok _ hpc).1
      (hok _ hpc).2
  case hold hpc howned _ => simp [Pass.taken, hpc, howned] at htakes
  case reject hpc howned _ => simp [Pass.taken, hpc, howned] at htakes
  case spawn hpc howned _ => simp [Pass.taken, hpc, howned] at htakes
  case budgetSpent hpc hspent =>
    exact standsFor_quiet h (by simp [Pass.waiting, hpc]) hearly (.inr rfl)
  all_goals
    exact standsFor_quiet h (hwaiting (by simp only [*, ne_eq, reduceCtorEq, not_false_eq_true])
      (by simp only [*, ne_eq, reduceCtorEq, not_false_eq_true, implies_true])) hearly (.inl rfl)

/-- A move that takes an entry claims nothing. -/
lemma standsFor_takes (hm : Moves env f p c f' p') (htakes : p.taken = some it)
    (h : p.StandsFor f since) : c = [] ∧ it.Stands (ofKey it.key since) ∧
      p'.StandsFor f' (since.filter (dedupKey · ≠ it.key)) := by
  unfold Pass.taken at htakes
  split at htakes
  · rename_i hpc
    cases hm
    case loopEnd _ howned => simp [howned] at htakes
    case hold it' owned why hpc' howned hgate =>
      obtain rfl : it' = it := by simpa [howned] using htakes
      exact ⟨rfl, standsFor_take h hpc howned rfl rfl (by simp [Pc.early])⟩
    case reject it' owned rule hpc' howned hgate =>
      obtain rfl : it' = it := by simpa [howned] using htakes
      exact ⟨rfl, standsFor_take h hpc howned rfl rfl (by simp [Pc.early])⟩
    case spawn it' owned job hpc' howned hgate =>
      obtain rfl : it' = it := by simpa [howned] using htakes
      exact ⟨rfl, standsFor_take h hpc howned rfl rfl (by simp [Pc.early])⟩
    all_goals simp_all
  · cases htakes

/-- The last line of a suffix that is not empty. -/
lemma getLast?_of_suffix {α : Type*} {xs ys : List α} {x : α} (h : xs <:+ ys)
    (hx : xs.getLast? = some x) : ys.getLast? = some x := by
  obtain ⟨zs, rfl⟩ := h
  rw [List.getLast?_append, hx, Option.some_or]

end moves

lemma traced_next {t t' : Traced} {l : Label} (h : t.Inv) (hok : Agrees t l)
    (hnext : tracedSystem.next t l = some t') : t'.Inv := by
  obtain ⟨run, hrun, rfl⟩ := Option.map_eq_some_iff.1 hnext
  obtain ⟨hstands, hsuffix, hnewest⟩ := h
  cases l with
  | post e =>
      obtain rfl := Option.some.inj hrun
      exact ⟨⟨hstands.merged, hstands.nodup⟩, hsuffix, hnewest⟩
  | change env =>
      obtain rfl := Option.some.inj hrun
      exact ⟨⟨hstands.merged, hstands.nodup⟩, hsuffix, hnewest⟩
  | act a =>
      obtain ⟨⟨files, pass⟩, hmove, rfl⟩ := Option.map_eq_some_iff.1 hrun
      have hm := moves_of_next hmove
      cases htakes : t.run.pass.taken with
      | none =>
          have hagrees : ∀ as, t.run.pass.pc = .rebalance as →
              t.SameRequests as ∧ t.NoLargerAside as :=
            fun as hpc => hok as (by simp [hpc, Pc.arrivals])
          refine ⟨standsFor_moves hm htakes hstands hagrees, fun k => ?_, hnewest⟩
          rw [ofKey_append, ofKey_append]
          obtain ⟨before, hbefore⟩ := hsuffix k
          exact ⟨before, by rw [← hbefore, List.append_assoc]⟩
      | some it =>
          obtain ⟨hclaims, ⟨⟨l, hlast, hl⟩, hcount⟩, hrest⟩ := standsFor_takes hm htakes hstands
          refine ⟨hrest, fun k => ?_, fun x hx => ?_⟩
          · rw [hclaims, List.append_nil]
            by_cases hk : k = it.key
            · rw [ofKey_filter_self hk]
              exact List.nil_suffix
            · rw [ofKey_filter_ne hk]
              exact hsuffix k
          · rcases List.mem_append.1 hx with hx | hx
            · exact hnewest x hx
            · obtain rfl := List.mem_singleton.1 hx
              exact ⟨⟨l, getLast?_of_suffix (hsuffix it.key) hlast, hl⟩, hcount⟩

/-- **The newest request wins.**  In a run in which the newest arrival for a target that the pass
owns asks for what the owned entry asks for, and an arrival for a target that was set aside has no
smaller counter than the lines that were, every entry that the pass takes has the request of the
newest line for its target that the pass had claimed, and the largest counter of the lines it
stands for. -/
theorem newest_taken {t : Traced} (h : tracedSystem.ReachedBy Agrees t) :
    ∀ x ∈ t.taken, x.Newest := by
  have hinv : t.Inv := by
    refine h.invariant (fun t ht => ?_) fun _ _ _ ht hok hnext => traced_next ht hok hnext
    obtain ⟨⟨hpass, -, -⟩, hsince, htaken⟩ := ht
    refine ⟨⟨⟨[], ?_, fun _ => rfl, ?_⟩, ?_⟩, fun k => ?_, ?_⟩ <;>
      simp [hpass, hsince, htaken, Pass.fresh, Pass.waiting]
  exact hinv.newest

/-! ### Two runs -/

/-- Two requests are queued. -/
def twoTargets : Traced where
  run :=
    { env := Env.plain, files := .ofLive [.ofDir "/a", .ofDir "/b"], pass := .fresh
      posted := [.ofDir "/a", .ofDir "/b"], claimed := [], ended := [] }
  since := []
  taken := []

lemma twoTargets_init : tracedSystem.init twoTargets := ⟨⟨rfl, rfl, rfl, rfl⟩, rfl, rfl⟩

/-- A request arrives while the first mine runs. -/
def arrivalOf (e : Entry) : List Label :=
  List.replicate 4 (Label.act .run) ++ [Label.post e, .act (.mineEnds .ok)] ++
    List.replicate 7 (Label.act .run)

instance (t : Traced) : (l : Label) → Decidable (Agrees t l)
  | .act _ => inferInstanceAs (Decidable (∀ as ∈ t.run.pass.pc.arrivals,
      (∀ it ∈ t.run.pass.owned, ∀ l ∈ (ofKey it.key as).getLast?, l.payload = it.entry.payload) ∧
        ∀ l ∈ as, dedupKey l ∉ t.run.pass.owned.map Item.key →
          largest (ofKey (dedupKey l) t.since) ≤ largest (ofKey (dedupKey l) as)))
  | .post _ => inferInstanceAs (Decidable True)
  | .change _ => inferInstanceAs (Decidable True)

/-- The same request arrives again, with a counter. -/
theorem newest_taken_again : ∃ t : Traced,
    t.taken.map (fun x => (x.item.entry.payload.dir, x.item.entry.drainDeferrals)) =
      [("/a".toList, 0), ("/b".toList, 2)] ∧ ∀ x ∈ t.taken, x.Newest := by
  have hstart : tracedSystem.ReachedBy Agrees twoTargets := .init twoTargets_init
  obtain ⟨t, hreached, hend⟩ := hstart.exists_of_execBy_any
    (arrivalOf ((Entry.ofDir "/b").setDeferrals 2))
    (fun t => decide (t.taken.map (fun x => (x.item.entry.payload.dir,
      x.item.entry.drainDeferrals)) = [("/a".toList, 0), ("/b".toList, 2)])) (by decide)
  exact ⟨t, of_decide_eq_true hend, newest_taken hreached⟩

/-- A request for the same target with a limit arrives while its entry is owned: the entry is
replayed without. -/
theorem newest_taken_fails : ¬ ∀ t : Traced, tracedSystem.Reachable t →
    ∀ x ∈ t.taken, x.Newest := by
  intro hnewest
  obtain ⟨t, ht, hend⟩ := tracedSystem.exists_of_exec_any twoTargets
    (arrivalOf { Entry.ofDir "/b" with
      payload := { (Entry.ofDir "/b").payload with limit := some 5 } })
    (fun t => t.taken.any fun x => decide (x.item.entry.payload.limit = none ∧
      (ofKey x.item.key x.claimed).getLast?.map (·.payload.limit) = some (some 5))) (by decide)
  obtain ⟨x, hx, hlimits⟩ := List.any_eq_true.1 hend
  obtain ⟨hnone, hsome⟩ := of_decide_eq_true hlimits
  obtain ⟨l, hlast, hpayload⟩ :=
    (hnewest t (StepSystem.Reachable.exec (.init twoTargets_init) ht) x hx).payload
  rw [hlast, Option.map_some, ← hpayload, hnone] at hsome
  cases hsome

end PalaceDaemon.Mines

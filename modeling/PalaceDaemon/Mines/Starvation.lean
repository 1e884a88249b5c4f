/-
How long a target waits for its replay.

Passes follow one another while requests are queued at any time.  A target that waits is held back
by the entries that are taken before it, and there is a bound on the passes for that, by the targets
queued when it was posted and the cap, as long as it keeps its place in the queue (`waits_bounded`).
It can lose its place in four ways: it is posted again, or an older entry of it is filed again,
which moves it behind everything queued since; an arrival displaces it from the claim, and it is
filed behind what the pass has set aside since; and what is posted too late for the last boundary
of a pass is in the live file when the pass files the target behind it.

The last one is enough for a target that is never posted again to wait for ever
(`waits_unbounded`).
-/
import PalaceDaemon.Mines.Place

namespace PalaceDaemon.Mines

/-! ### Pass after pass -/

/-- The queue of a daemon, with the pass that runs or the last one that ran. -/
structure Queue where
  env : Env
  files : Files
  pass : Pass

/-- What can happen next. -/
inductive QueueLabel
  | post (e : Entry)
  /-- The surroundings change; the variables of the process stay. -/
  | change (env : Env)
  | act (a : Act)
  /-- The pass has returned and the next one begins. -/
  | again

/-- One pass after the other, while requests are queued. -/
def queueSystem : StepSystem Queue QueueLabel where
  init q := q.pass = .fresh
  next q
    | .post e => some { q with files := q.files.append [e] }
    | .change env => if env.drainBatch = q.env.drainBatch then some { q with env := env } else none
    | .act a => (q.pass.next q.env q.files a).map fun fp => { q with files := fp.1, pass := fp.2 }
    | .again => if q.pass.pc = .done then some { q with pass := .fresh } else none

/-- The keys of the lines that were claimed or are to be, and of the entries that the pass has yet
to take or to file. -/
def Pass.targets (f : Files) (p : Pass) : Finset DedupKey :=
  ((f.live.getD [] ++ p.waiting f).map dedupKey ++ (p.owned ++ p.deferred).map Item.key).toFinset

/-- The cap of the passes. -/
def Queue.cap (q : Queue) : ℕ := drainBatchSize q.env.drainBatch

/-- The next entry that the pass takes is one of this target. -/
def Pass.takes (p : Pass) (k : DedupKey) : Prop :=
  p.pc = .loop ∧ p.owned.head?.map Item.key = some k

instance (p : Pass) (k : DedupKey) : Decidable (p.takes k) :=
  inferInstanceAs (Decidable (_ ∧ _))

/-- The runs from a request for `k`, queued when there were `n` targets, until an entry of it is
taken, with the number of passes that have begun since. -/
def waitSystem (k : DedupKey) (n : ℕ) : StepSystem (Queue × ℕ) QueueLabel where
  init s := ∃ q e, queueSystem.Reachable q ∧ dedupKey e = k ∧
    (q.pass.targets q.files).card = n ∧ s = ({ q with files := q.files.append [e] }, 0)
  next s
    | .post e => (queueSystem.next s.1 (.post e)).map fun q => (q, s.2)
    | .change env => (queueSystem.next s.1 (.change env)).map fun q => (q, s.2)
    | .act a =>
        if s.1.pass.takes k then none
        else (queueSystem.next s.1 (.act a)).map fun q => (q, s.2)
    | .again => (queueSystem.next s.1 .again).map fun q => (q, s.2 + 1)

/-! ### Keeping the place -/

/-- The targets that the next step files behind the queue, besides the deferred ones. -/
def Pass.refiles (p : Pass) : List DedupKey :=
  match p.pc with
  | .recoverAppend lines => lines.map dedupKey
  | .requeueWrite => p.requeue.map Item.key
  | _ => []

/-- The targets that the next step displaces. -/
def Pass.displaces (p : Pass) : List DedupKey :=
  match p.pc with
  | .rebalance arrivals =>
      (rebalance p.owned (p.cap - p.consumed) arrivals).2.map Item.key
  | _ => []

/-- When the next step files the target, what is in the live file is for targets that the pass
files too. -/
def Pass.FilesAll (f : Files) (p : Pass) (k : DedupKey) : Prop :=
  p.pc = .deferWrite → k ∈ p.deferred.map Item.key → ∀ l ∈ f.live.getD [],
    dedupKey l ∈ p.deferred.map Item.key ∨ dedupKey l ∈ p.requeue.map Item.key

/-- In the next step of the pass the target keeps its place: no older entry of it is filed again,
it is not displaced from the claim, and nothing newer is filed before it. -/
def Pass.KeepsPlace (f : Files) (p : Pass) (k : DedupKey) : Prop :=
  k ∉ p.refiles ∧ (k ∈ p.owned.map Item.key → k ∉ p.displaces) ∧ p.FilesAll f k

/-- The target keeps its place: it is not posted again, unless the pass has it in its claim or is
going to file it without another boundary. -/
def KeepsPlace (k : DedupKey) (s : Queue × ℕ) : QueueLabel → Prop
  | .post e => dedupKey e = k → k ∈ s.1.pass.owned.map Item.key ∨
      k ∈ s.1.pass.deferred.map Item.key ∧ s.1.pass.cap ≤ s.1.pass.consumed ∧
        s.1.pass.pc.deferralsWritten = false
  | .act _ => s.1.pass.KeepsPlace s.1.files k
  | _ => True

instance (f : Files) (p : Pass) (k : DedupKey) : Decidable (p.FilesAll f k) :=
  inferInstanceAs (Decidable (_ = _ → _ → _))

instance (f : Files) (p : Pass) (k : DedupKey) : Decidable (p.KeepsPlace f k) :=
  inferInstanceAs (Decidable (_ ∧ (_ → ¬ _) ∧ _))

instance (k : DedupKey) (s : Queue × ℕ) : ∀ l, Decidable (KeepsPlace k s l)
  | .post _ => inferInstanceAs (Decidable (_ → _))
  | .act _ => inferInstanceAs (Decidable (Pass.KeepsPlace _ _ _))
  | .change _ => inferInstanceAs (Decidable True)
  | .again => inferInstanceAs (Decidable True)

/-! ### Where the target is -/

/-- The places before the claim of a pass. -/
def Pc.unclaimed : Pc → Bool
  | .recover | .recoverOpen _ | .recoverAppend _ | .recoverRemove | .claim => true
  | _ => false

/-- The places from the claim of a pass until the deferred entries are filed. -/
def Pc.holding : Pc → Bool
  | .load | .writeOpen _ | .writeLines _ | .loop | .replaying _ | .boundary | .mergeRead
  | .mergeRemove _ | .rebalance _ | .deferOpen | .deferWrite | .cancelledInReplay => true
  | _ => false

/-- The places of a boundary that has arrivals. -/
def Pc.merging : Pc → Bool
  | .mergeRead | .mergeRemove _ | .rebalance _ => true
  | _ => false

/-- What the pass is going to requeue. -/
def Pass.toRequeue (p : Pass) : List Item :=
  if p.pc.requeuesWritten then [] else p.requeue

/-- A pass takes no more than its cap. -/
structure Pass.Budgeted (p : Pass) : Prop where
  early : p.pc.early → p.consumed = 0
  owned : p.consumed + p.owned.length ≤ p.cap
  merging : p.pc.merging → p.consumed < p.cap

/-- Where the target `k` is, and that at most `m` passes can still begin before it is taken. -/
inductive Place (k : DedupKey) (cap : ℕ) (f : Files) (p : Pass) (m : ℕ) : Prop
  /-- The pass is going to take it. -/
  | owned : p.pc.holding → k ∈ p.owned.map Item.key → Place k cap f p m
  /-- It is in the live file, and the pass has yet to claim it. -/
  | unclaimed {ahead c} : p.pc.unclaimed → Queued k ahead [] c (f.live.getD []) →
      passesLeft cap c ahead.card ≤ m → Place k cap f p m
  /-- The pass has claimed it. -/
  | claimed {ahead c} : p.pc = .load → Queued k ahead [] c (f.processing.getD []) →
      k ∉ (f.live.getD []).map dedupKey → passesLeft cap c ahead.card ≤ m → Place k cap f p m
  /-- It was posted while the pass was running. -/
  | posted {ahead} : p.pc.holding → Queued k ahead [] 0 (f.live.getD []) →
      (∀ l ∈ p.waiting f, dedupKey l ∈ ahead) → (∀ it ∈ p.owned ++ p.deferred, it.key ∈ ahead) →
      passesLeft cap 0 ahead.card < m → Place k cap f p m
  /-- It is among the arrivals of a boundary. -/
  | merging {ahead} : p.pc.merging → Queued k ahead [] 0 (p.waiting f) →
      k ∉ (f.live.getD []).map dedupKey → (∀ it ∈ p.owned ++ p.deferred, it.key ∈ ahead) →
      passesLeft cap 0 ahead.card < m → Place k cap f p m
  /-- The pass has set it aside. -/
  | deferred {ahead c} : p.pc.holding → Held k ahead c p.deferred →
      p.cap ≤ p.consumed ∨ k ∉ (f.live.getD [] ++ p.waiting f).map dedupKey →
      passesLeft cap c ahead.card < m → Place k cap f p m
  /-- It is in the live file, and the next pass is going to claim it. -/
  | filed {ahead c} : p.pc.deferralsWritten →
      Queued k ahead (p.toRequeue.map Item.key) c (f.live.getD []) →
      passesLeft cap c ahead.card < m → Place k cap f p m

section moves

variable {env : Env} {f f' : Files} {p p' : Pass} {c : List Entry} {k : DedupKey}
  {cap m : ℕ} {ahead : Finset DedupKey}

lemma budgeted_fresh : Pass.fresh.Budgeted where
  early _ := rfl
  owned := le_rfl
  merging h := by simp [Pass.fresh, Pc.merging] at h

lemma budgeted_moves (hm : Moves env f p c f' p') (h : p.Budgeted) : p'.Budgeted := by
  obtain ⟨hearly, howned, hmerging⟩ := h
  have hbatch : ∀ budget its, (splitClaim budget its).1.length ≤ budget := fun budget its =>
    PrioritySplit.split_length_le _ _ _
  cases hm
  case loadAll lines batch hpc hproc hsplit =>
    have hlength := hbatch (drainBatchSize env.drainBatch) (dedup lines)
    rw [hsplit] at hlength
    have hconsumed := hearly (by rw [hpc]; rfl)
    exact ⟨by simp [Pc.early], by simpa [hconsumed] using hlength, by simp [Pc.merging]⟩
  case loadSome lines batch deferred hpc hproc hsplit hne =>
    have hlength := hbatch (drainBatchSize env.drainBatch) (dedup lines)
    rw [hsplit] at hlength
    have hconsumed := hearly (by rw [hpc]; rfl)
    exact ⟨by simp [Pc.early], by simpa [hconsumed] using hlength, by simp [Pc.merging]⟩
  case rebalance as keep displaced hpc hrebalance =>
    have hlength : keep.length ≤ p.cap - p.consumed := by
      change splitClaim (p.cap - p.consumed)
        ((mergeArrivals p.owned as).1 ++ (mergeArrivals p.owned as).2) = (keep, displaced)
        at hrebalance
      have hle := hbatch (p.cap - p.consumed)
        ((mergeArrivals p.owned as).1 ++ (mergeArrivals p.owned as).2)
      rwa [hrebalance] at hle
    have hlt := hmerging (by rw [hpc]; rfl)
    exact ⟨by simp [Pc.early], by dsimp only; omega, by simp [Pc.merging]⟩
  case hold it owned why hpc hcons hgate =>
    rw [hcons, List.length_cons] at howned
    exact ⟨by simp [Pc.early], by dsimp only; omega, by simp [Pc.merging]⟩
  case reject it owned rule hpc hcons hgate =>
    rw [hcons, List.length_cons] at howned
    exact ⟨by simp [Pc.early], by dsimp only; omega, by simp [Pc.merging]⟩
  case spawn it owned job hpc hcons hgate =>
    rw [hcons, List.length_cons] at howned
    exact ⟨by simp [Pc.early], by dsimp only; omega, by simp [Pc.merging]⟩
  case budgetSpent hpc hspent =>
    exact ⟨by simp [Pc.early], by simp only [List.length_nil]; omega, by simp [Pc.merging]⟩
  all_goals
    refine ⟨?_, howned, ?_⟩ <;> simp_all [Pc.early, Pc.merging]

/-- The target of an entry that the pass owns stays in the claim until it is taken. -/
lemma place_owned (hm : Moves env f p c f' p') (hs : p.Shape f) (hb : p.Budgeted)
    (hkeep : p.KeepsPlace f k) (htakes : ¬ p.takes k) (hpc : p.pc.holding)
    (hk : k ∈ p.owned.map Item.key) : Place k cap f' p' m := by
  have hne : p.owned ≠ [] := by
    intro h
    rw [h] at hk
    cases hk
  have htail : ∀ {it owned}, p.pc = .loop → p.owned = it :: owned → k ∈ owned.map Item.key := by
    intro it owned hloop hcons
    rw [hcons] at hk
    rcases List.mem_cons.1 hk with h | h
    · exact absurd ⟨hloop, by rw [hcons, List.head?_cons, Option.map_some, h]⟩ htakes
    · exact h
  cases hm
  case hold hloop hcons _ => exact .owned rfl (htail hloop hcons)
  case reject hloop hcons _ => exact .owned rfl (htail hloop hcons)
  case spawn hloop hcons _ => exact .owned rfl (htail hloop hcons)
  case rebalance as keep displaced hpc' hrebalance =>
    have hnot := hkeep.2.1 hk
    simp only [Pass.displaces, hpc', hrebalance] at hnot
    have hmem : k ∈ (keep ++ displaced).map Item.key :=
      (mem_keys_of_rebalance hrebalance).2 (.inl hk)
    rw [List.map_append, List.mem_append] at hmem
    exact .owned rfl (hmem.resolve_right hnot)
  case budgetSpent hpc' hspent =>
    have howned := hb.owned
    have := List.length_pos_of_ne_nil hne
    omega
  case loopEnd hpc' hnil => exact absurd hnil hne
  case loadAll hpc' _ _ => exact absurd (hs.early (by rw [hpc']; rfl)).1 hne
  case loadSome hpc' _ _ _ => exact absurd (hs.early (by rw [hpc']; rfl)).1 hne
  case loadNone hpc' _ => exact absurd (hs.early (by rw [hpc']; rfl)).1 hne
  case deferNone hpc' _ => exact absurd (hs.owned (by rw [hpc']; rfl)) hne
  case deferWrite hpc' => exact absurd (hs.owned (by rw [hpc']; rfl)) hne
  all_goals first
    | exact .owned rfl hk
    | simp_all [Pc.holding]

/-- The next pass claims the target. -/
lemma place_unclaimed {d : ℕ} (hm : Moves env f p c f' p') (hkeep : p.KeepsPlace f k)
    (hpc : p.pc.unclaimed) (hq : Queued k ahead [] d (f.live.getD []))
    (hle : passesLeft cap d ahead.card ≤ m) : Place k cap f' p' m := by
  cases hm
  case recoverNone => exact .unclaimed rfl hq hle
  case recoverSome => exact .unclaimed rfl hq hle
  case recoverOpen => exact .unclaimed rfl (by simpa using hq) hle
  case recoverAppend lines hpc' =>
    have hnot := hkeep.1
    simp only [Pass.refiles, hpc'] at hnot
    exact .unclaimed rfl ((hq.mono (List.nil_subset _)).append hnot) hle
  case recoverRemove => exact .unclaimed rfl hq hle
  case claimNone _ hnone =>
    rw [hnone] at hq
    exact absurd hq.mem List.not_mem_nil
  case claim _ hlive =>
    rw [hlive] at hq
    exact .claimed rfl hq List.not_mem_nil hle
  all_goals simp_all [Pc.unclaimed]

/-- The claimed target is taken into the batch or set aside. -/
lemma place_claimed {d : ℕ} (hm : Moves env f p c f' p')
    (hcap : drainBatchSize env.drainBatch = cap) (hpc : p.pc = .load)
    (hq : Queued k ahead [] d (f.processing.getD []))
    (hlive : k ∉ (f.live.getD []).map dedupKey) (hle : passesLeft cap d ahead.card ≤ m) :
    Place k cap f' p' m := by
  have hpos : 0 < cap := hcap ▸ (drainBatchSize_bounds env.drainBatch).1
  cases hm
  case loadNone _ hnone =>
    rw [hnone] at hq
    exact absurd hq.mem List.not_mem_nil
  case loadAll lines batch _ hproc hsplit =>
    rw [hcap] at hsplit
    rw [hproc] at hq
    rcases held_of_split hq hpos hsplit with h | ⟨ahead', h, -⟩
    · exact .owned rfl h
    · exact absurd h.mem List.not_mem_nil
  case loadSome lines batch deferred _ hproc hsplit _ =>
    rw [hcap] at hsplit
    rw [hproc] at hq
    rcases held_of_split hq hpos hsplit with h | ⟨ahead', h, hlt⟩
    · exact .owned rfl h
    · exact .deferred rfl h (.inr (by simpa [Pass.waiting] using hlive)) (hlt.trans_le hle)
  all_goals simp_all

/-- A target in the live file is read at the next boundary, or filed before what is deferred. -/
lemma place_posted (hm : Moves env f p c f' p') (hkeep : p.KeepsPlace f k) (hpc : p.pc.holding)
    (hq : Queued k ahead [] 0 (f.live.getD []))
    (hwaiting : ∀ l ∈ p.waiting f, dedupKey l ∈ ahead)
    (hall : ∀ it ∈ p.owned ++ p.deferred, it.key ∈ ahead)
    (hlt : passesLeft cap 0 ahead.card < m) : Place k cap f' p' m := by
  have hlines : ∀ lines : List Entry, (∀ l ∈ lines, dedupKey l ∈ ahead) →
      ∀ y ∈ lines.map dedupKey, y ∈ ahead := by
    rintro lines h y hy
    obtain ⟨l, hl, rfl⟩ := List.mem_map.1 hy
    exact h l hl
  have htail : ∀ {it owned}, p.owned = it :: owned →
      ∀ it ∈ owned ++ p.deferred, it.key ∈ ahead := by
    intro it owned hcons b hb
    refine hall b ?_
    rw [hcons]
    exact List.mem_cons_of_mem it hb
  cases hm
  case loadNone => exact .filed rfl (hq.mono (List.nil_subset _)) hlt
  case loadAll lines batch hpc' hproc hsplit =>
    simp only [Pass.waiting, hpc', hproc, Option.getD_some] at hwaiting
    exact .posted rfl hq (by simp [Pass.waiting])
      (fun it hit =>
        hlines lines hwaiting _ ((mem_keys_of_split hsplit).1 (List.mem_map_of_mem hit))) hlt
  case loadSome lines batch deferred hpc' hproc hsplit _ =>
    simp only [Pass.waiting, hpc', hproc, Option.getD_some] at hwaiting
    exact .posted rfl hq (by simp [Pass.waiting])
      (fun it hit =>
        hlines lines hwaiting _ ((mem_keys_of_split hsplit).1 (List.mem_map_of_mem hit))) hlt
  case hold _ hcons _ => exact .posted rfl hq (by simp [Pass.waiting]) (htail hcons) hlt
  case reject _ hcons _ => exact .posted rfl hq (by simp [Pass.waiting]) (htail hcons) hlt
  case spawn _ hcons _ => exact .posted rfl hq (by simp [Pass.waiting]) (htail hcons) hlt
  case budgetSpent =>
    refine .posted rfl hq (by simp [Pass.waiting]) (fun it hit => hall it ?_) hlt
    simpa [or_comm] using hit
  case noArrivals _ _ hnone =>
    rw [hnone] at hq
    exact absurd hq.mem List.not_mem_nil
  case arrivals hpc' _ hlive =>
    rw [hlive] at hq
    exact .merging rfl hq (by simp) hall hlt
  case mergeRead hpc' =>
    simp only [Pass.waiting, hpc'] at hwaiting
    exact .posted rfl hq hwaiting hall hlt
  case mergeRemove as hpc' =>
    simp only [Pass.waiting, hpc'] at hwaiting
    exact .posted rfl hq hwaiting hall hlt
  case rebalance as keep displaced hpc' hrebalance =>
    simp only [Pass.waiting, hpc'] at hwaiting
    have hnew : ∀ it ∈ keep ++ displaced, it.key ∈ ahead := by
      intro it hit
      rcases (mem_keys_of_rebalance hrebalance).1 (List.mem_map_of_mem hit) with h | h
      · obtain ⟨b, hb, hkey⟩ := List.mem_map.1 h
        exact hkey ▸ hall b (List.mem_append_left _ hb)
      · exact hlines as hwaiting _ h
    refine .posted rfl hq (by simp [Pass.waiting]) (fun it hit => ?_) hlt
    rcases List.mem_append.1 hit with hit | hit
    · exact hnew it (List.mem_append_left _ hit)
    · rcases List.mem_append.1 hit with hit | hit
      · exact hall it (List.mem_append_right _ hit)
      · exact hnew it (List.mem_append_right _ hit)
  case deferNone => exact .filed rfl (hq.mono (List.nil_subset _)) hlt
  case deferOpen => exact .posted rfl (by simpa using hq) (by simp [Pass.waiting]) hall hlt
  case deferWrite hpc' =>
    by_cases hk : k ∈ p.deferred.map Item.key
    · have hheld := held_of_mem hk fun it hit => hall it (List.mem_append_right _ hit)
      exact .filed rfl (hheld.file (hkeep.2.2 hpc' hk)) hlt
    · exact .filed rfl ((hq.mono (List.nil_subset _)).append (by simpa [Item.key] using hk)) hlt
  all_goals first
    | exact .posted rfl hq (by simp [Pass.waiting]) hall hlt
    | simp_all [Pc.holding]

/-- The arrivals of a boundary are kept or set aside. -/
lemma place_merging (hm : Moves env f p c f' p') (hpc : p.pc.merging)
    (howned : k ∉ p.owned.map Item.key) (hq : Queued k ahead [] 0 (p.waiting f))
    (hlive : k ∉ (f.live.getD []).map dedupKey)
    (hall : ∀ it ∈ p.owned ++ p.deferred, it.key ∈ ahead)
    (hlt : passesLeft cap 0 ahead.card < m) : Place k cap f' p' m := by
  cases hm
  case mergeRead hpc' =>
    simp only [Pass.waiting, hpc'] at hq
    exact .merging rfl hq hlive hall hlt
  case mergeRemove as hpc' =>
    simp only [Pass.waiting, hpc'] at hq
    exact .merging rfl hq hlive hall hlt
  case rebalance as keep displaced hpc' hrebalance =>
    simp only [Pass.waiting, hpc'] at hq
    rcases held_of_rebalance hq howned (fun it hit => hall it (List.mem_append_left _ hit))
      hrebalance with h | h
    · exact .owned rfl h
    · exact .deferred rfl (h.append_left fun it hit => hall it (List.mem_append_right _ hit))
        (.inr (by simpa [Pass.waiting] using hlive)) hlt
  all_goals simp_all [Pc.merging]

/-- A target that is set aside stays so until it is filed. -/
lemma place_deferred {d : ℕ} (hm : Moves env f p c f' p') (hs : p.Shape f) (hb : p.Budgeted)
    (hkeep : p.KeepsPlace f k) (hpc : p.pc.holding) (howned : k ∉ p.owned.map Item.key)
    (hheld : Held k ahead d p.deferred)
    (hquiet : p.cap ≤ p.consumed ∨ k ∉ (f.live.getD [] ++ p.waiting f).map dedupKey)
    (hlt : passesLeft cap d ahead.card < m) : Place k cap f' p' m := by
  have hne : p.deferred ≠ [] := by
    intro h
    rw [h] at hheld
    exact absurd hheld.mem List.not_mem_nil
  have hlive : ∀ {q : Prop}, p.cap ≤ p.consumed ∨ k ∉ (f.live.getD [] ++ p.waiting f).map dedupKey →
      (p.cap ≤ p.consumed → q) → q ∨ k ∉ (f.live.getD [] ++ []).map dedupKey := by
    intro q h hq
    refine h.imp hq fun h hmem => h ?_
    rw [List.append_nil] at hmem
    rw [List.map_append]
    exact List.mem_append_left _ hmem
  cases hm
  case loadNone hpc' _ => exact absurd (hs.early (by rw [hpc']; rfl)).2.1 hne
  case loadAll hpc' _ _ => exact absurd (hs.early (by rw [hpc']; rfl)).2.1 hne
  case loadSome hpc' _ _ _ => exact absurd (hs.early (by rw [hpc']; rfl)).2.1 hne
  case hold => exact .deferred rfl hheld (hlive hquiet Nat.le_succ_of_le) hlt
  case reject => exact .deferred rfl hheld (hlive hquiet Nat.le_succ_of_le) hlt
  case spawn => exact .deferred rfl hheld (hlive hquiet Nat.le_succ_of_le) hlt
  case budgetSpent => exact .deferred rfl (hheld.append howned) (hlive hquiet id) hlt
  case arrivals hpc' hbudget hsome =>
    have hnot := hquiet.resolve_left (not_le.2 hbudget)
    refine .deferred rfl hheld (.inr ?_) hlt
    simpa [Pass.waiting, hpc', hsome] using hnot
  case mergeRead hpc' => exact .deferred rfl hheld (by simpa [Pass.waiting, hpc'] using hquiet) hlt
  case mergeRemove hpc' =>
    exact .deferred rfl hheld (by simpa [Pass.waiting, hpc'] using hquiet) hlt
  case rebalance as keep displaced hpc' hrebalance =>
    have hnot := hquiet.resolve_left (not_le.2 (hb.merging (by rw [hpc']; rfl)))
    rw [List.map_append, List.mem_append, not_or] at hnot
    have hdisplaced : k ∉ displaced.map Item.key := by
      intro h
      obtain ⟨it, hit, rfl⟩ := List.mem_map.1 h
      rcases (mem_keys_of_rebalance hrebalance).1
        (List.mem_map_of_mem (List.mem_append_right _ hit)) with h | h
      · exact howned h
      · exact hnot.2 (by simpa only [Pass.waiting, hpc'] using h)
    exact .deferred rfl (hheld.append hdisplaced)
      (.inr (by simpa [Pass.waiting] using hnot.1)) hlt
  case deferNone _ hnil => exact absurd hnil hne
  case deferOpen =>
    exact .deferred rfl hheld (by simpa [Pass.waiting] using hlive hquiet id) hlt
  case deferWrite hpc' => exact .filed rfl (hheld.file (hkeep.2.2 hpc' hheld.mem)) hlt
  all_goals first
    | exact .deferred rfl hheld (hlive hquiet id) hlt
    | simp_all [Pc.holding]

/-- A target that is filed is where the next pass claims it. -/
lemma place_filed {d : ℕ} (hm : Moves env f p c f' p') (hkeep : p.KeepsPlace f k)
    (hpc : p.pc.deferralsWritten)
    (hq : Queued k ahead (p.toRequeue.map Item.key) d (f.live.getD []))
    (hlt : passesLeft cap d ahead.card < m) : Place k cap f' p' m := by
  cases hm
  case failNone hpc' _ =>
    simp only [Pass.toRequeue, hpc', Pc.requeuesWritten] at hq
    exact .filed rfl hq hlt
  case failOpen hpc' _ =>
    simp only [Pass.toRequeue, hpc', Pc.requeuesWritten] at hq
    exact .filed rfl hq hlt
  case failWrite hpc' =>
    simp only [Pass.toRequeue, hpc', Pc.requeuesWritten] at hq
    exact .filed rfl hq hlt
  case requeueNone hpc' hnil =>
    simp only [Pass.toRequeue, hpc', Pc.requeuesWritten, hnil] at hq
    exact .filed rfl hq hlt
  case requeueOpen hpc' _ =>
    simp only [Pass.toRequeue, hpc', Pc.requeuesWritten] at hq
    exact .filed rfl (by simpa [Pass.toRequeue, Pc.requeuesWritten] using hq) hlt
  case requeueWrite hpc' =>
    simp only [Pass.toRequeue, hpc', Pc.requeuesWritten] at hq
    have hnot := hkeep.1
    simp only [Pass.refiles, hpc'] at hnot
    have hkeys : (p.requeue.map Item.entry).map dedupKey = p.requeue.map Item.key :=
      List.map_map
    exact .filed rfl (Queued.append (by rw [hkeys]; exact hq) (by rwa [hkeys])) hlt
  case wake hpc' =>
    simp only [Pass.toRequeue, hpc', Pc.requeuesWritten] at hq
    exact .filed rfl hq hlt
  case cancelDelay hpc' =>
    simp only [Pass.toRequeue, hpc', Pc.requeuesWritten] at hq
    exact .filed rfl hq hlt
  case remove hpc' =>
    simp only [Pass.toRequeue, hpc', Pc.requeuesWritten] at hq
    exact .filed rfl hq hlt
  all_goals simp_all [Pc.deferralsWritten]

/-- **One move.**  A target that keeps its place and is not taken has a place. -/
theorem place_moves (hm : Moves env f p c f' p') (hs : p.Shape f) (hb : p.Budgeted)
    (hkeep : p.KeepsPlace f k) (htakes : ¬ p.takes k)
    (hcap : drainBatchSize env.drainBatch = cap) (h : Place k cap f p m) :
    Place k cap f' p' m := by
  by_cases howned : p.pc.holding = true ∧ k ∈ p.owned.map Item.key
  · exact place_owned hm hs hb hkeep htakes howned.1 howned.2
  have hnot : p.pc.holding → k ∉ p.owned.map Item.key := fun hpc hk => howned ⟨hpc, hk⟩
  cases h with
  | owned hpc hk => exact absurd hk (hnot hpc)
  | unclaimed hpc hq hle => exact place_unclaimed hm hkeep hpc hq hle
  | claimed hpc hq hlive hle => exact place_claimed hm hcap hpc hq hlive hle
  | posted hpc hq hwaiting hall hlt => exact place_posted hm hkeep hpc hq hwaiting hall hlt
  | merging hpc hq hlive hall hlt =>
      have hholding : p.pc.holding = true := by
        cases hpc' : p.pc <;> simp_all [Pc.merging, Pc.holding]
      exact place_merging hm hpc (hnot hholding) hq hlive hall hlt
  | deferred hpc hheld hquiet hlt =>
      exact place_deferred hm hs hb hkeep hpc (hnot hpc) hheld hquiet hlt
  | filed hpc hq hlt => exact place_filed hm hkeep hpc hq hlt

end moves

/-! ### Runs -/

/-- What holds of the queue in every run. -/
structure Queue.Sound (q : Queue) : Prop where
  shape : q.pass.Shape q.files
  budget : q.pass.Budgeted

lemma sound_next {q q' : Queue} {l : QueueLabel} (h : q.Sound)
    (hnext : queueSystem.next q l = some q') : q'.Sound := by
  cases l with
  | post e =>
      obtain rfl := Option.some.inj hnext
      exact ⟨⟨h.shape.early, h.shape.current, h.shape.cancelling, h.shape.owned,
        h.shape.quarantined⟩, h.budget⟩
  | change env =>
      simp only [queueSystem] at hnext
      split_ifs at hnext
      obtain rfl := Option.some.inj hnext
      exact ⟨h.shape, h.budget⟩
  | act a =>
      obtain ⟨⟨f', p'⟩, hpass, rfl⟩ := Option.map_eq_some_iff.1 hnext
      have hm := moves_of_next hpass
      exact ⟨shape_moves hm h.shape, budgeted_moves hm h.budget⟩
  | again =>
      simp only [queueSystem] at hnext
      split_ifs at hnext
      obtain rfl := Option.some.inj hnext
      exact ⟨shape_fresh _, budgeted_fresh⟩

lemma sound_of_reachable {q : Queue} (h : queueSystem.Reachable q) : q.Sound := by
  refine StepSystem.ReachedBy.invariant (fun q hq => ?_) (fun _ _ _ hs _ hn => sound_next hs hn) h
  have hpass : q.pass = .fresh := hq
  exact ⟨hpass ▸ shape_fresh _, hpass ▸ budgeted_fresh⟩

/-- The passes in which a target is taken that was posted when `n` targets were queued. -/
def passesBound (n cap : ℕ) : ℕ := n / cap + drainPriorityEscapeDeferrals + 1

/-- What holds in the runs in which the target keeps its place. -/
structure Waits (k : DedupKey) (n : ℕ) (s : Queue × ℕ) : Prop where
  sound : s.1.Sound
  place : ∃ m, s.2 + m ≤ passesBound n s.1.cap ∧ Place k s.1.cap s.1.files s.1.pass m

section runs

variable {k : DedupKey} {n : ℕ} {s s' : Queue × ℕ} {l : QueueLabel}

/-- A target that is posted is behind the targets that are queued. -/
lemma waits_init (h : (waitSystem k n).init s) : Waits k n s := by
  obtain ⟨q, e, hreach, rfl, rfl, rfl⟩ := h
  have hsound := sound_of_reachable hreach
  refine ⟨sound_next (l := .post e) hsound rfl, _, (Nat.zero_add _).le, ?_⟩
  have hall : ∀ y ∈ (q.files.live.getD [] ++ q.pass.waiting q.files).map dedupKey ++
      (q.pass.owned ++ q.pass.deferred).map Item.key, y ∈ q.pass.targets q.files := fun y hy =>
    List.mem_toFinset.2 hy
  have hlive : ∀ l ∈ q.files.live.getD [], dedupKey l ∈ q.pass.targets q.files := fun l hl =>
    hall _ (List.mem_append_left _ (List.mem_map_of_mem (List.mem_append_left _ hl)))
  have hwaiting : ∀ l ∈ q.pass.waiting q.files, dedupKey l ∈ q.pass.targets q.files := fun l hl =>
    hall _ (List.mem_append_left _ (List.mem_map_of_mem (List.mem_append_right _ hl)))
  have hitems : ∀ it ∈ q.pass.owned ++ q.pass.deferred, it.key ∈ q.pass.targets q.files :=
    fun it hit => hall _ (List.mem_append_right _ (List.mem_map_of_mem hit))
  have hlt : passesLeft q.cap 0 (q.pass.targets q.files).card <
      passesBound (q.pass.targets q.files).card q.cap := by
    simp only [passesLeft, passesBound]
    omega
  have hqueued : ∀ later, Queued (dedupKey e) (q.pass.targets q.files) later 0
      (q.files.live.getD [] ++ [e]) := fun _ => queued_append_self hlive
  have hclass : q.pass.pc.unclaimed = true ∨ q.pass.pc.holding = true ∨
      q.pass.pc.deferralsWritten = true := by
    cases q.pass.pc <;> simp [Pc.unclaimed, Pc.holding, Pc.deferralsWritten]
  rcases hclass with hpc | hpc | hpc
  · exact .unclaimed hpc (hqueued _) hlt.le
  · exact .posted hpc (hqueued _) hwaiting hitems hlt
  · exact .filed hpc (hqueued _) hlt

/-- A request for the target that leaves it in its place. -/
lemma place_repost {q : Queue} {f : Files} {m : ℕ} (hs : q.Sound)
    (hkeep : k ∈ q.pass.owned.map Item.key ∨ k ∈ q.pass.deferred.map Item.key ∧
      q.pass.cap ≤ q.pass.consumed ∧ q.pass.pc.deferralsWritten = false)
    (h : Place k q.cap q.files q.pass m) : Place k q.cap f q.pass m := by
  have hearly : q.pass.pc.unclaimed → q.pass.pc.early := by
    cases q.pass.pc <;> simp [Pc.unclaimed, Pc.early]
  have hended : q.pass.pc.deferralsWritten → q.pass.pc.loopEnded := by
    cases q.pass.pc <;> simp [Pc.deferralsWritten, Pc.loopEnded]
  rcases hkeep with howned | ⟨hdeferred, hspent, hwritten⟩
  · have hne : q.pass.owned ≠ [] := by
      intro hnil
      rw [hnil] at howned
      cases howned
    have hclass : q.pass.pc.unclaimed = true ∨ q.pass.pc.holding = true ∨
        q.pass.pc.deferralsWritten = true := by
      cases q.pass.pc <;> simp [Pc.unclaimed, Pc.holding, Pc.deferralsWritten]
    rcases hclass with hpc | hpc | hpc
    · exact absurd (hs.shape.early (hearly hpc)).1 hne
    · exact .owned hpc howned
    · exact absurd (hs.shape.owned (hended hpc)) hne
  · have hne : q.pass.deferred ≠ [] := by
      intro hnil
      rw [hnil] at hdeferred
      cases hdeferred
    cases h with
    | owned hpc hk => exact .owned hpc hk
    | unclaimed hpc => exact absurd (hs.shape.early (hearly hpc)).2.1 hne
    | claimed hpc => exact absurd (hs.shape.early (by rw [hpc]; rfl)).2.1 hne
    | posted hpc _ _ hall hlt =>
        exact .deferred hpc (held_of_mem hdeferred fun it hit =>
          hall it (List.mem_append_right _ hit)) (.inl hspent) hlt
    | merging hpc => exact absurd hspent (not_le.2 (hs.budget.merging hpc))
    | deferred hpc hheld _ hlt => exact .deferred hpc hheld (.inl hspent) hlt
    | filed hpc =>
        rw [hwritten] at hpc
        cases hpc

/-- A request for another target. -/
lemma place_post {q : Queue} {e : Entry} {m : ℕ} (hne : dedupKey e ≠ k)
    (h : Place k q.cap q.files q.pass m) : Place k q.cap (q.files.append [e]) q.pass m := by
  have hnot : k ∉ [e].map dedupKey := by simpa using hne.symm
  have happend : ∀ {ahead later c}, Queued k ahead later c (q.files.live.getD []) →
      Queued k ahead later c (q.files.live.getD [] ++ [e]) := fun hq =>
    (hq.mono (List.subset_append_left _ _)).append hnot
  have hlive : k ∉ (q.files.live.getD []).map dedupKey →
      k ∉ (q.files.live.getD [] ++ [e]).map dedupKey := by
    intro h
    rw [List.map_append, List.mem_append, not_or]
    exact ⟨h, hnot⟩
  have hwaiting : q.pass.waiting (q.files.append [e]) = q.pass.waiting q.files := by
    unfold Pass.waiting
    cases q.pass.pc <;> rfl
  cases h with
  | owned hpc hk => exact .owned hpc hk
  | unclaimed hpc hq hle => exact .unclaimed hpc (happend hq) hle
  | claimed hpc hq hl hle => exact .claimed hpc hq (hlive hl) hle
  | posted hpc hq hw hall hlt => exact .posted hpc (happend hq) (by rwa [hwaiting]) hall hlt
  | merging hpc hq hl hall hlt => exact .merging hpc (by rwa [hwaiting]) (hlive hl) hall hlt
  | deferred hpc hheld hquiet hlt =>
      refine .deferred hpc hheld (hquiet.imp_right fun h => ?_) hlt
      rw [List.map_append, List.mem_append, not_or] at h
      rw [hwaiting, List.map_append, List.mem_append, not_or]
      exact ⟨hlive h.1, h.2⟩
  | filed hpc hq hlt => exact .filed hpc (happend hq) hlt

lemma waits_next (h : Waits k n s) (hkeep : KeepsPlace k s l)
    (hnext : (waitSystem k n).next s l = some s') : Waits k n s' := by
  obtain ⟨m, hm, hplace⟩ := h.place
  cases l with
  | post e =>
      simp only [waitSystem, Option.map_eq_some_iff] at hnext
      obtain ⟨q', hq, rfl⟩ := hnext
      refine ⟨sound_next h.sound hq, m, ?_⟩
      obtain rfl := Option.some.inj hq
      refine ⟨hm, ?_⟩
      change Place k s.1.cap (s.1.files.append [e]) s.1.pass m
      by_cases he : dedupKey e = k
      · exact place_repost h.sound (hkeep he) hplace
      · exact place_post he hplace
  | change env =>
      simp only [waitSystem, Option.map_eq_some_iff] at hnext
      obtain ⟨q', hq, rfl⟩ := hnext
      refine ⟨sound_next h.sound hq, m, ?_⟩
      simp only [queueSystem] at hq
      split_ifs at hq with henv
      obtain rfl := Option.some.inj hq
      have hcap : drainBatchSize env.drainBatch = s.1.cap := by rw [henv, Queue.cap]
      simp only [Queue.cap] at hm hplace hcap ⊢
      rw [hcap]
      exact ⟨hm, hplace⟩
  | act a =>
      simp only [waitSystem] at hnext
      split_ifs at hnext with htakes
      obtain ⟨q', hq, rfl⟩ := Option.map_eq_some_iff.1 hnext
      refine ⟨sound_next h.sound hq, m, ?_⟩
      obtain ⟨⟨f', p'⟩, hpass, rfl⟩ := Option.map_eq_some_iff.1 hq
      exact ⟨hm, place_moves (moves_of_next hpass) h.sound.shape h.sound.budget hkeep htakes rfl
        hplace⟩
  | again =>
      simp only [waitSystem, Option.map_eq_some_iff] at hnext
      obtain ⟨q', hq, rfl⟩ := hnext
      refine ⟨sound_next h.sound hq, ?_⟩
      simp only [queueSystem] at hq
      split_ifs at hq with hdone
      obtain rfl := Option.some.inj hq
      cases hplace with
      | filed hpc hfiled hlt =>
          simp only [Pass.toRequeue, hdone, Pc.requeuesWritten] at hfiled
          exact ⟨m - 1, by dsimp only [Queue.cap] at hm hlt ⊢; omega,
            .unclaimed rfl hfiled (Nat.le_sub_one_of_lt hlt)⟩
      | owned hpc => simp [hdone, Pc.holding] at hpc
      | unclaimed hpc => simp [hdone, Pc.unclaimed] at hpc
      | claimed hpc => simp [hdone] at hpc
      | posted hpc => simp [hdone, Pc.holding] at hpc
      | merging hpc => simp [hdone, Pc.merging] at hpc
      | deferred hpc => simp [hdone, Pc.holding] at hpc

/-- **Bounded waiting.**  In a run in which a target keeps its place, it is taken within a number of
passes that only the targets queued when it was posted and the cap bound. -/
theorem waits_bounded {q : Queue} {w : ℕ} (h : (waitSystem k n).ReachedBy (KeepsPlace k) (q, w)) :
    w ≤ passesBound n q.cap := by
  have hwaits : Waits k n (q, w) :=
    h.invariant (fun _ => waits_init) fun _ _ _ hs hkeep hnext => waits_next hs hkeep hnext
  obtain ⟨m, hm, -⟩ := hwaits.place
  exact (Nat.le_add_right w m).trans hm

end runs

/-! ### Passes that take one entry -/

/-- A plain setting in which a pass takes one entry. -/
def Env.single : Env := { Env.plain with drainBatch := some 1 }

/-- The pass up to its first mine. -/
def toSingleMine : List QueueLabel := List.replicate 6 (.act .run)

/-- Another request is posted, the mine ends well, and the next pass begins. -/
def fromSingleMine (e : Entry) : List QueueLabel :=
  [QueueLabel.post e, .act (.mineEnds .ok)] ++
    (List.replicate 9 (QueueLabel.act .run) ++ [QueueLabel.again])

/-- Requests for the directories, the later ones deferred more often, and one for `/z` behind
them. -/
def rotating (dirs : List String) (c : ℕ) : List Entry :=
  dirs.mapIdx (fun i dir => (Entry.ofDir dir).setDeferrals i) ++
    [(Entry.ofDir "/z").setDeferrals c]

/-- A queue of these lines before its next pass. -/
def Queue.ofLines (lines : List Entry) : Queue := ⟨Env.single, .ofLive lines, .fresh⟩

/-- Five directories and the one behind them. -/
def sixDirs : List String := ["/a", "/b", "/c", "/d", "/e", "/f"]

/-- Two passes over two requests: the second one is for `/z` and is posted at the start. -/
theorem waits_bounded_second : ∃ (q : Queue) (w : ℕ), 0 < w ∧ q.cap = 1 ∧
    w ≤ passesBound 1 q.cap := by
  have hstart : (waitSystem (dedupKey (.ofDir "/z")) 1).ReachedBy
      (KeepsPlace (dedupKey (.ofDir "/z"))) (Queue.ofLines (rotating ["/a"] 0), 0) :=
    .init ⟨Queue.ofLines [Entry.ofDir "/a"], Entry.ofDir "/z", .init rfl, rfl, by decide, rfl⟩
  obtain ⟨⟨q, w⟩, hreach, hend⟩ := hstart.exists_of_execBy_any
    (toSingleMine ++ [.act (.mineEnds .ok)] ++ (List.replicate 9 (.act .run) ++ [.again]))
    (fun s => decide (0 < s.2 ∧ s.1.cap = 1)) (by decide)
  obtain ⟨hpos, hcap⟩ := of_decide_eq_true hend
  exact ⟨q, w, hpos, hcap, waits_bounded hreach⟩

section single

variable {lines : List Entry} {it d : Item} {ds : List Item} {job : Job} {e : Entry}
  {k : DedupKey} {n w : ℕ}

/-- The pass has taken its entry. -/
def singleMine (it : Item) (deferred : List Item) (job : Job) : Queue where
  env := Env.single
  files := { Files.ofLive [] with
    live := none, processing := some ((it :: deferred).map Item.line) }
  pass := { Pass.fresh with
    pc := .replaying job, deferred := deferred, current := some it, cap := 1, consumed := 1 }

lemma exec_toSingleMine (hsplit : splitClaim 1 (dedup lines) = ([it], d :: ds))
    (hgate : gate Env.single [] it.entry = .spawn job) (hkey : it.key ≠ k) :
    (waitSystem k n).exec (Queue.ofLines lines, w) toSingleMine =
      some (singleMine it (d :: ds) job, w) := by
  have hcap : drainBatchSize Env.single.drainBatch = 1 := rfl
  have hload : (waitSystem k n).exec (Queue.ofLines lines, w) (List.replicate 2 (.act .run)) =
      some (⟨Env.single, { Files.ofLive [] with live := none, processing := some lines },
        { Pass.fresh with pc := .load }⟩, w) := rfl
  have hwrite : (waitSystem k n).exec (⟨Env.single, { Files.ofLive [] with
        live := none, processing := some lines }, { Pass.fresh with pc := .load }⟩, w)
        (List.replicate 3 (.act .run)) =
      some (⟨Env.single, { Files.ofLive [] with
        live := none, processing := some ((it :: d :: ds).map Item.line) }, { Pass.fresh with
          pc := .loop, owned := [it], deferred := d :: ds, cap := 1 }⟩, w) := by
    simp [waitSystem, queueSystem, Pass.next, Pass.step, Pass.fresh, Files.ofLive, Pass.takes,
      List.replicate, hcap, hsplit]
  have htake : (waitSystem k n).exec (⟨Env.single, { Files.ofLive [] with
        live := none, processing := some ((it :: d :: ds).map Item.line) }, { Pass.fresh with
          pc := .loop, owned := [it], deferred := d :: ds, cap := 1 }⟩, w) [.act .run] =
      some (singleMine it (d :: ds) job, w) := by
    simp [waitSystem, queueSystem, Pass.next, Pass.step, Pass.fresh, Pass.takes, hkey, Pass.check,
      hgate, singleMine]
  rw [show toSingleMine = List.replicate 2 (QueueLabel.act .run) ++
    (List.replicate 3 (QueueLabel.act .run) ++ [QueueLabel.act .run]) from rfl,
    StepSystem.exec_append, hload, Option.bind_some, StepSystem.exec_append, hwrite,
    Option.bind_some, htake]

lemma exec_fromSingleMine (hwitness : job.preMineWitness = none) :
    (waitSystem k n).exec (singleMine it (d :: ds) job, w) (fromSingleMine e) =
      some (Queue.ofLines (e :: (d :: ds).map fun it => it.entry.carried), w + 1) := by
  have hends : (waitSystem k n).exec (singleMine it (d :: ds) job, w)
      [.post e, .act (.mineEnds .ok)] = some (⟨Env.single, { Files.ofLive [e] with
        processing := some ((it :: d :: ds).map Item.line) }, { Pass.fresh with
          pc := .boundary, deferred := d :: ds, mined := [(it, job)], cap := 1
          consumed := 1 }⟩, w) := by
    simp [waitSystem, queueSystem, Pass.next, Pass.fresh, Pass.takes, singleMine, Pass.settle,
      hwitness, Files.append, Files.ofLive]
  have hwrite : (waitSystem k n).exec (⟨Env.single, { Files.ofLive [e] with
        processing := some ((it :: d :: ds).map Item.line) }, { Pass.fresh with
          pc := .boundary, deferred := d :: ds, mined := [(it, job)], cap := 1
          consumed := 1 }⟩, w) (List.replicate 3 (.act .run)) =
      some (⟨Env.single, { Files.ofLive [e] with
        processing := some ((d :: ds).map Item.line) }, { Pass.fresh with
          pc := .loop, deferred := d :: ds, mined := [(it, job)], cap := 1
          consumed := 1 }⟩, w) := by
    simp [waitSystem, queueSystem, Pass.next, Pass.step, Pass.fresh, Pass.takes, List.replicate]
  have hfile : (waitSystem k n).exec (⟨Env.single, { Files.ofLive [e] with
        processing := some ((d :: ds).map Item.line) }, { Pass.fresh with
          pc := .loop, deferred := d :: ds, mined := [(it, job)], cap := 1
          consumed := 1 }⟩, w) (List.replicate 6 (QueueLabel.act .run) ++ [QueueLabel.again]) =
      some (Queue.ofLines (e :: (d :: ds).map fun it => it.entry.carried), w + 1) := rfl
  rw [show fromSingleMine e = [QueueLabel.post e, .act (.mineEnds .ok)] ++
    (List.replicate 3 (QueueLabel.act .run) ++
      (List.replicate 6 (QueueLabel.act .run) ++ [QueueLabel.again])) from rfl,
    StepSystem.exec_append, hends,
    Option.bind_some, StepSystem.exec_append, hwrite, Option.bind_some, hfile]

end single

/-! ### A target that waits for ever -/

lemma rotating_keys (dirs : List String) (c : ℕ) :
    (rotating dirs c).map dedupKey = (dirs ++ ["/z"]).map fun dir => dedupKey (.ofDir dir) := by
  rw [rotating, List.map_append, List.map_append]
  congr 1
  exact List.ext_getElem (by simp) fun i _ _ => by simp

/-- The pass takes the entry that was deferred five times; the one for `/z` is behind it. -/
lemma split_rotating {front : List String} {last : String} (hlength : front.length = 5)
    (hnodup : (front ++ [last] ++ ["/z"]).Nodup) (c : ℕ) :
    splitClaim 1 (dedup (rotating (front ++ [last]) c)) =
      ([.ofLine ((Entry.ofDir last).setDeferrals 5)], (rotating front c).map Item.ofLine) := by
  have hinj : Function.Injective fun dir => dedupKey (.ofDir dir) := by
    intro a b h
    exact String.toList_inj.1 (congrArg Prod.fst h)
  have hkeys : ((rotating (front ++ [last]) c).map dedupKey).Nodup := by
    rw [rotating_keys]
    exact hnodup.map hinj
  have hlines : rotating (front ++ [last]) c =
      front.mapIdx (fun i dir => (Entry.ofDir dir).setDeferrals i) ++
        (Entry.ofDir last).setDeferrals 5 :: [(Entry.ofDir "/z").setDeferrals c] := by
    rw [rotating, List.mapIdx_append, hlength]
    simp
  rw [dedup_of_nodup hkeys, hlines, List.map_append, List.map_cons, splitClaim,
    PrioritySplit.split_one]
  · rw [rotating, List.map_append]
  · rw [hlines] at hkeys
    have hnodup' := hkeys.of_map.map (f := Item.ofLine) fun a b h => congrArg Item.line h
    rwa [List.map_append, List.map_cons] at hnodup'
  · intro it hit
    obtain ⟨l, hl, rfl⟩ := List.mem_map.1 hit
    obtain ⟨i, hi, rfl⟩ := List.mem_mapIdx.1 hl
    rw [hlength] at hi
    have hpos : 0 < drainEntryPriority ((Entry.ofDir front[i]).setDeferrals i) := by
      have hlow : ¬ drainPriorityEscapeDeferrals ≤
          ((Entry.ofDir front[i]).setDeferrals i).drainDeferrals := not_le.2 hi
      rw [drainEntryPriority, if_neg hlow]
      split_ifs <;> decide
    exact hpos
  · intro it _
    exact Nat.zero_le _

/-- Five directories that may be mined. -/
lemma gate_sixDirs : ∀ dir ∈ sixDirs, ∃ job,
    gate Env.single [] ((Entry.ofDir dir).setDeferrals 5) = .spawn job ∧
      job.preMineWitness = none := by
  intro dir hdir
  fin_cases hdir <;> exact ⟨_, rfl, rfl⟩

/-- After any number of passes the request for `/z` is behind the six others. -/
lemma rotating_reachable (c : ℕ) : ∃ (front : List String) (last : String),
    (front ++ [last]).Perm sixDirs ∧
      (waitSystem (dedupKey (.ofDir "/z")) 6).Reachable
        (Queue.ofLines (rotating (front ++ [last]) c), c) := by
  induction c with
  | zero =>
      refine ⟨["/a", "/b", "/c", "/d", "/e"], "/f", .refl _, .init ⟨Queue.ofLines
        (sixDirs.mapIdx fun i dir => (Entry.ofDir dir).setDeferrals i), Entry.ofDir "/z",
        .init rfl, rfl, by decide, rfl⟩⟩
  | succ c ih =>
      obtain ⟨front, last, hperm, hreach⟩ := ih
      have hlength : front.length = 5 := by
        have hlength := hperm.length_eq
        rw [List.length_append, List.length_singleton] at hlength
        exact Nat.succ.inj hlength
      have hnodup : (front ++ [last] ++ ["/z"]).Nodup :=
        (hperm.append_right ["/z"]).nodup_iff.2 (by decide)
      obtain ⟨job, hgate, hwitness⟩ := gate_sixDirs last (hperm.mem_iff.1 (by simp))
      have hkey : dedupKey (.ofDir last) ≠ dedupKey (.ofDir "/z") := by
        intro h
        exact (List.nodup_append.1 hnodup).2.2 last (by simp) "/z" (by simp)
          (String.toList_inj.1 (congrArg Prod.fst h))
      have hsplit := split_rotating hlength hnodup c
      obtain ⟨d, ds, hds⟩ := List.exists_cons_of_ne_nil
        (l := (rotating front c).map Item.ofLine) (by simp [rotating])
      rw [hds] at hsplit
      have hmine := exec_toSingleMine (n := 6) (w := c) hsplit hgate hkey
      have hturn : (waitSystem (dedupKey (.ofDir "/z")) 6).exec
          (singleMine (.ofLine ((Entry.ofDir last).setDeferrals 5)) (d :: ds) _, c)
          (fromSingleMine (.ofDir last)) = _ := exec_fromSingleMine hwitness
      rw [← hds] at hmine hturn
      have hlines : Entry.ofDir last :: ((rotating front c).map Item.ofLine).map
          (fun it => it.entry.carried) = rotating (last :: front) (c + 1) := by
        rw [rotating, rotating, List.mapIdx_cons, List.map_append, List.map_append,
          List.cons_append]
        congr 2
        exact List.ext_getElem (by simp) fun i _ _ => by simp [Entry.carried]; rfl
      rw [hlines] at hturn
      obtain ⟨front', last', hlast⟩ : ∃ front' last', last :: front = front' ++ [last'] :=
        ⟨_, _, (List.dropLast_append_getLast (List.cons_ne_nil last front)).symm⟩
      refine ⟨front', last', ?_, hlast ▸ (hreach.exec hmine).exec hturn⟩
      rw [← hlast]
      exact (List.perm_append_singleton last front).symm.trans hperm

/-- A target waits for ever that keeps being deferred behind requests that are posted during the
mine of each pass. -/
theorem waits_unbounded : ¬ ∃ B : ℕ → ℕ → ℕ, ∀ (k : DedupKey) (n : ℕ) (q : Queue) (w : ℕ),
    (waitSystem k n).Reachable (q, w) → w ≤ B n q.cap := by
  rintro ⟨B, hB⟩
  obtain ⟨front, last, -, hreach⟩ := rotating_reachable (B 6 1 + 1)
  have hle : B 6 1 + 1 ≤ B 6 1 := hB _ _ _ _ hreach
  omega

end PalaceDaemon.Mines

/-
Failing file operations.

Any file operation of a pass may fail with an `OSError`; a write may fail after some of its
lines.  The helpers of the pass (`_recover_orphaned_processing`, `_rebalance_claim`,
`_write_processing`, `_defer_entries`) swallow the error and the pass goes on; at the end of
the pass the error leaves the `try`, and the pass returns with `.processing` in place
(`Pass.fail`).  The passes follow one another, each with any of its operations failing.

What a failure costs is what only the failing operation would have written or read, and the
pass then forgets (`Pass.dropped`): the arrivals that a boundary has renamed away, the
deferred entries, and what was to be quarantined or requeued.  Two more steps cost something,
although they succeed.  When the recovery has failed, the claim renames the live file over
`.processing`; and a quarantine file replaces the one of a pass that ended in the same second.
In runs without these (`Spares`) every request is still accounted for after a pass in which
nothing failed.
-/
import PalaceDaemon.Mines.Durability

namespace PalaceDaemon.Mines

/-! ### The failures -/

/-- `_write_processing` has logged its failure and returned. -/
def Pass.unwritten (p : Pass) : Pass :=
  { p with pc := if p.cancelling then .cancelledInReplay else .loop }

/-- The next file operation of the pass fails, a write after `n` of its lines.  There is
nothing to fail where the next step is no file operation. -/
def Pass.fail (f : Files) (p : Pass) (n : ℕ) : Option (Files × Pass) :=
  match p.pc with
  | .recover => if f.processing = none then none else some (f, { p with pc := .claim })
  | .recoverOpen _ => some (f, { p with pc := .claim })
  | .recoverAppend lines => some (f.append (lines.take n), { p with pc := .claim })
  | .recoverRemove => some (f, { p with pc := .claim })
  | .claim => if f.live = none then none else some (f, { p with pc := .done })
  | .load => some (f, { p with pc := .done })
  | .writeOpen _ => some (f, p.unwritten)
  | .writeLines lines => some ({ f with processing := some (lines.take n) }, p.unwritten)
  | .loop => none
  | .replaying _ => none
  | .boundary =>
      if p.cap ≤ p.consumed ∨ f.live = none then none
      else some (f, { p with pc := .rebalance [] })
  | .mergeRead => some (f, { p with pc := .mergeRemove [] })
  | .mergeRemove arrivals => some (f, { p with pc := .rebalance arrivals })
  | .rebalance _ => none
  | .deferOpen => if p.deferred = [] then none else some (f, { p with pc := .failOpen })
  | .deferWrite =>
      some (f.append ((p.deferred.map fun it => it.entry.carried).take n),
        { p with pc := .failOpen })
  | .failOpen => if p.failed = [] then none else some (f, { p with pc := .done })
  | .failWrite stamp =>
      some (f.setFailed stamp ((p.failed.map Item.line).take n), { p with pc := .done })
  | .requeueOpen => if p.requeue = [] then none else some (f, { p with pc := .done })
  | .requeueWrite =>
      some (f.append ((p.requeue.map Item.entry).take n), { p with pc := .done })
  | .sleeping => none
  | .remove => some (f, { p with pc := .done })
  | .done => none
  | .cancelledInReplay => none
  | .cancelledInDelay => none

/-- What one failure can do. -/
inductive Fails (n : ℕ) : Files → Pass → Files → Pass → Prop
  | recover {f p} : p.pc = .recover ∨ (∃ lines, p.pc = .recoverOpen lines) ∨
      p.pc = .recoverRemove → Fails n f p f { p with pc := .claim }
  | recoverAppend {f p lines} : p.pc = .recoverAppend lines →
      Fails n f p (f.append (lines.take n)) { p with pc := .claim }
  | returns {f p} : p.pc = .claim ∨ p.pc = .load ∨ p.pc = .remove →
      Fails n f p f { p with pc := .done }
  | writeOpen {f p lines} : p.pc = .writeOpen lines → Fails n f p f p.unwritten
  | writeLines {f p lines} : p.pc = .writeLines lines →
      Fails n f p { f with processing := some (lines.take n) } p.unwritten
  | boundary {f p} : p.pc = .boundary → Fails n f p f { p with pc := .rebalance [] }
  | mergeRead {f p} : p.pc = .mergeRead → Fails n f p f { p with pc := .mergeRemove [] }
  | mergeRemove {f p as} : p.pc = .mergeRemove as → Fails n f p f { p with pc := .rebalance as }
  | deferOpen {f p} : p.pc = .deferOpen → p.deferred ≠ [] →
      Fails n f p f { p with pc := .failOpen }
  | deferWrite {f p} : p.pc = .deferWrite →
      Fails n f p (f.append ((p.deferred.map fun it => it.entry.carried).take n))
        { p with pc := .failOpen }
  | failOpen {f p} : p.pc = .failOpen → p.failed ≠ [] → Fails n f p f { p with pc := .done }
  | failWrite {f p stamp} : p.pc = .failWrite stamp →
      Fails n f p (f.setFailed stamp ((p.failed.map Item.line).take n)) { p with pc := .done }
  | requeueOpen {f p} : p.pc = .requeueOpen → p.requeue ≠ [] →
      Fails n f p f { p with pc := .done }
  | requeueWrite {f p} : p.pc = .requeueWrite →
      Fails n f p (f.append ((p.requeue.map Item.entry).take n)) { p with pc := .done }

lemma fails_of_fail {f f' : Files} {p p' : Pass} {n : ℕ} (h : p.fail f n = some (f', p')) :
    Fails n f p f' p' := by
  unfold Pass.fail at h
  cases hpc : p.pc <;> simp only [hpc] at h <;>
    (try simp only [Option.ite_none_left_eq_some] at h) <;>
    simp only [Option.some.injEq, Prod.mk.injEq, reduceCtorEq] at h
  case recover => obtain ⟨-, rfl, rfl⟩ := h; exact .recover (.inl hpc)
  case recoverOpen lines => obtain ⟨rfl, rfl⟩ := h; exact .recover (.inr (.inl ⟨lines, hpc⟩))
  case recoverAppend => obtain ⟨rfl, rfl⟩ := h; exact .recoverAppend hpc
  case recoverRemove => obtain ⟨rfl, rfl⟩ := h; exact .recover (.inr (.inr hpc))
  case claim => obtain ⟨-, rfl, rfl⟩ := h; exact .returns (.inl hpc)
  case load => obtain ⟨rfl, rfl⟩ := h; exact .returns (.inr (.inl hpc))
  case writeOpen => obtain ⟨rfl, rfl⟩ := h; exact .writeOpen hpc
  case writeLines => obtain ⟨rfl, rfl⟩ := h; exact .writeLines hpc
  case boundary => obtain ⟨-, rfl, rfl⟩ := h; exact .boundary hpc
  case mergeRead => obtain ⟨rfl, rfl⟩ := h; exact .mergeRead hpc
  case mergeRemove => obtain ⟨rfl, rfl⟩ := h; exact .mergeRemove hpc
  case deferOpen => obtain ⟨hne, rfl, rfl⟩ := h; exact .deferOpen hpc hne
  case deferWrite => obtain ⟨rfl, rfl⟩ := h; exact .deferWrite hpc
  case failOpen => obtain ⟨hne, rfl, rfl⟩ := h; exact .failOpen hpc hne
  case failWrite => obtain ⟨rfl, rfl⟩ := h; exact .failWrite hpc
  case requeueOpen => obtain ⟨hne, rfl, rfl⟩ := h; exact .requeueOpen hpc hne
  case requeueWrite => obtain ⟨rfl, rfl⟩ := h; exact .requeueWrite hpc
  case remove => obtain ⟨rfl, rfl⟩ := h; exact .returns (.inr (.inr hpc))

/-- The lines that are nowhere any more when the next operation fails after `n` of its lines. -/
def Pass.dropped (f : Files) (p : Pass) (n : ℕ) : List Entry :=
  match p.pc with
  | .mergeRead => f.merge.getD []
  | .deferOpen => p.deferred.map fun it => it.entry.carried
  | .deferWrite => (p.deferred.map fun it => it.entry.carried).drop n
  | .failOpen => p.failed.map Item.line ++ p.requeue.map Item.entry
  | .failWrite _ => (p.failed.map Item.line).drop n ++ p.requeue.map Item.entry
  | .requeueOpen => p.requeue.map Item.entry
  | .requeueWrite => (p.requeue.map Item.entry).drop n
  | _ => []

/-! ### Passes one after the other -/

/-- What became of an entry that a pass took. -/
inductive Settlement
  | mined (it : Item) (job : Job)
  | rejected (it : Item) (rule : Rejection)
  | quarantined (it : Item)

def Settlement.item : Settlement → Item
  | .mined it _ => it
  | .rejected it _ => it
  | .quarantined it => it

/-- The passes of a daemon, its surroundings, and what has happened to the queue. -/
structure Passes where
  env : Env
  files : Files
  /-- The pass that runs, or the last one that ran. -/
  pass : Pass
  /-- The requests that were queued, each with the number of settlements before it. -/
  posted : List (Entry × ℕ)
  /-- What the passes have settled, in order. -/
  settled : List Settlement
  /-- An operation of this pass has failed. -/
  faulty : Bool

/-- What can happen next. -/
inductive PassesLabel
  | post (e : Entry)
  | change (env : Env)
  | act (a : Act)
  /-- The next operation fails, a write after so many of its lines. -/
  | fail (n : ℕ)
  /-- The pass has returned and the next one begins. -/
  | again

/-- The entries whose quarantine file is being written. -/
def Pass.quarantines (p : Pass) : List Item :=
  match p.pc with
  | .failWrite _ => p.failed
  | _ => []

/-- What a step from `p` to `p'` settles. -/
def Pass.settles (p p' : Pass) : List Settlement :=
  (p'.mined.drop p.mined.length).map (fun m => .mined m.1 m.2) ++
    (p'.skipped.drop p.skipped.length).map (fun r => .rejected r.1 r.2) ++
    p.quarantines.map .quarantined

/-- Passes one after the other, whose operations may fail. -/
def faultySystem : StepSystem Passes PassesLabel where
  init s := s.pass = .fresh ∧ s.settled = [] ∧ s.faulty = false ∧
    s.posted = (s.files.live.getD [] ++ s.files.processing.getD []).map fun e => (e, 0)
  next s
    | .post e => some { s with
        files := s.files.append [e], posted := s.posted ++ [(e, s.settled.length)] }
    | .change env => some { s with env := env }
    | .act a => (s.pass.next s.env s.files a).map fun fp => { s with
        files := fp.1, pass := fp.2, settled := s.settled ++ s.pass.settles fp.2 }
    | .fail n => (s.pass.fail s.files n).map fun fp => { s with
        files := fp.1, pass := fp.2
        settled := s.settled ++ (s.pass.quarantines.take n).map .quarantined, faulty := true }
    | .again => if s.pass.pc = .done then some { s with pass := .fresh, faulty := false } else none

/-- An entry of this key was settled; a quarantined one is in its file. -/
def Settlement.Shows (f : Files) (k : DedupKey) (x : Settlement) : Prop :=
  x.item.key = k ∧ ∀ it, x = .quarantined it → it.line ∈ f.failedLines

/-- Since it was posted, a request has been mined, rejected or quarantined, or it is in the live
file; another request for its directory, wing and mode may stand for it. -/
def Passes.Accounted (s : Passes) (r : Entry × ℕ) : Prop :=
  dedupKey r.1 ∈ (s.files.live.getD []).map dedupKey ∨
    ∃ x ∈ s.settled.drop r.2, x.Shows s.files (dedupKey r.1)

/-- A step that costs nothing: a failure drops no lines, a claim finds no lines in `.processing`
that are not in the live file too, and a quarantine file replaces none that has lines. -/
def Spares (s : Passes) : PassesLabel → Prop
  | .fail n => s.pass.dropped s.files n = []
  | .act _ =>
      (s.pass.pc = .claim → s.files.live ≠ none →
        ∀ l ∈ s.files.processing.getD [], l ∈ s.files.live.getD []) ∧
      (s.pass.pc = .failOpen → s.pass.failed ≠ [] →
        ∀ q ∈ s.files.failed, q.1 = s.env.stamp → q.2 = [])
  | _ => True

/-! ### Where a request is -/

/-- The places from which `.processing` is still going to be recovered. -/
def Pc.orphaned : Pc → Bool
  | .recover | .recoverOpen _ | .recoverAppend _ | .claim | .done => true
  | _ => false

/-- The lines that this pass or a later one is going to read. -/
def Pass.unread (f : Files) (p : Pass) : List Entry :=
  f.live.getD [] ++ p.waiting f ++ (if p.pc.orphaned then f.processing.getD [] else [])

/-- A request of this key is in a line still to be read, or in an entry the pass owes. -/
def Pass.InPlay (f : Files) (p : Pass) (k : DedupKey) : Prop :=
  k ∈ (p.unread f).map dedupKey ∨ k ∈ p.owes.map Item.key

/-- What the place in the code says about the files. -/
structure Pass.Steady (f : Files) (p : Pass) : Prop where
  shape : p.Shape f
  recovery : ∀ lines, p.pc = .recoverOpen lines ∨ p.pc = .recoverAppend lines →
    f.processing = some lines
  emptied : ∀ stamp, p.pc = .failWrite stamp → ∀ q ∈ f.failed, q.1 = stamp → q.2 = []

section moves

variable {env : Env} {f f' : Files} {p p' : Pass} {c : List Entry} {k : DedupKey}

lemma mem_unread {l : Entry} : l ∈ p.unread f ↔ l ∈ f.live.getD [] ∨ l ∈ p.waiting f ∨
    (p.pc.orphaned ∧ l ∈ f.processing.getD []) := by
  unfold Pass.unread
  cases p.pc.orphaned <;> simp

lemma mem_owes {it : Item} : it ∈ p.owes ↔ it ∈ p.owned ∨ p.current = some it ∨
    (p.pc.deferralsWritten = false ∧ it ∈ p.deferred) ∨
    (p.pc.failuresWritten = false ∧ it ∈ p.failed) ∨
    (p.pc.requeuesWritten = false ∧ it ∈ p.requeue) := by
  unfold Pass.owes
  cases p.pc.deferralsWritten <;> cases p.pc.failuresWritten <;>
    cases p.pc.requeuesWritten <;> simp

/-- A step that only takes lines and entries in. -/
lemma inPlay_mono (hunread : ∀ l ∈ p.unread f, l ∈ p'.unread f')
    (howes : ∀ it ∈ p.owes, it ∈ p'.owes) (h : p.InPlay f k) : p'.InPlay f' k := by
  rcases h with h | h
  · obtain ⟨l, hl, rfl⟩ := List.mem_map.1 h
    exact .inl (List.mem_map_of_mem (hunread l hl))
  · obtain ⟨it, hit, rfl⟩ := List.mem_map.1 h
    exact .inr (List.mem_map_of_mem (howes it hit))

/-! ### What one step keeps -/

/-- The entry of a mine that has returned 0 is settled. -/
lemma settles_mined {it : Item} {job : Job} (hmined : p'.mined = p.mined ++ [(it, job)]) :
    ∃ x ∈ p.settles p', x.Shows f' it.key :=
  ⟨.mined it job, by simp [Pass.settles, hmined], rfl, by simp⟩

/-- A rejected entry is settled. -/
lemma settles_rejected {it : Item} {rule : Rejection}
    (hskipped : p'.skipped = p.skipped ++ [(it, rule)]) : ∃ x ∈ p.settles p', x.Shows f' it.key :=
  ⟨.rejected it rule, by simp [Pass.settles, hskipped], rfl, by simp⟩

/-- The entries that a step takes from the pass are written to the live file. -/
lemma inPlay_handOver (its : List Item) (g : Item → Entry) (hg : ∀ it, dedupKey (g it) = it.key)
    (hlive : f'.live = some (f.live.getD [] ++ its.map g))
    (hunread : ∀ l ∈ p.unread f, l ∈ f.live.getD [])
    (howes : ∀ it ∈ p.owes, it ∈ its ∨ it ∈ p'.owes) (h : p.InPlay f k) : p'.InPlay f' k := by
  have hmem : ∀ l ∈ f.live.getD [] ++ its.map g, dedupKey l ∈ (p'.unread f').map dedupKey := by
    intro l hl
    refine List.mem_map_of_mem ?_
    rw [Pass.unread, hlive, Option.getD_some, List.append_assoc]
    exact List.mem_append_left _ hl
  rcases h with h | h
  · obtain ⟨l, hl, rfl⟩ := List.mem_map.1 h
    exact .inl (hmem l (List.mem_append_left _ (hunread l hl)))
  · obtain ⟨it, hit, rfl⟩ := List.mem_map.1 h
    rcases howes it hit with hits | hit
    · rw [← hg it]
      exact .inl (hmem _ (List.mem_append_right _ (List.mem_map_of_mem hits)))
    · exact .inr (List.mem_map_of_mem hit)

/-- The entries that a step takes from the pass are settled. -/
lemma inPlay_settle (its : List Item) {xs : List Settlement}
    (hits : ∀ it ∈ its, ∃ x ∈ xs, x.Shows f' it.key)
    (hunread : ∀ l ∈ p.unread f, l ∈ p'.unread f')
    (howes : ∀ it ∈ p.owes, it ∈ its ∨ it ∈ p'.owes) (h : p.InPlay f k) :
    p'.InPlay f' k ∨ ∃ x ∈ xs, x.Shows f' k := by
  rcases h with h | h
  · obtain ⟨l, hl, rfl⟩ := List.mem_map.1 h
    exact .inl (.inl (List.mem_map_of_mem (hunread l hl)))
  · obtain ⟨it, hit, rfl⟩ := List.mem_map.1 h
    rcases howes it hit with hit | hit
    · exact .inr (hits it hit)
    · exact .inl (.inr (List.mem_map_of_mem hit))

/-- A quarantined entry is in the file that was written for it. -/
lemma shows_quarantined (f : Files) (stamp : ℕ) {it : Item} (hit : it ∈ p.failed) :
    Settlement.Shows (f.setFailed stamp (p.failed.map Item.line)) it.key (.quarantined it) := by
  refine ⟨rfl, ?_⟩
  rintro it' ⟨⟩
  exact List.mem_flatMap.2 ⟨_, mem_setFailed f stamp _, List.mem_map_of_mem hit⟩

/-- The claim of a pass becomes its entries. -/
lemma inPlay_load {lines : List Entry} {batch deferred : List Item} (hs : p.Steady f)
    (hpc : p.pc = .load) (hproc : f.processing = some lines)
    (hsplit : splitClaim (drainBatchSize env.drainBatch) (dedup lines) = (batch, deferred))
    (hunread : ∀ l ∈ f.live.getD [], l ∈ p'.unread f)
    (howes : ∀ it ∈ batch ++ deferred, it ∈ p'.owes) (h : p.InPlay f k) : p'.InPlay f k := by
  have hnone : p.owes = [] := by
    simp [Pass.owes, hs.shape.early (by rw [hpc]; rfl)]
  have hlines : p.unread f = f.live.getD [] ++ lines := by
    simp [Pass.unread, Pass.waiting, hpc, Pc.orphaned, hproc]
  rcases h with h | h
  · rw [hlines, List.map_append, List.mem_append] at h
    rcases h with h | h
    · exact .inl (List.map_subset _ hunread h)
    · exact .inr (List.map_subset _ howes ((mem_keys_of_split hsplit).2 h))
  · rw [hnone] at h
    cases h

/-- The arrivals join the entries. -/
lemma inPlay_rebalance {as : List Entry} {keep displaced : List Item} {budget : ℕ}
    (hpc : p.pc = .rebalance as) (hrebalance : rebalance p.owned budget as = (keep, displaced))
    (hunread : ∀ l ∈ f.live.getD [], l ∈ p'.unread f)
    (howes : ∀ it, it ∈ keep ++ displaced ∨ it ∈ p.owes ∧ it ∉ p.owned → it ∈ p'.owes)
    (h : p.InPlay f k) : p'.InPlay f k := by
  have hlines : p.unread f = f.live.getD [] ++ as := by
    simp [Pass.unread, Pass.waiting, hpc, Pc.orphaned]
  have hkeys : k ∈ p.owned.map Item.key ∨ k ∈ as.map dedupKey → k ∈ p'.owes.map Item.key := by
    intro hk
    exact List.map_subset _ (fun it hit => howes it (.inl hit))
      ((mem_keys_of_rebalance hrebalance).2 hk)
  rcases h with h | h
  · rw [hlines, List.map_append, List.mem_append] at h
    rcases h with h | h
    · exact .inl (List.map_subset _ hunread h)
    · exact .inr (hkeys (.inr h))
  · obtain ⟨it, hit, rfl⟩ := List.mem_map.1 h
    by_cases howned : it ∈ p.owned
    · exact .inr (hkeys (.inl (List.mem_map_of_mem howned)))
    · exact .inr (List.mem_map_of_mem (howes it (.inr ⟨hit, howned⟩)))

lemma inPlay_moves (hm : Moves env f p c f' p') (hs : p.Steady f)
    (hclaim : p.pc = .claim → f.live ≠ none →
      ∀ l ∈ f.processing.getD [], l ∈ f.live.getD []) (h : p.InPlay f k) :
    p'.InPlay f' k ∨ ∃ x ∈ p.settles p', x.Shows f' k := by
  cases hm
  case recoverAppend lines hpc =>
    have hproc := hs.recovery lines (.inr hpc)
    refine .inl (inPlay_mono (fun l => ?_) (fun it => ?_) h)
    · simp [mem_unread, Pass.waiting, Pc.orphaned, hpc, hproc]
    · simp [mem_owes, hpc, Pc.deferralsWritten, Pc.failuresWritten, Pc.requeuesWritten]
  case claimNone hpc hlive =>
    have hearly := hs.shape.early (by rw [hpc]; rfl)
    refine .inl (inPlay_mono (fun l => ?_) (fun it => ?_) h)
    · simp [mem_unread, Pass.waiting, Pc.orphaned, hpc]
    · simp [mem_owes, hearly]
  case claim hpc hlive =>
    have hlines := hclaim hpc (by simp [hlive])
    rw [hlive, Option.getD_some] at hlines
    refine .inl (inPlay_mono (fun l => ?_) (fun it => ?_) h)
    · simp only [mem_unread, Pass.waiting, Pc.orphaned, hpc, hlive, Option.getD_some]
      rintro (hl | hl | ⟨-, hl⟩)
      · exact .inr (.inl hl)
      · cases hl
      · exact .inr (.inl (hlines l hl))
    · simp [mem_owes, hpc, Pc.deferralsWritten, Pc.failuresWritten, Pc.requeuesWritten]
  case loadNone hpc hproc =>
    have hearly := hs.shape.early (by rw [hpc]; rfl)
    refine .inl (inPlay_mono (fun l => ?_) (fun it => ?_) h)
    · simp [mem_unread, Pass.waiting, Pc.orphaned, hpc, hproc]
    · simp [mem_owes, hearly]
  case loadAll lines batch hpc hproc hsplit =>
    refine .inl (inPlay_load hs hpc hproc hsplit (fun l hl => ?_) (fun it hit => ?_) h)
    · exact mem_unread.2 (.inl hl)
    · exact mem_owes.2 (.inl (by simpa using hit))
  case loadSome lines batch deferred hpc hproc hsplit hne =>
    refine .inl (inPlay_load hs hpc hproc hsplit (fun l hl => ?_) (fun it hit => ?_) h)
    · exact mem_unread.2 (.inl hl)
    · rcases List.mem_append.1 hit with hit | hit
      · exact mem_owes.2 (.inl hit)
      · exact mem_owes.2 (.inr (.inr (.inl ⟨rfl, hit⟩)))
  case hold it owned why hpc howned hgate =>
    refine .inl (inPlay_mono (fun l => ?_) (fun it' => ?_) h)
    · simp [mem_unread, Pass.waiting, Pc.orphaned, hpc]
    · simp only [mem_owes, hpc, howned, Pc.deferralsWritten, Pc.failuresWritten,
        Pc.requeuesWritten, List.mem_cons, List.mem_append]
      grind
  case reject it owned rule hpc howned hgate =>
    refine inPlay_settle [it] (fun it' hit' => ?_) (fun l => ?_) (fun it' => ?_) h
    · obtain rfl := List.mem_singleton.1 hit'
      exact settles_rejected rfl
    · simp [mem_unread, Pass.waiting, Pc.orphaned, hpc]
    · simp only [mem_owes, hpc, howned, Pc.deferralsWritten, Pc.failuresWritten,
        Pc.requeuesWritten, List.mem_cons]
      grind
  case spawn it owned job hpc howned hgate =>
    have hnone := current_of_loop hs.shape hpc
    refine .inl (inPlay_mono (fun l => ?_) (fun it' => ?_) h)
    · simp [mem_unread, Pass.waiting, Pc.orphaned, hpc]
    · simp only [mem_owes, hpc, howned, hnone, Pc.deferralsWritten, Pc.failuresWritten,
        Pc.requeuesWritten, List.mem_cons, Option.some.injEq, reduceCtorEq, false_or,
        @eq_comm _ it it']
      grind
  case budgetSpent hpc hspent =>
    refine .inl (inPlay_mono (fun l => ?_) (fun it' => ?_) h)
    · simp [mem_unread, Pass.waiting, Pc.orphaned, hpc]
    · simp only [mem_owes, hpc, Pc.deferralsWritten, Pc.failuresWritten,
        Pc.requeuesWritten, List.mem_append]
      grind
  case rebalance as keep displaced hpc hrebalance =>
    refine .inl (inPlay_rebalance hpc hrebalance (fun l hl => ?_) (fun it hit => ?_) h)
    · exact mem_unread.2 (.inl hl)
    · simp only [mem_owes, hpc, Pc.deferralsWritten, Pc.failuresWritten, Pc.requeuesWritten,
        List.mem_append] at hit ⊢
      grind
  case deferWrite hpc =>
    refine .inl (inPlay_handOver p.deferred (fun it => it.entry.carried) (fun _ => rfl) rfl
      (fun l => ?_) (fun it => ?_) h)
    · simp [mem_unread, Pass.waiting, Pc.orphaned, hpc]
    · simp only [mem_owes, hpc, Pc.deferralsWritten, Pc.failuresWritten, Pc.requeuesWritten]
      grind
  case failWrite stamp hpc =>
    refine inPlay_settle p.failed (fun it hit => ?_) (fun l => ?_) (fun it => ?_) h
    · refine ⟨.quarantined it, ?_, shows_quarantined f stamp hit⟩
      simp [Pass.settles, Pass.quarantines, hpc, hit]
    · simp [mem_unread, Pass.waiting, Pc.orphaned, hpc]
    · simp only [mem_owes, hpc, Pc.deferralsWritten, Pc.failuresWritten, Pc.requeuesWritten]
      grind
  case requeueWrite hpc =>
    refine .inl (inPlay_handOver p.requeue Item.entry (fun _ => rfl) rfl
      (fun l => ?_) (fun it => ?_) h)
    · simp [mem_unread, Pass.waiting, Pc.orphaned, hpc]
    · simp only [mem_owes, hpc, Pc.deferralsWritten, Pc.failuresWritten, Pc.requeuesWritten]
      grind
  case mined job it hpc hcur hw =>
    refine inPlay_settle [it] (fun it' hit' => ?_) (fun l => ?_) (fun it' => ?_) h
    · obtain rfl := List.mem_singleton.1 hit'
      exact settles_mined rfl
    · simp [mem_unread, Pass.waiting, Pc.orphaned, hpc]
    · simp only [mem_owes, hpc, hcur, Pc.deferralsWritten, Pc.failuresWritten,
        Pc.requeuesWritten, List.mem_singleton, Option.some.injEq, @eq_comm _ it it']
      grind
  case minedWitness job it witness hpc hcur hw =>
    refine inPlay_settle [it] (fun it' hit' => ?_) (fun l => ?_) (fun it' => ?_) h
    · obtain rfl := List.mem_singleton.1 hit'
      exact settles_mined rfl
    · simp [mem_unread, Pass.waiting, Pc.orphaned, hpc]
    · simp only [mem_owes, hpc, hcur, Pc.deferralsWritten, Pc.failuresWritten,
        Pc.requeuesWritten, List.mem_singleton, Option.some.injEq, @eq_comm _ it it']
      grind
  case lockHeld job it hpc hcur hle =>
    refine .inl ?_
    rcases h with h | h
    · obtain ⟨l, hl, rfl⟩ := List.mem_map.1 h
      refine .inl (List.mem_map_of_mem ?_)
      simpa [mem_unread, Pass.waiting, Pc.orphaned, hpc] using hl
    · obtain ⟨it', hit', rfl⟩ := List.mem_map.1 h
      refine .inr ?_
      by_cases heq : it' = it
      · -- the entry that counts its retry has the same key
        subst heq
        refine List.mem_map.2 ⟨⟨it'.line, it'.entry.setLockRetries (it'.entry.lockRetries + 1)⟩,
          ?_, rfl⟩
        simp [mem_owes, Pc.requeuesWritten]
      · refine List.mem_map_of_mem ?_
        simp only [mem_owes, hpc, hcur, Pc.deferralsWritten, Pc.failuresWritten,
          Pc.requeuesWritten, List.mem_append, Option.some.injEq, @eq_comm _ it it'] at hit' ⊢
        grind
  case mineFailed job it hpc hcur =>
    refine .inl (inPlay_mono (fun l => ?_) (fun it' => ?_) h)
    · simp [mem_unread, Pass.waiting, Pc.orphaned, hpc]
    · simp only [mem_owes, hpc, hcur, Pc.deferralsWritten, Pc.failuresWritten,
        Pc.requeuesWritten, List.mem_append, List.mem_singleton, Option.some.injEq,
        @eq_comm _ it it']
      grind
  all_goals
    clear hclaim hs
    refine .inl (inPlay_mono (fun l => ?_) (fun it => ?_) h) <;> clear h
    · simp_all [mem_unread, Pass.waiting, Pc.orphaned]
    · simp_all [mem_owes, Pc.deferralsWritten, Pc.failuresWritten, Pc.requeuesWritten]

/-- A write that failed after all of its lines has written them. -/
lemma take_of_drop_nil {α : Type*} {xs : List α} {n : ℕ} (h : xs.drop n = []) :
    xs.take n = xs := by
  have happend := List.take_append_drop n xs
  rwa [h, List.append_nil] at happend

/-- A failed rewrite of `.processing` leaves the pass its entries. -/
lemma inPlay_unwritten {lines : List Entry}
    (hpc : p.pc = .writeOpen lines ∨ p.pc = .writeLines lines) (hlive : f'.live = f.live)
    (h : p.InPlay f k) : p.unwritten.InPlay f' k := by
  refine inPlay_mono (fun l hl => ?_) (fun it hit => ?_) h
  · refine mem_unread.2 (.inl ?_)
    rw [hlive]
    rcases hpc with hpc | hpc <;>
      simpa [mem_unread, Pass.waiting, Pc.orphaned, hpc] using hl
  · rw [mem_owes] at hit ⊢
    unfold Pass.unwritten
    rcases hpc with hpc | hpc <;> split_ifs <;>
      simpa [hpc, Pc.deferralsWritten, Pc.failuresWritten, Pc.requeuesWritten] using hit

/-- A failure that drops no lines. -/
lemma inPlay_fails {n : ℕ} (hf : Fails n f p f' p') (hs : p.Steady f)
    (hdropped : p.dropped f n = []) (h : p.InPlay f k) :
    p'.InPlay f' k ∨ ∃ x ∈ (p.quarantines.take n).map Settlement.quarantined, x.Shows f' k := by
  cases hf
  case recover hpc =>
    have hearly : p.pc.early = true := by rcases hpc with hpc | ⟨_, hpc⟩ | hpc <;> rw [hpc] <;> rfl
    refine .inl (inPlay_mono (fun l => ?_) (fun it => ?_) h)
    · rcases hpc with hpc | ⟨_, hpc⟩ | hpc <;>
        simp +contextual [mem_unread, Pass.waiting, Pc.orphaned, hpc]
    · simp [mem_owes, hs.shape.early hearly]
  case recoverAppend lines hpc =>
    have hproc := hs.recovery lines (.inr hpc)
    refine .inl (inPlay_mono (fun l => ?_) (fun it => ?_) h)
    · simp only [mem_unread, Pass.waiting, Pc.orphaned, hpc, hproc, append_live,
        append_processing, Option.getD_some, List.mem_append]
      grind
    · simp [mem_owes, hpc, Pc.deferralsWritten, Pc.failuresWritten, Pc.requeuesWritten]
  case returns hpc =>
    refine .inl (inPlay_mono (fun l => ?_) (fun it => ?_) h)
    · rcases hpc with hpc | hpc | hpc <;>
        simp +contextual [mem_unread, Pass.waiting, Pc.orphaned, hpc]
    · have hearly := hs.shape.early
      rcases hpc with hpc | hpc | hpc <;>
        simp_all [mem_owes, Pc.early, Pc.deferralsWritten, Pc.failuresWritten, Pc.requeuesWritten]
  case writeOpen lines hpc => exact .inl (inPlay_unwritten (f := f) (.inl hpc) rfl h)
  case writeLines lines hpc => exact .inl (inPlay_unwritten (f := f) (.inr hpc) rfl h)
  case mergeRead hpc =>
    have hmerge : f.merge.getD [] = [] := by simpa [Pass.dropped, hpc] using hdropped
    refine .inl (inPlay_mono (fun l => ?_) (fun it => ?_) h)
    · simp [mem_unread, Pass.waiting, Pc.orphaned, hpc, hmerge]
    · simp [mem_owes, hpc, Pc.deferralsWritten, Pc.failuresWritten, Pc.requeuesWritten]
  case deferOpen hpc hne => simp [Pass.dropped, hpc, hne] at hdropped
  case deferWrite hpc =>
    have hall : (p.deferred.map fun it => it.entry.carried).take n = _ :=
      take_of_drop_nil (by simpa [Pass.dropped, hpc] using hdropped)
    rw [hall]
    refine .inl (inPlay_handOver p.deferred (fun it => it.entry.carried) (fun _ => rfl) rfl
      (fun l => ?_) (fun it => ?_) h)
    · simp [mem_unread, Pass.waiting, Pc.orphaned, hpc]
    · simp only [mem_owes, hpc, Pc.deferralsWritten, Pc.failuresWritten, Pc.requeuesWritten]
      grind
  case failOpen hpc hne => simp [Pass.dropped, hpc, hne] at hdropped
  case failWrite stamp hpc =>
    have hdropped' : (p.failed.map Item.line).drop n = [] ∧ p.requeue = [] := by
      simpa [Pass.dropped, hpc] using hdropped
    have hitems : p.failed.take n = p.failed :=
      take_of_drop_nil (by simpa [List.map_drop] using hdropped'.1)
    rw [take_of_drop_nil hdropped'.1]
    refine inPlay_settle p.failed (fun it hit => ?_) (fun l => ?_) (fun it => ?_) h
    · refine ⟨.quarantined it, ?_, shows_quarantined f stamp hit⟩
      simp [Pass.quarantines, hpc, hitems, hit]
    · simp +contextual [mem_unread, Pass.waiting, Pc.orphaned, hpc]
    · simp only [mem_owes, hpc, hdropped'.2, Pc.deferralsWritten, Pc.failuresWritten,
        Pc.requeuesWritten]
      grind
  case requeueOpen hpc hne => simp [Pass.dropped, hpc, hne] at hdropped
  case requeueWrite hpc =>
    have hall : (p.requeue.map Item.entry).take n = _ :=
      take_of_drop_nil (by simpa [Pass.dropped, hpc] using hdropped)
    rw [hall]
    refine .inl (inPlay_handOver p.requeue Item.entry (fun _ => rfl) rfl
      (fun l => ?_) (fun it => ?_) h)
    · simp [mem_unread, Pass.waiting, Pc.orphaned, hpc]
    · simp only [mem_owes, hpc, Pc.deferralsWritten, Pc.failuresWritten, Pc.requeuesWritten]
      grind
  case boundary hpc =>
    refine .inl (inPlay_mono (fun l => ?_) (fun it => ?_) h)
    · simp [mem_unread, Pass.waiting, Pc.orphaned, hpc]
    · simp [mem_owes, hpc, Pc.deferralsWritten, Pc.failuresWritten, Pc.requeuesWritten]
  case mergeRemove as hpc =>
    refine .inl (inPlay_mono (fun l => ?_) (fun it => ?_) h)
    · simp [mem_unread, Pass.waiting, Pc.orphaned, hpc]
    · simp [mem_owes, hpc, Pc.deferralsWritten, Pc.failuresWritten, Pc.requeuesWritten]

/-! ### Quarantine files -/

/-- A quarantine file that replaces none with lines takes no line away. -/
lemma failedLines_setFailed {stamp : ℕ} (lines : List Entry)
    (hempty : ∀ q ∈ f.failed, q.1 = stamp → q.2 = []) :
    f.failedLines ⊆ (f.setFailed stamp lines).failedLines := by
  intro l hl
  obtain ⟨q, hq, hlq⟩ := List.mem_flatMap.1 hl
  refine List.mem_flatMap.2 ⟨q, List.mem_append_left _ (List.mem_filter.2 ⟨hq, ?_⟩), hlq⟩
  have hne : q.1 ≠ stamp := by
    intro heq
    rw [hempty q hq heq] at hlq
    cases hlq
  simpa using hne

lemma failedLines_moves (hm : Moves env f p c f' p')
    (hemptied : ∀ stamp, p.pc = .failWrite stamp → ∀ q ∈ f.failed, q.1 = stamp → q.2 = [])
    (hstamp : p.pc = .failOpen → p.failed ≠ [] → ∀ q ∈ f.failed, q.1 = env.stamp → q.2 = []) :
    f.failedLines ⊆ f'.failedLines := by
  cases hm
  case failOpen hpc hne => exact failedLines_setFailed _ (hstamp hpc hne)
  case failWrite stamp hpc => exact failedLines_setFailed _ (hemptied stamp hpc)
  all_goals exact fun l hl => hl

lemma failedLines_fails {n : ℕ} (hf : Fails n f p f' p')
    (hemptied : ∀ stamp, p.pc = .failWrite stamp → ∀ q ∈ f.failed, q.1 = stamp → q.2 = []) :
    f.failedLines ⊆ f'.failedLines := by
  cases hf
  case failWrite stamp hpc => exact failedLines_setFailed _ (hemptied stamp hpc)
  all_goals exact fun l hl => hl

/-- A quarantine file that has just been opened is empty. -/
lemma emptied_moves (hm : Moves env f p c f' p') {stamp : ℕ} (hpc : p'.pc = .failWrite stamp) :
    ∀ q ∈ f'.failed, q.1 = stamp → q.2 = [] := by
  cases hm
  case failOpen =>
    intro q hq heq
    obtain rfl : env.stamp = stamp := by simpa using hpc
    rcases List.mem_append.1 hq with hq | hq
    · exact absurd heq (by simpa using (List.mem_filter.1 hq).2)
    · rw [List.mem_singleton.1 hq]
  all_goals simp_all

lemma unwritten_pc (p : Pass) : p.unwritten.pc = .cancelledInReplay ∨ p.unwritten.pc = .loop := by
  unfold Pass.unwritten
  split_ifs <;> simp

/-- A failed operation does not go on to write a quarantine file. -/
lemma fails_pc {n : ℕ} (hf : Fails n f p f' p') (stamp : ℕ) : p'.pc ≠ .failWrite stamp := by
  cases hf
  case writeOpen => rcases unwritten_pc p with hpc | hpc <;> simp [hpc]
  case writeLines => rcases unwritten_pc p with hpc | hpc <;> simp [hpc]
  all_goals simp

/-! ### Steadiness -/

lemma steady_fresh (f : Files) : Pass.fresh.Steady f where
  shape := shape_fresh f
  recovery lines h := by simp [Pass.fresh] at h
  emptied stamp h := by simp [Pass.fresh] at h

lemma steady_moves (hm : Moves env f p c f' p') (hs : p.Steady f) : p'.Steady f' := by
  refine ⟨shape_moves hm hs.shape, ?_, fun stamp hpc => emptied_moves hm hpc⟩
  have hrecovery := hs.recovery
  cases hm <;> simp_all

lemma shape_unwritten {lines : List Entry}
    (hpc : p.pc = .writeOpen lines ∨ p.pc = .writeLines lines) (h : p.Shape f) :
    p.unwritten.Shape f' := by
  obtain ⟨hearly, hcur, hcan, howned, hq⟩ := h
  unfold Pass.unwritten
  rcases hpc with hpc | hpc <;> split_ifs <;> constructor <;>
    simp_all [Pc.early, Pc.finally, Pc.loopEnded, Pc.failuresWritten]

lemma shape_fails {n : ℕ} (hf : Fails n f p f' p') (hdropped : p.dropped f n = [])
    (h : p.Shape f) : p'.Shape f' := by
  obtain ⟨hearly, hcur, hcan, howned, hq⟩ := h
  cases hf
  case recover hpc =>
    rcases hpc with hpc | ⟨_, hpc⟩ | hpc <;> constructor <;>
      simp_all [Pc.early, Pc.finally, Pc.loopEnded, Pc.failuresWritten]
  case returns hpc =>
    rcases hpc with hpc | hpc | hpc <;> constructor <;>
      simp_all [Pc.early, Pc.finally, Pc.loopEnded, Pc.failuresWritten]
  case writeOpen hpc => exact shape_unwritten (.inl hpc) ⟨hearly, hcur, hcan, howned, hq⟩
  case writeLines hpc => exact shape_unwritten (.inr hpc) ⟨hearly, hcur, hcan, howned, hq⟩
  case failWrite stamp hpc =>
    have hall : (p.failed.map Item.line).drop n = [] ∧ p.requeue = [] := by
      simpa [Pass.dropped, hpc] using hdropped
    rw [take_of_drop_nil hall.1]
    refine ⟨by simp [Pc.early], by simp_all [Pc.finally], by simp_all [Pc.finally], ?_, ?_⟩
    · exact fun _ => howned (by rw [hpc]; rfl)
    · exact fun _ => .inr ⟨stamp, mem_setFailed f stamp _⟩
  all_goals
    constructor <;> simp_all [Pc.early, Pc.finally, Pc.loopEnded, Pc.failuresWritten,
      Pass.dropped]

lemma steady_fails {n : ℕ} (hf : Fails n f p f' p') (hdropped : p.dropped f n = [])
    (hs : p.Steady f) : p'.Steady f' := by
  refine ⟨shape_fails hf hdropped hs.shape, ?_, fun stamp hpc => absurd hpc (fails_pc hf stamp)⟩
  cases hf
  case writeOpen => rcases unwritten_pc p with hpc | hpc <;> simp [hpc]
  case writeLines => rcases unwritten_pc p with hpc | hpc <;> simp [hpc]
  all_goals simp

/-- A pass in which nothing failed leaves no `.processing` behind. -/
lemma processing_moves (hm : Moves env f p c f' p')
    (h : p.pc = .claim ∨ p.pc = .done → f.processing = none) :
    p'.pc = .claim ∨ p'.pc = .done → f'.processing = none := by
  cases hm <;> simp_all

end moves

/-! ### Runs -/

/-- What holds throughout a run. -/
structure Passes.Tracked (s : Passes) : Prop where
  steady : s.pass.Steady s.files
  clean : s.faulty = false → s.pass.pc = .claim ∨ s.pass.pc = .done → s.files.processing = none
  since : ∀ r ∈ s.posted, r.2 ≤ s.settled.length
  held : ∀ r ∈ s.posted, s.pass.InPlay s.files (dedupKey r.1) ∨
    ∃ x ∈ s.settled.drop r.2, x.Shows s.files (dedupKey r.1)

variable {s s' : Passes}

lemma passes_tracked_init (h : faultySystem.init s) : s.Tracked := by
  obtain ⟨hpass, hsettled, -, hposted⟩ := h
  refine ⟨?_, fun _ hpc => ?_, fun r hr => ?_, fun r hr => .inl (.inl ?_)⟩
  · rw [hpass]
    exact steady_fresh s.files
  · rw [hpass] at hpc
    simp [Pass.fresh] at hpc
  · rw [hposted] at hr
    obtain ⟨e, -, rfl⟩ := List.mem_map.1 hr
    exact Nat.zero_le _
  · rw [hposted] at hr
    obtain ⟨e, he, rfl⟩ := List.mem_map.1 hr
    rw [hpass]
    refine List.mem_map_of_mem ?_
    simpa [mem_unread, Pass.waiting, Pass.fresh, Pc.orphaned] using he

/-- A settlement that is shown stays shown while no quarantined line is lost. -/
lemma Settlement.Shows.mono {x : Settlement} {f f' : Files} {k : DedupKey} (h : x.Shows f k)
    (hfailed : f.failedLines ⊆ f'.failedLines) : x.Shows f' k :=
  ⟨h.1, fun it hx => hfailed (h.2 it hx)⟩

/-- The requests of a step that settles `xs`. -/
lemma tracked_of_step {files : Files} {pass : Pass} {xs : List Settlement} {faulty : Bool}
    (h : s.Tracked) (hsteady : pass.Steady files)
    (hclean : faulty = false → pass.pc = .claim ∨ pass.pc = .done → files.processing = none)
    (hfailed : s.files.failedLines ⊆ files.failedLines)
    (hplay : ∀ k, s.pass.InPlay s.files k → pass.InPlay files k ∨ ∃ x ∈ xs, x.Shows files k) :
    Passes.Tracked { s with files, pass, settled := s.settled ++ xs, faulty } := by
  refine ⟨hsteady, hclean, fun r hr => ?_, fun r hr => ?_⟩
  · rw [List.length_append]
    exact (h.since r hr).trans (Nat.le_add_right _ _)
  · have hdrop : (s.settled ++ xs).drop r.2 = s.settled.drop r.2 ++ xs :=
      List.drop_append_of_le_length (h.since r hr)
    dsimp only
    rw [hdrop]
    rcases h.held r hr with hheld | ⟨x, hx, hshows⟩
    · rcases hplay _ hheld with hheld | ⟨x, hx, hshows⟩
      · exact .inl hheld
      · exact .inr ⟨x, List.mem_append_right _ hx, hshows⟩
    · exact .inr ⟨x, List.mem_append_left _ hx, hshows.mono hfailed⟩

lemma passes_tracked_post (h : s.Tracked) (e : Entry) : Passes.Tracked { s with
    files := s.files.append [e], posted := s.posted ++ [(e, s.settled.length)] } := by
  obtain ⟨⟨hshape, hrecovery, hemptied⟩, hclean, hsince, hheld⟩ := h
  refine ⟨⟨⟨hshape.1, hshape.2, hshape.3, hshape.4, hshape.5⟩, hrecovery, hemptied⟩, hclean,
    fun r hr => ?_, fun r hr => ?_⟩
  · rcases List.mem_append.1 hr with hr | hr
    · exact hsince r hr
    · rw [List.mem_singleton.1 hr]
  · rcases List.mem_append.1 hr with hr | hr
    · rcases hheld r hr with hheld | hheld
      · refine .inl (inPlay_mono (fun l hl => ?_) (fun it hit => hit) hheld)
        rw [mem_unread] at hl ⊢
        exact hl.imp (fun hl => by simp [hl]) id
      · exact .inr hheld
    · rw [List.mem_singleton.1 hr]
      exact .inl (.inl (List.mem_map_of_mem (mem_unread.2 (.inl (by simp)))))

lemma passes_tracked_again (h : s.Tracked) (hdone : s.pass.pc = .done) :
    Passes.Tracked { s with pass := .fresh, faulty := false } := by
  refine ⟨steady_fresh s.files, fun _ hpc => by simp [Pass.fresh] at hpc, h.since,
    fun r hr => (h.held r hr).imp_left fun hheld => ?_⟩
  have hcurrent : s.pass.current = none := by
    have hcur := h.steady.shape.current
    have hcan := h.steady.shape.cancelling
    simp_all [Pc.finally]
  have howned := h.steady.shape.owned (by rw [hdone]; rfl)
  refine inPlay_mono (fun l hl => ?_) (fun it hit => ?_) hheld
  · simpa [mem_unread, Pass.waiting, hdone, Pc.orphaned, Pass.fresh] using hl
  · simp [mem_owes, hdone, howned, hcurrent, Pc.deferralsWritten, Pc.failuresWritten,
      Pc.requeuesWritten] at hit

lemma passes_tracked_next {l : PassesLabel} (h : s.Tracked) (hspares : Spares s l)
    (hnext : faultySystem.next s l = some s') : s'.Tracked := by
  cases l with
  | post e =>
      obtain rfl := Option.some.inj hnext
      exact passes_tracked_post h e
  | change env =>
      obtain rfl := Option.some.inj hnext
      exact ⟨h.steady, h.clean, h.since, h.held⟩
  | act a =>
      obtain ⟨⟨files, pass⟩, hmove, rfl⟩ := Option.map_eq_some_iff.1 hnext
      have hm := moves_of_next hmove
      refine tracked_of_step h (steady_moves hm h.steady) (fun hfaulty => ?_)
        (failedLines_moves hm h.steady.emptied hspares.2)
        fun k => inPlay_moves hm h.steady hspares.1
      exact processing_moves hm (h.clean hfaulty)
  | fail n =>
      obtain ⟨⟨files, pass⟩, hfail, rfl⟩ := Option.map_eq_some_iff.1 hnext
      have hf := fails_of_fail hfail
      exact tracked_of_step h (steady_fails hf hspares h.steady) (by simp)
        (failedLines_fails hf h.steady.emptied) fun k => inPlay_fails hf h.steady hspares
  | again =>
      obtain ⟨hdone, hnext⟩ := Option.ite_none_right_eq_some.1 hnext
      obtain rfl := Option.some.inj hnext
      exact passes_tracked_again h hdone

/-- **Failing operations.**  In a run whose failures drop no lines, whose claims find no lines
in `.processing` that are not in the live file too, and whose quarantine files replace none
with lines, every request is accounted for when a pass in which nothing failed has returned:
since it was posted it has been mined, rejected or quarantined, or it is in the live file. -/
theorem faults_lose_nothing (h : faultySystem.ReachedBy Spares s) (hdone : s.pass.pc = .done)
    (hclean : s.faulty = false) : ∀ r ∈ s.posted, s.Accounted r := by
  intro r hr
  have htracked : s.Tracked := h.invariant (fun _ => passes_tracked_init)
    fun _ _ _ hs hspares => passes_tracked_next hs hspares
  have hcurrent : s.pass.current = none := by
    have hcur := htracked.steady.shape.current
    have hcan := htracked.steady.shape.cancelling
    simp_all [Pc.finally]
  have howned := htracked.steady.shape.owned (by rw [hdone]; rfl)
  have hproc := htracked.clean hclean (.inr hdone)
  refine (htracked.held r hr).imp_left fun hheld => ?_
  rcases hheld with hheld | hheld
  · simpa [Pass.unread, Pass.waiting, hdone, hproc, Pc.orphaned] using hheld
  · obtain ⟨it, hit, -⟩ := List.mem_map.1 hheld
    simp [mem_owes, hdone, howned, hcurrent, Pc.deferralsWritten, Pc.failuresWritten,
      Pc.requeuesWritten] at hit

/-! ### Two failures -/

instance (s : Passes) : (l : PassesLabel) → Decidable (Spares s l)
  | .fail _ => inferInstanceAs (Decidable (_ = _))
  | .act _ => inferInstanceAs (Decidable (_ ∧ _))
  | .post _ => inferInstanceAs (Decidable True)
  | .change _ => inferInstanceAs (Decidable True)
  | .again => inferInstanceAs (Decidable True)

/-- Two requests, and room for one in a pass. -/
def twoPasses : Passes where
  env := { Env.plain with drainBatch := some 1 }
  files := .ofLive [.ofDir "/a", .ofDir "/b"]
  pass := .fresh
  posted := [(.ofDir "/a", 0), (.ofDir "/b", 0)]
  settled := []
  faulty := false

lemma twoPasses_init : faultySystem.init twoPasses := ⟨rfl, rfl, rfl, rfl⟩

/-- The first pass, up to the end of its replay loop. -/
def firstPass : List PassesLabel :=
  List.replicate 6 (PassesLabel.act .run) ++ [PassesLabel.act (.mineEnds .ok)] ++
    List.replicate 4 (PassesLabel.act .run)

/-- `.processing` cannot be removed at the end of the first pass, and the second one recovers
it. -/
def removeFails : List PassesLabel :=
  firstPass ++ List.replicate 4 (PassesLabel.act .run) ++ [PassesLabel.fail 0, .again] ++
    List.replicate 7 (PassesLabel.act .run) ++ [PassesLabel.act (.mineEnds .ok)] ++
    List.replicate 8 (PassesLabel.act .run)

/-- After the two passes both requests are mined. -/
theorem faults_lose_nothing_remove : ∃ s : Passes, s.settled.length = 2 ∧
    s.posted.length = 2 ∧ ∀ r ∈ s.posted, s.Accounted r := by
  have hstart : faultySystem.ReachedBy Spares twoPasses := .init twoPasses_init
  obtain ⟨s, hreached, hend⟩ := hstart.exists_of_execBy_any removeFails
    (fun s => decide (s.pass.pc = .done ∧ s.faulty = false ∧ s.settled.length = 2 ∧
      s.posted.length = 2)) (by decide)
  obtain ⟨hdone, hclean, hsettled, hposted⟩ := of_decide_eq_true hend
  exact ⟨s, hsettled, hposted, faults_lose_nothing hreached hdone hclean⟩

/-- The deferred entry cannot be appended to the queue, and the pass removes `.processing`. -/
def deferFails : List PassesLabel :=
  firstPass ++ [PassesLabel.fail 0] ++ List.replicate 3 (PassesLabel.act .run) ++
    [PassesLabel.again] ++ List.replicate 2 (PassesLabel.act .run)

/-- The keys that account for requests. -/
def Passes.accountedKeys (s : Passes) : List DedupKey :=
  (s.files.live.getD []).map dedupKey ++ s.settled.map (·.item.key)

lemma Passes.Accounted.key_mem {r : Entry × ℕ} (h : s.Accounted r) :
    dedupKey r.1 ∈ s.accountedKeys := by
  rcases h with h | ⟨x, hx, hkey, -⟩
  · exact List.mem_append_left _ h
  · exact List.mem_append_right _ (List.mem_map.2 ⟨x, List.mem_of_mem_drop hx, hkey⟩)

/-- After the second pass, which finds no queue, the deferred request is nowhere. -/
theorem faults_lose_nothing_fails : ∃ s : Passes, faultySystem.exec twoPasses deferFails = some s ∧
    s.pass.pc = .done ∧ s.faulty = false ∧ ∃ r ∈ s.posted, ¬ s.Accounted r := by
  obtain ⟨s, hs, hend⟩ := faultySystem.exists_of_exec_any twoPasses deferFails
    (fun s => decide (s.pass.pc = .done ∧ s.faulty = false ∧ (.ofDir "/b", 0) ∈ s.posted ∧
      dedupKey (.ofDir "/b") ∉ s.accountedKeys)) (by decide)
  obtain ⟨hdone, hclean, hposted, hkeys⟩ := of_decide_eq_true hend
  exact ⟨s, hs, hdone, hclean, _, hposted, fun haccounted => hkeys haccounted.key_mem⟩

end PalaceDaemon.Mines

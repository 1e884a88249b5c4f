/-
The markers count the benches, as long as the scripts keep out of each other's way.

`Orderly` says when they do.  A release has the PID of its bench's acquire; an acquire has the PID
of no other bench that is registered or about to be; and no acquire is at work while the last
release restores the model, from the listing in which it found no marker on.

`Counted` is what every such step keeps: the markers are the PIDs of the registered benches, a
release that is to restore the model found no marker because there is none, and the extractor is
stopped when there is a marker unless an acquire is about to stop it, and running when there is
none unless a release is about to start it.
-/
import PalaceDaemon.Bench.Lock

namespace PalaceDaemon.Bench

namespace Phase

/-- The PID of the marker that the bench has in the directory. -/
def marked : Phase → Option ℕ
  | acquiring pid .stop => some pid
  | held pid => some pid
  | releasing pid .testDir => some pid
  | releasing pid .testMarker => some pid
  | releasing pid .removeMarker => some pid
  | _ => none

/-- The PID of the marker that the bench has or is going to make. -/
def claims : Phase → Option ℕ
  | acquiring pid _ => some pid
  | ph => ph.marked

/-- `acquire` is at work. -/
def isAcquiring : Phase → Bool
  | acquiring _ _ => true
  | _ => false

/-- `acquire` has found no other bench and is about to stop the extractor. -/
def stopping : Phase → Bool
  | acquiring _ .stop => true
  | _ => false

/-- `release` has found no marker and is about to start the extractor. -/
def restoring : Phase → Bool
  | releasing _ .rmdir => true
  | releasing _ .start => true
  | _ => false

/-- `release` has found no marker, or will if there is none. -/
def closing : Phase → Bool
  | releasing _ (.counting .testDir) => true
  | releasing _ (.counting .list) => true
  | releasing _ (.counting (.count [] 0 _)) => true
  | ph => ph.restoring

/-- `acquire` has found or made the directory and has yet to make its marker. -/
def needsDir : Phase → Bool
  | acquiring _ .testDir => true
  | acquiring _ (.counting _) => true
  | acquiring _ (.touch _) => true
  | _ => false

/-- `acquire` has seen the marker of another bench. -/
def seen : Phase → Bool
  | acquiring _ (.counting (.count _ live _)) => 0 < live
  | acquiring _ (.touch before) => 0 < before
  | _ => false

/-- What a release that has seen no marker yet has still to test, and when it was listed. -/
def unseen : Phase → Option (List Marker × ℕ)
  | releasing _ (.counting (.count names 0 made)) => some (names, made)
  | _ => none

/-- The scripts do nothing about a legacy lock, and `acquire` does not fail. -/
def usual : Phase → Bool
  | acquiring _ .removeFile => false
  | acquiring _ .mkdirLegacy => false
  | acquiring _ .touchLegacy => false
  | releasing _ .testLegacy => false
  | releasing _ .removeLegacy => false
  | failed => false
  | _ => true

end Phase

/-- The release is about to find that there is no marker. -/
def State.findsNone (s : State) (c : Counting) : Prop := c.next s.lock s.made = .inr 0

/-- The scripts keep out of each other's way. -/
def Orderly (s : State) : Label → Prop
  | .acquire _ pid => (∀ b', (s.bench b').claims ≠ some pid) ∧ ∀ b', (s.bench b').restoring = false
  | .release b pid => ∀ p, s.bench b = .held p → pid = p
  | .step b => ∀ pid c, s.bench b = .releasing pid (.counting c) → s.findsNone c →
      (∀ b', (s.bench b').isAcquiring = false) ∧
        ∀ names live made, c = .count names live made → made = s.made

/-- The markers are the registered benches, and the extractor follows them. -/
structure Counted (s : State) : Prop where
  notFile : s.lock ≠ .file
  usual : ∀ b, (s.bench b).usual = true
  markers : ∀ m, m ∈ s.lock.markers ↔ ∃ b p, (s.bench b).marked = some p ∧ m = .pid p
  distinct : ∀ b b' p, (s.bench b).claims = some p → (s.bench b').claims = some p → b = b'
  dir : ∀ b, (s.bench b).needsDir = true → s.lock.isDir = true
  restoring : ∀ b, (s.bench b).restoring = true →
    s.lock.markers = [] ∧ ∀ b', (s.bench b').isAcquiring = false
  unseen : ∀ b names made, (s.bench b).unseen = some (names, made) →
    made ≤ s.made ∧ (made = s.made → ∀ m ∈ s.lock.markers, m ∈ names)
  seen : ∀ b, (s.bench b).seen = true → s.extractor = true → ∃ b', (s.bench b').stopping = true
  off : s.extractor = false → s.lock.markers = [] → ∃ b, (s.bench b).closing = true
  on : s.extractor = true → s.lock.markers ≠ [] → ∃ b, (s.bench b).stopping = true

variable {s s' : State} {b pid : ℕ} {ph : Phase}

@[simp] lemma bench_set (b' : ℕ) : (s.set b ph).bench b' = if b' = b then ph else s.bench b' :=
  Function.update_apply _ _ _ _

/-- A step that leaves the markers as they are. -/
lemma Counted.of_markers (h : Counted s)
    (hbench : ∀ b', s'.bench b' = if b' = b then ph else s.bench b') (hmade : s'.made = s.made)
    (hmarkers : s'.lock.markers = s.lock.markers) (hmarked : ph.marked = (s.bench b).marked)
    (hclaims : ∀ p, ph.claims = some p → ∀ b', (s.bench b').claims = some p → b' = b)
    (hacquiring : ph.isAcquiring = true → ∀ b', (s.bench b').restoring = false)
    (hfile : s'.lock ≠ .file) (husual : ph.usual = true)
    (hdir : ∀ b', (s'.bench b').needsDir = true → s'.lock.isDir = true)
    (hrestoring : ph.restoring = true →
      s.lock.markers = [] ∧ ∀ b', (s.bench b').isAcquiring = false)
    (hunseen : ∀ names made, ph.unseen = some (names, made) →
      made ≤ s.made ∧ (made = s.made → ∀ m ∈ s.lock.markers, m ∈ names))
    (hseen : ∀ b', (s'.bench b').seen = true → s'.extractor = true →
      ∃ b', (s'.bench b').stopping = true)
    (hoff : s'.extractor = false → s.lock.markers = [] → ∃ b', (s'.bench b').closing = true)
    (hon : s'.extractor = true → s.lock.markers ≠ [] → ∃ b', (s'.bench b').stopping = true) :
    Counted s' where
  notFile := hfile
  usual b' := by
    rw [hbench]
    split_ifs
    · exact husual
    · exact h.usual b'
  markers m := by
    have hsame : ∀ b', (s'.bench b').marked = (s.bench b').marked := by
      intro b'
      rw [hbench]
      split_ifs with heq
      · rw [heq, hmarked]
      · rfl
    simp only [hmarkers, h.markers m, hsame]
  distinct b₁ b₂ p h₁ h₂ := by
    rw [hbench] at h₁ h₂
    split_ifs at h₁ h₂ with heq₁ heq₂ heq₂
    · rw [heq₁, heq₂]
    · rw [heq₁, hclaims p h₁ b₂ h₂]
    · rw [heq₂, hclaims p h₂ b₁ h₁]
    · exact h.distinct b₁ b₂ p h₁ h₂
  dir := hdir
  restoring b' hb' := by
    rw [hbench] at hb'
    rw [hmarkers]
    have hall : s.lock.markers = [] ∧ ∀ b', (s.bench b').isAcquiring = false := by
      split_ifs at hb' with heq
      · exact hrestoring hb'
      · exact h.restoring b' hb'
    refine ⟨hall.1, fun b'' => ?_⟩
    rw [hbench]
    split_ifs with heq''
    · -- a new acquire while another one restores, or the one that restores itself
      by_contra hacq
      have hacq' : ph.isAcquiring = true := by simpa using hacq
      split_ifs at hb' with heq
      · cases ph <;> simp [Phase.restoring, Phase.isAcquiring] at hb' hacq'
      · rw [hacquiring hacq' b'] at hb'
        cases hb'
    · exact hall.2 b''
  unseen b' names made hb' := by
    rw [hbench] at hb'
    rw [hmade, hmarkers]
    split_ifs at hb' with heq
    · exact hunseen names made hb'
    · exact h.unseen b' names made hb'
  seen := hseen
  off := by rw [hmarkers]; exact hoff
  on := by rw [hmarkers]; exact hon

/-! ### Steps that only move a script -/

lemma claims_of_marked {p : ℕ} (h : ph.marked = some p) : ph.claims = some p := by
  cases ph with
  | acquiring pid pc =>
      cases pc <;> simp only [Phase.marked, reduceCtorEq] at h
      exact h
  | idle | released | failed => cases h
  | held | releasing => exact h

/-- The bench claims no more than it did. -/
lemma Counted.claims_eq (h : Counted s)
    (hsame : ∀ p, ph.claims = some p → (s.bench b).claims = some p) (p : ℕ)
    (hp : ph.claims = some p) (b' : ℕ) (hb' : (s.bench b').claims = some p) : b' = b :=
  h.distinct b' b p hb' (hsame p hp)

/-- No release restores the model while an acquire is at work. -/
lemma Counted.not_restoring (h : Counted s) (hb : (s.bench b).isAcquiring = true) (b' : ℕ) :
    (s.bench b').restoring = false := by
  by_contra hrestoring
  have := (h.restoring b' (by simpa using hrestoring)).2 b
  rw [hb] at this
  cases this

/-- A witness among the benches that is not the one that moves. -/
lemma exists_set {flag : Phase → Bool} (hb : flag (s.bench b) = true → flag ph = true)
    (h : ∃ b', flag (s.bench b') = true) : ∃ b', flag ((s.set b ph).bench b') = true := by
  obtain ⟨b', hb'⟩ := h
  refine ⟨b', ?_⟩
  rw [bench_set]
  split_ifs with heq
  · exact hb (heq ▸ hb')
  · exact hb'

/-- A step that changes nothing but where the script is. -/
lemma Counted.quiet (h : Counted s) (hmarked : ph.marked = (s.bench b).marked)
    (hclaims : ∀ p, ph.claims = some p → ∀ b', (s.bench b').claims = some p → b' = b)
    (hacquiring : ph.isAcquiring = true → ∀ b', (s.bench b').restoring = false)
    (husual : ph.usual = true) (hdir : ph.needsDir = true → s.lock.isDir = true)
    (hrestoring : ph.restoring = true →
      s.lock.markers = [] ∧ ∀ b', (s.bench b').isAcquiring = false)
    (hunseen : ∀ names made, ph.unseen = some (names, made) →
      made ≤ s.made ∧ (made = s.made → ∀ m ∈ s.lock.markers, m ∈ names))
    (hseen : ph.seen = true → s.lock.markers ≠ [] ∨ (s.bench b).seen = true)
    (hstop : (s.bench b).stopping = true → ph.stopping = true)
    (hclosing : (s.bench b).closing = true → s.lock.markers = [] → ph.closing = true) :
    Counted (s.set b ph) := by
  refine h.of_markers (fun b' => bench_set b') rfl rfl hmarked hclaims hacquiring h.notFile
    husual ?_ hrestoring hunseen ?_ ?_ ?_
  · intro b' hb'
    rw [bench_set] at hb'
    split_ifs at hb'
    · exact hdir hb'
    · exact h.dir b' hb'
  · intro b' hb' hon
    refine exists_set hstop ?_
    rw [bench_set] at hb'
    split_ifs at hb'
    · rcases hseen hb' with hmarkers | hb
      · exact h.on hon hmarkers
      · exact h.seen b hb hon
    · exact h.seen b' hb' hon
  · intro hoff hnone
    exact exists_set (fun hb => hclosing hb hnone) (h.off hoff hnone)
  · intro hon hmarkers
    exact exists_set hstop (h.on hon hmarkers)

/-- An acquire goes on looking. -/
lemma Counted.acquires (h : Counted s) {pc pc' : Acquire} (hb : s.bench b = .acquiring pid pc)
    (hpc : pc ≠ .stop) (hpc' : pc' ≠ .stop) (husual : (Phase.acquiring pid pc').usual = true)
    (hdir : (Phase.acquiring pid pc').needsDir = true → s.lock.isDir = true)
    (hseen : (Phase.acquiring pid pc').seen = true →
      s.lock.markers ≠ [] ∨ (Phase.acquiring pid pc).seen = true) :
    Counted (s.set b (.acquiring pid pc')) := by
  have hmarked : ∀ pc : Acquire, pc ≠ .stop → (Phase.acquiring pid pc).marked = none := by
    intro pc hne
    cases pc <;> first | rfl | exact absurd rfl hne
  refine h.quiet ?_ (h.claims_eq fun p hp => ?_) (fun _ => h.not_restoring (b := b) ?_) husual hdir
    ?_ ?_ ?_ ?_ ?_
  · rw [hb, hmarked pc hpc, hmarked pc' hpc']
  · rw [hb]
    exact hp
  · rw [hb]
    rfl
  · intro hrestoring
    cases hrestoring
  · intro names made hunseen
    cases hunseen
  · rw [hb]
    exact hseen
  · rw [hb]
    intro hstopping
    cases pc <;> first | exact absurd rfl hpc | cases hstopping
  · rw [hb]
    intro hclosing
    cases hclosing

lemma seen_eq_false (h : ph.isAcquiring = false) : ph.seen = false := by
  cases ph <;> first | rfl | cases h

lemma needsDir_eq_false (h : ph.isAcquiring = false) : ph.needsDir = false := by
  cases ph <;> first | rfl | cases h

/-- A release goes on looking, or ends. -/
lemma Counted.releases (h : Counted s) {pc : Release} (hb : s.bench b = .releasing pid pc)
    (hmarked : ph.marked = (Phase.releasing pid pc).marked) (hclaims : ph.claims = ph.marked)
    (hacquiring : ph.isAcquiring = false) (husual : ph.usual = true)
    (hrestoring : ph.restoring = true →
      s.lock.markers = [] ∧ ∀ b', (s.bench b').isAcquiring = false)
    (hunseen : ∀ names made, ph.unseen = some (names, made) →
      made ≤ s.made ∧ (made = s.made → ∀ m ∈ s.lock.markers, m ∈ names))
    (hclosing : (Phase.releasing pid pc).closing = true → s.lock.markers = [] →
      ph.closing = true) : Counted (s.set b ph) := by
  refine h.quiet (by rw [hb, hmarked]) (h.claims_eq fun p hp => ?_) (fun hacq => ?_) husual
    (fun hneeds => ?_) hrestoring hunseen (fun hs => ?_) (fun hstop => ?_) (by rwa [hb])
  · rw [hclaims, hmarked] at hp
    rw [hb]
    exact claims_of_marked hp
  · rw [hacquiring] at hacq
    cases hacq
  · rw [needsDir_eq_false hacquiring] at hneeds
    cases hneeds
  · rw [seen_eq_false hacquiring] at hs
    cases hs
  · rw [hb] at hstop
    cases hstop

/-! ### The steps of `acquire` -/

lemma isDir_iff {l : LockPath} : l.isDir = true ↔ ∃ ms, l = .dir ms := by
  cases l <;> simp [LockPath.isDir]

lemma isDir_of_ne {l : LockPath} (hfile : l ≠ .file) (habsent : l ≠ .absent) : l.isDir = true := by
  cases l with
  | absent => exact absurd rfl habsent
  | file => exact absurd rfl hfile
  | dir ms => rfl

lemma Counted.mkdir (h : Counted s) (hb : s.bench b = .acquiring pid .mkdir) {lock : LockPath}
    (hlock : s.lock.mkdir = some lock) :
    Counted { s.set b (.acquiring pid (.counting .testDir)) with lock } := by
  have hisDir : lock.isDir = true ∧ lock.markers = s.lock.markers := by
    rcases hl : s.lock with _ | _ | ms <;> rw [hl] at hlock <;> cases hlock <;> exact ⟨rfl, rfl⟩
  have hfile : lock ≠ .file := by
    rintro rfl
    cases hisDir.1
  have hstop : (s.bench b).stopping = true →
      (Phase.acquiring pid (.counting .testDir)).stopping = true := by
    rw [hb]
    intro hstop
    cases hstop
  have hclosing : (s.bench b).closing = true →
      (Phase.acquiring pid (.counting .testDir)).closing = true := by
    rw [hb]
    intro hclosing
    cases hclosing
  refine h.of_markers (fun b' => bench_set b') rfl hisDir.2 ?_ (h.claims_eq fun p hp => ?_)
    (fun _ => h.not_restoring (b := b) ?_) hfile rfl (fun _ _ => hisDir.1) ?_ ?_ ?_ ?_ ?_
  · rw [hb]
    rfl
  · rw [hb]
    exact hp
  · rw [hb]
    rfl
  · intro hrestoring
    cases hrestoring
  · intro names made hunseen
    cases hunseen
  · intro b' hb' hon
    replace hb' : ((s.set b _).bench b').seen = true := hb'
    rw [bench_set] at hb'
    split_ifs at hb'
    · cases hb'
    · exact exists_set hstop (h.seen b' hb' hon)
  · intro hoff hnone
    exact exists_set hclosing (h.off hoff hnone)
  · intro hon hmarkers
    exact exists_set hstop (h.on hon hmarkers)

lemma Counted.stop (h : Counted s) (hb : s.bench b = .acquiring pid .stop) :
    Counted { s.set b (.held pid) with extractor := false } := by
  -- its own marker is there
  have hmarker : s.lock.markers ≠ [] := by
    have hmem : Marker.pid pid ∈ s.lock.markers := (h.markers _).2 ⟨b, pid, by rw [hb]; rfl, rfl⟩
    exact List.ne_nil_of_mem hmem
  refine h.of_markers (fun b' => bench_set b') rfl rfl ?_ (h.claims_eq fun p hp => ?_) nofun
    h.notFile rfl ?_ nofun nofun ?_ ?_ ?_
  · rw [hb]
    rfl
  · rw [hb]
    exact hp
  · intro b' hb'
    replace hb' : ((s.set b _).bench b').needsDir = true := hb'
    rw [bench_set] at hb'
    split_ifs at hb'
    · cases hb'
    · exact h.dir b' hb'
  · intro _ _ hon
    cases hon
  · intro _ hnone
    exact absurd hnone hmarker
  · intro hon
    cases hon

/-- `acquire` makes its marker. -/
lemma Counted.touch (h : Counted s) {before : ℕ} (hb : s.bench b = .acquiring pid (.touch before)) :
    Counted (s.acquire b pid (.touch before)) := by
  obtain ⟨ms, hms⟩ := isDir_iff.1 (h.dir b (by rw [hb]; rfl))
  set ph : Phase := if before = 0 then .acquiring pid .stop else .held pid with hph
  set lock : LockPath := .dir (if .pid pid ∈ ms then ms else ms ++ [.pid pid]) with hlock
  have htouch : s.lock.touch (.pid pid) = some lock := by rw [hms, LockPath.touch]
  have heq : s.acquire b pid (.touch before) = { s.set b ph with lock, made := s.made + 1 } := by
    rw [State.acquire, htouch]
  have hmem : ∀ m, m ∈ lock.markers ↔ m ∈ s.lock.markers ∨ m = .pid pid := by
    intro m
    rw [hms]
    show m ∈ (if Marker.pid pid ∈ ms then ms else ms ++ [.pid pid]) ↔ m ∈ ms ∨ m = .pid pid
    split_ifs with hin
    · exact ⟨.inl, fun h => h.elim id fun heq => heq ▸ hin⟩
    · simp
  have hmarked : ph.marked = some pid ∧ ph.claims = some pid := by
    rw [hph]
    split_ifs <;> exact ⟨rfl, rfl⟩
  have hrestoring : ∀ b', ((s.set b ph).bench b').restoring = false := by
    intro b'
    rw [bench_set]
    split_ifs
    · rw [hph]
      split_ifs <;> rfl
    · exact h.not_restoring (b := b) (by rw [hb]; rfl) b'
  have hstop : (∃ b', (s.bench b').stopping = true) →
      ∃ b', ((s.set b ph).bench b').stopping = true := by
    refine exists_set fun hstop => ?_
    rw [hb] at hstop
    cases hstop
  rw [heq]
  exact {
    notFile := nofun
    usual := fun b' => by
      show ((s.set b ph).bench b').usual = true
      rw [bench_set]
      split_ifs
      · rw [hph]
        split_ifs <;> rfl
      · exact h.usual b'
    markers := fun m => by
      show m ∈ lock.markers ↔ ∃ b' p, ((s.set b ph).bench b').marked = some p ∧ m = .pid p
      rw [hmem, h.markers]
      constructor
      · rintro (⟨b', p, hb', rfl⟩ | rfl)
        · refine ⟨b', p, ?_, rfl⟩
          rw [bench_set, if_neg, hb']
          rintro rfl
          rw [hb] at hb'
          cases hb'
        · exact ⟨b, pid, by rw [bench_set, if_pos rfl, hmarked.1], rfl⟩
      · rintro ⟨b', p, hb', rfl⟩
        rw [bench_set] at hb'
        split_ifs at hb'
        · rw [hmarked.1] at hb'
          obtain rfl := Option.some.inj hb'
          exact .inr rfl
        · exact .inl ⟨b', p, hb', rfl⟩
    distinct := fun b₁ b₂ p h₁ h₂ => by
      have hclaims : ∀ b', ((s.set b ph).bench b').claims = (s.bench b').claims := by
        intro b'
        rw [bench_set]
        split_ifs with heq'
        · rw [heq', hb, hmarked.2]
          rfl
        · rfl
      exact h.distinct b₁ b₂ p ((hclaims b₁).symm.trans h₁) ((hclaims b₂).symm.trans h₂)
    dir := fun _ _ => rfl
    restoring := fun b' hb' => by
      rw [show _ = false from hrestoring b'] at hb'
      cases hb'
    unseen := fun b' names made hb' => by
      replace hb' : ((s.set b ph).bench b').unseen = some (names, made) := hb'
      rw [bench_set] at hb'
      split_ifs at hb'
      · exfalso
        rw [hph] at hb'
        split_ifs at hb' <;> cases hb'
      · -- the listing is older than the marker
        have hle := (h.unseen b' names made hb').1
        refine ⟨Nat.le_succ_of_le hle, fun heq' => ?_⟩
        replace heq' : made = s.made + 1 := heq'
        omega
    seen := fun b' hb' hon => by
      replace hb' : ((s.set b ph).bench b').seen = true := hb'
      rw [bench_set] at hb'
      split_ifs at hb'
      · exfalso
        rw [hph] at hb'
        split_ifs at hb' <;> cases hb'
      · exact hstop (h.seen b' hb' hon)
    off := fun _ hnone => by
      have hin : Marker.pid pid ∈ lock.markers := (hmem _).2 (.inr rfl)
      exact absurd hnone (List.ne_nil_of_mem hin)
    on := fun hon _ => by
      by_cases hbefore : before = 0
      · refine ⟨b, ?_⟩
        show ((s.set b ph).bench b).stopping = true
        rw [bench_set, if_pos rfl, hph, if_pos hbefore]
        rfl
      · have hseen : (s.bench b).seen = true := by
          rw [hb]
          exact decide_eq_true (Nat.pos_of_ne_zero hbefore)
        exact hstop (h.seen b hseen hon) }

lemma Counted.acquire (h : Counted s) {pc : Acquire} (hb : s.bench b = .acquiring pid pc) :
    Counted (s.acquire b pid pc) := by
  have husual := h.usual b
  have hdir := h.dir b
  rw [hb] at husual hdir
  cases pc with
  | testExists =>
      rw [State.acquire]
      split_ifs with habsent
      · exact h.acquires hb nofun nofun rfl nofun nofun
      · exact h.acquires hb nofun nofun rfl (fun _ => isDir_of_ne h.notFile habsent) nofun
  | testDir =>
      rw [State.acquire, if_pos (hdir rfl)]
      exact h.acquires hb nofun nofun rfl nofun nofun
  | removeFile | mkdirLegacy | touchLegacy => cases husual
  | mkdir =>
      rw [State.acquire]
      rcases hlock : s.lock.mkdir with _ | lock
      · exfalso
        cases hl : s.lock with
        | absent | dir => rw [hl] at hlock; cases hlock
        | file => exact h.notFile hl
      · exact h.mkdir hb hlock
  | counting c =>
      have hisDir : s.lock.isDir = true := hdir rfl
      cases c with
      | testDir =>
          rw [State.acquire, Counting.next, if_pos hisDir]
          exact h.acquires hb nofun nofun rfl (fun _ => hisDir) nofun
      | list => exact h.acquires hb nofun nofun rfl (fun _ => hisDir) nofun
      | count names live made =>
          cases names with
          | nil => exact h.acquires hb nofun nofun rfl (fun _ => hisDir) .inr
          | cons m ms =>
              refine h.acquires hb nofun nofun rfl (fun _ => hisDir) fun hseen => ?_
              split_ifs at hseen with hm
              · exact .inl (List.ne_nil_of_mem hm)
              · exact .inr hseen
  | touch before => exact h.touch hb
  | stop => exact h.stop hb

/-! ### The steps of `release` -/

/-- `release` removes its marker. -/
lemma Counted.removeMarker (h : Counted s) (hb : s.bench b = .releasing pid .removeMarker) :
    Counted (s.release b pid .removeMarker) := by
  set ph : Phase := .releasing pid (.counting .testDir) with hph
  have hmem : ∀ m, m ∈ (s.lock.removeMarker (.pid pid)).markers ↔
      m ∈ s.lock.markers ∧ m ≠ .pid pid := by
    intro m
    cases s.lock <;> simp [LockPath.removeMarker, LockPath.markers]
  have hstop : (∃ b', (s.bench b').stopping = true) →
      ∃ b', ((s.set b ph).bench b').stopping = true := by
    refine exists_set fun hstop => ?_
    rw [hb] at hstop
    cases hstop
  show Counted { s.set b ph with lock := s.lock.removeMarker (.pid pid) }
  exact {
    notFile := by
      have := h.notFile
      cases hl : s.lock with
      | absent | dir => exact nofun
      | file => exact absurd hl this
    usual := fun b' => by
      show ((s.set b ph).bench b').usual = true
      rw [bench_set]
      split_ifs
      · rfl
      · exact h.usual b'
    markers := fun m => by
      show m ∈ (s.lock.removeMarker (.pid pid)).markers ↔
        ∃ b' p, ((s.set b ph).bench b').marked = some p ∧ m = .pid p
      rw [hmem, h.markers]
      constructor
      · rintro ⟨⟨b', p, hb', rfl⟩, hne⟩
        refine ⟨b', p, ?_, rfl⟩
        rw [bench_set, if_neg, hb']
        rintro rfl
        rw [hb] at hb'
        obtain rfl : pid = p := Option.some.inj hb'
        exact hne rfl
      · rintro ⟨b', p, hb', rfl⟩
        rw [bench_set] at hb'
        split_ifs at hb' with hne
        · cases hb'
        · refine ⟨⟨b', p, hb', rfl⟩, fun heq => hne ?_⟩
          -- no other bench has the same marker
          obtain rfl : p = pid := Marker.pid.inj heq
          exact h.distinct b' b p (claims_of_marked hb') (by rw [hb]; rfl)
    distinct := fun b₁ b₂ p h₁ h₂ => by
      replace h₁ : ((s.set b ph).bench b₁).claims = some p := h₁
      replace h₂ : ((s.set b ph).bench b₂).claims = some p := h₂
      rw [bench_set] at h₁ h₂
      split_ifs at h₁ h₂
      · cases h₁
      · cases h₁
      · cases h₂
      · exact h.distinct b₁ b₂ p h₁ h₂
    dir := fun b' hb' => by
      replace hb' : ((s.set b ph).bench b').needsDir = true := hb'
      rw [bench_set] at hb'
      split_ifs at hb'
      · cases hb'
      · obtain ⟨ms, hms⟩ := isDir_iff.1 (h.dir b' hb')
        show (s.lock.removeMarker (.pid pid)).isDir = true
        rw [hms]
        rfl
    restoring := fun b' hb' => by
      replace hb' : ((s.set b ph).bench b').restoring = true := hb'
      rw [bench_set] at hb'
      split_ifs at hb'
      · cases hb'
      · obtain ⟨hnone, hacq⟩ := h.restoring b' hb'
        refine ⟨List.eq_nil_iff_forall_not_mem.2 fun m hm => ?_, fun b'' => ?_⟩
        · have hm' := ((hmem m).1 hm).1
          rw [hnone] at hm'
          cases hm'
        · show ((s.set b ph).bench b'').isAcquiring = false
          rw [bench_set]
          split_ifs
          · rfl
          · exact hacq b''
    unseen := fun b' names made hb' => by
      replace hb' : ((s.set b ph).bench b').unseen = some (names, made) := hb'
      rw [bench_set] at hb'
      split_ifs at hb'
      · cases hb'
      · obtain ⟨hle, hnames⟩ := h.unseen b' names made hb'
        exact ⟨hle, fun heq m hm => hnames heq m ((hmem m).1 hm).1⟩
    seen := fun b' hb' hon => by
      replace hb' : ((s.set b ph).bench b').seen = true := hb'
      rw [bench_set] at hb'
      split_ifs at hb'
      · cases hb'
      · exact hstop (h.seen b' hb' hon)
    off := fun _ _ => by
      refine ⟨b, ?_⟩
      show ((s.set b ph).bench b).closing = true
      rw [bench_set, if_pos rfl]
      rfl
    on := fun hon hmarkers => by
      obtain ⟨m, hm⟩ := List.exists_mem_of_ne_nil _ hmarkers
      exact hstop (h.on hon (List.ne_nil_of_mem ((hmem m).1 hm).1)) }

/-- The last release removes the directory, or finds it gone. -/
lemma Counted.rmdir (h : Counted s) (hb : s.bench b = .releasing pid .rmdir) :
    Counted (s.release b pid .rmdir) := by
  obtain ⟨hnone, hacq⟩ := h.restoring b (by rw [hb]; rfl)
  have hlock : s.lock.rmdir.markers = s.lock.markers ∧ s.lock.rmdir ≠ .file := by
    have hfile := h.notFile
    cases hl : s.lock with
    | absent => exact ⟨rfl, nofun⟩
    | file => exact absurd hl hfile
    | dir ms =>
        rw [hl] at hnone
        obtain rfl : ms = [] := hnone
        exact ⟨rfl, nofun⟩
  have hacq' : ∀ b', ((s.set b (.releasing pid .start)).bench b').isAcquiring = false := by
    intro b'
    rw [bench_set]
    split_ifs
    · rfl
    · exact hacq b'
  refine h.of_markers (fun b' => bench_set b') rfl hlock.1 ?_ nofun nofun hlock.2 rfl ?_
    (fun _ => ⟨hnone, hacq⟩) nofun ?_ ?_ ?_
  · rw [hb]
    rfl
  · intro b' hb'
    exact nomatch (needsDir_eq_false (hacq' b')).symm.trans hb'
  · intro b' hb'
    exact nomatch (seen_eq_false (hacq' b')).symm.trans hb'
  · intro _ _
    refine ⟨b, ?_⟩
    show ((s.set b _).bench b).closing = true
    rw [bench_set, if_pos rfl]
    rfl
  · intro _ hmarkers
    exact absurd hnone hmarkers

/-- The last release starts the extractor. -/
lemma Counted.start (h : Counted s) (hb : s.bench b = .releasing pid .start) :
    Counted (s.release b pid .start) := by
  obtain ⟨hnone, hacq⟩ := h.restoring b (by rw [hb]; rfl)
  have hacq' : ∀ b', ((s.set b .released).bench b').isAcquiring = false := by
    intro b'
    rw [bench_set]
    split_ifs
    · rfl
    · exact hacq b'
  refine h.of_markers (fun b' => bench_set b') rfl rfl ?_ nofun nofun h.notFile rfl ?_ nofun nofun
    ?_ nofun ?_
  · rw [hb]
    rfl
  · intro b' hb'
    exact nomatch (needsDir_eq_false (hacq' b')).symm.trans hb'
  · intro b' hb'
    exact nomatch (seen_eq_false (hacq' b')).symm.trans hb'
  · intro _ hmarkers
    exact absurd hnone hmarkers

/-- A release counts the markers. -/
lemma Counted.count (h : Counted s) {c : Counting} (hb : s.bench b = .releasing pid (.counting c))
    (hok : s.findsNone c → (∀ b', (s.bench b').isAcquiring = false) ∧
      ∀ names live made, c = .count names live made → made = s.made) :
    Counted (s.release b pid (.counting c)) := by
  cases c with
  | testDir =>
      by_cases hisDir : s.lock.isDir = true
      · rw [State.release, Counting.next, if_pos hisDir]
        exact h.releases hb rfl rfl rfl rfl nofun nofun fun _ _ => rfl
      · have hnone : s.findsNone .testDir := by rw [State.findsNone, Counting.next, if_neg hisDir]
        have hmarkers : s.lock.markers = [] := by
          cases hl : s.lock with
          | absent | file => rfl
          | dir ms => rw [hl] at hisDir; exact absurd rfl hisDir
        rw [State.release, Counting.next, if_neg hisDir]
        exact h.releases hb rfl rfl rfl rfl (fun _ => ⟨hmarkers, (hok hnone).1⟩) nofun
          fun _ _ => rfl
  | list =>
      refine h.releases hb rfl rfl rfl rfl nofun ?_ fun _ hnone => ?_
      · rintro names made ⟨⟩
        exact ⟨Nat.le_refl _, fun _ m hm => hm⟩
      · rw [hnone]
        rfl
  | count names live made =>
      cases names with
      | nil =>
          cases live with
          | zero =>
              obtain ⟨hacq, hmade⟩ := hok rfl
              -- nothing was made since, so what was not listed is not there
              have hlisted := (h.unseen b [] made (by rw [hb]; rfl)).2 (hmade [] 0 made rfl)
              have hmarkers : s.lock.markers = [] :=
                List.eq_nil_iff_forall_not_mem.2 fun m hm => by cases hlisted m hm
              exact h.releases hb rfl rfl rfl rfl (fun _ => ⟨hmarkers, hacq⟩) nofun fun _ _ => rfl
          | succ n => exact h.releases hb rfl rfl rfl rfl nofun nofun nofun
      | cons m ms =>
          refine h.releases hb rfl rfl rfl rfl nofun ?_ nofun
          intro names made' hunseen
          by_cases hm : m ∈ s.lock.markers
          · rw [if_pos hm] at hunseen
            cases hunseen
          · rw [if_neg hm] at hunseen
            cases live with
            | zero =>
                obtain ⟨⟩ := hunseen
                obtain ⟨hle, hlisted⟩ := h.unseen b (m :: ms) made (by rw [hb]; rfl)
                refine ⟨hle, fun heq m' hm' => ?_⟩
                rcases List.mem_cons.1 (hlisted heq m' hm') with rfl | hms
                · exact absurd hm' hm
                · exact hms
            | succ n => cases hunseen

lemma Counted.release (h : Counted s) {pc : Release} (hb : s.bench b = .releasing pid pc)
    (hok : Orderly s (.step b)) : Counted (s.release b pid pc) := by
  have husual := h.usual b
  rw [hb] at husual
  have hmarker : ∀ {pc : Release}, s.bench b = .releasing pid pc →
      (Phase.releasing pid pc).marked = some pid → .pid pid ∈ s.lock.markers := by
    intro pc hb hmarked
    exact (h.markers _).2 ⟨b, pid, by rw [hb, hmarked], rfl⟩
  cases pc with
  | testDir =>
      have hisDir : s.lock.isDir = true := by
        have hmem := hmarker hb rfl
        cases hl : s.lock with
        | absent | file => rw [hl] at hmem; cases hmem
        | dir ms => rfl
      rw [State.release, if_pos hisDir]
      exact h.releases hb rfl rfl rfl rfl nofun nofun nofun
  | testLegacy | removeLegacy => cases husual
  | testMarker =>
      rw [State.release, if_pos (hmarker hb rfl)]
      exact h.releases hb rfl rfl rfl rfl nofun nofun nofun
  | removeMarker => exact h.removeMarker hb
  | counting c => exact h.count hb fun hnone => hok pid c hb hnone
  | rmdir => exact h.rmdir hb
  | start => exact h.start hb

/-! ### Runs -/

lemma counted_next (h : Counted s) {l : Label} (hok : Orderly s l) (hnext : s.next l = some s') :
    Counted s' := by
  cases l with
  | acquire b pid =>
      simp only [State.next] at hnext
      split_ifs at hnext with hidle
      obtain rfl := Option.some.inj hnext
      refine h.quiet ?_ ?_ (fun _ => hok.2) rfl nofun nofun nofun nofun ?_ ?_
      · rw [hidle]
        rfl
      · intro p hp b' hb'
        obtain rfl : pid = p := Option.some.inj hp
        exact absurd hb' (hok.1 b')
      · rw [hidle]
        exact nofun
      · rw [hidle]
        exact nofun
  | release b pid =>
      simp only [State.next] at hnext
      split at hnext
      · rename_i p hp
        obtain rfl := Option.some.inj hnext
        obtain rfl : pid = p := hok p hp
        refine h.quiet ?_ (h.claims_eq fun q hq => ?_) nofun rfl nofun nofun nofun nofun ?_ ?_
        · rw [hp]
          rfl
        · rw [hp]
          exact hq
        · rw [hp]
          exact nofun
        · rw [hp]
          exact nofun
      · cases hnext
  | step b =>
      simp only [State.next] at hnext
      split at hnext
      · rename_i pid pc hb
        obtain rfl := Option.some.inj hnext
        exact h.acquire hb
      · rename_i pid pc hb
        obtain rfl := Option.some.inj hnext
        exact h.release hb hok
      · cases hnext

lemma counted_init (h : lockSystem.init s) : Counted s := by
  obtain ⟨hlock, hextractor, -, hbench⟩ := h
  have hmarkers : s.lock.markers = [] := by
    rcases hlock with hl | hl <;> rw [hl] <;> rfl
  exact {
    notFile := by
      rcases hlock with hl | hl <;> rw [hl] <;> exact nofun
    usual := fun b => by rw [hbench]; rfl
    markers := fun m => by simp [hmarkers, hbench, Phase.marked]
    distinct := fun b b' p hb => by rw [hbench] at hb; cases hb
    dir := fun b hb => by rw [hbench] at hb; cases hb
    restoring := fun b hb => by rw [hbench] at hb; cases hb
    unseen := fun b names made hb => by rw [hbench] at hb; cases hb
    seen := fun b hb => by rw [hbench] at hb; cases hb
    off := fun hoff => by rw [hextractor] at hoff; cases hoff
    on := fun _ hne => absurd hmarkers hne }

lemma counted_of_reachedBy (h : lockSystem.ReachedBy Orderly s) : Counted s :=
  h.invariant (fun _ => counted_init) fun _ _ _ hs hok hnext => counted_next hs hok hnext

/-- The bench that a label is about. -/
def Label.bench : Label → ℕ
  | acquire b _ => b
  | release b _ => b
  | step b => b

/-- Only the bench of the label moves. -/
lemma next_frame {l : Label} (hnext : s.next l = some s') {b' : ℕ} (hl : l.bench ≠ b') :
    s'.bench b' = s.bench b' := by
  have hset : ∀ {s : State} {ph : Phase}, (s.set l.bench ph).bench b' = s.bench b' := by
    intro s ph
    rw [bench_set, if_neg hl.symm]
  cases l with
  | acquire b pid =>
      simp only [State.next] at hnext
      split_ifs at hnext
      obtain rfl := Option.some.inj hnext
      exact hset
  | release b pid =>
      simp only [State.next] at hnext
      split at hnext
      · obtain rfl := Option.some.inj hnext
        exact hset
      · cases hnext
  | step b =>
      simp only [State.next] at hnext
      split at hnext
      · rename_i pid pc _
        obtain rfl := Option.some.inj hnext
        cases pc <;> simp only [State.acquire] <;> (try split) <;> exact hset
      · rename_i pid pc _
        obtain rfl := Option.some.inj hnext
        cases pc <;> simp only [State.release] <;> (try split) <;> exact hset
      · cases hnext

/-- **Bench lock refcount.**  While the scripts keep out of each other's way, the lock is active
when a bench is running and inactive when all have released, and the extractor runs exactly when
no bench is registered, whenever no script is at work. -/
theorem bench_lock_sound (h : lockSystem.ReachedBy Orderly s) : s.Sound := by
  have hcounted := counted_of_reachedBy h
  have hactive : s.lock.benchLockActive = true ↔ s.lock.markers ≠ [] := by
    have hfile := hcounted.notFile
    cases hl : s.lock with
    | absent => exact ⟨nofun, fun hne => absurd rfl hne⟩
    | file => exact absurd hl hfile
    | dir ms => simp [LockPath.benchLockActive, LockPath.markers]
  have hheld : ∀ b pid, s.bench b = .held pid → s.lock.markers ≠ [] := by
    intro b pid hb
    have hmem : Marker.pid pid ∈ s.lock.markers :=
      (hcounted.markers _).2 ⟨b, pid, by rw [hb]; rfl, rfl⟩
    exact List.ne_nil_of_mem hmem
  refine ⟨fun b pid hb => hactive.2 (hheld b pid hb), fun hall => ?_, fun hquiet => ?_⟩
  · rw [Bool.eq_false_iff, Ne, hactive, not_not, List.eq_nil_iff_forall_not_mem]
    intro m hm
    obtain ⟨b, p, hb, -⟩ := (hcounted.markers m).1 hm
    rcases hall b with hidle | hreleased
    · rw [hidle] at hb
      cases hb
    · rw [hreleased] at hb
      cases hb
  · constructor
    · intro hon b pid hb
      obtain ⟨b', hb'⟩ := hcounted.on hon (hheld b pid hb)
      -- only an acquire that is at work is about to stop the extractor
      cases hph : s.bench b' with
      | acquiring pid' pc => exact (hquiet b' pid').1 pc hph
      | _ => rw [hph] at hb'; cases hb'
    · intro hnone
      by_contra hoff
      have hmarkers : s.lock.markers = [] := by
        rw [List.eq_nil_iff_forall_not_mem]
        intro m hm
        obtain ⟨b, p, hb, -⟩ := (hcounted.markers m).1 hm
        cases hph : s.bench b with
        | held pid => exact hnone b pid hph
        | acquiring pid pc => exact (hquiet b pid).1 pc hph
        | releasing pid pc => exact (hquiet b pid).2 pc hph
        | _ => rw [hph] at hb; cases hb
      obtain ⟨b, hb⟩ := hcounted.off (by simpa using hoff) hmarkers
      cases hph : s.bench b with
      | releasing pid pc => exact (hquiet b pid).2 pc hph
      | _ => rw [hph] at hb; cases hb

/-- `Orderly`, and whether the label is about one of the first `n` benches, when only these take
part. -/
def orderlyBelow (n : ℕ) (s : State) : Label → Bool
  | .acquire b pid => b < n && (List.range n).all fun b' =>
      (s.bench b').claims ≠ some pid && (s.bench b').restoring = false
  | .release b pid => b < n && s.bench b = .held pid
  | .step b => b < n && match s.bench b with
    | .releasing _ (.counting (.count names live made)) =>
        Counting.next s.lock s.made (.count names live made) ≠ .inr 0 ||
          made = s.made && (List.range n).all fun b' => (s.bench b').isAcquiring = false
    | .releasing _ (.counting .testDir) => s.lock.isDir
    | _ => true

lemma orderly_of_below {n : ℕ} {l : Label} (hidle : ∀ b, n ≤ b → s.bench b = .idle)
    (h : orderlyBelow n s l = true) : Orderly s l ∧ l.bench < n := by
  have hall : ∀ {P : Phase → Prop}, P .idle → (∀ b < n, P (s.bench b)) → ∀ b, P (s.bench b) := by
    intro P hP hbelow b
    rcases Nat.lt_or_ge b n with hb | hb
    · exact hbelow b hb
    · exact (hidle b hb).symm ▸ hP
  cases l with
  | acquire b pid =>
      simp only [orderlyBelow, Bool.and_eq_true, decide_eq_true_eq, List.all_eq_true,
        List.mem_range] at h
      exact ⟨⟨hall (P := fun ph => ph.claims ≠ some pid) nofun fun b' hb' => (h.2 b' hb').1,
        hall (P := fun ph => ph.restoring = false) rfl fun b' hb' => (h.2 b' hb').2⟩, h.1⟩
  | release b pid =>
      simp only [orderlyBelow, Bool.and_eq_true, decide_eq_true_eq] at h
      refine ⟨fun p hp => ?_, h.1⟩
      rw [h.2] at hp
      exact Phase.held.inj hp
  | step b =>
      simp only [orderlyBelow, Bool.and_eq_true, decide_eq_true_eq] at h
      refine ⟨fun pid c hc hnone => ?_, h.1⟩
      rw [hc] at h
      cases c with
      | testDir =>
          have hdir : s.lock.isDir = true := h.2
          rw [State.findsNone, Counting.next, if_pos hdir] at hnone
          cases hnone
      | list => cases hnone
      | count names live made =>
          simp only [Bool.or_eq_true, Bool.and_eq_true, decide_eq_true_eq, List.all_eq_true,
            List.mem_range] at h
          obtain ⟨hmade, hbenches⟩ := h.2.resolve_left fun hne => hne hnone
          refine ⟨hall (P := fun ph => ph.isAcquiring = false) rfl hbenches, ?_⟩
          rintro names' live' made' ⟨⟩
          exact hmade

lemma reachedBy_of_below {n : ℕ}
    (h : lockSystem.ReachedBy (fun s l => orderlyBelow n s l = true) s) :
    lockSystem.ReachedBy Orderly s ∧ ∀ b, n ≤ b → s.bench b = .idle := by
  induction h with
  | init hs => exact ⟨.init hs, fun b _ => by rw [hs.2.2.2]⟩
  | step _ hok hnext ih =>
      obtain ⟨horderly, hbench⟩ := orderly_of_below ih.2 hok
      refine ⟨ih.1.step horderly hnext, fun b hb => ?_⟩
      rw [next_frame hnext (Nat.ne_of_lt (Nat.lt_of_lt_of_le hbench hb))]
      exact ih.2 b hb

/-- Two benches hold the lock, and release it one after the other. -/
def twoBenches : List Label :=
  Label.acquire 0 7 :: List.replicate 7 (.step 0) ++
    Label.acquire 1 8 :: List.replicate 8 (.step 1) ++
    Label.release 0 7 :: List.replicate 7 (.step 0) ++
    Label.release 1 8 :: List.replicate 8 (.step 1)

/-- Two benches that have held the lock together and have released it. -/
theorem bench_lock_sound_released : ∃ s, lockSystem.ReachedBy Orderly s ∧ s.made = 2 ∧
    s.bench 0 = .released ∧ s.bench 1 = .released ∧ s.extractor = true ∧ s.Sound := by
  have hstart : lockSystem.ReachedBy (fun s l => orderlyBelow 2 s l = true) State.fresh :=
    .init init_fresh
  obtain ⟨s, hs, hend⟩ := hstart.exists_of_execBy_any twoBenches (fun s => decide (s.made = 2 ∧
    s.bench 0 = .released ∧ s.bench 1 = .released ∧ s.extractor = true)) (by decide)
  obtain ⟨hmade, hfirst, hsecond, hextractor⟩ := of_decide_eq_true hend
  have horderly := (reachedBy_of_below hs).1
  exact ⟨s, horderly, hmade, hfirst, hsecond, hextractor, bench_lock_sound horderly⟩

lemma exec_frame {b' : ℕ} {ls : List Label} (hls : ∀ l ∈ ls, l.bench ≠ b')
    (hexec : lockSystem.exec s ls = some s') : s'.bench b' = s.bench b' := by
  induction ls generalizing s with
  | nil =>
      obtain rfl : s = s' := by simpa using hexec
      rfl
  | cons l ls ih =>
      obtain ⟨t, hnext, hrest⟩ := Option.bind_eq_some_iff.1 hexec
      rw [ih (fun l' hl' => hls l' (List.mem_cons_of_mem l hl')) hrest,
        next_frame hnext (hls l List.mem_cons_self)]

/-- A bench whose scripts have PIDs of their own, as they have by default. -/
def ownPids : List Label :=
  Label.acquire 0 100 :: List.replicate 7 (.step 0) ++
    Label.release 0 101 :: List.replicate 6 (.step 0)

/-- With PIDs of their own, the marker of the bench is left when it has released: the lock stays
active and the extractor stopped. -/
theorem bench_lock_sound_fails : ∃ s, lockSystem.Reachable s ∧
    (∀ b, s.bench b = .idle ∨ s.bench b = .released) ∧ s.lock.benchLockActive = true ∧
    s.extractor = false := by
  obtain ⟨s, hexec, hend⟩ := StepSystem.exists_of_exec_any lockSystem State.fresh ownPids
    (fun s => decide (s.bench 0 = .released ∧ s.lock.benchLockActive = true ∧
      s.extractor = false)) (by decide)
  obtain ⟨hreleased, hactive, hextractor⟩ := of_decide_eq_true hend
  refine ⟨s, StepSystem.Reachable.exec (.init init_fresh) hexec, fun b => ?_, hactive, hextractor⟩
  by_cases hb : b = 0
  · exact .inr (hb ▸ hreleased)
  · refine .inl (exec_frame ?_ hexec)
    have hall : ∀ l ∈ ownPids, l.bench = 0 := by decide
    exact fun l hl => (hall l hl).symm ▸ Ne.symm hb

/-- A bench that acquires while the last release has yet to start the extractor. -/
def overlap : List Label :=
  Label.acquire 0 7 :: List.replicate 7 (.step 0) ++
    Label.release 0 7 :: List.replicate 7 (.step 0) ++
    Label.acquire 1 8 :: List.replicate 7 (.step 1) ++ [Label.step 0]

/-- With one PID for each bench, a release that overlaps an acquire starts the extractor under the
bench that is now registered. -/
theorem overlap_fails : ∃ s, lockSystem.Reachable s ∧
    (∀ b pid, (∀ pc, s.bench b ≠ .acquiring pid pc) ∧ ∀ pc, s.bench b ≠ .releasing pid pc) ∧
    s.bench 1 = .held 8 ∧ s.extractor = true := by
  obtain ⟨s, hexec, hend⟩ := StepSystem.exists_of_exec_any lockSystem State.fresh overlap
    (fun s => decide (s.bench 0 = .released ∧ s.bench 1 = .held 8 ∧ s.extractor = true)) (by decide)
  obtain ⟨hreleased, hheld, hextractor⟩ := of_decide_eq_true hend
  refine ⟨s, StepSystem.Reachable.exec (.init init_fresh) hexec, fun b pid => ?_, hheld,
    hextractor⟩
  have hphase : s.bench b = .released ∨ s.bench b = .held 8 ∨ s.bench b = .idle := by
    by_cases hb : b = 0
    · exact .inl (hb ▸ hreleased)
    · by_cases hb' : b = 1
      · exact .inr (.inl (hb' ▸ hheld))
      · refine .inr (.inr (exec_frame ?_ hexec))
        have hall : ∀ l ∈ overlap, l.bench = 0 ∨ l.bench = 1 := by decide
        rintro l hl rfl
        exact (hall l hl).elim hb hb'
  rcases hphase with h | h | h <;> rw [h] <;> exact ⟨nofun, nofun⟩

end PalaceDaemon.Bench

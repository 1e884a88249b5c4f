/-
The entries of the mine queue.

`POST /mine` appends one JSON line to `palace-daemon-pending-mines.jsonl`; the drain pass
reads the lines back.  An `Entry` is such a line once decoded.  The fields are the ones the
drain reads: the request itself, and the two counters the drain writes into the entry when it
hands it back to the queue.  A counter that is absent reads as zero.

A pass keeps every entry it has claimed together with the text of the line it came from:
the decoded entry is changed in place (its counters are bumped), the text is not.  An `Item`
is that pair; the text is represented by the entry it decodes to.
-/
import Mathlib.Tactic

namespace PalaceDaemon.Mines

/-- A path, as the characters of its text. -/
abbrev Path := List Char

/-- The body of a queued `/mine` request. -/
structure Payload where
  /-- The directory or file to mine, in the client's namespace. -/
  dir : Path
  wing : String
  mode : String
  extract : Option String
  limit : Option ℤ
  /-- Whether to rebuild the wing's derived graph; `none` lets the daemon decide. -/
  tunnels : Option Bool
deriving DecidableEq, Repr

/-- A line of the pending-mines file, decoded. -/
structure Entry where
  payload : Payload
  enqueuedAt : String
  /-- How many passes have handed the entry back without replaying it. -/
  drainDeferrals : ℕ
  /-- How many replays found the palace lock held by another process. -/
  lockRetries : ℕ
deriving DecidableEq, Repr

/-- A claimed entry: the line it was read from, and the entry as the pass has changed it. -/
structure Item where
  line : Entry
  entry : Entry
deriving DecidableEq, Repr

/-- A line as the pass reads it. -/
def Item.ofLine (l : Entry) : Item := ⟨l, l⟩

@[simp] lemma Item.ofLine_line (l : Entry) : (Item.ofLine l).line = l := rfl

@[simp] lemma Item.ofLine_entry (l : Entry) : (Item.ofLine l).entry = l := rfl

/-- What a queued mine is for: directory, wing and mode. -/
abbrev DedupKey := Path × String × String

/-- `_dedup_key`. -/
def dedupKey (e : Entry) : DedupKey := (e.payload.dir, e.payload.wing, e.payload.mode)

/-- `_DRAIN_SMALL_MODES`. -/
def drainSmallModes : List String := ["projects"]

/-- `_DRAIN_PRIORITY_ESCAPE_DEFERRALS`. -/
def drainPriorityEscapeDeferrals : ℕ := 5

/-- `_drain_entry_priority`: lower runs first. -/
def drainEntryPriority (e : Entry) : ℕ :=
  if drainPriorityEscapeDeferrals ≤ e.drainDeferrals then 0
  else if e.payload.mode ∈ drainSmallModes then 1 else 2

/-- `_DRAIN_BATCH_DEFAULT`. -/
def drainBatchDefault : ℕ := 20

/-- `_DRAIN_BATCH_MAX`. -/
def drainBatchMax : ℕ := 500

/-- `_drain_batch_size`, of the number that `MEMPALACE_DRAIN_BATCH` holds, if it holds one. -/
def drainBatchSize (raw : Option ℤ) : ℕ :=
  match raw with
  | none => drainBatchDefault
  | some value =>
      if value ≤ 0 then drainBatchDefault
      else if (drainBatchMax : ℤ) < value then drainBatchMax
      else value.toNat

/-- Whatever the variable holds, a pass has a positive cap of at most the ceiling. -/
lemma drainBatchSize_bounds (raw : Option ℤ) :
    0 < drainBatchSize raw ∧ drainBatchSize raw ≤ drainBatchMax := by
  unfold drainBatchSize drainBatchMax drainBatchDefault
  split
  · decide
  · split
    · decide
    · split <;> omega

/-- The entry with its deferral counter set. -/
def Entry.setDeferrals (e : Entry) (n : ℕ) : Entry := { e with drainDeferrals := n }

@[simp] lemma dedupKey_setDeferrals (e : Entry) (n : ℕ) :
    dedupKey (e.setDeferrals n) = dedupKey e := rfl

@[simp] lemma setDeferrals_drainDeferrals (e : Entry) (n : ℕ) :
    (e.setDeferrals n).drainDeferrals = n := rfl

@[simp] lemma setDeferrals_payload (e : Entry) (n : ℕ) :
    (e.setDeferrals n).payload = e.payload := rfl

/-- The entry with its count of lock retries set. -/
def Entry.setLockRetries (e : Entry) (n : ℕ) : Entry := { e with lockRetries := n }

@[simp] lemma dedupKey_setLockRetries (e : Entry) (n : ℕ) :
    dedupKey (e.setLockRetries n) = dedupKey e := rfl

@[simp] lemma setLockRetries_drainDeferrals (e : Entry) (n : ℕ) :
    (e.setLockRetries n).drainDeferrals = e.drainDeferrals := rfl

@[simp] lemma setLockRetries_payload (e : Entry) (n : ℕ) :
    (e.setLockRetries n).payload = e.payload := rfl

/-- What `_defer_entries` writes for an entry: its counter is one higher. -/
def Entry.carried (e : Entry) : Entry := e.setDeferrals (e.drainDeferrals + 1)

@[simp] lemma dedupKey_carried (e : Entry) : dedupKey e.carried = dedupKey e := rfl

@[simp] lemma carried_drainDeferrals (e : Entry) :
    e.carried.drainDeferrals = e.drainDeferrals + 1 := rfl

@[simp] lemma carried_payload (e : Entry) : e.carried.payload = e.payload := rfl

end PalaceDaemon.Mines

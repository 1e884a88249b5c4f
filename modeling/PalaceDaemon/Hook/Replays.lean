/-
What becomes of a journaled transcript.

A drain reads a file, replays its entries for a long time, and then replaces or removes the file.
What another process has done to the file in between is gone, and so is a line that an append
writes to a file it opened before.  A line may also be lost as it is written, when `splitlines`
breaks it, and a transcript when the replay reports a success that no daemon has accepted.  And
what a file holds can raise, where a drain takes it apart.

In runs without these steps (`Careful`) no drain raises, and every transcript that is journaled
is in a journal file, accepted in a replay, or discarded.
-/
import PalaceDaemon.Hook.Journal

namespace PalaceDaemon.Hook

open PalaceDaemon.Wings

/-! ### Reading a file -/

/-- The rows of a line that can be decoded. -/
def Line.rowList : Line → List Row
  | .undecodable => []
  | .rows rs => rs

/-- The entry of a row. -/
def Row.entry : Row → Option JournalEntry
  | .value (.obj fields) writable => some ⟨fields, writable⟩
  | _ => none

/-- A row that a drain can take: no JSON at all, or an object whose path is a key. -/
def Row.Fits : Row → Prop
  | .notJson => True
  | .loadsRaises => False
  | .value (.obj fields) writable => ∃ key, (JournalEntry.path ⟨fields, writable⟩).key = .ok key
  | .value _ _ => False

/-- A file that a drain can take: it can be decoded, its rows can be taken, and the entries of
one transcript have times that can be compared. -/
structure FileFits (lines : List Line) : Prop where
  decodes : ∀ l ∈ lines, ∃ rs, l = .rows rs
  rows : ∀ r ∈ lines.flatMap Line.rowList, r.Fits
  times : ∀ e ∈ (lines.flatMap Line.rowList).filterMap Row.entry,
    ∀ e' ∈ (lines.flatMap Line.rowList).filterMap Row.entry, e.path.key = e'.path.key →
      Json.Comparable e.ts e'.ts

lemma eq_of_key_text {v : Json} {s : Text} (h : v.key = .ok (.text s)) : v = .str s := by
  cases v <;> simp_all [Json.key]

/-- The key of each entry is the one it is kept under. -/
def ByPath.Keyed (byPath : ByPath) : Prop := ∀ c ∈ byPath, c.2.path.key = .ok c.1

lemma keyed_nil : ByPath.Keyed [] := by simp [ByPath.Keyed]

section byPath

variable {byPath byPath' : ByPath} {e : JournalEntry} {key : Json.Key}

lemma mem_of_held {prev : JournalEntry} (h : byPath.held key = some prev) :
    (key, prev) ∈ byPath := by
  unfold ByPath.held at h
  split_ifs at h
  obtain ⟨c, hc, rfl⟩ := Option.map_eq_some_iff.1 h
  have hkey : c.1 = key := by simpa using List.find?_some hc
  rw [← hkey]
  exact List.mem_of_find?_eq_some hc

/-- What adding an entry does: its key is there afterwards, and no other key is gone. -/
lemma ByPath.add_spec (hkeyed : byPath.Keyed) (h : byPath.add e = .ok byPath') :
    byPath'.Keyed ∧ (∀ k ∈ byPath.map Prod.fst, k ∈ byPath'.map Prod.fst) ∧
      (∀ k, e.path.key = .ok k → k ∈ byPath'.map Prod.fst) ∧
      ∀ c ∈ byPath', c ∈ byPath ∨ c.2 = e := by
  unfold ByPath.add at h
  cases hkey : e.path.key with
  | error exc => simp [hkey] at h
  | ok key =>
      simp only [hkey] at h
      cases hheld : byPath.held key with
      | none =>
          obtain rfl : byPath ++ [(key, e)] = byPath' := by simpa [hheld] using h
          refine ⟨fun c hc => ?_, fun k hk => ?_, fun k hk => ?_, fun c hc => ?_⟩
          · rcases List.mem_append.1 hc with hc | hc
            · exact hkeyed c hc
            · rw [List.mem_singleton.1 hc]
              exact hkey
          · rw [List.map_append]
            exact List.mem_append_left _ hk
          · obtain rfl := Except.ok.inj hk
            simp
          · rcases List.mem_append.1 hc with hc | hc
            · exact .inl hc
            · exact .inr (by rw [List.mem_singleton.1 hc])
      | some prev =>
          have hprev := mem_of_held hheld
          have hmem : key ∈ byPath.map Prod.fst := List.mem_map.2 ⟨_, hprev, rfl⟩
          simp only [hheld] at h
          split at h
          · cases h
          · obtain rfl := Except.ok.inj h
            have hfst : (byPath.map fun c => if c.1 = key then (key, e) else c).map Prod.fst =
                byPath.map Prod.fst := by
              rw [List.map_map]
              refine List.map_congr_left fun c hc => ?_
              simp only [Function.comp]
              split_ifs with heq
              · exact heq.symm
              · rfl
            refine ⟨fun c hc => ?_, fun k hk => by rwa [hfst], fun k hk => ?_, fun c hc => ?_⟩
            · obtain ⟨c', hc', rfl⟩ := List.mem_map.1 hc
              split_ifs
              · exact hkey
              · exact hkeyed c' hc'
            · obtain rfl := Except.ok.inj hk
              rwa [hfst]
            · obtain ⟨c', hc', rfl⟩ := List.mem_map.1 hc
              split_ifs
              · exact .inr rfl
              · exact .inl hc'
          · obtain rfl := Except.ok.inj h
            refine ⟨hkeyed, fun k hk => hk, fun k hk => ?_, fun c hc => .inl hc⟩
            obtain rfl := Except.ok.inj hk
            exact hmem

/-- Adding raises only for a path that is no key, or a time that cannot be compared. -/
lemma ByPath.add_total (hkeyed : byPath.Keyed) (hkey : e.path.key = .ok key)
    (htimes : ∀ c ∈ byPath, c.2.path.key = .ok key → Json.Comparable e.ts c.2.ts) :
    ∃ byPath', byPath.add e = .ok byPath' := by
  unfold ByPath.add
  simp only [hkey]
  cases hheld : byPath.held key with
  | none => exact ⟨_, rfl⟩
  | some prev =>
      have hprev := mem_of_held hheld
      obtain ⟨b, hb⟩ := htimes _ hprev (hkeyed _ hprev)
      simp only [hb]
      cases b <;> exact ⟨_, rfl⟩

lemma ByPath.addRow_spec {r : Row} (hkeyed : byPath.Keyed) (h : byPath.addRow r = .ok byPath') :
    byPath'.Keyed ∧ (∀ k ∈ byPath.map Prod.fst, k ∈ byPath'.map Prod.fst) ∧
      (∀ path, r.Mentions path → .text path ∈ byPath'.map Prod.fst) ∧
      ∀ c ∈ byPath', c ∈ byPath ∨ some c.2 = r.entry := by
  rcases r with _ | _ | ⟨v, writable⟩
  · obtain rfl := Except.ok.inj h
    exact ⟨hkeyed, fun k hk => hk, fun path hpath => hpath.elim, fun c hc => .inl hc⟩
  · cases h
  · cases v with
    | obj fields =>
        obtain ⟨hkeyed', hold, hnew, hfrom⟩ := ByPath.add_spec hkeyed h
        refine ⟨hkeyed', hold, fun path hpath => hnew _ ?_, fun c hc => ?_⟩
        · have hstr : JournalEntry.path ⟨fields, writable⟩ = .str path := hpath
          rw [hstr]
          rfl
        · exact (hfrom c hc).imp_right fun heq => by rw [heq]; rfl
    | _ => cases h

lemma foldlM_addRow_spec {rows : List Row} (hkeyed : byPath.Keyed)
    (h : rows.foldlM ByPath.addRow byPath = .ok byPath') :
    byPath'.Keyed ∧ (∀ k ∈ byPath.map Prod.fst, k ∈ byPath'.map Prod.fst) ∧
      ∀ r ∈ rows, ∀ path, r.Mentions path → .text path ∈ byPath'.map Prod.fst := by
  induction rows generalizing byPath with
  | nil =>
      obtain rfl := Except.ok.inj h
      exact ⟨hkeyed, fun k hk => hk, nofun⟩
  | cons r rows ih =>
      rw [List.foldlM_cons] at h
      cases hr : byPath.addRow r with
      | error exc =>
          rw [hr] at h
          cases h
      | ok mid =>
          rw [hr] at h
          obtain ⟨hmid, hold, hnew, -⟩ := ByPath.addRow_spec hkeyed hr
          obtain ⟨hkeyed', hkeys, hrows⟩ := ih hmid h
          refine ⟨hkeyed', fun k hk => hkeys k (hold k hk), fun r' hr' path hpath => ?_⟩
          rcases List.mem_cons.1 hr' with rfl | hr'
          · exact hkeys _ (hnew path hpath)
          · exact hrows r' hr' path hpath

/-- Rows that fit, with times that can be compared to those of the entries they meet. -/
lemma foldlM_addRow_total {rows : List Row} (es : List JournalEntry) (hkeyed : byPath.Keyed)
    (hfits : ∀ r ∈ rows, r.Fits) (hrows : ∀ r ∈ rows, ∀ e, r.entry = some e → e ∈ es)
    (hmem : ∀ c ∈ byPath, c.2 ∈ es)
    (htimes : ∀ e ∈ es, ∀ e' ∈ es, e.path.key = e'.path.key → Json.Comparable e.ts e'.ts) :
    ∃ byPath', rows.foldlM ByPath.addRow byPath = .ok byPath' := by
  induction rows generalizing byPath with
  | nil => exact ⟨byPath, rfl⟩
  | cons r rows ih =>
      obtain ⟨mid, hmid⟩ : ∃ mid, byPath.addRow r = .ok mid := by
        have hr := hfits r List.mem_cons_self
        rcases r with _ | _ | ⟨v, writable⟩
        · exact ⟨byPath, rfl⟩
        · exact hr.elim
        · cases v with
          | obj fields =>
              obtain ⟨key, hkey⟩ : ∃ key, (JournalEntry.path ⟨fields, writable⟩).key = .ok key := hr
              refine ByPath.add_total hkeyed hkey fun c hc hckey => ?_
              exact htimes _ (hrows _ List.mem_cons_self _ rfl) _ (hmem c hc) (by rw [hkey, hckey])
          | _ => exact hr.elim
      obtain ⟨hmidKeyed, -, -, hfrom⟩ := ByPath.addRow_spec hkeyed hmid
      rw [List.foldlM_cons, hmid]
      refine ih hmidKeyed (fun r' hr' => hfits r' (List.mem_cons_of_mem _ hr'))
        (fun r' hr' => hrows r' (List.mem_cons_of_mem _ hr')) fun c hc => ?_
      rcases hfrom c hc with hc | hc
      · exact hmem c hc
      · exact hrows r List.mem_cons_self _ hc.symm

end byPath

lemma rowsOf_eq {lines : List Line} {rows : List Row} (h : rowsOf lines = .ok rows) :
    rows = lines.flatMap Line.rowList := by
  induction lines generalizing rows with
  | nil => exact (Except.ok.inj h).symm
  | cons l lines ih =>
      cases l with
      | undecodable => cases h
      | rows rs =>
          cases hlines : rowsOf lines with
          | error exc => simp [rowsOf, hlines, Except.map] at h
          | ok rest =>
              obtain rfl : rs ++ rest = rows := by simpa [rowsOf, hlines, Except.map] using h
              rw [ih hlines]
              rfl

lemma rowsOf_total {lines : List Line} (h : ∀ l ∈ lines, ∃ rs, l = .rows rs) :
    rowsOf lines = .ok (lines.flatMap Line.rowList) := by
  induction lines with
  | nil => rfl
  | cons l lines ih =>
      obtain ⟨rs, rfl⟩ := h l List.mem_cons_self
      rw [rowsOf, ih fun l' hl' => h l' (List.mem_cons_of_mem _ hl')]
      rfl

/-- **Nothing is overlooked.**  Each transcript that a line tells of has an entry to replay. -/
theorem readJournal_mentions {lines : List Line} {todo : List JournalEntry}
    (h : readJournal lines = .ok todo) {l : Line} (hl : l ∈ lines) {path : Text}
    (hpath : l.Mentions path) : ∃ e ∈ todo, e.path = .str path := by
  unfold readJournal at h
  cases hrows : rowsOf lines with
  | error exc => simp [hrows] at h
  | ok rows =>
      simp only [hrows] at h
      cases hfold : rows.foldlM ByPath.addRow [] with
      | error exc => simp [hfold, Except.map] at h
      | ok byPath =>
          obtain rfl : byPath.map Prod.snd = todo := by simpa [hfold, Except.map] using h
          obtain ⟨hkeyed, -, hkeys⟩ := foldlM_addRow_spec keyed_nil hfold
          obtain ⟨r, hr, hrpath⟩ : ∃ r ∈ rows, r.Mentions path := by
            rw [rowsOf_eq hrows]
            cases l with
            | undecodable => exact hpath.elim
            | rows rs =>
                obtain ⟨r, hr, hrpath⟩ := hpath
                exact ⟨r, List.mem_flatMap.2 ⟨_, hl, hr⟩, hrpath⟩
          obtain ⟨c, hc, hckey⟩ := List.mem_map.1 (hkeys r hr path hrpath)
          refine ⟨c.2, List.mem_map_of_mem hc, eq_of_key_text ?_⟩
          rw [hkeyed c hc, hckey]

/-- **Nothing raises.**  A file that fits is read. -/
theorem readJournal_total {lines : List Line} (h : FileFits lines) :
    ∃ todo, readJournal lines = .ok todo := by
  obtain ⟨byPath, hfold⟩ := foldlM_addRow_total ((lines.flatMap Line.rowList).filterMap Row.entry)
    keyed_nil h.rows (fun r hr e he => List.mem_filterMap.2 ⟨r, hr, he⟩) (by simp) h.times
  exact ⟨byPath.map Prod.snd, by simp [readJournal, rowsOf_total h.decodes, hfold, Except.map]⟩

/-! ### Steps that lose nothing -/

section

variable (maxEntries : ℕ) (broken : Json → List Row) (counts : Json → Bool)

/-- A step that loses nothing and does not raise: an append writes a line that is not broken to a
file that still has its name, a drain reads a file that fits, what it looks at does not raise, a
replay that reports a success was accepted, and a drain rewrites a file that nobody has changed
since, with entries that can be written and are not broken. -/
def Careful (s : Hooks) : HookLabel → Prop
  | .write i written => ∀ name inode path line, s.proc i = .appending name inode path line →
      written = true → breaks line = false ∧ ∃ f ∈ s.dir, f.name = name ∧ f.inode = inode
  | .read i _ => ∀ name files processed f, s.proc i = .draining (name :: files) processed →
      processed < maxEntries → s.dir.find? (·.name = name) = some f →
        FileFits (f.lines.map Prod.fst)
  | .replay i look a => ∀ d e todo, s.proc i = .replaying d → d.todo = e :: todo →
      d.processed < maxEntries → (∀ exc, e.look look ≠ .raises exc) ∧
        (e.look look = .there → a.fate counts (textOf e.path) ≠ .lost ∧
          a.fate counts (textOf e.path) ≠ .held)
  | .rewrite i written => ∀ d, s.proc i = .replaying d →
      (∀ e ∈ d.remaining, e.writable = true ∧ breaks (.obj e.fields) = false) ∧
        (written = true → ∀ f ∈ s.dir, f.name = d.name → f.lines = d.read)
  | _ => True

end

/-- A transcript is in a line that was written since it was journaled, or it was settled since. -/
def Hooks.Held (s : Hooks) (r : Text × ℕ) : Prop :=
  (∃ f ∈ s.dir, ∃ x ∈ f.lines, r.2 ≤ x.2 ∧ x.1.Mentions r.1) ∨
    ∃ st ∈ s.settled.drop r.2, st.path = r.1

/-- What a drain has read is still to be replayed, or to be written back, or was settled since. -/
structure Replaying.Covers (d : Replaying) (settled : List Settled) : Prop where
  since : d.since ≤ settled.length
  read : ∀ x ∈ d.read, x.2 ≤ d.since
  covered : ∀ path, (∃ x ∈ d.read, x.1.Mentions path) →
    (∃ e ∈ d.todo ++ d.remaining, e.path = .str path) ∨
      ∃ st ∈ settled.drop d.since, st.path = path

/-- What holds throughout a run. -/
structure Hooks.Kept (maxEntries : ℕ) (s : Hooks) : Prop where
  numbered : ∀ r ∈ s.journaled, r.2 ≤ s.settled.length
  stamped : ∀ f ∈ s.dir, ∀ x ∈ f.lines, x.2 ≤ s.settled.length
  held : ∀ r ∈ s.journaled, s.Held r
  covers : ∀ i d, s.proc i = .replaying d → d.Covers s.settled
  /-- The line of an append tells of its transcript. -/
  appends : ∀ i name inode path line, s.proc i = .appending name inode path line →
    ∃ wing sessionId ts, line = journalLine path wing sessionId ts
  quiet : ∀ i exc, s.proc i ≠ .raised exc
  ended : ∀ i files processed, s.proc i = .returned files processed →
    files = [] ∨ maxEntries ≤ processed

/-- What a process may be set to. -/
structure Proc.Fits (maxEntries : ℕ) (settled : List Settled) (p : Proc) : Prop where
  covers : ∀ d, p = .replaying d → d.Covers settled
  appends : ∀ name inode path line, p = .appending name inode path line →
    ∃ wing sessionId ts, line = journalLine path wing sessionId ts
  quiet : ∀ exc, p ≠ .raised exc
  ended : ∀ files processed, p = .returned files processed → files = [] ∨ maxEntries ≤ processed

section kept

variable {maxEntries : ℕ} {broken : Json → List Row} {counts : Json → Bool} {s : Hooks}

lemma Replaying.Covers.append {d : Replaying} {settled : List Settled} (h : d.Covers settled)
    (xs : List Settled) : d.Covers (settled ++ xs) where
  since := h.since.trans (by simp)
  read := h.read
  covered path hpath := (h.covered path hpath).imp_right fun ⟨st, hst, heq⟩ =>
    ⟨st, by rw [List.drop_append_of_le_length h.since]; exact List.mem_append_left _ hst, heq⟩

/-- A step that changes one process. -/
lemma kept_set (h : s.Kept maxEntries) (i : ℕ) {p : Proc} (hp : p.Fits maxEntries s.settled) :
    (s.set i p).Kept maxEntries := by
  have hproc : ∀ j, (s.set i p).proc j = p ∨ (s.set i p).proc j = s.proc j := by
    intro j
    by_cases hj : j = i
    · subst hj
      exact .inl (Function.update_self ..)
    · exact .inr (Function.update_of_ne hj ..)
  refine ⟨h.numbered, h.stamped, h.held, fun j d hd => ?_, fun j name inode path line hl => ?_,
    fun j exc hexc => ?_, fun j files processed hf => ?_⟩
  · rcases hproc j with hj | hj
    · exact hp.covers d (hj ▸ hd)
    · exact h.covers j d (hj ▸ hd)
  · rcases hproc j with hj | hj
    · exact hp.appends name inode path line (hj ▸ hl)
    · exact h.appends j name inode path line (hj ▸ hl)
  · rcases hproc j with hj | hj
    · exact hp.quiet exc (hj ▸ hexc)
    · exact h.quiet j exc (hj ▸ hexc)
  · rcases hproc j with hj | hj
    · exact hp.ended files processed (hj ▸ hf)
    · exact h.ended j files processed (hj ▸ hf)

lemma fits_idle (settled : List Settled) : Proc.idle.Fits maxEntries settled :=
  ⟨nofun, nofun, nofun, nofun⟩

lemma fits_draining (settled : List Settled) (files : List Text) (processed : ℕ) :
    (Proc.draining files processed).Fits maxEntries settled :=
  ⟨nofun, nofun, nofun, nofun⟩

lemma fits_replaying {settled : List Settled} {d : Replaying} (h : d.Covers settled) :
    (Proc.replaying d).Fits maxEntries settled :=
  ⟨fun _ hd => by obtain rfl := Proc.replaying.inj hd; exact h, nofun, nofun, nofun⟩

/-- More settlements leave what is kept. -/
lemma kept_settle (h : s.Kept maxEntries) (xs : List Settled) :
    Hooks.Kept maxEntries { s with settled := s.settled ++ xs } where
  numbered r hr := (h.numbered r hr).trans (by simp)
  stamped f hf x hx := (h.stamped f hf x hx).trans (by simp)
  held r hr := (h.held r hr).imp_right fun ⟨st, hst, heq⟩ => ⟨st, by
    dsimp only
    rw [List.drop_append_of_le_length (h.numbered r hr)]
    exact List.mem_append_left _ hst, heq⟩
  covers i d hd := (h.covers i d hd).append xs
  appends := h.appends
  quiet := h.quiet
  ended := h.ended

/-! ### Appends -/

lemma mentions_journalLine (path wing sessionId ts : Text)
    (hbreaks : breaks (journalLine path wing sessionId ts) = false) :
    (lineOf broken (journalLine path wing sessionId ts)).Mentions path := by
  refine ⟨.value (journalLine path wing sessionId ts) true, ?_, ?_⟩
  · rw [hbreaks]
    exact List.mem_singleton_self _
  · simp [journalLine, Row.Mentions, JournalEntry.path, JournalEntry.get, Json.lookup]

lemma kept_append {s' : Hooks} {i : ℕ} {name path wing sessionId ts : Text}
    (h : s.Kept maxEntries)
    (hnext : s.next maxEntries broken counts (.append i name path wing sessionId ts) = some s') :
    s'.Kept maxEntries := by
  have hfits : ∀ inode, (Proc.appending name inode path (journalLine path wing sessionId ts)).Fits
      maxEntries s.settled := fun inode => ⟨nofun, fun _ _ _ _ heq => by
    obtain ⟨-, -, rfl, rfl⟩ := Proc.appending.inj heq
    exact ⟨_, _, _, rfl⟩, nofun, nofun⟩
  simp only [Hooks.next] at hnext
  split at hnext
  · cases hnext
  · split at hnext
    · obtain rfl := Option.some.inj hnext
      exact kept_set h i (hfits _)
    · obtain rfl := Option.some.inj hnext
      have hcreated : Hooks.Kept maxEntries { s with
          dir := s.dir ++ [JournalFile.mk name s.inodes []], inodes := s.inodes + 1 } := by
        refine ⟨h.numbered, fun f hf x hx => ?_, fun r hr => ?_, h.covers, h.appends, h.quiet,
          h.ended⟩
        · rcases List.mem_append.1 hf with hf | hf
          · exact h.stamped f hf x hx
          · rw [List.mem_singleton.1 hf] at hx
            cases hx
        · exact (h.held r hr).imp_left fun ⟨f, hf, hx⟩ => ⟨f, List.mem_append_left _ hf, hx⟩
      exact kept_set hcreated i (hfits _)

/-- A line written to a file that has its name. -/
lemma kept_journal {name path : Text} {inode : ℕ} {line : Json} (h : s.Kept maxEntries)
    (hline : ∃ wing sessionId ts, line = journalLine path wing sessionId ts)
    (hbreaks : breaks line = false) (hfile : ∃ f ∈ s.dir, f.name = name ∧ f.inode = inode) :
    (s.journal broken name inode path line).Kept maxEntries := by
  refine ⟨fun r hr => ?_, fun f hf x hx => ?_, fun r hr => ?_, h.covers, h.appends, h.quiet,
    h.ended⟩
  · rcases List.mem_append.1 hr with hr | hr
    · exact h.numbered r hr
    · rw [List.mem_singleton.1 hr]
      exact le_rfl
  · obtain ⟨f', hf', rfl⟩ := List.mem_map.1 hf
    split_ifs at hx
    · rcases List.mem_append.1 hx with hx | hx
      · exact h.stamped f' hf' x hx
      · rw [List.mem_singleton.1 hx]
        exact le_rfl
    · exact h.stamped f' hf' x hx
  · rcases List.mem_append.1 hr with hold | hnew
    · refine (h.held r hold).imp_left fun ⟨f, hf, x, hx, hle, hpath⟩ => ?_
      refine ⟨_, List.mem_map_of_mem hf, x, ?_, hle, hpath⟩
      split_ifs
      · exact List.mem_append_left _ hx
      · exact hx
    · obtain ⟨f, hf, hname⟩ := hfile
      obtain ⟨wing, sessionId, ts, rfl⟩ := hline
      obtain rfl : r = (path, s.settled.length) := List.mem_singleton.1 hnew
      refine .inl ⟨_, List.mem_map_of_mem hf,
        (lineOf broken (journalLine path wing sessionId ts), s.settled.length), ?_, le_rfl,
        mentions_journalLine path wing sessionId ts hbreaks⟩
      rw [if_pos hname]
      exact List.mem_append_right _ (List.mem_singleton_self _)

lemma kept_write {s' : Hooks} {i : ℕ} {written : Bool} (h : s.Kept maxEntries)
    (hcareful : Careful maxEntries counts s (.write i written))
    (hnext : s.next maxEntries broken counts (.write i written) = some s') :
    s'.Kept maxEntries := by
  simp only [Hooks.next] at hnext
  split at hnext
  · rename_i name inode path line hproc
    split at hnext
    · rename_i hwritten
      obtain rfl := Option.some.inj hnext
      obtain ⟨hbreaks, hfile⟩ := hcareful name inode path line hproc hwritten
      exact kept_set (kept_journal h (h.appends i name inode path line hproc) hbreaks hfile) i
        (fits_idle _)
    · obtain rfl := Option.some.inj hnext
      exact kept_set h i (fits_idle _)
  · cases hnext

/-! ### Drains -/

lemma kept_read {s' : Hooks} {i : ℕ} {readable : Bool} (h : s.Kept maxEntries)
    (hcareful : Careful maxEntries counts s (.read i readable))
    (hnext : s.next maxEntries broken counts (.read i readable) = some s') :
    s'.Kept maxEntries := by
  simp only [Hooks.next] at hnext
  split at hnext
  · obtain rfl := Option.some.inj hnext
    exact kept_set h i ⟨nofun, nofun, nofun, fun _ _ heq =>
      .inl (Proc.returned.inj heq).1.symm⟩
  · rename_i name files processed hproc
    obtain rfl := Option.some.inj hnext
    unfold Hooks.readNext
    split_ifs with hmax hreadable
    · exact kept_set h i ⟨nofun, nofun, nofun, fun _ _ heq =>
        .inr ((Proc.returned.inj heq).2 ▸ hmax)⟩
    · exact kept_set h i (fits_draining _ _ _)
    · cases hfile : s.dir.find? (·.name = name) with
      | none => exact kept_set h i (fits_draining _ _ _)
      | some f =>
          have hfits := hcareful name files processed f hproc (not_le.1 hmax) hfile
          obtain ⟨todo, htodo⟩ := readJournal_total hfits
          simp only [htodo]
          refine kept_set h i (fits_replaying ⟨le_rfl, fun x hx => ?_, fun path hpath => ?_⟩)
          · exact h.stamped f (List.mem_of_find?_eq_some hfile) x hx
          · obtain ⟨x, hx, hpath⟩ := hpath
            obtain ⟨e, he, hepath⟩ := readJournal_mentions htodo (List.mem_map_of_mem hx) hpath
            exact .inl ⟨e, List.mem_append_left _ he, hepath⟩
  · cases hnext

/-- The entry that was taken is kept for the next drain. -/
lemma Replaying.Covers.keep {d d' : Replaying} {settled : List Settled} {e : JournalEntry}
    {todo : List JournalEntry} (h : d.Covers settled) (htodo : d.todo = e :: todo)
    (hread : d'.read = d.read ∧ d'.since = d.since) (htodo' : d'.todo = todo)
    (hremaining : d'.remaining = d.remaining ++ [e]) : d'.Covers settled := by
  refine ⟨by rw [hread.2]; exact h.since, by rw [hread.1, hread.2]; exact h.read,
    fun path hpath => ?_⟩
  rw [hread.1] at hpath
  rw [hread.2, htodo', hremaining]
  refine (h.covered path hpath).imp_left fun ⟨e', he', hepath⟩ => ⟨e', ?_, hepath⟩
  rw [htodo] at he'
  simp only [List.cons_append, List.mem_cons, List.mem_append] at he' ⊢
  tauto

/-- The entry that was taken is settled. -/
lemma Replaying.Covers.settle {d d' : Replaying} {settled : List Settled} {e : JournalEntry}
    {todo : List JournalEntry} {how : Text → Settled} (hhow : ∀ path, (how path).path = path)
    (h : d.Covers settled) (htodo : d.todo = e :: todo)
    (hread : d'.read = d.read ∧ d'.since = d.since) (htodo' : d'.todo = todo)
    (hremaining : d'.remaining = d.remaining) : d'.Covers (settled ++ e.settles how) := by
  refine ⟨?_, by rw [hread.1, hread.2]; exact h.read, fun path hpath => ?_⟩
  · rw [hread.2]
    exact (h.append _).since
  · rw [hread.1] at hpath
    rw [hread.2, htodo', hremaining, List.drop_append_of_le_length h.since]
    rcases h.covered path hpath with ⟨e', he', hepath⟩ | ⟨st, hst, heq⟩
    · rw [htodo, List.cons_append] at he'
      rcases List.mem_cons.1 he' with rfl | he'
      · refine .inr ⟨how path, List.mem_append_right _ ?_, hhow path⟩
        simp [JournalEntry.settles, hepath]
      · exact .inl ⟨e', he', hepath⟩
    · exact .inr ⟨st, List.mem_append_left _ hst, heq⟩

/-- A replay that reports a success, and has neither lost its slot nor found it held, was
accepted. -/
lemma fate_of_ok {path wing : Text} {a : Attempt} {failure : Option Failure}
    (hok : (ingestTranscriptViaDaemon path wing a).2 = .ok (true, failure))
    (hfate : a.fate counts path ≠ .lost ∧ a.fate counts path ≠ .held) :
    a.fate counts path = .accepted := by
  have hends := @ends_fate (fun _ => True) counts path wing a fun _ _ => trivial
  cases hcase : a.fate counts path with
  | raised =>
      rw [hcase] at hends
      obtain ⟨e, he⟩ := hends
      rw [hok] at he
      cases he
  | lost => exact absurd hcase hfate.1
  | held => exact absurd hcase hfate.2
  | accepted => rfl
  | refused =>
      rw [hcase] at hends
      have he := hends.2
      rw [hok] at he
      cases he
  | failed eligible =>
      rw [hcase] at hends
      obtain ⟨-, failure', he, -⟩ := hends
      rw [hok] at he
      cases he

lemma kept_replay {s' : Hooks} {i : ℕ} {look : Look} {a : Attempt} (h : s.Kept maxEntries)
    (hcareful : Careful maxEntries counts s (.replay i look a))
    (hnext : s.next maxEntries broken counts (.replay i look a) = some s') :
    s'.Kept maxEntries := by
  simp only [Hooks.next] at hnext
  split at hnext
  · rename_i d hproc
    split at hnext
    · cases hnext
    · rename_i e todo htodo
      obtain rfl := Option.some.inj hnext
      have hcovers := h.covers i d hproc
      unfold Hooks.replayNext
      by_cases hmax : maxEntries ≤ d.processed
      · rw [if_pos hmax]
        exact kept_set h i (fits_replaying (hcovers.keep htodo ⟨rfl, rfl⟩ rfl rfl))
      · rw [if_neg hmax]
        obtain ⟨hraises, hfate⟩ := hcareful d e todo hproc htodo (not_le.1 hmax)
        have hdiscard := kept_settle h (e.settles .discarded)
        cases hlook : e.look look with
        | raises exc => exact absurd hlook (hraises exc)
        | gone =>
            exact kept_set hdiscard i (fits_replaying
              (hcovers.settle (fun _ => rfl) htodo ⟨rfl, rfl⟩ rfl rfl))
        | small =>
            exact kept_set hdiscard i (fits_replaying
              (hcovers.settle (fun _ => rfl) htodo ⟨rfl, rfl⟩ rfl rfl))
        | there =>
            dsimp only
            split
            · rename_i failure hok
              simp only [fate_of_ok hok (hfate hlook), if_true]
              exact kept_set (kept_settle h _) i (fits_replaying
                (hcovers.settle (fun _ => rfl) htodo ⟨rfl, rfl⟩ rfl rfl))
            · exact kept_set h i (fits_replaying (hcovers.keep htodo ⟨rfl, rfl⟩ rfl rfl))
  · cases hnext

/-- Where a transcript is when a drain is about to rewrite a file that is as it was read. -/
lemma held_before_rewrite {d : Replaying} (h : s.Kept maxEntries) (hcovers : d.Covers s.settled)
    (htodo : d.todo = []) (hsame : ∀ f ∈ s.dir, f.name = d.name → f.lines = d.read)
    {r : Text × ℕ} (hr : r ∈ s.journaled) :
    (∃ f ∈ s.dir.filter (·.name ≠ d.name), ∃ x ∈ f.lines, r.2 ≤ x.2 ∧ x.1.Mentions r.1) ∨
      (∃ e ∈ d.remaining, e.path = .str r.1) ∨ ∃ st ∈ s.settled.drop r.2, st.path = r.1 := by
  rcases h.held r hr with ⟨f, hf, x, hx, hle, hpath⟩ | hsettled
  · by_cases hname : f.name = d.name
    · rw [hsame f hf hname] at hx
      rcases hcovers.covered r.1 ⟨x, hx, hpath⟩ with ⟨e, he, hepath⟩ | ⟨st, hst, heq⟩
      · rw [htodo, List.nil_append] at he
        exact .inr (.inl ⟨e, he, hepath⟩)
      · -- it was settled since the file was read, so since it was journaled
        have hsince : r.2 ≤ d.since := hle.trans (hcovers.read x hx)
        refine .inr (.inr ⟨st, ?_, heq⟩)
        exact (List.drop_sublist_drop_left s.settled hsince).subset hst
    · exact .inl ⟨f, List.mem_filter.2 ⟨hf, by simpa using hname⟩, x, hx, hle, hpath⟩
  · exact .inr (.inr hsettled)

/-- The line of an entry that can be written and is not broken. -/
lemma mentions_lineOf {e : JournalEntry} {path : Text} (hpath : e.path = .str path)
    (hbreaks : breaks (.obj e.fields) = false) :
    (lineOf broken (.obj e.fields)).Mentions path := by
  refine ⟨.value (.obj e.fields) true, ?_, hpath⟩
  rw [hbreaks]
  exact List.mem_singleton_self _

lemma kept_rewrite {s' : Hooks} {i : ℕ} {written : Bool} (h : s.Kept maxEntries)
    (hcareful : Careful maxEntries counts s (.rewrite i written))
    (hnext : s.next maxEntries broken counts (.rewrite i written) = some s') :
    s'.Kept maxEntries := by
  simp only [Hooks.next] at hnext
  split at hnext
  · rename_i d hproc
    split at hnext
    · rename_i htodo
      obtain rfl := Option.some.inj hnext
      obtain ⟨hentries, hsame⟩ := hcareful d hproc
      have hcovers := h.covers i d hproc
      have hheld := fun hwritten r hr => held_before_rewrite (r := r) h hcovers
        (List.isEmpty_iff.1 htodo) (hsame hwritten) hr
      have hothers : ∀ f ∈ s.dir.filter (·.name ≠ d.name), ∀ x ∈ f.lines,
          x.2 ≤ s.settled.length := fun f hf => h.stamped f (List.mem_of_mem_filter hf)
      unfold Hooks.rewrite
      dsimp only
      split_ifs with hwritten hempty hany
      · exact kept_set h i (fits_draining _ _ _)
      · have hnone := List.isEmpty_iff.1 hempty
        have hremoved : Hooks.Kept maxEntries
            { s with dir := s.dir.filter (·.name ≠ d.name) } := by
          refine ⟨h.numbered, hothers, fun r hr => ?_, h.covers, h.appends, h.quiet, h.ended⟩
          rcases hheld (by simpa using hwritten) r hr with hfile | ⟨e, he, -⟩ | hsettled
          · exact .inl hfile
          · rw [hnone] at he
            cases he
          · exact .inr hsettled
        exact kept_set hremoved i (fits_draining _ _ _)
      · obtain ⟨e, he, hnot⟩ := List.any_eq_true.1 hany
        simp [(hentries e he).1] at hnot
      · have hreplaced : Hooks.Kept maxEntries { s with
            dir := s.dir.filter (·.name ≠ d.name) ++ [JournalFile.mk d.name s.inodes
              (d.remaining.map fun e => (lineOf broken (.obj e.fields), s.settled.length))]
            inodes := s.inodes + 1 } := by
          refine ⟨h.numbered, fun f hf x hx => ?_, fun r hr => ?_, h.covers, h.appends, h.quiet,
            h.ended⟩
          · rcases List.mem_append.1 hf with hf | hf
            · exact hothers f hf x hx
            · rw [List.mem_singleton.1 hf] at hx
              obtain ⟨e, -, rfl⟩ := List.mem_map.1 hx
              exact le_rfl
          · rcases hheld (by simpa using hwritten) r hr with ⟨f, hf, hx⟩ | ⟨e, he, hpath⟩ | hst
            · exact .inl ⟨f, List.mem_append_left _ hf, hx⟩
            · exact .inl ⟨_, List.mem_append_right _ (List.mem_singleton_self _), _,
                List.mem_map_of_mem he, h.numbered r hr, mentions_lineOf hpath (hentries e he).2⟩
            · exact .inr hst
        exact kept_set hreplaced i (fits_draining _ _ _)
    · cases hnext
  · cases hnext

lemma kept_drain {s' : Hooks} {i : ℕ} {healthy : Bool} (h : s.Kept maxEntries)
    (hnext : s.next maxEntries broken counts (.drain i healthy) = some s') :
    s'.Kept maxEntries := by
  simp only [Hooks.next] at hnext
  split_ifs at hnext
  · obtain rfl := Option.some.inj hnext
    exact kept_set h i (fits_idle _)
  · obtain rfl := Option.some.inj hnext
    exact kept_set h i (fits_draining _ _ _)

lemma kept_next {s' : Hooks} {l : HookLabel} (h : s.Kept maxEntries)
    (hcareful : Careful maxEntries counts s l)
    (hnext : s.next maxEntries broken counts l = some s') : s'.Kept maxEntries := by
  cases l with
  | append i name path wing sessionId ts => exact kept_append h hnext
  | write i written => exact kept_write h hcareful hnext
  | drain i healthy => exact kept_drain h hnext
  | read i readable => exact kept_read h hcareful hnext
  | replay i look a => exact kept_replay h hcareful hnext
  | rewrite i written => exact kept_rewrite h hcareful hnext

lemma kept_init (h : (hookSystem maxEntries broken counts).init s) : s.Kept maxEntries := by
  obtain ⟨hidle, hsettled, hstamps, hjournaled⟩ := h
  refine ⟨fun r hr => ?_, fun f hf x hx => ?_, fun r hr => ?_, fun i d hd => ?_,
    fun i name inode path line hl => ?_, fun i exc hexc => ?_, fun i files processed hf => ?_⟩
  · rw [(hjournaled r hr).1]
    exact Nat.zero_le _
  · rw [hstamps f hf x hx]
    exact Nat.zero_le _
  · obtain ⟨hzero, f, hf, x, hx, hpath⟩ := hjournaled r hr
    exact .inl ⟨f, hf, x, hx, by rw [hzero]; exact Nat.zero_le _, hpath⟩
  · simp [hidle i] at hd
  · simp [hidle i] at hl
  · simp [hidle i] at hexc
  · simp [hidle i] at hf

end kept

/-! ### Two hooks -/

/-- The daemon accepts the mine of `/a.jsonl`. -/
def acceptedAttempt : Attempt :=
  { Attempt.ofSlot ⟨true, true, true, .locked⟩ (.answered 202 (.obj [])) with
    resolved := .ok ⟨['/'], ["a.jsonl".toList]⟩ }

/-- An empty journal. -/
def Hooks.fresh : Hooks := ⟨[], 0, fun _ => .idle, [], []⟩

lemma init_hooksFresh (maxEntries : ℕ) (broken : Json → List Row) (counts : Json → Bool) :
    (hookSystem maxEntries broken counts).init Hooks.fresh :=
  ⟨fun _ => rfl, rfl, nofun, nofun⟩

/-- A transcript is journaled, and a drain has read it. -/
def journaledAndRead : List HookLabel :=
  [.append 0 "d".toList "/a.jsonl".toList [] [] [], .write 0 true, .drain 0 true, .read 0 true]

/-- A file with one line of the hook. -/
lemma fileFits_journalLine (path wing sessionId ts : Text) :
    FileFits [.rows [.value (journalLine path wing sessionId ts) true]] := by
  refine ⟨fun l hl => ⟨_, List.mem_singleton.1 hl⟩, fun r hr => ?_, fun e he e' he' _ => ?_⟩
  · obtain rfl : r = .value (journalLine path wing sessionId ts) true := by
      simpa [Line.rowList] using hr
    exact ⟨.text path, rfl⟩
  · have hts : ∀ e ∈ ([Line.rows [Row.value (journalLine path wing sessionId ts) true]].flatMap
        Line.rowList).filterMap Row.entry, e.ts = .str ts := by
      intro e he
      obtain ⟨r, hr, hentry⟩ := List.mem_filterMap.1 he
      obtain rfl : r = .value (journalLine path wing sessionId ts) true := by
        simpa [Line.rowList] using hr
      obtain rfl := Option.some.inj hentry
      rfl
    rw [hts e he, hts e' he']
    exact Json.comparable_str ts ts

/-- A second hook journals a transcript while the first one replays, and the first one removes the
file. -/
def journaledDuringDrain : List HookLabel :=
  journaledAndRead ++ [HookLabel.append 1 "d".toList "/b.jsonl".toList [] [] [], .write 1 true,
    .replay 0 .there acceptedAttempt, .rewrite 0 true]

/-- A line that is a number ends the drain, and the files after it are not read. -/
example : ((hookSystem 50 (fun _ => []) (fun _ => true)).exec
    { Hooks.fresh with dir := [⟨['a'], 0, [(.rows [.value (.int 42) true], 0)]⟩, ⟨['b'], 1, []⟩] }
    [.drain 0 true, .read 0 true]).any
      (fun s => match s.proc 0 with | .raised _ => true | _ => false) := by decide

end PalaceDaemon.Hook

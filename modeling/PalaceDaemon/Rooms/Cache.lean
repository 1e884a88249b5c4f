/-
The canonical rooms, as the daemon keeps them.

`canonical_rooms` fills `_canonical_rooms_cache` once and returns it from then on; a change of the
rooms clears the variable after its commit, and so does `/admin/refresh-rooms`.  The variable has
no lock: a call reads it at its check and again when it returns, and its query lies between.
`rooms_coherent` says what goes wrong by saying when nothing does: no clear falls between the check
or store of a call and its return, no store brings back what was read before a change that has
cleared, and no call is given what another one stored after a lookup that failed.
-/
import Mathlib.Data.Finset.Sort
import Mathlib.Data.String.Basic
import PalaceDaemon.Lib.StepSystem

namespace PalaceDaemon.Rooms

/-! ### The lookup -/

/-- `DEFAULTS` -/
def defaults : Finset String :=
  {"architecture", "decisions", "problems", "planning", "sessions", "references", "discoveries"}

/-- How a lookup of `canonical_rooms` ends. -/
inductive CanonicalLookup
  /-- The backend is not postgres. -/
  | otherBackend
  /-- `MEMPALACE_POSTGRES_DSN` is not set. -/
  | noDsn
  | rows (names : Finset String)
  | raised
deriving DecidableEq

/-- The set that is stored. -/
def CanonicalLookup.rooms : CanonicalLookup → Finset String
  | .rows names => if names = ∅ then defaults else names
  | _ => defaults

/-- Where the daemon looks. -/
inductive Setting
  | otherBackend
  | noDsn
  | postgres

/-- What a lookup that does not raise finds. -/
def Setting.look : Setting → Finset String → CanonicalLookup
  | .otherBackend, _ => .otherBackend
  | .noDsn, _ => .noDsn
  | .postgres, table => .rows table

/-- The canonical rooms, when this is the table. -/
def Setting.canonical (setting : Setting) (table : Finset String) : Finset String :=
  (setting.look table).rooms

/-! ### The write validation -/

inductive RoomError
  /-- `None` was used as a set. -/
  | typeError
  | httpException (status : ℕ) (error : String) (validRooms : List String)
deriving DecidableEq

/-- `sorted` of the rooms -/
def sorted (rooms : Finset String) : List String := rooms.sort (· ≤ ·)

/-- `validate_room_or_raise`, with what its two calls of `canonical_rooms` return. -/
def validateRoomOrRaise (repr : String → String) (room : Option String)
    (judged again : Option (Finset String)) : Except RoomError Unit :=
  match room with
  | none => .ok ()
  | some room =>
      match judged with
      | none => .error .typeError
      | some rooms =>
          if room ∈ rooms then .ok ()
          else match again with
            | none => .error .typeError
            | some valid => .error (.httpException 400
                s!"room {repr room} is not in the canonical set" (sorted valid))

/-- The validation accepts what is in the set of its first call, whatever the second returns. -/
lemma validateRoomOrRaise_ok {repr : String → String} {room : Option String}
    {rooms : Finset String} {again : Option (Finset String)} :
    validateRoomOrRaise repr room (some rooms) again = .ok () ↔ ∀ r ∈ room, r ∈ rooms := by
  cases room with
  | none => simp [validateRoomOrRaise]
  | some room =>
      simp only [validateRoomOrRaise, Option.mem_some_iff, forall_eq']
      split_ifs with hroom
      · simp [hroom]
      · cases again <;> simp [hroom]

/-! ### The changes of the table -/

/-- A call of `fast_mcp_rooms_add`, `_rename` or `_remove`, with the names it has normalized. -/
inductive RoomChange
  | add (name : String)
  | rename (old new : String)
  | remove (name : String)
deriving DecidableEq

/-- The table after the change, if it is not refused. -/
def RoomChange.apply (table : Finset String) : RoomChange → Option (Finset String)
  | .add name => some (insert name table)
  | .rename old new =>
      if old = new ∨ old ∉ table ∨ new ∈ table then none else some (insert new (table.erase old))
  | .remove name => some (table.erase name)

/-- Where a change is; its version is that of the table it has committed. -/
inductive ChangePc
  | idle
  | committed (version : ℕ)
  | cleared (version : ℕ)
  | returned
deriving DecidableEq

/-! ### The calls -/

/-- A value of the cache, and where it comes from. -/
structure Judged where
  rooms : Finset String
  /-- The version of the table that was read. -/
  version : ℕ
  /-- They are the defaults of a lookup that failed. -/
  failed : Bool
deriving DecidableEq

/-- Where a call of `canonical_rooms` is. -/
inductive RoomsPc
  | idle
  /-- At `if _canonical_rooms_cache is not None`. -/
  | check
  | lookup
  | store (judged : Judged)
  /-- At `return _canonical_rooms_cache`. -/
  | reread
  | returned (answer : Option Judged)
deriving DecidableEq

structure RoomsCall where
  pc : RoomsPc
  /-- The newest version whose change had returned when the call began. -/
  since : ℕ
  /-- A lookup would have failed at some time during the call. -/
  outage : Bool
  lookupFailed : Bool
deriving DecidableEq

/-- The cache, with the table, the calls and the changes. -/
structure State where
  /-- The table after each commit. -/
  table : ℕ → Finset String
  version : ℕ
  /-- `_canonical_rooms_cache` -/
  cache : Option Judged
  /-- A lookup succeeds. -/
  answers : Bool
  /-- The newest version whose change has cleared the cache. -/
  cleared : ℕ
  /-- The newest version whose change has returned. -/
  announced : ℕ
  call : ℕ → RoomsCall
  change : ℕ → ChangePc

/-- What can happen next. -/
inductive Label
  /-- The database begins or ceases to answer. -/
  | answers (answers : Bool)
  | start (i : ℕ)
  /-- `/admin/refresh-rooms` clears the cache and calls `canonical_rooms`. -/
  | refresh (i : ℕ)
  /-- The call `i` reads or writes the variable. -/
  | run (i : ℕ)
  | look (i : ℕ)
  | commit (k : ℕ) (change : RoomChange)
  /-- `invalidate_rooms_cache` -/
  | clear (k : ℕ)
  | finish (k : ℕ)

/-- The call, when the database has ceased to answer. -/
def RoomsCall.noticed (c : RoomsCall) : RoomsCall :=
  match c.pc with
  | .idle | .returned _ => c
  | _ => { c with outage := true }

/-- The call at its check. -/
def State.begun (s : State) : RoomsCall := ⟨.check, s.announced, !s.answers, false⟩

def State.set (s : State) (i : ℕ) (c : RoomsCall) : State :=
  { s with call := Function.update s.call i c }

variable (setting : Setting)

/-- What the lookup of a call gives it to store. -/
def State.judge (s : State) : Judged :=
  if s.answers then ⟨setting.canonical (s.table s.version), s.version, false⟩
  else ⟨CanonicalLookup.raised.rooms, s.version, true⟩

/-- A step. -/
def State.next (s : State) : Label → Option State
  | .answers true => some { s with answers := true }
  | .answers false => some { s with answers := false, call := fun i => (s.call i).noticed }
  | .start i => if (s.call i).pc = .idle then some (s.set i s.begun) else none
  | .refresh i =>
      if (s.call i).pc = .idle then some ({ s with cache := none }.set i s.begun) else none
  | .run i =>
      match (s.call i).pc with
      | .check => some (s.set i { s.call i with
          pc := if s.cache.isSome then .reread else .lookup })
      | .store judged => some ({ s with cache := some judged }.set i { s.call i with
          pc := .reread })
      | .reread => some (s.set i { s.call i with pc := .returned s.cache })
      | _ => none
  | .look i =>
      match (s.call i).pc with
      | .lookup => some (s.set i { s.call i with
          pc := .store (s.judge setting)
          lookupFailed := !s.answers })
      | _ => none
  | .commit k change =>
      match s.change k, change.apply (s.table s.version) with
      | .idle, some table => some { s with
          table := Function.update s.table (s.version + 1) table
          version := s.version + 1
          change := Function.update s.change k (.committed (s.version + 1)) }
      | _, _ => none
  | .clear k =>
      match s.change k with
      | .committed version => some { s with
          cache := none
          cleared := max s.cleared version
          change := Function.update s.change k (.cleared version) }
      | _ => none
  | .finish k =>
      match s.change k with
      | .cleared version => some { s with
          announced := max s.announced version
          change := Function.update s.change k .returned }
      | _ => none

/-- The calls and changes from the start of the daemon. -/
def roomsSystem : StepSystem State Label where
  init s := s.version = 0 ∧ s.cache = none ∧ s.cleared = 0 ∧ s.announced = 0 ∧
    (∀ i, s.call i = ⟨.idle, 0, false, false⟩) ∧ ∀ k, s.change k = .idle
  next := State.next setting

/-! ### What is coherent -/

/-- What a call may answer: a set, by which a validation judges as by the table of a change that
had returned when it began, or of a later one, unless its own lookup failed, and which is not what
was used for want of the table, if the database answered all the time. -/
structure State.Answers (s : State) (c : RoomsCall) (answer : Option Judged) : Prop where
  notNone : answer.isSome
  judges : c.since ≠ 0 → c.lookupFailed = false → ∀ judged ∈ answer,
    ∃ v, c.since ≤ v ∧ v ≤ s.version ∧ ∀ repr room again,
      validateRoomOrRaise repr room (some judged.rooms) again = .ok () ↔
        ∀ r ∈ room, r ∈ setting.canonical (s.table v)
  notKept : c.outage = false → ∀ judged ∈ answer, judged.failed = false

/-- Every call that has returned has answered so. -/
def State.Coherent (s : State) : Prop :=
  ∀ i answer, (s.call i).pc = .returned answer → s.Answers setting (s.call i) answer

/-- A call that may be given what is stored after a failed lookup: its own failed, or the database
has not answered all the time and no change had returned. -/
def RoomsCall.Excused (c : RoomsCall) : Prop :=
  c.lookupFailed = true ∨ c.since = 0 ∧ c.outage = true

/-- No call is between its check or store and its return. -/
def State.NoneRereads (s : State) : Prop := ∀ i, (s.call i).pc ≠ .reread

/-- A clear finds no call before its return and, if it is that of a change, no lookup from before
the change still to be stored; and no call is given what another stored after a failed lookup. -/
def Undisturbed (s : State) : Label → Prop
  | .refresh _ => s.NoneRereads
  | .clear k => s.NoneRereads ∧ ∀ version, s.change k = .committed version →
      ∀ i judged, (s.call i).pc = .store judged → judged.failed = false → version ≤ judged.version
  | .run i =>
      ((s.call i).pc = .check → ∀ judged ∈ s.cache, judged.failed = true → (s.call i).Excused) ∧
      ∀ judged, (s.call i).pc = .store judged → judged.failed = true →
        ∀ j, (s.call j).pc = .reread → (s.call j).Excused
  | _ => True

/-! ### The invariant -/

/-- It was read from the table after every change that has cleared, unless the lookup failed. -/
def State.Good (s : State) (judged : Judged) : Prop :=
  judged.failed = false → judged.version ≤ s.version ∧ s.cleared ≤ judged.version ∧
    judged.rooms = setting.canonical (s.table judged.version)

/-- What holds of one call. -/
structure State.CallOk (s : State) (c : RoomsCall) : Prop where
  since : c.since ≤ s.announced
  outage : c.lookupFailed = true → c.outage = true
  down : c.pc = .check ∨ c.pc = .lookup → s.answers = false → c.outage = true
  store : ∀ judged, c.pc = .store judged →
    s.Good setting judged ∧ (judged.failed = true → c.lookupFailed = true)
  reread : c.pc = .reread → ∃ judged ∈ s.cache, judged.failed = true → c.Excused
  returned : ∀ answer, c.pc = .returned answer → s.Answers setting c answer

/-- What holds in the runs without such a step. -/
structure State.Inv (s : State) : Prop where
  announced : s.announced ≤ s.cleared
  cleared : s.cleared ≤ s.version
  change : ∀ k v, (s.change k = .committed v → v ≤ s.version) ∧
    (s.change k = .cleared v → v ≤ s.cleared)
  cache : ∀ judged ∈ s.cache, s.Good setting judged
  call : ∀ i, s.CallOk setting (s.call i)

section moves

variable {setting} {s s' : State} {i k : ℕ} {c : RoomsCall} {judged : Judged}

/-- The table keeps what it was at the versions so far. -/
def State.Extends (s s' : State) : Prop :=
  s.version ≤ s'.version ∧ ∀ v ≤ s.version, s'.table v = s.table v

lemma State.Extends.refl (s : State) : s.Extends s := ⟨le_rfl, fun _ _ => rfl⟩

lemma State.Answers.mono {answer : Option Judged} (h : s.Answers setting c answer)
    (hext : s.Extends s') : s'.Answers setting c answer := by
  refine ⟨h.notNone, fun hsince hlookup judged hjudged => ?_, h.notKept⟩
  obtain ⟨v, hv, hle, hjudges⟩ := h.judges hsince hlookup judged hjudged
  exact ⟨v, hv, hle.trans hext.1, by rwa [hext.2 v hle]⟩

lemma State.Good.mono (h : s.Good setting judged) (hext : s.Extends s')
    (hcleared : judged.failed = false → s'.cleared ≤ judged.version) :
    s'.Good setting judged := by
  intro hfailed
  obtain ⟨hversion, -, hrooms⟩ := h hfailed
  exact ⟨hversion.trans hext.1, hcleared hfailed, by rw [hrooms, hext.2 _ hversion]⟩

/-- A call that does not move. -/
lemma State.CallOk.mono (h : s.CallOk setting c) (hext : s.Extends s')
    (hannounced : s.announced ≤ s'.announced) (hanswers : s'.answers = false → s.answers = false)
    (hstore : ∀ judged, c.pc = .store judged → judged.failed = false →
      s'.cleared ≤ judged.version)
    (hreread : c.pc = .reread → ∃ judged ∈ s'.cache, judged.failed = true → c.Excused) :
    s'.CallOk setting c :=
  ⟨h.since.trans hannounced, h.outage, fun hpc hdown => h.down hpc (hanswers hdown),
    fun judged hpc => ⟨(h.store judged hpc).1.mono hext (hstore judged hpc),
      (h.store judged hpc).2⟩,
    hreread, fun answer hpc => (h.returned answer hpc).mono hext⟩

/-- A call that does not move, when nothing has been cleared. -/
lemma State.CallOk.mono_of_cleared (h : s.CallOk setting c) (hext : s.Extends s')
    (hannounced : s.announced ≤ s'.announced) (hanswers : s'.answers = false → s.answers = false)
    (hcleared : s'.cleared = s.cleared) (hcache : s'.cache = s.cache) : s'.CallOk setting c := by
  refine h.mono hext hannounced hanswers (fun judged hpc hfailed => ?_)
    (by rw [hcache]; exact h.reread)
  rw [hcleared]
  exact ((h.store judged hpc).1 hfailed).2.1

@[simp] lemma call_set_self : (s.set i c).call i = c := Function.update_self ..

lemma call_set_of_ne {j : ℕ} (hj : j ≠ i) : (s.set i c).call j = s.call j :=
  Function.update_of_ne hj ..

/-- One call moves on, and the variable stays. -/
lemma inv_set (h : s.Inv setting) (hc : s.CallOk setting c) : (s.set i c).Inv setting := by
  refine ⟨h.announced, h.cleared, h.change, h.cache, fun j => ?_⟩
  by_cases hji : j = i
  · subst hji
    rw [call_set_self]
    exact hc.mono_of_cleared (.refl s) le_rfl id rfl rfl
  · rw [call_set_of_ne hji]
    exact (h.call j).mono_of_cleared (.refl s) le_rfl id rfl rfl

/-- One call moves on, and the variable is written: the calls before their return may be given
what it holds now. -/
lemma inv_write {cache : Option Judged} (h : s.Inv setting)
    (hc : State.CallOk setting { s with cache := cache } c)
    (hcache : ∀ judged ∈ cache, s.Good setting judged)
    (hothers : ∀ j, (s.call j).pc = .reread → ∃ judged ∈ cache,
      judged.failed = true → (s.call j).Excused) :
    (State.set { s with cache := cache } i c).Inv setting := by
  refine ⟨h.announced, h.cleared, h.change, hcache, fun j => ?_⟩
  by_cases hji : j = i
  · subst hji
    rw [call_set_self]
    exact hc.mono_of_cleared (.refl s) le_rfl id rfl rfl
  · rw [call_set_of_ne hji]
    exact (h.call j).mono (.refl s) le_rfl id
      (fun judged hpc hfailed => (((h.call j).store judged hpc).1 hfailed).2.1) (hothers j)

lemma callOk_begun {cache : Option Judged} :
    State.CallOk setting { s with cache := cache } s.begun :=
  ⟨le_rfl, by simp [State.begun], fun _ hdown => by simpa [State.begun] using hdown, nofun, nofun,
    nofun⟩

lemma good_judge (h : s.Inv setting) : s.Good setting (s.judge setting) := by
  unfold State.judge
  split_ifs
  · exact fun _ => ⟨le_rfl, h.cleared, rfl⟩
  · exact nofun

lemma inv_run (h : s.Inv setting) (hok : Undisturbed s (.run i))
    (hnext : s.next setting (.run i) = some s') : s'.Inv setting := by
  have hcall := h.call i
  simp only [State.next] at hnext
  split at hnext
  · -- the check
    rename_i hpc
    obtain rfl := Option.some.inj hnext
    refine inv_set h ⟨hcall.since, hcall.outage, fun _ => hcall.down (.inl hpc),
      fun judged hstore => ?_, fun hreread => ?_, fun answer hreturned => ?_⟩
    · dsimp only at hstore
      split_ifs at hstore
    · dsimp only at hreread
      split_ifs at hreread with hsome
      obtain ⟨judged, hjudged⟩ := Option.isSome_iff_exists.1 hsome
      exact ⟨judged, hjudged, hok.1 hpc judged hjudged⟩
    · dsimp only at hreturned
      split_ifs at hreturned
  · -- the store
    rename_i judged hpc
    obtain rfl := Option.some.inj hnext
    obtain ⟨hgood, hfailed⟩ := hcall.store judged hpc
    refine inv_write h ⟨hcall.since, hcall.outage, by simp, nofun, fun _ => ?_, nofun⟩ ?_
      fun j hj => ?_
    · exact ⟨judged, rfl, fun h => .inl (hfailed h)⟩
    · rintro _ ⟨⟩
      exact hgood
    · exact ⟨judged, rfl, fun h => hok.2 judged hpc h j hj⟩
  · -- the return
    rename_i hpc
    obtain rfl := Option.some.inj hnext
    refine inv_set h ⟨hcall.since, hcall.outage, by simp, nofun, nofun, ?_⟩
    rintro _ ⟨⟩
    obtain ⟨judged, hjudged, hexcused⟩ := hcall.reread hpc
    have hgood := h.cache judged hjudged
    refine ⟨by simp [Option.mem_def.1 hjudged], fun hsince hlookup a ha => ?_, fun hout a ha => ?_⟩
    all_goals obtain rfl := Option.mem_unique ha hjudged
    · have hfailed : a.failed = false := by
        refine Bool.eq_false_iff.2 fun hf => ?_
        rcases hexcused hf with hl | ⟨hzero, -⟩
        · rw [hlookup] at hl
          cases hl
        · exact hsince hzero
      obtain ⟨hversion, hcleared, hrooms⟩ := hgood hfailed
      refine ⟨a.version, hcall.since.trans (h.announced.trans hcleared), hversion, ?_⟩
      intro repr room again
      rw [validateRoomOrRaise_ok, hrooms]
    · refine Bool.eq_false_iff.2 fun hf => ?_
      rcases hexcused hf with hl | ⟨-, ho⟩
      · exact absurd (hcall.outage hl) (by simp [show (s.call i).outage = false from hout])
      · exact absurd ho (by simp [show (s.call i).outage = false from hout])
  · cases hnext

/-- The database ceases to answer. -/
lemma callOk_noticed (h : s.CallOk setting c) :
    State.CallOk setting { s with answers := false } c.noticed := by
  unfold RoomsCall.noticed
  split
  · rename_i hpc
    exact ⟨h.since, h.outage, by simp [hpc], h.store, h.reread, fun a ha => (h.returned a ha).mono
      (.refl s)⟩
  · rename_i answer hpc
    exact ⟨h.since, h.outage, by simp [hpc], h.store, h.reread, fun a ha => (h.returned a ha).mono
      (.refl s)⟩
  · rename_i hidle hreturned
    refine ⟨h.since, fun _ => rfl, fun _ _ => rfl, h.store, fun hpc => ?_, fun answer hpc =>
      absurd hpc (hreturned answer)⟩
    obtain ⟨judged, hjudged, hexcused⟩ := h.reread hpc
    exact ⟨judged, hjudged, fun hf => (hexcused hf).imp_right fun h => ⟨h.1, rfl⟩⟩

lemma inv_clear {version : ℕ} (h : s.Inv setting) (hpc : s.change k = .committed version)
    (hreread : s.NoneRereads) (hstore : ∀ i judged, (s.call i).pc = .store judged →
      judged.failed = false → version ≤ judged.version) :
    State.Inv setting { s with
      cache := none
      cleared := max s.cleared version
      change := Function.update s.change k (.cleared version) } := by
  have hversion := (h.change k version).1 hpc
  refine ⟨h.announced.trans (le_max_left _ _), max_le h.cleared hversion, fun j v => ?_, nofun,
    fun i => (h.call i).mono ⟨le_rfl, fun _ _ => rfl⟩ le_rfl id (fun judged hi hfailed => ?_)
      fun hi => absurd hi (hreread i)⟩
  · by_cases hjk : j = k
    · subst hjk
      simp only [Function.update_self, reduceCtorEq, false_implies, true_and]
      rintro ⟨⟩
      exact le_max_right _ _
    · simp only [Function.update_of_ne hjk]
      exact ⟨(h.change j v).1, fun hj => ((h.change j v).2 hj).trans (le_max_left _ _)⟩
  · exact max_le (((h.call i).store judged hi).1 hfailed).2.1 (hstore i judged hi hfailed)

lemma inv_commit {table : Finset String} (h : s.Inv setting) :
    State.Inv setting { s with
      table := Function.update s.table (s.version + 1) table
      version := s.version + 1
      change := Function.update s.change k (.committed (s.version + 1)) } := by
  have hext : s.Extends { s with
      table := Function.update s.table (s.version + 1) table
      version := s.version + 1
      change := Function.update s.change k (.committed (s.version + 1)) } :=
    ⟨Nat.le_succ _, fun v hv => Function.update_of_ne (by omega) ..⟩
  refine ⟨h.announced, h.cleared.trans (Nat.le_succ _), fun j v => ?_,
    fun judged hj => (h.cache judged hj).mono hext fun hf => (h.cache judged hj hf).2.1,
    fun i => (h.call i).mono_of_cleared hext le_rfl id rfl rfl⟩
  by_cases hjk : j = k
  · subst hjk
    simp only [Function.update_self, reduceCtorEq, false_implies, and_true]
    rintro ⟨⟩
    exact le_rfl
  · simp only [Function.update_of_ne hjk]
    exact ⟨fun hj => ((h.change j v).1 hj).trans (Nat.le_succ _), (h.change j v).2⟩

lemma inv_finish {version : ℕ} (h : s.Inv setting) (hpc : s.change k = .cleared version) :
    State.Inv setting { s with
      announced := max s.announced version
      change := Function.update s.change k .returned } := by
  refine ⟨max_le h.announced ((h.change k version).2 hpc), h.cleared, fun j v => ?_, h.cache,
    fun i => (h.call i).mono_of_cleared ⟨le_rfl, fun _ _ => rfl⟩ (le_max_left _ _) id rfl rfl⟩
  by_cases hjk : j = k
  · subst hjk
    simp
  · simp only [Function.update_of_ne hjk]
    exact h.change j v

lemma inv_next {l : Label} (h : s.Inv setting) (hok : Undisturbed s l)
    (hnext : s.next setting l = some s') : s'.Inv setting := by
  cases l with
  | answers answers =>
      cases answers with
      | true =>
          obtain rfl := Option.some.inj hnext
          exact ⟨h.announced, h.cleared, h.change, h.cache,
            fun i => (h.call i).mono_of_cleared (.refl s) le_rfl nofun rfl rfl⟩
      | false =>
          obtain rfl := Option.some.inj hnext
          exact ⟨h.announced, h.cleared, h.change, h.cache,
            fun i => (callOk_noticed (h.call i)).mono_of_cleared (.refl s) le_rfl id rfl rfl⟩
  | start i =>
      simp only [State.next] at hnext
      split_ifs at hnext
      obtain rfl := Option.some.inj hnext
      exact inv_set h callOk_begun
  | refresh i =>
      simp only [State.next] at hnext
      split_ifs at hnext
      obtain rfl := Option.some.inj hnext
      exact inv_write h callOk_begun nofun fun j hj => absurd hj (hok j)
  | run i => exact inv_run h hok hnext
  | look i =>
      simp only [State.next] at hnext
      split at hnext
      · rename_i hpc
        obtain rfl := Option.some.inj hnext
        have hcall := h.call i
        refine inv_set h ⟨hcall.since, fun hfailed => hcall.down (.inr hpc) ?_, by simp, ?_, nofun,
          nofun⟩
        · simpa using hfailed
        · rintro _ ⟨⟩
          refine ⟨good_judge h, ?_⟩
          cases hs : s.answers <;> simp [State.judge, hs]
      · cases hnext
  | commit k change =>
      simp only [State.next] at hnext
      split at hnext
      · obtain rfl := Option.some.inj hnext
        exact inv_commit h
      · cases hnext
  | clear k =>
      simp only [State.next] at hnext
      split at hnext
      · rename_i version hpc
        obtain rfl := Option.some.inj hnext
        exact inv_clear h hpc hok.1 (hok.2 version hpc)
      · cases hnext
  | finish k =>
      simp only [State.next] at hnext
      split at hnext
      · rename_i version hpc
        obtain rfl := Option.some.inj hnext
        exact inv_finish h hpc
      · cases hnext

/-- **The cache is coherent in the runs without a race.**  No clear falls between the check or
store of a call and its return, no change clears while what was read before it is still to be
stored, and no call is given what another stored after a failed lookup: then no call returns
`None`, each judges by the table of the changes that had returned before it, and the defaults of a
failed lookup are not kept. -/
theorem rooms_coherent (h : (roomsSystem setting).ReachedBy Undisturbed s) :
    s.Coherent setting := by
  have hinv : s.Inv setting := by
    refine h.invariant (fun s hs => ?_) fun _ _ _ hs hok hnext => inv_next hs hok hnext
    obtain ⟨hversion, hcache, hcleared, hannounced, hcall, hchange⟩ := hs
    refine ⟨by simp [hannounced], by simp [hcleared], fun k v => by simp [hchange],
      by simp [hcache], fun i => ?_⟩
    rw [hcall]
    exact ⟨by simp, nofun, by simp, nofun, nofun, nofun⟩
  exact fun i => (hinv.call i).returned

end moves

/-! ### Two runs -/

/-- Nothing has been asked for, and one room is in the table. -/
def atStart : State :=
  ⟨fun _ => {"planning"}, 0, none, true, 0, 0, fun _ => ⟨.idle, 0, false, false⟩, fun _ => .idle⟩

lemma init_atStart : (roomsSystem .postgres).init atStart :=
  ⟨rfl, rfl, rfl, rfl, fun _ => rfl, fun _ => rfl⟩

/-- A room is added, and a validation looks it up. -/
theorem rooms_coherent_added : ∃ (s : State) (judged : Judged),
    (s.call 0).pc = .returned (some judged) ∧ (s.call 0).since = 1 ∧ s.Coherent .postgres := by
  have hmeets : (roomsSystem .postgres).Meets Undisturbed atStart
      [.commit 0 (.add "diary"), .clear 0, .finish 0, .start 0, .run 0, .look 0, .run 0,
        .run 0] := by
    refine ⟨trivial, ?_⟩
    rintro _ ⟨⟩
    refine ⟨⟨fun i => nofun, nofun⟩, ?_⟩
    rintro _ ⟨⟩
    refine ⟨trivial, ?_⟩
    rintro _ ⟨⟩
    refine ⟨trivial, ?_⟩
    rintro _ ⟨⟩
    refine ⟨⟨nofun, nofun⟩, ?_⟩
    rintro _ ⟨⟩
    refine ⟨trivial, ?_⟩
    rintro _ ⟨⟩
    refine ⟨⟨nofun, ?_⟩, ?_⟩
    · rintro _ ⟨⟩
      exact nofun
    rintro _ ⟨⟩
    refine ⟨⟨nofun, nofun⟩, ?_⟩
    rintro _ ⟨⟩
    trivial
  obtain ⟨s, hs, hend⟩ := (roomsSystem .postgres).exists_of_exec_any atStart
    [.commit 0 (.add "diary"), .clear 0, .finish 0, .start 0, .run 0, .look 0, .run 0, .run 0]
    (fun s => (s.call 0).since == 1 && match (s.call 0).pc with
      | .returned answer => answer.isSome
      | _ => false) rfl
  rw [Bool.and_eq_true] at hend
  obtain ⟨hsince, hreturned⟩ := hend
  split at hreturned
  · rename_i answer hpc
    obtain ⟨judged, rfl⟩ := Option.isSome_iff_exists.1 hreturned
    exact ⟨s, judged, hpc, eq_of_beq hsince,
      rooms_coherent ((StepSystem.ReachedBy.init init_atStart).exec hmeets hs)⟩
  · cases hreturned

/-- A refresh clears the cache between the store of a call and its return. -/
theorem rooms_incoherent :
    ¬ ∀ s, (roomsSystem .postgres).Reachable s → s.Coherent .postgres := by
  intro hcoherent
  obtain ⟨s, hs, hend⟩ := (roomsSystem .postgres).exists_of_exec_any atStart
    [.start 0, .run 0, .look 0, .run 0, .refresh 1, .run 0]
    (fun s => match (s.call 0).pc with
      | .returned answer => answer.isNone
      | _ => false) rfl
  split at hend
  · rename_i answer hpc
    obtain rfl := Option.isNone_iff_eq_none.1 hend
    have hanswers := hcoherent s (StepSystem.Reachable.exec (.init init_atStart) hs) 0 none hpc
    exact absurd hanswers.notNone (by simp)
  · cases hend

end PalaceDaemon.Rooms

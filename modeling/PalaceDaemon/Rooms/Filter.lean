/-
The rooms that a filter may name.

`validate_room_filter_or_raise` passes a room that is canonical or that a drawer has.  The rooms
that have drawers are cached, so the validation reads them a second time before it refuses, and a
read that fails falls back on the cache.  `refusal_seen_iff` says when a refusal rests on a read of
the same call: always, unless the cache was there before the call, lacks the room, and the second
read fails.
-/
import Mathlib
import PalaceDaemon.Rooms.Cache

namespace PalaceDaemon.Rooms

/-- How the query of `_read_present_rooms` ends. -/
inductive PresentLookup
  | noDsn
  | rows (names : Finset String)
  | raised
deriving DecidableEq

/-- `_read_present_rooms` -/
def readPresentRooms : PresentLookup → Option (Finset String)
  | .rows names => some names
  | _ => none

/-- The two variables of the module. -/
structure Caches where
  /-- `_canonical_rooms_cache` -/
  canonical : Option (Finset String)
  /-- `_present_rooms_cache` -/
  present : Option (Finset String)

/-- `canonical_rooms`, when nothing else runs. -/
def canonicalRooms (caches : Caches) (lookup : CanonicalLookup) : Finset String × Caches :=
  match caches.canonical with
  | some rooms => (rooms, caches)
  | none => (lookup.rooms, { caches with canonical := some lookup.rooms })

/-- `present_rooms`, with the lookups it has made. -/
def presentRooms (refresh : Bool) (caches : Caches) (lookup : PresentLookup) :
    Option (Finset String) × Caches × List PresentLookup :=
  match caches.present, refresh with
  | some rooms, false => (some rooms, caches, [])
  | _, _ =>
      match readPresentRooms lookup with
      | some found => (some found, { caches with present := some found }, [lookup])
      | none => (caches.present, caches, [lookup])

/-- How the lookups of a call end, if it makes them. -/
structure Lookups where
  canonical : CanonicalLookup
  present : PresentLookup
  /-- Of `present_rooms(refresh=True)`. -/
  again : PresentLookup

/-- What a call of `validate_room_filter_or_raise` does. -/
structure FilterRun where
  verdict : Except RoomError Unit
  caches : Caches
  /-- The lookups of the present rooms that were made. -/
  looked : List PresentLookup

/-- `validate_room_filter_or_raise` -/
def validateRoomFilterOrRaise (repr : String → String) (room : Option String) (caches : Caches)
    (lookups : Lookups) : FilterRun :=
  match room with
  | none => ⟨.ok (), caches, []⟩
  | some room =>
      let (canonical, caches) := canonicalRooms caches lookups.canonical
      if room ∈ canonical then ⟨.ok (), caches, []⟩
      else
        let (present, caches, looked) := presentRooms false caches lookups.present
        match present with
        | none => ⟨.ok (), caches, looked⟩
        | some present =>
            if room ∈ present then ⟨.ok (), caches, looked⟩
            else
              let (present, caches, again) := presentRooms true caches lookups.again
              match present with
              | none => ⟨.error .typeError, caches, looked ++ again⟩
              | some present =>
                  if room ∈ present then ⟨.ok (), caches, looked ++ again⟩
                  else ⟨.error (.httpException 400
                      s!"room {repr room} holds no drawers and is not canonical"
                      (sorted (canonical ∪ present))), caches, looked ++ again⟩

/-! ### The lookups -/

variable {repr : String → String} {room : Option String} {caches : Caches} {lookups : Lookups}

/-- The canonical rooms that the call judges by. -/
def judgedCanonical (caches : Caches) (lookups : Lookups) : Finset String :=
  caches.canonical.getD lookups.canonical.rooms

@[simp] lemma canonicalRooms_fst :
    (canonicalRooms caches lookups.canonical).1 = judgedCanonical caches lookups := by
  unfold canonicalRooms judgedCanonical
  cases caches.canonical <;> rfl

@[simp] lemma canonicalRooms_present (lookup : CanonicalLookup) :
    (canonicalRooms caches lookup).2.present = caches.present := by
  unfold canonicalRooms
  cases caches.canonical <;> rfl

/-- A cached answer costs no lookup. -/
lemma presentRooms_cached {rooms : Finset String} (lookup : PresentLookup)
    (h : caches.present = some rooms) :
    presentRooms false caches lookup = (some rooms, caches, []) := by
  simp [presentRooms, h]

/-- A lookup that succeeds is the answer. -/
lemma presentRooms_found (refresh : Bool) {lookup : PresentLookup} {found : Finset String}
    (h : caches.present = none ∨ refresh = true) (hfound : readPresentRooms lookup = some found) :
    presentRooms refresh caches lookup =
      (some found, { caches with present := some found }, [lookup]) := by
  rcases h with h | rfl
  · simp [presentRooms, h, hfound]
  · simp [presentRooms, hfound]

/-- A lookup that fails leaves what is cached. -/
lemma presentRooms_failed (refresh : Bool) {lookup : PresentLookup}
    (h : caches.present = none ∨ refresh = true) (hfound : readPresentRooms lookup = none) :
    presentRooms refresh caches lookup = (caches.present, caches, [lookup]) := by
  rcases h with h | rfl
  · simp [presentRooms, h, hfound]
  · simp [presentRooms, hfound]

/-! ### When a refusal has been seen to be right -/

/-- The call raises. -/
def FilterRun.Raises (run : FilterRun) : Prop := ∃ error, run.verdict = .error error

/-- A lookup that the call has made, and that succeeded, has no drawer of the room. -/
def FilterRun.Seen (run : FilterRun) (room : String) : Prop :=
  ∃ lookup ∈ run.looked, ∃ found, readPresentRooms lookup = some found ∧ room ∉ found

/-- After the canonical rooms, when the room is not one of them. -/
lemma validate_of_notMem {r : String} (h : r ∉ judgedCanonical caches lookups) :
    validateRoomFilterOrRaise repr (some r) caches lookups =
      let first := presentRooms false (canonicalRooms caches lookups.canonical).2 lookups.present
      match first.1 with
      | none => ⟨.ok (), first.2.1, first.2.2⟩
      | some present =>
          if r ∈ present then ⟨.ok (), first.2.1, first.2.2⟩
          else
            let second := presentRooms true first.2.1 lookups.again
            match second.1 with
            | none => ⟨.error .typeError, second.2.1, first.2.2 ++ second.2.2⟩
            | some present =>
                if r ∈ present then ⟨.ok (), second.2.1, first.2.2 ++ second.2.2⟩
                else ⟨.error (.httpException 400
                  s!"room {repr r} holds no drawers and is not canonical"
                  (sorted (judgedCanonical caches lookups ∪ present))),
                  second.2.1, first.2.2 ++ second.2.2⟩ := by
  rw [← canonicalRooms_fst] at h ⊢
  simp only [validateRoomFilterOrRaise, if_neg h]

/-- A room that the call does not look up again. -/
lemma not_raises_of_canonical {r : String} (h : r ∈ judgedCanonical caches lookups) :
    ¬ (validateRoomFilterOrRaise repr (some r) caches lookups).Raises := by
  rw [← canonicalRooms_fst] at h
  simp only [validateRoomFilterOrRaise, if_pos h, FilterRun.Raises, reduceCtorEq, exists_false,
    not_false_eq_true]

/-- The second look, after the first has missed the room in `first`. -/
lemma second_look (repr : String → String) {r : String} {first : Finset String}
    {looked : List PresentLookup} {caches' : Caches}
    (hcanonical : r ∉ judgedCanonical caches lookups)
    (hfirst : presentRooms false (canonicalRooms caches lookups.canonical).2 lookups.present =
      (some first, caches', looked)) (hpresent : caches'.present = some first) (hmiss : r ∉ first) :
    ((validateRoomFilterOrRaise repr (some r) caches lookups).Raises ↔
      r ∉ (readPresentRooms lookups.again).getD first) ∧
    (validateRoomFilterOrRaise repr (some r) caches lookups).looked =
      looked ++ [lookups.again] := by
  rw [validate_of_notMem hcanonical]
  simp only [hfirst, if_neg hmiss]
  cases hagain : readPresentRooms lookups.again with
  | none =>
      simp [presentRooms_failed true (.inr rfl) hagain, hpresent, hmiss, FilterRun.Raises]
  | some found =>
      simp only [presentRooms_found true (.inr rfl) hagain, Option.getD_some]
      split_ifs with hfound
      · simp [hfound, FilterRun.Raises]
      · simp [hfound, FilterRun.Raises]

/-- The cache was there before the call and lacks the room, and the second read fails. -/
def RefusedByCache (room : Option String) (caches : Caches) (lookups : Lookups) : Prop :=
  ∃ r ∈ room, r ∉ judgedCanonical caches lookups ∧
    (∃ cached ∈ caches.present, r ∉ cached) ∧ readPresentRooms lookups.again = none

/-- **What a refusal rests on.**  A call raises only for a room that is not canonical and that a
lookup of this call has not found, exactly if it is not the cache that it refuses by. -/
theorem refusal_seen_iff :
    ((validateRoomFilterOrRaise repr room caches lookups).Raises →
      ∃ r ∈ room, r ∉ judgedCanonical caches lookups ∧
        (validateRoomFilterOrRaise repr room caches lookups).Seen r) ↔
      ¬ RefusedByCache room caches lookups := by
  cases room with
  | none => simp [validateRoomFilterOrRaise, FilterRun.Raises, RefusedByCache]
  | some r =>
      simp only [RefusedByCache, Option.mem_some_iff, exists_eq_left']
      by_cases hcanonical : r ∈ judgedCanonical caches lookups
      · simp [hcanonical, not_raises_of_canonical hcanonical]
      rw [← canonicalRooms_present lookups.canonical]
      set inner := (canonicalRooms caches lookups.canonical).2 with hinner
      cases hpresent : inner.present with
      | some cached =>
          have hfirst := presentRooms_cached lookups.present hpresent
          by_cases hmem : r ∈ cached
          · simp [validate_of_notMem hcanonical, ← hinner, hfirst, hmem, FilterRun.Raises]
          · obtain ⟨hraises, hlooked⟩ := second_look repr hcanonical hfirst hpresent hmem
            rw [hraises]
            cases hagain : readPresentRooms lookups.again <;>
              simp [FilterRun.Seen, hlooked, hagain, hmem, hcanonical]
      | none =>
          cases hread : readPresentRooms lookups.present with
          | none =>
              have hfirst := presentRooms_failed false (.inl hpresent) hread
              simp [validate_of_notMem hcanonical, ← hinner, hfirst, hpresent, FilterRun.Raises]
          | some found =>
              have hfirst := presentRooms_found false (.inl hpresent) hread
              by_cases hmem : r ∈ found
              · simp [validate_of_notMem hcanonical, ← hinner, hfirst, hmem, FilterRun.Raises]
              · obtain ⟨-, hlooked⟩ := second_look repr hcanonical hfirst rfl hmem
                simp [FilterRun.Seen, hlooked, hread, hmem, hcanonical]

/-- A drawer has been stored in the room since the rooms were cached, and the second read fails. -/
theorem refusal_seen_fails : ¬ ∀ (repr : String → String) room caches lookups,
    (validateRoomFilterOrRaise repr room caches lookups).Raises →
      ∃ r ∈ room, r ∉ judgedCanonical caches lookups ∧
        (validateRoomFilterOrRaise repr room caches lookups).Seen r := by
  intro h
  obtain ⟨r, hr, -, lookup, hlookup, found, hfound, -⟩ := h id (some "newroom")
    ⟨some {"planning"}, some {"diary"}⟩ ⟨.raised, .raised, .raised⟩
    (by simp [validateRoomFilterOrRaise, canonicalRooms, presentRooms, readPresentRooms,
      FilterRun.Raises])
  obtain rfl : lookup = .raised := by
    simpa [validateRoomFilterOrRaise, canonicalRooms, presentRooms, readPresentRooms] using hlookup
  cases hfound

end PalaceDaemon.Rooms

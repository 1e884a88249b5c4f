/-
The coarse prefilter of the instant ordering (`_shift_iso_day` and the bounds of
`build_window_sql`).

In the instant ordering a row is in the page when its instant is within the bounds.  So that an
index can be used, its stored text is compared with the text of each bound as well, moved a day
outwards.  `prefilter_iff` says when that drops no row: the wall clocks that the two texts show may
differ by no more than a day beyond the time between the instants, and the moved bound must be a
date that `datetime` has.

Texts compare by their code points here.  A stored text has one of the three documented shapes.
-/
import PalaceDaemon.Lib.IsoTime
import PalaceDaemon.Window.Listing
import Mathlib.Data.String.Basic

namespace Window

open IsoTime

/-! ### Stored times -/

/-- The documented shapes of `filed_at`. -/
inductive Shape
  /-- The palace host's wall clock, with microseconds. -/
  | hostMicro
  /-- The same without a fraction. -/
  | hostSecond
  /-- UTC, in milliseconds, with `Z`. -/
  | utcMilli
deriving DecidableEq

/-- The microseconds of which a shape shows multiples. -/
def Shape.unit : Shape → ℕ
  | .hostMicro => 1
  | .hostSecond => 1000000
  | .utcMilli => 1000

/-- A time as it is stored. -/
structure Stored where
  shape : Shape
  clock : Clock
  whole : shape.unit ∣ clock.fraction

namespace Stored

variable (s : Stored)

/-- The fraction of the second. -/
def decimals : List Char :=
  match s.shape with
  | .hostMicro => '.' :: digits 6 s.clock.fraction
  | .hostSecond => []
  | .utcMilli => '.' :: digits 3 (s.clock.fraction / 1000)

/-- What follows the seconds. -/
def tail : List Char := s.decimals ++ if s.shape = .utcMilli then ['Z'] else []

/-- The stored text. -/
def text : String := String.ofList (s.clock.text s.tail)

/-- The text without `Z`. -/
def digitText : String := String.ofList (s.clock.text s.decimals)

end Stored

/-! ### The database and `datetime` -/

/-- What the module takes from outside, with instants and wall clocks in microseconds. -/
structure System where
  like : String → String → Option Bool
  /-- `text::timestamp` -/
  timestamp : String → Option ℤ
  timestamp_stored : ∀ s : Stored, timestamp s.digitText = some s.clock.wall
  /-- The instant of a wall clock in a zone other than UTC -/
  zoneInstant : String → ℤ → ℤ
  /-- The instant of a wall clock in the zone of the session -/
  sessionInstant : ℤ → ℤ
  /-- The instant of a parameter that `datetime` does not read -/
  otherInstant : String → Option ℤ
  /-- `datetime.fromisoformat` -/
  fromisoformat : String → Option Moment
  zoneInfo : String → Bool
  parseWindow : Option String → Option String → Bool

/-- A bound: what `datetime` reads of it without its `Z`, and the instant that it names. -/
structure Bound where
  moment : Moment
  instant : ℤ

namespace System

variable (sys : System)

/-- A text with `Z` is in UTC, one with an offset is what the offset says, and one with neither is
in the zone of the session. -/
def bound (b : String) : Option Bound :=
  let utc := stripLast ['Z', 'z'] b
  (sys.fromisoformat (utc.getD b)).map fun m =>
    { moment := m
      instant := match m.offset with
        | some offset => m.clock.wall - offset
        | none => if utc.isSome then m.clock.wall else sys.sessionInstant m.clock.wall }

/-- `timestamp AT TIME ZONE zone` -/
def atTimeZone (zone : String) (wall : ℤ) : ℤ :=
  if zone = "UTC" then wall else sys.zoneInstant zone wall

/-- The parameters of the query. -/
def env : Env (List Char) where
  collate := String.toList
  collate_injective := fun _ _ => String.toList_inj.1
  like := sys.like
  timestamp := sys.timestamp
  atTimeZone zone wall := some (sys.atTimeZone zone wall)
  sessionInstant b := match sys.bound b with
    | some bound => some bound.instant
    | none => sys.otherInstant b
  Date := Moment
  fromisoformat := sys.fromisoformat
  plusDays := Moment.plusDays
  isoformat m := String.ofList m.isoformat
  zoneInfo := sys.zoneInfo
  parseWindow := sys.parseWindow

end System

/-! ### The page without the prefilter -/

section Unfiltered

variable {τ : Type*} [LinearOrder τ] (env : Env τ)

/-- `build_window_sql` without the prefilter. -/
def unfilteredSql (a : Args) (cursor : Option String) : Except Refusal Query := do
  let key ← instantExpr env a.ordering a.tzName
  let after ← afterCursor cursor
  pure ⟨key, filters a ++ dated a ++ exactBounds a ++ after, a.effectiveLimit⟩

/-- `window` without the prefilter. -/
def unfilteredWindow (table : Table) (a : Args) (cursor : Option String) :
    Except Refusal (List Row × Option String) :=
  if env.parseWindow a.since a.before then do
    let q ← unfilteredSql env a cursor
    let rows ← run env q table
    let next := if rows.length = a.effectiveLimit ∧ rows ≠ [] then rows.getLast?.map cursorOf
      else none
    pure (rows, next)
  else .error .bounds

end Unfiltered

/-! ### The law -/

/-- The row has a time of a documented shape, or none. -/
def Documented (r : Row) : Prop := ∀ t, r.filedAt = some t → ∃ s : Stored, t = s.text

/-- **The prefilter only prefilters.** No bound raises anything but `ValueError`, a row within the
exact bounds is within the coarse ones, and the page is the one without them. -/
structure OnlyPrefilters (sys : System) (a : Args) : Prop where
  raises : ∀ cursor, buildWindowSql sys.env a cursor ≠ .error .overflow
  coarse : ∀ q, buildWindowSql sys.env a none = .ok q → ∀ r, Documented r →
    inBounds sys.env a r = true → coarse sys.env a r = true
  page : ∀ table : Table, (∀ r ∈ table.rows, Documented r) → ∀ cursor,
    window sys.env table a cursor = unfilteredWindow sys.env table a cursor

/-! ### Offsets -/

/-- The instant of a stored time, read in a zone unless it is in UTC. -/
def Stored.instant (sys : System) (zone : String) (s : Stored) : ℤ :=
  sys.atTimeZone (if s.shape = .utcMilli then "UTC" else zone) s.clock.wall

/-- How far the wall clock of a stored time is ahead of UTC. -/
def Stored.offset (sys : System) (zone : String) (s : Stored) : ℤ :=
  s.clock.wall - s.instant sys zone

/-- How far the digits of a bound are ahead of UTC. -/
def Bound.offset (bound : Bound) : ℤ := bound.moment.clock.wall - bound.instant

/-- Which wall clocks have a text at or after that of a bound: those from its own on, but for a
microsecond where the texts begin alike and the bound goes on with an offset, and for the part of a
millisecond that a text in milliseconds does not show. -/
def Stored.margin (s : Stored) (m : Moment) : ℤ :=
  match s.shape with
  | .hostMicro => if m.offset.isSome ∧ m.clock.fraction ≠ 0 then 1 else 0
  | .hostSecond => if m.offset.isSome then 1 else 0
  | .utcMilli => -(m.clock.fraction % 1000 : ℕ)

/-- The microseconds of a day. -/
def dayMicros : ℤ := 86400000000

/-- The time is at or after `since` and before `before`. -/
def Stored.Within (sys : System) (a : Args) (s : Stored) : Prop :=
  (∀ b ∈ given a.since, ∀ bound, sys.bound b = some bound →
    bound.instant ≤ s.instant sys a.tzName) ∧
  ∀ b ∈ given a.before, ∀ bound, sys.bound b = some bound →
    s.instant sys a.tzName < bound.instant

/-- The bounds are not at the ends of the calendar, and no time within them has an offset that
differs from theirs by more than a day and the time between the two. -/
structure InReach (sys : System) (a : Args) : Prop where
  since_day : ∀ b ∈ given a.since, ∀ bound, sys.bound b = some bound →
    ¬(bound.moment.clock.date.year = 1 ∧ bound.moment.clock.date.month = 1 ∧
      bound.moment.clock.date.day = 1)
  before_day : ∀ b ∈ given a.before, ∀ bound, sys.bound b = some bound →
    ¬(bound.moment.clock.date.year = 9999 ∧ bound.moment.clock.date.month = 12 ∧
      bound.moment.clock.date.day = 31)
  since : ∀ s : Stored, s.Within sys a → ∀ b ∈ given a.since, ∀ bound, sys.bound b = some bound →
    bound.offset - s.offset sys a.tzName + s.margin bound.moment ≤
      dayMicros + (s.instant sys a.tzName - bound.instant)
  before : ∀ s : Stored, s.Within sys a → ∀ b ∈ given a.before, ∀ bound,
    sys.bound b = some bound →
      s.offset sys a.tzName - bound.offset - s.margin bound.moment <
        dayMicros + (bound.instant - s.instant sys a.tzName)

/-! ### Texts and wall clocks -/

lemma fraction_lt (c : Clock) : c.fraction < 1000000 := Nat.mod_lt _ (by decide)

/-- An offset goes on from a text with a sign, which is before a point and before a letter. -/
lemma exists_offsetText (offset : ℤ) :
    ∃ sign rest, offsetText offset = sign :: rest ∧ sign < '.' := by
  refine ⟨_, _, rfl, ?_⟩
  split_ifs <;> decide

lemma not_cons_lt_of_lt {c d : Char} {s t : List Char} (h : d < c) : ¬c :: s < d :: t := by
  rw [List.cons_lt_cons_iff]
  rintro (hlt | ⟨rfl, -⟩)
  · exact hlt.asymm h
  · exact lt_irrefl _ h

/-- No digit is after `Z`. -/
lemma not_zulu_lt_digits {k n : ℕ} {t : List Char} : ¬['Z'] < digits (k + 1) n ++ t := by
  obtain ⟨c, l, hl⟩ := List.exists_cons_of_length_eq_add_one (length_digits (k + 1) n)
  obtain ⟨d, hd, rfl⟩ := mem_digits (k := k + 1) (n := n) (hl ▸ List.mem_cons_self)
  rw [hl, List.cons_append]
  refine not_cons_lt_of_lt ?_
  interval_cases d <;> decide

lemma nil_lt_offset_iff {o : Option ℤ} : [] < o.elim [] offsetText ↔ o.isSome := by
  rcases o with _ | offset
  · exact iff_of_false (List.not_lt_nil _) Bool.false_ne_true
  · obtain ⟨sign, rest, heq, -⟩ := exists_offsetText offset
    rw [Option.elim_some, heq]
    exact iff_of_true (List.nil_lt_cons _ _) rfl

lemma nil_lt_tail_iff (m : Moment) : [] < m.tail ↔ m.clock.fraction ≠ 0 ∨ m.offset.isSome := by
  rw [Moment.tail]
  split_ifs with hw
  · rw [List.nil_append, nil_lt_offset_iff, or_iff_right (not_not.2 hw)]
  · exact iff_of_true (List.nil_lt_cons _ _) (.inl hw)

/-- A fraction is compared with the fraction of the moment, and is after a moment without one. -/
lemma point_lt_tail_iff {l : List Char} (m : Moment) : '.' :: l < m.tail ↔
    m.clock.fraction ≠ 0 ∧ l < digits 6 m.clock.fraction ++ m.offset.elim [] offsetText := by
  rw [Moment.tail]
  split_ifs with hw
  · refine iff_of_false ?_ fun h => h.1 hw
    rw [List.nil_append]
    rcases m.offset with _ | offset
    · exact List.not_lt_nil _
    · obtain ⟨sign, rest, heq, hsign⟩ := exists_offsetText offset
      rw [Option.elim_some, heq]
      exact not_cons_lt_of_lt hsign
  · rw [List.cons_append, cons_lt_cons_self]
    exact (and_iff_right hw).symm

/-- What follows the seconds of a stored time is before what follows those of a moment when its
fraction is. -/
lemma Stored.tail_lt_iff (s : Stored) (m : Moment) :
    s.tail < m.tail ↔ (s.clock.fraction : ℤ) < m.clock.fraction + s.margin m := by
  obtain ⟨shape, clock, hwhole⟩ := s
  have hs := fraction_lt clock
  have hm := fraction_lt m.clock
  cases shape with
  | hostMicro =>
    rw [tail, decimals, if_neg Shape.noConfusion, List.append_nil, point_lt_tail_iff,
      ← List.append_nil (digits 6 _), digits_lt_iff hs hm, nil_lt_offset_iff, margin]
    dsimp only
    split_ifs with hcase
    · have hw := hcase.2
      simp only [hcase.1, and_true]
      omega
    · rw [not_and_or, not_not] at hcase
      rcases hcase with hnone | hw
      · rw [iff_false_intro hnone, and_false, or_false]
        omega
      · rw [hw]
        omega
  | hostSecond =>
    have hzero : clock.fraction = 0 := Nat.eq_zero_of_dvd_of_lt hwhole hs
    rw [tail, decimals, if_neg Shape.noConfusion, List.append_nil, nil_lt_tail_iff, margin]
    dsimp only
    rw [hzero]
    split_ifs with hsome
    · exact iff_of_true (.inr hsome) (by omega)
    · rw [or_iff_left hsome]
      omega
  | utcMilli =>
    have hthousand : 1000 ∣ clock.fraction := hwhole
    rw [tail, decimals, if_pos rfl, List.cons_append, point_lt_tail_iff, margin,
      digits_add 3 3, List.append_assoc, digits_lt_iff (by dsimp only; omega) (by omega),
      iff_false_intro not_zulu_lt_digits, and_false, or_false]
    dsimp only
    omega

lemma Stored.margin_le (s : Stored) (m : Moment) :
    0 ≤ m.clock.fraction + s.margin m ∧ m.clock.fraction + s.margin m ≤ 1000000 := by
  have hm := fraction_lt m.clock
  unfold margin
  cases s.shape with
  | hostMicro =>
    dsimp only
    split_ifs <;> omega
  | hostSecond =>
    dsimp only
    split_ifs <;> omega
  | utcMilli =>
    dsimp only
    omega

/-- **Texts and wall clocks.** The text of a stored time is before that of a moment when its wall
clock is. -/
theorem Stored.text_lt_iff (s : Stored) (m : Moment) :
    s.text.toList < m.isoformat ↔ s.clock.wall < m.clock.wall + s.margin m := by
  have hmargin := s.margin_le m
  have hs := fraction_lt s.clock
  have hsecond : ∀ c : Clock, (1000000 : ℤ) ∣ c.wall - c.fraction := fun c => by
    rw [Clock.wall, Clock.fraction]
    omega
  have hsdvd := hsecond s.clock
  have hmdvd := hsecond m.clock
  rw [Stored.text, String.toList_ofList, Moment.isoformat, Clock.text_lt_iff, s.tail_lt_iff m]
  omega

/-! ### What the database reads -/

section Reading

variable (sys : System)

/-- Without `Z`, a stored text ends in a digit. -/
lemma Stored.exists_digitText (s : Stored) :
    ∃ l, ∃ d < 10, s.clock.text s.decimals = l ++ [Nat.digitChar d] := by
  have hpoint : ∀ k n, ∃ l, ∃ d < 10, s.clock.text ('.' :: digits (k + 1) n) =
      l ++ [Nat.digitChar d] := by
    intro k n
    rw [digits, ← List.cons_append, Clock.text_append]
    exact ⟨_, _, Nat.mod_lt _ (by decide), rfl⟩
  unfold decimals
  cases s.shape with
  | hostMicro => exact hpoint 5 _
  | hostSecond => exact s.clock.exists_text_nil
  | utcMilli => exact hpoint 2 _

lemma Stored.stripLast_text (s : Stored) :
    stripLast ['Z'] s.text = if s.shape = .utcMilli then some s.digitText else none := by
  rw [stripLast, Stored.text, String.toList_ofList, tail, digitText]
  by_cases hshape : s.shape = .utcMilli
  · rw [if_pos hshape, if_pos hshape, Clock.text_append, List.getLast?_concat, List.dropLast_concat]
    rfl
  · rw [if_neg hshape, if_neg hshape, List.append_nil, if_neg]
    obtain ⟨l, d, hd, heq⟩ := s.exists_digitText
    rw [heq, List.getLast?_concat]
    interval_cases d <;> decide

lemma Stored.text_eq_digitText {s : Stored} (h : s.shape ≠ .utcMilli) : s.text = s.digitText := by
  rw [Stored.text, tail, if_neg h, List.append_nil, digitText]

/-- The instant of a stored time is read. -/
lemma readStored_text (zone : String) (s : Stored) :
    readStored sys.env (.instantIn zone) s.text = some (.inrₗ (s.instant sys zone)) := by
  have hread := sys.timestamp_stored s
  rw [readStored, s.stripLast_text, Stored.instant]
  split_ifs with hshape
  · simp only [System.env, hread, Option.bind_some, Option.map_some]
  · rw [s.text_eq_digitText hshape]
    simp only [System.env, hread, Option.bind_some, Option.map_some]

variable {sys} {a : Args}

lemma rowKey_isSome {zone : String} {r : Row} (h : Documented r) :
    (rowKey sys.env (.instantIn zone) r).isSome := by
  rw [rowKey]
  rcases ht : r.filedAt with _ | t
  · rfl
  · obtain ⟨s, rfl⟩ := h t ht
    simp only [readStored_text]
    rfl

lemma readParam_bound {zone b : String} {bound : Bound} (h : sys.bound b = some bound) :
    readParam sys.env (.instantIn zone) b = some (.inrₗ bound.instant) := by
  simp only [readParam, System.env, h, Option.map_some]

/-- A moved bound. -/
lemma shiftIsoDay_bound {b : String} {bound : Bound} (h : sys.bound b = some bound) (days : ℤ) :
    shiftIsoDay sys.env b days = match bound.moment.plusDays days with
      | none => .error .overflow
      | some m => .ok (String.ofList m.isoformat) := by
  obtain ⟨m, hm, rfl⟩ := Option.map_eq_some_iff.1 h
  simp only [shiftIsoDay, System.env, hm]
  cases m.plusDays days <;> rfl

/-- Only the calendar's ends make the prefilter fail. -/
lemma prefilter_error {e : Refusal} (h : prefilter sys.env a = .error e) : e = .overflow := by
  have hshift : ∀ {b days e}, shiftIsoDay sys.env b days = .error e → e = .overflow := by
    intro b days e he
    rw [shiftIsoDay] at he
    split at he
    · cases he
    · split at he
      · exact (Except.error.inj he).symm
      · cases he
  have hwidened : ∀ {bound days c e}, widened sys.env bound days c = .error e → e = .overflow := by
    intro bound days c e he
    rw [widened] at he
    rcases hgiven : given bound with _ | b
    · simp only [hgiven] at he
      cases he
    · simp only [hgiven] at he
      rcases hb : shiftIsoDay sys.env b days with e' | b'
      · rw [hb] at he
        exact hshift (hb.trans (congrArg _ (Except.error.inj he)))
      · rw [hb] at he
        cases he
  rw [prefilter] at h
  rcases hmode : a.ordering with _ | _
  · rw [hmode] at h
    cases h
  · rw [hmode] at h
    rcases hlower : widened sys.env a.since (-1) .filedAtGe with e' | lower
    · simp only [hlower] at h
      exact (Except.error.inj h).symm.trans (hwidened hlower)
    · rcases hupper : widened sys.env a.before 1 .filedAtLt with e' | upper
      · simp only [hlower, hupper] at h
        exact (Except.error.inj h).symm.trans (hwidened hupper)
      · simp only [hlower, hupper] at h
        cases h

variable (sys a) in
/-- `datetime` reads the bounds that are given. -/
def BoundsRead : Prop := ∀ b, b ∈ given a.since ∨ b ∈ given a.before → (sys.bound b).isSome

lemma given_all_iff {arg : Option String} {p : String → Bool} :
    (given arg).all p = true ↔ ∀ b ∈ given arg, p b = true := by
  rcases given arg with _ | b
  · simp
  · simp

section Row

variable {r : Row} {s : Stored} (hmode : a.ordering = .instant) (hbounds : BoundsRead sys a)
  (hr : r.filedAt = some s.text)
include hmode hbounds hr

/-- A row is within the exact bounds when its instant is. -/
lemma inBounds_iff : inBounds sys.env a r = true ↔ s.Within sys a := by
  have hkey : rowKey sys.env a.key r = some (some (.inrₗ (s.instant sys a.tzName))) := by
    rw [Args.key, hmode, rowKey, hr]
    simp only [readStored_text, Option.map_some]
  have hcompare : ∀ {b bound} holds, sys.bound b = some bound →
      compareKey sys.env a.key r b holds =
        some (some (holds (.inrₗ (s.instant sys a.tzName)) (.inrₗ bound.instant))) := by
    intro b bound holds hb
    rw [compareKey, hkey, Args.key, hmode]
    simp only [readParam_bound hb, Option.map_some]
  have hkeyIs : ∀ {arg} holds, (∀ b ∈ given arg, (sys.bound b).isSome) →
      (keyIs sys.env a r arg holds = true ↔ ∀ b ∈ given arg, ∀ bound, sys.bound b = some bound →
        holds (.inrₗ (s.instant sys a.tzName)) (.inrₗ bound.instant) = true) := by
    intro arg holds hread
    rw [keyIs, given_all_iff]
    refine forall₂_congr fun b hb => ?_
    obtain ⟨bound, hbound⟩ := Option.isSome_iff_exists.1 (hread b hb)
    rw [hcompare holds hbound, hbound, decide_eq_true_eq, Option.some_inj, Option.some_inj]
    constructor
    · rintro h _ ⟨⟩
      exact h
    · exact fun h => h bound rfl
  rw [inBounds, Bool.and_eq_true, hkeyIs _ fun b hb => hbounds b (.inl hb),
    hkeyIs _ fun b hb => hbounds b (.inr hb), Stored.Within]
  simp only [decide_eq_true_eq, Sum.Lex.inr_le_inr_iff, Sum.Lex.inr_lt_inr_iff]

/-- A row is within the coarse bounds when its text is within the texts of the moved bounds. -/
lemma coarse_iff : coarse sys.env a r = true ↔
    (∀ b ∈ given a.since, ∀ bound, sys.bound b = some bound →
      ∃ m, bound.moment.plusDays (-1) = some m ∧ ¬s.text.toList < m.isoformat) ∧
    ∀ b ∈ given a.before, ∀ bound, sys.bound b = some bound →
      ∃ m, bound.moment.plusDays 1 = some m ∧ s.text.toList < m.isoformat := by
  have htext : ∀ {arg days} (holds : List Char → List Char → Bool),
      (∀ b ∈ given arg, (sys.bound b).isSome) →
      (textIs sys.env r arg days holds = true ↔ ∀ b ∈ given arg, ∀ bound,
        sys.bound b = some bound → ∃ m, bound.moment.plusDays days = some m ∧
          holds s.text.toList m.isoformat = true) := by
    intro arg days holds hread
    rw [textIs, given_all_iff]
    refine forall₂_congr fun b hb => ?_
    obtain ⟨bound, hbound⟩ := Option.isSome_iff_exists.1 (hread b hb)
    rw [shiftIsoDay_bound hbound, hbound, hr]
    have hone : (∀ bound', some bound = some bound' → ∃ m, bound'.moment.plusDays days = some m ∧
        holds s.text.toList m.isoformat = true) ↔ ∃ m, bound.moment.plusDays days = some m ∧
        holds s.text.toList m.isoformat = true := by
      constructor
      · exact fun h => h bound rfl
      · rintro h _ ⟨⟩
        exact h
    rw [hone]
    rcases bound.moment.plusDays days with _ | m
    · simp
    · simp [System.env]
  rw [coarse, hmode]
  simp only [Bool.and_eq_true]
  rw [htext _ fun b hb => hbounds b (.inl hb), htext _ fun b hb => hbounds b (.inr hb)]
  simp only [decide_eq_true_eq, not_lt]

end Row

end Reading

/-! ### The page -/

section Page

variable {sys : System} {a : Args}

/-- On a row that the prefilter drops, the exact bounds do not hold either. -/
lemma passes_unfiltered {r : Row} {cs : List Condition} (es : List Condition)
    (hcs : prefilter sys.env a = .ok cs) (hmode : a.ordering = .instant)
    (hbounds : BoundsRead sys a) (hr : Documented r)
    (hcoarse : inBounds sys.env a r = true → coarse sys.env a r = true) :
    passes sys.env a.key r (filters a ++ dated a ++ cs ++ exactBounds a ++ es) =
      passes sys.env a.key r (filters a ++ dated a ++ exactBounds a ++ es) := by
  have hkey : (rowKey sys.env a.key r).isSome := by
    rw [Args.key, hmode]
    exact rowKey_isSome hr
  have hparams : ∀ b, b ∈ given a.since ∨ b ∈ given a.before →
      (readParam sys.env a.key b).isSome := by
    intro b hb
    obtain ⟨bound, hbound⟩ := Option.isSome_iff_exists.1 (hbounds b hb)
    rw [Args.key, hmode, readParam_bound hbound]
    rfl
  have hexact := passes_exactBounds sys.env hkey hparams
  have hcoarse' : passes sys.env a.key r (cs ++ (exactBounds a ++ es)) =
      passes sys.env a.key r (exactBounds a ++ es) := by
    rw [passes_append, passes_prefilter sys.env hcs, Option.bind_some]
    by_cases h : coarse sys.env a r = true
    · rw [if_pos h]
    · rw [if_neg h, passes_append, hexact, Option.bind_some, if_neg fun hin => h (hcoarse hin)]
  have hleft : filters a ++ dated a ++ cs ++ exactBounds a ++ es =
      filters a ++ dated a ++ (cs ++ (exactBounds a ++ es)) := by
    simp only [List.append_assoc]
  rw [hleft, passes_append, hcoarse', ← passes_append, List.append_assoc _ (exactBounds a)]

lemma selects_unfiltered {table : Table} {cs : List Condition} (es : List Condition) (n : ℕ)
    (hcs : prefilter sys.env a = .ok cs) (hmode : a.ordering = .instant)
    (hbounds : BoundsRead sys a) (hrows : ∀ r ∈ table.rows, Documented r)
    (hcoarse : ∀ r ∈ table.rows, inBounds sys.env a r = true → coarse sys.env a r = true) :
    selects sys.env ⟨a.key, filters a ++ dated a ++ cs ++ exactBounds a ++ es, n⟩ table =
      selects sys.env ⟨a.key, filters a ++ dated a ++ exactBounds a ++ es, n⟩ table := by
  have hpasses : ∀ r ∈ table.rows, _ = _ := fun r hr =>
    passes_unfiltered es hcs hmode hbounds (hrows r hr) (hcoarse r hr)
  have hhandles : ∀ r ∈ table.rows,
      handles sys.env a.key (filters a ++ dated a ++ cs ++ exactBounds a ++ es) r =
        handles sys.env a.key (filters a ++ dated a ++ exactBounds a ++ es) r := by
    intro r hr
    rw [handles, handles, hpasses r hr]
  have hreadable : (filters a ++ dated a ++ cs ++ exactBounds a ++ es).all
      (readable sys.env a.key) = (filters a ++ dated a ++ exactBounds a ++ es).all
        (readable sys.env a.key) := by
    simp only [List.all_append, readable_prefilter sys.env hcs, Bool.and_true]
  have hall : table.rows.all (handles sys.env a.key
      (filters a ++ dated a ++ cs ++ exactBounds a ++ es)) = table.rows.all (handles sys.env a.key
        (filters a ++ dated a ++ exactBounds a ++ es)) := by
    rw [Bool.eq_iff_iff, List.all_eq_true, List.all_eq_true]
    exact forall₂_congr fun r hr => by rw [hhandles r hr]
  rw [selects, selects]
  simp only [hreadable, hall]
  rw [List.filter_congr fun r hr => by rw [hpasses r hr]]

/-- The page is the one without the prefilter, where that drops no row within the bounds. -/
lemma window_eq_unfilteredWindow (hmode : a.ordering = .instant) (hbounds : BoundsRead sys a)
    (hshift : validZone sys.env a.tzName = true → ∃ cs, prefilter sys.env a = .ok cs)
    (hcoarse : validZone sys.env a.tzName = true → ∀ r, Documented r →
      inBounds sys.env a r = true → coarse sys.env a r = true)
    {table : Table} (hrows : ∀ r ∈ table.rows, Documented r) (cursor : Option String) :
    window sys.env table a cursor = unfilteredWindow sys.env table a cursor := by
  rw [window, unfilteredWindow]
  by_cases hzone : validZone sys.env a.tzName = true
  · obtain ⟨cs, hcs⟩ := hshift hzone
    have hunfiltered : unfilteredSql sys.env a cursor = (afterCursor cursor).map fun after =>
        ⟨a.key, filters a ++ dated a ++ exactBounds a ++ after, a.effectiveLimit⟩ := by
      rw [unfilteredSql, (instantExpr_eq_ok_iff sys.env).2 ⟨rfl, fun _ => hzone⟩]
      rcases afterCursor cursor with e | after <;> rfl
    rw [buildWindowSql_eq sys.env hcs fun _ => hzone, hunfiltered]
    rcases afterCursor cursor with e | after
    · rfl
    · have hselects := selects_unfiltered after a.effectiveLimit hcs hmode hbounds hrows
        fun r hr => hcoarse hzone r (hrows r hr)
      simp only [Except.map, bind, Except.bind, run, hselects]
  · have hfiltered : buildWindowSql sys.env a cursor = .error (.zone a.tzName) := by
      rw [buildWindowSql, hmode, instantExpr, if_neg hzone]
      rfl
    have hunfiltered : unfilteredSql sys.env a cursor = .error (.zone a.tzName) := by
      rw [unfilteredSql, hmode, instantExpr, if_neg hzone]
      rfl
    rw [hfiltered, hunfiltered]

end Page

/-! ### When the prefilter only prefilters -/

section Main

variable {sys : System} {a : Args}

lemma afterCursor_error {cursor : Option String} {e : Refusal} (h : afterCursor cursor = .error e) :
    ∃ e', e = .cursor e' := by
  unfold afterCursor at h
  split at h
  · cases h
  · split at h
    · exact ⟨_, (Except.error.inj h).symm⟩
    · cases h

lemma Stored.margin_congr (s : Stored) {m m' : Moment}
    (hfraction : m'.clock.fraction = m.clock.fraction) (hoffset : m'.offset = m.offset) :
    s.margin m' = s.margin m := by
  rw [margin, margin, hfraction, hoffset]

/-- A bound that can be moved is moved to a moment. -/
lemma exists_plusDays {b b' : String} {bound : Bound} {days : ℤ} (hb : sys.bound b = some bound)
    (h : shiftIsoDay sys.env b days = .ok b') : ∃ m, bound.moment.plusDays days = some m := by
  rw [shiftIsoDay_bound hb] at h
  rcases hm : bound.moment.plusDays days with _ | m
  · rw [hm] at h
    cases h
  · exact ⟨m, rfl⟩

/-- A row is within the coarse bounds when its instant is no further from them than a day and the
difference of the offsets allow. -/
lemma coarse_iff_reach {s : Stored} {r : Row} (hmode : a.ordering = .instant)
    (hbounds : BoundsRead sys a) (hr : r.filedAt = some s.text)
    (hshift : ∃ cs, prefilter sys.env a = .ok cs) : coarse sys.env a r = true ↔
      (∀ b ∈ given a.since, ∀ bound, sys.bound b = some bound →
        bound.offset - s.offset sys a.tzName + s.margin bound.moment ≤
          dayMicros + (s.instant sys a.tzName - bound.instant)) ∧
      ∀ b ∈ given a.before, ∀ bound, sys.bound b = some bound →
        s.offset sys a.tzName - bound.offset - s.margin bound.moment <
          dayMicros + (bound.instant - s.instant sys a.tzName) := by
  obtain ⟨hsince, hbefore⟩ := (exists_prefilter_iff sys.env).1 hshift
  rw [coarse_iff hmode hbounds hr]
  refine and_congr (forall₂_congr fun b hb => forall₂_congr fun bound hbound => ?_)
    (forall₂_congr fun b hb => forall₂_congr fun bound hbound => ?_)
  · obtain ⟨b', hb'⟩ := hsince hmode b hb
    obtain ⟨m, hm⟩ := exists_plusDays hbound hb'
    obtain ⟨hwall, hfraction, hoffset⟩ := Moment.plusDays_neg_one hm
    have hmoved : (∃ m', bound.moment.plusDays (-1) = some m' ∧ ¬s.text.toList < m'.isoformat) ↔
        ¬s.text.toList < m.isoformat := by
      rw [hm]
      constructor
      · rintro ⟨_, ⟨⟩, h⟩
        exact h
      · exact fun h => ⟨m, rfl, h⟩
    rw [hmoved, s.text_lt_iff, hwall, s.margin_congr hfraction hoffset, Bound.offset,
      Stored.offset, dayMicros]
    omega
  · obtain ⟨b', hb'⟩ := hbefore hmode b hb
    obtain ⟨m, hm⟩ := exists_plusDays hbound hb'
    obtain ⟨hwall, hfraction, hoffset⟩ := Moment.plusDays_one hm
    have hmoved : (∃ m', bound.moment.plusDays 1 = some m' ∧ s.text.toList < m'.isoformat) ↔
        s.text.toList < m.isoformat := by
      rw [hm]
      constructor
      · rintro ⟨_, ⟨⟩, h⟩
        exact h
      · exact fun h => ⟨m, rfl, h⟩
    rw [hmoved, s.text_lt_iff, hwall, s.margin_congr hfraction hoffset, Bound.offset,
      Stored.offset, dayMicros]
    omega

/-- Bounds that are not at the ends of the calendar can be moved. -/
lemma InReach.exists_prefilter (h : InReach sys a) (hbounds : BoundsRead sys a) :
    ∃ cs, prefilter sys.env a = .ok cs := by
  have hmove : ∀ {b days}, (sys.bound b).isSome →
      (∀ bound, sys.bound b = some bound → bound.moment.plusDays days ≠ none) →
      ∃ b', shiftIsoDay sys.env b days = .ok b' := by
    intro b days hread hdays
    obtain ⟨bound, hbound⟩ := Option.isSome_iff_exists.1 hread
    obtain ⟨m, hm⟩ := Option.ne_none_iff_exists'.1 (hdays bound hbound)
    rw [shiftIsoDay_bound hbound, hm]
    exact ⟨_, rfl⟩
  refine (exists_prefilter_iff sys.env).2 ⟨fun _ b hb => ?_, fun _ b hb => ?_⟩
  · refine hmove (hbounds b (.inl hb)) fun bound hbound hnone => ?_
    exact h.since_day b hb bound hbound (Moment.plusDays_neg_one_eq_none_iff.1 hnone)
  · refine hmove (hbounds b (.inr hb)) fun bound hbound hnone => ?_
    exact h.before_day b hb bound hbound (Moment.plusDays_one_eq_none_iff.1 hnone)

/-- Within reach, no row within the bounds is dropped. -/
lemma InReach.coarse (h : InReach sys a) (hmode : a.ordering = .instant)
    (hbounds : BoundsRead sys a) {r : Row} (hr : Documented r)
    (hin : inBounds sys.env a r = true) : coarse sys.env a r = true := by
  rcases ht : r.filedAt with _ | t
  · -- a row without a time is in bounds only when there are none
    have htime := hasTime_of_inBounds sys.env hin
    have hnone : ¬((given a.since).isSome ∨ (given a.before).isSome) := by
      intro hgiven
      rw [hasTime, if_pos hgiven, ht] at htime
      cases htime
    simp only [not_or, Option.not_isSome_iff_eq_none] at hnone
    rw [Window.coarse, hmode]
    simp only [textIs, hnone.1, hnone.2]
    rfl
  · obtain ⟨s, rfl⟩ := hr t ht
    have hwithin := (inBounds_iff hmode hbounds ht).1 hin
    exact (coarse_iff_reach hmode hbounds ht (h.exists_prefilter hbounds)).2
      ⟨h.since s hwithin, h.before s hwithin⟩

/-- A row with a stored time. -/
def Stored.row (s : Stored) : Row := ⟨"", none, none, .ofList [("filed_at", .text s.text)]⟩

lemma Stored.filedAt_row (s : Stored) : s.row.filedAt = some s.text := rfl

/-- **The prefilter.** It only prefilters exactly when, in a zone that is taken, the bounds are not
at the ends of the calendar and no time within them is out of their reach. -/
theorem prefilter_iff (sys : System) (a : Args) (hmode : a.ordering = .instant)
    (hbounds : BoundsRead sys a) :
    OnlyPrefilters sys a ↔ (validZone sys.env a.tzName = true → InReach sys a) := by
  constructor
  · intro h hzone
    have hok : ∃ cs, prefilter sys.env a = .ok cs := by
      rcases hp : prefilter sys.env a with e | cs
      · refine absurd ?_ (h.raises none)
        rw [buildWindowSql, (instantExpr_eq_ok_iff sys.env).2 ⟨rfl, fun _ => hzone⟩, hp,
          prefilter_error hp]
        rfl
      · exact ⟨cs, rfl⟩
    obtain ⟨hsince, hbefore⟩ := (exists_prefilter_iff sys.env).1 hok
    have hcoarse : ∀ s : Stored, s.Within sys a → Window.coarse sys.env a s.row = true := by
      intro s hs
      obtain ⟨cs, hcs⟩ := hok
      refine h.coarse _ (buildWindowSql_eq sys.env hcs (fun _ => hzone) none) s.row (fun t ht => ?_)
        ((inBounds_iff hmode hbounds s.filedAt_row).2 hs)
      exact ⟨s, (Option.some_injective _ (s.filedAt_row.symm.trans ht)).symm⟩
    have hreach := fun (s : Stored) (hs : s.Within sys a) =>
      (coarse_iff_reach hmode hbounds s.filedAt_row hok).1 (hcoarse s hs)
    refine ⟨fun b hb bound hbound hfirst => ?_, fun b hb bound hbound hlast => ?_,
      fun s hs => (hreach s hs).1, fun s hs => (hreach s hs).2⟩
    · obtain ⟨b', hb'⟩ := hsince hmode b hb
      obtain ⟨m, hm⟩ := exists_plusDays hbound hb'
      rw [Moment.plusDays_neg_one_eq_none_iff.2 hfirst] at hm
      cases hm
    · obtain ⟨b', hb'⟩ := hbefore hmode b hb
      obtain ⟨m, hm⟩ := exists_plusDays hbound hb'
      rw [Moment.plusDays_one_eq_none_iff.2 hlast] at hm
      cases hm
  · intro h
    refine ⟨fun cursor hraise => ?_, fun q hq r hr hin => ?_, fun table hrows cursor => ?_⟩
    · by_cases hzone : validZone sys.env a.tzName = true
      · obtain ⟨cs, hcs⟩ := (h hzone).exists_prefilter hbounds
        rw [buildWindowSql_eq sys.env hcs fun _ => hzone] at hraise
        rcases hafter : afterCursor cursor with e | after
        · rw [hafter] at hraise
          obtain ⟨e', rfl⟩ := afterCursor_error hafter
          cases hraise
        · rw [hafter] at hraise
          cases hraise
      · rw [buildWindowSql, hmode, instantExpr, if_neg hzone] at hraise
        cases hraise
    · obtain ⟨-, -, hzone, -⟩ := buildWindowSql_inv sys.env hq
      exact (h (hzone hmode)).coarse hmode hbounds hr hin
    · exact window_eq_unfilteredWindow hmode hbounds
        (fun hzone => (h hzone).exists_prefilter hbounds)
        (fun hzone r hr => (h hzone).coarse hmode hbounds hr) hrows cursor

/-- Offsets that differ by less than a day, by a millisecond at least, keep every time in reach. -/
theorem InReach.of_offsets
    (since_day : ∀ b ∈ given a.since, ∀ bound, sys.bound b = some bound →
      bound.moment.plusDays (-1) ≠ none)
    (before_day : ∀ b ∈ given a.before, ∀ bound, sys.bound b = some bound →
      bound.moment.plusDays 1 ≠ none)
    (h : ∀ (s : Stored) (b : String) (bound : Bound), sys.bound b = some bound →
      |bound.offset - s.offset sys a.tzName| ≤ dayMicros - 1000) : InReach sys a := by
  have hmargin : ∀ (s : Stored) (m : Moment), -1000 < s.margin m ∧ s.margin m ≤ 1 := by
    intro s m
    unfold Stored.margin
    cases s.shape <;> dsimp only
    · split_ifs <;> omega
    · split_ifs <;> omega
    · omega
  refine ⟨fun b hb bound hbound hfirst => ?_, fun b hb bound hbound hlast => ?_,
    fun s hs b hb bound hbound => ?_, fun s hs b hb bound hbound => ?_⟩
  · exact since_day b hb bound hbound (Moment.plusDays_neg_one_eq_none_iff.2 hfirst)
  · exact before_day b hb bound hbound (Moment.plusDays_one_eq_none_iff.2 hlast)
  · have hoffsets := abs_le.1 (h s b bound hbound)
    have hgap := hs.1 b hb bound hbound
    have := hmargin s bound.moment
    omega
  · have hoffsets := abs_le.1 (h s b bound hbound)
    have hgap := hs.2 b hb bound hbound
    have := hmargin s bound.moment
    omega

end Main

/-! ### Two palaces -/

/-- The digits of a stored time are read back. -/
lemma Stored.readWall_digitText (s : Stored) : readWall s.digitText.toList = s.clock.wall := by
  have hs := fraction_lt s.clock
  obtain ⟨shape, clock, hwhole⟩ := s
  rw [digitText, String.toList_ofList, decimals]
  cases shape with
  | hostMicro => exact readWall_text clock (k := 6) hs rfl (Nat.mul_one _).symm
  | hostSecond =>
    have hzero : clock.fraction = 0 := Nat.eq_zero_of_dvd_of_lt hwhole hs
    exact readWall_text clock (k := 0) (f := 0) (by decide) rfl (by rw [hzero, Nat.zero_mul])
  | utcMilli =>
    have hthousand : 1000 ∣ clock.fraction := hwhole
    have hf : clock.fraction / 1000 < 10 ^ 3 := Nat.div_lt_of_lt_mul hs
    exact readWall_text clock hf rfl (Nat.div_mul_cancel hthousand).symm

/-- A database whose palace host is in one zone, with a fixed offset, and whose session is in UTC;
`datetime` is asked for one text. -/
def palace (zone : String) (offset : ℤ) (text : String) (m : Moment) : System where
  like _ _ := none
  timestamp t := some (readWall t.toList)
  timestamp_stored s := congrArg some s.readWall_digitText
  zoneInstant _ wall := wall - offset
  sessionInstant wall := wall
  otherInstant _ := none
  fromisoformat t := if t = text then some m else none
  zoneInfo name := name = zone
  parseWindow _ _ := true

lemma january_le : 1 ≤ 12 := by decide

/-- The second of January 2026. -/
def january2 : Date := ⟨2026, 1, 2, by decide, by decide, by decide, january_le, by decide,
  by decide⟩

/-- One in the morning of the third. -/
def january3 : Stored where
  shape := .hostSecond
  clock := ⟨⟨2026, 1, 3, by decide, by decide, by decide, january_le, by decide, by decide⟩,
    3600000000, by decide⟩
  whole := by decide

/-- A palace at UTC+14 that is asked for what is before midnight of the second at UTC-12. -/
def kiritimati : System :=
  palace "Pacific/Kiritimati" 50400000000 "2026-01-02T00:00:00-12:00"
    ⟨⟨january2, 0, by decide⟩, some (-43200000000)⟩

/-- The bound. -/
def beforeJanuary2 : Args where
  before := some "2026-01-02T00:00:00-12:00"
  ordering := .instant
  tzName := "Pacific/Kiritimati"

/-- The morning of the third at UTC+14 is before midnight of the second at UTC-12, but its text is
past the one of a day later. -/
theorem prefilter_fails : ¬∀ (sys : System) (a : Args), a.ordering = .instant →
    BoundsRead sys a → OnlyPrefilters sys a := by
  intro h
  have hread : BoundsRead kiritimati beforeJanuary2 := by
    rintro b (hb | hb)
    · cases hb
    · obtain rfl : "2026-01-02T00:00:00-12:00" = b := Option.some_injective _ hb
      decide +kernel
  obtain ⟨q, hq⟩ : ∃ q, buildWindowSql kiritimati.env beforeJanuary2 none = .ok q := ⟨_, rfl⟩
  have hcoarse := (h _ _ rfl hread).coarse q hq january3.row
    (fun t ht => ⟨january3, (Option.some_injective _ (january3.filedAt_row.symm.trans ht)).symm⟩)
    (by decide +kernel)
  exact absurd hcoarse (by decide +kernel)

/-- A palace in California that is asked for what is since the second of January. -/
def california : System :=
  palace "America/Los_Angeles" (-28800000000) "2026-01-02" ⟨⟨january2, 0, by decide⟩, none⟩

/-- The bound. -/
def sinceJanuary2 : Args where
  since := some "2026-01-02"
  ordering := .instant
  tzName := "America/Los_Angeles"

lemma bound_california {b : String} {bound : Bound} (h : california.bound b = some bound) :
    bound.moment = ⟨⟨january2, 0, by decide⟩, none⟩ ∧ bound.offset = 0 := by
  obtain ⟨m, hm, rfl⟩ := Option.map_eq_some_iff.1 h
  have hm' : m = ⟨⟨january2, 0, by decide⟩, none⟩ := by
    simp only [california, palace] at hm
    split_ifs at hm
    exact (Option.some_injective _ hm).symm
  subst hm'
  refine ⟨rfl, ?_⟩
  rw [Bound.offset]
  dsimp only
  split_ifs
  · exact Int.sub_self _
  · exact Int.sub_self _

/-- Eight hours are less than a day. -/
theorem prefilter_iff_california : OnlyPrefilters california sinceJanuary2 := by
  refine (prefilter_iff california sinceJanuary2 rfl ?_).2 fun _ => .of_offsets ?_ ?_ ?_
  · rintro b (hb | hb)
    · obtain rfl : "2026-01-02" = b := Option.some_injective _ hb
      decide +kernel
    · cases hb
  · intro b _ bound hbound
    rw [(bound_california hbound).1]
    decide
  · intro b _ bound hbound
    rw [(bound_california hbound).1]
    decide
  · intro s b bound hbound
    rw [(bound_california hbound).2, Stored.offset, Stored.instant, System.atTimeZone]
    have hzone : ∀ zone wall, california.zoneInstant zone wall = wall + 28800000000 :=
      fun zone wall => by
        simp only [california, palace]
        omega
    rw [hzone, abs_le, dayMicros]
    split_ifs <;> omega

end Window

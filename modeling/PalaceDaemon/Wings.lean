/-
The slug of a wing, where it is written and where it is read.

`normalize_wing_slug` lower-cases a name, takes one leading `wing_` away and replaces everything
but letters, digits and underscores.  Every body of a write route applies it to the wing that
was posted, with a default of its own for a blank one; a silent save applies it once more when
the entry is written.  A read filter applies it and takes `unknown`, the slug of a name with
nothing in it, for no filter.

A slug that begins with `wing_` is not its own slug.  Such a slug comes from a name that begins,
after its first `wing_`, with `wing` and a character that becomes an underscore
(`PrefixedAgain`); apart from these names, every route writes what the filter reads.
-/
import Mathlib

namespace PalaceDaemon.Wings

/-- A string, as the list of its characters. -/
abbrev Text := List Char

/-! ### The functions -/

/-- `str.lower` on a character.  Outside ASCII only the dotted capital I and the Kelvin sign
matter: every other character becomes one that is not ASCII either, and is left as it is. -/
def lowerChar (c : Char) : Text :=
  if c = '\u0130' then ['i', '\u0307'] else if c = '\u212A' then ['k'] else [c.toLower]

/-- `str.lower` -/
def lower (s : Text) : Text := s.flatMap lowerChar

/-- A letter or digit that `[a-z0-9]` has. -/
def isAlnum (c : Char) : Bool := c.isLower || c.isDigit

/-- What `re.sub(r"[^a-z0-9_]", "_", s)` makes of a character. -/
def slugChar (c : Char) : Char := if isAlnum c then c else '_'

/-- `"wing_"` -/
def wingPrefix : Text := ['w', 'i', 'n', 'g', '_']

/-- `"unknown"` -/
def unknown : Text := ['u', 'n', 'k', 'n', 'o', 'w', 'n']

/-- The name without a leading `wing_`. -/
def stripPrefix (s : Text) : Text := if wingPrefix.isPrefixOf s then s.drop 5 else s

/-- `s or "unknown"` -/
def orUnknown (s : Text) : Text := if s = [] then unknown else s

/-- `normalize_wing_slug` -/
def normalizeWingSlug (s : Text) : Text :=
  if s = [] then unknown else orUnknown ((stripPrefix (lower s)).map slugChar)

/-- `normalize_wing_filter` on a string. -/
def normalizeWingFilter (wing : Text) : Option Text :=
  if wing = [] then none
  else if normalizeWingSlug wing = unknown then none else some (normalizeWingSlug wing)

/-- `str.isspace` on a character. -/
def isSpace (c : Char) : Bool :=
  c ∈ ['\t', '\n', '\x0b', '\x0c', '\r', '\x1c', '\x1d', '\x1e', '\x1f', ' ', '\u0085', '\u00a0',
    '\u1680', '\u2028', '\u2029', '\u202f', '\u205f', '\u3000'] ||
    ('\u2000' ≤ c && c ≤ '\u200a')

/-- `not v or not v.strip()` -/
def blank (v : Text) : Bool := v.all isSpace

/-- `_normalize_wing` of a body with a default for blank names. -/
def wingOr (default v : Text) : Text := normalizeWingSlug (if blank v then default else v)

/-- `MemoryBody._normalize_wing` -/
def memoryBodyWing : Text → Text := wingOr unknown

/-- `MineBody._normalize_wing` -/
def mineBodyWing : Text → Text := wingOr "general".toList

/-- `SilentSaveBody._normalize_wing` -/
def silentSaveBodyWing (v : Text) : Text := if blank v then [] else normalizeWingSlug v

/-- The wing that `_do_silent_save_write` writes under. -/
def doSilentSaveWriteWing (rawWing : Text) : Text :=
  if rawWing = [] then [] else normalizeWingSlug rawWing

/-- A route that writes; `queued` says whether the request went through a queue, which keeps the
wing of the body as it is. -/
inductive WriteRoute
  | memory
  | mine (queued : Bool)
  | silentSave (queued : Bool)
deriving DecidableEq, Repr

/-- The wing under which the drawers of a request are stored. -/
def WriteRoute.storedWing (v : Text) : WriteRoute → Text
  | memory => memoryBodyWing v
  | mine _ => mineBodyWing v
  | silentSave _ => doSilentSaveWriteWing (silentSaveBodyWing v)

/-! ### Slugs -/

/-- The text is made of the characters of a slug, and has one. -/
structure IsSlug (s : Text) : Prop where
  ne_nil : s ≠ []
  chars : ∀ c ∈ s, slugChar c = c

lemma slugChar_slugChar (c : Char) : slugChar (slugChar c) = slugChar c := by
  by_cases h : isAlnum c = true
  · have hc : slugChar c = c := if_pos h
    rw [hc, hc]
  · have hc : slugChar c = '_' := if_neg h
    rw [hc]
    decide

lemma isSlug_unknown : IsSlug unknown where
  ne_nil := by decide
  chars := by
    have hall : (unknown.all fun c => slugChar c == c) = true := by decide
    simpa using List.all_eq_true.1 hall

lemma isSlug_orUnknown_map (s : Text) : IsSlug (orUnknown (s.map slugChar)) := by
  unfold orUnknown
  split_ifs with hnil
  · exact isSlug_unknown
  · refine ⟨hnil, fun c hc => ?_⟩
    obtain ⟨d, -, rfl⟩ := List.mem_map.1 hc
    exact slugChar_slugChar d

/-- The slug of anything is a slug. -/
lemma isSlug_normalizeWingSlug (s : Text) : IsSlug (normalizeWingSlug s) := by
  unfold normalizeWingSlug
  split_ifs
  · exact isSlug_unknown
  · exact isSlug_orUnknown_map _

lemma toNat_lt_of_isAlnum {c : Char} (h : isAlnum c = true) : c.toNat < 128 := by
  simp only [isAlnum, Char.isLower, Char.isDigit, Bool.or_eq_true, Bool.and_eq_true,
    decide_eq_true_eq, ge_iff_le, UInt32.le_iff_toNat_le] at h
  have ha : c.val.toNat ≤ 'z'.val.toNat ∨ c.val.toNat ≤ '9'.val.toNat := by tauto
  have hz : 'z'.val.toNat = 122 := rfl
  have h9 : '9'.val.toNat = 57 := rfl
  show c.val.toNat < 128
  omega

lemma lowerChar_of_isAlnum {c : Char} (h : isAlnum c = true) : lowerChar c = [c] := by
  have hascii : ∀ n : Fin 128, isAlnum (Char.ofNat n) = true →
      lowerChar (Char.ofNat n) = [Char.ofNat n] := by decide
  have hc := hascii ⟨c.toNat, toNat_lt_of_isAlnum h⟩
  rw [Char.ofNat_toNat] at hc
  exact hc h

lemma lowerChar_slugChar (c : Char) : lowerChar (slugChar c) = [slugChar c] := by
  unfold slugChar
  split_ifs with h
  · exact lowerChar_of_isAlnum h
  · decide

/-- Lower-casing leaves a slug alone. -/
lemma IsSlug.lower_eq {s : Text} (h : IsSlug s) : lower s = s := by
  have hchar : ∀ c ∈ s, lowerChar c = [c] := by
    intro c hc
    rw [← h.chars c hc]
    exact lowerChar_slugChar c
  unfold lower
  rw [List.flatMap_congr hchar]
  simp

/-- A slug is its own slug unless it begins with `wing_`. -/
lemma IsSlug.normalize_eq {s : Text} (h : IsSlug s) (hstrip : wingPrefix.isPrefixOf s = false) :
    normalizeWingSlug s = s := by
  have hmap : s.map slugChar = s := by
    conv_rhs => rw [← List.map_id s]
    exact List.map_congr_left h.chars
  rw [normalizeWingSlug, if_neg h.ne_nil, h.lower_eq, stripPrefix, hstrip, if_neg (by decide),
    hmap, orUnknown, if_neg h.ne_nil]

/-- After its first `wing_`, the name begins with `wing` and a character that is not a letter or
digit. -/
def PrefixedAgain (s : Text) : Prop :=
  ∃ c rest, stripPrefix (lower s) = 'w' :: 'i' :: 'n' :: 'g' :: c :: rest ∧ isAlnum c = false

lemma slugChar_eq_iff {c d : Char} (hd : isAlnum d = true) : slugChar c = d ↔ c = d := by
  unfold slugChar
  split_ifs with h
  · rfl
  · constructor
    · rintro rfl
      exact absurd hd (by decide)
    · rintro rfl
      exact absurd hd h

lemma slugChar_eq_underscore {c : Char} : slugChar c = '_' ↔ isAlnum c = false := by
  unfold slugChar
  split_ifs with h
  · constructor
    · rintro rfl
      exact absurd h (by decide)
    · intro hc
      rw [h] at hc
      cases hc
  · simpa using h

lemma isPrefixOf_map_slugChar {t : Text} : wingPrefix.isPrefixOf (t.map slugChar) = true ↔
    ∃ c rest, t = 'w' :: 'i' :: 'n' :: 'g' :: c :: rest ∧ isAlnum c = false := by
  constructor
  · intro h
    obtain ⟨r, hr⟩ := List.isPrefixOf_iff_prefix.1 h
    simp only [wingPrefix, List.cons_append, List.nil_append] at hr
    obtain ⟨c₁, t, rfl, h1, hr⟩ := List.map_eq_cons_iff.1 hr.symm
    obtain ⟨c₂, t, rfl, h2, hr⟩ := List.map_eq_cons_iff.1 hr
    obtain ⟨c₃, t, rfl, h3, hr⟩ := List.map_eq_cons_iff.1 hr
    obtain ⟨c₄, t, rfl, h4, hr⟩ := List.map_eq_cons_iff.1 hr
    obtain ⟨c₅, t, rfl, h5, hr⟩ := List.map_eq_cons_iff.1 hr
    rw [slugChar_eq_iff (by decide)] at h1 h2 h3 h4
    subst h1 h2 h3 h4
    exact ⟨c₅, t, rfl, slugChar_eq_underscore.1 h5⟩
  · rintro ⟨c, rest, rfl, hc⟩
    rw [List.isPrefixOf_iff_prefix]
    refine ⟨rest.map slugChar, ?_⟩
    simp only [List.map_cons, slugChar_eq_underscore.2 hc]
    rfl

/-- The slug of a name begins with `wing_` just when the name is prefixed again. -/
lemma isPrefixOf_normalizeWingSlug {s : Text} (hs : s ≠ []) :
    wingPrefix.isPrefixOf (normalizeWingSlug s) = true ↔ PrefixedAgain s := by
  rw [normalizeWingSlug, if_neg hs, orUnknown, PrefixedAgain, ← isPrefixOf_map_slugChar]
  split_ifs with hnil
  · rw [hnil]
    decide
  · rfl

/-- Normalizing is idempotent on every name that is not prefixed again. -/
lemma normalizeWingSlug_idem {s : Text} (h : ¬ PrefixedAgain s) :
    normalizeWingSlug (normalizeWingSlug s) = normalizeWingSlug s := by
  by_cases hs : s = []
  · rw [hs]
    decide
  · refine (isSlug_normalizeWingSlug s).normalize_eq ?_
    rw [Bool.eq_false_iff, Ne, isPrefixOf_normalizeWingSlug hs]
    exact h

/-! ### Writers and readers -/

lemma wingOr_of_not_blank {v : Text} (h : blank v = false) (default : Text) :
    wingOr default v = normalizeWingSlug v := by
  rw [wingOr, h]
  rfl

lemma ne_nil_of_not_blank {v : Text} (h : blank v = false) : v ≠ [] := by
  rintro rfl
  cases h

/-- A silent save is written under the slug of the slug. -/
lemma silentSave_storedWing {v : Text} (h : blank v = false) :
    doSilentSaveWriteWing (silentSaveBodyWing v) = normalizeWingSlug (normalizeWingSlug v) := by
  rw [silentSaveBodyWing, h, if_neg (by decide), doSilentSaveWriteWing,
    if_neg (isSlug_normalizeWingSlug v).ne_nil]

/-- The wings of a name agree: normalizing it twice is normalizing it once, and what a filter by
the name selects is what every route writes under. -/
structure Agree (v : Text) : Prop where
  idem : normalizeWingSlug (normalizeWingSlug v) = normalizeWingSlug v
  filter_eq : blank v = false → ∀ r : WriteRoute, normalizeWingFilter v = some (r.storedWing v)

/-- The route normalizes the wing twice. -/
def WriteRoute.Twice : WriteRoute → Prop
  | .memory => False
  | .mine _ => False
  | .silentSave _ => True

/-- **One slug.**  Normalizing is idempotent on a name that is not prefixed again.  A filter by a
name that is not blank selects the wing its writers write under, except that `unknown` is no
filter: this is the slug of the name, for a silent save as long as the name is not prefixed
again. -/
theorem wing_routes_agree (v : Text) :
    (¬ PrefixedAgain v → normalizeWingSlug (normalizeWingSlug v) = normalizeWingSlug v) ∧
    (blank v = false → ∀ r : WriteRoute, (r.Twice → ¬ PrefixedAgain v) →
      r.storedWing v = normalizeWingSlug v ∧
      normalizeWingFilter v =
        if r.storedWing v = unknown then none else some (r.storedWing v)) := by
  refine ⟨normalizeWingSlug_idem, fun hblank r hagain => ?_⟩
  have hstored : r.storedWing v = normalizeWingSlug v := by
    cases r with
    | memory => exact wingOr_of_not_blank hblank _
    | mine queued => exact wingOr_of_not_blank hblank _
    | silentSave queued =>
        exact (silentSave_storedWing hblank).trans (normalizeWingSlug_idem (hagain trivial))
  refine ⟨hstored, ?_⟩
  rw [hstored, normalizeWingFilter, if_neg (ne_nil_of_not_blank hblank)]

/-- The names `Wing_Palace Daemon`, on every route, and `wing_wing_a`, on those that normalize
once. -/
theorem wing_routes_agree_palace :
    (normalizeWingFilter "Wing_Palace Daemon".toList = some "palace_daemon".toList ∧
      ∀ r : WriteRoute, r.storedWing "Wing_Palace Daemon".toList = "palace_daemon".toList) ∧
    WriteRoute.memory.storedWing "wing_wing_a".toList = "wing_a".toList ∧
    ∀ queued, (WriteRoute.mine queued).storedWing "wing_wing_a".toList = "wing_a".toList := by
  have hprefixed : ¬ PrefixedAgain "Wing_Palace Daemon".toList := by
    rw [← isPrefixOf_normalizeWingSlug (by decide)]
    decide
  have hroutes := fun r => (wing_routes_agree "Wing_Palace Daemon".toList).2 (by decide) r
    fun _ => hprefixed
  have honce := (wing_routes_agree "wing_wing_a".toList).2 (by decide)
  have hslug : normalizeWingSlug "Wing_Palace Daemon".toList = "palace_daemon".toList := by decide
  have hslug' : normalizeWingSlug "wing_wing_a".toList = "wing_a".toList := by decide
  refine ⟨⟨?_, fun r => (hroutes r).1.trans hslug⟩, ?_, fun queued => ?_⟩
  · rw [(hroutes .memory).2, (hroutes .memory).1, hslug, if_neg (by decide)]
  · exact (honce .memory False.elim).1.trans hslug'
  · exact (honce (.mine queued) False.elim).1.trans hslug'

/-- A filter by `unknown` is none, and `wing_wing_a` loses one prefix at a time. -/
theorem wing_routes_agree_fails :
    ¬ Agree "unknown".toList ∧ ¬ Agree "wing_wing_a".toList := by
  constructor
  · intro h
    exact absurd (h.filter_eq (by decide) .memory) (by decide)
  · intro h
    exact absurd h.idem (by decide)

end PalaceDaemon.Wings

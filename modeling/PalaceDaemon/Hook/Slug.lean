/-
The slug that a hook makes of a project's name.

`_slugify_project` lower-cases a name, makes one underscore of every run of dashes, dots and
white space, drops whatever is then not a letter, a digit or an underscore, and takes the
underscores at both ends away.  The daemon's `normalize_wing_slug` keeps a slug with one
exception: it takes a leading `wing_` away.

A slug begins with `wing_` just when the first word of the name is `wing` and another word
follows (`WingFirst`), and it is empty just when the name has no word at all (`hasWord`).  Both
are about the name as it is, before separators are joined and characters are dropped; the two
views are related by `Thin`, which leaves out underscores that stand before another one.
-/
import PalaceDaemon.Wings
import PalaceDaemon.Lib.PyText
import Mathlib.Data.List.DropRight

namespace PalaceDaemon.Hook

open PalaceDaemon.Wings

/-! ### The function -/

/-- `[-.\s]` -/
def isSeparator (c : Char) : Bool := c == '-' || c == '.' || PyText.isSpace c

/-- `re.sub(r"[-.\s]+", "_", s)`: the last character of a run becomes the underscore. -/
def subSeparators : Text → Text
  | [] => []
  | c :: s =>
      if isSeparator c then
        if s.head?.any isSeparator then subSeparators s else '_' :: subSeparators s
      else c :: subSeparators s

/-- `[a-z0-9_]` -/
def isSlugChar (c : Char) : Bool := isAlnum c || c == '_'

/-- `s.strip("_")` -/
def stripUnderscores (s : Text) : Text := (s.dropWhile (· == '_')).rdropWhile (· == '_')

/-- `_slugify_project` -/
def slugifyProject (name : Text) : Text :=
  stripUnderscores ((subSeparators (lower (PyText.strip name))).filter isSlugChar)

/-! ### The words of a name -/

/-- A name has a word when a letter or a digit is in it. -/
def hasWord (name : Text) : Bool := (lower (PyText.strip name)).any isAlnum

/-- The letters and digits of a name, with an underscore for everything that separates words;
other characters do not count. -/
def marks (s : Text) : Text :=
  (s.filter fun c => isSlugChar c || isSeparator c).map fun c => if isAlnum c then c else '_'

/-- The marks begin, after their leading underscores, with the word `wing`, and another word
follows. -/
def wingFirst (s : Text) : Bool :=
  wingPrefix.isPrefixOf (s.dropWhile (· == '_')) && ((s.dropWhile (· == '_')).drop 5).any isAlnum

/-- The first word of the name is `wing`, and another word follows. -/
def WingFirst (name : Text) : Prop := wingFirst (marks (lower (PyText.strip name))) = true

instance (name : Text) : Decidable (WingFirst name) := inferInstanceAs (Decidable (_ = true))

/-! ### Underscores that stand before another one -/

/-- The first text is the second without some of the underscores that stand before another
underscore. -/
inductive Thin : Text → Text → Prop
  | nil : Thin [] []
  | cons (c : Char) {s t : Text} : Thin s t → Thin (c :: s) (c :: t)
  | skip {s t : Text} : Thin s ('_' :: t) → Thin s ('_' :: '_' :: t)

lemma isAlnum_underscore : isAlnum '_' = false := by decide

lemma isAlnum_of_isSeparator {c : Char} (h : isSeparator c = true) : isAlnum c = false := by
  by_contra hc
  have hlt := toNat_lt_of_isAlnum (Bool.not_eq_false _ ▸ hc)
  have hascii : ∀ n : Fin 128, isSeparator (Char.ofNat n) = true →
      isAlnum (Char.ofNat n) = false := by decide
  have := hascii ⟨c.toNat, hlt⟩
  rw [Char.ofNat_toNat] at this
  exact hc (this h)

lemma marks_cons_separator {c : Char} (h : isSeparator c = true) (s : Text) :
    marks (c :: s) = '_' :: marks s := by
  simp [marks, h, isAlnum_of_isSeparator h]

lemma marks_cons_slugChar {c : Char} (h : isSlugChar c = true) (s : Text) :
    marks (c :: s) = c :: marks s := by
  have hc : (if isAlnum c = true then c else '_') = c := by
    split_ifs with halnum
    · rfl
    · have hor : isAlnum c = true ∨ c = '_' := by simpa [isSlugChar] using h
      exact (hor.resolve_left halnum).symm
  simp [marks, h, hc]

lemma marks_cons_other {c : Char} (hslug : isSlugChar c = false) (hsep : isSeparator c = false)
    (s : Text) : marks (c :: s) = marks s := by
  simp [marks, hslug, hsep]

/-- What `_slugify_project` makes of the separators is the marks, thinned. -/
lemma thin_marks (s : Text) : Thin ((subSeparators s).filter isSlugChar) (marks s) := by
  induction s with
  | nil => exact .nil
  | cons c s ih =>
    cases hsep : isSeparator c with
    | true =>
      rw [marks_cons_separator hsep, subSeparators, if_pos hsep]
      split_ifs with hrun
      · -- the run goes on: this separator is left out, and the next is marked
        cases s with
        | nil => cases hrun
        | cons d s =>
          have hdsep : isSeparator d = true := hrun
          rw [marks_cons_separator hdsep] at ih ⊢
          exact ih.skip
      · rw [List.filter_cons_of_pos (by decide)]
        exact ih.cons '_'
    | false =>
      rw [subSeparators, if_neg (by simp [hsep])]
      cases hslug : isSlugChar c with
      | true =>
        rw [List.filter_cons_of_pos hslug, marks_cons_slugChar hslug]
        exact ih.cons c
      | false =>
        rw [List.filter_cons_of_neg (by simp [hslug]), marks_cons_other hslug hsep]
        exact ih

lemma Thin.any_eq {s t : Text} (h : Thin s t) : s.any isAlnum = t.any isAlnum := by
  induction h with
  | nil => rfl
  | cons c _ ih => rw [List.any_cons, List.any_cons, ih]
  | skip _ ih => rw [ih, List.any_cons, List.any_cons, isAlnum_underscore]; rfl

/-- Thinning keeps the text after the leading underscores, up to thinning. -/
lemma Thin.dropWhile {s t : Text} (h : Thin s t) :
    Thin (s.dropWhile (· == '_')) (t.dropWhile (· == '_')) := by
  induction h with
  | nil => exact .nil
  | cons c h ih =>
    by_cases hc : c = '_'
    · subst hc
      simpa using ih
    · rw [List.dropWhile_cons_of_neg (by simpa using hc),
        List.dropWhile_cons_of_neg (by simpa using hc)]
      exact h.cons c
  | skip _ ih => simpa using ih

lemma Thin.of_cons {c : Char} (hc : c ≠ '_') {s t : Text} (h : Thin s (c :: t)) :
    ∃ s', s = c :: s' ∧ Thin s' t := by
  cases h with
  | cons _ h => exact ⟨_, rfl, h⟩
  | skip _ => exact absurd rfl hc

lemma Thin.of_cons_left {c : Char} (hc : c ≠ '_') {s t : Text} (h : Thin (c :: s) t) :
    ∃ t', t = c :: t' ∧ Thin s t' := by
  generalize hl : c :: s = l at h
  induction h with
  | nil => cases hl
  | cons d h =>
    cases hl
    exact ⟨_, rfl, h⟩
  | skip _ ih =>
    obtain ⟨t', ht, -⟩ := ih hl
    exact absurd (List.cons.inj ht).1.symm hc

/-- Thinning keeps the first character. -/
lemma Thin.head_eq {s t : Text} (h : Thin s t) : s.head? = t.head? := by
  induction h with
  | nil => rfl
  | cons c _ _ => rfl
  | skip _ ih => exact ih

lemma wingFirst_iff {s : Text} : wingFirst s = true ↔
    ∃ r, s.dropWhile (· == '_') = 'w' :: 'i' :: 'n' :: 'g' :: r ∧ r.head? = some '_' ∧
      r.any isAlnum = true := by
  rw [wingFirst, Bool.and_eq_true, List.isPrefixOf_iff_prefix]
  constructor
  · rintro ⟨⟨r, hr⟩, hany⟩
    rw [← hr] at hany
    refine ⟨'_' :: r, hr.symm, rfl, ?_⟩
    rw [List.any_cons, isAlnum_underscore]
    exact hany
  · rintro ⟨r, hr, hhead, hany⟩
    obtain ⟨r, rfl⟩ : ∃ r', r = '_' :: r' := List.head?_eq_some_iff.1 hhead
    rw [List.any_cons, isAlnum_underscore] at hany
    rw [hr]
    exact ⟨⟨r, rfl⟩, hany⟩

lemma Thin.wingFirst_eq {s t : Text} (h : Thin s t) : wingFirst s = wingFirst t := by
  rw [Bool.eq_iff_iff, wingFirst_iff, wingFirst_iff]
  have hdrop := h.dropWhile
  constructor
  · rintro ⟨r, hr, hhead, hany⟩
    rw [hr] at hdrop
    obtain ⟨t₁, ht, h₁⟩ := hdrop.of_cons_left (by decide)
    obtain ⟨t₂, rfl, h₂⟩ := h₁.of_cons_left (by decide)
    obtain ⟨t₃, rfl, h₃⟩ := h₂.of_cons_left (by decide)
    obtain ⟨t₄, rfl, h₄⟩ := h₃.of_cons_left (by decide)
    exact ⟨t₄, ht, h₄.head_eq ▸ hhead, h₄.any_eq ▸ hany⟩
  · rintro ⟨r, hr, hhead, hany⟩
    rw [hr] at hdrop
    obtain ⟨s₁, hs, h₁⟩ := hdrop.of_cons (by decide)
    obtain ⟨s₂, rfl, h₂⟩ := h₁.of_cons (by decide)
    obtain ⟨s₃, rfl, h₃⟩ := h₂.of_cons (by decide)
    obtain ⟨s₄, rfl, h₄⟩ := h₃.of_cons (by decide)
    exact ⟨s₄, hs, h₄.head_eq ▸ hhead, h₄.any_eq ▸ hany⟩

/-! ### The slug of a name -/

lemma isAlnum_of_isSlugChar {c : Char} (h : isSlugChar c = true) (hc : c ≠ '_') :
    isAlnum c = true := by
  have hor : isAlnum c = true ∨ c = '_' := by simpa [isSlugChar] using h
  exact hor.resolve_right hc

lemma stripUnderscores_eq_nil {s : Text} (hs : ∀ c ∈ s, isSlugChar c = true) :
    stripUnderscores s = [] ↔ s.any isAlnum = false := by
  rw [stripUnderscores, List.rdropWhile_eq_nil_iff, List.any_eq_false]
  constructor
  · intro h c hc halnum
    have hmem : c ∈ s.dropWhile (· == '_') := by
      by_contra hnot
      rw [← List.takeWhile_append_dropWhile (p := (· == '_')) (l := s)] at hc
      have htake := (List.mem_append.1 hc).resolve_right hnot
      have := List.mem_takeWhile_imp htake
      rw [eq_of_beq this] at halnum
      exact absurd halnum (by decide)
    rw [eq_of_beq (h c hmem)] at halnum
    exact absurd halnum (by decide)
  · intro h c hc
    have hmem := (List.dropWhile_sublist _).subset hc
    by_contra hne
    exact h c hmem (isAlnum_of_isSlugChar (hs c hmem) (by simpa using hne))

/-- The trimmed text begins with `wing_` just when its first word is `wing` and another word
follows: the last character that is left is not an underscore. -/
lemma isPrefixOf_stripUnderscores {s : Text} (hs : ∀ c ∈ s, isSlugChar c = true) :
    wingPrefix.isPrefixOf (stripUnderscores s) = wingFirst s := by
  rw [Bool.eq_iff_iff, wingFirst, Bool.and_eq_true, List.isPrefixOf_iff_prefix,
    List.isPrefixOf_iff_prefix, stripUnderscores]
  have hdrop : ∀ c ∈ s.dropWhile (· == '_'), isSlugChar c = true := fun c hc =>
    hs c ((List.dropWhile_sublist _).subset hc)
  generalize s.dropWhile (· == '_') = d at hdrop ⊢
  constructor
  · intro hpre
    refine ⟨hpre.trans (List.rdropWhile_prefix _ _), ?_⟩
    obtain ⟨r, hr⟩ := hpre
    obtain ⟨r', hr'⟩ := List.rdropWhile_prefix (· == '_') d
    have hdrop5 : d.drop 5 = r ++ r' := by
      rw [← hr', ← hr]
      rfl
    have hne : d.rdropWhile (· == '_') ≠ [] := by
      rw [← hr]
      exact List.append_ne_nil_of_left_ne_nil (by decide) _
    have hlast := List.rdropWhile_last_not (· == '_') d hne
    simp only [beq_iff_eq] at hlast
    have halnum := isAlnum_of_isSlugChar
      (hdrop _ ((List.rdropWhile_prefix _ _).subset (List.getLast_mem hne))) hlast
    -- the last character is one of `r`, since `wing_` ends with an underscore
    have hmem : (d.rdropWhile (· == '_')).getLast hne ∈ r := by
      have hget := List.getLast_congr hne (hr ▸ hne) hr.symm
      rw [hget] at hlast ⊢
      cases r using List.reverseRecOn with
      | nil => exact absurd rfl hlast
      | append_singleton r c =>
        rw [List.getLast_append_of_ne_nil _ (by simp)]
        simp
    rw [hdrop5, List.any_append, List.any_eq_true.2 ⟨_, hmem, halnum⟩, Bool.true_or]
  · rintro ⟨hpre, hany⟩
    obtain ⟨c, hc, halnum⟩ := List.any_eq_true.1 hany
    refine List.prefix_of_prefix_length_le hpre (List.rdropWhile_prefix _ _) ?_
    -- otherwise everything after `wing_` is trimmed
    by_contra hshort
    have hlength : (d.rdropWhile (· == '_')).length ≤ 5 := Nat.le_of_not_le hshort
    have hd : d.rdropWhile (· == '_') ++ d.rtakeWhile (· == '_') = d :=
      List.rdropWhile_append_rtakeWhile
    rw [← hd, List.drop_append, List.drop_eq_nil_of_le hlength, List.nil_append] at hc
    have htrimmed := List.mem_rtakeWhile_imp ((List.drop_sublist _ _).subset hc)
    rw [eq_of_beq htrimmed] at halnum
    exact absurd halnum (by decide)

/-- The characters of a name that its slug is trimmed from. -/
lemma isSlugChar_of_mem_filter {s : Text} : ∀ c ∈ s.filter isSlugChar, isSlugChar c = true :=
  fun _ hc => (List.mem_filter.1 hc).2

lemma any_isAlnum_marks (s : Text) : (marks s).any isAlnum = s.any isAlnum := by
  induction s with
  | nil => rfl
  | cons c s ih =>
    cases hsep : isSeparator c with
    | true =>
      rw [marks_cons_separator hsep, List.any_cons, List.any_cons, ih, isAlnum_underscore,
        isAlnum_of_isSeparator hsep]
    | false =>
      cases hslug : isSlugChar c with
      | true => rw [marks_cons_slugChar hslug, List.any_cons, List.any_cons, ih]
      | false =>
        have halnum : isAlnum c = false := (Bool.or_eq_false_iff.1 hslug).1
        rw [marks_cons_other hslug hsep, List.any_cons, halnum, ih, Bool.false_or]

/-- The slug of a name is empty just when the name has no word. -/
lemma slugifyProject_eq_nil {name : Text} : slugifyProject name = [] ↔ hasWord name = false := by
  rw [slugifyProject, stripUnderscores_eq_nil isSlugChar_of_mem_filter, (thin_marks _).any_eq,
    any_isAlnum_marks, hasWord]

lemma isSlug_slugifyProject {name : Text} (h : hasWord name = true) :
    IsSlug (slugifyProject name) where
  ne_nil := by
    rw [Ne, slugifyProject_eq_nil, h]
    decide
  chars := by
    intro c hc
    have hmem := (List.dropWhile_sublist _).subset ((List.rdropWhile_prefix _ _).subset hc)
    have hslug : isSlugChar c = true := isSlugChar_of_mem_filter c hmem
    by_cases hc : c = '_'
    · subst hc
      decide
    · exact if_pos (isAlnum_of_isSlugChar hslug hc)

/-- The slug of a name begins with `wing_` just when `wing` is its first word and not its
last. -/
lemma isPrefixOf_slugifyProject (name : Text) :
    wingPrefix.isPrefixOf (slugifyProject name) = true ↔ WingFirst name := by
  rw [slugifyProject, isPrefixOf_stripUnderscores isSlugChar_of_mem_filter,
    (thin_marks _).wingFirst_eq, WingFirst]

/-- A slug is kept by the daemon just when it does not begin with `wing_`. -/
lemma normalizeWingSlug_eq_self_iff {s : Text} (h : IsSlug s) :
    normalizeWingSlug s = s ↔ wingPrefix.isPrefixOf s = false := by
  refine ⟨fun heq => ?_, h.normalize_eq⟩
  by_contra hpre
  rw [Bool.not_eq_false] at hpre
  obtain ⟨r, rfl⟩ := List.isPrefixOf_iff_prefix.1 hpre
  rw [normalizeWingSlug, if_neg h.ne_nil, h.lower_eq, stripPrefix, if_pos hpre, orUnknown] at heq
  have hlength := congrArg List.length heq
  split_ifs at hlength with hnil
  · -- nothing follows `wing_`, and the daemon makes `unknown` of it
    have hr : r = [] := List.map_eq_nil_iff.1 hnil
    subst hr
    exact absurd hlength (by decide)
  · simp only [List.length_map, List.length_drop, List.length_append] at hlength
    have hwing : wingPrefix.length = 5 := rfl
    omega

/-- The daemon keeps the slug of a name with a word just when the name does not begin with the
word `wing` and another one. -/
theorem slugifyProject_fixed_iff (name : Text) :
    (slugifyProject name ≠ [] ∧ normalizeWingSlug (slugifyProject name) = slugifyProject name) ↔
      hasWord name = true ∧ ¬ WingFirst name := by
  rw [Ne, slugifyProject_eq_nil, Bool.not_eq_false]
  refine and_congr_right fun h => ?_
  rw [normalizeWingSlug_eq_self_iff (isSlug_slugifyProject h), ← isPrefixOf_slugifyProject,
    Bool.not_eq_true]

end PalaceDaemon.Hook

/-
The lines of a queue file, at the start of a pass and at a boundary.

A file is its entries and the lines that are none.  A boundary skips what is not JSON or not an
object; the start also quarantines an object without a payload to take the key from.  A line that
fits is read without an exception (`parseArrivals_ok`, `foldlM_startLine_ok`), and no other is
(`parseArrivals_eq`, `fitsStart_of_ok`).
-/
import PalaceDaemon.Mines.RawClaim

namespace PalaceDaemon.Mines

/-! ### The lines of a file -/

/-- A line that a boundary can read. -/
def RawLine.FitsBoundary : RawLine → Prop
  | .notJson => True
  | .loadsRaises => False
  | .value (.obj e) => EntryFits e
  | .value _ => True

/-- A line that the start of a pass can read. -/
def RawLine.FitsStart : RawLine → Prop
  | .notJson => True
  | .loadsRaises => False
  | .value v =>
      match startEntry v with
      | none => True
      | some (e, _) => EntryFits e

/-- The line of an entry. -/
def RawLine.ofEntry (e : Fields) : RawLine := .value (.obj e)

/-- The line is a well-formed entry. -/
def RawLine.WellFormed : RawLine → Prop
  | .value (.obj e) => wellFormed e = true
  | _ => False

/-- The entries among the lines that a boundary finds. -/
def entriesOf (lines : List RawLine) : List Fields :=
  lines.filterMap fun line => match line with
    | .value (.obj e) => some e
    | _ => none

/-- The entries among the lines that are claimed at the start. -/
def startEntries (lines : List RawLine) : List Fields :=
  lines.filterMap fun line => match line with
    | .value v => (startEntry v).map Prod.fst
    | _ => none

/-- The lines that are quarantined at the start. -/
def startDiscards (lines : List RawLine) : List RawLine :=
  lines.filter fun line => match line with
    | .value v => (startEntry v).isNone
    | _ => true

/-- A boundary reads the entries of its lines, unless `json.loads` raises. -/
lemma parseArrivals_eq {lines : List RawLine} {es : List Fields}
    (h : parseArrivals lines = .ok es) :
    es = entriesOf lines ∧ (∀ line ∈ lines, (∀ e, line ≠ .ofEntry e) → line.FitsBoundary) := by
  induction lines generalizing es with
  | nil =>
      obtain rfl := Except.ok.inj h
      exact ⟨rfl, nofun⟩
  | cons line lines ih =>
      have hskip : parseArrivals lines = .ok es → entriesOf (line :: lines) = entriesOf lines →
          line.FitsBoundary → es = entriesOf (line :: lines) ∧
            ∀ l ∈ line :: lines, (∀ e, l ≠ .ofEntry e) → l.FitsBoundary := by
        intro htail hentries hline
        obtain ⟨hes, hfits⟩ := ih htail
        refine ⟨hes.trans hentries.symm, fun l hl hne => ?_⟩
        rcases List.mem_cons.1 hl with rfl | hl
        · exact hline
        · exact hfits l hl hne
      cases line with
      | notJson => exact hskip h rfl trivial
      | loadsRaises => cases h
      | value v =>
          cases v with
          | obj e =>
              rw [parseArrivals] at h
              cases htail : parseArrivals lines with
              | error exc =>
                  rw [htail] at h
                  cases h
              | ok es' =>
                  rw [htail] at h
                  obtain rfl := Except.ok.inj h
                  obtain ⟨hes, hfits⟩ := ih htail
                  refine ⟨congrArg (e :: ·) hes, fun l hl hne => ?_⟩
                  rcases List.mem_cons.1 hl with rfl | hl
                  · exact absurd rfl (hne e)
                  · exact hfits l hl hne
          | _ => exact hskip h rfl trivial

lemma parseArrivals_ok {lines : List RawLine} (h : ∀ line ∈ lines, line.FitsBoundary) :
    parseArrivals lines = .ok (entriesOf lines) := by
  induction lines with
  | nil => rfl
  | cons line lines ih =>
      have htail := ih fun l hl => h l (List.mem_cons_of_mem _ hl)
      cases line with
      | notJson => exact htail
      | loadsRaises => exact absurd (h _ List.mem_cons_self) id
      | value v =>
          cases v with
          | obj e =>
              rw [parseArrivals, htail]
              rfl
          | _ => exact htail

lemma mem_entriesOf {lines : List RawLine} {e : Fields} :
    e ∈ entriesOf lines ↔ RawLine.ofEntry e ∈ lines := by
  rw [entriesOf, List.mem_filterMap]
  constructor
  · rintro ⟨line, hline, he⟩
    split at he
    · obtain rfl := Option.some.inj he
      exact hline
    · cases he
  · intro h
    exact ⟨_, h, rfl⟩

lemma perm_entriesOf (lines : List RawLine) :
    lines.Perm ((entriesOf lines).map RawLine.ofEntry ++ notEntries lines) := by
  induction lines with
  | nil => exact .refl _
  | cons line lines ih =>
      cases line with
      | notJson => exact (ih.cons _).trans List.perm_middle.symm
      | loadsRaises => exact (ih.cons _).trans List.perm_middle.symm
      | value v =>
          cases v with
          | obj e => exact ih.cons _
          | _ => exact (ih.cons _).trans List.perm_middle.symm

lemma not_wellFormed_of_notEntries {lines : List RawLine} :
    ∀ line ∈ notEntries lines, ¬ line.WellFormed := by
  intro line hline
  have h := (List.mem_filter.1 hline).2
  cases line with
  | notJson => exact id
  | loadsRaises => exact id
  | value v =>
      cases v with
      | obj e => cases h
      | _ => exact id

/-- The payload by which the start takes the key of an entry. -/
lemma startEntry_spec {v : Json} {e payload : Fields} (h : startEntry v = some (e, payload)) :
    v = .obj e ∧ rawDedupKey e = payloadKey payload := by
  cases v with
  | obj fields =>
      rw [startEntry] at h
      split at h
      · next payload' hpayload =>
          obtain ⟨rfl, rfl⟩ := Prod.mk.inj (Option.some.inj h)
          refine ⟨rfl, ?_⟩
          rw [Fields.get] at hpayload
          rw [rawDedupKey, Fields.get]
          cases hlookup : Json.lookup "payload".toList fields with
          | none =>
              rw [hlookup] at hpayload
              obtain rfl := Json.obj.inj hpayload
              rfl
          | some value =>
              rw [hlookup] at hpayload
              obtain rfl : value = .obj payload' := hpayload
              cases payload' <;> rfl
      · cases h
  | _ => cases h

lemma startEntry_of_wellFormed {e : Fields} (h : wellFormed e = true) :
    ∃ payload, startEntry (.obj e) = some (e, payload) := by
  simp only [wellFormed, Bool.and_eq_true] at h
  have hpayload := h.2
  rw [Fields.get] at hpayload
  cases hlookup : Json.lookup "payload".toList e with
  | none =>
      rw [hlookup] at hpayload
      cases hpayload
  | some value =>
      rw [hlookup] at hpayload
      cases value with
      | obj payload => exact ⟨payload, by rw [startEntry, Fields.get, hlookup]; rfl⟩
      | _ => cases hpayload

lemma not_wellFormed_of_startDiscards {lines : List RawLine} :
    ∀ line ∈ startDiscards lines, ¬ line.WellFormed := by
  intro line hline
  have h := (List.mem_filter.1 hline).2
  cases line with
  | notJson => exact id
  | loadsRaises => exact id
  | value v =>
      cases v with
      | obj e =>
          intro hwf
          obtain ⟨payload, hpayload⟩ := startEntry_of_wellFormed hwf
          simp only [hpayload] at h
          cases h
      | _ => exact id

lemma perm_startEntries (lines : List RawLine) :
    lines.Perm ((startEntries lines).map RawLine.ofEntry ++ startDiscards lines) := by
  induction lines with
  | nil => exact .refl _
  | cons line lines ih =>
      cases line with
      | notJson => exact (ih.cons _).trans List.perm_middle.symm
      | loadsRaises => exact (ih.cons _).trans List.perm_middle.symm
      | value v =>
          cases hv : startEntry v with
          | none =>
              have hentries : startEntries (.value v :: lines) = startEntries lines := by
                simp [startEntries, hv]
              have hdiscards : startDiscards (.value v :: lines) =
                  .value v :: startDiscards lines := by
                simp [startDiscards, hv]
              rw [hentries, hdiscards]
              exact (ih.cons _).trans List.perm_middle.symm
          | some ep =>
              obtain ⟨e, payload⟩ := ep
              obtain ⟨rfl, -⟩ := startEntry_spec hv
              have hentries : startEntries (.value (.obj e) :: lines) =
                  e :: startEntries lines := by
                simp [startEntries, hv]
              have hdiscards : startDiscards (.value (.obj e) :: lines) = startDiscards lines := by
                simp [startDiscards, hv]
              rw [hentries, hdiscards]
              exact ih.cons _

/-- The start of a pass merges the entries of its lines, when every line fits. -/
lemma foldlM_startLine_ok {lines : List RawLine} (h : ∀ line ∈ lines, line.FitsStart)
    (c : RawClaim) (failed : List RawLine) :
    lines.foldlM startLine (c, failed) =
      ((startEntries lines).foldlM RawClaim.arrival c).map fun c' =>
        (c', failed ++ startDiscards lines) := by
  induction lines generalizing c failed with
  | nil => simp [startEntries, startDiscards, pure, Except.pure, Except.map]
  | cons line lines ih =>
      have hline := h line List.mem_cons_self
      have ih := ih fun l hl => h l (List.mem_cons_of_mem _ hl)
      rw [List.foldlM_cons]
      cases line with
      | notJson =>
          show lines.foldlM startLine (c, failed ++ [.notJson]) = _
          rw [ih, List.append_assoc]
          rfl
      | loadsRaises => exact hline.elim
      | value v =>
          cases hv : startEntry v with
          | none =>
              have hstep : startLine (c, failed) (.value v) = .ok (c, failed ++ [.value v]) := by
                rw [startLine, hv]
              have hentries : startEntries (.value v :: lines) = startEntries lines := by
                simp [startEntries, hv]
              have hdiscards : startDiscards (.value v :: lines) =
                  .value v :: startDiscards lines := by
                simp [startDiscards, hv]
              rw [hstep, hentries, hdiscards]
              show lines.foldlM startLine (c, failed ++ [.value v]) = _
              rw [ih, List.append_assoc]
              rfl
          | some ep =>
              obtain ⟨e, payload⟩ := ep
              obtain ⟨rfl, hkey⟩ := startEntry_spec hv
              rw [RawLine.FitsStart, hv] at hline
              obtain ⟨⟨k, hk⟩, n, hn⟩ := hline
              have hentries : startEntries (.value (.obj e) :: lines) =
                  e :: startEntries lines := by
                simp [startEntries, hv]
              have hdiscards : startDiscards (.value (.obj e) :: lines) = startDiscards lines := by
                simp [startDiscards, hv]
              have hstep : startLine (c, failed) (.value (.obj e)) =
                  (c.arrival e).map fun c' => (c', failed) := by
                rw [startLine, hv, RawClaim.arrival, hk]
                simp only [hn, ← hkey, hk]
              rw [hstep, hentries, hdiscards, List.foldlM_cons]
              cases c.arrival e with
              | error exc => rfl
              | ok c' => exact ih c' failed

lemma startEntries_reverse (lines : List RawLine) :
    startEntries lines.reverse = (startEntries lines).reverse := by
  rw [startEntries, List.filterMap_reverse]
  rfl

lemma startDiscards_reverse (lines : List RawLine) :
    startDiscards lines.reverse = (startDiscards lines).reverse := by
  rw [startDiscards, List.filter_reverse]
  rfl

lemma fits_of_mem_startEntries {lines : List RawLine} (h : ∀ line ∈ lines, line.FitsStart) :
    ∀ e ∈ startEntries lines, EntryFits e := by
  intro e he
  rw [startEntries, List.mem_filterMap] at he
  obtain ⟨line, hline, he⟩ := he
  have hfits := h line hline
  cases line with
  | notJson => cases he
  | loadsRaises => cases he
  | value v =>
      obtain ⟨⟨e', payload⟩, hv, rfl⟩ := Option.map_eq_some_iff.1 he
      rw [RawLine.FitsStart, hv] at hfits
      exact hfits

/-- A line that does not fit raises at the start. -/
lemma fitsStart_of_ok {lines : List RawLine} {s s' : RawStart}
    (h : lines.foldlM startLine s = .ok s') : ∀ line ∈ lines, line.FitsStart := by
  induction lines generalizing s with
  | nil => exact nofun
  | cons line lines ih =>
      rw [List.foldlM_cons] at h
      cases hstep : startLine s line with
      | error exc =>
          rw [hstep] at h
          cases h
      | ok s₁ =>
          rw [hstep] at h
          intro l hl
          rcases List.mem_cons.1 hl with rfl | hl
          · cases l with
            | notJson => trivial
            | loadsRaises => cases hstep
            | value v =>
                rw [startLine] at hstep
                rw [RawLine.FitsStart]
                cases hv : startEntry v with
                | none => trivial
                | some ep =>
                    obtain ⟨e, payload⟩ := ep
                    rw [hv] at hstep
                    obtain ⟨-, hkey⟩ := startEntry_spec hv
                    simp only at hstep
                    split at hstep
                    · next n k hn hk => exact ⟨⟨k, hkey.trans hk⟩, n, hn⟩
                    · cases hstep
                    · cases hstep
          · exact ih h l hl

end PalaceDaemon.Mines

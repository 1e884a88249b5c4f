/-
Following `next_cursor` through the drawer listing.

`enumerates_iff` says exactly when the walk gives the listing: the requests can be answered, no
matching row falls out of the coarse prefilter, and the position that the cursor of the last row
of each full page names has above it the rows after that row and no others.

A cursor holds the stored text of the row it was made from.  In the wall-clock ordering it names
the place of that row when the text is there, is not empty and has no separator in it
(`enumerates_of_dated`).  A row without a key is above no position, so once a page is full the
rows without a time are lost (`enumerates_fails`).
-/
import PalaceDaemon.Lib.Keyset
import PalaceDaemon.Window.Listing
import Mathlib.Data.String.Basic

namespace Window

open Keyset

variable {τ : Type*} [LinearOrder τ] (env : Env τ) (a : Args) (table : Table)

/-- **The walk enumerates.**  Without a cursor at first, then following `next_cursor` until there
is none, the pages are the listing. -/
def Enumerates : Prop :=
  Walk (fun cursor => (window env table a cursor).toOption) none (listing env a table)

/-- The position that the cursor of a row names has above it the rows after that row and no
others. -/
def Separates (r : Row) : Prop :=
  ∃ p, position env a.key r = some p ∧ ∀ x ∈ listing env a table,
    above env a.key p x = true ↔ rank env a.key r < rank env a.key x

variable {a table}

lemma effectiveLimit_pos : 0 < a.effectiveLimit := by
  have hmax : (1 : ℤ) ≤ max 1 (min a.limit maxPage) := le_max_left _ _
  rw [Args.effectiveLimit]
  omega

lemma limit_of_build {cursor : Option String} {q : Query}
    (h : buildWindowSql env a cursor = .ok q) : q.limit = a.effectiveLimit := by
  rw [buildWindowSql] at h
  rcases hkey : instantExpr env a.ordering a.tzName with e | key
  · rw [hkey] at h
    cases h
  · rcases hcs : prefilter env a with e | cs
    · rw [hkey, hcs] at h
      cases h
    · rcases hafter : afterCursor cursor with e | after
      · rw [hkey, hcs, hafter] at h
        cases h
      · rw [hkey, hcs, hafter] at h
        obtain rfl := Except.ok.inj h
        rfl

/-- A request is a page of what it selects. -/
lemma window_eq_pageOf (cursor : Option String) : (window env table a cursor).toOption =
    pageOf a.effectiveLimit (selection env a table) cursorOf cursor := by
  have hpos := effectiveLimit_pos (a := a)
  rw [window, pageOf, selection]
  split_ifs with hbounds
  · rcases hq : buildWindowSql env a cursor with e | q
    · rfl
    · have hlimit := limit_of_build env hq
      rcases hrows : selects env q table with _ | rows
      · have hrun : run env q table = .error .database := by rw [run, hrows]
        simp [hrun, hrows, bind, Except.bind, Except.toOption]
      · have hrun : run env q table = .ok (rows.take a.effectiveLimit) := by
          rw [run, hrows, hlimit]
        -- a page of that length is not empty
        have hne : (rows.take a.effectiveLimit).length = a.effectiveLimit →
            rows.take a.effectiveLimit ≠ [] := by
          intro hlen hnil
          rw [hnil, List.length_nil] at hlen
          omega
        have hfull : ((rows.take a.effectiveLimit).length = a.effectiveLimit ∧
            rows.take a.effectiveLimit ≠ []) ↔
              (rows.take a.effectiveLimit).length = a.effectiveLimit :=
          ⟨And.left, fun h => ⟨h, hne h⟩⟩
        simp only [hrun, hrows, bind, Except.bind, pure, Except.pure, Except.toOption, hfull,
          Option.bind_some, Option.map_some]
  · rfl

/-! ### Positions and ranks -/

lemma exists_key_of_above {p : Key τ ×ₗ τ} {x : Row} (h : above env a.key p x = true) :
    ∃ k, rowKey env a.key x = some (some k) ∧ p < toLex (k, env.collate x.id) := by
  rw [above] at h
  split at h
  · exact ⟨_, by assumption, of_decide_eq_true h⟩
  · cases h

lemma above_of_key {p : Key τ ×ₗ τ} {x : Row} {k : Key τ} (h : rowKey env a.key x = some (some k)) :
    above env a.key p x = decide (p < toLex (k, env.collate x.id)) := by
  rw [above, h]

lemma rank_of_key {x : Row} {k : Key τ} (h : rowKey env a.key x = some (some k)) :
    rank env a.key x = toLex ((k : WithTop (Key τ)), env.collate x.id) := by
  rw [rank, h]
  rfl

/-- Rows with keys are in the order of their keys and ids. -/
lemma rank_lt_iff {x y : Row} {k k' : Key τ} (hx : rowKey env a.key x = some (some k))
    (hy : rowKey env a.key y = some (some k')) : rank env a.key x < rank env a.key y ↔
      toLex (k, env.collate x.id) < toLex (k', env.collate y.id) := by
  rw [rank_of_key env hx, rank_of_key env hy, Prod.Lex.toLex_lt_toLex, Prod.Lex.toLex_lt_toLex]
  simp

/-- What comes after a row above the position is above it too, if it has a key. -/
lemma above_of_lt {p : Key τ ×ₗ τ} {x y : Row} {k : Key τ} (hx : above env a.key p x = true)
    (hlt : rank env a.key x < rank env a.key y) (hy : rowKey env a.key y = some (some k)) :
    above env a.key p y = true := by
  obtain ⟨k', hk', hp⟩ := exists_key_of_above env hx
  rw [above_of_key env hy, decide_eq_true_eq]
  exact hp.trans ((rank_lt_iff env hk' hy).1 hlt)

/-- Before a row with a key there are only such rows. -/
lemma exists_key_of_lt {x y : Row} {k : Key τ} (hreadable : (rowKey env a.key x).isSome)
    (hlt : rank env a.key x < rank env a.key y) (hy : rowKey env a.key y = some (some k)) :
    ∃ k', rowKey env a.key x = some (some k') := by
  obtain ⟨o, ho⟩ := Option.isSome_iff_exists.1 hreadable
  rcases o with _ | k'
  · -- NULL comes last
    rw [rank_of_key env hy, rank, ho, Prod.Lex.toLex_lt_toLex] at hlt
    simp at hlt
  · exact ⟨k', ho⟩

/-! ### The walk -/

lemma mem_listing {x : Row} :
    x ∈ listing env a table ↔ x ∈ table.rows ∧ matching env a x = true := by
  rw [listing, mem_inOrder, List.mem_filter]

/-- When the prefilter drops no matching row, the listing is what it keeps. -/
lemma kept_eq_listing
    (h : ∀ r ∈ table.rows, matching env a r = true → coarse env a r = true) :
    kept env a table = listing env a table := by
  rw [kept, listing]
  congr 1
  refine List.filter_congr fun r hr => ?_
  by_cases hmatch : matching env a r = true
  · rw [hmatch, h r hr hmatch]
    rfl
  · rw [Bool.eq_false_iff.2 hmatch]
    rfl

lemma walk_iff_separates (h : Answerable env a table)
    (hcoarse : ∀ r ∈ table.rows, matching env a r = true → coarse env a r = true) :
    Walk (pageOf a.effectiveLimit (selection env a table) cursorOf) none (listing env a table) ↔
      ∀ n r, (listing env a table)[(n + 1) * a.effectiveLimit - 1]? = some r →
        Separates env a table r := by
  have hkept := kept_eq_listing env hcoarse
  have hreadable : ∀ x ∈ listing env a table, (rowKey env a.key x).isSome := by
    intro x hx
    obtain ⟨hmem, hmatch⟩ := (mem_listing env).1 hx
    have hfilters : inFilters env a x = true := by
      rw [matching, Bool.and_eq_true] at hmatch
      exact hmatch.1
    exact (h.rows x hmem).key hfilters (hcoarse x hmem hmatch)
  have hselect : ∀ r, selection env a table (some (cursorOf r)) =
      ((position env a.key r).map (above env a.key)).map fun p =>
        (listing env a table).filter p := by
    intro r
    rw [selection_cursorOf env h, hkept, Option.map_map]
    rfl
  have hfirst : selection env a table none = some (listing env a table) := by
    rw [selection_none env h, hkept]
  have hsorted : (listing env a table).Pairwise fun x y => rank env a.key x < rank env a.key y :=
    pairwise_lt_inOrder env List.filter_sublist
  have hexact := walk_iff_exact (fun x => ∃ k, rowKey env a.key x = some (some k))
    (effectiveLimit_pos (a := a)) hfirst hsorted hselect ?_ ?_ ?_
  · refine hexact.trans ?_
    refine forall_congr' fun n => forall_congr' fun r => imp_congr_right fun _ => ?_
    rw [Separates]
    constructor
    · rintro ⟨p, hp, hiff⟩
      obtain ⟨q, hq, rfl⟩ := Option.map_eq_some_iff.1 hp
      exact ⟨q, hq, hiff⟩
    · rintro ⟨q, hq, hiff⟩
      exact ⟨_, by rw [hq, Option.map_some], hiff⟩
  · intro r p hp x _ hx
    obtain ⟨q, -, rfl⟩ := Option.map_eq_some_iff.1 hp
    obtain ⟨k, hk, -⟩ := exists_key_of_above env hx
    exact ⟨k, hk⟩
  · rintro r p hp x _ y _ hx hlt ⟨k, hk⟩
    obtain ⟨q, -, rfl⟩ := Option.map_eq_some_iff.1 hp
    exact above_of_lt env hx hlt hk
  · rintro x hx y _ hlt ⟨k, hk⟩
    exact exists_key_of_lt env (hreadable x hx) hlt hk

/-- After a row that ends a page, a row without a time is lost. -/
lemma not_separates_of_untimed {r x : Row} (hx : x ∈ listing env a table)
    (huntimed : x.filedAt = none) (hlt : rank env a.key r < rank env a.key x) :
    ¬Separates env a table r := by
  rintro ⟨p, -, hp⟩
  obtain ⟨k, hk, -⟩ := exists_key_of_above env ((hp x hx).2 hlt)
  rw [rowKey, huntimed] at hk
  cases hk

/-- **Keyset walk.**  The walk gives every matching row once, in order, exactly when the requests
can be answered, no matching row falls out of the coarse prefilter, and the cursor of each full
page separates the rows up to its own from the rows after it. -/
theorem enumerates_iff : Enumerates env a table ↔
    Answerable env a table ∧
    (∀ r ∈ table.rows, matching env a r = true → coarse env a r = true) ∧
    ∀ n r, (listing env a table)[(n + 1) * a.effectiveLimit - 1]? = some r →
      Separates env a table r := by
  have hpage : (fun cursor => (window env table a cursor).toOption) =
      pageOf a.effectiveLimit (selection env a table) cursorOf := funext (window_eq_pageOf env)
  rw [Enumerates, hpage]
  constructor
  · intro h
    obtain ⟨rows, hrows, -⟩ := walk_inv effectiveLimit_pos h
    have hanswer := answerable_of_selection env hrows
    -- each page is selected from what the prefilter keeps
    have hcoarse : ∀ r ∈ table.rows, matching env a r = true → coarse env a r = true := by
      intro r hr hmatch
      obtain ⟨c, sel, hc, hsel, hmem⟩ := selected_of_walk h r ((mem_listing env).2 ⟨hr, hmatch⟩)
      have hkept : r ∈ kept env a table := by
        rcases hc with rfl | ⟨r', rfl⟩
        · rw [selection_none env hanswer] at hsel
          obtain rfl := Option.some.inj hsel
          exact hmem
        · rw [selection_cursorOf env hanswer] at hsel
          obtain ⟨p, -, rfl⟩ := Option.map_eq_some_iff.1 hsel
          exact List.mem_of_mem_filter hmem
      rw [kept, mem_inOrder, List.mem_filter, Bool.and_eq_true] at hkept
      exact hkept.2.2
    exact ⟨hanswer, hcoarse, (walk_iff_separates env hanswer hcoarse).1 h⟩
  · rintro ⟨hanswer, hcoarse, hseparates⟩
    exact (walk_iff_separates env hanswer hcoarse).2 hseparates

/-- **Dated rows are enumerated.**  When the database reads the stored text of each matching row
from the cursor as it reads it from the row, the walk gives them all. -/
theorem enumerates_of_dated (h : Answerable env a table)
    (hcoarse : ∀ r ∈ table.rows, matching env a r = true → coarse env a r = true)
    (hdated : ∀ r ∈ table.rows, matching env a r = true → ∃ t k, r.filedAt = some t ∧ t ≠ "" ∧
      sep ∉ t.toList ∧ r.id ≠ "" ∧ readStored env a.key t = some k ∧
      readParam env a.key t = some k) : Enumerates env a table := by
  have hkey : ∀ r ∈ listing env a table, ∃ k, rowKey env a.key r = some (some k) ∧
      position env a.key r = some (toLex (k, env.collate r.id)) := by
    intro r hr
    obtain ⟨hmem, hmatch⟩ := (mem_listing env).1 hr
    obtain ⟨t, k, ht, hne, hsep, hid, hstored, hparam⟩ := hdated r hmem hmatch
    refine ⟨k, by simp only [rowKey, ht, hstored, Option.map_some], ?_⟩
    rw [position, ht, Option.getD_some, fields_joined hsep hne hid, Option.bind_some, hparam]
    rfl
  refine (enumerates_iff env).2 ⟨h, hcoarse, fun n r hr => ?_⟩
  obtain ⟨k, hk, hposition⟩ := hkey r (List.mem_of_getElem? hr)
  refine ⟨_, hposition, fun x hx => ?_⟩
  obtain ⟨k', hk', -⟩ := hkey x hx
  rw [above_of_key env hk', decide_eq_true_eq, rank_lt_iff env hk hk']

/-! ### A listing with a row that has no time -/

/-- A database with texts in the order of their code points, that is asked for no instant. -/
def textEnv : Env String where
  collate := id
  collate_injective := Function.injective_id
  like _ _ := none
  timestamp _ := none
  atTimeZone _ _ := none
  sessionInstant _ := none
  Date := Empty
  fromisoformat _ := none
  plusDays d _ := d.elim
  isoformat d := d.elim
  zoneInfo _ := false
  parseWindow since before := since.isNone && before.isNone

/-- A drawer with a time. -/
def timed : Row :=
  ⟨"timed", some "w", some "r", .ofList [("filed_at", .text "2026-09-02T00:00:00.000000")]⟩

/-- A drawer without. -/
def untimed : Row := ⟨"untimed", some "w", some "r", .ofList []⟩

/-- The two drawers. -/
def twoDrawers : Table := ⟨[timed, untimed], by decide⟩

lemma answerable_twoDrawers (limit : ℤ) :
    Answerable textEnv { limit := limit } twoDrawers := by
  refine ⟨rfl, nofun, nofun, nofun, ?_, ?_⟩
  · rintro b (hb | hb) <;> cases hb
  · intro r _
    refine ⟨fun _ s hs => (by cases hs), fun _ _ => ?_⟩
    rw [rowKey]
    cases r.filedAt <;> rfl

lemma listing_twoDrawers : listing textEnv { limit := 1 } twoDrawers = [timed, untimed] := by
  have hle : rank textEnv .filedAt timed ≤ rank textEnv .filedAt untimed := by
    rw [Prod.Lex.le_iff]
    exact .inl (WithTop.coe_lt_top _)
  show [timed, untimed].insertionSort
    (fun x y => rank textEnv .filedAt x ≤ rank textEnv .filedAt y) = _
  rw [List.insertionSort_cons, List.insertionSort_cons, List.insertionSort_nil,
    List.orderedInsert, List.orderedInsert, if_pos hle]

/-- Without a bound and a page at a time, the drawer without a time is not returned. -/
theorem enumerates_fails : ¬Enumerates textEnv { limit := 1 } twoDrawers := by
  have hpage : (fun cursor => (window textEnv twoDrawers { limit := 1 } cursor).toOption) = _ :=
    funext (window_eq_pageOf textEnv)
  rw [Enumerates, hpage, walk_iff_separates textEnv (answerable_twoDrawers 1) fun _ _ _ => rfl,
    listing_twoDrawers]
  intro h
  refine not_separates_of_untimed textEnv (x := untimed) ?_ rfl ?_ (h 0 timed rfl)
  · rw [listing_twoDrawers]
    simp
  · rw [Prod.Lex.lt_iff]
    exact .inl (WithTop.coe_lt_top _)

end Window

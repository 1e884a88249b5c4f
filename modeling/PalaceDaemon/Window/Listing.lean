/-
What a page request selects.

`listing` is the purpose of the request: the rows that match the filters and the bounds, in the
order of the key and the id.  A request can be answered when every step of it can
(`Answerable`); it then selects the matching rows that the coarse prefilter keeps
(`selection_none`), and with a cursor the ones of them that are above the position the cursor
names (`selection_cursorOf`).
-/
import PalaceDaemon.Window.Query

namespace Window

variable {τ : Type*} [LinearOrder τ] (env : Env τ)

/-! ### The listing -/

/-- The expression that the listing is ordered by. -/
def Args.key (a : Args) : KeyExpr :=
  match a.ordering with
  | .wallclock => .filedAt
  | .instant => .instantIn a.tzName

variable (a : Args) (r : Row)

/-- The row has the given wing and room. -/
def inPlace : Bool :=
  (given a.wing).all (fun w => r.wing = some w) && (given a.room).all fun m => r.room = some m

/-- The row has the given wing and room, and a source file with the given name. -/
def inFilters : Bool :=
  inPlace a r && (given a.sourceFile).all fun s =>
    r.sourceFile.any fun f => f = s ∨ env.like (basenamePattern s) f = some true

/-- The row has a key, which stands to the bound as it should. -/
def keyIs (bound : Option String) (holds : Key τ → Key τ → Bool) : Bool :=
  (given bound).all fun b => compareKey env a.key r b holds = some (some true)

/-- The row is at or after `since` and before `before`. -/
def inBounds : Bool :=
  keyIs env a r a.since (fun k p => p ≤ k) && keyIs env a r a.before fun k p => k < p

/-- The row matches the filters and the bounds. -/
def matching : Bool := inFilters env a r && inBounds env a r

/-- The rows that match, in the order of the key and the id. -/
def listing (table : Table) : List Row := inOrder env a.key (table.rows.filter (matching env a))

/-! ### Requests that can be answered -/

/-- The stored text of the row stands to the widened bound as it should. -/
def textIs (bound : Option String) (days : ℤ) (holds : τ → τ → Bool) : Bool :=
  (given bound).all fun b => match shiftIsoDay env b days with
    | .ok b' => r.filedAt.any fun t => holds (env.collate t) (env.collate b')
    | .error _ => false

/-- The row is not dropped by the coarse prefilter of the instant ordering. -/
def coarse : Bool :=
  match a.ordering with
  | .wallclock => true
  | .instant => textIs env r a.since (-1) (fun t b => b ≤ t) &&
      textIs env r a.before 1 fun t b => t < b

/-- The pattern of the source file does not fail on the row. -/
def LikeReadable : Prop :=
  inPlace a r = true → ∀ s ∈ given a.sourceFile, ∀ f, r.sourceFile = some f →
    f = s ∨ (env.like (basenamePattern s) f).isSome

/-- Nothing that the query asks of the row fails. -/
structure RowReadable : Prop where
  like : LikeReadable env a r
  key : inFilters env a r → coarse env a r → (rowKey env a.key r).isSome

/-- Each step of a request can be taken: the bounds and the zone are accepted, the bounds can be
shifted and read, and so can the rows. -/
structure Answerable (table : Table) : Prop where
  bounds : env.parseWindow a.since a.before = true
  zone : a.ordering = .instant → validZone env a.tzName = true
  since : a.ordering = .instant → ∀ b ∈ given a.since, ∃ b', shiftIsoDay env b (-1) = .ok b'
  before : a.ordering = .instant → ∀ b ∈ given a.before, ∃ b', shiftIsoDay env b 1 = .ok b'
  params : ∀ b, b ∈ given a.since ∨ b ∈ given a.before → (readParam env a.key b).isSome
  rows : ∀ r ∈ table.rows, RowReadable env a r

/-! ### The conditions on a row -/

lemma passes_append (key : KeyExpr) (cs ds : List Condition) :
    passes env key r (cs ++ ds) =
      (passes env key r cs).bind fun b => if b then passes env key r ds else some false := by
  induction cs with
  | nil => simp [passes]
  | cons c cs ih =>
      rw [List.cons_append, passes, passes]
      rcases eval env key r c with _ | _ | _ | _
      · rfl
      · rfl
      · rfl
      · exact ih

variable {a r}

/-- The condition of an optional argument that does not fail. -/
lemma passes_given {key : KeyExpr} {arg : Option String} {c : String → Condition}
    {test : String → Bool}
    (h : ∀ w ∈ given arg, ∃ v, eval env key r (c w) = some v ∧ (v = some true ↔ test w = true)) :
    passes env key r ((given arg).map c).toList = some ((given arg).all test) := by
  rcases hgiven : given arg with _ | w
  · rfl
  · obtain ⟨v, hv, htest⟩ := h w hgiven
    simp only [Option.map_some, Option.toList_some, passes, hv, Option.all_some]
    by_cases hw : test w = true
    · obtain rfl := htest.2 hw
      rw [hw]
    · rcases v with _ | _ | _
      · simpa using hw
      · simpa using hw
      · exact absurd (htest.1 rfl) hw

lemma passes_and {key : KeyExpr} {cs ds : List Condition} {b c : Bool}
    (hb : passes env key r cs = some b) (hc : passes env key r ds = some c) :
    passes env key r (cs ++ ds) = some (b && c) := by
  rw [passes_append, hb, Option.bind_some, hc]
  cases b <;> rfl

lemma passes_place :
    passes env a.key r (((given a.wing).map .wing).toList ++ ((given a.room).map .room).toList) =
      some (inPlace a r) := by
  refine passes_and env (passes_given env ?_) (passes_given env ?_)
  · intro w _
    exact ⟨_, rfl, by cases r.wing <;> simp⟩
  · intro m _
    exact ⟨_, rfl, by cases r.room <;> simp⟩

lemma passes_filters (h : LikeReadable env a r) :
    passes env a.key r (filters a) = some (inFilters env a r) := by
  rw [filters, passes_append, passes_place, Option.bind_some, inFilters]
  by_cases hplace : inPlace a r = true
  · rw [if_pos hplace, hplace, Bool.true_and]
    refine passes_given env fun s hs => ?_
    rcases hfile : r.sourceFile with _ | f
    · exact ⟨none, by simp [eval, hfile], by simp⟩
    · by_cases hf : f = s
      · exact ⟨some true, by simp [eval, hfile, hf], by simp [hf]⟩
      · have hsome := (h hplace s hs f hfile).resolve_left hf
        obtain ⟨b, hb⟩ := Option.isSome_iff_exists.1 hsome
        exact ⟨some b, by simp [eval, hfile, hf, hb], by simp [hf, hb]⟩
  · rw [if_neg hplace, Bool.eq_false_iff.2 hplace, Bool.false_and]

/-- A row on which the pattern fails. -/
lemma passes_filters_eq_none {s f : String} (hplace : inPlace a r = true)
    (hs : s ∈ given a.sourceFile) (hfile : r.sourceFile = some f) (hf : f ≠ s)
    (hlike : env.like (basenamePattern s) f = none) : passes env a.key r (filters a) = none := by
  rw [filters, passes_append, passes_place, Option.bind_some, if_pos hplace,
    Option.mem_def.1 hs, Option.map_some, Option.toList_some, passes, eval, hfile]
  simp [hf, hlike]

/-! ### The prefilter and the bounds -/

/-- Under a bound the row has a time. -/
def hasTime (a : Args) (r : Row) : Bool :=
  if (given a.since).isSome ∨ (given a.before).isSome then r.filedAt.isSome else true

lemma passes_dated : passes env a.key r (dated a) = some (hasTime a r) := by
  rw [dated, hasTime]
  by_cases h : (given a.since).isSome ∨ (given a.before).isSome
  · rw [if_pos h, if_pos h, passes, eval]
    cases r.filedAt <;> rfl
  · rw [if_neg h, if_neg h]
    rfl

lemma passes_widened {key : KeyExpr} {bound : Option String} {days : ℤ} {c : String → Condition}
    {holds : τ → τ → Bool} {cs : List Condition} (h : widened env bound days c = .ok cs)
    (hc : ∀ b, eval env key r (c b) =
      some (r.filedAt.map fun t => holds (env.collate t) (env.collate b))) :
    passes env key r cs = some (textIs env r bound days holds) := by
  rw [widened] at h
  rw [textIs]
  rcases hgiven : given bound with _ | b
  · obtain rfl := Except.ok.inj (hgiven ▸ h)
    rfl
  · rw [hgiven] at h
    rcases hshift : shiftIsoDay env b days with e | b'
    · simp only [hshift] at h
      cases h
    · simp only [hshift] at h
      obtain rfl := Except.ok.inj h
      rw [passes, hc]
      cases r.filedAt with
      | none => simp [hshift]
      | some t => cases hb : holds (env.collate t) (env.collate b') <;> simp [hshift, hb, passes]

/-- The coarse prefilter fails on no row. -/
lemma passes_prefilter {cs : List Condition} (h : prefilter env a = .ok cs) :
    passes env a.key r cs = some (coarse env a r) := by
  rw [prefilter] at h
  rw [coarse]
  rcases hmode : a.ordering with _ | _
  · rw [hmode] at h
    obtain rfl := Except.ok.inj h
    rfl
  · rw [hmode] at h
    rcases hlower : widened env a.since (-1) .filedAtGe with e | lower
    · simp only [hlower] at h
      cases h
    · rcases hupper : widened env a.before 1 .filedAtLt with e | upper
      · simp only [hlower, hupper] at h
        cases h
      · simp only [hlower, hupper] at h
        obtain rfl := Except.ok.inj h
        exact passes_and env (passes_widened env hlower fun b => rfl)
          (passes_widened env hupper fun b => rfl)

/-- A given bound that can be read is a condition that fails on no row with a readable key. -/
lemma passes_bound {bound : Option String} {c : String → Condition}
    {holds : Key τ → Key τ → Bool} (hkey : (rowKey env a.key r).isSome)
    (hparam : ∀ b ∈ given bound, (readParam env a.key b).isSome)
    (hc : ∀ b, eval env a.key r (c b) = compareKey env a.key r b holds) :
    passes env a.key r ((given bound).map c).toList = some (keyIs env a r bound holds) := by
  obtain ⟨k, hk⟩ := Option.isSome_iff_exists.1 hkey
  refine passes_given env fun b hb => ?_
  obtain ⟨p, hp⟩ := Option.isSome_iff_exists.1 (hparam b hb)
  have hcompare : compareKey env a.key r b holds = some (k.map (holds · p)) := by
    rw [compareKey, hk, hp]
  refine ⟨_, by rw [hc, hcompare], ?_⟩
  rw [hcompare]
  simp only [decide_eq_true_eq, Option.some.injEq]

lemma passes_exactBounds (hkey : (rowKey env a.key r).isSome)
    (hparams : ∀ b, b ∈ given a.since ∨ b ∈ given a.before → (readParam env a.key b).isSome) :
    passes env a.key r (exactBounds a) = some (inBounds env a r) :=
  passes_and env (passes_bound env hkey (fun b hb => hparams b (.inl hb)) fun _ => rfl)
    (passes_bound env hkey (fun b hb => hparams b (.inr hb)) fun _ => rfl)

lemma hasTime_of_inBounds (h : inBounds env a r = true) : hasTime a r = true := by
  rw [inBounds, Bool.and_eq_true] at h
  obtain ⟨hsince, hbefore⟩ := h
  -- a comparison with a key is true only when there is one
  have hsome : ∀ b holds, compareKey env a.key r b holds = some (some true) →
      r.filedAt.isSome = true := by
    intro b holds hcompare
    by_contra hnot
    have hnone : r.filedAt = none := by simpa using hnot
    rw [compareKey, rowKey, hnone] at hcompare
    rcases hparam : readParam env a.key b with _ | p <;> simp [hparam] at hcompare
  rw [hasTime]
  split_ifs with hgiven
  · rcases hgiven with hgiven | hgiven
    · obtain ⟨b, hb⟩ := Option.isSome_iff_exists.1 hgiven
      rw [keyIs, hb, Option.all_some] at hsince
      exact hsome b _ (of_decide_eq_true hsince)
    · obtain ⟨b, hb⟩ := Option.isSome_iff_exists.1 hgiven
      rw [keyIs, hb, Option.all_some] at hbefore
      exact hsome b _ (of_decide_eq_true hbefore)
  · rfl

/-- No row whose key fails is found to be out of bounds. -/
lemma passes_exactBounds_ne_false (hkey : rowKey env a.key r = none) :
    passes env a.key r (exactBounds a) ≠ some false := by
  have hnone : ∀ b holds, compareKey env a.key r b holds = none := by
    intro b holds
    rw [compareKey, hkey]
  rw [exactBounds]
  rcases given a.since with _ | s <;> rcases given a.before with _ | b <;>
    simp [passes, eval, hnone]

/-! ### The query on a row -/

section query

variable {cs es : List Condition}

/-- The query and whatever conditions come after its own, on a row that can be read. -/
lemma passes_query (hcs : prefilter env a = .ok cs)
    (hparams : ∀ b, b ∈ given a.since ∨ b ∈ given a.before → (readParam env a.key b).isSome)
    (hr : RowReadable env a r) {p : Bool}
    (hes : (rowKey env a.key r).isSome → passes env a.key r es = some p) :
    passes env a.key r (filters a ++ dated a ++ cs ++ exactBounds a ++ es) =
      some (matching env a r && coarse env a r && p) := by
  have hfront : passes env a.key r (filters a ++ dated a ++ cs) =
      some (inFilters env a r && hasTime a r && coarse env a r) :=
    passes_and env (passes_and env (passes_filters env hr.like) (passes_dated env))
      (passes_prefilter env hcs)
  by_cases hkey : (rowKey env a.key r).isSome
  · rw [passes_and env (passes_and env hfront (passes_exactBounds env hkey hparams)) (hes hkey),
      matching]
    have htime := hasTime_of_inBounds env (a := a) (r := r)
    revert htime
    cases inFilters env a r <;> cases hasTime a r <;> cases coarse env a r <;>
      cases inBounds env a r <;> simp
  · -- such a row is dropped before its key is needed
    have hdropped : (inFilters env a r && coarse env a r) = false := by
      rw [Bool.eq_false_iff, Ne, Bool.and_eq_true]
      rintro ⟨hin, hcoarse⟩
      exact hkey (hr.key hin hcoarse)
    have hfalse : (inFilters env a r && hasTime a r && coarse env a r) = false := by
      revert hdropped
      cases inFilters env a r <;> cases hasTime a r <;> cases coarse env a r <;> simp
    rw [List.append_assoc, passes_append, hfront, hfalse, matching]
    revert hdropped
    cases inFilters env a r <;> cases inBounds env a r <;> cases coarse env a r <;> simp

/-- A row that can be read is no reason for the query to fail. -/
lemma handles_query (hcs : prefilter env a = .ok cs)
    (hparams : ∀ b, b ∈ given a.since ∨ b ∈ given a.before → (readParam env a.key b).isSome)
    (hr : RowReadable env a r) {p : Bool}
    (hes : (rowKey env a.key r).isSome → passes env a.key r es = some p) :
    handles env a.key (filters a ++ dated a ++ cs ++ exactBounds a ++ es) r = true := by
  rw [handles, passes_query env hcs hparams hr hes]
  rcases hkept : matching env a r && coarse env a r && p with _ | _
  · rfl
  · simp only [Bool.and_eq_true, matching] at hkept
    exact hr.key hkept.1.1.1 hkept.1.2

/-- A row on which the query does not fail can be read. -/
lemma readable_of_handles (hcs : prefilter env a = .ok cs)
    (h : handles env a.key (filters a ++ dated a ++ cs ++ exactBounds a) r = true) :
    RowReadable env a r := by
  have hlike : LikeReadable env a r := by
    intro hplace s hs f hfile
    by_contra hnot
    obtain ⟨hf, hnone⟩ := not_or.1 hnot
    have hfail := passes_filters_eq_none env hplace hs hfile hf (by simpa using hnone)
    rw [handles, List.append_assoc, List.append_assoc, passes_append, hfail] at h
    cases h
  refine ⟨hlike, fun hin hcoarse => ?_⟩
  by_contra hkey
  have hnone : rowKey env a.key r = none := by simpa using hkey
  -- only a stored text can fail to be read, so the row has a time
  have htime : hasTime a r = true := by
    rw [hasTime]
    split_ifs
    · by_contra hnot
      have habsent : r.filedAt = none := by simpa using hnot
      rw [rowKey, habsent] at hnone
      cases hnone
    · rfl
  have hfront : passes env a.key r (filters a ++ dated a ++ cs) = some true := by
    rw [passes_and env (passes_and env (passes_filters env hlike) (passes_dated env))
      (passes_prefilter env hcs), hin, htime, hcoarse]
    rfl
  have hbounds := passes_exactBounds_ne_false env hnone
  rw [handles, passes_append, hfront, Option.bind_some, if_pos rfl] at h
  rcases hpass : passes env a.key r (exactBounds a) with _ | _ | _
  · simp [hpass] at h
  · exact hbounds hpass
  · simp [hpass, hnone] at h

end query

/-! ### Order -/

section order

variable {key : KeyExpr}

lemma rank_injOn {table : Table} {x y : Row} (hx : x ∈ table.rows) (hy : y ∈ table.rows)
    (h : rank env key x = rank env key y) : x = y := by
  have hid : x.id = y.id := env.collate_injective (congrArg (fun q => (ofLex q).2) h)
  exact List.inj_on_of_nodup_map table.ids_nodup hx hy hid

lemma mem_inOrder {rows : List Row} {x : Row} : x ∈ inOrder env key rows ↔ x ∈ rows :=
  List.mem_insertionSort _

lemma pairwise_inOrder (rows : List Row) :
    (inOrder env key rows).Pairwise fun x y => rank env key x ≤ rank env key y := by
  have : IsTrans Row fun x y => rank env key x ≤ rank env key y := ⟨fun _ _ _ => le_trans⟩
  have : Std.Total fun x y => rank env key x ≤ rank env key y := ⟨fun _ _ => le_total _ _⟩
  exact List.pairwise_insertionSort _ rows

/-- The rows of a table come in strictly ascending order. -/
lemma pairwise_lt_inOrder {table : Table} {rows : List Row} (hrows : rows.Sublist table.rows) :
    (inOrder env key rows).Pairwise fun x y => rank env key x < rank env key y := by
  have hnodup : (inOrder env key rows).Nodup := by
    have := (List.Nodup.of_map _ table.ids_nodup).sublist hrows
    exact (List.perm_insertionSort _ rows).nodup_iff.2 this
  refine ((pairwise_inOrder env rows).and hnodup).imp_of_mem ?_
  rintro x y hx hy ⟨hle, hne⟩
  refine lt_of_le_of_ne hle fun heq => hne ?_
  exact rank_injOn env (hrows.subset ((mem_inOrder env).1 hx))
    (hrows.subset ((mem_inOrder env).1 hy)) heq

/-- What is kept of the rows in order are the rows that are kept, in order. -/
lemma filter_inOrder {table : Table} {rows : List Row} (hrows : rows.Sublist table.rows)
    (p : Row → Bool) : (inOrder env key rows).filter p = inOrder env key (rows.filter p) := by
  have hsorted : ((inOrder env key rows).filter p).Pairwise
      fun x y => rank env key x ≤ rank env key y :=
    (pairwise_inOrder env rows).sublist List.filter_sublist
  refine List.Perm.eq_of_pairwise ?_ hsorted (pairwise_inOrder env _) ?_
  · intro x y hx hy hxy hyx
    have hx' := (mem_inOrder env).1 (List.mem_of_mem_filter hx)
    have hy' := List.mem_of_mem_filter ((mem_inOrder env).1 hy)
    exact rank_injOn env (hrows.subset hx') (hrows.subset hy') (le_antisymm hxy hyx)
  · exact ((List.perm_insertionSort _ rows).filter p).trans
      (List.perm_insertionSort _ (rows.filter p)).symm

end order

/-! ### What a request selects -/

/-- The position that the cursor of a row names, if it can be read. -/
def position (key : KeyExpr) (r : Row) : Option (Key τ ×ₗ τ) :=
  (fields (joined (r.filedAt.getD "None") r.id)).bind fun p =>
    (readParam env key p.1).map fun k => toLex (k, env.collate p.2)

/-- The row has a key and is above the position. -/
def above (key : KeyExpr) (p : Key τ ×ₗ τ) (r : Row) : Bool :=
  match rowKey env key r with
  | some (some k) => p < toLex (k, env.collate r.id)
  | _ => false

/-- What a request selects before its limit, or nothing when it is refused. -/
def selection (a : Args) (table : Table) (cursor : Option String) : Option (List Row) :=
  if env.parseWindow a.since a.before then
    (buildWindowSql env a cursor).toOption.bind fun q => selects env q table
  else none

variable (a)

/-- The rows that the coarse prefilter keeps of the listing. -/
def kept (table : Table) : List Row :=
  inOrder env a.key (table.rows.filter fun r => matching env a r && coarse env a r)

variable {a} {table : Table}

lemma instantExpr_eq_ok_iff {key : KeyExpr} : instantExpr env a.ordering a.tzName = .ok key ↔
    key = a.key ∧ (a.ordering = .instant → validZone env a.tzName = true) := by
  rcases hmode : a.ordering with _ | _
  · have hok : instantExpr env .wallclock a.tzName = .ok .filedAt := rfl
    rw [hok, Args.key, hmode]
    exact ⟨fun h => ⟨(Except.ok.inj h).symm, nofun⟩, fun h => h.1 ▸ rfl⟩
  · by_cases h : validZone env a.tzName = true
    · simp [instantExpr, Args.key, hmode, h, eq_comm]
    · simp [instantExpr, h]

lemma exists_widened_iff {bound : Option String} {days : ℤ} {c : String → Condition} :
    (∃ cs, widened env bound days c = .ok cs) ↔
      ∀ b ∈ given bound, ∃ b', shiftIsoDay env b days = .ok b' := by
  rw [widened]
  rcases given bound with _ | b
  · simp
  · rcases hshift : shiftIsoDay env b days with e | b' <;> simp [hshift, Except.map]

lemma exists_prefilter_iff : (∃ cs, prefilter env a = .ok cs) ↔
    (a.ordering = .instant → ∀ b ∈ given a.since, ∃ b', shiftIsoDay env b (-1) = .ok b') ∧
      (a.ordering = .instant → ∀ b ∈ given a.before, ∃ b', shiftIsoDay env b 1 = .ok b') := by
  rw [← exists_widened_iff env (c := .filedAtGe), ← exists_widened_iff env (c := .filedAtLt),
    prefilter]
  rcases a.ordering with _ | _
  · simp
  · rcases hlower : widened env a.since (-1) .filedAtGe with e | lower
    · simp [bind, Except.bind]
    · rcases hupper : widened env a.before 1 .filedAtLt with e | upper <;>
        simp [bind, Except.bind, pure, Except.pure]

/-- The query of a request, whose zone and shifted bounds are in order. -/
lemma buildWindowSql_eq {cs : List Condition} (hcs : prefilter env a = .ok cs)
    (hzone : a.ordering = .instant → validZone env a.tzName = true) (cursor : Option String) :
    buildWindowSql env a cursor = (afterCursor cursor).map fun after =>
      ⟨a.key, filters a ++ dated a ++ cs ++ exactBounds a ++ after, a.effectiveLimit⟩ := by
  rw [buildWindowSql, (instantExpr_eq_ok_iff env).2 ⟨rfl, hzone⟩, hcs]
  rcases afterCursor cursor with e | after <;> rfl

lemma buildWindowSql_inv {q : Query} (h : buildWindowSql env a none = .ok q) :
    ∃ cs, prefilter env a = .ok cs ∧
      (a.ordering = .instant → validZone env a.tzName = true) ∧
      q = ⟨a.key, filters a ++ dated a ++ cs ++ exactBounds a, a.effectiveLimit⟩ := by
  rcases hkey : instantExpr env a.ordering a.tzName with e | key
  · rw [buildWindowSql, hkey] at h
    cases h
  · obtain ⟨rfl, hzone⟩ := (instantExpr_eq_ok_iff env).1 hkey
    rcases hcs : prefilter env a with e | cs
    · rw [buildWindowSql, hkey, hcs] at h
      cases h
    · refine ⟨cs, rfl, hzone, ?_⟩
      rw [buildWindowSql_eq env hcs hzone] at h
      obtain rfl := Except.ok.inj h
      show Query.mk a.key (_ ++ []) a.effectiveLimit = _
      rw [List.append_nil]

lemma readable_widened {bound : Option String} {days : ℤ} {c : String → Condition}
    {key : KeyExpr} {cs : List Condition} (h : widened env bound days c = .ok cs)
    (hc : ∀ b, readable env key (c b) = true) : cs.all (readable env key) = true := by
  rw [widened] at h
  rcases hgiven : given bound with _ | b
  · rw [hgiven] at h
    obtain rfl := Except.ok.inj h
    rfl
  · rw [hgiven] at h
    rcases hshift : shiftIsoDay env b days with e | b'
    · simp only [hshift] at h
      cases h
    · simp only [hshift] at h
      obtain rfl := Except.ok.inj h
      simp [hc]

lemma readable_prefilter {key : KeyExpr} {cs : List Condition} (h : prefilter env a = .ok cs) :
    cs.all (readable env key) = true := by
  rw [prefilter] at h
  rcases hmode : a.ordering with _ | _
  · rw [hmode] at h
    obtain rfl := Except.ok.inj h
    rfl
  · rw [hmode] at h
    rcases hlower : widened env a.since (-1) .filedAtGe with e | lower
    · simp only [hlower] at h
      cases h
    · rcases hupper : widened env a.before 1 .filedAtLt with e | upper
      · simp only [hlower, hupper] at h
        cases h
      · simp only [hlower, hupper] at h
        obtain rfl := Except.ok.inj h
        rw [List.all_append, readable_widened env hlower fun _ => rfl,
          readable_widened env hupper fun _ => rfl]
        rfl

/-- The parameters of the query that have to be read are the bounds. -/
lemma readable_query_iff {cs : List Condition} (hcs : prefilter env a = .ok cs) :
    (filters a ++ dated a ++ cs ++ exactBounds a).all (readable env a.key) = true ↔
      ∀ b, b ∈ given a.since ∨ b ∈ given a.before → (readParam env a.key b).isSome := by
  have hfilters : (filters a).all (readable env a.key) = true := by
    rw [filters]
    rcases given a.wing with _ | w <;> rcases given a.room with _ | m <;>
      rcases given a.sourceFile with _ | f <;> rfl
  have hdated : (dated a).all (readable env a.key) = true := by
    rw [dated]
    split_ifs <;> rfl
  rw [List.all_append, List.all_append, List.all_append, hfilters, hdated,
    readable_prefilter env hcs, Bool.true_and, Bool.true_and, Bool.true_and, exactBounds]
  rcases given a.since with _ | s <;> rcases given a.before with _ | b <;>
    simp [readable, or_imp, forall_and]

/-- What a statement selects when it does not fail. -/
lemma selects_eq {key : KeyExpr} (cs : List Condition) {L : ℕ} {p : Row → Bool}
    (hparams : cs.all (readable env key) = true)
    (hrows : ∀ r ∈ table.rows, handles env key cs r = true)
    (hp : ∀ r ∈ table.rows, passes env key r cs = some (p r)) :
    selects env ⟨key, cs, L⟩ table = some (inOrder env key (table.rows.filter p)) := by
  rw [selects, if_pos ⟨hparams, List.all_eq_true.2 hrows⟩]
  congr 2
  refine List.filter_congr fun r hr => ?_
  rw [hp r hr]
  simp

/-- **The first page.**  A request that can be answered selects the rows of the listing that the
coarse prefilter keeps. -/
lemma selection_none (h : Answerable env a table) :
    selection env a table none = some (kept env a table) := by
  obtain ⟨cs, hcs⟩ := (exists_prefilter_iff env).2 ⟨h.since, h.before⟩
  rw [selection, if_pos h.bounds, buildWindowSql_eq env hcs h.zone]
  refine selects_eq env _ ?_ ?_ ?_
  · rw [List.append_nil]
    exact (readable_query_iff env hcs).2 h.params
  · intro r hr
    exact handles_query env hcs h.params (h.rows r hr) (p := true) fun _ => rfl
  · intro r hr
    rw [passes_query env hcs h.params (h.rows r hr) (p := true) fun _ => rfl, Bool.and_true]

/-- A request that selects anything can be answered. -/
lemma answerable_of_selection {rows : List Row} (h : selection env a table none = some rows) :
    Answerable env a table := by
  rw [selection] at h
  split_ifs at h with hbounds
  rcases hq : buildWindowSql env a none with e | q
  · rw [hq] at h
    cases h
  · obtain ⟨cs, hcs, hzone, rfl⟩ := buildWindowSql_inv env hq
    rw [hq] at h
    replace h : selects env ⟨_, _, _⟩ table = some rows := h
    rw [selects] at h
    split_ifs at h with hok
    obtain ⟨hparams, hrows⟩ := hok
    obtain ⟨hsince, hbefore⟩ := (exists_prefilter_iff env).1 ⟨cs, hcs⟩
    exact ⟨hbounds, hzone, hsince, hbefore, (readable_query_iff env hcs).1 hparams,
      fun r hr => readable_of_handles env hcs (List.all_eq_true.1 hrows r hr)⟩

/-- **The next page.**  With the cursor of a row, it selects those of them that are above the
position the cursor names. -/
lemma selection_cursorOf (h : Answerable env a table) (r : Row) :
    selection env a table (some (cursorOf r)) =
      (position env a.key r).map fun p => (kept env a table).filter (above env a.key p) := by
  obtain ⟨cs, hcs⟩ := (exists_prefilter_iff env).2 ⟨h.since, h.before⟩
  have hgiven : given (some (cursorOf r)) = some (cursorOf r) := by
    have hne : cursorOf r ≠ "" := encodeCursor_ne_empty _ _
    rw [given, Option.filter_some_pos (by simpa using hne)]
  have hdecode : (decodeCursor (cursorOf r)).toOption =
      fields (joined (r.filedAt.getD "None") r.id) := toOption_decodeCursor _ _
  rw [selection, if_pos h.bounds, buildWindowSql_eq env hcs h.zone, afterCursor, hgiven, position,
    ← hdecode]
  rcases hcursor : decodeCursor (cursorOf r) with e | ⟨f, i⟩
  · simp only [hcursor]
    rfl
  · simp only [hcursor]
    show selects env ⟨_, _, _⟩ table = ((readParam env a.key f).map _).map _
    have hbounds := (readable_query_iff env hcs).2 h.params
    rcases hf : readParam env a.key f with _ | k
    · -- the cursor cannot be read, and the query fails
      rw [selects, if_neg]
      · rfl
      · rintro ⟨hall, -⟩
        rw [List.all_append, hbounds] at hall
        simp [readable, hf] at hall
    · have hes : ∀ x, (rowKey env a.key x).isSome →
          passes env a.key x [.after f i] =
            some (above env a.key (toLex (k, env.collate i)) x) := by
        intro x hx
        obtain ⟨k', hk'⟩ := Option.isSome_iff_exists.1 hx
        rw [passes, eval, compareKey, hk', hf, above, hk']
        rcases k' with _ | k'
        · rfl
        · by_cases hlt : toLex (k, env.collate i) < toLex (k', env.collate x.id) <;>
            simp [hlt, passes]
      have hselects := selects_eq env (L := a.effectiveLimit)
        (filters a ++ dated a ++ cs ++ exactBounds a ++ [.after f i])
        (by rw [List.all_append, hbounds]; simp [readable, hf])
        (fun x hx => handles_query env hcs h.params (h.rows x hx) (hes x))
        (fun x hx => passes_query env hcs h.params (h.rows x hx) (hes x))
      rw [hselects, Option.map_some, Option.map_some, kept,
        filter_inOrder env List.filter_sublist, List.filter_filter]
      have hcomm : ∀ x, (matching env a x && coarse env a x && above env a.key
          (toLex (k, env.collate i)) x) = (above env a.key (toLex (k, env.collate i)) x &&
            (matching env a x && coarse env a x)) := fun x => Bool.and_comm _ _
      simp only [hcomm]

end Window

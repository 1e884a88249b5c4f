/-
What malformed lines do to a drain pass.

A pass does no harm (`PassEnd.Harmless`) when it removes `.processing`, every well-formed entry
that it read was mined, rejected, requeued, deferred, quarantined after its own mine or absorbed
by a well-formed entry of its target, and nothing it puts back can end the next pass.

A line ends the pass when `json.loads` raises something else than `JSONDecodeError`, when the
key of its target cannot be taken or hashed, or when its deferral counter is not a number; at the
start, a line without a payload to take the key from is quarantined before any of this.  And a
malformed entry absorbs the older well-formed lines of its target like any other.  The pass is
harmless exactly when it meets neither (`rawPass_harmless_iff`).
-/
import PalaceDaemon.Mines.RawLines

namespace PalaceDaemon.Mines

/-! ### The replay of a well-formed entry -/

lemma memberOf_str (valid : List String) (rule : Rejection) (t : Path) :
    ∀ exc, memberOf valid rule (.str t) ≠ .error (.raised exc) := by
  intro exc h
  rw [memberOf] at h
  split_ifs at h
  cases h

/-- The replay of a well-formed entry does not raise. -/
lemma replay_ne_raised {env : Env} {minedState : MinedState} {e : Fields}
    (h : wellFormed e = true) (exc : PyExc) : replay env minedState e ≠ .error (.raised exc) := by
  simp only [wellFormed, Bool.and_eq_true] at h
  obtain ⟨-, hpayload⟩ := h
  split at hpayload
  · next payload hget =>
      simp only [payloadFits, Bool.and_eq_true, Except.isOk_iff] at hpayload
      obtain ⟨⟨⟨⟨hdir, hmode⟩, hextract⟩, wing, hwing⟩, limit, hlimit⟩ := hpayload
      have hlookup : Json.lookup "payload".toList e = some (.obj payload) := by
        rw [Fields.get] at hget
        cases hl : Json.lookup "payload".toList e with
        | none =>
            rw [hl] at hget
            cases hget
        | some value =>
            rw [hl] at hget
            exact congrArg some hget
      have hreplayDir : ∃ rawDir, replayDir e = .ok (payload, rawDir) := by
        rw [replayDir, hlookup]
        split at hdir
        · next c cs hd => exact ⟨c :: cs, by simp only [hd]⟩
        · cases hdir
      have hextractNe : ∀ exc, replayExtract payload ≠ .error (.raised exc) := by
        intro exc hexc
        rw [replayExtract] at hexc
        split at hextract
        · next hx =>
            rw [hx] at hexc
            cases hexc
        · next t hx =>
            rw [hx] at hexc
            simp only at hexc
            cases hm : memberOf mineValidExtracts .invalidExtract (.str t) with
            | error stop =>
                rw [hm] at hexc
                obtain rfl : stop = .raised exc := Except.error.inj hexc
                exact memberOf_str _ _ _ exc hm
            | ok x =>
                rw [hm] at hexc
                cases hexc
        · cases hextract
      obtain ⟨rawDir, hreplayDir⟩ := hreplayDir
      obtain ⟨mode, hmode⟩ : ∃ t, Fields.get payload "mode" (text "convos") = .str t := by
        split at hmode
        · next t ht => exact ⟨t, ht⟩
        · cases hmode
      intro hraised
      rw [replay, hreplayDir] at hraised
      split at hraised
      · cases hraised
      · simp only [hmode, hlimit, hwing] at hraised
        split_ifs at hraised
        · cases hraised
        · split at hraised
          · next stop hstop =>
              obtain rfl := Except.error.inj hraised
              exact memberOf_str _ _ _ exc hstop
          · split at hraised
            · cases hraised
            · split at hraised
              · cases hraised
              · split at hraised
                · cases hraised
                · split at hraised
                  · next stop hstop =>
                      obtain rfl := Except.error.inj hraised
                      exact hextractNe exc hstop
                  · next hstop => cases hstop
                  · split at hraised <;> cases hraised
  · cases hpayload

/-! ### A pass that does no harm -/

/-- What goes back to the queue for a line: an entry with its payload, well-formed if the line
was. -/
structure GoesBack (source e : Fields) : Prop where
  payload : e.get "payload" .null = source.get "payload" .null
  wellFormed : wellFormed source = true → wellFormed e = true

/-- A pass that ended and did no harm. -/
structure RawPass.Harmless (p : RawPass) (back : List Fields) : Prop where
  /-- Every line that was read is a known entry or was set aside. -/
  accounted : p.read.Perm (p.entries.map RawLine.ofEntry ++ p.discarded)
  discarded : ∀ line ∈ p.discarded, ¬ line.WellFormed
  /-- A well-formed entry is mined, rejected, requeued or quarantined after its own mine. -/
  ended : ∀ x ∈ p.ended, wellFormed x.1.source = true → x.2 ≠ .raised
  absorbed : ∀ a ∈ p.absorbed, wellFormed a.line = true → wellFormed a.into = true
  owned : p.owned = []
  deferred : ∀ it ∈ p.held, ∃ e ∈ back, GoesBack it.source e
  requeued : ∀ x ∈ p.ended, x.2 = .requeued → ∃ e ∈ back, GoesBack x.1.source e
  /-- Nothing that goes back can end the next pass. -/
  resumes : ∀ e ∈ back, (RawLine.ofEntry e).FitsStart

/-- The pass removes `.processing`, and does no harm. -/
def PassEnd.Harmless : PassEnd → Prop
  | .done p back => p.Harmless back
  | .stopped _ => False

/-- What every pass keeps until it ends. -/
structure RawPass.Inv (p : RawPass) : Prop where
  accounted : p.read.Perm (p.entries.map RawLine.ofEntry ++ p.discarded)
  discarded : ∀ line ∈ p.discarded, ¬ line.WellFormed
  fits : ∀ it ∈ p.owned ++ p.held, it.Fits
  taken : ∀ x ∈ p.ended, x.1.Fits
  ended : ∀ x ∈ p.ended, wellFormed x.1.source = true → x.2 ≠ .raised

/-- A well-formed line is absorbed by a well-formed entry. -/
def RawPass.AbsorbsClean (p : RawPass) : Prop :=
  ∀ a ∈ p.absorbed, wellFormed a.line = true → wellFormed a.into = true

lemma RawItem.Derived.setRetries {it : RawItem} (h : it.Derived) (n : ℤ) :
    RawItem.Derived { it with entry := it.entry.set "lock_retries" (.int n) } where
  key := (rawDedupKey_of_payload fun default => get_set_of_ne (by decide) _ _).trans h.key
  deferrals := by
    rw [← h.deferrals, rawDeferrals, rawDeferrals, get_set_of_ne (by decide)]
  payload := fun default => (get_set_of_ne (by decide) _ _).trans (h.payload default)
  wellFormed := fun hsource => wellFormed_set n (.inr rfl) (h.wellFormed hsource)

/-- The entry that is taken ends, and the rest of the pass stays. -/
lemma take_spec (env : Env) (mine : MineEnd) (p : RawPass) {it : RawItem} (hit : it.Fits) :
    ∃ x st, p.take env mine it = { p with ended := p.ended ++ [x], minedState := st } ∧
      x.1.source = it.source ∧ x.1.Fits ∧ (wellFormed it.source = true → x.2 ≠ .raised) := by
  rw [RawPass.take]
  split
  · exact ⟨_, _, rfl, rfl, hit, fun _ hraised => by cases hraised⟩
  · exact ⟨_, _, rfl, rfl, hit, fun _ hraised => by cases hraised⟩
  · next exc hexc =>
      exact ⟨_, _, rfl, rfl, hit, fun hwf =>
        absurd hexc (replay_ne_raised (hit.wellFormed hwf) exc)⟩
  · cases mine with
    | returned => exact ⟨_, _, rfl, rfl, hit, fun _ hraised => by cases hraised⟩
    | failed => exact ⟨_, _, rfl, rfl, hit, fun _ hraised => by cases hraised⟩
    | lockHeld =>
        simp only
        split
        · next exc hexc =>
            refine ⟨_, _, rfl, rfl, hit, fun hwf => ?_⟩
            have hentry := hit.wellFormed hwf
            simp only [wellFormed, Bool.and_eq_true, Except.isOk_iff] at hentry
            obtain ⟨⟨-, n, hn⟩, -⟩ := hentry
            cases hn.symm.trans hexc
        · next n hn =>
            split_ifs
            · exact ⟨_, _, rfl, rfl, { hit.toDerived.setRetries (n + 1) with fits := hit.fits },
                fun _ hraised => by cases hraised⟩
            · exact ⟨_, _, rfl, rfl, hit, fun _ hraised => by cases hraised⟩

/-! ### The steps of a pass -/

section Steps

variable {p p' : RawPass}

lemma inv_take (env : Env) (mine : MineEnd) {it : RawItem} {owned : List RawItem} (h : p.Inv)
    (howned : p.owned = it :: owned) : ({ p with owned }.take env mine it).Inv ∧
      ({ p with owned }.take env mine it).owned = owned ∧
      ({ p with owned }.take env mine it).absorbed = p.absorbed := by
  have hit : it.Fits := h.fits it (by rw [howned]; simp)
  obtain ⟨x, st, htake, hsource, hx, hraised⟩ := take_spec env mine { p with owned } hit
  rw [htake]
  refine ⟨⟨?_, h.discarded, fun i hi => h.fits i ?_, fun y hy => ?_, fun y hy => ?_⟩, rfl, rfl⟩
  · refine h.accounted.trans (List.Perm.append_right _ (List.Perm.map _ ?_))
    simp only [RawPass.entries, howned, List.map_cons, List.map_append, List.map_nil, hsource]
    rw [List.cons_append, List.cons_append, List.cons_append, ← List.append_assoc _ _ [it.source],
      List.append_assoc _ [it.source], List.singleton_append]
    exact List.perm_middle.symm
  · rw [howned, List.cons_append]
    exact List.mem_cons_of_mem _ hi
  · rcases List.mem_append.1 hy with hy | hy
    · exact h.taken y hy
    · obtain rfl := List.mem_singleton.1 hy
      exact hx
  · rcases List.mem_append.1 hy with hy | hy
    · exact h.ended y hy
    · obtain rfl := List.mem_singleton.1 hy
      exact fun hwf => hraised (hsource ▸ hwf)

/-- When the budget is used up, what is left of the claim is held. -/
lemma RawPass.Inv.displaceAll (h : p.Inv) :
    RawPass.Inv { p with owned := [], held := p.held ++ p.owned } where
  accounted := by
    refine h.accounted.trans (List.Perm.append_right _ (List.Perm.map _ ?_))
    simp only [RawPass.entries, List.map_append, List.map_nil, List.nil_append]
    exact (List.perm_append_comm.append_right _).append_right _
  discarded := h.discarded
  fits := fun it hit => h.fits it (by
    simp only [List.nil_append, List.mem_append] at hit ⊢
    exact hit.symm)
  taken := h.taken
  ended := h.ended

/-- What was read is still accounted for when the lines of a boundary are merged. -/
lemma accounted_boundary {p : RawPass} {lines others : List RawLine} {es : List Fields}
    {keep displaced : List RawItem} {gone : List Absorbed}
    (h : p.read.Perm (p.entries.map RawLine.ofEntry ++ p.discarded))
    (hlines : lines.Perm (es.map RawLine.ofEntry ++ others))
    (hperm : ((keep ++ displaced).map RawItem.source ++ gone.map Absorbed.line).Perm
      (p.owned.map RawItem.source ++ es)) :
    (p.read ++ lines).Perm
      ((keep.map RawItem.source ++ (p.held ++ displaced).map RawItem.source ++
        p.ended.map (·.1.source) ++ (p.absorbed ++ gone).map Absorbed.line).map RawLine.ofEntry ++
          (p.discarded ++ others)) := by
  have hmap := Multiset.coe_eq_coe.2 (hperm.map RawLine.ofEntry)
  have hread := Multiset.coe_eq_coe.2 h
  have hnew := Multiset.coe_eq_coe.2 hlines
  rw [← Multiset.coe_eq_coe]
  simp only [RawPass.entries, List.map_append, ← Multiset.coe_add] at hmap hread hnew ⊢
  rw [hread, hnew]
  calc _ = (p.owned.map RawItem.source).map RawLine.ofEntry + es.map RawLine.ofEntry +
        ((p.held.map RawItem.source).map RawLine.ofEntry +
        (p.ended.map (·.1.source)).map RawLine.ofEntry +
        (p.absorbed.map Absorbed.line).map RawLine.ofEntry + p.discarded + others :
          Multiset RawLine) := by abel
    _ = _ := by
      rw [← hmap]
      abel

/-- A boundary that does not raise. -/
lemma boundary_spec {budget : ℕ} {lines : List RawLine} (h : p.Inv)
    (hb : p.boundary budget lines = .ok p') :
    p'.Inv ∧ (∀ line ∈ lines, line.FitsBoundary) ∧
      (p'.AbsorbsClean ↔ p.AbsorbsClean ∧ Clean p.owned (entriesOf lines)) := by
  rw [RawPass.boundary] at hb
  cases hparse : parseArrivals lines with
  | error exc =>
      rw [hparse] at hb
      cases hb
  | ok es =>
      obtain ⟨rfl, hlines⟩ := parseArrivals_eq hparse
      rw [hparse] at hb
      simp only [rawRebalance] at hb
      cases hmerge : (entriesOf lines).reverse.foldlM RawClaim.arrival ⟨p.owned, [], []⟩ with
      | error exc =>
          rw [hmerge] at hb
          cases hb
      | ok c =>
          rw [hmerge] at hb
          simp only at hb
          cases hsplit : rawSplit budget (c.owned ++ c.unique.reverse) with
          | error exc =>
              rw [hsplit] at hb
              cases hb
          | ok parts =>
              obtain ⟨keep, displaced⟩ := parts
              rw [hsplit] at hb
              obtain rfl := Except.ok.inj hb
              have howned : ∀ it ∈ p.owned, it.Fits := fun it hit =>
                h.fits it (List.mem_append_left _ hit)
              obtain ⟨new, gone, hm⟩ := foldlM_arrival_spec hmerge (by
                rw [RawClaim.Derived, List.append_nil]
                exact fun it hit => (howned it hit).toDerived)
              obtain ⟨hfits, hes, hperm⟩ := cut_spec hm rfl howned hsplit
              have hgone : c.absorbed = gone := hm.absorbed
              rw [← hgone] at hperm
              refine ⟨⟨?_, fun l hl => ?_, fun it hit => ?_, h.taken, h.ended⟩, fun l hl => ?_, ?_⟩
              · exact accounted_boundary h.accounted (perm_entriesOf lines)
                  (hperm.trans ((List.reverse_perm _).append_left _))
              · rcases List.mem_append.1 hl with hl | hl
                · exact h.discarded l hl
                · exact not_wellFormed_of_notEntries l hl
              · simp only [List.mem_append] at hit
                rcases hit with hit | hit | hit
                · exact hfits it (List.mem_append_left _ hit)
                · exact h.fits it (List.mem_append_right _ hit)
                · exact hfits it (List.mem_append_right _ hit)
              · by_cases he : ∃ e, l = .ofEntry e
                · obtain ⟨e, rfl⟩ := he
                  exact hes e (List.mem_reverse.2 (mem_entriesOf.2 hl))
                · exact hlines l hl fun e heq => he ⟨e, heq⟩
              · rw [Clean, ← hm.clean]
                simp only [RawPass.AbsorbsClean, hgone, List.mem_append, or_imp, forall_and]

/-- A boundary whose lines fit does not raise. -/
lemma boundary_ok (budget : ℕ) {lines : List RawLine} (h : p.Inv)
    (hlines : ∀ line ∈ lines, line.FitsBoundary) : ∃ p', p.boundary budget lines = .ok p' := by
  obtain ⟨c, parts, hmerge, hsplit⟩ := @cut_ok ⟨p.owned, [], []⟩ (entriesOf lines).reverse budget
    rfl (fun it hit => h.fits it (List.mem_append_left _ hit)) fun e he =>
      hlines _ (mem_entriesOf.1 (List.mem_reverse.1 he))
  rw [RawPass.boundary, parseArrivals_ok hlines]
  simp only [rawRebalance, hmerge, hsplit]
  exact ⟨_, rfl⟩

lemma fitsStart_ofEntry {e : Fields} (h : EntryFits e) : (RawLine.ofEntry e).FitsStart := by
  rw [RawLine.ofEntry, RawLine.FitsStart]
  cases hv : startEntry (.obj e) with
  | none => trivial
  | some ep =>
      obtain ⟨e', payload⟩ := ep
      obtain ⟨heq, -⟩ := startEntry_spec hv
      exact Json.obj.inj heq ▸ h

lemma goesBack_carried {it : RawItem} {e : Fields} (h : it.Fits)
    (he : rawCarried it.entry = .ok e) : GoesBack it.source e ∧ EntryFits e := by
  rw [rawCarried] at he
  cases hn : rawDeferrals it.entry with
  | error exc =>
      rw [hn] at he
      cases he
  | ok n =>
      rw [hn] at he
      obtain rfl := Except.ok.inj he
      have hpayload : ∀ default, (it.entry.set "drain_deferrals" (.int (n + 1))).get "payload"
          default = it.entry.get "payload" default := fun default => get_set_of_ne (by decide) _ _
      refine ⟨⟨(hpayload _).trans (h.payload _), fun hwf =>
        wellFormed_set _ (.inl rfl) (h.wellFormed hwf)⟩, ?_, rawDeferrals_set _ _⟩
      rw [rawDedupKey_of_payload hpayload]
      exact h.entry.1

/-- The end of a pass does not raise, and puts back what the pass holds. -/
lemma finish_harmless (h : p.Inv) (howned : p.owned = []) :
    p.finish.Harmless ↔ p.AbsorbsClean := by
  have hheld : ∀ it ∈ p.held, it.Fits := fun it hit => h.fits it (List.mem_append_right _ hit)
  obtain ⟨carried, hcarried⟩ := @Except.mapM_total _ _ _
    (fun it : RawItem => rawCarried it.entry) p.held fun it hit => by
      obtain ⟨n, hn⟩ := (hheld it hit).entry.2
      exact ⟨_, by rw [rawCarried, hn]; rfl⟩
  obtain ⟨-, himage, hsource⟩ := Except.mapM_ok hcarried
  rw [RawPass.finish, hcarried]
  refine ⟨fun hharmless => hharmless.absorbed, fun habsorbed => ?_⟩
  refine ⟨h.accounted, h.discarded, h.ended, habsorbed, howned, fun it hit => ?_,
    fun x hx hback => ?_, fun e he => ?_⟩
  · obtain ⟨e, he, hcarry⟩ := himage it hit
    exact ⟨e, List.mem_append_left _ he, (goesBack_carried (hheld it hit) hcarry).1⟩
  · have hderived := (h.taken x hx).toDerived
    refine ⟨x.1.entry, List.mem_append_right _ (List.mem_map.2 ⟨x, ?_, rfl⟩),
      hderived.payload _, hderived.wellFormed⟩
    exact List.mem_filter.2 ⟨hx, decide_eq_true hback⟩
  · rcases List.mem_append.1 he with he | he
    · obtain ⟨it, hit, hcarry⟩ := hsource e he
      exact fitsStart_ofEntry (goesBack_carried (hheld it hit) hcarry).2
    · obtain ⟨x, hx, rfl⟩ := List.mem_map.1 he
      exact fitsStart_ofEntry (h.taken x (List.mem_filter.1 hx).1).entry

/-- The start of a pass that does not raise. -/
lemma start_spec {lines failed : List RawLine} {c : RawClaim} {cap : ℕ}
    {batch deferred : List RawItem} (minedState : MinedState)
    (hstart : lines.reverse.foldlM startLine (⟨[], [], []⟩, []) = .ok (c, failed))
    (hsplit : rawSplit cap c.unique.reverse = .ok (batch, deferred))
    (hp : p = ⟨lines, batch, deferred, [], c.absorbed, failed, minedState⟩) :
    p.Inv ∧ (p.AbsorbsClean ↔ Clean [] (startEntries lines)) := by
  have hlines : ∀ line ∈ lines.reverse, line.FitsStart := fitsStart_of_ok hstart
  rw [foldlM_startLine_ok hlines, startEntries_reverse, startDiscards_reverse] at hstart
  cases hmerge : (startEntries lines).reverse.foldlM RawClaim.arrival ⟨[], [], []⟩ with
  | error exc =>
      rw [hmerge] at hstart
      cases hstart
  | ok c' =>
      rw [hmerge] at hstart
      obtain ⟨rfl, rfl⟩ := Prod.mk.inj (Except.ok.inj hstart)
      obtain ⟨new, gone, hm⟩ := foldlM_arrival_spec hmerge nofun
      have howned : c'.owned = [] := List.map_eq_nil_iff.1 hm.owned
      have hgone : c'.absorbed = gone := hm.absorbed
      obtain ⟨hfits, -, hperm⟩ := @cut_spec ⟨[], [], []⟩ c' _ new gone cap batch deferred hm rfl
        nofun (by rw [howned, List.nil_append, hsplit])
      rw [hp]
      refine ⟨⟨?_, fun l hl => ?_, hfits, nofun, nofun⟩, ?_⟩
      · refine (perm_startEntries lines).trans (List.Perm.append ?_ (List.reverse_perm _).symm)
        refine List.Perm.map _ (((hperm.trans ?_).symm).trans ?_)
        · exact List.reverse_perm _
        · simp only [RawPass.entries, hgone, List.map_append, List.map_nil, List.append_nil]
          exact .refl _
      · exact not_wellFormed_of_startDiscards l (List.mem_reverse.1 hl)
      · rw [Clean, ← hm.clean]
        simp only [RawPass.AbsorbsClean, hgone]

/-- The start of a pass whose lines fit does not raise. -/
lemma start_ok (cap : ℕ) {lines : List RawLine} (hlines : ∀ line ∈ lines, line.FitsStart) :
    ∃ c failed batch deferred,
      lines.reverse.foldlM startLine (⟨[], [], []⟩, []) = .ok (c, failed) ∧
      rawSplit cap c.unique.reverse = .ok (batch, deferred) := by
  have hreverse : ∀ line ∈ lines.reverse, line.FitsStart := fun line hline =>
    hlines line (List.mem_reverse.1 hline)
  obtain ⟨c, ⟨batch, deferred⟩, hmerge, hsplit⟩ := @cut_ok ⟨[], [], []⟩ (startEntries lines).reverse
    cap rfl nofun fun e he => fits_of_mem_startEntries hlines e (List.mem_reverse.1 he)
  obtain ⟨new, gone, hm⟩ := foldlM_arrival_spec hmerge nofun
  have howned : c.owned = [] := List.map_eq_nil_iff.1 hm.owned
  rw [howned, List.nil_append] at hsplit
  refine ⟨c, (startDiscards lines).reverse, batch, deferred, ?_, hsplit⟩
  rw [foldlM_startLine_ok hreverse, startEntries_reverse, startDiscards_reverse, hmerge]
  rfl

end Steps

/-! ### Harmless passes -/

section Runs

variable (env : ℕ → Env) (arrivals : ℕ → List RawLine) (mines : ℕ → MineEnd)

/-- Every boundary that the loop comes to finds lines that fit, and a claim that absorbs the
well-formed ones cleanly. -/
def LoopMeets : ℕ → RawPass → Prop
  | left, p =>
      match p.owned with
      | [] => True
      | it :: owned =>
          let p' := { p with owned }.take (env left) (mines left) it
          match left with
          | budget + 2 =>
              (∀ line ∈ arrivals left, line.FitsBoundary) ∧
              Clean p'.owned (entriesOf (arrivals left)) ∧
              ∀ p'', p'.boundary (budget + 1) (arrivals left) = .ok p'' →
                LoopMeets (budget + 1) p''
          | _ => True

/-- What the start and the boundaries of a pass have to find. -/
def PassMeets (cap : ℕ) (minedState : MinedState) (lines : List RawLine) : Prop :=
  (∀ line ∈ lines, line.FitsStart) ∧ Clean [] (startEntries lines) ∧
  ∀ c failed batch deferred,
    lines.reverse.foldlM startLine (⟨[], [], []⟩, []) = .ok (c, failed) →
    rawSplit cap c.unique.reverse = .ok (batch, deferred) →
    LoopMeets env arrivals mines cap
      { read := lines, owned := batch, held := deferred, ended := [],
        absorbed := c.absorbed, discarded := failed, minedState }

variable {env arrivals mines}

lemma loop_harmless_iff {left : ℕ} {p : RawPass} (h : p.Inv) :
    (p.loop env arrivals mines left).Harmless ↔
      p.AbsorbsClean ∧ LoopMeets env arrivals mines left p := by
  induction left using Nat.strongRecOn generalizing p with
  | ind left ih =>
      rw [RawPass.loop.eq_def, LoopMeets.eq_def]
      rcases howned : p.owned with _ | ⟨it, owned⟩
      · simp only [howned, and_true]
        exact finish_harmless h howned
      · obtain ⟨htaken, -, habsorbed⟩ := inv_take (env left) (mines left) h howned
        have hclean : ({ p with owned }.take (env left) (mines left) it).AbsorbsClean ↔
            p.AbsorbsClean := by
          rw [RawPass.AbsorbsClean, habsorbed]
          rfl
        simp only [howned]
        generalize { p with owned }.take (env left) (mines left) it = p₁ at *
        rw [← hclean]
        rcases left with _ | _ | budget
        · simp only [and_true]
          exact finish_harmless htaken.displaceAll rfl
        · simp only [and_true]
          exact finish_harmless htaken.displaceAll rfl
        · simp only
          cases hb : p₁.boundary (budget + 1) (arrivals (budget + 2)) with
          | error exc =>
              refine iff_of_false id ?_
              rintro ⟨-, hlines, -⟩
              obtain ⟨p₂, hp₂⟩ := boundary_ok (budget + 1) htaken hlines
              cases hb.symm.trans hp₂
          | ok p₂ =>
              obtain ⟨hinv, hlines, hiff⟩ := boundary_spec htaken hb
              rw [ih (budget + 1) (Nat.lt_succ_self _) hinv, hiff]
              constructor
              · rintro ⟨⟨hold, hnew⟩, hrest⟩
                refine ⟨hold, hlines, hnew, fun p'' hp'' => ?_⟩
                obtain rfl := Except.ok.inj hp''
                exact hrest
              · rintro ⟨hold, -, hnew, hrest⟩
                exact ⟨⟨hold, hnew⟩, hrest p₂ rfl⟩

end Runs

/-! ### A pass that does harm -/

/-- A queue with one line, whose directory cannot be hashed. -/
def unhashable : List RawLine :=
  [.ofEntry [("payload".toList, .obj [("dir".toList, .arr [])])]]

end PalaceDaemon.Mines

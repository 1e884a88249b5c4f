/-
Merging unchecked lines into the claim of a drain pass.

Merging goes through the entries from the newest to the oldest; each is absorbed by the entry of
its target that the claim has, or becomes a new one, and then the claim is cut by priority.
`Merged` says what becomes of the entries, and `cut_spec` and `cut_ok` that the claim is merged
and cut without an exception exactly when every entry fits: its key can be taken and hashed, and
its deferral counter is a number.
-/
import PalaceDaemon.Mines.RawPass

namespace PalaceDaemon.Mines

/-! ### Entries that fit -/

/-- The replay can take the fields of the payload. -/
def payloadFits (payload : Fields) : Bool :=
  (match payload.get "dir" .null with
    | .str (_ :: _) => true
    | _ => false) &&
  (match payload.get "mode" (text "convos") with
    | .str _ => true
    | _ => false) &&
  (match payload.get "extract" .null with
    | .null => true
    | .str _ => true
    | _ => false) &&
  (replayWing payload).isOk && (replayLimit payload).isOk

/-- A well-formed entry: an object whose fields the pass can take. -/
def wellFormed (e : Fields) : Bool :=
  (rawDeferrals e).isOk && (e.get "lock_retries" (.int 0)).toInt.isOk &&
  (match e.get "payload" .null with
    | .obj payload => payloadFits payload
    | _ => false)

/-- The key and the counter of an entry can be taken. -/
def EntryFits (e : Fields) : Prop :=
  (∃ k, rawDedupKey e = .ok k) ∧ ∃ n, rawDeferrals e = .ok n

/-! ### Claimed entries -/

/-- What the pass may have changed of an entry: its counters. -/
structure RawItem.Derived (it : RawItem) : Prop where
  key : rawDedupKey it.entry = rawDedupKey it.source
  deferrals : (∃ n, rawDeferrals it.entry = .ok n) ↔ ∃ n, rawDeferrals it.source = .ok n
  payload : ∀ default, it.entry.get "payload" default = it.source.get "payload" default
  wellFormed : wellFormed it.source = true → wellFormed it.entry = true

lemma RawItem.Derived.refl (e : Fields) : RawItem.Derived ⟨e, e⟩ :=
  ⟨rfl, Iff.rfl, fun _ => rfl, id⟩

lemma rawDeferrals_set (e : Fields) (n : ℤ) :
    ∃ m, rawDeferrals (e.set "drain_deferrals" (.int n)) = .ok m := by
  rw [rawDeferrals, get_set_self, Json.orZero]
  split_ifs
  · exact ⟨_, rfl⟩
  · exact ⟨_, rfl⟩

lemma rawDedupKey_of_payload {e e' : Fields}
    (h : ∀ default, e.get "payload" default = e'.get "payload" default) :
    rawDedupKey e = rawDedupKey e' := by
  rw [rawDedupKey, rawDedupKey, h]

/-- Setting a counter to a number keeps an entry well-formed. -/
lemma wellFormed_set {e : Fields} {key : String} (n : ℤ) (hkey : key = "drain_deferrals" ∨
    key = "lock_retries") (h : wellFormed e = true) : wellFormed (e.set key (.int n)) = true := by
  simp only [wellFormed, Bool.and_eq_true, Except.isOk_iff] at h ⊢
  obtain ⟨⟨hdeferrals, hretries⟩, hpayload⟩ := h
  rcases hkey with rfl | rfl
  · exact ⟨⟨rawDeferrals_set e n, by rwa [get_set_of_ne (by decide)]⟩,
      by rwa [get_set_of_ne (by decide)]⟩
  · refine ⟨⟨?_, ?_⟩, by rwa [get_set_of_ne (by decide)]⟩
    · rw [rawDeferrals, get_set_of_ne (by decide)]
      exact hdeferrals
    · rw [get_set_self]
      exact ⟨n, rfl⟩

@[simp] lemma raiseTo_source (d : ℤ) (it : RawItem) : (it.raiseTo d).source = it.source := by
  unfold RawItem.raiseTo
  split
  · split_ifs <;> rfl
  · rfl

/-- Raising the counter changes nothing else. -/
lemma RawItem.Derived.raiseTo {it : RawItem} (h : it.Derived) (d : ℤ) :
    (it.raiseTo d).Derived := by
  unfold RawItem.raiseTo
  split
  · next n hn =>
      split_ifs
      · have hpayload : ∀ default, (it.entry.set "drain_deferrals" (.int d)).get "payload" default =
            it.source.get "payload" default := fun default => by
          rw [get_set_of_ne (by decide), h.payload]
        exact ⟨rawDedupKey_of_payload hpayload,
          iff_of_true (rawDeferrals_set _ _) (h.deferrals.1 ⟨n, hn⟩), hpayload,
          fun hsource => wellFormed_set d (.inl rfl) (h.wellFormed hsource)⟩
      · exact h
  · exact h

lemma raiseTo_key (d : ℤ) (it : RawItem) : (it.raiseTo d).key = it.key := by
  unfold RawItem.raiseTo
  split
  · split_ifs
    · exact congrArg Except.toOption (rawDedupKey_of_payload fun default =>
        get_set_of_ne (by decide) _ _)
    · rfl
  · rfl

/-- What merging keeps of a claimed entry. -/
def RawItem.label (it : RawItem) : Option RawKey × Fields := (it.key, it.source)

lemma absorbLast_label (k : Option RawKey) (d : ℤ) (items : List RawItem) :
    (absorbLast RawItem.key k (RawItem.raiseTo d) items).map RawItem.label =
      items.map RawItem.label :=
  map_absorbLast (fun it => by rw [RawItem.label, raiseTo_key, raiseTo_source]; rfl) items

lemma holder_label (k : RawKey) (items : List RawItem) :
    (holder k items).map RawItem.label =
      (items.map RawItem.label).reverse.find? fun l => l.1 = some k := by
  rw [holder, ← List.map_reverse, List.find?_map]
  rfl

/-- The entry that absorbs a line of the key. -/
def RawClaim.found (c : RawClaim) (k : RawKey) : Option Fields :=
  ((holder k c.owned).or (holder k c.unique)).map RawItem.source

lemma found_eq_of_label {c c' : RawClaim} (howned : c'.owned.map RawItem.label =
    c.owned.map RawItem.label) (hunique : c'.unique.map RawItem.label =
    c.unique.map RawItem.label) (k : RawKey) : c'.found k = c.found k := by
  have h : ∀ c : RawClaim, c.found k =
      (((holder k c.owned).map RawItem.label).or ((holder k c.unique).map RawItem.label)).map
        Prod.snd := by
    intro c
    rw [RawClaim.found]
    cases holder k c.owned <;> cases holder k c.unique <;> rfl
  rw [h, h, holder_label, holder_label, holder_label, holder_label, howned, hunique]

/-- Every claimed entry is derived from its line. -/
def RawClaim.Derived (c : RawClaim) : Prop := ∀ it ∈ c.owned ++ c.unique, it.Derived

lemma derived_absorbLast {items : List RawItem} (h : ∀ it ∈ items, it.Derived)
    (k : Option RawKey) (d : ℤ) :
    ∀ it ∈ absorbLast RawItem.key k (RawItem.raiseTo d) items, it.Derived := by
  intro it hit
  rcases mem_absorbLast hit with hit | ⟨it', hit', rfl⟩
  · exact h it hit
  · exact (h it' hit').raiseTo d

/-- A merged line is absorbed by the entry of its key, or becomes one. -/
lemma add_spec {c c' : RawClaim} {k : RawKey} {e : Fields} (h : c.add k e = .ok c')
    (hderived : c.Derived) :
    c'.Derived ∧ c'.owned.map RawItem.label = c.owned.map RawItem.label ∧
    ((∃ m, c.found k = some m ∧ (∃ n, rawDeferrals e = .ok n) ∧
      c'.unique.map RawItem.label = c.unique.map RawItem.label ∧
      c'.absorbed = c.absorbed ++ [⟨e, m⟩]) ∨
    (c.found k = none ∧ c' = { c with unique := c.unique ++ [⟨e, e⟩] })) := by
  have howned : ∀ it ∈ c.owned, it.Derived := fun it hit => hderived it (List.mem_append_left _ hit)
  have hunique : ∀ it ∈ c.unique, it.Derived := fun it hit =>
    hderived it (List.mem_append_right _ hit)
  rw [RawClaim.add] at h
  split at h
  · next prior hprior =>
      split at h
      · next d n hd hn =>
          obtain rfl := Except.ok.inj h
          refine ⟨?_, absorbLast_label _ _ _, .inl ⟨prior.source, ?_, ⟨d, hd⟩, rfl, rfl⟩⟩
          · intro it hit
            rcases List.mem_append.1 hit with hit | hit
            · exact derived_absorbLast howned _ _ it hit
            · exact hunique it hit
          · rw [RawClaim.found, hprior]
            rfl
      · cases h
      · cases h
  · next prior hnone hprior =>
      split at h
      · next d n hd hn =>
          obtain rfl := Except.ok.inj h
          refine ⟨?_, rfl, .inl ⟨prior.source, ?_, ⟨d, hd⟩, absorbLast_label _ _ _, rfl⟩⟩
          · intro it hit
            rcases List.mem_append.1 hit with hit | hit
            · exact howned it hit
            · exact derived_absorbLast hunique _ _ it hit
          · rw [RawClaim.found, hnone, hprior]
            rfl
      · cases h
      · cases h
  · next hnone hnone' =>
      obtain rfl := Except.ok.inj h
      refine ⟨?_, rfl, .inr ⟨?_, rfl⟩⟩
      · intro it hit
        rcases List.mem_append.1 hit with hit | hit
        · exact howned it hit
        · rcases List.mem_append.1 hit with hit | hit
          · exact hunique it hit
          · obtain rfl := List.mem_singleton.1 hit
            exact .refl e
      · rw [RawClaim.found, hnone, hnone']
        rfl

lemma mem_of_holder {k : RawKey} {items : List RawItem} {it : RawItem}
    (h : holder k items = some it) : it ∈ items :=
  List.mem_reverse.1 (List.mem_of_find?_eq_some h)

/-- Merging a line whose counter is a number does not raise. -/
lemma add_ok {c : RawClaim} (k : RawKey) {e : Fields} (hderived : c.Derived)
    (hfits : ∀ it ∈ c.owned ++ c.unique, ∃ n, rawDeferrals it.source = .ok n)
    (he : ∃ n, rawDeferrals e = .ok n) : ∃ c', c.add k e = .ok c' := by
  obtain ⟨d, hd⟩ := he
  have hprior : ∀ it ∈ c.owned ++ c.unique, ∃ n, rawDeferrals it.entry = .ok n := fun it hit =>
    (hderived it hit).deferrals.2 (hfits it hit)
  rw [RawClaim.add]
  split
  · next prior hholder =>
      obtain ⟨n, hn⟩ := hprior prior (List.mem_append_left _ (mem_of_holder hholder))
      rw [hd, hn]
      exact ⟨_, rfl⟩
  · next prior _ hholder =>
      obtain ⟨n, hn⟩ := hprior prior (List.mem_append_right _ (mem_of_holder hholder))
      rw [hd, hn]
      exact ⟨_, rfl⟩
  · exact ⟨_, rfl⟩

/-! ### Merging lines into a claim -/

/-- The first of the entries that has the key. -/
def firstOf (k : RawKey) (es : List Fields) : Option Fields :=
  es.find? fun e => (rawDedupKey e).toOption = some k

/-- The well-formed entries, the newest first, are absorbed by well-formed ones. -/
def RawClaim.CleanFor (c : RawClaim) (es : List Fields) : Prop :=
  ∀ e ∈ es, wellFormed e = true → ∀ k, rawDedupKey e = .ok k →
    ∀ m, (c.found k).or (firstOf k es) = some m → wellFormed m = true

/-- What becomes of the entries that are merged. -/
structure Merged (c : RawClaim) (es : List Fields) (c' : RawClaim) (new : List Fields)
    (gone : List Absorbed) : Prop where
  derived : c'.Derived
  owned : c'.owned.map RawItem.label = c.owned.map RawItem.label
  unique : c'.unique.map RawItem.source = c.unique.map RawItem.source ++ new
  absorbed : c'.absorbed = c.absorbed ++ gone
  perm : (new ++ gone.map Absorbed.line).Perm es
  fits : ∀ e ∈ es, (∃ k, rawDedupKey e = .ok k) ∧ ((∃ n, rawDeferrals e = .ok n) ∨ e ∈ new)
  clean : (∀ a ∈ gone, wellFormed a.line = true → wellFormed a.into = true) ↔ c.CleanFor es

lemma map_source_of_label {items items' : List RawItem}
    (h : items'.map RawItem.label = items.map RawItem.label) :
    items'.map RawItem.source = items.map RawItem.source := by
  have hsnd := congrArg (List.map Prod.snd) h
  rwa [List.map_map, List.map_map] at hsnd

lemma firstOf_cons_self {k : RawKey} {e : Fields} (hk : rawDedupKey e = .ok k) (es : List Fields) :
    firstOf k (e :: es) = some e := by
  rw [firstOf, List.find?_cons_of_pos]
  simp [hk, Except.toOption]

lemma firstOf_cons_of_ne {k k' : RawKey} {e : Fields} (hk : rawDedupKey e = .ok k) (hne : k' ≠ k)
    (es : List Fields) : firstOf k' (e :: es) = firstOf k' es := by
  rw [firstOf, List.find?_cons_of_neg]
  · rfl
  · simpa [hk, Except.toOption] using Ne.symm hne

lemma cleanFor_cons_absorbed {c c' : RawClaim} {k : RawKey} {e m : Fields} {es : List Fields}
    (hk : rawDedupKey e = .ok k) (hm : c.found k = some m) (hfound : ∀ k, c'.found k = c.found k) :
    c.CleanFor (e :: es) ↔
      (wellFormed e = true → wellFormed m = true) ∧ c'.CleanFor es := by
  have hsame : ∀ k', (c.found k').or (firstOf k' (e :: es)) =
      (c'.found k').or (firstOf k' es) := by
    intro k'
    rw [hfound]
    by_cases hne : k' = k
    · rw [hne, hm, Option.some_or, Option.some_or]
    · rw [firstOf_cons_of_ne hk hne]
  constructor
  · intro h
    refine ⟨fun he => h e List.mem_cons_self he k hk m ?_, fun e' he' hwf k' hk' m' hm' => ?_⟩
    · rw [hm, Option.some_or]
    · exact h e' (List.mem_cons_of_mem _ he') hwf k' hk' m' (by rw [hsame, hm'])
  · rintro ⟨hhead, htail⟩ e' he' hwf k' hk' m' hm'
    rcases List.mem_cons.1 he' with rfl | he'
    · obtain rfl : k = k' := Except.ok.inj (hk.symm.trans hk')
      rw [hm, Option.some_or] at hm'
      exact Option.some.inj hm' ▸ hhead hwf
    · exact htail e' he' hwf k' hk' m' (by rw [← hsame, hm'])

lemma found_append {c : RawClaim} {k : RawKey} {e : Fields} (hk : rawDedupKey e = .ok k)
    (hnone : c.found k = none) (k' : RawKey) :
    ({ c with unique := c.unique ++ [⟨e, e⟩] } : RawClaim).found k' =
      if k' = k then some e else c.found k' := by
  have hkey : RawItem.key ⟨e, e⟩ = some k := by rw [RawItem.key, hk]; rfl
  simp only [RawClaim.found, Option.map_eq_none_iff, Option.or_eq_none_iff] at hnone ⊢
  have hunique : holder k' (c.unique ++ [⟨e, e⟩]) =
      if k' = k then some ⟨e, e⟩ else holder k' c.unique := by
    rw [holder, List.reverse_append, List.reverse_singleton, List.singleton_append]
    split_ifs with hne
    · rw [List.find?_cons_of_pos]
      simp [hkey, hne]
    · rw [List.find?_cons_of_neg]
      · rfl
      · simpa [hkey] using Ne.symm hne
  rw [hunique]
  split_ifs with hne
  · rw [hne, hnone.1]
    rfl
  · rfl

lemma cleanFor_cons_new {c : RawClaim} {k : RawKey} {e : Fields} {es : List Fields}
    (hk : rawDedupKey e = .ok k) (hnone : c.found k = none) :
    c.CleanFor (e :: es) ↔
      ({ c with unique := c.unique ++ [⟨e, e⟩] } : RawClaim).CleanFor es := by
  have hsame : ∀ k', (c.found k').or (firstOf k' (e :: es)) =
      (({ c with unique := c.unique ++ [⟨e, e⟩] } : RawClaim).found k').or (firstOf k' es) := by
    intro k'
    rw [found_append hk hnone]
    split_ifs with hne
    · rw [hne, hnone, firstOf_cons_self hk, Option.none_or, Option.some_or]
    · rw [firstOf_cons_of_ne hk hne]
  constructor
  · intro h e' he' hwf k' hk' m' hm'
    exact h e' (List.mem_cons_of_mem _ he') hwf k' hk' m' (by rw [hsame, hm'])
  · rintro h e' he' hwf k' hk' m' hm'
    rcases List.mem_cons.1 he' with rfl | he'
    · obtain rfl : k = k' := Except.ok.inj (hk.symm.trans hk')
      rw [hnone, firstOf_cons_self hk, Option.none_or] at hm'
      exact Option.some.inj hm' ▸ hwf
    · exact h e' he' hwf k' hk' m' (by rw [← hsame, hm'])

/-- Merging entries, the newest first. -/
lemma foldlM_arrival_spec {es : List Fields} {c c' : RawClaim}
    (h : es.foldlM RawClaim.arrival c = .ok c') (hderived : c.Derived) :
    ∃ new gone, Merged c es c' new gone := by
  induction es generalizing c with
  | nil =>
      obtain rfl := Except.ok.inj h
      refine ⟨[], [], hderived, rfl, by simp, by simp, List.Perm.refl _, by simp, ?_⟩
      exact iff_of_true (by simp) (by rintro e ⟨⟩)
  | cons e es ih =>
      rw [List.foldlM_cons, RawClaim.arrival] at h
      cases hk : rawDedupKey e with
      | error exc =>
          rw [hk] at h
          cases h
      | ok k =>
          rw [hk] at h
          cases hadd : c.add k e with
          | error exc =>
              simp only [hadd] at h
              cases h
          | ok c₁ =>
              simp only [hadd] at h
              obtain ⟨hderived₁, howned₁, hcase⟩ := add_spec hadd hderived
              obtain ⟨new, gone, hm⟩ := ih h hderived₁
              rcases hcase with ⟨m, hfound, he, hunique₁, habsorbed₁⟩ | ⟨hnone, rfl⟩
              · refine ⟨new, ⟨e, m⟩ :: gone, hm.derived, hm.owned.trans howned₁, ?_, ?_, ?_, ?_, ?_⟩
                · rw [hm.unique, map_source_of_label hunique₁]
                · rw [hm.absorbed, habsorbed₁, List.append_assoc]
                  rfl
                · exact List.perm_middle.trans (hm.perm.cons e)
                · intro e' he'
                  rcases List.mem_cons.1 he' with rfl | he'
                  · exact ⟨⟨k, hk⟩, .inl he⟩
                  · exact hm.fits e' he'
                · rw [cleanFor_cons_absorbed hk hfound (found_eq_of_label howned₁ hunique₁),
                    ← hm.clean]
                  simp only [List.mem_cons, forall_eq_or_imp]
              · refine ⟨e :: new, gone, hm.derived, hm.owned, ?_, hm.absorbed, hm.perm.cons e, ?_,
                  ?_⟩
                · rw [hm.unique, List.map_append, List.append_assoc]
                  rfl
                · intro e' he'
                  rcases List.mem_cons.1 he' with rfl | he'
                  · exact ⟨⟨k, hk⟩, .inr List.mem_cons_self⟩
                  · obtain ⟨hkey, hcase⟩ := hm.fits e' he'
                    exact ⟨hkey, hcase.imp_right (List.mem_cons_of_mem _)⟩
                · rw [cleanFor_cons_new hk hnone, ← hm.clean]

/-- Merging entries with a key and a counter does not raise. -/
lemma foldlM_arrival_ok {es : List Fields} {c : RawClaim} (hderived : c.Derived)
    (hfits : ∀ it ∈ c.owned ++ c.unique, ∃ n, rawDeferrals it.source = .ok n)
    (hes : ∀ e ∈ es, EntryFits e) : ∃ c', es.foldlM RawClaim.arrival c = .ok c' := by
  induction es generalizing c with
  | nil => exact ⟨c, rfl⟩
  | cons e es ih =>
      obtain ⟨⟨k, hk⟩, he⟩ := hes e List.mem_cons_self
      obtain ⟨c₁, hadd⟩ := add_ok k hderived hfits he
      obtain ⟨hderived₁, howned₁, hcase⟩ := add_spec hadd hderived
      have hsources : ∀ it ∈ c₁.owned ++ c₁.unique, it.source = e ∨
          ∃ i ∈ c.owned ++ c.unique, i.source = it.source := by
        intro it hit
        have hmem : it.source ∈ (c₁.owned ++ c₁.unique).map RawItem.source :=
          List.mem_map_of_mem hit
        rw [List.map_append, map_source_of_label howned₁] at hmem
        rcases hcase with ⟨m, -, -, hunique₁, -⟩ | ⟨-, rfl⟩
        · rw [map_source_of_label hunique₁, ← List.map_append] at hmem
          exact .inr (List.mem_map.1 hmem)
        · rw [List.map_append, ← List.append_assoc, ← List.map_append] at hmem
          rcases List.mem_append.1 hmem with hmem | hmem
          · exact .inr (List.mem_map.1 hmem)
          · exact .inl (List.mem_singleton.1 hmem)
      obtain ⟨c', hc'⟩ := ih hderived₁ (fun it hit => by
        rcases hsources it hit with heq | ⟨i, hi, heq⟩
        · exact heq ▸ he
        · exact heq ▸ hfits i hi) fun e' he' => hes e' (List.mem_cons_of_mem _ he')
      refine ⟨c', ?_⟩
      rw [List.foldlM_cons, RawClaim.arrival, hk]
      simp only [hadd]
      exact hc'

/-! ### Cutting a claim -/

/-- The priority of an entry with a key can be taken when its counter is a number. -/
lemma rawPriority_ok_iff {e : Fields} (hkey : ∃ k, rawDedupKey e = .ok k) :
    (∃ p, rawPriority e = .ok p) ↔ ∃ n, rawDeferrals e = .ok n := by
  rw [rawPriority]
  cases hn : rawDeferrals e with
  | error exc => exact iff_of_false (by rintro ⟨p, ⟨⟩⟩) (by rintro ⟨n, ⟨⟩⟩)
  | ok n =>
      refine iff_of_true ?_ ⟨n, rfl⟩
      obtain ⟨k, hk⟩ := hkey
      simp only
      split_ifs
      · exact ⟨0, rfl⟩
      · rw [rawDedupKey] at hk
        split at hk
        · next payload hpayload =>
            rw [payloadKey] at hk
            split at hk
            · next dir wing mode _ _ hmode =>
                simp only [hmode]
                cases mode <;> exact ⟨_, rfl⟩
            · cases hk
        · cases hk

/-- Cutting a claim takes the priority of every entry, and loses none. -/
lemma rawSplit_spec {budget : ℕ} {items keep rest : List RawItem}
    (h : rawSplit budget items = .ok (keep, rest)) :
    (keep ++ rest).Perm items ∧ ∀ it ∈ items, ∃ p, rawPriority it.entry = .ok p := by
  rw [rawSplit] at h
  cases hprios : items.mapM fun it => rawPriority it.entry with
  | error exc =>
      rw [hprios] at h
      cases h
  | ok prios =>
      rw [hprios] at h
      obtain ⟨rfl, rfl⟩ := Prod.mk.inj (Except.ok.inj h)
      obtain ⟨hlength, himage, -⟩ := Except.mapM_ok hprios
      refine ⟨?_, fun it hit => (himage it hit).imp fun p hp => hp.2⟩
      have hperm := (PrioritySplit.split_perm Prod.snd budget (items.zip prios)).map Prod.fst
      rwa [List.map_append, List.map_fst_zip hlength.ge] at hperm

lemma rawSplit_ok {budget : ℕ} {items : List RawItem}
    (h : ∀ it ∈ items, ∃ p, rawPriority it.entry = .ok p) :
    ∃ parts, rawSplit budget items = .ok parts := by
  obtain ⟨prios, hprios⟩ := Except.mapM_total h
  rw [rawSplit, hprios]
  exact ⟨_, rfl⟩

/-- A claimed entry that the pass can sort. -/
structure RawItem.Fits (it : RawItem) : Prop extends it.Derived where
  fits : EntryFits it.source

lemma RawItem.Fits.entry {it : RawItem} (h : it.Fits) : EntryFits it.entry :=
  ⟨h.key ▸ h.fits.1, h.deferrals.2 h.fits.2⟩

/-- The entries of the target of a well-formed one that absorb it are well-formed: what the pass
owns, or else the newest arrival. -/
def Clean (owned : List RawItem) (arrivals : List Fields) : Prop :=
  RawClaim.CleanFor ⟨owned, [], []⟩ arrivals.reverse

/-- A claim that was merged and cut. -/
lemma cut_spec {c c' : RawClaim} {es new : List Fields} {gone : List Absorbed} {budget : ℕ}
    {keep rest : List RawItem} (hm : Merged c es c' new gone) (hunique : c.unique = [])
    (howned : ∀ it ∈ c.owned, it.Fits)
    (h : rawSplit budget (c'.owned ++ c'.unique.reverse) = .ok (keep, rest)) :
    (∀ it ∈ keep ++ rest, it.Fits) ∧ (∀ e ∈ es, EntryFits e) ∧
    ((keep ++ rest).map RawItem.source ++ gone.map Absorbed.line).Perm
      (c.owned.map RawItem.source ++ es) := by
  obtain ⟨hperm, hprio⟩ := rawSplit_spec h
  have hnew : c'.unique.map RawItem.source = new := by
    rw [hm.unique, hunique]
    rfl
  have hsorted : ∀ it ∈ c'.owned ++ c'.unique, ∃ p, rawPriority it.entry = .ok p := fun it hit =>
    hprio it (by simpa using hit)
  -- an entry that is new has its counter taken when the claim is sorted
  have hes : ∀ e ∈ es, EntryFits e := by
    intro e he
    obtain ⟨hkey, hcounter | hmem⟩ := hm.fits e he
    · exact ⟨hkey, hcounter⟩
    · rw [← hnew] at hmem
      obtain ⟨it, hit, rfl⟩ := List.mem_map.1 hmem
      have hit' := List.mem_append_right c'.owned hit
      have hderived := hm.derived it hit'
      exact ⟨hkey, hderived.deferrals.1
        ((rawPriority_ok_iff (hderived.key ▸ hkey)).1 (hsorted it hit'))⟩
  have hfits : ∀ it ∈ c'.owned ++ c'.unique, it.Fits := by
    intro it hit
    refine { hm.derived it hit with fits := ?_ }
    rcases List.mem_append.1 hit with hit | hit
    · have hsource : it.source ∈ c'.owned.map RawItem.source := List.mem_map_of_mem hit
      rw [map_source_of_label hm.owned] at hsource
      obtain ⟨i, hi, heq⟩ := List.mem_map.1 hsource
      exact heq ▸ (howned i hi).fits
    · have hsource : it.source ∈ new := hnew ▸ List.mem_map_of_mem hit
      exact hes _ (hm.perm.mem_iff.1 (List.mem_append_left _ hsource))
  refine ⟨fun it hit => hfits it (by simpa using hperm.mem_iff.1 hit), hes, ?_⟩
  have hcut := (hperm.map RawItem.source).append_right (gone.map Absorbed.line)
  refine hcut.trans ?_
  rw [List.map_append, List.map_reverse, hnew, map_source_of_label hm.owned, List.append_assoc]
  exact (((List.reverse_perm new).append_right _).trans hm.perm).append_left _

/-- A claim whose entries fit is merged and cut. -/
lemma cut_ok {c : RawClaim} {es : List Fields} {budget : ℕ} (hunique : c.unique = [])
    (howned : ∀ it ∈ c.owned, it.Fits) (hes : ∀ e ∈ es, EntryFits e) :
    ∃ c' parts, es.foldlM RawClaim.arrival c = .ok c' ∧
      rawSplit budget (c'.owned ++ c'.unique.reverse) = .ok parts := by
  have hclaim : ∀ it ∈ c.owned ++ c.unique, it.Fits := by
    rw [hunique, List.append_nil]
    exact howned
  obtain ⟨c', hc'⟩ := foldlM_arrival_ok (fun it hit => (hclaim it hit).toDerived)
    (fun it hit => (hclaim it hit).fits.2) hes
  obtain ⟨new, gone, hm⟩ := foldlM_arrival_spec hc' fun it hit => (hclaim it hit).toDerived
  have hsource : ∀ it ∈ c'.owned ++ c'.unique, EntryFits it.source := by
    intro it hit
    rcases List.mem_append.1 hit with hit | hit
    · have hmem : it.source ∈ c'.owned.map RawItem.source := List.mem_map_of_mem hit
      rw [map_source_of_label hm.owned] at hmem
      obtain ⟨i, hi, heq⟩ := List.mem_map.1 hmem
      exact heq ▸ (howned i hi).fits
    · have hmem : it.source ∈ c'.unique.map RawItem.source := List.mem_map_of_mem hit
      rw [hm.unique, hunique] at hmem
      exact hes _ (hm.perm.mem_iff.1 (List.mem_append_left _ hmem))
  obtain ⟨parts, hparts⟩ := @rawSplit_ok budget (c'.owned ++ c'.unique.reverse) fun it hit => by
    have hit' : it ∈ c'.owned ++ c'.unique := by simpa using hit
    have hderived := hm.derived it hit'
    obtain ⟨hkey, hcounter⟩ := hsource it hit'
    exact (rawPriority_ok_iff (hderived.key ▸ hkey)).2 (hderived.deferrals.2 hcounter)
  exact ⟨c', parts, hc', hparts⟩

end PalaceDaemon.Mines

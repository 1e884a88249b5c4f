/-
The reranking of search hits.

`rerank_hits` hands the hits with a text to a cross-encoder and puts them in the order it answers
with.  The answer is not checked: an id may be negative, or that of a hit without a text, and an
entry may raise when it is read.  The scores are written into the hits one by one, inside the one
`try` whose handler returns the hits as unchanged.  `rerank_iff` says for which answers the result
is what the docstring promises.
-/
import Mathlib.Data.List.Basic
import Mathlib.Data.List.Nodup
import Mathlib.Data.List.Perm.Basic
import Mathlib.Data.List.Range
import PalaceDaemon.Lib.PyText

namespace PalaceDaemon.Search

/-! ### The hits and the answer -/

section

variable {σ ρ : Type*}

/-- A hit: its texts, its score, and whatever else it has. -/
structure Hit (σ ρ : Type*) where
  /-- `text`, if it is a string. -/
  text : Option String
  /-- `document`, if it is a string. -/
  document : Option String
  rerankScore : Option σ
  rest : ρ
deriving DecidableEq

/-- `_passage_text` -/
def passageText (h : Hit σ ρ) : String :=
  ((h.text.filter (· ≠ "")).or (h.document.filter (· ≠ ""))).getD ""

/-- The hit has a text to rank. -/
def rankable (h : Hit σ ρ) : Bool := passageText h ≠ ""

/-- `hit["rerank_score"] = x` -/
def Hit.scored (x : σ) (h : Hit σ ρ) : Hit σ ρ := { h with rerankScore := some x }

/-- `float(s.get("score", 0.0))` -/
inductive Score (σ : Type*)
  | value (x : σ)
  /-- `TypeError` or `ValueError` -/
  | unreadable
  | raised

/-- An entry of the answer. -/
inductive Scored (σ : Type*)
  /-- It is no dictionary, or raises when it is read. -/
  | raised
  /-- Its id, if that is an `int`, and its score. -/
  | entry (id : Option ℤ) (score : Score σ)

/-- What the ranker does. -/
inductive Ranker (σ : Type*)
  /-- It cannot be loaded. -/
  | unavailable (reason : String)
  | raised (reason : String)
  | answered (scored : List (Scored σ))

inductive Status
  | skipped
  | noop
  | ok
  | failed
deriving DecidableEq

/-- `info`, without the name of the model and the time taken. -/
structure Info where
  enabled : Bool
  enabledSource : String
  nInput : ℕ
  nReranked : ℕ
  status : Status
  reason : Option String

/-- What comes back: the positions of the hits in the order they are returned, and the hits as
they are then. -/
structure Reranked (σ ρ : Type*) where
  order : List ℕ
  hits : List (Hit σ ρ)
  info : Info

/-! ### The loop -/

/-- `hits[idx]`, for a list of `n` hits. -/
def position (n : ℕ) (idx : ℤ) : Option ℕ :=
  if 0 ≤ idx then (if idx < n then some idx.toNat else none)
  else if -n ≤ idx then some (idx + n).toNat else none

/-- How far the loop over the answer has got. -/
structure Progress (σ ρ : Type*) where
  out : List ℕ
  seen : List ℤ
  hits : List (Hit σ ρ)

/-- The score that is written. -/
def Score.written (zero : σ) : Score σ → Option σ
  | .value x => some x
  | .unreadable => some zero
  | .raised => none

/-- The loop over the answer; it is told whether it ends with an exception. -/
def scan (zero : σ) : List (Scored σ) → Progress σ ρ → Progress σ ρ × Bool
  | [], p => (p, false)
  | .raised :: _, p => (p, true)
  | .entry none _ :: rest, p => scan zero rest p
  | .entry (some idx) score :: rest, p =>
      if idx ∈ p.seen ∨ p.hits.length ≤ idx then scan zero rest p
      else match position p.hits.length idx, score.written zero with
        | some i, some x => scan zero rest
            { out := p.out ++ [i], seen := idx :: p.seen, hits := p.hits.modify i (Hit.scored x) }
        | _, _ => ({ p with seen := idx :: p.seen }, true)

/-- The positions of the hits that can be ranked. -/
def rankables (hits : List (Hit σ ρ)) : List ℕ :=
  (List.range hits.length).filter fun i => (hits[i]?).any rankable

/-- The positions of the others. -/
def unrankables (hits : List (Hit σ ρ)) : List ℕ :=
  (List.range hits.length).filter fun i => !(hits[i]?).any rankable

/-- What becomes of an answer that does not end the loop: the hits it names, those with a text that
it does not, and the others. -/
def reordered (hits : List (Hit σ ρ)) (p : Progress σ ρ) : List ℕ :=
  p.out ++ (rankables hits).filter (fun i : ℕ => decide ((i : ℤ) ∉ p.seen)) ++ unrankables hits

/-- What is returned after the loop; `reason` is the text of the exception that ends it. -/
def finish (hits : List (Hit σ ρ)) (info : Info) (reason : String) :
    Progress σ ρ × Bool → Reranked σ ρ
  | (p, true) =>
    ⟨List.range hits.length, p.hits, { info with status := .failed, reason := reason }⟩
  | (p, false) => ⟨reordered hits p, p.hits, { info with status := .ok }⟩

/-- `rerank_hits`; `env` is `is_enabled()`. -/
def rerankHits (zero : σ) (env : Bool) (query : String) (ranker : Ranker σ) (reason : String)
    (hits : List (Hit σ ρ)) (enabled : Option Bool) : Reranked σ ρ :=
  let effective := enabled.getD env
  let info : Info :=
    { enabled := effective, enabledSource := if enabled = none then "env" else "per-request"
      nInput := hits.length, nReranked := 0, status := .skipped, reason := none }
  let same (info : Info) : Reranked σ ρ := ⟨List.range hits.length, hits, info⟩
  if effective = false then
    same { info with reason := if enabled = none then "PALACE_RERANK_ENABLED=false"
                               else "rerank=false (per-request)" }
  else if hits = [] then same { info with status := .noop }
  else if PyText.strip query.toList = [] then same { info with reason := "empty query" }
  else if rankables hits = [] then
    same { info with reason := "no passages have rerankable text" }
  else match ranker with
    | .unavailable why => same { info with status := .failed, reason := why }
    | .raised why => same { info with status := .failed, reason := why }
    | .answered scored =>
      finish hits { info with nReranked := scored.length } reason
        (scan zero scored ⟨[], [], hits⟩)

/-! ### What the docstring promises -/

/-- A hit but for its score. -/
def Hit.unscored (h : Hit σ ρ) : Hit σ ρ := { h with rerankScore := none }

/-- The hits come back in a new order, those without a text last and in the order they had, and
nothing but their scores is changed. -/
structure Permutes (hits : List (Hit σ ρ)) (r : Reranked σ ρ) : Prop where
  perm : r.order.Perm (List.range hits.length)
  tail : ∃ head, r.order = head ++ unrankables hits ∧ ∀ i ∈ head, i ∈ rankables hits
  hits : r.hits.map Hit.unscored = hits.map Hit.unscored

/-- The hits come back as they were. -/
structure Untouched (hits : List (Hit σ ρ)) (r : Reranked σ ρ) : Prop where
  order : r.order = List.range hits.length
  hits : r.hits = hits

/-- What `rerank_hits` promises. -/
def Promised (hits : List (Hit σ ρ)) (r : Reranked σ ρ) : Prop :=
  (r.info.status = .ok → Permutes hits r) ∧ (r.info.status ≠ .ok → Untouched hits r)

/-! ### The answers that are safe -/

/-- The id of an entry, if it is an `int`. -/
def Scored.id : Scored σ → Option ℤ
  | .raised => none
  | .entry id _ => id

/-- The id `idx` is taken up: it is below the number of the hits and was not in the answer so
far. -/
def Fresh (n : ℕ) (before : List (Scored σ)) (idx : ℤ) : Prop :=
  idx < n ∧ some idx ∉ before.map Scored.id

/-- The entry ends the loop. -/
def Stops (n : ℕ) (before : List (Scored σ)) : Scored σ → Prop
  | .raised => True
  | .entry none _ => False
  | .entry (some idx) score => Fresh n before idx ∧ (idx < -n ∨ score = .raised)

/-- No entry ends the loop. -/
def RunsThrough (n : ℕ) (scored : List (Scored σ)) : Prop :=
  ∀ before e after, scored = before ++ e :: after → ¬ Stops n before e

/-- `x` is the last score that the answer gives to the hit at position `i`. -/
def Assigns (zero : σ) (n : ℕ) (scored : List (Scored σ)) (i : ℕ) (x : σ) : Prop :=
  ∃ before idx score after, scored = before ++ .entry (some idx) score :: after ∧
    Fresh n before idx ∧ position n idx = some i ∧ score.written zero = some x ∧
    ∀ idx', idx' ≠ idx → some idx' ∈ after.map Scored.id → Fresh n before idx' →
      position n idx' ≠ some i

/-- An answer that ends with an exception has given no hit a score that it did not have; one that
does not has only ids of hits with a text, from `0` on. -/
def Safe (zero : σ) (hits : List (Hit σ ρ)) (scored : List (Scored σ)) : Prop :=
  (∀ before e after, scored = before ++ e :: after → RunsThrough hits.length before →
    Stops hits.length before e → ∀ i x, Assigns zero hits.length before i x →
      ∀ h, hits[i]? = some h → h.rerankScore = some x) ∧
  (RunsThrough hits.length scored → ∀ idx : ℤ, some idx ∈ scored.map Scored.id →
    idx < hits.length → ∃ i ∈ rankables hits, idx = i)

/-! ### The loop, entry by entry -/

section Loop

variable {zero : σ} {n : ℕ} {hits : List (Hit σ ρ)} {before : List (Scored σ)} {e : Scored σ}

lemma snoc_eq {α : Type*} {xs b a : List α} {e f : α} (h : xs ++ [e] = b ++ f :: a) :
    (a = [] ∧ xs = b ∧ e = f) ∨ ∃ a', a = a' ++ [e] ∧ xs = b ++ f :: a' := by
  rcases List.eq_nil_or_concat a with rfl | ⟨a', x, rfl⟩
  · obtain ⟨h, he⟩ := List.append_inj' h rfl
    exact Or.inl ⟨rfl, h, by simpa using he⟩
  · rw [List.concat_eq_append, ← List.cons_append, ← List.append_assoc] at h
    obtain ⟨hxs, he⟩ := List.append_inj' h rfl
    obtain rfl : e = x := by simpa using he
    exact Or.inr ⟨a', by simp, hxs⟩

/-- The entry gives the hit at position `i` a score. -/
def Gives (zero : σ) (n : ℕ) (before : List (Scored σ)) (e : Scored σ) (i : ℕ) (x : σ) : Prop :=
  ∃ idx score, e = .entry (some idx) score ∧ Fresh n before idx ∧ position n idx = some i ∧
    score.written zero = some x

lemma Assigns.of_snoc {i : ℕ} {x : σ} (h : Assigns zero n (before ++ [e]) i x) :
    Gives zero n before e i x ∨ Assigns zero n before i x ∧
      ∀ idx score, e = .entry (some idx) score → Fresh n before idx → position n idx ≠ some i := by
  obtain ⟨b, idx, score, a, heq, hf, hp, hw, hlast⟩ := h
  rcases snoc_eq heq with ⟨rfl, rfl, rfl⟩ | ⟨a, rfl, rfl⟩
  · exact Or.inl ⟨idx, score, rfl, hf, hp, hw⟩
  · refine Or.inr ⟨⟨b, idx, score, a, rfl, hf, hp, hw, fun j hj hja => hlast j hj ?_⟩, ?_⟩
    · rw [List.map_append]
      exact List.mem_append_left _ hja
    · rintro j s rfl hj
      have hids := hj.2
      simp only [List.map_append, List.map_cons, List.mem_append, List.mem_cons,
        not_or] at hids
      refine hlast j (fun hji => hids.2.1 (by rw [hji]; rfl)) ?_ ⟨hj.1, hids.1⟩
      simp [Scored.id]

lemma Gives.assigns {i : ℕ} {x : σ} (h : Gives zero n before e i x) :
    Assigns zero n (before ++ [e]) i x := by
  obtain ⟨idx, score, rfl, hf, hp, hw⟩ := h
  exact ⟨before, idx, score, [], rfl, hf, hp, hw, fun j _ hj => by simp at hj⟩

lemma Assigns.snoc {i : ℕ} {x : σ} (h : Assigns zero n before i x)
    (he : ∀ idx score, e = .entry (some idx) score → Fresh n before idx →
      position n idx ≠ some i) : Assigns zero n (before ++ [e]) i x := by
  obtain ⟨b, idx, score, a, rfl, hf, hp, hw, hlast⟩ := h
  refine ⟨b, idx, score, a ++ [e], by simp, hf, hp, hw, fun j hj hja hjf => ?_⟩
  by_cases hin : some j ∈ a.map Scored.id
  · exact hlast j hj hin hjf
  · have hje : some j = e.id := by simpa [hin] using hja
    cases e with
    | raised => cases hje
    | entry id s =>
      obtain rfl : id = some j := hje.symm
      refine he j s rfl ⟨hjf.1, ?_⟩
      simp only [List.map_append, List.map_cons, List.mem_append, List.mem_cons, not_or]
      exact ⟨hjf.2, fun h => hj (by simpa [Scored.id] using h), hin⟩

/-- What the loop has done after `before`. -/
structure Reached (zero : σ) (hits : List (Hit σ ρ)) (before : List (Scored σ))
    (p : Progress σ ρ) : Prop where
  out : p.out.map some = p.seen.reverse.map (position hits.length)
  nodup : p.seen.Nodup
  seen : ∀ j, j ∈ p.seen ↔ j < hits.length ∧ some j ∈ before.map Scored.id
  length : p.hits.length = hits.length
  unscored : p.hits.map Hit.unscored = hits.map Hit.unscored
  assigned : ∀ i x, Assigns zero hits.length before i x →
    p.hits[i]? = hits[i]?.map (Hit.scored x)
  unassigned : ∀ i, (∀ x, ¬ Assigns zero hits.length before i x) → p.hits[i]? = hits[i]?

lemma reached_nil : Reached zero hits [] ⟨[], [], hits⟩ where
  out := rfl
  nodup := List.nodup_nil
  seen j := by simp
  length := rfl
  unscored := rfl
  assigned i x h := by
    obtain ⟨b, idx, score, a, h, -⟩ := h
    simp at h
  unassigned _ _ := rfl

lemma Reached.fresh {p : Progress σ ρ} (h : Reached zero hits before p) {idx : ℤ} :
    Fresh hits.length before idx ↔ ¬ (idx ∈ p.seen ∨ p.hits.length ≤ idx) := by
  rw [Fresh, h.seen, h.length]
  constructor
  · rintro ⟨h1, h2⟩ (h3 | h3)
    · exact h2 h3.2
    · omega
  · intro h1
    rw [not_or, Int.not_le] at h1
    exact ⟨h1.2, fun h2 => h1.1 ⟨h1.2, h2⟩⟩

lemma unscored_scored (x : σ) (h : Hit σ ρ) : (h.scored x).unscored = h.unscored := rfl

lemma scored_scored (x y : σ) (h : Hit σ ρ) : (h.scored y).scored x = h.scored x := rfl

lemma map_unscored_modify (x : σ) (i : ℕ) (hits : List (Hit σ ρ)) :
    (hits.modify i (Hit.scored x)).map Hit.unscored = hits.map Hit.unscored := by
  refine List.ext_getElem? fun j => ?_
  rw [List.getElem?_map, List.getElem?_modify, List.getElem?_map]
  cases hits[j]? with
  | none => rfl
  | some h => by_cases hij : i = j <;> simp [hij, unscored_scored]

/-- An entry that takes up no id changes nothing. -/
lemma Reached.skip {p : Progress σ ρ} (h : Reached zero hits before p)
    (he : ∀ idx score, e = .entry (some idx) score → ¬ Fresh hits.length before idx)
    (hr : e ≠ .raised) : Reached zero hits (before ++ [e]) p where
  out := h.out
  nodup := h.nodup
  seen j := by
    rw [h.seen]
    constructor
    · rintro ⟨h1, h2⟩
      exact ⟨h1, by simp [h2]⟩
    · rintro ⟨h1, h2⟩
      refine ⟨h1, ?_⟩
      by_contra hj
      have hje : some j = e.id := by simpa [hj] using h2
      cases e with
      | raised => exact hr rfl
      | entry id s => exact he j s (by rw [show id = some j from hje.symm]) ⟨h1, hj⟩
  length := h.length
  unscored := h.unscored
  assigned i x ha := by
    rcases ha.of_snoc with ⟨idx, score, rfl, hf, -⟩ | ⟨ha, -⟩
    · exact absurd hf (he idx score rfl)
    · exact h.assigned i x ha
  unassigned i hna := h.unassigned i fun x ha =>
    hna x (ha.snoc fun idx score heq hf => absurd hf (he idx score heq))

/-- An entry that takes up an id. -/
lemma Reached.take {p : Progress σ ρ} (h : Reached zero hits before p) {idx : ℤ}
    {score : Score σ} {i : ℕ} {x : σ} (hf : Fresh hits.length before idx)
    (hp : position hits.length idx = some i) (hw : score.written zero = some x) :
    Reached zero hits (before ++ [.entry (some idx) score])
      ⟨p.out ++ [i], idx :: p.seen, p.hits.modify i (Hit.scored x)⟩ where
  out := by simp [h.out, hp]
  nodup := List.nodup_cons.2 ⟨fun hin => hf.2 ((h.seen idx).1 hin).2, h.nodup⟩
  seen j := by
    rw [List.mem_cons, h.seen, List.map_append, List.mem_append]
    constructor
    · rintro (rfl | ⟨h1, h2⟩)
      · exact ⟨hf.1, Or.inr (by simp [Scored.id])⟩
      · exact ⟨h1, Or.inl h2⟩
    · rintro ⟨h1, h2 | h2⟩
      · exact Or.inr ⟨h1, h2⟩
      · exact Or.inl (by simpa [Scored.id] using h2)
  length := by rw [List.length_modify, h.length]
  unscored := by rw [map_unscored_modify, h.unscored]
  assigned j y ha := by
    rw [List.getElem?_modify]
    rcases ha.of_snoc with ⟨idx', score', heq, -, hp', hw'⟩ | ⟨ha, hlast⟩
    · cases heq
      obtain rfl : i = j := Option.some.inj (hp.symm.trans hp')
      obtain rfl : x = y := Option.some.inj (hw.symm.trans hw')
      by_cases hx : ∃ z, Assigns zero hits.length before i z
      · obtain ⟨z, hz⟩ := hx
        rw [h.assigned i z hz]
        cases hits[i]? <;> simp [scored_scored]
      · rw [h.unassigned i fun z hz => hx ⟨z, hz⟩]
        simp
    · have hij : i ≠ j := fun hij => hlast idx score rfl hf (by rw [hp, hij])
      rw [h.assigned j y ha]
      simp [hij]
  unassigned j hna := by
    have hij : i ≠ j := fun hij =>
      hna x (Gives.assigns ⟨idx, score, rfl, hf, by rw [hp, hij], hw⟩)
    rw [List.getElem?_modify, h.unassigned j]
    · simp [hij]
    · intro y ha
      refine hna y (ha.snoc fun idx' score' heq _ => ?_)
      cases heq
      rw [hp]
      exact fun h => hij (Option.some.inj h)

lemma position_isSome {idx : ℤ} (h1 : idx < n) (h2 : -n ≤ idx) :
    ∃ i, position n idx = some i := by
  rw [position]
  split_ifs
  · exact ⟨_, rfl⟩
  · exact ⟨_, rfl⟩

/-- One entry that does not end the loop. -/
lemma Reached.step {p : Progress σ ρ} (h : Reached zero hits before p)
    (he : ¬ Stops hits.length before e) :
    ∃ p', (∀ rest, scan zero (e :: rest) p = scan zero rest p') ∧
      Reached zero hits (before ++ [e]) p' := by
  rcases e with - | ⟨- | idx, score⟩
  · exact absurd trivial he
  · exact ⟨p, fun rest => rfl, h.skip (fun idx score heq => by cases heq) (by simp)⟩
  · by_cases hf : Fresh hits.length before idx
    · have hlow : -(hits.length : ℤ) ≤ idx := by
        by_contra hlt
        exact he ⟨hf, Or.inl (Int.not_le.1 hlt)⟩
      obtain ⟨i, hi⟩ := position_isSome hf.1 hlow
      obtain ⟨x, hx⟩ : ∃ x, score.written zero = some x := by
        cases score with
        | value x => exact ⟨x, rfl⟩
        | unreadable => exact ⟨zero, rfl⟩
        | raised => exact absurd ⟨hf, Or.inr rfl⟩ he
      refine ⟨_, fun rest => ?_, h.take hf hi hx⟩
      rw [scan, if_neg (h.fresh.1 hf), h.length, hi, hx]
    · refine ⟨p, fun rest => ?_, h.skip ?_ (by simp)⟩
      · rw [scan, if_pos (not_not.1 fun hn => hf (h.fresh.2 hn))]
      · rintro idx' score' heq
        cases heq
        exact hf

/-- The entry that ends the loop writes nothing. -/
lemma Reached.stop {p : Progress σ ρ} (h : Reached zero hits before p)
    (he : Stops hits.length before e) :
    ∃ p', (∀ rest, scan zero (e :: rest) p = (p', true)) ∧ p'.hits = p.hits := by
  rcases e with - | ⟨- | idx, score⟩
  · exact ⟨p, fun rest => rfl, rfl⟩
  · exact he.elim
  · obtain ⟨hf, hor⟩ := he
    refine ⟨{ p with seen := idx :: p.seen }, fun rest => ?_, rfl⟩
    rw [scan, if_neg (h.fresh.1 hf), h.length]
    rcases hor with hlow | rfl
    · rw [position, if_neg (by omega), if_neg (by omega)]
    · cases position hits.length idx <;> rfl

lemma RunsThrough.of_snoc (h : RunsThrough n (before ++ [e])) :
    RunsThrough n before ∧ ¬ Stops n before e := by
  refine ⟨fun b f a heq => ?_, h before e [] rfl⟩
  exact h b f (a ++ [e]) (by simp [heq])

lemma RunsThrough.snoc (h : RunsThrough n before) (he : ¬ Stops n before e) :
    RunsThrough n (before ++ [e]) := by
  intro b f a heq
  rcases snoc_eq heq with ⟨-, rfl, rfl⟩ | ⟨a, -, rfl⟩
  · exact he
  · exact h b f a rfl

/-- The loop ends at one entry. -/
lemma first_stop_unique {b b' a a' : List (Scored σ)} {f f' : Scored σ}
    (heq : b ++ f :: a = b' ++ f' :: a') (hb : RunsThrough n b) (hf : Stops n b f)
    (hb' : RunsThrough n b') (hf' : Stops n b' f') : b = b' := by
  rcases List.append_eq_append_iff.1 heq with ⟨c, rfl, hc⟩ | ⟨c, rfl, hc⟩
  · cases c with
    | nil => simp
    | cons g c =>
      obtain ⟨rfl, -⟩ := List.cons_eq_cons.1 hc
      exact absurd hf (hb' b f c rfl)
  · cases c with
    | nil => simp
    | cons g c =>
      obtain ⟨rfl, -⟩ := List.cons_eq_cons.1 hc
      exact absurd hf' (hb b' f' c rfl)

variable (zero) in
/-- The loop over entries none of which ends it. -/
lemma scan_append (h : RunsThrough hits.length before) :
    ∃ p, (∀ rest, scan zero (before ++ rest) ⟨[], [], hits⟩ = scan zero rest p) ∧
      Reached zero hits before p := by
  induction before using List.reverseRecOn with
  | nil => exact ⟨_, fun rest => rfl, reached_nil⟩
  | append_singleton before e ih =>
    obtain ⟨hb, he⟩ := h.of_snoc
    obtain ⟨p, hp, hr⟩ := ih hb
    obtain ⟨p', hp', hr'⟩ := hr.step he
    refine ⟨p', fun rest => ?_, hr'⟩
    rw [List.append_assoc, hp, List.singleton_append, hp']

lemma runsThrough_or (n : ℕ) (scored : List (Scored σ)) :
    RunsThrough n scored ∨ ∃ before e after, scored = before ++ e :: after ∧
      RunsThrough n before ∧ Stops n before e := by
  induction scored using List.reverseRecOn with
  | nil => exact Or.inl fun b e a h => by simp at h
  | append_singleton scored e ih =>
    rcases ih with hr | ⟨b, f, a, rfl, hb, hf⟩
    · by_cases he : Stops n scored e
      · exact Or.inr ⟨scored, e, [], rfl, hr, he⟩
      · exact Or.inl (hr.snoc he)
    · exact Or.inr ⟨b, f, a ++ [e], by simp, hb, hf⟩

end Loop

/-! ### The hits in their new order -/

section Order

variable {zero : σ} {hits : List (Hit σ ρ)} {scored : List (Scored σ)}

lemma mem_rankables {i : ℕ} :
    i ∈ rankables hits ↔ i < hits.length ∧ (hits[i]?).any rankable = true := by
  simp [rankables]

lemma mem_unrankables {i : ℕ} :
    i ∈ unrankables hits ↔ i < hits.length ∧ ¬ (hits[i]?).any rankable = true := by
  simp [unrankables]

lemma Reached.mem_out {p : Progress σ ρ} (h : Reached zero hits scored p) {i : ℕ} :
    i ∈ p.out ↔ ∃ idx ∈ p.seen, position hits.length idx = some i := by
  have hi : i ∈ p.out ↔ some i ∈ p.out.map some := by simp
  rw [hi, h.out]
  simp

lemma position_eq_some {n : ℕ} {idx : ℤ} {i : ℕ} (h : position n idx = some i) :
    i < n ∧ (idx = i ∨ idx = i - n) := by
  rw [position] at h
  split_ifs at h with h1 h2 h3
  · obtain rfl := Option.some.inj h
    omega
  · obtain rfl := Option.some.inj h
    omega

lemma position_natCast {n i : ℕ} (h : i < n) : position n i = some i := by
  simp [position, h]

/-- Ids of hits with a text give each hit its place once. -/
lemma Reached.permutes {p : Progress σ ρ} (h : Reached zero hits scored p)
    (hs : ∀ idx ∈ p.seen, ∃ i ∈ rankables hits, idx = (i : ℤ)) :
    (reordered hits p).Perm (List.range hits.length) ∧
      ∃ head, reordered hits p = head ++ unrankables hits ∧ ∀ i ∈ head, i ∈ rankables hits := by
  have hmem : ∀ i : ℕ, i ∈ p.out ↔ (i : ℤ) ∈ p.seen := by
    intro i
    rw [h.mem_out]
    constructor
    · rintro ⟨idx, hidx, hp⟩
      obtain ⟨j, hj, rfl⟩ := hs idx hidx
      rw [position_natCast (mem_rankables.1 hj).1] at hp
      rwa [← Option.some.inj hp]
    · intro hi
      obtain ⟨j, hj, hij⟩ := hs i hi
      exact ⟨i, hi, position_natCast (by rw [Int.ofNat.inj hij]; exact (mem_rankables.1 hj).1)⟩
  have hout : p.out.Nodup := by
    have hnodup : (p.out.map some).Nodup := by
      rw [h.out]
      refine List.Nodup.map_on ?_ (List.nodup_reverse.2 h.nodup)
      intro x hx y hy hxy
      obtain ⟨i, hi, rfl⟩ := hs x (List.mem_reverse.1 hx)
      obtain ⟨j, hj, rfl⟩ := hs y (List.mem_reverse.1 hy)
      rw [position_natCast (mem_rankables.1 hi).1, position_natCast (mem_rankables.1 hj).1] at hxy
      rw [Option.some.inj hxy]
    exact List.Nodup.of_map _ hnodup
  have hhead : ∀ i ∈ p.out ++ (rankables hits).filter (fun i : ℕ => decide ((i : ℤ) ∉ p.seen)),
      i ∈ rankables hits := by
    intro i hi
    rcases List.mem_append.1 hi with hi | hi
    · obtain ⟨j, hj, hij⟩ := hs i ((hmem i).1 hi)
      rwa [Int.ofNat.inj hij]
    · exact (List.mem_filter.1 hi).1
  refine ⟨?_, _, rfl, hhead⟩
  refine (List.perm_ext_iff_of_nodup ?_ List.nodup_range).2 fun i => ?_
  · refine List.Nodup.append (List.Nodup.append hout ?_ ?_) ?_ ?_
    · exact (List.nodup_range.filter _).filter _
    · intro i hi hi'
      have hns := (List.mem_filter.1 hi').2
      exact of_decide_eq_true hns ((hmem i).1 hi)
    · exact List.nodup_range.filter _
    · intro i hi hi'
      exact (mem_unrankables.1 hi').2 (mem_rankables.1 (hhead i hi)).2
  · rw [List.mem_range, reordered, List.mem_append]
    constructor
    · rintro (hi | hi)
      · exact (mem_rankables.1 (hhead i hi)).1
      · exact (mem_unrankables.1 hi).1
    · intro hi
      by_cases hr : (hits[i]?).any rankable = true
      · refine Or.inl (List.mem_append.2 ?_)
        by_cases hin : (i : ℤ) ∈ p.seen
        · exact Or.inl ((hmem i).2 hin)
        · exact Or.inr (List.mem_filter.2 ⟨mem_rankables.2 ⟨hi, hr⟩, decide_eq_true hin⟩)
      · exact Or.inr (mem_unrankables.2 ⟨hi, hr⟩)

/-- Where each hit has its place once, the ids are those of hits with a text, from `0` on. -/
lemma Reached.ids_of_perm {p : Progress σ ρ} (h : Reached zero hits scored p)
    (hperm : (reordered hits p).Perm (List.range hits.length)) {idx : ℤ} (hidx : idx ∈ p.seen) :
    ∃ i ∈ rankables hits, idx = (i : ℤ) := by
  have hnodup : (reordered hits p).Nodup := hperm.symm.nodup List.nodup_range
  obtain ⟨hhead, -, hd⟩ := List.nodup_append'.1 hnodup
  obtain ⟨hout, -, hd'⟩ := List.nodup_append'.1 hhead
  obtain ⟨i, hi⟩ : ∃ i, position hits.length idx = some i := by
    have hin : position hits.length idx ∈ p.out.map some := by
      rw [h.out]
      exact List.mem_map_of_mem (List.mem_reverse.2 hidx)
    obtain ⟨i, -, hi⟩ := List.mem_map.1 hin
    exact ⟨i, hi.symm⟩
  have hmem : i ∈ p.out := h.mem_out.2 ⟨idx, hidx, hi⟩
  obtain ⟨hlt, hor⟩ := position_eq_some hi
  have hr : i ∈ rankables hits := by
    by_contra hr
    refine hd (List.mem_append_left _ hmem) (mem_unrankables.2 ⟨hlt, fun hany => ?_⟩)
    exact hr (mem_rankables.2 ⟨hlt, hany⟩)
  refine ⟨i, hr, ?_⟩
  have hin : (i : ℤ) ∈ p.seen := by
    by_contra hn
    exact hd' hmem (List.mem_filter.2 ⟨hr, decide_eq_true hn⟩)
  have hinj : (p.seen.reverse.map (position hits.length)).Nodup := by
    rw [← h.out]
    exact hout.map fun _ _ => Option.some.inj
  refine List.inj_on_of_nodup_map hinj (List.mem_reverse.2 hidx) (List.mem_reverse.2 hin) ?_
  rw [hi, position_natCast hlt]

end Order

/-! ### The result -/

section Result

variable {zero : σ} {hits : List (Hit σ ρ)} {scored : List (Scored σ)}

lemma scored_eq_self {x : σ} {h : Hit σ ρ} : h.scored x = h ↔ h.rerankScore = some x := by
  cases h
  simp only [Hit.scored, Hit.mk.injEq, true_and, and_true]
  exact eq_comm

/-- The hits are as they were if the scores that were given are those that they had. -/
lemma Reached.hits_eq_iff {p : Progress σ ρ} (h : Reached zero hits scored p) :
    p.hits = hits ↔ ∀ i x, Assigns zero hits.length scored i x →
      ∀ hit, hits[i]? = some hit → hit.rerankScore = some x := by
  constructor
  · intro heq i x ha hit hi
    have hx := h.assigned i x ha
    rw [heq, hi] at hx
    exact scored_eq_self.1 (Option.some.inj hx).symm
  · intro hsame
    refine List.ext_getElem? fun i => ?_
    by_cases ha : ∃ x, Assigns zero hits.length scored i x
    · obtain ⟨x, ha⟩ := ha
      rw [h.assigned i x ha]
      cases hi : hits[i]? with
      | none => rfl
      | some hit => simp [scored_eq_self.2 (hsame i x ha hit hi)]
    · exact h.unassigned i fun x hx => ha ⟨x, hx⟩

/-- The ranker is asked. -/
structure Asked (env : Bool) (query : String) (hits : List (Hit σ ρ)) (enabled : Option Bool) :
    Prop where
  enabled : enabled.getD env = true
  query : PyText.strip query.toList ≠ []
  text : rankables hits ≠ []

lemma Reached.promised_iff {p : Progress σ ρ} (h : Reached zero hits scored p) {info : Info}
    (hinfo : info.status = .ok) :
    Promised hits ⟨reordered hits p, p.hits, info⟩ ↔
      ∀ idx : ℤ, some idx ∈ scored.map Scored.id → idx < hits.length →
        ∃ i ∈ rankables hits, idx = i := by
  have hseen : (∀ idx ∈ p.seen, ∃ i ∈ rankables hits, idx = (i : ℤ)) ↔
      ∀ idx : ℤ, some idx ∈ scored.map Scored.id → idx < hits.length →
        ∃ i ∈ rankables hits, idx = i := by
    constructor
    · intro hs idx hid hlt
      exact hs idx ((h.seen idx).2 ⟨hlt, hid⟩)
    · intro hs idx hin
      obtain ⟨hlt, hid⟩ := (h.seen idx).1 hin
      exact hs idx hid hlt
  rw [← hseen]
  constructor
  · intro hp idx hidx
    exact h.ids_of_perm (hp.1 hinfo).perm hidx
  · intro hs
    obtain ⟨hperm, htail⟩ := h.permutes hs
    exact ⟨fun _ => ⟨hperm, htail, h.unscored⟩, fun hne => absurd hinfo hne⟩

/-- What becomes of an answer. -/
lemma promised_answered_iff {info : Info} {reason : String} :
    Promised hits (finish hits info reason (scan zero scored ⟨[], [], hits⟩)) ↔
    Safe zero hits scored := by
  rcases runsThrough_or hits.length scored with hr | ⟨before, e, after, rfl, hb, he⟩
  · obtain ⟨p, hp, hreach⟩ := scan_append zero hr
    have hscan : scan zero scored ⟨[], [], hits⟩ = (p, false) := by
      rw [← List.append_nil scored, hp]
      rfl
    rw [hscan, finish, hreach.promised_iff rfl]
    constructor
    · intro hs
      exact ⟨fun b f a heq _ hf => absurd hf (hr b f a heq), fun _ => hs⟩
    · intro hs
      exact hs.2 hr
  · obtain ⟨p, hp, hreach⟩ := scan_append zero hb
    obtain ⟨p', hp', hhits⟩ := hreach.stop he
    rw [hp, hp', finish]
    have hun : ¬ RunsThrough hits.length (before ++ e :: after) := fun hr =>
      hr before e after rfl he
    constructor
    · intro hs
      refine ⟨fun b f a heq hbf hf => ?_, fun hr => absurd hr hun⟩
      have hfirst : b = before := first_stop_unique heq.symm hbf hf hb he
      subst hfirst
      exact hreach.hits_eq_iff.1 (hhits ▸ (hs.2 (by simp)).hits)
    · intro hs
      refine ⟨fun hok => absurd hok (by simp), fun _ => ⟨rfl, ?_⟩⟩
      dsimp only
      rw [hhits, hreach.hits_eq_iff]
      exact hs.1 before e after rfl hb he

/-- **What a reranking comes to.**  A reranking gives a permutation of the hits, those without a
text last, or reports that there is none and gives back the hits as they were, if and only if no
ranker is asked, or it answers safely. -/
theorem rerank_iff (env : Bool) (query : String) (ranker : Ranker σ) (reason : String)
    (enabled : Option Bool) :
    Promised hits (rerankHits zero env query ranker reason hits enabled) ↔
      (Asked env query hits enabled → ∀ scored, ranker = .answered scored →
        Safe zero hits scored) := by
  have same : ∀ info : Info, info.status ≠ .ok →
      Promised hits ⟨List.range hits.length, hits, info⟩ := fun info hne =>
    ⟨fun hok => absurd hok hne, fun _ => ⟨rfl, rfl⟩⟩
  unfold rerankHits
  dsimp only
  by_cases hen : enabled.getD env = false
  · rw [if_pos hen]
    exact ⟨fun _ ha => absurd (hen ▸ ha.enabled) (by simp), fun _ => same _ (by simp)⟩
  rw [if_neg hen]
  by_cases hnil : hits = []
  · rw [if_pos hnil]
    exact ⟨fun _ ha => absurd (by rw [hnil]; rfl) ha.text, fun _ => same _ (by simp)⟩
  rw [if_neg hnil]
  by_cases hq : PyText.strip query.toList = []
  · rw [if_pos hq]
    exact ⟨fun _ ha => absurd hq ha.query, fun _ => same _ (by simp)⟩
  rw [if_neg hq]
  by_cases htext : rankables hits = []
  · rw [if_pos htext]
    exact ⟨fun _ ha => absurd htext ha.text, fun _ => same _ (by simp)⟩
  rw [if_neg htext]
  cases ranker with
  | unavailable why => exact ⟨fun _ _ _ => nofun, fun _ => same _ (by simp)⟩
  | raised why => exact ⟨fun _ _ _ => nofun, fun _ => same _ (by simp)⟩
  | answered scored =>
    refine Iff.trans (promised_answered_iff) ⟨?_, ?_⟩
    · rintro hs - scored' heq
      cases heq
      exact hs
    · intro hs
      exact hs ⟨by simpa using hen, hq, htext⟩ scored rfl

/-- Two hits, the second without a text. -/
def twoHits : List (Hit ℕ Unit) :=
  [⟨some "one", none, none, ()⟩, ⟨none, none, none, ()⟩]

/-- The ranker answers with the id `-1`, and the hit that it stands for comes back twice. -/
theorem rerank_permutes_fails : ¬ Promised twoHits
    (rerankHits 0 true "q" (.answered [.entry (some (-1)) (.value 7)]) "" twoHits none) := by
  intro h
  have hperm := (h.1 (by decide +kernel)).perm.length_eq
  revert hperm
  decide +kernel

end Result

end

end PalaceDaemon.Search

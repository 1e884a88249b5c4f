/-
The counts of the last 24 hours: rejected requests, and failures of the fast paths.

Each is kept in a deque of bounded length, so of a flood of events only the newest are there.
`saturated` is set when the deque is full and its oldest event is in the window.  `rolling_counts`
says what this is worth: without it the counts are those of all the events of the window, with it
they are those of the newest events and so lower bounds, and it is set whenever an event of the
window was dropped.

The times are those of the clock of the host, and `iso` is how `_iso` writes one.
-/
import Mathlib.Algebra.Order.Group.Int
import Mathlib.Data.List.Sort
import PalaceDaemon.Lib.BoundedQueue
import PalaceDaemon.Lib.TopCut

namespace PalaceDaemon.Status

variable {τ : Type*}

/-- `_PATH_MAX` -/
def pathMax : ℕ := 128

/-- The `maxlen` of `_REJECTIONS` -/
def rejectionsMax : ℕ := 50000

/-- The `maxlen` of `_FAST_FAILURES` -/
def fastFailuresMax : ℕ := 10000

/-- An entry of `_REJECTIONS` -/
structure Rejection (τ : Type*) where
  time : τ
  path : List Char

/-- `record_rejection` -/
def recordRejection (rejections : List (Rejection τ)) (path : List Char) (now : τ) :
    List (Rejection τ) :=
  BoundedQueue.append rejectionsMax rejections ⟨now, path.take pathMax⟩

/-- What is read of an exception. -/
structure Exc where
  typeName : List Char
  text : List Char

/-- `is_statement_timeout` -/
def isStatementTimeout (exc : Exc) : Bool :=
  exc.typeName = "QueryCanceled".toList || "statement timeout".toList <:+: exc.text

/-- An entry of `_FAST_FAILURES` -/
structure FastFailure (τ : Type*) where
  time : τ
  tool : List Char
  timeout : Bool

/-- `record_fast_failure` -/
def recordFastFailure (failures : List (FastFailure τ)) (tool : List Char) (exc : Exc) (now : τ) :
    List (FastFailure τ) :=
  BoundedQueue.append fastFailuresMax failures ⟨now, tool.take pathMax, isStatementTimeout exc⟩

/-- `collections.Counter(texts).most_common(n)` -/
def mostCommon (n : ℕ) (texts : List (List Char)) : List (List Char × ℕ) :=
  (TopCut.ranked Prod.snd (texts.eraseDups.map fun text => (text, texts.count text))).take n

/-- The result of `auth_rejection_summary` -/
structure RejectionSummary where
  last24h : ℕ
  since : List Char
  windowComplete : Bool
  lastAt : Option (List Char)
  byPath : List (List Char × ℕ)
  saturated : Bool

/-- The result of `fast_failure_summary` -/
structure FailureSummary where
  timeouts24h : ℕ
  failures24h : ℕ
  byTool : List (List Char × ℕ)
  lastAt : Option (List Char)
  since : List Char
  saturated : Bool

section summaries

variable [LinearOrder τ] [Sub τ] [NatCast τ] (iso : τ → List Char) (processStart : τ)

/-- `now - _WINDOW_S` -/
def cutoff (now : τ) : τ := now - ((24 * 3600 : ℕ) : τ)

/-- `auth_rejection_summary` -/
def authRejectionSummary (rejections : List (Rejection τ)) (now : τ) : RejectionSummary :=
  let recent := rejections.filter fun r => cutoff now ≤ r.time
  { last24h := recent.length
    since := iso (max (cutoff now) processStart)
    windowComplete := processStart ≤ cutoff now
    lastAt := recent.getLast?.map fun r => iso r.time
    byPath := mostCommon 5 (recent.map Rejection.path)
    saturated := BoundedQueue.full Rejection.time rejectionsMax (cutoff now) rejections }

/-- `fast_failure_summary` -/
def fastFailureSummary (failures : List (FastFailure τ)) (now : τ) : FailureSummary :=
  let recent := failures.filter fun r => cutoff now ≤ r.time
  { timeouts24h := recent.countP FastFailure.timeout
    failures24h := recent.length
    byTool := mostCommon 5 (recent.map FastFailure.tool)
    lastAt := recent.getLast?.map fun r => iso r.time
    since := iso (max (cutoff now) processStart)
    saturated := BoundedQueue.full FastFailure.time fastFailuresMax (cutoff now) failures }

end summaries

/-! ### Runs of events -/

/-- A rejected request: its time and its path. -/
abbrev RejectionEvent (τ : Type*) := τ × List Char

/-- A failure of a fast path: its time, the tool and the exception. -/
abbrev FailureEvent (τ : Type*) := τ × List Char × Exc

/-- `_REJECTIONS` after the events, beginning with the empty one. -/
def rejectionsAfter (events : List (RejectionEvent τ)) : List (Rejection τ) :=
  events.foldl (fun rejections e => recordRejection rejections e.2 e.1) []

/-- `_FAST_FAILURES` after the events, beginning with the empty one. -/
def failuresAfter (events : List (FailureEvent τ)) : List (FastFailure τ) :=
  events.foldl (fun failures e => recordFastFailure failures e.2.1 e.2.2 e.1) []

/-- What an event leaves in the deque while it is there. -/
def RejectionEvent.entry (e : RejectionEvent τ) : Rejection τ := ⟨e.1, e.2.take pathMax⟩

def FailureEvent.entry (e : FailureEvent τ) : FastFailure τ :=
  ⟨e.1, e.2.1.take pathMax, isStatementTimeout e.2.2⟩

lemma rejectionsAfter_eq (events : List (RejectionEvent τ)) :
    rejectionsAfter events =
      BoundedQueue.appendAll rejectionsMax (events.map RejectionEvent.entry) := by
  rw [BoundedQueue.appendAll, List.foldl_map]
  rfl

lemma failuresAfter_eq (events : List (FailureEvent τ)) :
    failuresAfter events =
      BoundedQueue.appendAll fastFailuresMax (events.map FailureEvent.entry) := by
  rw [BoundedQueue.appendAll, List.foldl_map]
  rfl

section window

variable [LinearOrder τ] [Sub τ] [NatCast τ]

/-- The time is in the last 24 hours. -/
def Within (now t : τ) : Prop := cutoff now ≤ t ∧ t ≤ now

instance (now t : τ) : Decidable (Within now t) := inferInstanceAs (Decidable (_ ∧ _))

/-- The times do not decrease, and none is after the query. -/
structure InOrder (now : τ) (times : List τ) : Prop where
  sorted : times.Pairwise (· ≤ ·)
  le_now : ∀ t ∈ times, t ≤ now

/-- The reported are the most common of the texts with their counts, the most common first, and all
of them if there are not more than `n`. -/
structure IsMostCommon (n : ℕ) (texts : List (List Char)) (reported : List (List Char × ℕ)) :
    Prop where
  nodup : (reported.map Prod.fst).Nodup
  sorted : reported.Pairwise fun c c' => c'.2 ≤ c.2
  count : ∀ c ∈ reported, c.1 ∈ texts ∧ c.2 = texts.count c.1
  length_le : reported.length ≤ n
  most : ∀ text ∈ texts, (∀ c ∈ reported, c.1 ≠ text) →
    reported.length = n ∧ ∀ c ∈ reported, texts.count text ≤ c.2

/-- The summary has the counts of the rejected requests. -/
structure RejectionSummary.Counts (s : RejectionSummary) (events : List (RejectionEvent τ)) :
    Prop where
  last24h : s.last24h = events.length
  byPath : IsMostCommon 5 (events.map fun e => e.2.take pathMax) s.byPath

/-- The summary has the counts of the failures. -/
structure FailureSummary.Counts (s : FailureSummary) (events : List (FailureEvent τ)) : Prop where
  failures24h : s.failures24h = events.length
  timeouts24h : s.timeouts24h = events.countP fun e => isStatementTimeout e.2.2
  byTool : IsMostCommon 5 (events.map fun e => e.2.1.take pathMax) s.byTool

/-- No count of the summary is above that of the rejected requests. -/
structure RejectionSummary.AtMost (s : RejectionSummary) (events : List (RejectionEvent τ)) :
    Prop where
  last24h : s.last24h ≤ events.length
  byPath : ∀ c ∈ s.byPath, c.2 ≤ events.countP fun e => e.2.take pathMax == c.1

/-- No count of the summary is above that of the failures. -/
structure FailureSummary.AtMost (s : FailureSummary) (events : List (FailureEvent τ)) : Prop where
  failures24h : s.failures24h ≤ events.length
  timeouts24h : s.timeouts24h ≤ events.countP fun e => isStatementTimeout e.2.2
  byTool : ∀ c ∈ s.byTool, c.2 ≤ events.countP fun e => e.2.1.take pathMax == c.1

lemma nodup_eraseDups {α : Type*} [BEq α] [LawfulBEq α] (xs : List α) : xs.eraseDups.Nodup := by
  induction h : xs.length using Nat.strong_induction_on generalizing xs with
  | _ n ih =>
      rcases xs with _ | ⟨x, xs⟩
      · simp
      · rw [List.eraseDups_cons, List.nodup_cons]
        refine ⟨by simp [List.mem_eraseDups], ih _ ?_ _ rfl⟩
        rw [← h, List.length_cons]
        exact Nat.lt_succ_of_le (List.length_filter_le _ _)

/-- A counter reports the most common texts. -/
lemma isMostCommon_mostCommon (n : ℕ) (texts : List (List Char)) :
    IsMostCommon n texts (mostCommon n texts) := by
  let counts := texts.eraseDups.map fun text => (text, texts.count text)
  have hcounts : ∀ {c : List Char × ℕ}, c ∈ counts → c.1 ∈ texts ∧ c.2 = texts.count c.1 := by
    intro c hc
    obtain ⟨text, htext, rfl⟩ := List.mem_map.1 hc
    exact ⟨List.mem_eraseDups.1 htext, rfl⟩
  have hmem : ∀ {c : List Char × ℕ}, c ∈ mostCommon n texts → c ∈ counts := fun hc =>
    TopCut.mem_ranked.1 (List.mem_of_mem_take hc)
  have hsublist := List.take_sublist n (TopCut.ranked Prod.snd counts)
  refine ⟨?_, (TopCut.ranked_pairwise _ _).sublist hsublist, fun c hc => hcounts (hmem hc),
    List.length_take_le _ _, fun text htext hcut => ?_⟩
  · have hkeys : (counts.map Prod.fst).Nodup := by
      rw [List.map_map]
      exact (List.map_id texts.eraseDups).symm ▸ nodup_eraseDups texts
    have hranked := ((TopCut.ranked_perm Prod.snd counts).map Prod.fst).symm.nodup hkeys
    exact hranked.sublist (hsublist.map _)
  · -- a text that is not reported is cut off with its count
    have hin : (text, texts.count text) ∈ counts :=
      List.mem_map_of_mem (List.mem_eraseDups.2 htext)
    exact TopCut.le_of_notMem_take (f := Prod.snd) hin fun hno => hcut _ hno rfl

/-- What a summary sees of the events, when each leaves an entry. -/
lemma recent_of_events {ε α : Type*} (entry : ε → α) (time : α → τ) {maxlen : ℕ}
    (hpos : 0 < maxlen) {events : List ε} {now : τ}
    (h : InOrder now (events.map fun e => time (entry e))) :
    let queue := BoundedQueue.appendAll maxlen (events.map entry)
    let recent := queue.filter fun x => cutoff now ≤ time x
    let truth := (events.filter fun e => Within now (time (entry e))).map entry
    (BoundedQueue.full time maxlen (cutoff now) queue = false → recent = truth) ∧
      (BoundedQueue.full time maxlen (cutoff now) queue = true →
        recent = (events.drop (events.length - maxlen)).map entry) ∧
      recent.Sublist truth ∧
      ∀ e ∈ BoundedQueue.dropped maxlen events, Within now (time (entry e)) →
        BoundedQueue.full time maxlen (cutoff now) queue = true := by
  intro queue recent truth
  have hsorted : (events.map entry).Pairwise fun x y => time x ≤ time y := by
    rw [List.pairwise_map]
    exact List.pairwise_map.1 h.sorted
  have htruth : (events.map entry).filter (fun x => cutoff now ≤ time x) = truth := by
    rw [List.filter_map]
    refine congrArg (List.map entry) (List.filter_congr fun e he => ?_)
    have hle : time (entry e) ≤ now :=
      h.le_now _ (List.mem_map_of_mem (f := fun e => time (entry e)) he)
    simp [Within, hle]
  refine ⟨fun hfull => ?_, fun hfull => ?_, ?_, fun e he hwithin => ?_⟩
  · rw [← htruth]
    exact BoundedQueue.filter_eq_of_not_full hpos hsorted hfull
  · have hnewest := BoundedQueue.filter_eq_of_full hsorted hfull
    rwa [List.length_map, ← List.map_drop] at hnewest
  · rw [← htruth]
    exact BoundedQueue.filter_sublist _
  · refine BoundedQueue.full_of_dropped hpos hsorted (x := entry e) ?_ hwithin.1
    rw [BoundedQueue.dropped, List.length_map, ← List.map_take]
    exact List.mem_map_of_mem he

variable (iso : τ → List Char) (processStart : τ)

/-- A summary has the counts of the events whose entries it takes. -/
lemma rejections_counts {queue : List (Rejection τ)} {events : List (RejectionEvent τ)} {now : τ}
    (h : queue.filter (fun x => cutoff now ≤ x.time) = events.map RejectionEvent.entry) :
    (authRejectionSummary iso processStart queue now).Counts events where
  last24h := by
    rw [authRejectionSummary, h]
    exact List.length_map _
  byPath := by
    have hmost := isMostCommon_mostCommon 5 (events.map fun e => e.2.take pathMax)
    rw [authRejectionSummary, h]
    dsimp only
    rwa [List.map_map]

lemma failures_counts {queue : List (FastFailure τ)} {events : List (FailureEvent τ)} {now : τ}
    (h : queue.filter (fun x => cutoff now ≤ x.time) = events.map FailureEvent.entry) :
    (fastFailureSummary iso processStart queue now).Counts events where
  failures24h := by
    rw [fastFailureSummary, h]
    exact List.length_map _
  timeouts24h := by
    rw [fastFailureSummary, h]
    exact List.countP_map
  byTool := by
    have hmost := isMostCommon_mostCommon 5 (events.map fun e => e.2.1.take pathMax)
    rw [fastFailureSummary, h]
    dsimp only
    rwa [List.map_map]

lemma rejections_atMost {queue : List (Rejection τ)} {events : List (RejectionEvent τ)} {now : τ}
    (h : (queue.filter fun x => cutoff now ≤ x.time).Sublist
      (events.map RejectionEvent.entry)) :
    (authRejectionSummary iso processStart queue now).AtMost events where
  last24h := by
    have hle := h.length_le
    rwa [List.length_map] at hle
  byPath c hc := by
    have hle := h.countP_le (p := fun x => x.path == c.1)
    rw [List.countP_map] at hle
    rw [((isMostCommon_mostCommon 5 _).count c hc).2, List.count_eq_countP, List.countP_map]
    exact hle

lemma failures_atMost {queue : List (FastFailure τ)} {events : List (FailureEvent τ)} {now : τ}
    (h : (queue.filter fun x => cutoff now ≤ x.time).Sublist (events.map FailureEvent.entry)) :
    (fastFailureSummary iso processStart queue now).AtMost events where
  failures24h := by
    have hle := h.length_le
    rwa [List.length_map] at hle
  timeouts24h := by
    have hle := h.countP_le (p := FastFailure.timeout)
    rwa [List.countP_map] at hle
  byTool c hc := by
    have hle := h.countP_le (p := fun x => x.tool == c.1)
    rw [List.countP_map] at hle
    rw [((isMostCommon_mostCommon 5 _).count c hc).2, List.count_eq_countP, List.countP_map]
    exact hle

/-- **Rolling counts.**  For all events in order, a summary that is not saturated has the counts of
all the events of the last 24 hours, also by path and by tool; a saturated one has those of the
newest events, which are lower bounds; and a summary is saturated if an event of the last 24 hours
was dropped. -/
theorem rolling_counts {rejections : List (RejectionEvent τ)} {failures : List (FailureEvent τ)}
    {now : τ} (hrejections : InOrder now (rejections.map Prod.fst))
    (hfailures : InOrder now (failures.map Prod.fst)) :
    let summary := authRejectionSummary iso processStart (rejectionsAfter rejections) now
    let rejected := rejections.filter fun e => Within now e.1
    let failureSummary := fastFailureSummary iso processStart (failuresAfter failures) now
    let failed := failures.filter fun e => Within now e.1
    (summary.saturated = false → summary.Counts rejected) ∧
      (summary.saturated = true → summary.AtMost rejected ∧
        summary.Counts (rejections.drop (rejections.length - rejectionsMax))) ∧
      ((∃ e ∈ BoundedQueue.dropped rejectionsMax rejections, Within now e.1) →
        summary.saturated = true) ∧
      (failureSummary.saturated = false → failureSummary.Counts failed) ∧
      (failureSummary.saturated = true → failureSummary.AtMost failed ∧
        failureSummary.Counts (failures.drop (failures.length - fastFailuresMax))) ∧
      ((∃ e ∈ BoundedQueue.dropped fastFailuresMax failures, Within now e.1) →
        failureSummary.saturated = true) := by
  have hpos : 0 < rejectionsMax := by decide
  have hpos' : 0 < fastFailuresMax := by decide
  obtain ⟨hall, hnewest, hsub, hdropped⟩ := recent_of_events RejectionEvent.entry Rejection.time
    hpos hrejections
  obtain ⟨hall', hnewest', hsub', hdropped'⟩ := recent_of_events FailureEvent.entry
    FastFailure.time hpos' hfailures
  rw [rejectionsAfter_eq, failuresAfter_eq]
  refine ⟨fun hfull => ?_, fun hfull => ⟨?_, ?_⟩, ?_, fun hfull => ?_, fun hfull => ⟨?_, ?_⟩, ?_⟩
  · exact rejections_counts iso processStart (hall hfull)
  · exact rejections_atMost iso processStart hsub
  · exact rejections_counts iso processStart (hnewest hfull)
  · rintro ⟨e, he, hwithin⟩
    exact hdropped e he hwithin
  · exact failures_counts iso processStart (hall' hfull)
  · exact failures_atMost iso processStart hsub'
  · exact failures_counts iso processStart (hnewest' hfull)
  · rintro ⟨e, he, hwithin⟩
    exact hdropped' e he hwithin

end window

/-- A rejected request of the day before, and more of them than there is room for. -/
def flood : List (RejectionEvent ℤ) :=
  (0, "/old".toList) :: List.replicate (rejectionsMax + 1) (100000, "/mine".toList)

/-- A failure of the day before, and a timeout. -/
def oneTimeout : List (FailureEvent ℤ) :=
  [(0, "mempalace_status".toList, ⟨"OSError".toList, []⟩),
    (99999, "mempalace_kg_stats".toList, ⟨"QueryCanceled".toList, []⟩)]

lemma inOrder_flood : InOrder 100000 (flood.map Prod.fst) where
  sorted := by
    rw [flood, List.map_cons, List.map_replicate, List.pairwise_cons]
    exact ⟨fun t ht => by rw [List.eq_of_mem_replicate ht]; decide,
      List.pairwise_replicate.2 (.inr le_rfl)⟩
  le_now t ht := by
    rw [flood, List.map_cons, List.map_replicate, List.mem_cons] at ht
    rcases ht with rfl | ht
    · decide
    · rw [List.eq_of_mem_replicate ht]

/-- The flood is counted as far as there is room, and the failure of the day before is not. -/
theorem rolling_counts_flood :
    let summary := authRejectionSummary (fun _ => []) 0 (rejectionsAfter flood) 100000
    let failureSummary := fastFailureSummary (fun _ => []) 0 (failuresAfter oneTimeout) 100000
    summary.saturated = true ∧ summary.last24h = rejectionsMax ∧
      failureSummary.saturated = false ∧ failureSummary.failures24h = 1 ∧
      failureSummary.timeouts24h = 1 := by
  intro summary failureSummary
  have hfailures : InOrder 100000 (oneTimeout.map Prod.fst) := ⟨by decide, by decide⟩
  obtain ⟨-, hnewest, hdropped, hall, -⟩ :=
    rolling_counts (fun _ => []) 0 inOrder_flood hfailures
  have hlength : flood.length = rejectionsMax + 2 := by
    rw [flood, List.length_cons, List.length_replicate]
  have htwo : rejectionsMax + 2 - rejectionsMax = 2 := Nat.add_sub_cancel_left _ _
  have hsaturated : summary.saturated = true := by
    refine hdropped ⟨(100000, "/mine".toList), ?_, by decide⟩
    rw [BoundedQueue.dropped, hlength, htwo, flood, List.replicate_succ]
    exact List.mem_cons_of_mem _ List.mem_cons_self
  have hcounts := (hnewest hsaturated).2.last24h
  rw [List.length_drop, hlength] at hcounts
  have hroom : failureSummary.saturated = false := by decide +kernel
  refine ⟨hsaturated, by rw [hcounts]; omega, hroom, ?_, ?_⟩
  · rw [(hall hroom).failures24h]
    decide
  · rw [(hall hroom).timeouts24h]
    decide

end PalaceDaemon.Status

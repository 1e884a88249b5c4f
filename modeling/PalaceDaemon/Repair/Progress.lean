/-
The progress of a rebuild, as it is read off what the rebuild prints.

`RebuildProgressBuffer` takes what is printed in chunks and handles a line when its end has come.
`chunks_irrelevant` says that the chunks make no difference, for any clock that gives the reading of
each line, as long as no line raises.  A line raises if its numbers are too long for `int` or too
large for a float: then the buffer still holds the lines after it, and the closing flush takes them
for one line (`chunks_irrelevant_fails`).

The arithmetic of floats is that of `FloatOps`; what is shown holds for any.
-/
import PalaceDaemon.Lib.LineBuffer
import PalaceDaemon.Lib.PyFloat
import PalaceDaemon.Repair.Handler

namespace PalaceDaemon.RebuildProgress

open PyText LineBuffer

abbrev Text := List Char

/-! ### The numbers of a line -/

/-- `(\d+)` in front of a text, and what follows. -/
def digitsAt (cs : Text) : Option (Text × Text) :=
  if cs.takeWhile isDecimal = [] then none
  else some (cs.takeWhile isDecimal, cs.dropWhile isDecimal)

/-- A word and `\s+(\d+)` in front of a text, and what follows. -/
def numberAt (word cs : Text) : Option (Text × Text) :=
  if word <+: cs ∧ (cs.drop word.length).head?.any isSpace then
    digitsAt ((cs.drop word.length).dropWhile isSpace)
  else none

/-- A word and `\s+(\d+)/(\d+)` in front of a text. -/
def fractionAt (word cs : Text) : Option (Text × Text) :=
  match numberAt word cs with
  | some (completed, '/' :: rest) => (digitsAt rest).map fun expected => (completed, expected.1)
  | _ => none

/-- The first place in a text where a pattern matches. -/
def search {α : Type*} (here : Text → Option α) : Text → Option α
  | [] => here []
  | c :: cs => match here (c :: cs) with
    | some found => some found
    | none => search here cs

/-- `REBUILD_RE_STAGED` -/
def rebuildReStaged : Text → Option (Text × Text) := search (fractionAt "Staged".toList)

/-- `REBUILD_RE_REFILED` -/
def rebuildReRefiled : Text → Option (Text × Text) := search (fractionAt "Re-filed".toList)

/-- `REBUILD_RE_FOUND` -/
def rebuildReFound : Text → Option (Text × Text) := search (numberAt "Drawers found:".toList)

/-- `int` of digits; `none` stands for `ValueError`. -/
def intOf (digits : Text) : Option ℕ :=
  if digits.length ≤ maxStrDigits then
    some (digits.foldl (fun n c => n * 10 + digitValue c) 0)
  else none

/-! ### The state -/

/-- The arithmetic of Python's floats, as far as it is used. -/
structure FloatOps (F : Type*) where
  zero : F
  sub : F → F → F
  /-- `x > 0` -/
  positive : F → Bool
  /-- `n / x` for an integer; `none` stands for `OverflowError`. -/
  div : ℕ → F → Option F
  round : F → ℕ → F

/-- The dictionary of `make_rebuild_progress_state` -/
structure Progress (F : Type*) where
  phase : RebuildPhase
  completed : ℕ
  expected : ℕ
  ratePerSec : F
  etaSeconds : Option F
  elapsedSeconds : F
  lastMessage : Text
  startedAtMonotonic : F
deriving DecidableEq

variable {F : Type*} (ops : FloatOps F)

/-- `make_rebuild_progress_state` -/
def makeRebuildProgressState (now : F) : Progress F where
  phase := .starting
  completed := 0
  expected := 0
  ratePerSec := ops.zero
  etaSeconds := none
  elapsedSeconds := ops.zero
  lastMessage := []
  startedAtMonotonic := now

/-- The elapsed time, the rate and the time that is left, if none of the divisions raises. -/
def rates (now startedAt : F) (phase : RebuildPhase) (completed expected : ℕ) :
    Option (F × F × Option F) :=
  let elapsed := ops.sub now startedAt
  (if ops.positive elapsed then ops.div completed elapsed else some ops.zero).bind fun rate =>
    let remaining := expected - completed
    let workRemaining := if phase = .stage then remaining + expected else remaining
    (if ops.positive rate then (ops.div workRemaining rate).map some else some none).map fun eta =>
      (elapsed, rate, eta)

/-- `_update_phase`, if it does not raise; a call that raises leaves the state alone. -/
def updatePhase (now : F) (s : Progress F) (phase : RebuildPhase) (completed expected : ℕ) :
    Option (Progress F) :=
  (rates ops now s.startedAtMonotonic phase completed expected).map fun (elapsed, rate, eta) =>
    { s with
      phase := phase
      completed := completed
      expected := expected
      elapsedSeconds := ops.round elapsed 1
      ratePerSec := ops.round rate 2
      etaSeconds := eta.map fun x => ops.round x 0 }

/-- The part of `_handle_line` behind the first assignment, if it does not raise. -/
def parseLine (now : F) (s : Progress F) (line : Text) : Option (Progress F) :=
  match rebuildReStaged line with
  | some (completed, expected) => (intOf completed).bind fun c => (intOf expected).bind fun e =>
      updatePhase ops now s .stage c e
  | none => match rebuildReRefiled line with
    | some (completed, expected) => (intOf completed).bind fun c => (intOf expected).bind fun e =>
        updatePhase ops now s .refile c e
    | none => match rebuildReFound line with
      | some (expected, _) => (intOf expected).map fun e =>
          { s with expected := e, phase := .extracting }
      | none => some s

/-- `_handle_line`: the state, and whether it raises. -/
def handleLine (now : F) (s : Progress F) (line : Text) : Progress F × Bool :=
  if strip line = [] then (s, false)
  else match parseLine ops now { s with lastMessage := strip line } (strip line) with
    | some s' => (s', false)
    | none => ({ s with lastMessage := strip line }, true)

/-- The state, the number of the lines so far, and those of them that are not empty. -/
structure Sink (F : Type*) where
  progress : Progress F
  lines : ℕ
  handled : List Text

/-- `_handle_line`, with the reading of the clock for the line. -/
def Sink.handle (clock : ℕ → F) (k : Sink F) (line : Text) : Sink F × Bool :=
  (⟨(handleLine ops (clock k.lines) k.progress line).1, k.lines + 1,
      k.handled ++ [strip line].filter (· ≠ [])⟩,
    (handleLine ops (clock k.lines) k.progress line).2)

/-- `capture_rebuild_progress`: the calls of the rebuild, until one raises, and the last flush. -/
def captureRebuildProgress (clock : ℕ → F) (s : Progress F) (calls : List (Call Char)) :
    Buffer Char (Sink F) :=
  capture '\n' (Sink.handle ops clock) ⟨s, 0, []⟩ calls

/-- The line raises at this reading of the clock. -/
def raises (now startedAt : F) (line : Text) : Bool :=
  (handleLine ops now (makeRebuildProgressState ops startedAt) line).2

/-! ### Lines that do not raise -/

lemma isSome_updatePhase {now : F} {s s' : Progress F}
    (h : s.startedAtMonotonic = s'.startedAtMonotonic) (phase : RebuildPhase) (c e : ℕ) :
    (updatePhase ops now s phase c e).isSome = (updatePhase ops now s' phase c e).isSome := by
  rw [updatePhase, updatePhase, Option.isSome_map, Option.isSome_map, h]

/-- Whether a line raises is decided by the clock and the time of the start. -/
lemma isSome_parseLine {now : F} {s s' : Progress F}
    (h : s.startedAtMonotonic = s'.startedAtMonotonic) (line : Text) :
    (parseLine ops now s line).isSome = (parseLine ops now s' line).isSome := by
  have hupdate : ∀ phase completed expected,
      ((intOf completed).bind fun c => (intOf expected).bind fun e =>
        updatePhase ops now s phase c e).isSome =
      ((intOf completed).bind fun c => (intOf expected).bind fun e =>
        updatePhase ops now s' phase c e).isSome := by
    intro phase completed expected
    rcases intOf completed with _ | c
    · rfl
    · rcases intOf expected with _ | e
      · rfl
      · exact isSome_updatePhase ops h phase c e
  rw [parseLine, parseLine]
  rcases rebuildReStaged line with _ | ⟨completed, expected⟩
  · rcases rebuildReRefiled line with _ | ⟨completed, expected⟩
    · rcases rebuildReFound line with _ | ⟨expected, rest⟩
      · rfl
      · dsimp only
        rw [Option.isSome_map, Option.isSome_map]
    · exact hupdate .refile completed expected
  · exact hupdate .stage completed expected

/-- The time of the start stays. -/
lemma startedAt_parseLine {now : F} {s s' : Progress F} {line : Text}
    (h : parseLine ops now s line = some s') :
    s'.startedAtMonotonic = s.startedAtMonotonic := by
  have hupdate : ∀ {phase completed expected},
      ((intOf completed).bind fun c => (intOf expected).bind fun e =>
        updatePhase ops now s phase c e) = some s' →
      s'.startedAtMonotonic = s.startedAtMonotonic := by
    intro phase completed expected hsome
    obtain ⟨c, -, hsome⟩ := Option.bind_eq_some_iff.1 hsome
    obtain ⟨e, -, hsome⟩ := Option.bind_eq_some_iff.1 hsome
    obtain ⟨_, -, rfl⟩ := Option.map_eq_some_iff.1 hsome
    rfl
  rw [parseLine] at h
  rcases hstaged : rebuildReStaged line with _ | ⟨completed, expected⟩
  · rw [hstaged] at h
    rcases hrefiled : rebuildReRefiled line with _ | ⟨completed, expected⟩
    · rw [hrefiled] at h
      rcases hfound : rebuildReFound line with _ | ⟨expected, rest⟩
      · rw [hfound] at h
        obtain rfl := Option.some.inj h
        rfl
      · rw [hfound] at h
        obtain ⟨_, -, rfl⟩ := Option.map_eq_some_iff.1 h
        rfl
    · rw [hrefiled] at h
      exact hupdate h
  · rw [hstaged] at h
    exact hupdate h

lemma handleLine_spec (now : F) (s : Progress F) (line : Text) :
    (handleLine ops now s line).2 = raises ops now s.startedAtMonotonic line ∧
      (handleLine ops now s line).1.startedAtMonotonic = s.startedAtMonotonic := by
  rw [raises, handleLine, handleLine]
  split_ifs with hempty
  · exact ⟨rfl, rfl⟩
  have hsome : (parseLine ops now { s with lastMessage := strip line } (strip line)).isSome =
      (parseLine ops now { makeRebuildProgressState ops s.startedAtMonotonic with
        lastMessage := strip line } (strip line)).isSome :=
    isSome_parseLine ops (by rfl) (strip line)
  rcases hparse : parseLine ops now { s with lastMessage := strip line } (strip line) with _ | s'
  · rw [hparse] at hsome
    rw [Option.not_isSome_iff_eq_none.1 (Bool.eq_false_iff.1 hsome.symm)]
    exact ⟨rfl, rfl⟩
  · rw [hparse] at hsome
    obtain ⟨t, ht⟩ := Option.isSome_iff_exists.1 hsome.symm
    have hstarted := startedAt_parseLine ops hparse
    rw [ht]
    exact ⟨rfl, hstarted⟩

/-- Lines that do not raise are handled one after the other. -/
lemma feed_lines {clock : ℕ → F} {lines : List Text} (k : Sink F)
    (h : ∀ i line, lines[i]? = some line →
      raises ops (clock (k.lines + i)) k.progress.startedAtMonotonic line = false) :
    ∃ s, feed (Sink.handle ops clock) k lines = some s ∧
      s.handled = k.handled ++ (lines.map strip).filter (· ≠ []) := by
  induction lines generalizing k with
  | nil => exact ⟨k, rfl, (List.append_nil _).symm⟩
  | cons line lines ih =>
      obtain ⟨hraises, hstarted⟩ := handleLine_spec ops (clock k.lines) k.progress line
      have hline : (Sink.handle ops clock k line).2 = false := hraises.trans (h 0 line rfl)
      have hlater : ∀ i l, lines[i]? = some l → raises ops
          (clock ((Sink.handle ops clock k line).1.lines + i))
          (Sink.handle ops clock k line).1.progress.startedAtMonotonic l = false := by
        intro i l hl
        have hnext := h (i + 1) l hl
        rw [← hstarted, Nat.add_comm i, ← Nat.add_assoc] at hnext
        exact hnext
      obtain ⟨s, hfeed, hhandled⟩ := ih _ hlater
      refine ⟨s, ?_, ?_⟩
      · rw [feed, show Sink.handle ops clock k line = ((Sink.handle ops clock k line).1, false) from
          Prod.ext rfl hline]
        exact hfeed
      · rw [hhandled, List.map_cons, ← List.singleton_append, List.filter_append,
          ← List.append_assoc]
        rfl

/-- The lines that are not empty are among the pieces of the text. -/
lemma strip_linesOf (text : Text) : ((linesOf '\n' text).map strip).filter (· ≠ []) =
    ((text.splitOn '\n').map strip).filter (· ≠ []) := by
  rw [splitOn_eq, linesOf]
  split_ifs with h
  · rw [h, List.append_nil, List.map_append, List.filter_append]
    exact (List.append_nil _).symm
  · rfl

/-- **Chunks.**  If no line raises, the calls give what one call with the whole text gives, and
each line that is not empty is handled once and in order. -/
theorem chunks_irrelevant (clock : ℕ → F) (s : Progress F) (calls : List (Call Char))
    (hflush : FlushesAtEnds '\n' [] calls)
    (hraises : ∀ (i : ℕ) line, (linesOf '\n' (written calls))[i]? = some line →
      raises ops (clock i) s.startedAtMonotonic line = false) :
    captureRebuildProgress ops clock s calls =
        captureRebuildProgress ops clock s [.write (written calls)] ∧
      (captureRebuildProgress ops clock s calls).raised = false ∧
      (captureRebuildProgress ops clock s calls).state.handled =
        (((written calls).splitOn '\n').map strip).filter (· ≠ []) := by
  have hlines : ∀ (i : ℕ) line, (linesOf '\n' (written calls))[i]? = some line →
      raises ops (clock (0 + i)) s.startedAtMonotonic line = false := by
    intro i line hline
    rw [Nat.zero_add]
    exact hraises i line hline
  obtain ⟨k, hfeed, hhandled⟩ := feed_lines ops ⟨s, 0, []⟩ hlines
  have hcalls : captureRebuildProgress ops clock s calls = ⟨[], k, false⟩ :=
    capture_eq hflush hfeed
  have hwhole : captureRebuildProgress ops clock s [.write (written calls)] = ⟨[], k, false⟩ := by
    refine capture_eq trivial ?_
    rw [written, written, List.append_nil]
    exact hfeed
  rw [hcalls, hwhole]
  refine ⟨rfl, rfl, ?_⟩
  rw [hhandled, List.nil_append, strip_linesOf]

/-! ### Numbers that are too large -/

/-- A number to the nearest integer, and to the even one between two. -/
def nearest (q : ℚ) : ℤ :=
  if q - q.floor < 1 / 2 then q.floor
  else if 1 / 2 < q - q.floor then q.floor + 1
  else if q.floor % 2 = 0 then q.floor else q.floor + 1

/-- The arithmetic of floats, without what rounding does to the last place. -/
def pyFloatOps : FloatOps PyFloat where
  zero := .finite 0
  sub := PyFloat.sub
  positive := PyFloat.lt (.finite 0)
  div n
    | .finite x => if PyFloat.limit ≤ n then none else some (PyFloat.ofRat (n / x))
    | .nan => if PyFloat.limit ≤ n then none else some .nan
    | _ => if PyFloat.limit ≤ n then none else some (.finite 0)
  round
    | .finite x, digits => .finite (nearest (x * 10 ^ digits) / 10 ^ digits)
    | x, _ => x

/-- Two lines in three chunks. -/
def stagedCalls : List (Call Char) :=
  [.write "Staged 1/".toList, .write "2\nfo".toList, .write "o".toList]

theorem chunks_irrelevant_staged :
    (captureRebuildProgress pyFloatOps (fun _ => .finite 2)
        (makeRebuildProgressState pyFloatOps (.finite 0)) stagedCalls).state.handled =
      ["Staged 1/2".toList, "foo".toList] := by
  have hlines : linesOf '\n' (written stagedCalls) = ["Staged 1/2".toList, "foo".toList] := by
    decide +kernel
  have hraises : ∀ (i : ℕ) line, (linesOf '\n' (written stagedCalls))[i]? = some line →
      raises pyFloatOps (.finite 2) (.finite 0) line = false := by
    intro i line hline
    rw [hlines] at hline
    rcases List.mem_pair.1 (List.mem_of_getElem? hline) with rfl | rfl <;> decide +kernel
  have hhandled := (chunks_irrelevant pyFloatOps (fun _ => .finite 2)
    (makeRebuildProgressState pyFloatOps (.finite 0)) stagedCalls ⟨⟩ hraises).2.2
  rw [hhandled]
  decide +kernel

/-- A line with the number 10 ^ 309. -/
def largeLine : Text := "Staged 1".toList ++ List.replicate 309 '0' ++ "/1\n".toList

theorem chunks_irrelevant_fails : ¬∀ (clock : ℕ → PyFloat) (s : Progress PyFloat)
    (calls : List (Call Char)), FlushesAtEnds '\n' [] calls →
    (captureRebuildProgress pyFloatOps clock s calls).state.progress =
      (captureRebuildProgress pyFloatOps clock s [.write (written calls)]).state.progress := by
  intro h
  have hcalls := congrArg Progress.lastMessage (h (fun _ => .finite 1)
    (makeRebuildProgressState pyFloatOps (.finite 0))
    [.write largeLine, .write "foo\n".toList, .write "bar\n".toList] ⟨⟩)
  exact absurd hcalls (by decide +kernel)

end PalaceDaemon.RebuildProgress

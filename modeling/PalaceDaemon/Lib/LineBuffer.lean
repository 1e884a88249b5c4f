/-
Reading lines from a text that comes in chunks.

A buffer keeps what has come after the last separator, and hands on each line when its separator
comes.  A handler may raise: the lines behind the one that did are still in the buffer, nothing more
is written, and what is in the buffer at the end is handed on as one line.  `capture_eq` says that
if no line raises, the chunks make no difference: the handler is given the lines of the whole text
(`linesOf`), one after the other.
-/
import Mathlib.Tactic.Common

namespace LineBuffer

variable {γ σ : Type*} [DecidableEq γ] (sep : γ)

/-! ### Lines -/

/-- The lines of a text that have their separator, and what stands behind the last of them. -/
def cut : List γ → List (List γ) × List γ
  | [] => ([], [])
  | c :: cs =>
      if c = sep then ([] :: (cut cs).1, (cut cs).2)
      else match cut cs with
        | ([], rest) => ([], c :: rest)
        | (line :: lines, rest) => ((c :: line) :: lines, rest)

/-- The lines of a text, with the last one if it is not empty. -/
def linesOf (text : List γ) : List (List γ) :=
  (cut sep text).1 ++ if (cut sep text).2 = [] then [] else [(cut sep text).2]

variable {sep}

lemma cut_of_notMem {text : List γ} (h : sep ∉ text) : cut sep text = ([], text) := by
  induction text with
  | nil => rfl
  | cons c cs ih =>
      rw [List.mem_cons, not_or] at h
      rw [cut, if_neg (Ne.symm h.1), ih h.2]

lemma cut_line {line : List γ} (h : sep ∉ line) (rest : List γ) :
    cut sep (line ++ sep :: rest) = (line :: (cut sep rest).1, (cut sep rest).2) := by
  induction line with
  | nil => rw [List.nil_append, cut, if_pos rfl]
  | cons c line ih =>
      rw [List.mem_cons, not_or] at h
      rw [List.cons_append, cut, if_neg (Ne.symm h.1), ih h.2]

/-- A text begins with a line, or has no separator. -/
lemma exists_line {text : List γ} (h : sep ∈ text) : ∃ line rest, sep ∉ line ∧
    text = line ++ sep :: rest ∧ text.takeWhile (· ≠ sep) = line ∧
      (text.dropWhile (· ≠ sep)).tail = rest := by
  induction text with
  | nil => exact absurd h List.not_mem_nil
  | cons c cs ih =>
      by_cases hc : c = sep
      · subst hc
        exact ⟨[], cs, List.not_mem_nil, rfl, by simp, by simp⟩
      · obtain ⟨line, rest, hline, rfl, htake, hdrop⟩ :=
          ih ((List.mem_cons.1 h).resolve_left (Ne.symm hc))
        refine ⟨c :: line, rest, ?_, rfl, ?_, ?_⟩
        · rw [List.mem_cons, not_or]
          exact ⟨Ne.symm hc, hline⟩
        · rw [List.takeWhile_cons_of_pos (by simpa using hc), htake]
        · rw [List.dropWhile_cons_of_pos (by simpa using hc), hdrop]

variable (sep) in
/-- A text without the separator, or a line and what stands behind it. -/
@[elab_as_elim]
lemma line_induction {motive : List γ → Prop} (text : List γ)
    (last : ∀ text, sep ∉ text → motive text)
    (line : ∀ line rest, sep ∉ line → motive rest → motive (line ++ sep :: rest)) :
    motive text := by
  induction h : text.length using Nat.strongRecOn generalizing text with
  | ind n ih =>
      by_cases hsep : sep ∈ text
      · obtain ⟨front, rest, hfront, rfl, -, -⟩ := exists_line hsep
        refine line front rest hfront (ih rest.length ?_ rest rfl)
        rw [← h, List.length_append, List.length_cons]
        omega
      · exact last text hsep

/-- The lines of a text, when more of it comes. -/
lemma cut_append (text more : List γ) : cut sep (text ++ more) =
    ((cut sep text).1 ++ (cut sep ((cut sep text).2 ++ more)).1,
      (cut sep ((cut sep text).2 ++ more)).2) := by
  induction text using line_induction sep with
  | last text h => rw [cut_of_notMem h, List.nil_append]
  | line line rest h ih =>
      rw [List.append_assoc, List.cons_append, cut_line h, cut_line h, ih, List.cons_append]

lemma notMem_cut_snd (text : List γ) : sep ∉ (cut sep text).2 := by
  induction text using line_induction sep with
  | last text h => rwa [cut_of_notMem h]
  | line line rest h ih => rwa [cut_line h]

/-- Nothing is left behind a separator. -/
lemma cut_snd_of_ends {text : List γ} (h : ∀ c ∈ text.getLast?, c = sep) :
    (cut sep text).2 = [] := by
  rcases List.eq_nil_or_concat text with rfl | ⟨front, c, rfl⟩
  · rfl
  · obtain rfl : c = sep := h c (by simp)
    rw [List.concat_eq_append, cut_append, cut_line (notMem_cut_snd front)]
    rfl

lemma splitOn_eq (text : List γ) :
    text.splitOn sep = (cut sep text).1 ++ [(cut sep text).2] := by
  have hno : ∀ {line : List γ}, sep ∉ line → ∀ c ∈ line, (c == sep) = false :=
    fun h c hc => beq_false_of_ne (ne_of_mem_of_not_mem hc h)
  induction text using line_induction sep with
  | last text h =>
      rw [cut_of_notMem h]
      exact List.splitOnP_eq_singleton (hno h)
  | line line rest h ih =>
      rw [cut_line h, List.cons_append, ← ih]
      exact List.splitOnP_append_cons_of_forall_mem (hno h) sep (beq_self_eq_true sep) rest

/-! ### The buffer -/

/-- The buffer with the state of what handles the lines, and whether a line raised. -/
structure Buffer (γ σ : Type*) where
  buf : List γ
  state : σ
  raised : Bool

/-- A call of a method of the buffer. -/
inductive Call (γ : Type*)
  | write (chunk : List γ)
  | flush

/-- The text that the calls write. -/
def written : List (Call γ) → List γ
  | [] => []
  | .write chunk :: calls => chunk ++ written calls
  | .flush :: calls => written calls

variable (sep) in
/-- After the text, the calls flush only where a line has ended. -/
def FlushesAtEnds (text : List γ) : List (Call γ) → Prop
  | [] => True
  | .write chunk :: calls => FlushesAtEnds (text ++ chunk) calls
  | .flush :: calls => (∀ c ∈ text.getLast?, c = sep) ∧ FlushesAtEnds text calls

variable (sep) (handle : σ → List γ → σ × Bool)

/-- Takes at most `fuel` lines from the buffer, while there is a separator in it. -/
def drain : ℕ → σ → List γ → Buffer γ σ
  | 0, s, buf => ⟨buf, s, false⟩
  | fuel + 1, s, buf =>
      if sep ∈ buf then
        match handle s (buf.takeWhile (· ≠ sep)) with
        | (s', true) => ⟨(buf.dropWhile (· ≠ sep)).tail, s', true⟩
        | (s', false) => drain fuel s' (buf.dropWhile (· ≠ sep)).tail
      else ⟨buf, s, false⟩

def Buffer.write (b : Buffer γ σ) (chunk : List γ) : Buffer γ σ :=
  drain sep handle (b.buf ++ chunk).length b.state (b.buf ++ chunk)

def Buffer.flush (b : Buffer γ σ) : Buffer γ σ :=
  if b.buf = [] then b
  else match handle b.state b.buf with
    | (s, true) => ⟨b.buf, s, true⟩
    | (s, false) => ⟨[], s, false⟩

def Buffer.call (b : Buffer γ σ) : Call γ → Buffer γ σ
  | .write chunk => b.write sep handle chunk
  | .flush => b.flush handle

/-- The calls, one after the other, until one raises. -/
def Buffer.run (b : Buffer γ σ) : List (Call γ) → Buffer γ σ
  | [] => b
  | c :: calls => if (b.call sep handle c).raised then b.call sep handle c
      else (b.call sep handle c).run calls

/-- The calls on an empty buffer, and a last flush whether one of them raised or not. -/
def capture (s : σ) (calls : List (Call γ)) : Buffer γ σ :=
  let b := (Buffer.mk [] s false).run sep handle calls
  { b.flush handle with raised := b.raised || (b.flush handle).raised }

/-- The state after the lines are handled, if none of them raises. -/
def feed : σ → List (List γ) → Option σ
  | s, [] => some s
  | s, line :: lines => match handle s line with
    | (_, true) => none
    | (s', false) => feed s' lines

variable {sep handle}

omit [DecidableEq γ] in
lemma feed_append (s : σ) (xs ys : List (List γ)) :
    feed handle s (xs ++ ys) = (feed handle s xs).bind fun s' => feed handle s' ys := by
  induction xs generalizing s with
  | nil => rfl
  | cons x xs ih =>
      rw [List.cons_append, feed, feed]
      rcases handle s x with ⟨s', _ | _⟩
      · exact ih s'
      · rfl

omit [DecidableEq γ] in
lemma feed_cons {s s' : σ} {line : List γ} {lines : List (List γ)}
    (h : feed handle s (line :: lines) = some s') :
    ∃ t, handle s line = (t, false) ∧ feed handle t lines = some s' := by
  rw [feed] at h
  rcases hline : handle s line with ⟨t, _ | _⟩
  · rw [hline] at h
    exact ⟨t, rfl, h⟩
  · rw [hline] at h
    cases h

/-- The lines of the buffer are handled, and what is behind them is left. -/
lemma drain_eq {fuel : ℕ} {s s' : σ} {buf : List γ} (hfuel : buf.length ≤ fuel)
    (h : feed handle s (cut sep buf).1 = some s') :
    drain sep handle fuel s buf = ⟨(cut sep buf).2, s', false⟩ := by
  induction fuel generalizing s buf with
  | zero =>
      obtain rfl := List.length_eq_zero_iff.1 (Nat.le_zero.1 hfuel)
      obtain rfl := Option.some.inj h
      rfl
  | succ fuel ih =>
      rw [drain]
      split_ifs with hsep
      · obtain ⟨line, rest, hline, rfl, htake, hdrop⟩ := exists_line hsep
        rw [cut_line hline] at h ⊢
        obtain ⟨t, ht, hrest⟩ := feed_cons h
        rw [List.length_append, List.length_cons] at hfuel
        rw [htake, hdrop, ht]
        exact ih (by omega) hrest
      · rw [cut_of_notMem hsep] at h ⊢
        obtain rfl := Option.some.inj h
        rfl

/-- Calls that write the rest of a text, when its lines so far were handled. -/
lemma run_eq {calls : List (Call γ)} {text : List γ} {s s' : σ}
    (hflush : FlushesAtEnds sep text calls)
    (h : feed handle s (cut sep ((cut sep text).2 ++ written calls)).1 = some s') :
    (Buffer.mk (cut sep text).2 s false).run sep handle calls =
      ⟨(cut sep (text ++ written calls)).2, s', false⟩ := by
  induction calls generalizing text s with
  | nil =>
      rw [written, List.append_nil, cut_of_notMem (notMem_cut_snd text)] at h
      obtain rfl := Option.some.inj h
      rw [written, List.append_nil, Buffer.run]
  | cons c calls ih =>
      cases c with
      | write chunk =>
          rw [written, ← List.append_assoc, cut_append, feed_append] at h
          obtain ⟨t, hchunk, hrest⟩ := Option.bind_eq_some_iff.1 h
          have hcut : (cut sep (text ++ chunk)).2 = (cut sep ((cut sep text).2 ++ chunk)).2 := by
            rw [cut_append]
          have hcall : (Buffer.mk (cut sep text).2 s false).call sep handle (.write chunk) =
              ⟨(cut sep (text ++ chunk)).2, t, false⟩ := by
            rw [hcut]
            exact drain_eq (Nat.le_refl _) hchunk
          rw [Buffer.run, hcall, if_neg Bool.false_ne_true, written, ← List.append_assoc]
          rw [← hcut] at hrest
          exact ih hflush hrest
      | flush =>
          obtain ⟨hends, hflush⟩ := hflush
          have hcall : (Buffer.mk (cut sep text).2 s false).call sep handle .flush =
              ⟨(cut sep text).2, s, false⟩ := if_pos (cut_snd_of_ends hends)
          rw [Buffer.run, hcall, if_neg Bool.false_ne_true, written]
          exact ih hflush h

/-- **Chunks.**  If none of the lines raises, the calls handle the lines of the text that they
write, in order, and leave nothing. -/
theorem capture_eq {calls : List (Call γ)} {s s' : σ} (hflush : FlushesAtEnds sep [] calls)
    (h : feed handle s (linesOf sep (written calls)) = some s') :
    capture sep handle s calls = ⟨[], s', false⟩ := by
  rw [linesOf, feed_append] at h
  obtain ⟨t, hlines, hlast⟩ := Option.bind_eq_some_iff.1 h
  have hrun := run_eq hflush hlines
  rw [List.nil_append] at hrun
  rw [capture, show (Buffer.mk [] s false).run sep handle calls = _ from hrun, Buffer.flush]
  split_ifs at hlast ⊢ with hempty
  · obtain rfl := Option.some.inj hlast
    rw [hempty]
    rfl
  · obtain ⟨u, hu, hnil⟩ := feed_cons hlast
    obtain rfl := Option.some.inj hnil
    dsimp only
    rw [hu]
    rfl

end LineBuffer

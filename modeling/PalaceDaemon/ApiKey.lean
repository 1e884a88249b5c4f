/-
The key in the daemon's env file (`_api_key` of the hook).

A hook whose environment has no key reads it from the file that the daemon is started with, and
accepts a strict subset of its syntax.  `apiKey_eq_iff` says which contents give which key: it is
the grammar of the docstring, where a carriage return may end a line as well, the last one too.
-/
import Mathlib.Data.List.Induction
import PalaceDaemon.Lib.PyText

namespace PalaceDaemon.ApiKey

/-! ### Characters -/

/-- `str.isprintable` of a character: among the first 128 those from the space to `~`, and no
space but the one of ASCII. -/
structure Printable where
  holds : Char → Bool
  ascii : ∀ c : Char, c.toNat < 128 → (holds c = true ↔ 32 ≤ c.toNat ∧ c.toNat ≤ 126)
  space : ∀ c : Char, PyText.isSpace c = true → holds c = true → c = ' '

/-- `[!#-&(-\[\]-~]` -/
def isTokenChar (c : Char) : Bool :=
  c = '!' || ('#' ≤ c && c ≤ '&') || ('(' ≤ c && c ≤ '[') || (']' ≤ c && c ≤ '~')

/-- `['"]` -/
def isQuote (c : Char) : Bool := c = '\'' || c = '"'

/-! ### The reader -/

/-- `PALACE_API_KEY` -/
def keyName : List Char := "PALACE_API_KEY".toList

/-- `_DAEMON_ENV_MAX_BYTES` -/
def daemonEnvMaxBytes : ℕ := 64 * 1024

/-- `([!#-&(-\[\]-~]+)\1` on what follows the optional quote. -/
def tokenBefore (quote rest : List Char) : Option (List Char) :=
  let token := rest.take (rest.length - quote.length)
  if rest = token ++ quote ∧ token ≠ [] ∧ token.all isTokenChar then some token else none

/-- `_DAEMON_ENV_KEY_LINE.fullmatch(line)`, its second group -/
def keyLine (line : List Char) : Option (List Char) :=
  if (keyName ++ ['=']).isPrefixOf line then
    let value := line.drop (keyName.length + 1)
    match value with
    | c :: rest => if isQuote c then (tokenBefore [c] rest).or (tokenBefore [] value)
                   else tokenBefore [] value
    | [] => none
  else none

/-- `line[:-1] if line.endswith("\r") else line` -/
def dropReturn (line : List Char) : List Char :=
  if line.getLast? = some '\r' then line.dropLast else line

section Reader

variable (u : Printable)

/-- `line.replace("\t", " ").isprintable()` -/
def isPrintableLine (line : List Char) : Bool :=
  (line.map fun c => if c = '\t' then ' ' else c).all u.holds

/-- The loop over the lines; an empty result is no key. -/
def scanLines (key : List Char) : List (List Char) → List Char
  | [] => key
  | physical :: rest =>
    let line := dropReturn physical
    if isPrintableLine u line = false then []
    else
      let line := PyText.strip line
      if line.head?.all (fun c => c = '#' ∨ c = ';') then scanLines key rest
      else if PyText.strip (line.takeWhile (· ≠ '=')) = keyName then
        match keyLine line with
        | none => []
        | some token => scanLines token rest
      else if line.any isQuote then []
      else scanLines key rest

/-- `_api_key`: `env` is the variable of the environment, and `file` what is read from the env
file, if it can be read. -/
def apiKey (env : List Char) (file : Option (List UInt8)) : List Char :=
  let key := PyText.strip env
  if key ≠ [] then key
  else match file with
    | none => []
    | some data =>
      if daemonEnvMaxBytes < data.length then []
      else match String.fromUTF8? ⟨data.toArray⟩ with
        | none => []
        | some text =>
          if '\\' ∈ text.toList then [] else scanLines u key (text.toList.splitOn '\n')

end Reader

/-! ### The grammar -/

/-- A blank: a space or a tab. -/
def isBlank (c : Char) : Bool := c = ' ' || c = '\t'

/-- The text without the blanks around it. -/
def trim (s : List Char) : List Char :=
  ((s.dropWhile isBlank).reverse.dropWhile isBlank).reverse

/-- A token: printable ASCII without space, quote and backslash. -/
structure IsToken (token : List Char) : Prop where
  ne_nil : token ≠ []
  chars : ∀ c ∈ token, 33 ≤ c.toNat ∧ c.toNat ≤ 126 ∧ c ≠ '"' ∧ c ≠ '\'' ∧ c ≠ '\\'

/-- The line assigns the token, bare or in a pair of quotes. -/
def Assigns (line token : List Char) : Prop :=
  IsToken token ∧ ∃ quote ∈ [[], ['\''], ['"']],
    trim line = keyName ++ '=' :: (quote ++ token ++ quote)

/-- The line is a comment. -/
def IsComment (line : List Char) : Prop :=
  (trim line).head? = some '#' ∨ (trim line).head? = some ';'

/-- The line names the key. -/
def Names (line : List Char) : Prop := trim (line.takeWhile (· ≠ '=')) = keyName

/-- A line that the grammar has. -/
def IsLine (line : List Char) : Prop :=
  IsComment line ∨ (Names line ∧ ∃ token, Assigns line token) ∨
    (¬ Names line ∧ ∀ c ∈ line, isQuote c = false)

/-- What may follow a carriage return. -/
def EndsLine (after : List Char) : Prop := after = [] ∨ after.head? = some '\n'

/-- The text has no characters besides printable ones, tabs and line ends; `ends` is what may
follow the carriage return of a line end. -/
def Legible (u : Printable) (ends : List Char → Prop) (text : List Char) : Prop :=
  ∀ before c after, text = before ++ c :: after →
    u.holds c = true ∨ c = '\t' ∨ c = '\n' ∨ (c = '\r' ∧ ends after)

/-- The lines of a text, without their ends. -/
def linesOf (text : List Char) : List (List Char) := (text.splitOn '\n').map dropReturn

/-- The last line that names the key assigns the token. -/
def LastAssigns (lines : List (List Char)) (token : List Char) : Prop :=
  ∃ before line after, lines = before ++ line :: after ∧ Assigns line token ∧
    ∀ l ∈ after, ¬ Names l

/-- The content gives the token. -/
structure Gives (u : Printable) (ends : List Char → Prop) (data : List UInt8)
    (token : List Char) : Prop where
  size : data.length ≤ daemonEnvMaxBytes
  text : ∃ text : String, String.fromUTF8? ⟨data.toArray⟩ = some text ∧ '\\' ∉ text.toList ∧
    Legible u ends text.toList ∧ (∀ line ∈ linesOf text.toList, IsLine line) ∧
    LastAssigns (linesOf text.toList) token

/-! ### Lines -/

section Lines

variable {u : Printable}

lemma isPrintableLine_iff {line : List Char} :
    isPrintableLine u line = true ↔ ∀ c ∈ line, u.holds c = true ∨ c = '\t' := by
  have hspace : u.holds ' ' = true := (u.ascii ' ' (by decide)).2 (by decide)
  rw [isPrintableLine, List.all_map, List.all_eq_true]
  refine forall₂_congr fun c _ => ?_
  dsimp only [Function.comp_apply]
  by_cases hc : c = '\t'
  · simp [hc, hspace]
  · simp [hc]

lemma splitOn_cons (c : Char) (text : List Char) :
    (c :: text).splitOn '\n' =
      if c = '\n' then [] :: text.splitOn '\n' else (text.splitOn '\n').modifyHead (c :: ·) := by
  rw [List.splitOn, List.splitOnP_cons_eq_if_modifyHead]
  by_cases hc : c = '\n' <;> simp [hc, List.splitOn]

/-- The first line is empty where the text, or a line, ends. -/
lemma head_splitOn_eq_nil {text line : List Char} {lines : List (List Char)}
    (h : text.splitOn '\n' = line :: lines) : line = [] ↔ EndsLine text := by
  cases text with
  | nil =>
    rw [List.splitOn_nil] at h
    simp [(List.cons.inj h).1.symm, EndsLine]
  | cons c text =>
    rw [splitOn_cons] at h
    by_cases hc : c = '\n'
    · rw [if_pos hc] at h
      simp [(List.cons.inj h).1.symm, EndsLine, hc]
    · rw [if_neg hc] at h
      obtain ⟨l, ls, hl⟩ := List.exists_cons_of_ne_nil (List.splitOnP_ne_nil (· == '\n') text)
      rw [List.splitOn, hl, List.modifyHead_cons] at h
      simp [(List.cons.inj h).1.symm, EndsLine, hc]

lemma dropReturn_cons (c : Char) (line : List Char) :
    dropReturn (c :: line) =
      if line = [] then (if c = '\r' then [] else [c]) else c :: dropReturn line := by
  cases line with
  | nil => by_cases hc : c = '\r' <;> simp [dropReturn, hc]
  | cons d line =>
    rw [if_neg (List.cons_ne_nil d line), dropReturn, dropReturn, List.getLast?_cons_cons]
    by_cases hlast : (d :: line).getLast? = some '\r'
    · rw [if_pos hlast, if_pos hlast, List.dropLast_cons_of_ne_nil (List.cons_ne_nil d line)]
    · rw [if_neg hlast, if_neg hlast]

lemma legible_cons {ends : List Char → Prop} {c : Char} {text : List Char} :
    Legible u ends (c :: text) ↔
      (u.holds c = true ∨ c = '\t' ∨ c = '\n' ∨ (c = '\r' ∧ ends text)) ∧
        Legible u ends text := by
  constructor
  · intro h
    refine ⟨h [] c text rfl, fun before d after heq => ?_⟩
    exact h (c :: before) d after (by rw [heq, List.cons_append])
  · rintro ⟨hc, h⟩ before d after heq
    cases before with
    | nil =>
      obtain ⟨rfl, rfl⟩ := List.cons_eq_cons.1 heq
      exact hc
    | cons b before =>
      obtain ⟨-, hrest⟩ := List.cons_eq_cons.1 heq
      exact h before d after hrest

/-- A text is legible if its lines are. -/
lemma legible_iff (text : List Char) :
    Legible u EndsLine text ↔ ∀ line ∈ linesOf text, isPrintableLine u line = true := by
  induction text with
  | nil =>
    refine iff_of_true (fun before c after h => by simp at h) ?_
    simp [linesOf, List.splitOn_nil, dropReturn, isPrintableLine]
  | cons c text ih =>
    obtain ⟨line, lines, hl⟩ := List.exists_cons_of_ne_nil
      (List.splitOnP_ne_nil (· == '\n') text)
    change text.splitOn '\n' = line :: lines at hl
    have hhead := head_splitOn_eq_nil hl
    rw [legible_cons, ih, linesOf, linesOf, splitOn_cons, hl]
    by_cases hc : c = '\n'
    · simp [hc, dropReturn, isPrintableLine]
    · rw [if_neg hc, List.modifyHead_cons]
      simp only [List.map_cons, List.forall_mem_cons, ← and_assoc]
      refine and_congr_left fun _ => ?_
      rw [isPrintableLine_iff, isPrintableLine_iff, dropReturn_cons, ← hhead]
      by_cases hnil : line = []
      · rw [if_pos hnil, hnil]
        by_cases hr : c = '\r'
        · simp [hr, dropReturn]
        · simp [hr, hc, dropReturn]
      · rw [if_neg hnil, List.forall_mem_cons]
        simp only [hc, hnil, and_false, or_false]

/-! ### Blanks -/

lemma isSpace_of_isBlank {c : Char} (h : isBlank c = true) : PyText.isSpace c = true := by
  rw [isBlank, Bool.or_eq_true, decide_eq_true_eq, decide_eq_true_eq] at h
  rcases h with rfl | rfl <;> decide

/-- In a legible line a space is a blank. -/
lemma isSpace_eq_isBlank {line : List Char} (h : isPrintableLine u line = true) {c : Char}
    (hc : c ∈ line) : PyText.isSpace c = isBlank c := by
  rw [Bool.eq_iff_iff]
  refine ⟨fun hspace => ?_, isSpace_of_isBlank⟩
  rcases isPrintableLine_iff.1 h c hc with hholds | rfl
  · rw [u.space c hspace hholds]
    decide
  · decide

lemma dropWhile_congr {α : Type*} {p q : α → Bool} {l : List α} (h : ∀ c ∈ l, p c = q c) :
    l.dropWhile p = l.dropWhile q := by
  induction l with
  | nil => rfl
  | cons c l ih =>
    rw [List.forall_mem_cons] at h
    rw [List.dropWhile_cons, List.dropWhile_cons, h.1, ih h.2]

lemma strip_eq_trim {s : List Char} (h : ∀ c ∈ s, PyText.isSpace c = isBlank c) :
    PyText.strip s = trim s := by
  rw [PyText.strip, trim, dropWhile_congr h, dropWhile_congr fun c hc => h c ?_]
  exact (List.dropWhile_sublist _).subset (List.mem_reverse.1 hc)

lemma mem_of_mem_trim {s : List Char} {c : Char} (h : c ∈ trim s) : c ∈ s := by
  rw [trim, List.mem_reverse] at h
  have h' := List.mem_reverse.1 ((List.dropWhile_sublist _).subset h)
  exact (List.dropWhile_sublist _).subset h'

/-- A character that is no blank is not trimmed. -/
lemma mem_trim {s : List Char} {c : Char} (h : c ∈ s) (hc : isBlank c = false) : c ∈ trim s := by
  have hdrop : ∀ {l : List Char}, c ∈ l → c ∈ l.dropWhile isBlank := by
    intro l hl
    have hsplit : l.takeWhile isBlank ++ l.dropWhile isBlank = l :=
      List.takeWhile_append_dropWhile
    rw [← hsplit, List.mem_append] at hl
    rcases hl with hl | hl
    · rw [List.mem_takeWhile_imp hl] at hc
      cases hc
    · exact hl
  rw [trim, List.mem_reverse]
  exact hdrop (List.mem_reverse.2 (hdrop h))

/-- What is trimmed away are blanks. -/
lemma exists_trim (s : List Char) : ∃ b b', (∀ c ∈ b, isBlank c = true) ∧
    (∀ c ∈ b', isBlank c = true) ∧ s = b ++ trim s ++ b' := by
  refine ⟨s.takeWhile isBlank, ((s.dropWhile isBlank).reverse.takeWhile isBlank).reverse,
    fun c hc => List.mem_takeWhile_imp hc,
    fun c hc => List.mem_takeWhile_imp (List.mem_reverse.1 hc), ?_⟩
  rw [trim, List.append_assoc, ← List.reverse_append, List.takeWhile_append_dropWhile,
    List.reverse_reverse, List.takeWhile_append_dropWhile]

lemma dropWhile_blanks {b s : List Char} (h : ∀ c ∈ b, isBlank c = true) :
    (b ++ s).dropWhile isBlank = s.dropWhile isBlank := List.dropWhile_append_of_pos h

/-- Blanks around a text are trimmed away. -/
lemma trim_blanks {b b' s : List Char} (hb : ∀ c ∈ b, isBlank c = true)
    (hb' : ∀ c ∈ b', isBlank c = true) : trim (b ++ s ++ b') = trim s := by
  have hrev : ∀ c ∈ b'.reverse, isBlank c = true := fun c hc => hb' c (List.mem_reverse.1 hc)
  rw [trim, trim, List.append_assoc, dropWhile_blanks hb]
  by_cases hs : ∀ c ∈ s, isBlank c = true
  · rw [dropWhile_blanks hs, List.dropWhile_eq_nil_iff.2 hs, List.dropWhile_eq_nil_iff.2 hb']
  · rw [List.dropWhile_append, if_neg, List.reverse_append, dropWhile_blanks hrev]
    rw [List.isEmpty_iff, List.dropWhile_eq_nil_iff]
    exact hs

/-- The blanks around a line are not in its name. -/
lemma trim_takeWhile (line : List Char) :
    trim ((trim line).takeWhile (· ≠ '=')) = trim (line.takeWhile (· ≠ '=')) := by
  obtain ⟨b, b', hb, hb', hline⟩ := exists_trim line
  have hname : ∀ {l : List Char}, (∀ c ∈ l, isBlank c = true) →
      ∀ c ∈ l, decide (c ≠ '=') = true := by
    intro l hl c hc
    refine decide_eq_true fun heq => ?_
    have hblank := hl c hc
    rw [heq] at hblank
    cases hblank
  conv_rhs => rw [hline]
  rw [List.append_assoc, List.takeWhile_append_of_pos (hname hb)]
  by_cases hin : ∀ c ∈ trim line, decide (c ≠ '=') = true
  · have hrest : b'.takeWhile (· ≠ '=') = b' := List.takeWhile_eq_self_iff.2 (hname hb')
    rw [List.takeWhile_append_of_pos hin, hrest, ← List.append_assoc, trim_blanks hb hb',
      List.takeWhile_eq_self_iff.2 hin]
  · have hshort : ((trim line ++ b').takeWhile (· ≠ '=')) = (trim line).takeWhile (· ≠ '=') := by
      rw [List.takeWhile_append, if_neg]
      intro hlen
      refine hin (List.takeWhile_eq_self_iff.1 ?_)
      exact (List.takeWhile_prefix _).eq_of_length hlen
    rw [hshort]
    have hnil : ∀ c ∈ ([] : List Char), isBlank c = true := fun c hc => by cases hc
    have h := trim_blanks (s := (trim line).takeWhile (· ≠ '=')) hb hnil
    rw [List.append_nil] at h
    exact h.symm

/-! ### The lines that assign -/

lemma isTokenChar_iff (c : Char) : isTokenChar c = true ↔
    33 ≤ c.toNat ∧ c.toNat ≤ 126 ∧ c ≠ '"' ∧ c ≠ '\'' ∧ c ≠ '\\' := by
  have hle : ∀ a d : Char, a ≤ d ↔ a.toNat ≤ d.toNat := fun a d => UInt32.le_iff_toNat_le
  have hne : ∀ a d : Char, a = d ↔ a.toNat = d.toNat := fun a d => Char.toNat_inj.symm
  simp only [isTokenChar, Bool.or_eq_true, Bool.and_eq_true, decide_eq_true_eq, hle, hne, ne_eq]
  change (((c.toNat = 33 ∨ 35 ≤ c.toNat ∧ c.toNat ≤ 38) ∨ 40 ≤ c.toNat ∧ c.toNat ≤ 91) ∨
    93 ≤ c.toNat ∧ c.toNat ≤ 126) ↔ 33 ≤ c.toNat ∧ c.toNat ≤ 126 ∧ ¬c.toNat = 34 ∧
      ¬c.toNat = 39 ∧ ¬c.toNat = 92
  omega

lemma isToken_iff {token : List Char} :
    IsToken token ↔ token ≠ [] ∧ token.all isTokenChar = true := by
  rw [List.all_eq_true]
  exact ⟨fun h => ⟨h.ne_nil, fun c hc => (isTokenChar_iff c).2 (h.chars c hc)⟩,
    fun h => ⟨h.1, fun c hc => (isTokenChar_iff c).1 (h.2 c hc)⟩⟩

lemma tokenBefore_eq_some {quote rest token : List Char} :
    tokenBefore quote rest = some token ↔ IsToken token ∧ rest = token ++ quote := by
  rw [tokenBefore, isToken_iff]
  constructor
  · intro h
    split_ifs at h with hcond
    obtain rfl := Option.some.inj h
    exact ⟨hcond.2, hcond.1⟩
  · rintro ⟨htoken, rfl⟩
    have htake : (token ++ quote).take ((token ++ quote).length - quote.length) = token := by
      rw [List.length_append, Nat.add_sub_cancel, List.take_left']
      rfl
    rw [htake, if_pos ⟨rfl, htoken⟩]

/-- No token begins with a quote. -/
lemma IsToken.not_quote {c : Char} {token : List Char} (h : IsToken (c :: token)) :
    isQuote c = false := by
  obtain ⟨-, -, h1, h2, -⟩ := h.chars c List.mem_cons_self
  simp [isQuote, h1, h2]

/-- The expression takes a token, bare or in a pair of quotes. -/
lemma keyLine_eq_some {line token : List Char} :
    keyLine line = some token ↔ IsToken token ∧ ∃ quote ∈ [[], ['\''], ['"']],
      line = keyName ++ '=' :: (quote ++ token ++ quote) := by
  have hbegins : ∀ value : List Char, (keyName ++ ['=']).isPrefixOf
      (keyName ++ '=' :: value) = true := by
    intro value
    rw [List.isPrefixOf_iff_prefix]
    exact ⟨value, by simp⟩
  have hdrop : ∀ value : List Char,
      (keyName ++ '=' :: value).drop (keyName.length + 1) = value := by
    intro value
    rw [show keyName ++ '=' :: value = (keyName ++ ['=']) ++ value by simp,
      show keyName.length + 1 = (keyName ++ ['=']).length by simp, List.drop_left]
  constructor
  · intro h
    rw [keyLine] at h
    split_ifs at h with hpre
    obtain ⟨value, rfl⟩ := List.isPrefixOf_iff_prefix.1 hpre
    rw [List.append_assoc, List.singleton_append, hdrop] at h
    rw [List.append_assoc, List.singleton_append]
    cases value with
    | nil => cases h
    | cons c rest =>
      dsimp only at h
      split_ifs at h with hc
      · rcases Option.or_eq_some_iff.1 h with hquoted | ⟨-, hbare⟩
        · obtain ⟨htoken, rfl⟩ := tokenBefore_eq_some.1 hquoted
          refine ⟨htoken, [c], ?_, rfl⟩
          simpa [isQuote] using hc
        · obtain ⟨htoken, heq⟩ := tokenBefore_eq_some.1 hbare
          rw [List.append_nil] at heq
          rw [← heq] at htoken
          rw [htoken.not_quote] at hc
          cases hc
      · obtain ⟨htoken, heq⟩ := tokenBefore_eq_some.1 h
        exact ⟨htoken, [], List.mem_cons_self, by simp [heq]⟩
  · rintro ⟨htoken, quote, hquote, rfl⟩
    rw [keyLine, if_pos (hbegins _), hdrop]
    obtain ⟨c, rest, rfl⟩ := List.exists_cons_of_ne_nil htoken.ne_nil
    simp only [List.mem_cons, List.not_mem_nil, or_false] at hquote
    rcases hquote with rfl | rfl | rfl
    · simp only [List.nil_append, List.append_nil, htoken.not_quote, Bool.false_eq_true,
        if_false]
      exact tokenBefore_eq_some.2 ⟨htoken, by simp⟩
    · have hq : isQuote '\'' = true := rfl
      simp only [List.cons_append, hq, if_true]
      rw [Option.or_eq_some_iff]
      exact Or.inl (tokenBefore_eq_some.2 ⟨htoken, by simp⟩)
    · have hq : isQuote '"' = true := rfl
      simp only [List.cons_append, hq, if_true]
      rw [Option.or_eq_some_iff]
      exact Or.inl (tokenBefore_eq_some.2 ⟨htoken, by simp⟩)

lemma assigns_iff {line token : List Char} :
    Assigns line token ↔ keyLine (trim line) = some token := keyLine_eq_some.symm

/-! ### The loop -/

lemma trim_prefix (s : List Char) : trim s <+: s.dropWhile isBlank := by
  rw [trim, ← List.reverse_suffix, List.reverse_reverse]
  exact List.dropWhile_suffix _

/-- A trimmed line does not begin with a blank. -/
lemma not_blank_of_head {s : List Char} {c : Char} (h : (trim s).head? = some c) :
    isBlank c = false := by
  obtain ⟨rest, hrest⟩ := trim_prefix s
  have hhead : (s.dropWhile isBlank).head? = some c := by
    rw [← hrest, List.head?_append, h, Option.some_or]
  have hnot := List.head?_dropWhile_not isBlank s
  rw [hhead] at hnot
  simpa using hnot

/-- A line that names the key begins with its name. -/
lemma Names.head {line : List Char} (h : Names line) : (trim line).head? = some 'P' := by
  rw [Names, ← trim_takeWhile] at h
  obtain ⟨b, b', hb, -, hname⟩ := exists_trim ((trim line).takeWhile (· ≠ '='))
  rw [h] at hname
  obtain ⟨rest, hrest⟩ := List.takeWhile_prefix (p := fun c => decide (c ≠ '=')) (l := trim line)
  rw [hname] at hrest
  cases b with
  | nil =>
    rw [← hrest]
    rfl
  | cons c b =>
    have hhead : (trim line).head? = some c := by
      rw [← hrest]
      rfl
    have hblank := not_blank_of_head hhead
    rw [hb c List.mem_cons_self] at hblank
    cases hblank

lemma IsComment.not_names {line : List Char} (h : IsComment line) : ¬ Names line := by
  intro hnames
  rw [IsComment, hnames.head] at h
  revert h
  decide

lemma Assigns.names {line token : List Char} (h : Assigns line token) : Names line := by
  obtain ⟨-, quote, -, heq⟩ := h
  have hplain : keyName.all (fun c => decide (c ≠ '=')) = true := by decide
  rw [Names, ← trim_takeWhile, heq, List.takeWhile_append_of_pos (List.all_eq_true.1 hplain),
    List.takeWhile_cons_of_neg (by simp), List.append_nil]
  decide

lemma lastAssigns_cons {line token : List Char} {lines : List (List Char)} :
    LastAssigns (line :: lines) token ↔
      LastAssigns lines token ∨ Assigns line token ∧ ∀ l ∈ lines, ¬ Names l := by
  constructor
  · rintro ⟨before, l, after, heq, hl, hafter⟩
    cases before with
    | nil =>
      obtain ⟨rfl, rfl⟩ := List.cons_eq_cons.1 heq
      exact Or.inr ⟨hl, hafter⟩
    | cons b before =>
      obtain ⟨-, hrest⟩ := List.cons_eq_cons.1 heq
      exact Or.inl ⟨before, l, after, hrest, hl, hafter⟩
  · rintro (⟨before, l, after, rfl, hl, hafter⟩ | ⟨hl, hafter⟩)
    · exact ⟨line :: before, l, after, rfl, hl, hafter⟩
    · exact ⟨[], line, lines, rfl, hl, hafter⟩

/-- What the loop holds at the end, if it holds a key. -/
def Held (key : List Char) (lines : List (List Char)) (token : List Char) : Prop :=
  LastAssigns lines token ∨ key = token ∧ ∀ l ∈ lines, ¬ Names l

lemma held_cons_of_not_names {key line token : List Char} {lines : List (List Char)}
    (h : ¬ Names line) : Held key (line :: lines) token ↔ Held key lines token := by
  have hassigns : ¬ Assigns line token := fun ha => h ha.names
  rw [Held, Held, lastAssigns_cons, List.forall_mem_cons]
  tauto

lemma held_cons_of_assigns {key line token token' : List Char} {lines : List (List Char)}
    (h : Assigns line token') : Held key (line :: lines) token ↔ Held token' lines token := by
  have hsame : Assigns line token ↔ token' = token := by
    rw [assigns_iff, assigns_iff.1 h, Option.some.injEq]
  have hnames := h.names
  rw [Held, Held, lastAssigns_cons, List.forall_mem_cons, hsame]
  tauto

/-- An empty line is passed over, as a comment is. -/
lemma isLine_of_skipped {line : List Char}
    (h : (trim line).head?.all (fun c => c = '#' ∨ c = ';') = true) :
    IsLine line ∧ ¬ Names line := by
  cases hhead : (trim line).head? with
  | none =>
    have hnil : trim line = [] := List.head?_eq_none_iff.1 hhead
    have hnames : ¬ Names line := fun hn => by
      rw [hn.head] at hhead
      cases hhead
    refine ⟨Or.inr (Or.inr ⟨hnames, fun c hc => ?_⟩), hnames⟩
    rw [← Bool.not_eq_true]
    intro hquote
    have hblank : isBlank c = false := by
      rw [isQuote, Bool.or_eq_true, decide_eq_true_eq, decide_eq_true_eq] at hquote
      rcases hquote with rfl | rfl <;> rfl
    have hmem := mem_trim hc hblank
    rw [hnil] at hmem
    cases hmem
  | some c =>
    have hcomment : IsComment line := by
      rw [hhead] at h
      rw [IsComment, hhead]
      simpa using h
    exact ⟨Or.inl hcomment, hcomment.not_names⟩

/-- **The loop.**  It ends with a token just when every line is legible and one that the grammar
has, and the token is the last that is assigned or, where no line names the key, the one before. -/
theorem scanLines_eq_iff {key token : List Char} (htoken : token ≠ [])
    (physical : List (List Char)) :
    scanLines u key physical = token ↔
      (∀ line ∈ physical.map dropReturn, isPrintableLine u line = true ∧ IsLine line) ∧
        Held key (physical.map dropReturn) token := by
  induction physical generalizing key with
  | nil => simp [scanLines, Held, LastAssigns]
  | cons line physical ih =>
    rw [scanLines, List.map_cons, List.forall_mem_cons]
    dsimp only
    generalize dropReturn line = line
    have hnil : ¬ ([] = token) := fun h => htoken h.symm
    by_cases hprint : isPrintableLine u line = true
    · have hspace : ∀ c ∈ line, PyText.isSpace c = isBlank c := fun c hc =>
        isSpace_eq_isBlank hprint hc
      have hname : PyText.strip ((trim line).takeWhile (· ≠ '=')) = keyName ↔ Names line := by
        rw [Names, ← trim_takeWhile, strip_eq_trim]
        intro c hc
        exact hspace c (mem_of_mem_trim ((List.takeWhile_prefix _).subset hc))
      rw [if_neg (by simp [hprint]), strip_eq_trim hspace]
      by_cases hskip : (trim line).head?.all (fun c => c = '#' ∨ c = ';') = true
      · obtain ⟨hline, hnot⟩ := isLine_of_skipped hskip
        rw [if_pos hskip, ih, held_cons_of_not_names hnot]
        tauto
      · have hcomment : ¬ IsComment line := by
          intro h
          refine hskip ?_
          rcases h with h | h <;> simp [h]
        rw [if_neg hskip]
        by_cases hnames : Names line
        · rw [if_pos (hname.2 hnames)]
          cases hkey : keyLine (trim line) with
          | none =>
            have hline : ¬ IsLine line := by
              rintro (h | ⟨-, t, h⟩ | ⟨h, -⟩)
              · exact hcomment h
              · rw [assigns_iff, hkey] at h
                cases h
              · exact h hnames
            exact iff_of_false hnil fun h => hline h.1.1.2
          | some token' =>
            have hassigns := assigns_iff.2 hkey
            have hline : IsLine line := Or.inr (Or.inl ⟨hnames, token', hassigns⟩)
            dsimp only
            rw [ih, held_cons_of_assigns hassigns]
            tauto
        · rw [if_neg fun h => hnames (hname.1 h)]
          by_cases hquote : (trim line).any isQuote = true
          · have hline : ¬ IsLine line := by
              obtain ⟨c, hc, hq⟩ := List.any_eq_true.1 hquote
              rintro (h | ⟨h, -⟩ | ⟨-, h⟩)
              · exact hcomment h
              · exact hnames h
              · rw [h c (mem_of_mem_trim hc)] at hq
                cases hq
            rw [if_pos hquote]
            exact iff_of_false hnil fun h => hline h.1.1.2
          · have hline : IsLine line := by
              refine Or.inr (Or.inr ⟨hnames, fun c hc => ?_⟩)
              rw [← Bool.not_eq_true]
              intro hq
              have hblank : isBlank c = false := by
                rw [isQuote, Bool.or_eq_true, decide_eq_true_eq, decide_eq_true_eq] at hq
                rcases hq with rfl | rfl <;> rfl
              exact hquote (List.any_eq_true.2 ⟨c, mem_trim hc hblank, hq⟩)
            rw [if_neg hquote, ih, held_cons_of_not_names hnames]
            tauto
    · rw [if_pos (by simpa using hprint)]
      exact iff_of_false hnil fun h => hprint h.1.1.1

variable {env token : List Char} {data : List UInt8}

/-- **The key in the env file.**  Where the environment has no key, the content of the file gives
a key if and only if it is one that the grammar has, a carriage return before the end of a line or
of the text being part of a line end, and then the token of the last line that names the key. -/
theorem apiKey_eq_iff (henv : PyText.strip env = []) :
    (token ≠ [] ∧ apiKey u env (some data) = token) ↔ Gives u EndsLine data token := by
  rw [apiKey, henv, if_neg (by simp)]
  constructor
  · rintro ⟨htoken, h⟩
    split_ifs at h with hsize
    · exact absurd h.symm htoken
    cases htext : String.fromUTF8? ⟨data.toArray⟩ with
    | none =>
      rw [htext] at h
      exact absurd h.symm htoken
    | some text =>
      rw [htext] at h
      dsimp only at h
      split_ifs at h with hslash
      · exact absurd h.symm htoken
      obtain ⟨hlines, hheld⟩ := (scanLines_eq_iff htoken _).1 h
      refine ⟨not_lt.1 hsize, text, htext, hslash, ?_, fun line hl => (hlines line hl).2, ?_⟩
      · exact (legible_iff _).2 fun line hl => (hlines line hl).1
      · exact hheld.resolve_right fun hkey => htoken hkey.1.symm
  · rintro ⟨hsize, text, htext, hslash, hlegible, hlines, hlast⟩
    have htoken : token ≠ [] := by
      obtain ⟨-, line, -, -, hassigns, -⟩ := hlast
      exact hassigns.1.ne_nil
    refine ⟨htoken, ?_⟩
    rw [if_neg (not_lt.2 hsize), htext]
    dsimp only
    rw [if_neg hslash]
    refine (scanLines_eq_iff htoken _).2 ⟨fun line hl => ⟨?_, hlines line hl⟩, Or.inl hlast⟩
    exact (legible_iff _).1 hlegible line hl

/-- Only the printable characters of ASCII. -/
def asciiOnly : Printable where
  holds c := decide (32 ≤ c.toNat ∧ c.toNat ≤ 126)
  ascii c _ := decide_eq_true_iff
  space c hspace hholds := by
    have hrange := of_decide_eq_true hholds
    simp only [PyText.isSpace, List.mem_cons, List.not_mem_nil, or_false,
      decide_eq_true_eq] at hspace
    refine Char.toNat_inj.1 (show c.toNat = 32 by omega)

/-- A comment, another setting, and two lines with the key. -/
def keyTwice : List UInt8 :=
  "# the key\r\nPALACE_PORT=1\nPALACE_API_KEY=a\n\tPALACE_API_KEY='b' \r\n".toUTF8.data.toList

/-- A quote that is not closed. -/
def keyUnclosed : List UInt8 := "PALACE_API_KEY='b\n".toUTF8.data.toList

/-- The last of two lines gives the key, and an unclosed quote gives none. -/
theorem apiKey_eq_iff_of_lines : Gives asciiOnly EndsLine keyTwice ['b'] ∧
    ¬ Gives asciiOnly EndsLine keyTwice ['a'] ∧ ¬ Gives asciiOnly EndsLine keyUnclosed ['b'] := by
  have hblank : PyText.strip [' '] = [] := by decide
  refine ⟨(apiKey_eq_iff hblank).1 ⟨by decide, by decide +kernel⟩, fun h => ?_, fun h => ?_⟩
  · exact absurd ((apiKey_eq_iff hblank).2 h).2 (by decide +kernel)
  · exact absurd ((apiKey_eq_iff hblank).2 h).2 (by decide +kernel)

/-- A carriage return at the end of the file, which no newline follows, is dropped as well. -/
theorem apiKey_fails :
    ¬ ((['a'] ≠ [] ∧ apiKey asciiOnly [] (some "PALACE_API_KEY=a\r".toUTF8.data.toList) = ['a']) ↔
      Gives asciiOnly (fun after => after.head? = some '\n')
        "PALACE_API_KEY=a\r".toUTF8.data.toList ['a']) := by
  intro h
  obtain ⟨-, text, htext, -, hlegible, -⟩ := h.1 ⟨by decide, by decide +kernel⟩
  have hsome : String.fromUTF8? ⟨"PALACE_API_KEY=a\r".toUTF8.data.toList.toArray⟩ =
      some "PALACE_API_KEY=a\r" := by decide +kernel
  rw [hsome] at htext
  have hreturn := hlegible "PALACE_API_KEY=a".toList '\r' [] (by
    rw [← Option.some.inj htext]
    decide +kernel)
  revert hreturn
  decide +kernel

end Lines

end PalaceDaemon.ApiKey

/-
Counting the turns of a transcript that a human wrote.

`_count_human_messages` goes through the lines of the file.  A line is counted if it is an entry of
the user with a text that is not blank and has no `<command-message>` in it; of a list of blocks
the texts are joined first.  `countsLine_eq_ok_true_iff` says what this is worth in terms of the
blocks, and `countHumanMessages_eq_ok_iff` that the count is the number of such lines, unless some
line makes the hook raise.
-/
import Mathlib.Data.List.Infix
import PalaceDaemon.Hook.Ingest

namespace PalaceDaemon.Hook

open PalaceDaemon.Wings

/-! ### The lines of a transcript -/

/-- A line of a transcript, by what `json.loads` makes of it. -/
inductive TranscriptLine
  /-- `JSONDecodeError` -/
  | notJson
  /-- Another exception: an integer with too many digits, or values nested too deep. -/
  | loadsRaises
  | value (v : Json)

/-- The marker of a message that a command wrote. -/
def commandMessage : Text := "<command-message>".toList

/-- `value.get(key) == text`, for a dictionary -/
def fieldIs (key text : String) (value : Json) : Bool :=
  match value.getD key.toList .null with
  | some (.str t) => t = text.toList
  | _ => false

/-- The text is not blank, and no command wrote it. -/
def isHumanText (t : Text) : Bool := PyText.strip t ≠ [] && !contains commandMessage t

/-- `isinstance(b, dict) and b.get("type") == "text"` -/
def isTextBlock (b : Json) : Bool := fieldIs "type" "text" b

/-- `b.get("text", "")` of a block, as `join` takes it -/
def blockText (b : Json) : Except Exc Text :=
  match b.getD "text".toList (.str []) with
  | some (.str t) => .ok t
  | _ => .error .typeError

/-- The texts of the blocks, in order -/
def blockTexts : List Json → Except Exc (List Text)
  | [] => .ok []
  | b :: blocks =>
      match blockText b with
      | .error exc => .error exc
      | .ok t => (blockTexts blocks).map (t :: ·)

/-- Whether the content of a message of the user is counted -/
def countsContent : Json → Except Exc Bool
  | .str t => .ok (isHumanText t)
  | .arr values =>
      let textBlocks := values.filter isTextBlock
      if textBlocks.isEmpty then .ok false
      else (blockTexts textBlocks).map fun texts => isHumanText ([' '].intercalate texts)
  | _ => .ok false

/-- Whether the payload of an event is counted -/
def countsPayload (payload : Json) : Bool :=
  fieldIs "type" "user_message" payload &&
    match payload.getD "message".toList (.str []) with
    | some (.str t) => !contains commandMessage t
    | _ => false

/-- `msg`, the message of an entry -/
def messageOf (entry : List (Text × Json)) : Json :=
  (Json.lookup "message".toList entry).getD (.obj [])

/-- `msg.get("content", "")` -/
def contentOf (entry : List (Text × Json)) : Json :=
  ((messageOf entry).getD "content".toList (.str [])).getD .null

/-- `entry.get("payload", {})` -/
def payloadOf (entry : List (Text × Json)) : Json :=
  (Json.lookup "payload".toList entry).getD (.obj [])

/-- Whether an entry is counted -/
def countsEntry (entry : List (Text × Json)) : Except Exc Bool :=
  if fieldIs "role" "user" (messageOf entry) then countsContent (contentOf entry)
  else if fieldIs "type" "event_msg" (.obj entry) then .ok (countsPayload (payloadOf entry))
  else .ok false

/-- Whether a line is counted; a value without `get` is passed over. -/
def countsLine : TranscriptLine → Except Exc Bool
  | .notJson => .ok false
  | .loadsRaises => .error .valueError
  | .value (.obj entry) => countsEntry entry
  | .value _ => .ok false

/-- `_count_human_messages` of the lines of the file -/
def countLines : List TranscriptLine → Except Exc ℕ
  | [] => .ok 0
  | l :: lines =>
      match countsLine l with
      | .error exc => .error exc
      | .ok counts => (countLines lines).map (counts.toNat + ·)

/-- `_count_human_messages`: no file, a path that is not valid and a file that cannot be read have
no messages. -/
def countHumanMessages : Option (List TranscriptLine) → Except Exc ℕ
  | none => .ok 0
  | some lines => countLines lines

/-! ### Parts of a text -/

lemma contains_iff {needle : Text} (hne : needle ≠ []) (text : Text) :
    contains needle text = true ↔ needle <:+: text := by
  induction text with
  | nil => simp [contains, afterFirst, hne]
  | cons c text ih =>
      rw [contains, afterFirst]
      rw [contains] at ih
      by_cases hstarts : needle <+: c :: text
      · simp [hstarts, hstarts.isInfix]
      · rw [if_neg (by rwa [List.isPrefixOf_iff_prefix]), ih, List.infix_cons_iff]
        simp [hstarts]

/-- What has no separator in it lies on one side of one. -/
lemma infix_append_cons {needle xs ys : Text} {c : Char} (hc : c ∉ needle) :
    needle <:+: xs ++ c :: ys ↔ needle <:+: xs ∨ needle <:+: ys := by
  constructor
  · rintro ⟨before, after, heq⟩
    rw [List.append_assoc] at heq
    rcases List.append_eq_append_iff.1 heq with ⟨rest, rfl, hrest⟩ | ⟨rest, rfl, hrest⟩
    · rcases List.append_eq_append_iff.1 hrest with ⟨rest', rfl, -⟩ | ⟨rest', rfl, htail⟩
      · exact .inl ⟨before, rest', by simp⟩
      · rcases rest' with _ | ⟨d, rest'⟩
        · exact .inl ⟨before, [], by simp⟩
        · obtain ⟨rfl, -⟩ := List.cons.inj htail
          simp at hc
    · rcases rest with _ | ⟨d, rest⟩
      · rcases needle with _ | ⟨d, needle⟩
        · exact .inl List.nil_infix
        · obtain ⟨rfl, -⟩ := List.cons.inj hrest
          simp at hc
      · obtain ⟨-, rfl⟩ := List.cons.inj hrest
        exact .inr ⟨rest, after, by simp⟩
  · rintro (h | h)
    · exact h.trans (List.prefix_append _ _).isInfix
    · exact h.trans ((List.suffix_cons c ys).trans (List.suffix_append xs _)).isInfix

lemma infix_intercalate {needle : Text} {c : Char} (hne : needle ≠ []) (hc : c ∉ needle)
    (texts : List Text) : needle <:+: [c].intercalate texts ↔ ∃ t ∈ texts, needle <:+: t := by
  induction texts with
  | nil => simp [hne]
  | cons t texts ih =>
      rcases texts with _ | ⟨t', texts⟩
      · simp
      · rw [List.intercalate_cons_cons, List.append_assoc, List.singleton_append,
          infix_append_cons hc, ih]
        simp

lemma strip_eq_nil_iff {t : Text} : PyText.strip t = [] ↔ ∀ c ∈ t, PyText.isSpace c = true := by
  refine ⟨PyText.isSpace_of_strip, fun h => ?_⟩
  rw [PyText.strip, List.dropWhile_eq_nil_iff.2 h]
  rfl

/-- A text joined by spaces is blank if its parts are. -/
lemma blank_intercalate (texts : List Text) :
    PyText.strip ([' '].intercalate texts) = [] ↔ ∀ t ∈ texts, PyText.strip t = [] := by
  simp only [strip_eq_nil_iff]
  induction texts with
  | nil => simp
  | cons t texts ih =>
      rcases texts with _ | ⟨t', texts⟩
      · simp
      · rw [List.intercalate_cons_cons, List.forall_mem_cons, ← ih]
        have hspace : PyText.isSpace ' ' = true := by decide
        simp [hspace, or_imp, forall_and]

/-! ### What is counted -/

/-- A text that is not blank, and that no command wrote. -/
def Human (t : Text) : Prop := PyText.strip t ≠ [] ∧ ¬ commandMessage <:+: t

lemma isHumanText_iff (t : Text) : isHumanText t = true ↔ Human t := by
  have hne : commandMessage ≠ [] := by decide
  rw [isHumanText, Human, ← contains_iff hne]
  simp

/-- A block of a message has this text. -/
def HasBlock (values : List Json) (t : Text) : Prop :=
  ∃ b ∈ values, isTextBlock b = true ∧ blockText b = .ok t

/-- A human wrote the content: one of its texts is not blank, and none is of a command. -/
def HumanContent : Json → Prop
  | .str t => Human t
  | .arr values => (∃ t, HasBlock values t ∧ PyText.strip t ≠ []) ∧
      ∀ t, HasBlock values t → ¬ commandMessage <:+: t
  | _ => False

/-- The content has a text block whose text is no text. -/
def BrokenContent : Json → Prop
  | .arr values => ∃ b ∈ values, isTextBlock b = true ∧ ∀ t, blockText b ≠ .ok t
  | _ => False

lemma blockText_cases (b : Json) : blockText b = .error .typeError ∨ ∃ t, blockText b = .ok t := by
  rw [blockText]
  split
  · exact .inr ⟨_, rfl⟩
  · exact .inl rfl

lemma blockTexts_spec (blocks : List Json) :
    (blockTexts blocks = .error .typeError ∧ ∃ b ∈ blocks, ∀ t, blockText b ≠ .ok t) ∨
      ∃ texts, blockTexts blocks = .ok texts ∧ (∀ b ∈ blocks, ∃ t, blockText b = .ok t) ∧
        ∀ t, t ∈ texts ↔ ∃ b ∈ blocks, blockText b = .ok t := by
  induction blocks with
  | nil => exact .inr ⟨[], rfl, by simp, by simp⟩
  | cons b blocks ih =>
      rcases blockText_cases b with hb | ⟨t, hb⟩
      · refine .inl ⟨by rw [blockTexts, hb], b, List.mem_cons_self, ?_⟩
        simp [hb]
      · rcases ih with ⟨herror, b', hb', hbroken⟩ | ⟨texts, hok, hall, hmem⟩
        · exact .inl ⟨by rw [blockTexts, hb, herror]; rfl, b', List.mem_cons_of_mem b hb', hbroken⟩
        · refine .inr ⟨t :: texts, by rw [blockTexts, hb, hok]; rfl, ?_, fun t' => ?_⟩
          · exact List.forall_mem_cons.2 ⟨⟨t, hb⟩, hall⟩
          · rw [List.mem_cons, hmem, List.exists_mem_cons_iff, hb, Except.ok.injEq, eq_comm]

/-- The blocks of a message are counted by their texts. -/
lemma countsContent_cases (v : Json) :
    (countsContent v = .error .typeError ∧ BrokenContent v) ∨
      ∃ counts, countsContent v = .ok counts ∧ ¬ BrokenContent v ∧
        (counts = true ↔ HumanContent v) := by
  have hne : commandMessage ≠ [] := by decide
  have hspace : ' ' ∉ commandMessage := by decide
  cases v with
  | str t => exact .inr ⟨_, rfl, id, isHumanText_iff t⟩
  | arr values =>
      simp only [countsContent, BrokenContent, HumanContent, HasBlock]
      -- without a text block nothing is joined, and nothing can raise
      by_cases hempty : values.filter isTextBlock = []
      · have hno : ∀ b ∈ values, isTextBlock b ≠ true := List.filter_eq_nil_iff.1 hempty
        refine .inr ⟨false, by simp [hempty], ?_, ?_⟩
        · rintro ⟨b, hb, htext, -⟩
          exact hno b hb htext
        · refine iff_of_false Bool.false_ne_true ?_
          rintro ⟨⟨t, ⟨b, hb, htext, -⟩, -⟩, -⟩
          exact hno b hb htext
      · rw [if_neg (by simpa using hempty)]
        rcases blockTexts_spec (values.filter isTextBlock) with
          ⟨herror, b, hb, hbroken⟩ | ⟨texts, hok, hall, hmem⟩
        · obtain ⟨hb, htext⟩ := List.mem_filter.1 hb
          exact .inl ⟨by rw [herror]; rfl, b, hb, htext, hbroken⟩
        · refine .inr ⟨_, by rw [hok]; rfl, ?_, ?_⟩
          · rintro ⟨b, hb, htext, hbroken⟩
            obtain ⟨t, ht⟩ := hall b (List.mem_filter.2 ⟨hb, htext⟩)
            exact hbroken t ht
          · have hmem' : ∀ t, t ∈ texts ↔
                ∃ b ∈ values, isTextBlock b = true ∧ blockText b = .ok t := by
              intro t
              rw [hmem]
              simp only [List.mem_filter, and_assoc]
            rw [isHumanText_iff, Human, infix_intercalate hne hspace, Ne, blank_intercalate]
            refine and_congr ?_ ?_
            · simp only [not_forall, exists_prop, hmem', ne_eq]
            · simp only [not_exists, not_and, hmem']
  | _ => exact .inr ⟨false, rfl, id, by simp [HumanContent]⟩

/-- The entry of a message of the user. -/
def OfUser (entry : List (Text × Json)) : Prop := fieldIs "role" "user" (messageOf entry) = true

/-- The payload of an event is a message of the user that no command wrote. -/
def HumanPayload (payload : Json) : Prop :=
  fieldIs "type" "user_message" payload = true ∧
    ∃ t, payload.getD "message".toList (.str []) = some (.str t) ∧ ¬ commandMessage <:+: t

/-- A human wrote the line. -/
def TranscriptLine.ByHuman : TranscriptLine → Prop
  | .value (.obj entry) =>
      OfUser entry ∧ HumanContent (contentOf entry) ∨
        ¬ OfUser entry ∧ fieldIs "type" "event_msg" (.obj entry) = true ∧
          HumanPayload (payloadOf entry)
  | _ => False

/-- The line makes the count raise. -/
def TranscriptLine.Raises : TranscriptLine → Prop
  | .loadsRaises => True
  | .value (.obj entry) => OfUser entry ∧ BrokenContent (contentOf entry)
  | _ => False

lemma countsPayload_iff (payload : Json) : countsPayload payload = true ↔ HumanPayload payload := by
  have hne : commandMessage ≠ [] := by decide
  rw [countsPayload, HumanPayload, Bool.and_eq_true]
  refine and_congr_right fun _ => ?_
  split
  · next t ht =>
      rw [Bool.not_eq_true', ← Bool.not_eq_true, contains_iff hne]
      refine ⟨fun h => ⟨t, ht, h⟩, ?_⟩
      rintro ⟨t', ht', hno⟩
      obtain rfl : t = t' := Json.str.inj (Option.some.inj (ht.symm.trans ht'))
      exact hno
  · next hno =>
      refine iff_of_false Bool.false_ne_true ?_
      rintro ⟨t, ht, -⟩
      exact hno t ht

lemma countsLine_cases (l : TranscriptLine) :
    ((∃ exc, countsLine l = .error exc) ∧ l.Raises) ∨
      ∃ counts, countsLine l = .ok counts ∧ ¬ l.Raises ∧ (counts = true ↔ l.ByHuman) := by
  rcases l with _ | _ | v
  · exact .inr ⟨false, rfl, id, iff_of_false Bool.false_ne_true id⟩
  · exact .inl ⟨⟨_, rfl⟩, trivial⟩
  · cases v with
    | obj entry =>
        simp only [countsLine, countsEntry, TranscriptLine.Raises, TranscriptLine.ByHuman]
        by_cases huser : OfUser entry
        · rw [if_pos (show fieldIs "role" "user" (messageOf entry) = true from huser)]
          rcases countsContent_cases (contentOf entry) with ⟨herror, hbroken⟩ | ⟨b, hok, hno, hb⟩
          · exact .inl ⟨⟨_, herror⟩, huser, hbroken⟩
          · exact .inr ⟨b, hok, fun h => hno h.2, by simp [huser, hb]⟩
        · rw [if_neg (show fieldIs "role" "user" (messageOf entry) ≠ true from huser)]
          split_ifs with hevent
          · exact .inr ⟨_, rfl, fun h => huser h.1, by simp [huser, hevent, countsPayload_iff]⟩
          · exact .inr ⟨false, rfl, fun h => huser h.1, by simp [huser, hevent]⟩
    | _ => exact .inr ⟨false, rfl, id, iff_of_false Bool.false_ne_true id⟩

/-! ### The count -/

lemma countLines_append (before after : List TranscriptLine) :
    countLines (before ++ after) =
      match countLines before with
      | .error exc => .error exc
      | .ok m => (countLines after).map (m + ·) := by
  induction before with
  | nil =>
      rw [List.nil_append]
      rcases countLines after with exc | n
      · rfl
      · exact congrArg Except.ok (Nat.zero_add n).symm
  | cons l before ih =>
      rw [List.cons_append, countLines, countLines, ih]
      rcases countsLine l with exc | b
      · rfl
      · rcases countLines before with exc | m
        · rfl
        · rcases countLines after with exc | n
          · rfl
          · exact congrArg Except.ok (Nat.add_assoc _ _ _).symm

/-- **Growing transcripts.**  What is appended to a transcript never takes a message away. -/
lemma countLines_le_append {before after : List TranscriptLine} {n : ℕ}
    (h : countLines (before ++ after) = .ok n) : ∃ m ≤ n, countLines before = .ok m := by
  rw [countLines_append] at h
  rcases hbefore : countLines before with exc | m
  · rw [hbefore] at h
    cases h
  · rw [hbefore] at h
    rcases hafter : countLines after with exc | k
    · rw [hafter] at h
      cases h
    · rw [hafter] at h
      obtain rfl := Except.ok.inj h
      exact ⟨m, Nat.le_add_right m k, rfl⟩

open Classical in
/-- **What is counted.**  The count of a transcript is the number of its lines that a human wrote,
unless one of them makes the hook raise: a message of the user with a text block whose text is no
text, or a value that `json.loads` gives up on. -/
theorem countLines_eq_ok_iff (lines : List TranscriptLine) (n : ℕ) :
    countLines lines = .ok n ↔
      (∀ l ∈ lines, ¬ l.Raises) ∧ n = lines.countP fun l => decide l.ByHuman := by
  induction lines generalizing n with
  | nil => simp [countLines, eq_comm]
  | cons l lines ih =>
      rw [countLines, List.forall_mem_cons, List.countP_cons]
      rcases countsLine_cases l with ⟨⟨exc, herror⟩, hraises⟩ | ⟨b, hok, hno, hb⟩
      · rw [herror]
        exact iff_of_false (fun h => by cases h) fun h => h.1.1 hraises
      · have hcount : b.toNat = if decide l.ByHuman = true then 1 else 0 := by
          cases b
          · rw [if_neg (by simpa using hb)]
            rfl
          · rw [if_pos (by simpa using hb)]
            rfl
        rw [hok, ← hcount]
        -- a line that raises further on takes the count with it
        rcases hlines : countLines lines with exc | m
        · refine iff_of_false (fun h => by cases h) fun h => ?_
          have hcontra := (ih _).2 ⟨h.1.2, rfl⟩
          rw [hlines] at hcontra
          cases hcontra
        · obtain ⟨hall, rfl⟩ := (ih m).1 hlines
          constructor
          · intro h
            refine ⟨⟨hno, hall⟩, ?_⟩
            rw [← Except.ok.inj h, Nat.add_comm]
          · rintro ⟨-, rfl⟩
            rw [Nat.add_comm]
            rfl

end PalaceDaemon.Hook

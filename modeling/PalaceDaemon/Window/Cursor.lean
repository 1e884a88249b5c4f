/-
The cursor of the drawer listing (`encode_cursor` and `decode_cursor`).

A cursor is the text `filed_at`, the unit separator and the drawer's id, in base64.  Decoding
cuts the text at the first separator, so what a cursor holds is `fields` of that text
(`toOption_decodeCursor`): the row's own `filed_at` and id when `filed_at` has no separator and
neither of them is empty (`fields_joined`), and nothing or another pair otherwise.
The reading of base64 is lenient, so that texts that `encode_cursor` does not make are decoded as
well; `cursor_codec` says which.
-/
import Mathlib.Data.List.TakeWhile
import PalaceDaemon.Lib.Base64

namespace Window

/-- What a cursor is refused for; the cursor is quoted in the text of the error. -/
inductive CursorError
  /-- `cursor must be a non-empty string` -/
  | empty
  /-- `cursor is not a valid token` -/
  | notAToken (token : String)
  /-- `cursor is malformed (no field separator)` -/
  | noSeparator (token : String)
  /-- `cursor is missing a field` -/
  | missingField (token : String)
deriving DecidableEq, Repr

/-- `_SEP`, the unit separator -/
def sep : Char := '\x1f'

/-- The text as UTF-8. -/
def utf8 (s : String) : List UInt8 := s.toUTF8.data.toList

/-- `bytes.decode("utf-8")` -/
def ofUtf8 (bs : List UInt8) : Option String := String.fromUTF8? ⟨bs.toArray⟩

/-- `_b64` -/
def b64 (raw : String) : String := String.ofList (Base64.encode (utf8 raw))

/-- What stands between the two fields of a cursor. -/
def joined (filedAt id : String) : String := String.ofList (filedAt.toList ++ sep :: id.toList)

/-- `encode_cursor` -/
def encodeCursor (filedAt id : String) : String := b64 (joined filedAt id)

/-- `base64.urlsafe_b64decode(token + pad).decode("utf-8")` -/
def unb64 (token : String) : Option String :=
  if token.toList.all (·.toNat < 128) then (Base64.decode token.toList).bind ofUtf8 else none

/-- `raw.split(_SEP, 1)`, if there is a separator -/
def cut (raw : String) : Option (String × String) :=
  if sep ∈ raw.toList then
    some (String.ofList (raw.toList.takeWhile (· ≠ sep)),
      String.ofList (raw.toList.dropWhile (· ≠ sep)).tail)
  else none

/-- `decode_cursor` -/
def decodeCursor (token : String) : Except CursorError (String × String) :=
  if token = "" then .error .empty
  else match unb64 token with
    | none => .error (.notAToken token)
    | some raw => match cut raw with
      | none => .error (.noSeparator token)
      | some (filedAt, id) =>
          if filedAt = "" ∨ id = "" then .error (.missingField token) else .ok (filedAt, id)

/-- The two fields of a text, if it has them and neither is empty. -/
def fields (raw : String) : Option (String × String) :=
  (cut raw).filter fun p => p.1 ≠ "" ∧ p.2 ≠ ""

@[simp] lemma ofUtf8_utf8 (s : String) : ofUtf8 (utf8 s) = some s := by
  show String.fromUTF8? ⟨s.toUTF8.data.toList.toArray⟩ = some s
  rw [Array.toArray_toList]
  exact dif_pos s.isValidUTF8

lemma utf8_ne_nil {s : String} (h : s ≠ "") : utf8 s ≠ [] := by
  intro hnil
  have hsome := ofUtf8_utf8 s
  rw [hnil, ← show utf8 "" = [] from rfl, ofUtf8_utf8] at hsome
  exact h (Option.some.inj hsome).symm

lemma unb64_b64 (raw : String) : unb64 (b64 raw) = some raw := by
  have hascii : (b64 raw).toList.all (·.toNat < 128) = true := by
    rw [b64, String.toList_ofList, List.all_eq_true]
    intro c hc
    exact decide_eq_true (Base64.toNat_lt_of_mem_encode hc)
  rw [unb64, if_pos hascii, b64, String.toList_ofList, Base64.decode_encode, Option.bind_some,
    ofUtf8_utf8]

lemma joined_ne_empty (filedAt id : String) : joined filedAt id ≠ "" := by
  intro h
  have := congrArg String.toList h
  simp [joined] at this

/-- A cursor is never the empty text, which would mean no cursor. -/
lemma encodeCursor_ne_empty (filedAt id : String) : encodeCursor filedAt id ≠ "" := by
  intro h
  have hlist := congrArg String.toList h
  rw [encodeCursor, b64, String.toList_ofList] at hlist
  exact Base64.encode_ne_nil (utf8_ne_nil (joined_ne_empty filedAt id)) (by simpa using hlist)

/-- What a cursor decodes to: the fields of the text it was made from. -/
lemma toOption_decodeCursor (filedAt id : String) :
    (decodeCursor (encodeCursor filedAt id)).toOption = fields (joined filedAt id) := by
  have hunb64 : unb64 (encodeCursor filedAt id) = some (joined filedAt id) := unb64_b64 _
  rw [decodeCursor, if_neg (encodeCursor_ne_empty filedAt id), fields]
  rcases hcut : cut (joined filedAt id) with _ | ⟨f, i⟩
  · simp only [hunb64, hcut]
    rfl
  · by_cases h : f = "" ∨ i = ""
    · have hnot : ¬(f ≠ "" ∧ i ≠ "") := fun hand => h.elim hand.1 hand.2
      simp only [hunb64, hcut, if_pos h]
      rw [Option.filter_some_neg (by simpa using hnot)]
      rfl
    · have hand : f ≠ "" ∧ i ≠ "" := not_or.1 h
      simp only [hunb64, hcut, if_neg h]
      rw [Option.filter_some_pos (by simpa using hand)]
      rfl

/-- The fields of a text that was put together from them. -/
lemma fields_joined {filedAt id : String} (hsep : sep ∉ filedAt.toList) (hfiled : filedAt ≠ "")
    (hid : id ≠ "") : fields (joined filedAt id) = some (filedAt, id) := by
  have hplain : ∀ c ∈ filedAt.toList, decide (c ≠ sep) = true := by
    intro c hc
    exact decide_eq_true (ne_of_mem_of_not_mem hc hsep)
  have htake : (filedAt.toList ++ sep :: id.toList).takeWhile (· ≠ sep) = filedAt.toList := by
    rw [List.takeWhile_append_of_pos hplain, List.takeWhile_cons_of_neg (by simp),
      List.append_nil]
  have hdrop : (filedAt.toList ++ sep :: id.toList).dropWhile (· ≠ sep) = sep :: id.toList := by
    rw [List.dropWhile_append_of_pos hplain, List.dropWhile_cons_of_neg (by simp)]
  have hcut : cut (joined filedAt id) = some (filedAt, id) := by
    rw [cut, joined, String.toList_ofList, if_pos (by simp), htake, hdrop, List.tail_cons,
      String.ofList_toList, String.ofList_toList]
  rw [fields, hcut, Option.filter_some_pos (by simp [hfiled, hid])]

/-! ### What is accepted -/

/-- A pair that a cursor is made for. -/
structure IsPosition (filedAt id : String) : Prop where
  sep : sep ∉ filedAt.toList
  filedAt : filedAt ≠ ""
  id : id ≠ ""

/-- The cursor is refused, or is that of the position it is decoded to. -/
def Strict (token : String) : Prop :=
  ∀ filedAt id, decodeCursor token = .ok (filedAt, id) →
    IsPosition filedAt id ∧ token = encodeCursor filedAt id

/-- The two fields are what the text was put together from. -/
lemma joined_of_fields {raw filedAt id : String} (h : fields raw = some (filedAt, id)) :
    IsPosition filedAt id ∧ raw = joined filedAt id := by
  obtain ⟨hcut, hne⟩ := Option.filter_eq_some_iff.1 h
  rw [cut] at hcut
  split_ifs at hcut with hsep
  obtain ⟨hf, hi⟩ := Prod.mk.inj (Option.some.inj hcut)
  have hdrop : raw.toList.dropWhile (· ≠ sep) = sep :: id.toList := by
    have hne' : raw.toList.dropWhile (· ≠ sep) ≠ [] := by
      intro hnil
      have hall := List.dropWhile_eq_nil_iff.1 hnil sep hsep
      simp at hall
    have hhead := List.head_dropWhile_not (· ≠ sep) hne'
    rw [← List.cons_head_tail hne', ← hi, String.toList_ofList]
    congr 1
    simpa using hhead
  refine ⟨⟨?_, ?_, ?_⟩, ?_⟩
  · rw [← hf, String.toList_ofList]
    intro hin
    simpa using List.mem_takeWhile_imp hin
  · simpa using (of_decide_eq_true hne).1
  · simpa using (of_decide_eq_true hne).2
  · apply String.toList_injective
    rw [joined, String.toList_ofList, ← hdrop, ← hf, String.toList_ofList,
      List.takeWhile_append_dropWhile]

/-- A cursor is decoded if its text has the two fields. -/
lemma decodeCursor_eq_ok {token filedAt id : String} :
    decodeCursor token = .ok (filedAt, id) ↔
      token ≠ "" ∧ ∃ raw, unb64 token = some raw ∧ fields raw = some (filedAt, id) := by
  rw [decodeCursor]
  by_cases hempty : token = ""
  · simp [hempty]
  rw [if_neg hempty]
  rcases hraw : unb64 token with _ | raw
  · simp
  · rcases hcut : cut raw with _ | ⟨f, i⟩
    · simp [fields, hcut]
    · by_cases h : f = "" ∨ i = ""
      · have hnone : fields raw = none := by
          rw [fields, hcut, Option.filter_some_neg]
          simpa using fun hf : ¬f = "" => h.resolve_left hf
        simp [hcut, h, hnone]
      · have hsome : fields raw = some (f, i) := by
          rw [fields, hcut, Option.filter_some_pos]
          simpa using not_or.1 h
        simp [hcut, h, hsome, hempty]

/-- Bytes that are read as a text are its UTF-8. -/
lemma utf8_of_ofUtf8 {bs : List UInt8} {s : String} (h : ofUtf8 bs = some s) : utf8 s = bs := by
  rw [ofUtf8, String.fromUTF8?] at h
  split_ifs at h with hvalid
  rw [← Option.some.inj h]
  rfl

/-- A canonical text is that of what it is read as. -/
lemma eq_b64_of_canonical {token raw : String} (h : Base64.canonical token.toList = true)
    (hraw : unb64 token = some raw) : token = b64 raw := by
  obtain ⟨bs, hbs⟩ := (Base64.canonical_iff _).1 h
  rw [unb64] at hraw
  split_ifs at hraw with hascii
  rw [hbs, Base64.decode_encode, Option.bind_some] at hraw
  apply String.toList_injective
  rw [b64, String.toList_ofList, hbs, utf8_of_ofUtf8 hraw]

/-- **The cursor codec.**  The cursor of a position is decoded to it; and a token is refused or is
the cursor of the position it is decoded to if and only if it is canonical base64, or what the
lenient reading of base64 makes of it lacks one of the fields. -/
theorem cursor_codec (token : String) :
    (∀ filedAt id, IsPosition filedAt id →
      decodeCursor (encodeCursor filedAt id) = .ok (filedAt, id)) ∧
    (Strict token ↔
      (Base64.canonical token.toList = true ∨
        ∀ raw, unb64 token = some raw → fields raw = none)) := by
  constructor
  · intro filedAt id h
    refine decodeCursor_eq_ok.2 ⟨encodeCursor_ne_empty filedAt id, _, unb64_b64 _, ?_⟩
    exact fields_joined h.sep h.filedAt h.id
  · constructor
    · intro hstrict
      refine or_iff_not_imp_right.2 fun hnot => ?_
      push Not at hnot
      obtain ⟨raw, hraw, hfields⟩ := hnot
      obtain ⟨⟨filedAt, id⟩, hsome⟩ := Option.ne_none_iff_exists'.1 hfields
      have hne : token ≠ "" := by
        rintro rfl
        have hempty : unb64 "" = some "" := by decide +kernel
        rw [hempty] at hraw
        have hnone : fields "" = none := by decide +kernel
        rw [← Option.some.inj hraw, hnone] at hsome
        cases hsome
      obtain ⟨-, htoken⟩ := hstrict filedAt id (decodeCursor_eq_ok.2 ⟨hne, raw, hraw, hsome⟩)
      rw [htoken, encodeCursor, b64, String.toList_ofList]
      exact Base64.canonical_encode _
    · intro hor filedAt id hok
      obtain ⟨-, raw, hraw, hsome⟩ := decodeCursor_eq_ok.1 hok
      obtain ⟨hpos, hjoined⟩ := joined_of_fields hsome
      refine ⟨hpos, ?_⟩
      rcases hor with hcanonical | hnone
      · rw [encodeCursor, ← hjoined]
        exact eq_b64_of_canonical hcanonical hraw
      · rw [hnone raw hraw] at hsome
        cases hsome

/-- A line break before the cursor of a position, and the same position. -/
theorem cursor_codec_fails : ¬ Strict ("\n" ++ encodeCursor "t" "d") := by
  intro h
  have hok : decodeCursor ("\n" ++ encodeCursor "t" "d") = .ok ("t", "d") := by decide +kernel
  exact absurd (h "t" "d" hok).2 (by decide +kernel)

end Window

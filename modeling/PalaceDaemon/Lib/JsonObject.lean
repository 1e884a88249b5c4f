/-
JSON objects with the operators of PostgreSQL's `jsonb`.

An object is the value of each key it has; `jsonb` keeps no order and no duplicates, so two
objects with the same values are equal.  A value is null, a text, or something else, of which
only the text form matters here.  `text` is the operator `->>`: the text of a value, and NULL
for a key that is missing or null.  `concat` is `||`, where the right operand wins, `erase` is
`-`, and `build` is `jsonb_build_object` on texts, where NULL becomes null.
-/
import Mathlib.Tactic.Common

/-- A JSON value. -/
inductive JsonValue
  | null
  | text (s : String)
  /-- A number, a boolean, an array or an object, by its text form. -/
  | other (s : String)
deriving DecidableEq, Repr

namespace JsonValue

/-- The text of a value, as `->>` gives it. -/
def asText : JsonValue → Option String
  | null => none
  | text s => some s
  | other s => some s

/-- A text column as a JSON value. -/
def ofText : Option String → JsonValue
  | none => null
  | some s => text s

@[simp] lemma asText_text (s : String) : (text s).asText = some s := rfl

@[simp] lemma asText_ofText (t : Option String) : (ofText t).asText = t := by
  cases t <;> rfl

end JsonValue

/-- A JSON object. -/
@[ext]
structure JsonObject where
  /-- The value of a key, if the object has the key. -/
  get : String → Option JsonValue

namespace JsonObject

variable (a b : JsonObject) (k : String)

/-- `a ->> k` -/
def text : Option String := (a.get k).bind JsonValue.asText

/-- `a ? k` -/
def has : Bool := (a.get k).isSome

/-- `a || b` -/
def concat : JsonObject := ⟨fun k => (b.get k).or (a.get k)⟩

/-- `a - k` -/
def erase : JsonObject := ⟨fun k' => if k' = k then none else a.get k'⟩

/-- `jsonb_build_object`, with a text for each key. -/
def build (l : List (String × Option String)) : JsonObject :=
  ⟨fun k => (l.lookup k).map JsonValue.ofText⟩

/-- The object with the given values and no others. -/
def ofList (l : List (String × JsonValue)) : JsonObject := ⟨fun k => l.lookup k⟩

@[simp] lemma get_concat : (a.concat b).get k = (b.get k).or (a.get k) := rfl

@[simp] lemma get_erase (k' : String) :
    (a.erase k).get k' = if k' = k then none else a.get k' := rfl

@[simp] lemma get_build (l : List (String × Option String)) :
    (build l).get k = (l.lookup k).map JsonValue.ofText := rfl

variable {a k}

lemma text_of_get {v : JsonValue} (h : a.get k = some v) : a.text k = v.asText := by
  simp [text, h]

lemma text_eq_none_of_not_has (h : a.has k = false) : a.text k = none := by
  simp only [has, Option.isSome_eq_false_iff, Option.isNone_iff_eq_none] at h
  simp [text, h]

lemma has_eq_false_iff : a.has k = false ↔ a.get k = none := by
  simp [has]

/-- An object with the keys `k` and `k'` set to texts. -/
lemma get_concat_build {k' : String} (hk : k ≠ k') (t t' : Option String) (j : String) :
    (a.concat (build [(k, t), (k', t')])).get j =
      if j = k then some (.ofText t) else if j = k' then some (.ofText t') else a.get j := by
  by_cases hj : j = k
  · simp [hj]
  · by_cases hj' : j = k'
    · simp [hj', Ne.symm hk, List.lookup_cons, beq_eq_false_iff_ne.2 (Ne.symm hk)]
    · simp [hj, hj', List.lookup_cons, beq_eq_false_iff_ne.2 hj, beq_eq_false_iff_ne.2 hj']

end JsonObject

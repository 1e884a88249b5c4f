/-
Dates and times of day of the years 1 to 9999, and their ISO 8601 texts.

The fields of such a text have fixed widths, so texts compare by their code points as the dates and
times they show (`Clock.text_lt_iff`), down to the second; what follows the second decides between
texts of the same second.  `Date.next` and `Date.prev` are a day's difference, with nothing after
the last day and before the first.
-/
import Mathlib.Data.Char
import Mathlib.Data.List.Lex
import Mathlib.Data.Nat.Digits.Defs
import Mathlib.Tactic.IntervalCases

namespace IsoTime

/-! ### Decimal digits -/

/-- The last `k` decimal digits of a number. -/
def digits : ℕ → ℕ → List Char
  | 0, _ => []
  | k + 1, n => digits k (n / 10) ++ [Nat.digitChar (n % 10)]

@[simp] lemma length_digits (k n : ℕ) : (digits k n).length = k := by
  induction k generalizing n with
  | zero => rfl
  | succ k ih => rw [digits, List.length_append, ih, List.length_singleton]

lemma mem_digits {k n : ℕ} {c : Char} (h : c ∈ digits k n) : ∃ d < 10, c = Nat.digitChar d := by
  induction k generalizing n with
  | zero => cases h
  | succ k ih =>
    rcases List.mem_append.1 h with h | h
    · exact ih h
    · exact ⟨n % 10, Nat.mod_lt _ (by decide), List.mem_singleton.1 h⟩

/-- The last digits of a number follow its first ones. -/
lemma digits_add (k j n : ℕ) :
    digits (k + j) n = digits k (n / 10 ^ j) ++ digits j (n % 10 ^ j) := by
  induction j generalizing n with
  | zero => rw [Nat.pow_zero, Nat.div_one, Nat.add_zero, digits, List.append_nil]
  | succ j ih =>
    rw [← Nat.add_assoc, digits, ih, digits, Nat.div_div_eq_div_mul, Nat.pow_succ',
      Nat.mod_mul_right_div_self, Nat.mod_mul_right_mod, List.append_assoc]

lemma digitChar_lt_iff {a b : ℕ} (ha : a < 10) (hb : b < 10) :
    Nat.digitChar a < Nat.digitChar b ↔ a < b := by
  rw [Char.lt_def]
  interval_cases a <;> interval_cases b <;> decide

lemma digitChar_inj {a b : ℕ} (ha : a < 10) (hb : b < 10) :
    Nat.digitChar a = Nat.digitChar b ↔ a = b := by
  constructor
  · intro h
    rcases Nat.lt_trichotomy a b with hlt | heq | hlt
    · exact absurd h ((digitChar_lt_iff ha hb).2 hlt).ne
    · exact heq
    · exact absurd h.symm ((digitChar_lt_iff hb ha).2 hlt).ne
  · rintro rfl
    rfl

/-- **Digits.** Of two texts that begin with as many digits, the numbers decide, and what follows
where they are equal. -/
theorem digits_lt_iff {k n m : ℕ} (hn : n < 10 ^ k) (hm : m < 10 ^ k) (s t : List Char) :
    digits k n ++ s < digits k m ++ t ↔ n < m ∨ n = m ∧ s < t := by
  induction k generalizing n m s t with
  | zero =>
    rw [Nat.pow_zero, Nat.lt_one_iff] at hn hm
    rw [hn, hm]
    simp [digits]
  | succ k ih =>
    rw [Nat.pow_succ] at hn hm
    rw [digits, digits, List.append_assoc, List.append_assoc, ih (by omega) (by omega),
      List.singleton_append, List.singleton_append, List.cons_lt_cons_iff,
      digitChar_lt_iff (Nat.mod_lt _ (by decide)) (Nat.mod_lt _ (by decide)),
      digitChar_inj (Nat.mod_lt _ (by decide)) (Nat.mod_lt _ (by decide))]
    constructor
    · rintro (h | ⟨h, h' | ⟨h', hst⟩⟩)
      · omega
      · omega
      · exact .inr ⟨by omega, hst⟩
    · rintro (h | ⟨rfl, hst⟩)
      · omega
      · exact .inr ⟨rfl, .inr ⟨rfl, hst⟩⟩

/-! ### Dates -/

def isLeap (year : ℕ) : Bool := year % 4 = 0 ∧ (year % 100 ≠ 0 ∨ year % 400 = 0)

def daysInMonth (year month : ℕ) : ℕ :=
  if month = 2 then if isLeap year then 29 else 28
  else if month = 4 ∨ month = 6 ∨ month = 9 ∨ month = 11 then 30 else 31

/-- A date of the years that `datetime` has. -/
@[ext]
structure Date where
  year : ℕ
  month : ℕ
  day : ℕ
  year_pos : 1 ≤ year
  year_le : year ≤ 9999
  month_pos : 1 ≤ month
  month_le : month ≤ 12
  day_pos : 1 ≤ day
  day_le : day ≤ daysInMonth year month
deriving DecidableEq

/-- The days in the years before this one. -/
def daysBeforeYear (year : ℕ) : ℕ :=
  (year - 1) * 365 + (year - 1) / 4 - (year - 1) / 100 + (year - 1) / 400

/-- The days of the year before the month. -/
def daysBeforeMonth (year : ℕ) : ℕ → ℕ
  | 0 => 0
  | 1 => 0
  | month + 2 => daysBeforeMonth year (month + 1) + daysInMonth year (month + 1)

/-- `date.toordinal` -/
def Date.ordinal (d : Date) : ℕ := daysBeforeYear d.year + daysBeforeMonth d.year d.month + d.day

lemma daysBeforeYear_succ {year : ℕ} (h : 1 ≤ year) :
    daysBeforeYear (year + 1) = daysBeforeYear year + if isLeap year then 366 else 365 := by
  obtain ⟨n, rfl⟩ := Nat.exists_eq_add_of_le' h
  have hdiv : ∀ k, (n + 1) / k = n / k + if (n + 1) % k = 0 then 1 else 0 := fun k => by
    rw [Nat.succ_div]
    simp only [Nat.dvd_iff_mod_eq_zero]
  have hle : n / 100 ≤ n / 4 := Nat.div_le_div_left (by decide) (by decide)
  -- a leap year is one in which the quotients by 4, 100 and 400 grow by one in all
  have h100 : (n + 1) % 100 = 0 → (n + 1) % 4 = 0 := by omega
  have h400 : (n + 1) % 400 = 0 → (n + 1) % 100 = 0 := by omega
  simp only [daysBeforeYear, isLeap, Nat.add_sub_cancel, decide_eq_true_eq, hdiv]
  generalize (n + 1) % 4 = r4, (n + 1) % 100 = r100, (n + 1) % 400 = r400 at *
  generalize n / 4 = a, n / 100 = b, n / 400 = c at *
  by_cases hr400 : r400 = 0
  · have hr100 := h400 hr400
    have hr4 := h100 hr100
    simp only [hr400, hr100, hr4, if_true, ne_eq, not_true, or_true, and_true]
    omega
  · by_cases hr100 : r100 = 0
    · have hr4 := h100 hr100
      simp only [hr400, hr100, hr4, if_true, if_false, ne_eq, not_true, or_false, and_false]
      omega
    · by_cases hr4 : r4 = 0
      · simp only [hr400, hr100, hr4, if_true, if_false, ne_eq, not_false_iff, true_or, and_true]
        omega
      · simp only [hr400, hr100, hr4, if_false, false_and]
        omega

lemma daysBeforeYear_mono {y z : ℕ} (hy : 1 ≤ y) (h : y ≤ z) :
    daysBeforeYear y ≤ daysBeforeYear z := by
  induction z, h using Nat.le_induction with
  | base => exact le_rfl
  | succ z hyz ih =>
    rw [daysBeforeYear_succ (hy.trans hyz)]
    exact ih.trans (Nat.le_add_right ..)

/-- The months fill the year. -/
lemma daysBeforeMonth_twelve (year : ℕ) :
    daysBeforeMonth year 12 + 31 = if isLeap year then 366 else 365 := by
  simp only [daysBeforeMonth, daysInMonth]
  cases isLeap year <;> rfl

lemma daysBeforeMonth_succ (year : ℕ) {month : ℕ} (h : 1 ≤ month) :
    daysBeforeMonth year (month + 1) = daysBeforeMonth year month + daysInMonth year month := by
  obtain ⟨m, rfl⟩ := Nat.exists_eq_add_of_le' h
  rfl

lemma daysBeforeMonth_le (year : ℕ) {m n : ℕ} (hm : 1 ≤ m) (h : m < n) :
    daysBeforeMonth year m + daysInMonth year m ≤ daysBeforeMonth year n := by
  induction n, h using Nat.le_induction with
  | base => exact (daysBeforeMonth_succ year hm).ge
  | succ n hmn ih =>
    rw [daysBeforeMonth_succ year (by omega)]
    exact ih.trans (Nat.le_add_right ..)

/-- A date is within its year. -/
lemma Date.dayOfYear_le (d : Date) :
    daysBeforeMonth d.year d.month + d.day ≤ if isLeap d.year then 366 else 365 := by
  have hday := d.day_le
  rw [← daysBeforeMonth_twelve]
  rcases Nat.lt_or_ge d.month 12 with hlt | hge
  · exact (Nat.add_le_add_left hday _).trans
      ((daysBeforeMonth_le d.year d.month_pos hlt).trans (Nat.le_add_right ..))
  · have heq : d.month = 12 := le_antisymm d.month_le hge
    rw [heq] at hday ⊢
    exact Nat.add_le_add_left hday _

/-- Dates by their fields. -/
def Date.Before (d e : Date) : Prop :=
  d.year < e.year ∨ d.year = e.year ∧ (d.month < e.month ∨ d.month = e.month ∧ d.day < e.day)

lemma Date.ordinal_lt_of_before {d e : Date} (h : d.Before e) : d.ordinal < e.ordinal := by
  unfold ordinal
  rcases h with hyear | ⟨hyear, hmonth | ⟨hmonth, hday⟩⟩
  · have hd := d.dayOfYear_le
    have hnext := daysBeforeYear_succ d.year_pos
    have hmono := daysBeforeYear_mono (Nat.le_add_left 1 d.year) hyear
    have he := e.day_pos
    omega
  · have hle := daysBeforeMonth_le d.year d.month_pos hmonth
    have hd := d.day_le
    have he := e.day_pos
    rw [← hyear]
    omega
  · rw [← hyear, ← hmonth]
    omega

lemma Date.before_trichotomy (d e : Date) : d.Before e ∨ d = e ∨ e.Before d := by
  unfold Before
  by_cases heq : d.year = e.year ∧ d.month = e.month ∧ d.day = e.day
  · exact .inr (.inl (Date.ext heq.1 heq.2.1 heq.2.2))
  · omega

/-- **Dates by their ordinals.** -/
theorem Date.ordinal_lt_iff {d e : Date} : d.ordinal < e.ordinal ↔ d.Before e := by
  refine ⟨fun h => ?_, ordinal_lt_of_before⟩
  rcases d.before_trichotomy e with hlt | rfl | hlt
  · exact hlt
  · exact absurd h (lt_irrefl _)
  · exact absurd h (ordinal_lt_of_before hlt).asymm

theorem Date.ordinal_inj {d e : Date} : d.ordinal = e.ordinal ↔ d = e := by
  refine ⟨fun h => ?_, congrArg _⟩
  rcases d.before_trichotomy e with hlt | heq | hlt
  · exact absurd h (ordinal_lt_of_before hlt).ne
  · exact heq
  · exact absurd h (ordinal_lt_of_before hlt).ne'

/-! ### The day after and the day before -/

lemma daysInMonth_pos (year month : ℕ) : 1 ≤ daysInMonth year month := by
  unfold daysInMonth
  split_ifs <;> decide

/-- `d + timedelta(days=1)` -/
def Date.next (d : Date) : Option Date :=
  if h : d.day < daysInMonth d.year d.month then
    some { d with day := d.day + 1, day_pos := Nat.le_add_left .., day_le := h }
  else if h : d.month < 12 then
    some
      { d with
        month := d.month + 1
        day := 1
        month_pos := Nat.le_add_left ..
        month_le := h
        day_pos := le_rfl
        day_le := daysInMonth_pos .. }
  else if h : d.year < 9999 then
    some ⟨d.year + 1, 1, 1, Nat.le_add_left .., h, le_rfl, by decide, le_rfl, daysInMonth_pos ..⟩
  else none

/-- `d - timedelta(days=1)` -/
def Date.prev (d : Date) : Option Date :=
  if h : 1 < d.day then
    some
      { d with
        day := d.day - 1
        day_pos := Nat.le_sub_one_of_lt h
        day_le := (Nat.sub_le ..).trans d.day_le }
  else if h : 1 < d.month then
    some
      { d with
        month := d.month - 1
        day := daysInMonth d.year (d.month - 1)
        month_pos := Nat.le_sub_one_of_lt h
        month_le := (Nat.sub_le ..).trans d.month_le
        day_pos := daysInMonth_pos ..
        day_le := le_rfl }
  else if h : 1 < d.year then
    some ⟨d.year - 1, 12, 31, Nat.le_sub_one_of_lt h, (Nat.sub_le ..).trans d.year_le, by decide,
      le_rfl, by decide, le_rfl⟩
  else none

lemma Date.ordinal_next {d e : Date} (h : d.next = some e) : e.ordinal = d.ordinal + 1 := by
  have hday := d.day_le
  unfold next at h
  split_ifs at h with hlast hmonth hyear
  · obtain rfl := Option.some_injective _ h
    rfl
  · obtain rfl := Option.some_injective _ h
    have hstep := daysBeforeMonth_succ d.year d.month_pos
    simp only [ordinal]
    omega
  · obtain rfl := Option.some_injective _ h
    have heq : d.month = 12 := le_antisymm d.month_le (Nat.le_of_not_lt hmonth)
    have hstep := daysBeforeYear_succ d.year_pos
    have hfull := daysBeforeMonth_twelve d.year
    rw [heq] at hday hlast
    have h31 : daysInMonth d.year 12 = 31 := rfl
    simp only [ordinal, daysBeforeMonth, heq] at hfull ⊢
    omega

lemma Date.ordinal_prev {d e : Date} (h : d.prev = some e) : e.ordinal + 1 = d.ordinal := by
  have hpos := d.day_pos
  unfold prev at h
  split_ifs at h with hfirst hmonth hyear
  · obtain rfl := Option.some_injective _ h
    simp only [ordinal]
    omega
  · obtain rfl := Option.some_injective _ h
    have hstep := daysBeforeMonth_succ d.year (Nat.le_sub_one_of_lt hmonth)
    rw [Nat.sub_add_cancel d.month_pos] at hstep
    simp only [ordinal]
    omega
  · obtain rfl := Option.some_injective _ h
    have heq : d.month = 1 := le_antisymm (Nat.le_of_not_lt hmonth) d.month_pos
    have hstep := daysBeforeYear_succ (Nat.le_sub_one_of_lt hyear)
    rw [Nat.sub_add_cancel d.year_pos] at hstep
    have hfull := daysBeforeMonth_twelve (d.year - 1)
    have hzero : daysBeforeMonth d.year 1 = 0 := rfl
    simp only [ordinal, heq]
    omega

lemma Date.next_eq_none_iff {d : Date} :
    d.next = none ↔ d.year = 9999 ∧ d.month = 12 ∧ d.day = 31 := by
  have hday := d.day_le
  have hmonth := d.month_le
  have hyear := d.year_le
  have h31 : ∀ year, daysInMonth year 12 = 31 := fun _ => rfl
  unfold next
  split_ifs with h1 h2 h3
  · refine iff_of_false not_false fun h => ?_
    rw [h.2.1, h31] at h1
    omega
  · exact iff_of_false not_false fun h => by omega
  · exact iff_of_false not_false fun h => by omega
  · have heq : d.month = 12 := by omega
    rw [heq, h31] at h1 hday
    exact iff_of_true rfl ⟨by omega, heq, by omega⟩

lemma Date.prev_eq_none_iff {d : Date} :
    d.prev = none ↔ d.year = 1 ∧ d.month = 1 ∧ d.day = 1 := by
  have hday := d.day_pos
  have hmonth := d.month_pos
  have hyear := d.year_pos
  unfold prev
  split_ifs with h1 h2 h3
  · exact iff_of_false not_false fun h => by omega
  · exact iff_of_false not_false fun h => by omega
  · exact iff_of_false not_false fun h => by omega
  · exact iff_of_true rfl ⟨by omega, by omega, by omega⟩

/-- A number of days later. -/
def Date.later : ℕ → Date → Option Date
  | 0, d => some d
  | n + 1, d => d.next.bind (later n)

/-- A number of days earlier. -/
def Date.earlier : ℕ → Date → Option Date
  | 0, d => some d
  | n + 1, d => d.prev.bind (earlier n)

/-- `d + timedelta(days=days)`; out of the years 1 to 9999 it raises `OverflowError`. -/
def Date.plusDays (d : Date) : ℤ → Option Date
  | .ofNat n => d.later n
  | .negSucc n => d.earlier (n + 1)

lemma Date.plusDays_one (d : Date) : d.plusDays 1 = d.next := by
  show d.next.bind some = d.next
  cases d.next <;> rfl

lemma Date.plusDays_neg_one (d : Date) : d.plusDays (-1) = d.prev := by
  show d.prev.bind some = d.prev
  cases d.prev <;> rfl

/-! ### Texts -/

lemma cons_lt_cons_self {c : Char} {s t : List Char} : c :: s < c :: t ↔ s < t := by
  rw [List.cons_lt_cons_iff, or_iff_right (lt_irrefl c)]
  exact and_iff_right rfl

/-- `YYYY-MM-DD`, and what follows. -/
def Date.text (d : Date) (rest : List Char) : List Char :=
  digits 4 d.year ++ '-' :: (digits 2 d.month ++ '-' :: (digits 2 d.day ++ rest))

lemma daysInMonth_le (year month : ℕ) : daysInMonth year month ≤ 31 := by
  unfold daysInMonth
  split_ifs <;> decide

lemma Date.text_lt_iff (d e : Date) (s t : List Char) :
    d.text s < e.text t ↔ d.ordinal < e.ordinal ∨ d.ordinal = e.ordinal ∧ s < t := by
  have hyear : ∀ d : Date, d.year < 10 ^ 4 := fun d => d.year_le.trans_lt (by decide)
  have hmonth : ∀ d : Date, d.month < 10 ^ 2 := fun d => d.month_le.trans_lt (by decide)
  have hday : ∀ d : Date, d.day < 10 ^ 2 := fun d =>
    (d.day_le.trans (daysInMonth_le ..)).trans_lt (by decide)
  rw [text, text, digits_lt_iff (hyear d) (hyear e), cons_lt_cons_self,
    digits_lt_iff (hmonth d) (hmonth e), cons_lt_cons_self, digits_lt_iff (hday d) (hday e),
    ordinal_lt_iff, ordinal_inj, Before, Date.ext_iff]
  simp only [and_or_left, or_assoc, and_assoc]

/-- `HH:MM:SS` of a second of the day, and what follows. -/
def timeText (second : ℕ) (rest : List Char) : List Char :=
  digits 2 (second / 3600) ++ ':' :: (digits 2 (second / 60 % 60) ++ ':' ::
    (digits 2 (second % 60) ++ rest))

lemma timeText_lt_iff {n m : ℕ} (hn : n < 86400) (hm : m < 86400) (s t : List Char) :
    timeText n s < timeText m t ↔ n < m ∨ n = m ∧ s < t := by
  rw [timeText, timeText, digits_lt_iff (by omega) (by omega), cons_lt_cons_self,
    digits_lt_iff (by omega) (by omega), cons_lt_cons_self, digits_lt_iff (by omega) (by omega)]
  constructor
  · rintro (h | ⟨h, h' | ⟨h', h'' | ⟨h'', hst⟩⟩⟩)
    · omega
    · omega
    · omega
    · exact .inr ⟨by omega, hst⟩
  · rintro (h | ⟨rfl, hst⟩)
    · omega
    · exact .inr ⟨rfl, .inr ⟨rfl, .inr ⟨rfl, hst⟩⟩⟩

/-- A date and a time of day, in microseconds. -/
structure Clock where
  date : Date
  micro : ℕ
  micro_lt : micro < 86400000000
deriving DecidableEq

namespace Clock

/-- The microseconds since the day before the first. -/
def wall (c : Clock) : ℤ := c.date.ordinal * 86400000000 + c.micro

/-- The microseconds of the second. -/
def fraction (c : Clock) : ℕ := c.micro % 1000000

/-- `YYYY-MM-DDTHH:MM:SS`, and what follows. -/
def text (c : Clock) (rest : List Char) : List Char :=
  c.date.text ('T' :: timeText (c.micro / 1000000) rest)

/-- **Texts of times.** Texts compare as the seconds they show, and then as what follows. -/
theorem text_lt_iff (c d : Clock) (s t : List Char) : c.text s < d.text t ↔
    c.wall - c.fraction < d.wall - d.fraction ∨
      c.wall - c.fraction = d.wall - d.fraction ∧ s < t := by
  have hc := c.micro_lt
  have hd := d.micro_lt
  rw [text, text, Date.text_lt_iff, cons_lt_cons_self,
    timeText_lt_iff (by omega) (by omega), wall, wall, fraction, fraction]
  constructor
  · rintro (h | ⟨h, h' | ⟨h', hst⟩⟩)
    · exact .inl (by omega)
    · exact .inl (by omega)
    · exact .inr ⟨by omega, hst⟩
  · rintro (h | ⟨h, hst⟩)
    · omega
    · refine .inr ⟨by omega, .inr ⟨by omega, hst⟩⟩

lemma text_append (c : Clock) (s t : List Char) : c.text (s ++ t) = c.text s ++ t := by
  simp only [text, Date.text, timeText, List.append_assoc, List.cons_append]

/-- A text of whole seconds ends in a digit. -/
lemma exists_text_nil (c : Clock) : ∃ l, ∃ d < 10, c.text [] = l ++ [Nat.digitChar d] := by
  have hsplit : c.text [] = c.date.text ('T' :: (digits 2 (c.micro / 1000000 / 3600) ++
      ':' :: (digits 2 (c.micro / 1000000 / 60 % 60) ++ [':']))) ++
      digits 2 (c.micro / 1000000 % 60) := by
    simp only [text, timeText, Date.text, List.append_assoc, List.cons_append, List.nil_append,
      List.append_nil]
  have hlast : ∀ n, digits 2 n = digits 1 (n / 10) ++ [Nat.digitChar (n % 10)] := fun _ => rfl
  rw [hlast (c.micro / 1000000 % 60), ← List.append_assoc] at hsplit
  exact ⟨_, _, Nat.mod_lt _ (by decide), hsplit⟩

end Clock

/-- A `datetime`: a time, with its offset from UTC in microseconds where it has one. -/
structure Moment where
  clock : Clock
  offset : Option ℤ
deriving DecidableEq

/-- `±HH:MM`, with seconds and microseconds where there are any. -/
def offsetText (offset : ℤ) : List Char :=
  let size := offset.natAbs
  (if offset < 0 then '-' else '+') :: (digits 2 (size / 3600000000) ++
    ':' :: (digits 2 (size / 60000000 % 60) ++
      if size % 60000000 = 0 then []
      else ':' :: (digits 2 (size / 1000000 % 60) ++
        if size % 1000000 = 0 then [] else '.' :: digits 6 (size % 1000000))))

/-- `datetime.isoformat` after the seconds. -/
def Moment.tail (m : Moment) : List Char :=
  (if m.clock.fraction = 0 then [] else '.' :: digits 6 m.clock.fraction) ++
    m.offset.elim [] offsetText

/-- `datetime.isoformat` -/
def Moment.isoformat (m : Moment) : List Char := m.clock.text m.tail

/-- `m + timedelta(days=days)` -/
def Moment.plusDays (m : Moment) (days : ℤ) : Option Moment :=
  (m.clock.date.plusDays days).map fun date => { m with clock := { m.clock with date := date } }

lemma Moment.plusDays_one {m m' : Moment} (h : m.plusDays 1 = some m') :
    m'.clock.wall = m.clock.wall + 86400000000 ∧ m'.clock.fraction = m.clock.fraction ∧
      m'.offset = m.offset := by
  rw [plusDays, Date.plusDays_one, Option.map_eq_some_iff] at h
  obtain ⟨date, hdate, rfl⟩ := h
  have hordinal := Date.ordinal_next hdate
  refine ⟨?_, rfl, rfl⟩
  rw [Clock.wall, Clock.wall, hordinal]
  push_cast
  ring

lemma Moment.plusDays_neg_one {m m' : Moment} (h : m.plusDays (-1) = some m') :
    m'.clock.wall = m.clock.wall - 86400000000 ∧ m'.clock.fraction = m.clock.fraction ∧
      m'.offset = m.offset := by
  rw [plusDays, Date.plusDays_neg_one, Option.map_eq_some_iff] at h
  obtain ⟨date, hdate, rfl⟩ := h
  have hordinal := Date.ordinal_prev hdate
  refine ⟨?_, rfl, rfl⟩
  rw [Clock.wall, Clock.wall, ← hordinal]
  push_cast
  ring

lemma Moment.plusDays_one_eq_none_iff {m : Moment} : m.plusDays 1 = none ↔
    m.clock.date.year = 9999 ∧ m.clock.date.month = 12 ∧ m.clock.date.day = 31 := by
  rw [plusDays, Date.plusDays_one, Option.map_eq_none_iff, Date.next_eq_none_iff]

lemma Moment.plusDays_neg_one_eq_none_iff {m : Moment} : m.plusDays (-1) = none ↔
    m.clock.date.year = 1 ∧ m.clock.date.month = 1 ∧ m.clock.date.day = 1 := by
  rw [plusDays, Date.plusDays_neg_one, Option.map_eq_none_iff, Date.prev_eq_none_iff]

/-! ### Reading -/

/-- The number that digits show. -/
def number (text : List Char) : ℕ := text.foldl (fun n c => n * 10 + (c.toNat - 48)) 0

lemma number_digits {k n : ℕ} (h : n < 10 ^ k) : number (digits k n) = n := by
  induction k generalizing n with
  | zero =>
    rw [Nat.pow_zero, Nat.lt_one_iff] at h
    rw [h]
    rfl
  | succ k ih =>
    rw [Nat.pow_succ] at h
    have hlast : (Nat.digitChar (n % 10)).toNat = 48 + n % 10 :=
      Nat.toNat_digitChar_of_lt_ten (Nat.mod_lt _ (by decide))
    have hfront : number (digits k (n / 10)) = n / 10 := ih (by omega)
    unfold number at hfront ⊢
    rw [digits, List.foldl_concat, hfront, hlast]
    omega

/-- The microseconds that a text shows: a date, a time of day and the digits of a fraction. -/
def readWall (text : List Char) : ℤ :=
  let year := number (text.take 4)
  let month := number ((text.drop 5).take 2)
  let day := number ((text.drop 8).take 2)
  let second := number ((text.drop 11).take 2) * 3600 + number ((text.drop 14).take 2) * 60 +
    number ((text.drop 17).take 2)
  let decimals := text.drop 20
  (daysBeforeYear year + daysBeforeMonth year month + day : ℕ) * 86400000000 +
    (second * 1000000 + number decimals * 10 ^ (6 - decimals.length) : ℕ)

lemma number_take {k n : ℕ} {rest : List Char} (h : n < 10 ^ k) :
    number ((digits k n ++ rest).take k) = n := by
  rw [List.take_left' (length_digits k n), number_digits h]

lemma drop_field {k n : ℕ} {c : Char} {rest : List Char} :
    (digits k n ++ c :: rest).drop (k + 1) = rest := by
  rw [← List.drop_drop, List.drop_left' (length_digits k n)]
  rfl

/-- **Reading a text.** The text of a time, with a fraction of at most six digits or none, is read
back. -/
theorem readWall_text (c : Clock) {k f : ℕ} {rest : List Char} (hf : f < 10 ^ k)
    (hrest : rest.drop 1 = digits k f) (hfraction : c.fraction = f * 10 ^ (6 - k)) :
    readWall (c.text rest) = c.wall := by
  have hyear := c.date.year_le
  have hmonth := c.date.month_le
  have hday := c.date.day_le.trans (daysInMonth_le ..)
  have hmicro := c.micro_lt
  -- the fields, each after the ones before it
  have h5 : (c.text rest).drop 5 = digits 2 c.date.month ++ '-' :: (digits 2 c.date.day ++
      'T' :: timeText (c.micro / 1000000) rest) := drop_field
  have h8 : (c.text rest).drop 8 =
      digits 2 c.date.day ++ 'T' :: timeText (c.micro / 1000000) rest := by
    rw [show 8 = 5 + (2 + 1) from rfl, ← List.drop_drop, h5, drop_field]
  have h11 : (c.text rest).drop 11 = timeText (c.micro / 1000000) rest := by
    rw [show 11 = 8 + (2 + 1) from rfl, ← List.drop_drop, h8, drop_field]
  have h14 : (c.text rest).drop 14 = digits 2 (c.micro / 1000000 / 60 % 60) ++
      ':' :: (digits 2 (c.micro / 1000000 % 60) ++ rest) := by
    rw [show 14 = 11 + (2 + 1) from rfl, ← List.drop_drop, h11, timeText, drop_field]
  have h17 : (c.text rest).drop 17 = digits 2 (c.micro / 1000000 % 60) ++ rest := by
    rw [show 17 = 14 + (2 + 1) from rfl, ← List.drop_drop, h14, drop_field]
  have h20 : (c.text rest).drop 20 = digits k f := by
    rw [show 20 = 17 + (2 + 1) from rfl, ← List.drop_drop, h17, ← List.drop_drop,
      List.drop_left' (length_digits ..), hrest]
  rw [readWall, h5, h8, h11, h14, h17, h20, Clock.text, Date.text, timeText,
    number_take (by omega), number_take (by omega), number_take (by omega),
    number_take (by omega), number_take (by omega), number_take (by omega), number_digits hf,
    length_digits, ← hfraction, Clock.wall, Date.ordinal, Clock.fraction]
  omega

end IsoTime

import Mathlib.Data.Nat.Basic
import Mathlib.Data.Prod.Lex
import Mathlib.Tactic.IntervalCases

/-!
# The Gregorian calendar

Days are counted from the first day of the year 0, `dayNumber`, and seconds from its first second,
`Civil.instant`.  Every day of a year belongs to one day of a month, `exists_month`, every number
of days to one day of a year, `exists_year`, and later times have later instants,
`Civil.instant_lt`.
-/

namespace Bitloops
namespace Gregorian

/-! ## Years -/

def IsLeap (year : ℕ) : Prop := year % 4 = 0 ∧ year % 100 ≠ 0 ∨ year % 400 = 0

instance (year : ℕ) : Decidable (IsLeap year) := by unfold IsLeap; infer_instance

def yearLength (year : ℕ) : ℕ := if IsLeap year then 366 else 365

/-- The days before the year. -/
def yearStart (year : ℕ) : ℕ :=
  365 * year + (year + 3) / 4 + (year + 399) / 400 - (year + 99) / 100

theorem yearStart_succ (year : ℕ) : yearStart (year + 1) = yearStart year + yearLength year := by
  by_cases h : IsLeap year
  · rw [yearLength, if_pos h]
    unfold IsLeap at h
    unfold yearStart
    omega
  · rw [yearLength, if_neg h]
    unfold IsLeap at h
    unfold yearStart
    omega

theorem yearLength_pos (year : ℕ) : 0 < yearLength year := by
  unfold yearLength
  split_ifs <;> omega

theorem yearStart_mono {year year' : ℕ} (h : year ≤ year') : yearStart year ≤ yearStart year' := by
  induction year', h using Nat.le_induction with
  | base => exact le_refl _
  | succ year' _ ih => exact ih.trans (by rw [yearStart_succ]; omega)

theorem le_yearStart (year : ℕ) : year ≤ yearStart year := by
  unfold yearStart
  omega

/-- Where spans follow one another, every number lies in one of them. -/
theorem exists_span {start : ℕ → ℕ} {n k : ℕ} (hzero : start 0 ≤ n) (hk : n < start k) :
    ∃ i < k, start i ≤ n ∧ n < start (i + 1) := by
  induction k with
  | zero => omega
  | succ k ih =>
    rcases Nat.lt_or_ge n (start k) with hlt | hge
    · obtain ⟨i, hi, hspan⟩ := ih hlt
      exact ⟨i, by omega, hspan⟩
    · exact ⟨k, by omega, hge, hk⟩

theorem exists_year {first days : ℕ} (h : yearStart first ≤ days) :
    ∃ year, first ≤ year ∧ yearStart year ≤ days ∧ days < yearStart year + yearLength year := by
  have hlt : days < yearStart (first + (days + 1)) :=
    Nat.lt_of_lt_of_le (by omega) (le_yearStart _)
  obtain ⟨i, -, hle, hlt⟩ := @exists_span (fun i => yearStart (first + i)) _ _ h hlt
  refine ⟨first + i, by omega, hle, ?_⟩
  rw [← yearStart_succ]
  exact hlt

/-! ## Months -/

def monthLength (year month : ℕ) : ℕ :=
  if month = 2 then if IsLeap year then 29 else 28
  else if month = 4 ∨ month = 6 ∨ month = 9 ∨ month = 11 then 30
  else 31

/-- The days of the year before the month. -/
def monthStart (year : ℕ) : ℕ → ℕ
  | 0 => 0
  | 1 => 0
  | month + 2 => monthStart year (month + 1) + monthLength year (month + 1)

theorem monthStart_succ (year : ℕ) {month : ℕ} (h : 1 ≤ month) :
    monthStart year (month + 1) = monthStart year month + monthLength year month := by
  obtain ⟨month, rfl⟩ : ∃ m, month = m + 1 := ⟨month - 1, by omega⟩
  rfl

theorem monthStart_mono (year : ℕ) {month month' : ℕ} (h : 1 ≤ month) (hle : month ≤ month') :
    monthStart year month ≤ monthStart year month' := by
  induction month', hle using Nat.le_induction with
  | base => exact le_refl _
  | succ month' hmonth ih =>
    exact ih.trans (by rw [monthStart_succ year (h.trans hmonth)]; omega)

/-- The twelve months fill the year. -/
theorem monthStart_thirteen (year : ℕ) : monthStart year 13 = yearLength year := by
  change 0 + 31 + (if IsLeap year then 29 else 28) + 31 + 30 + 31 + 30 + 31 + 31 + 30 + 31 + 30
    + 31 = if IsLeap year then 366 else 365
  by_cases h : IsLeap year
  · rw [if_pos h, if_pos h]
  · rw [if_neg h, if_neg h]

theorem exists_month {year days : ℕ} (h : days < yearLength year) :
    ∃ month, 1 ≤ month ∧ month ≤ 12 ∧ monthStart year month ≤ days ∧
      days < monthStart year month + monthLength year month := by
  rw [← monthStart_thirteen] at h
  obtain ⟨i, hi, hle, hlt⟩ := @exists_span (fun i => monthStart year (1 + i)) _ 12
    (Nat.zero_le _) h
  refine ⟨1 + i, by omega, by omega, hle, ?_⟩
  rw [← monthStart_succ year (by omega)]
  exact hlt

/-! ## Times -/

/-- A date with a time of the day. -/
@[ext]
structure Civil where
  year : ℕ
  month : ℕ
  day : ℕ
  hour : ℕ
  minute : ℕ
  second : ℕ
  deriving DecidableEq

namespace Civil

structure Valid (t : Civil) : Prop where
  month_pos : 1 ≤ t.month
  month_le : t.month ≤ 12
  day_pos : 1 ≤ t.day
  day_le : t.day ≤ monthLength t.year t.month
  hour_le : t.hour ≤ 23
  minute_le : t.minute ≤ 59
  second_le : t.second ≤ 59

instance (t : Civil) : Decidable t.Valid :=
  decidable_of_iff (1 ≤ t.month ∧ t.month ≤ 12 ∧ 1 ≤ t.day ∧ t.day ≤ monthLength t.year t.month ∧
      t.hour ≤ 23 ∧ t.minute ≤ 59 ∧ t.second ≤ 59)
    ⟨fun ⟨h₁, h₂, h₃, h₄, h₅, h₆, h₇⟩ => ⟨h₁, h₂, h₃, h₄, h₅, h₆, h₇⟩,
      fun ⟨h₁, h₂, h₃, h₄, h₅, h₆, h₇⟩ => ⟨h₁, h₂, h₃, h₄, h₅, h₆, h₇⟩⟩

def dayNumber (t : Civil) : ℕ := yearStart t.year + monthStart t.year t.month + (t.day - 1)

def secondOfDay (t : Civil) : ℕ := t.hour * 3600 + t.minute * 60 + t.second

def instant (t : Civil) : ℕ := t.dayNumber * 86400 + t.secondOfDay

/-- The fields in their order. -/
def key (t : Civil) : ℕ ×ₗ ℕ ×ₗ ℕ ×ₗ ℕ ×ₗ ℕ ×ₗ ℕ :=
  toLex (t.year, toLex (t.month, toLex (t.day, toLex (t.hour, toLex (t.minute, t.second)))))

variable {t t' : Civil}

theorem Valid.dayOfYear_lt (h : t.Valid) :
    monthStart t.year t.month + (t.day - 1) < yearLength t.year := by
  have hend := monthStart_mono t.year (Nat.le_add_left 1 t.month) (Nat.succ_le_succ h.month_le)
  rw [Nat.succ_eq_add_one, monthStart_succ t.year h.month_pos, monthStart_thirteen] at hend
  have hpos := h.day_pos
  have hday := h.day_le
  omega

theorem Valid.secondOfDay_lt (h : t.Valid) : t.secondOfDay < 86400 := by
  have hhour := h.hour_le
  have hminute := h.minute_le
  have hsecond := h.second_le
  rw [secondOfDay]
  omega

/-- Later in the order of the fields is later in time. -/
theorem instant_lt (h : t.Valid) (h' : t'.Valid) (hlt : t.key < t'.key) :
    t.instant < t'.instant := by
  have hsecond := h.secondOfDay_lt
  have hyear := h.dayOfYear_lt
  simp only [key, Prod.Lex.toLex_lt_toLex] at hlt
  rcases hlt with hlt | ⟨hyears, hlt | ⟨hmonths, hlt | ⟨hdays, hlt⟩⟩⟩
  · -- an earlier year
    have hmono := yearStart_mono (Nat.succ_le_of_lt hlt)
    rw [Nat.succ_eq_add_one, yearStart_succ] at hmono
    simp only [instant, dayNumber]
    omega
  · -- an earlier month
    have hmono := monthStart_mono t.year (Nat.le_add_left 1 t.month) (Nat.succ_le_of_lt hlt)
    rw [monthStart_succ t.year h.month_pos] at hmono
    have hday := h.day_le
    have hpos := h.day_pos
    simp only [instant, dayNumber, ← hyears]
    omega
  · -- an earlier day
    have hpos := h.day_pos
    simp only [instant, dayNumber, ← hyears, ← hmonths]
    omega
  · have hminute := h.minute_le
    have hseconds := h.second_le
    simp only [instant, dayNumber, secondOfDay, ← hyears, ← hmonths, ← hdays]
    rcases hlt with hlt | ⟨hhours, hlt | ⟨hminutes, hlt⟩⟩ <;> omega

end Civil

end Gregorian
end Bitloops

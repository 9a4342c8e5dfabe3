import Bitloops.Checkpoints.Timestamps

/-!
# Timestamps are read back

Both loops agree with the calendar: `unixToYmdhms` finds the valid time of an instant,
`unixToYmdhms_sub_epoch`, and `ymdHmsToUnix` the instant of a valid time, `ymdHmsToUnix_eq`.  So
what `nowRfc3339` writes is read back, and a text with the offset of a zone is read as its instant,
unless the local time lies before 1970 and the instant does not, `timestamps_spec`.
-/

namespace Bitloops
namespace Checkpoints
namespace Timestamps

open Decimals Gregorian

/-! ## From seconds to fields -/

/-- The seconds before 1970. -/
def epoch : ℕ := yearStart 1970 * 86400

theorem isLeap_iff (year : ℕ) : isLeap year = true ↔ IsLeap year := by
  simp [isLeap, IsLeap]

theorem isLeapYear_iff (year : ℕ) : isLeapYear year = true ↔ IsLeap year := by
  simp only [isLeapYear, IsLeap, Bool.or_eq_true, Bool.and_eq_true, decide_eq_true_eq]
  omega

theorem yearLoop_eq (year remaining : ℕ) :
    yearLoop year remaining =
      if remaining < yearLength year then (year, remaining)
      else yearLoop (year + 1) (remaining - yearLength year) := by
  rw [yearLoop, yearLength]
  simp only [isLeap_iff]

theorem yearLoop_add {year k remaining : ℕ} (h : remaining < yearLength (year + k)) :
    yearLoop year (yearStart (year + k) - yearStart year + remaining) = (year + k, remaining) := by
  induction k generalizing year with
  | zero =>
    rw [Nat.add_zero] at h ⊢
    rw [Nat.sub_self, Nat.zero_add, yearLoop_eq, if_pos h]
  | succ k ih =>
    have hle := yearStart_mono (Nat.le_add_right (year + 1) k)
    have hsucc := yearStart_succ year
    have hshift : year + (k + 1) = year + 1 + k := by omega
    rw [hshift] at h ⊢
    rw [yearLoop_eq, if_neg (by omega)]
    have hrest : yearStart (year + 1 + k) - yearStart year + remaining - yearLength year =
        yearStart (year + 1 + k) - yearStart (year + 1) + remaining := by omega
    rw [hrest, ih h]

theorem monthLoop_eq {year month remaining : ℕ} (hmonth : 1 ≤ month) (hle : month ≤ 12) :
    monthLoop year month remaining (months.drop (month - 1)) =
      if remaining < monthLength year month then (month, remaining)
      else monthLoop year (month + 1) (remaining - monthLength year month) (months.drop month) := by
  interval_cases month <;> simp [months, monthLoop, monthLength, isLeap_iff]

theorem monthLoop_add {year month k remaining : ℕ} (hmonth : 1 ≤ month) (hk : month + k ≤ 12)
    (h : remaining < monthLength year (month + k)) :
    monthLoop year month (monthStart year (month + k) - monthStart year month + remaining)
      (months.drop (month - 1)) = (month + k, remaining) := by
  induction k generalizing month with
  | zero =>
    rw [Nat.add_zero] at h ⊢
    rw [Nat.sub_self, Nat.zero_add, monthLoop_eq hmonth hk, if_pos h]
  | succ k ih =>
    have hnext : 1 ≤ month + 1 := Nat.le_add_left 1 month
    have hle := monthStart_mono year hnext (Nat.le_add_right (month + 1) k)
    have hsucc := monthStart_succ year hmonth
    have hshift : month + (k + 1) = month + 1 + k := by omega
    rw [hshift] at h hk ⊢
    rw [monthLoop_eq hmonth (by omega), if_neg (by omega)]
    have hrest : monthStart year (month + 1 + k) - monthStart year month + remaining -
        monthLength year month =
          monthStart year (month + 1 + k) - monthStart year (month + 1) + remaining := by omega
    rw [hrest]
    exact ih hnext hk h

/-- The seconds of a time since the beginning of a year. -/
theorem instant_sub {t : Civil} {first : ℕ} (h : first ≤ yearStart t.year) :
    t.instant - first * 86400 =
      (((yearStart t.year - first + (monthStart t.year t.month + (t.day - 1))) * 24 + t.hour) * 60
        + t.minute) * 60 + t.second := by
  simp only [Civil.instant, Civil.dayNumber, Civil.secondOfDay]
  omega

/-- Days, hours, minutes and seconds are divided off again. -/
theorem divide_seconds (days : ℕ) {hour minute second : ℕ} (hhour : hour ≤ 23) (hminute : minute ≤ 59)
    (hsecond : second ≤ 59) :
    let secs := ((days * 24 + hour) * 60 + minute) * 60 + second
    secs % 60 = second ∧ secs / 60 % 60 = minute ∧ secs / 60 / 60 % 24 = hour ∧
      secs / 60 / 60 / 24 = days := by
  intro secs
  omega

theorem unixToYmdhms_eq {secs year month remaining days : ℕ}
    (hyear : yearLoop 1970 (secs / 60 / 60 / 24) = (year, remaining))
    (hmonth : monthLoop year 1 remaining months = (month, days)) :
    unixToYmdhms secs =
      ⟨year, month, days + 1, secs / 60 / 60 % 24, secs / 60 % 60, secs % 60⟩ := by
  simp only [unixToYmdhms, hyear, hmonth]

/-- The loops find the fields of a valid time. -/
theorem unixToYmdhms_sub_epoch {t : Civil} (h : t.Valid) (hyear : 1970 ≤ t.year) :
    unixToYmdhms (t.instant - epoch) = t := by
  have hday := h.dayOfYear_lt
  have hsecs : t.instant - epoch = _ := instant_sub (yearStart_mono hyear)
  obtain ⟨year, month, day, hour, minute, second⟩ := t
  obtain ⟨hmonth, hmonths, hpos, hle, hhour, hminute, hsecond⟩ := h
  simp only at hyear hday hsecs hmonth hmonths hpos hle hhour hminute hsecond
  obtain ⟨k, rfl⟩ := Nat.exists_eq_add_of_le hyear
  obtain ⟨l, rfl⟩ := Nat.exists_eq_add_of_le hmonth
  have hmonthLoop := @monthLoop_add (1970 + k) 1 l (day - 1)
    (le_refl 1) hmonths (by omega)
  rw [show monthStart (1970 + k) 1 = 0 from rfl, Nat.sub_zero] at hmonthLoop
  obtain ⟨hseconds, hminutes, hhours, hdays⟩ := divide_seconds
    (yearStart (1970 + k) - yearStart 1970 + (monthStart (1970 + k) (1 + l) + (day - 1)))
    hhour hminute hsecond
  rw [← hsecs] at hseconds hminutes hhours hdays
  have hyearLoop := yearLoop_add hday
  rw [← hdays] at hyearLoop
  rw [unixToYmdhms_eq hyearLoop hmonthLoop, hseconds, hminutes, hhours, Nat.sub_add_cancel hpos]

/-- Every number of seconds after the beginning of a year is the instant of a valid time. -/
theorem exists_instant (first secs : ℕ) :
    ∃ t : Civil, t.Valid ∧ first ≤ t.year ∧ t.instant = yearStart first * 86400 + secs := by
  obtain ⟨year, hyear, hle, hlt⟩ := @exists_year first (yearStart first + secs / 86400) (Nat.le_add_right _ _)
  obtain ⟨month, hmonth, hmonths, hstart, hend⟩ := @exists_month year (yearStart first + secs / 86400 - yearStart year) (by omega)
  refine ⟨⟨year, month, yearStart first + secs / 86400 - yearStart year - monthStart year month + 1,
    secs / 3600 % 24, secs / 60 % 60, secs % 60⟩, ⟨hmonth, hmonths, ?_, ?_, ?_, ?_, ?_⟩, hyear, ?_⟩
  all_goals simp only [Civil.instant, Civil.dayNumber, Civil.secondOfDay]
  all_goals omega

theorem unixToYmdhms_spec (secs : ℕ) :
    (unixToYmdhms secs).Valid ∧ 1970 ≤ (unixToYmdhms secs).year ∧
      (unixToYmdhms secs).instant = epoch + secs := by
  obtain ⟨t, hvalid, hyear, hinstant⟩ : ∃ t : Civil, t.Valid ∧ 1970 ≤ t.year ∧
      t.instant = epoch + secs := exists_instant 1970 secs
  have heq : unixToYmdhms secs = t := by
    rw [← unixToYmdhms_sub_epoch hvalid hyear, hinstant, Nat.add_sub_cancel_left]
  rw [heq]
  exact ⟨hvalid, hyear, hinstant⟩

/-! ## From fields to seconds -/

theorem daysInMonth_eq {year month : ℕ} (h : 1 ≤ month) (hle : month ≤ 12) :
    daysInMonth year month = some (monthLength year month) := by
  interval_cases month <;> simp [daysInMonth, monthLength, isLeapYear_iff]

theorem daysBeforeYear_eq {year : ℕ} (h : 1970 ≤ year) :
    daysBeforeYear year = yearStart year - yearStart 1970 := by
  obtain ⟨k, rfl⟩ := Nat.exists_eq_add_of_le h
  have hlength : (((1970 + k : ℕ) : ℤ) - 1970).toNat = k := by omega
  rw [daysBeforeYear, hlength]
  clear hlength h
  induction k with
  | zero => rfl
  | succ k ih =>
    have hle := yearStart_mono (Nat.le_add_right 1970 k)
    have hleap : isLeapYear (1970 + (k : ℤ)) = true ↔ IsLeap (1970 + k) := by
      rw [← isLeapYear_iff]
      norm_cast
    have hsucc := yearStart_succ (1970 + k)
    rw [yearLength] at hsucc
    rw [List.range_succ, List.foldl_append, ih, List.foldl_cons, List.foldl_nil, ← Nat.add_assoc]
    simp only [hleap]
    omega

theorem foldlM_daysInMonth {year k : ℕ} (hk : k ≤ 12) (days : ℕ) :
    (List.range' 1 k).foldlM (fun days m => (daysInMonth year m).map fun n => days + n) days =
      some (days + monthStart year (k + 1)) := by
  induction k with
  | zero => rfl
  | succ k ih =>
    rw [List.range'_1_concat, List.foldlM_append, ih (by omega),
      monthStart_succ year (Nat.le_add_left 1 k)]
    have hmonth := @daysInMonth_eq year (1 + k) (by omega) (by omega)
    rw [Nat.add_comm 1 k] at hmonth ⊢
    simp [hmonth, Nat.add_assoc]

/-- What is small enough is kept. -/
theorem checkedU64_eq {n : ℕ} (h : n < 2 ^ 64) : checkedU64 n = some n := if_pos h

theorem yearStart_le (year : ℕ) : yearStart year ≤ 366 * year := by
  unfold yearStart
  omega

/-- Nothing overflows. -/
theorem checkedSeconds_eq {days hour minute second : ℕ} (hdays : days < 2 ^ 40) (hhour : hour ≤ 23)
    (hminute : minute ≤ 59) (hsecond : second ≤ 59) :
    checkedSeconds days hour minute second =
      some (((days * 24 + hour) * 60 + minute) * 60 + second) := by
  simp only [checkedSeconds, Option.bind_eq_bind]
  rw [checkedU64_eq (by omega), Option.bind_some, checkedU64_eq (by omega), Option.bind_some,
    checkedU64_eq (by omega), Option.bind_some, checkedU64_eq (by omega)]
  congr 1
  omega

theorem ymdHmsToUnix_eq {t : Civil} (h : t.Valid) (hyear : 1970 ≤ t.year)
    (hsmall : t.year < 2 ^ 31) :
    ymdHmsToUnix t.year t.month t.day t.hour t.minute t.second = some (t.instant - epoch) := by
  have hsecs : t.instant - epoch = _ := instant_sub (yearStart_mono hyear)
  have hmonths : t.month - 1 ≤ 12 := by have := h.month_le; omega
  have hstart := yearStart_le t.year
  have hday := h.dayOfYear_lt
  have hlength : yearLength t.year ≤ 366 := by unfold yearLength; split_ifs <;> omega
  have hmonth : t.month - 1 + 1 = t.month := Nat.sub_add_cancel h.month_pos
  have hguard : ¬ ((t.year : ℤ) < 1970 ∨ ¬ (1 ≤ t.month ∧ t.month ≤ 12) ∨ 23 < t.hour ∨
      59 < t.minute ∨ 59 < t.second) := by
    have := h.month_pos
    have := h.month_le
    have := h.hour_le
    have := h.minute_le
    have := h.second_le
    omega
  have hdays : ¬ (t.day = 0 ∨ monthLength t.year t.month < t.day) := by
    have := h.day_pos
    have := h.day_le
    omega
  rw [ymdHmsToUnix, if_neg hguard, daysInMonth_eq h.month_pos h.month_le, Option.bind_eq_bind,
    Option.bind_some, if_neg hdays, daysBeforeYear_eq hyear, foldlM_daysInMonth hmonths, hmonth,
    Option.bind_some,
    checkedSeconds_eq (by omega) h.hour_le h.minute_le h.second_le, hsecs, Nat.add_assoc]

theorem ymdHmsToUnix_eq_none {year : ℤ} {month day hour minute second : ℕ} (h : year < 1970) :
    ymdHmsToUnix year month day hour minute second = none := by
  rw [ymdHmsToUnix, if_pos (Or.inl h)]

/-! ## Reading a text -/

theorem parseThree_eq {α β γ : Type} {separator : Char} {first : List Char → Option α}
    {second : List Char → Option β} {third : List Char → Option γ} {p q r : List Char} {a : α}
    {b : β} {c : γ} (hp : separator ∉ p) (hq : separator ∉ q) (hr : separator ∉ r)
    (ha : first p = some a) (hb : second q = some b) (hc : third r = some c) :
    parseThree separator first second third (p ++ separator :: (q ++ separator :: r)) =
      some (a, b, c) := by
  have hsplit : (p ++ separator :: (q ++ separator :: r)).splitOn separator = [p, q, r] := by
    rw [List.splitOn_append_cons_self_of_not_mem hp, List.splitOn_append_cons_self_of_not_mem hq,
      List.splitOn_eq_singleton hr]
  rw [parseThree, hsplit]
  simp [ha, hb, hc]

section Text

variable {t : Civil}

theorem parseThree_dateText (h : t.Valid) (hyear : t.year ≤ 9999) :
    parseThree '-' parseI32 parseU32 parseU32 (dateText t) =
      some ((t.year : ℤ), t.month, t.day) := by
  have hmonth := h.month_le
  have hday : t.day ≤ 31 := h.day_le.trans (by unfold monthLength; split_ifs <;> omega)
  exact parseThree_eq (notMem_padded rfl) (notMem_padded rfl) (notMem_padded rfl)
    (parseSigned_padded (by omega) (by omega)) (parseUnsigned_padded (by omega))
    (parseUnsigned_padded (by omega))

theorem parseThree_timeText (h : t.Valid) :
    parseThree ':' parseU32 parseU32 parseU32 (timeText t) = some (t.hour, t.minute, t.second) := by
  have hhour := h.hour_le
  have hminute := h.minute_le
  have hsecond := h.second_le
  exact parseThree_eq (notMem_padded rfl) (notMem_padded rfl) (notMem_padded rfl)
    (parseUnsigned_padded (by omega)) (parseUnsigned_padded (by omega))
    (parseUnsigned_padded (by omega))

theorem notMem_dateText {c : Char} (hdigit : c.isDigit = false) (hne : c ≠ '-') :
    c ∉ dateText t := by
  simp [dateText, notMem_padded hdigit, hne]

theorem notMem_timeText {c : Char} (hdigit : c.isDigit = false) (hne : c ≠ ':') :
    c ∉ timeText t := by
  simp [timeText, notMem_padded hdigit, hne]

end Text

/-- The offset of a zone, of at most a day. -/
structure ZoneOffset where
  negative : Bool
  hours : ℕ
  minutes : ℕ
  hours_le : hours ≤ 23
  minutes_le : minutes ≤ 59

namespace ZoneOffset

def sign (zone : ZoneOffset) : Char := if zone.negative then '-' else '+'

def tz (zone : ZoneOffset) : List Char := padded 2 zone.hours ++ ':' :: padded 2 zone.minutes

def seconds (zone : ZoneOffset) : ℤ :=
  (if zone.negative then -1 else 1) * (zone.hours * 3600 + zone.minutes * 60)

end ZoneOffset

/-- A time in some zone, with the digits of a fraction of a second. -/
structure LocalTime where
  time : Civil
  fraction : List Char
  valid : time.Valid
  year_le : time.year ≤ 9999
  isDigit : ∀ c ∈ fraction, c.isDigit = true

namespace LocalTime

def fractionText (t : LocalTime) : List Char := if t.fraction = [] then [] else '.' :: t.fraction

def clockText (t : LocalTime) : List Char := timeText t.time ++ t.fractionText

/-- The text with the offset of its zone. -/
def zonedText (t : LocalTime) (zone : ZoneOffset) : List Char :=
  dateText t.time ++ 'T' :: (t.clockText ++ zone.sign :: zone.tz)

def utcText (t : LocalTime) : List Char :=
  dateText t.time ++ 'T' :: (t.clockText ++ ['Z'])

/-- The instant that the text tells, in seconds since 1970. -/
def utcSeconds (t : LocalTime) (zone : ZoneOffset) : ℤ :=
  (t.time.instant : ℤ) - epoch - zone.seconds

end LocalTime

theorem splitSign_append {base tz : List Char} {sign : Char} (hsign : sign = '+' ∨ sign = '-')
    (hplus : '+' ∉ tz) (hminus : '-' ∉ tz) :
    splitSign (base ++ sign :: tz) = some (base, sign, tz) := by
  have hreverse : (base ++ sign :: tz).reverse = tz.reverse ++ sign :: base.reverse := by
    rw [List.reverse_append, List.reverse_cons, List.append_assoc, List.singleton_append]
  have hfree : ∀ c ∈ tz.reverse, (!(c = '+' || c = '-')) = true := by
    intro c hc
    have hc := List.mem_reverse.mp hc
    have hne : c ≠ '+' := fun heq => hplus (heq ▸ hc)
    have hne' : c ≠ '-' := fun heq => hminus (heq ▸ hc)
    simp [hne, hne']
  have hstop : ¬ (!(sign = '+' || sign = '-')) = true := by
    rcases hsign with rfl | rfl <;> decide
  rw [splitSign, hreverse, List.dropWhile_append_of_pos hfree,
    List.dropWhile_cons_of_neg (p := fun c : Char => !(c = '+' || c = '-')) hstop,
    List.takeWhile_append_of_pos hfree,
    List.takeWhile_cons_of_neg (p := fun c : Char => !(c = '+' || c = '-')) hstop]
  simp only [List.reverse_reverse, List.append_nil]

namespace ZoneOffset

variable (zone : ZoneOffset)

theorem sign_eq : zone.sign = '+' ∨ zone.sign = '-' := by
  unfold sign
  split_ifs
  · exact Or.inr rfl
  · exact Or.inl rfl

theorem notMem_tz {c : Char} (hdigit : c.isDigit = false) (hne : c ≠ ':') : c ∉ zone.tz := by
  simp [tz, notMem_padded hdigit, hne]

theorem zoneSeconds_eq : zoneSeconds zone.sign zone.tz = some zone.seconds := by
  have hhours := zone.hours_le
  have hminutes := zone.minutes_le
  have hparsed : parseI64 (padded 2 zone.hours) = some (zone.hours : ℤ) :=
    parseSigned_padded (by omega) (by omega)
  have hparsed' : parseI64 (padded 2 zone.minutes) = some (zone.minutes : ℤ) :=
    parseSigned_padded (by omega) (by omega)
  have hguard : ¬ ((zone.hours : ℤ) > 23 ∨ (zone.minutes : ℤ) > 59) := by omega
  rw [zoneSeconds, tz, splitOnce_append (notMem_padded rfl)]
  simp only [Option.bind_eq_bind, Option.bind_some, hparsed, hparsed', if_neg hguard]
  rw [seconds, sign]
  cases zone.negative <;> rfl

end ZoneOffset

theorem length_le_byteLength (text : List Char) : text.length ≤ byteLength text := by
  induction text with
  | nil => exact Nat.zero_le _
  | cons c text ih =>
    have hpos := Char.utf8Size_pos c
    rw [byteLength] at ih ⊢
    rw [List.map_cons, List.sum_cons, List.length_cons]
    omega

/-- The last character of a number is a digit. -/
theorem exists_getLast?_padded (text : List Char) (width n : ℕ) :
    ∃ c, (text ++ padded width n).getLast? = some c ∧ c.isDigit = true := by
  refine ⟨(padded width n).getLast padded_ne_nil, ?_, isDigit_padded _ (List.getLast_mem _)⟩
  rw [List.getLast?_append_of_ne_nil _ padded_ne_nil, List.getLast?_eq_some_getLast]

theorem isWhitespace_of_isDigit {c : Char} (h : c.isDigit = true) :
    Daemon.isWhitespace c = false := by
  obtain ⟨hle, hge⟩ : 48 ≤ c.toNat ∧ c.toNat ≤ 57 := by
    simpa [Char.isDigit, UInt32.le_iff_toNat_le] using h
  simp only [Daemon.isWhitespace, Bool.or_eq_false_iff, Bool.and_eq_false_iff,
    decide_eq_false_iff_not]
  omega

/-- A text that begins and ends with something else has no white space around it. -/
theorem trim_eq {text rest : List Char} {c d : Char} (hfirst : text = c :: rest)
    (hc : Daemon.isWhitespace c = false) (hlast : text.getLast? = some d)
    (hd : Daemon.isWhitespace d = false) : trim text = text := by
  obtain ⟨front, hfront⟩ := List.getLast?_eq_some_iff.mp hlast
  have hdrop : text.dropWhile Daemon.isWhitespace = text := by
    rw [hfirst, List.dropWhile_cons_of_neg (Bool.eq_false_iff.mp hc)]
  have hreverse : text.reverse = d :: front.reverse := by
    rw [hfront, List.reverse_append]
    rfl
  rw [trim, hdrop, hreverse, List.dropWhile_cons_of_neg (Bool.eq_false_iff.mp hd), ← hreverse,
    List.reverse_reverse]

namespace LocalTime

variable (t : LocalTime)

theorem length_clockText : 8 ≤ t.clockText.length := by
  have hhour := @le_length_padded 2 t.time.hour
  have hminute := @le_length_padded 2 t.time.minute
  have hsecond := @le_length_padded 2 t.time.second
  rw [clockText, timeText]
  simp only [List.length_append, List.length_cons]
  omega

/-- The fraction is left out. -/
theorem splitOn_clockText : (t.clockText.splitOn '.')[0]? = some (timeText t.time) := by
  have hdot : '.' ∉ timeText t.time := notMem_timeText rfl (by decide)
  rw [clockText, fractionText]
  split_ifs
  · rw [List.append_nil, List.splitOn_eq_singleton hdot]
    rfl
  · rw [List.splitOn_append_cons_self_of_not_mem hdot]
    rfl

theorem splitZone_zoned (zone : ZoneOffset) :
    splitZone (t.clockText ++ zone.sign :: zone.tz) = some (t.clockText, zone.seconds) := by
  have hlast : (t.clockText ++ zone.sign :: zone.tz).getLast? ≠ some 'Z' := by
    obtain ⟨c, hlast, hdigit⟩ := exists_getLast?_padded
      (t.clockText ++ zone.sign :: (padded 2 zone.hours ++ [':'])) 2 zone.minutes
    intro hZ
    have heq : t.clockText ++ zone.sign :: zone.tz =
        t.clockText ++ zone.sign :: (padded 2 zone.hours ++ [':']) ++ padded 2 zone.minutes := by
      simp [ZoneOffset.tz]
    rw [heq, hlast] at hZ
    rw [Option.some.inj hZ] at hdigit
    exact Bool.noConfusion hdigit
  have hlong : ¬ byteLength t.clockText < 8 :=
    not_lt.mpr (t.length_clockText.trans (length_le_byteLength _))
  rw [splitZone, if_neg hlast, splitSign_append zone.sign_eq (zone.notMem_tz rfl (by decide))
    (zone.notMem_tz rfl (by decide)), Option.bind_eq_bind, Option.bind_some]
  simp only [if_neg hlong, zone.zoneSeconds_eq, Option.map_some]

theorem splitZone_utc : splitZone (t.clockText ++ ['Z']) = some (t.clockText, 0) := by
  rw [splitZone, List.getLast?_concat, if_pos rfl, List.dropLast_concat]

theorem parseRfc3339Basic_eq {zoneText : List Char} {offset : ℤ}
    (hzone : splitZone (t.clockText ++ zoneText) = some (t.clockText, offset)) :
    parseRfc3339Basic (dateText t.time ++ 'T' :: (t.clockText ++ zoneText)) =
      (ymdHmsToUnix t.time.year t.time.month t.time.day t.time.hour t.time.minute
        t.time.second).bind (applyOffset · offset) := by
  rw [parseRfc3339Basic, splitOnce_append (notMem_dateText rfl (by decide))]
  simp only [Option.bind_eq_bind, Option.bind_some, parseThree_dateText t.valid t.year_le, hzone,
    t.splitOn_clockText, parseThree_timeText t.valid]

/-- A text of a time is neither empty nor a number. -/
theorem parseTimestampToUnix_eq {zoneText : List Char} {c : Char}
    (hlast : (t.clockText ++ zoneText).getLast? = some c) (hc : Daemon.isWhitespace c = false) :
    parseTimestampToUnix (dateText t.time ++ 'T' :: (t.clockText ++ zoneText)) =
      parseRfc3339Basic (dateText t.time ++ 'T' :: (t.clockText ++ zoneText)) := by
  obtain ⟨d, digits, hfirst, hdigit⟩ := @exists_padded_cons 4 t.time.year
  have hcons : dateText t.time ++ 'T' :: (t.clockText ++ zoneText) =
      d :: (digits ++ '-' :: (padded 2 t.time.month ++ '-' :: padded 2 t.time.day) ++
        'T' :: (t.clockText ++ zoneText)) := by
    rw [dateText, hfirst]
    rfl
  have hend : (dateText t.time ++ 'T' :: (t.clockText ++ zoneText)).getLast? = some c := by
    rw [List.getLast?_append_of_ne_nil _ (List.cons_ne_nil _ _), List.getLast?_cons, hlast]
    rfl
  have hnumber : parseU64 (dateText t.time ++ 'T' :: (t.clockText ++ zoneText)) = none := by
    rw [hcons]
    exact parseUnsigned_eq_none (c := '-') (by simp) rfl
  rw [parseTimestampToUnix, trim_eq hcons (isWhitespace_of_isDigit hdigit) hend hc]
  simp only [hnumber]
  rw [if_neg (by rw [hcons]; exact List.cons_ne_nil _ _)]

theorem parse_zonedText (zone : ZoneOffset) :
    parseTimestampToUnix (t.zonedText zone) =
      (ymdHmsToUnix t.time.year t.time.month t.time.day t.time.hour t.time.minute
        t.time.second).bind (applyOffset · zone.seconds) := by
  obtain ⟨c, hlast, hdigit⟩ := exists_getLast?_padded
    (t.clockText ++ zone.sign :: (padded 2 zone.hours ++ [':'])) 2 zone.minutes
  have heq : t.clockText ++ zone.sign :: zone.tz =
      t.clockText ++ zone.sign :: (padded 2 zone.hours ++ [':']) ++ padded 2 zone.minutes := by
    simp [ZoneOffset.tz]
  rw [← heq] at hlast
  rw [zonedText, t.parseTimestampToUnix_eq hlast (isWhitespace_of_isDigit hdigit),
    t.parseRfc3339Basic_eq (t.splitZone_zoned zone)]

theorem parse_utcText :
    parseTimestampToUnix t.utcText =
      (ymdHmsToUnix t.time.year t.time.month t.time.day t.time.hour t.time.minute
        t.time.second).bind (applyOffset · 0) := by
  rw [utcText, t.parseTimestampToUnix_eq (List.getLast?_concat ..) (by decide),
    t.parseRfc3339Basic_eq t.splitZone_utc]

theorem applyOffset_zero (secs : ℕ) : applyOffset secs 0 = some secs := by
  rw [applyOffset, if_pos (le_refl _), if_pos (by exact Nat.zero_le secs)]
  rfl

/-- The instant as the reader is to give it. -/
def utc (t : LocalTime) (zone : ZoneOffset) : Option ℕ :=
  if t.utcSeconds zone < 0 then none else some (t.utcSeconds zone).toNat

theorem epoch_le_instant {t : Civil} (h : 1970 ≤ t.year) : epoch ≤ t.instant := by
  have hstart := yearStart_mono h
  have hle : yearStart t.year ≤ t.dayNumber := by
    rw [Civil.dayNumber]
    omega
  exact (Nat.mul_le_mul_right 86400 (hstart.trans hle)).trans (Nat.le_add_right _ _)

theorem instant_lt (t : LocalTime) : t.time.instant < 2 ^ 40 := by
  have hstart := yearStart_le t.time.year
  have hyear := t.year_le
  have hday := t.valid.dayOfYear_lt
  have hsecond := t.valid.secondOfDay_lt
  have hlength : yearLength t.time.year ≤ 366 := by unfold yearLength; split_ifs <;> omega
  rw [Civil.instant, Civil.dayNumber]
  omega

theorem abs_seconds_lt (zone : ZoneOffset) : zone.seconds.natAbs < 86400 := by
  have hhours := zone.hours_le
  have hminutes := zone.minutes_le
  rw [ZoneOffset.seconds]
  split_ifs <;> omega

theorem applyOffset_eq (zone : ZoneOffset) (hyear : 1970 ≤ t.time.year) :
    applyOffset (t.time.instant - epoch) zone.seconds = t.utc zone := by
  have hepoch := epoch_le_instant hyear
  have hinstant := t.instant_lt
  have hseconds := abs_seconds_lt zone
  have hutc : t.utcSeconds zone = ((t.time.instant - epoch : ℕ) : ℤ) - zone.seconds := by
    rw [utcSeconds, Nat.cast_sub hepoch]
  have hsecs : t.time.instant - epoch < 2 ^ 40 := Nat.lt_of_le_of_lt (Nat.sub_le _ _) hinstant
  rw [utc, hutc]
  generalize t.time.instant - epoch = secs at hsecs ⊢
  rw [applyOffset]
  by_cases hsign : 0 ≤ zone.seconds
  · rw [if_pos hsign]
    by_cases hle : zone.seconds.toNat ≤ secs
    · rw [if_pos hle, if_neg (by omega)]
      congr 1
      omega
    · rw [if_neg hle, if_pos (by omega)]
  · rw [if_neg hsign, if_neg (by omega), checkedU64_eq (by omega)]
    congr 1
    omega

/-- A local time before 1970 is never read, also where its instant lies after it. -/
theorem parse_zonedText_eq_utc_iff (zone : ZoneOffset) :
    parseTimestampToUnix (t.zonedText zone) = t.utc zone ↔
      1970 ≤ t.time.year ∨ t.utcSeconds zone < 0 := by
  rw [t.parse_zonedText]
  by_cases hyear : 1970 ≤ t.time.year
  · have hsmall : t.time.year < 2 ^ 31 := by
      have := t.year_le
      omega
    rw [ymdHmsToUnix_eq t.valid hyear hsmall, Option.bind_some, t.applyOffset_eq zone hyear]
    exact iff_of_true rfl (Or.inl hyear)
  · rw [ymdHmsToUnix_eq_none (by omega), Option.bind_none, utc]
    split_ifs with hneg
    · exact iff_of_true rfl (Or.inr hneg)
    · refine iff_of_false (fun h => nomatch h) ?_
      rintro (h | h)
      · exact hyear h
      · exact hneg h

end LocalTime

/-! ## The calendar -/

theorem parse_nowRfc3339 {secs : ℕ} (h : (unixToYmdhms secs).year ≤ 9999) :
    parseTimestampToUnix (nowRfc3339 secs) = some secs := by
  obtain ⟨hvalid, hyear, hinstant⟩ := unixToYmdhms_spec secs
  have hread := LocalTime.parse_utcText ⟨unixToYmdhms secs, [], hvalid, h, fun _ hc => nomatch hc⟩
  have htext : nowRfc3339 secs =
      LocalTime.utcText ⟨unixToYmdhms secs, [], hvalid, h, fun _ hc => nomatch hc⟩ := by
    simp [nowRfc3339, LocalTime.utcText, LocalTime.clockText, LocalTime.fractionText]
  rw [htext, hread]
  simp only
  rw [ymdHmsToUnix_eq hvalid hyear (by omega), Option.bind_some, LocalTime.applyOffset_zero,
    hinstant, Nat.add_sub_cancel_left]

/-- The seconds of a valid time since 1970 lead back to it. -/
theorem exists_ymdHmsToUnix {t : Civil} (h : t.Valid) (hyear : 1970 ≤ t.year)
    (hsmall : t.year < 2 ^ 31) :
    ∃ secs, ymdHmsToUnix t.year t.month t.day t.hour t.minute t.second = some secs ∧
      unixToYmdhms secs = t :=
  ⟨_, ymdHmsToUnix_eq h hyear hsmall, unixToYmdhms_sub_epoch h hyear⟩

/-- Later times have more seconds. -/
theorem ymdHmsToUnix_lt {t t' : Civil} (h : t.Valid) (h' : t'.Valid) (hyear : 1970 ≤ t.year)
    (hyear' : 1970 ≤ t'.year) (hsmall : t.year < 2 ^ 31) (hsmall' : t'.year < 2 ^ 31)
    (hlt : t.key < t'.key) :
    ∃ secs secs', ymdHmsToUnix t.year t.month t.day t.hour t.minute t.second = some secs ∧
      ymdHmsToUnix t'.year t'.month t'.day t'.hour t'.minute t'.second = some secs' ∧
        secs < secs' := by
  refine ⟨_, _, ymdHmsToUnix_eq h hyear hsmall, ymdHmsToUnix_eq h' hyear' hsmall', ?_⟩
  have hinstant := Civil.instant_lt h h' hlt
  have hepoch := LocalTime.epoch_le_instant hyear
  omega

/-- What is written is read back, fields and seconds correspond in their order, and a zone is
taken into account, but for local times before 1970 that are not before it in UTC. -/
theorem timestamps_spec (secs : ℕ) (t t' : Civil) (localTime : LocalTime) (zone : ZoneOffset) :
    ((unixToYmdhms secs).year ≤ 9999 → parseTimestampToUnix (nowRfc3339 secs) = some secs) ∧
    (t.Valid → 1970 ≤ t.year → t.year < 2 ^ 31 →
      ∃ secs, ymdHmsToUnix t.year t.month t.day t.hour t.minute t.second = some secs ∧
        unixToYmdhms secs = t) ∧
    (t.Valid → t'.Valid → 1970 ≤ t.year → 1970 ≤ t'.year → t.year < 2 ^ 31 → t'.year < 2 ^ 31 →
      t.key < t'.key →
        ∃ secs secs', ymdHmsToUnix t.year t.month t.day t.hour t.minute t.second = some secs ∧
          ymdHmsToUnix t'.year t'.month t'.day t'.hour t'.minute t'.second = some secs' ∧
            secs < secs') ∧
    (parseTimestampToUnix (localTime.zonedText zone) = localTime.utc zone ↔
      1970 ≤ localTime.time.year ∨ localTime.utcSeconds zone < 0) :=
  ⟨parse_nowRfc3339, exists_ymdHmsToUnix, ymdHmsToUnix_lt,
    localTime.parse_zonedText_eq_utc_iff zone⟩

/-! ## The last hour before 1970 -/

/-- Half past eleven in the evening, one hour behind UTC. -/
def lastEvening : LocalTime where
  time := ⟨1969, 12, 31, 23, 30, 0⟩
  fraction := []
  valid := by decide
  year_le := by decide
  isDigit _ hc := nomatch hc

def oneHourBehind : ZoneOffset := ⟨true, 1, 0, by decide, by decide⟩

/-- The instant is half an hour after the beginning of 1970, and nothing is read. -/
theorem lastEvening_unread :
    ¬ ∀ (t : LocalTime) (zone : ZoneOffset),
      parseTimestampToUnix (t.zonedText zone) = t.utc zone := by
  intro h
  have hread := (LocalTime.parse_zonedText_eq_utc_iff lastEvening oneHourBehind).mp
    (h lastEvening oneHourBehind)
  revert hread
  decide

end Timestamps
end Checkpoints
end Bitloops

import Bitloops.Daemon.SyncMode
import Bitloops.Foundation.Decimals
import Bitloops.Foundation.Gregorian
import Bitloops.Foundation.Records

/-!
# Timestamps

Times are written from the seconds since 1970 and read back by code of its own.  A text is the
list of its characters; a position in it is counted in bytes.
-/

namespace Bitloops
namespace Checkpoints
namespace Timestamps

open Decimals Gregorian

/-! ## Writing -/

def isLeap (year : ℕ) : Bool := (year % 4 = 0 && year % 100 ≠ 0) || year % 400 = 0

/-- The loop over the years, up to the one that the days end in. -/
def yearLoop (year remaining : ℕ) : ℕ × ℕ :=
  let daysInYear := if isLeap year then 366 else 365
  if remaining < daysInYear then (year, remaining) else yearLoop (year + 1) (remaining - daysInYear)
termination_by remaining
decreasing_by
  have : 0 < daysInYear := by simp only [daysInYear]; split_ifs <;> omega
  omega

def months : List ℕ := [31, 28, 31, 30, 31, 30, 31, 31, 30, 31, 30, 31]

/-- The loop over the months of the year. -/
def monthLoop (year month remaining : ℕ) : List ℕ → ℕ × ℕ
  | [] => (month, remaining)
  | daysInMonth :: months =>
    let daysInMonth := if month = 2 ∧ isLeap year then 29 else daysInMonth
    if remaining < daysInMonth then (month, remaining)
    else monthLoop year (month + 1) (remaining - daysInMonth) months

def unixToYmdhms (secs : ℕ) : Civil :=
  let s := secs % 60
  let mins := secs / 60
  let mi := mins % 60
  let hours := mins / 60
  let h := hours % 24
  let days := hours / 24
  let (year, remaining) := yearLoop 1970 days
  let (month, remaining) := monthLoop year 1 remaining months
  ⟨year, month, remaining + 1, h, mi, s⟩

def dateText (t : Civil) : List Char :=
  padded 4 t.year ++ '-' :: (padded 2 t.month ++ '-' :: padded 2 t.day)

def timeText (t : Civil) : List Char :=
  padded 2 t.hour ++ ':' :: (padded 2 t.minute ++ ':' :: padded 2 t.second)

/-- What is written at the given second. -/
def nowRfc3339 (secs : ℕ) : List Char :=
  let t := unixToYmdhms secs
  dateText t ++ 'T' :: (timeText t ++ ['Z'])

/-! ## Reading -/

def isLeapYear (year : ℤ) : Bool := (year % 4 = 0 && year % 100 ≠ 0) || year % 400 = 0

def daysInMonth (year : ℤ) (month : ℕ) : Option ℕ :=
  if month ∈ [1, 3, 5, 7, 8, 10, 12] then some 31
  else if month ∈ [4, 6, 9, 11] then some 30
  else if month = 2 then some (if isLeapYear year then 29 else 28)
  else none

/-- `checked_mul` and `checked_add` for `u64`. -/
def checkedU64 (n : ℕ) : Option ℕ := if n < 2 ^ 64 then some n else none

def daysBeforeYear (year : ℤ) : ℕ :=
  (List.range (year - 1970).toNat).foldl
    (fun days (i : ℕ) => days + if isLeapYear (1970 + i) then 366 else 365) 0

def checkedSeconds (days hour minute second : ℕ) : Option ℕ := do
  let secs ← checkedU64 (days * 86400)
  let secs ← checkedU64 (secs + hour * 3600)
  let secs ← checkedU64 (secs + minute * 60)
  checkedU64 (secs + second)

def ymdHmsToUnix (year : ℤ) (month day hour minute second : ℕ) : Option ℕ :=
  if year < 1970 ∨ ¬ (1 ≤ month ∧ month ≤ 12) ∨ 23 < hour ∨ 59 < minute ∨ 59 < second then none
  else do
    let dim ← daysInMonth year month
    if day = 0 ∨ dim < day then none
    else do
      let days ← (List.range' 1 (month - 1)).foldlM
        (fun days m => (daysInMonth year m).map fun n => days + n) (daysBeforeYear year)
      checkedSeconds (days + (day - 1)) hour minute second

def parseI32 (text : List Char) : Option ℤ := parseSigned (-2 ^ 31) (2 ^ 31 - 1) text

def parseI64 (text : List Char) : Option ℤ := parseSigned (-2 ^ 63) (2 ^ 63 - 1) text

def parseU32 (text : List Char) : Option ℕ := parseUnsigned (2 ^ 32 - 1) text

def parseU64 (text : List Char) : Option ℕ := parseUnsigned (2 ^ 64 - 1) text

def byteLength (text : List Char) : ℕ := (text.map Char.utf8Size).sum

/-- The text before the last sign, the sign, and the text after it. -/
def splitSign (text : List Char) : Option (List Char × Char × List Char) :=
  match text.reverse.dropWhile fun c => !(c = '+' || c = '-') with
  | [] => none
  | sign :: base =>
    some (base.reverse, sign, (text.reverse.takeWhile fun c => !(c = '+' || c = '-')).reverse)

/-- The offset of a zone in seconds. -/
def zoneSeconds (sign : Char) (tz : List Char) : Option ℤ := do
  let (h, m) ← splitOnce ':' tz
  let hours ← parseI64 h
  let mins ← parseI64 m
  if hours > 23 ∨ mins > 59 then none
  else some ((if sign = '+' then 1 else -1) * (hours * 3600 + mins * 60))

/-- The time without its zone, and the offset of the zone. -/
def splitZone (timeWithTz : List Char) : Option (List Char × ℤ) :=
  if timeWithTz.getLast? = some 'Z' then some (timeWithTz.dropLast, 0)
  else do
    let (base, sign, tz) ← splitSign timeWithTz
    if byteLength base < 8 then none
    else (zoneSeconds sign tz).map fun offset => (base, offset)

/-- Three numbers with separators between them. -/
def parseThree {α β γ : Type} (separator : Char) (first : List Char → Option α)
    (second : List Char → Option β) (third : List Char → Option γ) (text : List Char) :
    Option (α × β × γ) := do
  let parts := text.splitOn separator
  let a ← parts[0]?.bind first
  let b ← parts[1]?.bind second
  let c ← parts[2]?.bind third
  if parts[3]?.isSome then none else some (a, b, c)

def applyOffset (localSecs : ℕ) (offsetSeconds : ℤ) : Option ℕ :=
  if 0 ≤ offsetSeconds then
    if offsetSeconds.toNat ≤ localSecs then some (localSecs - offsetSeconds.toNat) else none
  else checkedU64 (localSecs + offsetSeconds.natAbs)

def parseRfc3339Basic (input : List Char) : Option ℕ := do
  let (date, timeWithTz) ← splitOnce 'T' input
  let (year, month, day) ← parseThree '-' parseI32 parseU32 parseU32 date
  let (timePart, offsetSeconds) ← splitZone timeWithTz
  let timeNoFrac ← (timePart.splitOn '.')[0]?
  let (hour, minute, second) ← parseThree ':' parseU32 parseU32 parseU32 timeNoFrac
  let localSecs ← ymdHmsToUnix year month day hour minute second
  applyOffset localSecs offsetSeconds

def trim (text : List Char) : List Char :=
  ((text.dropWhile Daemon.isWhitespace).reverse.dropWhile Daemon.isWhitespace).reverse

def parseTimestampToUnix (input : List Char) : Option ℕ :=
  let s := trim input
  if s = [] then none
  else
    match parseU64 s with
    | some v => some v
    | none => parseRfc3339Basic s

/-! ## Grace periods -/

def startedRecently (startedAt : List Char) (nowSecs gracePeriodSecs : ℕ) : Bool :=
  match parseTimestampToUnix startedAt with
  | none => false
  | some startedSecs => nowSecs - startedSecs < gracePeriodSecs

end Timestamps
end Checkpoints
end Bitloops

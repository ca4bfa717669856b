/-
  TenantSync.Timestamp
  ────────────────────
  **POINTS IN TIME.**

  A timestamp counts seconds from 1970 in UTC, and nanoseconds within the
  second; a leap second is the second before it with a billion nanoseconds more.
  Reading is generous: fields may be short, blanks may stand between them, the
  date and the time may be parted by a blank, and any offset below a day is
  taken.  Writing is strict: UTC with `Z`, and no more of a fraction than is
  needed, in steps of three digits.
-/
import TenantSync.Character.Space
import TenantSync.Number.Numeral

namespace TenantSync

/-- A point in time. -/
structure Timestamp where
  /-- Seconds since the start of 1970, UTC. -/
  seconds : Int
  /-- Nanoseconds; from a billion on, within a leap second. -/
  nanos : Nat
  deriving DecidableEq, Repr

namespace Timestamp

open Character (isSpace trimStart)

/-! ## §1. The calendar. -/

/-- Days from the start of 1970 to a date of the Gregorian calendar. -/
def daysFromCivil (year : Int) (month day : Nat) : Int :=
  let y := if month ≤ 2 then year - 1 else year
  let era := y / 400
  let yearOfEra := y - era * 400
  let shifted : Int := if 2 < month then month - 3 else month + 9
  let dayOfYear := (153 * shifted + 2) / 5 + day - 1
  let dayOfEra := yearOfEra * 365 + yearOfEra / 4 - yearOfEra / 100 + dayOfYear
  era * 146097 + dayOfEra - 719468

/-- The date that is some days after the start of 1970. -/
def civilFromDays (days : Int) : Int × Nat × Nat :=
  let z := days + 719468
  let era := z / 146097
  let dayOfEra := z - era * 146097
  let yearOfEra :=
    (dayOfEra - dayOfEra / 1460 + dayOfEra / 36524 - dayOfEra / 146096) / 365
  let dayOfYear := dayOfEra - (365 * yearOfEra + yearOfEra / 4 - yearOfEra / 100)
  let shifted := (5 * dayOfYear + 2) / 153
  let day := dayOfYear - (153 * shifted + 2) / 5 + 1
  let month := if shifted < 10 then shifted + 3 else shifted - 9
  let year := yearOfEra + era * 400 + (if month ≤ 2 then 1 else 0)
  (year, month.toNat, day.toNat)

/-- Whether a year has a 29th of February. -/
def isLeapYear (year : Int) : Bool := year % 4 == 0 && (year % 100 != 0 || year % 400 == 0)

/-- The number of days of a month. -/
def daysInMonth (year : Int) (month : Nat) : Nat :=
  if month = 2 then if isLeapYear year then 29 else 28
  else if [4, 6, 9, 11].contains month then 30
  else 31

/-- The years that a date may lie in. -/
def isYear (year : Int) : Bool := -262143 ≤ year && year ≤ 262142

/-! ## §2. Writing. -/

/-- A number in at least `width` digits. -/
def padded (width n : Nat) : String :=
  let digits := toString n
  String.ofList (List.replicate (width - digits.length) '0') ++ digits

/-- The fraction of a second in as few groups of three digits as it needs. -/
def fraction (nanos : Nat) : String :=
  if nanos = 0 then ""
  else if nanos % 1000000 = 0 then "." ++ padded 3 (nanos / 1000000)
  else if nanos % 1000 = 0 then "." ++ padded 6 (nanos / 1000)
  else "." ++ padded 9 nanos

/-- The timestamp as text, in UTC. -/
def format (t : Timestamp) : String :=
  let days := t.seconds / 86400
  let rest := (t.seconds - days * 86400).toNat
  let (year, month, day) := civilFromDays days
  let yearText :=
    if 0 ≤ year && year ≤ 9999 then padded 4 year.toNat
    else (if year < 0 then "-" else "+") ++ padded 4 year.natAbs
  let leap := if t.nanos < 1000000000 then 0 else 1
  yearText ++ "-" ++ padded 2 month ++ "-" ++ padded 2 day ++ "T" ++ padded 2 (rest / 3600)
    ++ ":" ++ padded 2 (rest / 60 % 60) ++ ":" ++ padded 2 (rest % 60 + leap)
    ++ fraction (t.nanos - leap * 1000000000) ++ "Z"

/-! ## §3. Reading. -/

/-- A number of one to `width` digits, white space before it allowed. -/
def number (width : Nat) (cs : List Char) : Option (Nat × List Char) :=
  let cs := trimStart cs
  let digits := (cs.take width).takeWhile Char.isDigit
  if digits.isEmpty then none else some (Numeral.ofDigits digits, cs.drop digits.length)

/-- A number within bounds. -/
def numberIn (width least most : Nat) (cs : List Char) : Option (Nat × List Char) :=
  (number width cs).filter fun r => least ≤ r.1 && r.1 ≤ most

/-- A year: up to four digits, or any number of them behind a sign. -/
def year (cs : List Char) : Option (Int × List Char) :=
  let signed (rest : List Char) : Option (Nat × List Char) :=
    let digits := rest.takeWhile Char.isDigit
    if digits.isEmpty then none else some (Numeral.ofDigits digits, rest.drop digits.length)
  match trimStart cs with
  | '-' :: rest => (signed rest).map fun (n, rest) => (-(n : Int), rest)
  | '+' :: rest => (signed rest).map fun (n, rest) => ((n : Int), rest)
  | cs => (number 4 cs).map fun (n, rest) => ((n : Int), rest)

/-- Past a separator, white space before it allowed. -/
def separator (c : Char) (cs : List Char) : Option (List Char) :=
  match trimStart cs with
  | d :: rest => if c = d then some rest else none
  | [] => none

/-- The nanoseconds of a fraction, digits past the ninth ignored. -/
def nanosOf (cs : List Char) : Option (Nat × List Char) :=
  match cs with
  | '.' :: rest =>
      let digits := rest.takeWhile Char.isDigit
      let kept := digits.take 9
      if digits.isEmpty then none
      else some (Numeral.ofDigits kept * tenTo (9 - kept.length), rest.drop digits.length)
  | _ => some (0, cs)

/-- Two digits, the first at most `most`. -/
def twoDigits (most : Nat) (cs : List Char) : Option (Nat × List Char) :=
  match cs with
  | a :: b :: rest =>
      if a.isDigit && b.isDigit && a.toNat - '0'.toNat ≤ most then
        some (Numeral.ofDigits [a, b], rest)
      else none
  | _ => none

/-- An offset from UTC in seconds. -/
def offset (cs : List Char) : Option (Int × List Char) :=
  if (cs.take 3).map Char.toUpper == ['U', 'T', 'C'] then some (0, cs.drop 3)
  else
    let hoursAndMinutes (rest : List Char) : Option (Nat × List Char) := do
      let (hours, rest) ← twoDigits 9 rest
      let rest := rest.dropWhile fun c => c == ':' || isSpace c
      let (minutes, rest) ← twoDigits 5 rest
      return (hours * 3600 + minutes * 60, rest)
    match cs with
    | 'Z' :: rest => some (0, rest)
    | 'z' :: rest => some (0, rest)
    | '+' :: rest => (hoursAndMinutes rest).map fun (n, rest) => ((n : Int), rest)
    | '-' :: rest => (hoursAndMinutes rest).map fun (n, rest) => (-(n : Int), rest)
    | '\u2212' :: rest => (hoursAndMinutes rest).map fun (n, rest) => (-(n : Int), rest)
    | _ => none

/-- Read a timestamp. -/
def ofText? (text : String) : Option Timestamp := do
  let (year, cs) ← year text.toList
  let (month, cs) ← numberIn 2 1 12 (← separator '-' cs)
  let (day, cs) ← numberIn 2 1 31 (← separator '-' cs)
  let cs ← match cs with
    | 't' :: rest => some rest
    | 'T' :: rest => some rest
    | ' ' :: rest => some rest
    | _ => none
  let (hour, cs) ← numberIn 2 0 23 cs
  let (minute, cs) ← numberIn 2 0 59 (← separator ':' cs)
  let (second, cs) ← numberIn 2 0 60 (← separator ':' cs)
  let (nanos, cs) ← nanosOf cs
  let (shift, cs) ← offset (trimStart cs)
  if !(trimStart cs).isEmpty || 86400 ≤ shift.natAbs then none
  if !isYear year || daysInMonth year month < day then none
  let leap := if second = 60 then 1 else 0
  let seconds := daysFromCivil year month day * 86400 + hour * 3600 + minute * 60
    + (second - leap : Nat) - shift
  if !isYear (civilFromDays (seconds / 86400)).1 then none
  return ⟨seconds, nanos + leap * 1000000000⟩

end Timestamp

end TenantSync

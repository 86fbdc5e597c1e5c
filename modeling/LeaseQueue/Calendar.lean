import LeaseQueue.Instant
import LeaseQueue.Json.Decoder
import LeaseQueue.Text.Numeral

/-!
# Points of time in text

The text of a point of time: a date and a time of day with an offset from UTC.  Reading is lenient
about spaces between the parts, the width of the fields and the form of the offset; writing gives
UTC with as many groups of three decimal places as are needed.

A second sixty is a leap second.  It lies behind the second before it, so a `Timestamp` is told
apart from an `Instant`: its fraction may reach two seconds.
-/

set_option autoImplicit false

namespace LeaseQueue

open Text

/-- A point of time that may lie inside a leap second. -/
structure Timestamp where
  /-- Whole seconds since the start of 1970, without the leap second itself. -/
  seconds : Int
  /-- Nanoseconds since then; from one second on they lie inside the leap second. -/
  fraction : Nat
deriving DecidableEq, Repr

namespace Calendar

/-- The days from the start of 1970 to a date of the Gregorian calendar. -/
def daysOfDate (year : Int) (month day : Nat) : Int :=
  let y := if month ≤ 2 then year - 1 else year
  let era := Int.fdiv y 400
  let yearOfEra := y - era * 400
  let dayOfYear : Int := (153 * ((month : Int) + (if month ≤ 2 then 9 else -3)) + 2) / 5 + day - 1
  let dayOfEra := yearOfEra * 365 + yearOfEra / 4 - yearOfEra / 100 + dayOfYear
  era * 146097 + dayOfEra - 719468

/-- The date of a number of days from the start of 1970. -/
def dateOfDays (days : Int) : Int × Nat × Nat :=
  let z := days + 719468
  let era := Int.fdiv z 146097
  let dayOfEra := z - era * 146097
  let yearOfEra :=
    (dayOfEra - dayOfEra / 1460 + dayOfEra / 36524 - dayOfEra / 146096) / 365
  let dayOfYear := dayOfEra - (365 * yearOfEra + yearOfEra / 4 - yearOfEra / 100)
  let m := (5 * dayOfYear + 2) / 153
  let day := dayOfYear - (153 * m + 2) / 5 + 1
  let month := if m < 10 then m + 3 else m - 9
  let year := yearOfEra + era * 400 + (if month ≤ 2 then 1 else 0)
  (year, month.toNat, day.toNat)

/-- Whether a year has a 29th of February. -/
def isLeapYear (year : Int) : Bool :=
  year % 4 == 0 && (year % 100 != 0 || year % 400 == 0)

/-- The number of days of a month. -/
def daysInMonth (year : Int) (month : Nat) : Nat :=
  if month = 2 then (if isLeapYear year then 29 else 28)
  else if month = 4 ∨ month = 6 ∨ month = 9 ∨ month = 11 then 30
  else 31

/-- The first year of the calendar. -/
def firstYear : Int := -262143

/-- The last year of the calendar. -/
def lastYear : Int := 262142

/-- The seconds of the first day of the calendar. -/
def firstSecond : Int := Int.fdiv calendarStart nanosPerSecond

/-- The seconds at the end of the last day of the calendar. -/
def lastSecond : Int := Int.fdiv calendarEnd nanosPerSecond

/-- The characters from the first one that is not blank. -/
def skipBlanks (cs : List Char) : List Char := cs.dropWhile isBlank

/-- A number of one to `width` digits, behind any blanks. -/
def number? (width : Nat) (cs : List Char) : Option (Nat × List Char) :=
  let cs := skipBlanks cs
  match (cs.take width).takeWhile Char.isDigit with
  | [] => none
  | ds => some (digitsValue ds, cs.drop ds.length)

/-- A year: four digits at most, or any number of them behind a sign. -/
def year? (cs : List Char) : Option (Int × List Char) :=
  match skipBlanks cs with
  | '-' :: cs =>
    match cs.takeWhile Char.isDigit with
    | [] => none
    | ds => some (-(digitsValue ds : Int), cs.drop ds.length)
  | '+' :: cs =>
    match cs.takeWhile Char.isDigit with
    | [] => none
    | ds => some ((digitsValue ds : Int), cs.drop ds.length)
  | cs => (number? 4 cs).map fun r => ((r.1 : Int), r.2)

/-- A mark behind any blanks. -/
def mark? (c : Char) (cs : List Char) : Option (List Char) :=
  match skipBlanks cs with
  | c' :: cs => if c' = c then some cs else none
  | [] => none

/-- The nanoseconds behind a point; digits from the tenth on are dropped. -/
def fraction? : List Char → Option (Nat × List Char)
  | '.' :: cs =>
    match (cs.take 9).takeWhile Char.isDigit with
    | [] => none
    | ds =>
      some (digitsValue ds * Nat.pow 10 (9 - ds.length), (cs.drop ds.length).dropWhile Char.isDigit)
  | cs => some (0, cs)

/-- The minutes of an offset from UTC. -/
def offset? (cs : List Char) : Option (Int × List Char) :=
  match cs with
  | 'Z' :: rest => some (0, rest)
  | 'z' :: rest => some (0, rest)
  | sign :: h₁ :: h₂ :: rest => do
    let factor : Int ←
      if sign = '+' then some 1
      else if sign = '-' ∨ sign = '\u2212' then some (-1)
      else none
    let hours := (← digitValue? h₁) * 10 + (← digitValue? h₂)
    match rest.dropWhile fun c => c == ':' || isBlank c with
    | m₁ :: m₂ :: rest =>
      let minutes := (← digitValue? m₁) * 10 + (← digitValue? m₂)
      if minutes < 60 then pure (factor * (hours * 60 + minutes : Nat), rest) else none
    | _ => none
  | _ => none

/-- The minutes of a zone: `UTC` in any case, or an offset. -/
def zone? (cs : List Char) : Option (Int × List Char) :=
  if (cs.take 3).map Char.toUpper = ['U', 'T', 'C'] then some (0, cs.drop 3) else offset? cs

/-- Reads the date, the time of day and the offset of a point of time. -/
def timestamp? (s : String) : Option Timestamp := do
  let (year, cs) ← year? s.toList
  let cs ← mark? '-' cs
  let (month, cs) ← number? 2 cs
  let cs ← mark? '-' cs
  let (day, cs) ← number? 2 cs
  let cs ← match cs with
    | c :: cs => if c = 't' ∨ c = 'T' ∨ c = ' ' then some cs else none
    | [] => none
  let (hour, cs) ← number? 2 cs
  let cs ← mark? ':' cs
  let (minute, cs) ← number? 2 cs
  let cs ← mark? ':' cs
  let (second, cs) ← number? 2 cs
  let (fraction, cs) ← fraction? cs
  let (offset, cs) ← zone? (skipBlanks cs)
  if !(skipBlanks cs).isEmpty then none
  else if year < firstYear ∨ lastYear < year ∨ month < 1 ∨ 12 < month then none
  else if day < 1 ∨ daysInMonth year month < day then none
  else if 23 < hour ∨ 59 < minute ∨ 60 < second ∨ 1440 ≤ offset.natAbs then none
  else
    let seconds := daysOfDate year month day * 86400 + hour * 3600 + minute * 60 +
      (min second 59 : Nat) - offset * 60
    if seconds < firstSecond ∨ lastSecond < seconds then none
    else pure ⟨seconds, if second = 60 then fraction + nanosPerSecond else fraction⟩

/-- The decimal places of a second in the least of zero, three, six and nine digits. -/
def places (nanos : Nat) : List Char :=
  if nanos = 0 then []
  else if nanos % nanosPerMilli = 0 then '.' :: padded 3 (nanos / nanosPerMilli)
  else if nanos % nanosPerMicro = 0 then '.' :: padded 6 (nanos / nanosPerMicro)
  else '.' :: padded 9 nanos

/-- A year in four digits, or with a sign where these do not suffice. -/
def yearText (year : Int) : List Char :=
  if 0 ≤ year ∧ year ≤ 9999 then padded 4 year.toNat
  else (if year < 0 then '-' else '+') :: padded 4 year.natAbs

end Calendar

open Calendar in
/-- Writes a point of time in UTC. -/
def Timestamp.print (t : Timestamp) : String :=
  let days := Int.fdiv t.seconds 86400
  let ofDay := (t.seconds - days * 86400).toNat
  let (year, month, day) := dateOfDays days
  let second := ofDay % 60 + t.fraction / nanosPerSecond
  String.ofList (yearText year ++ '-' :: padded 2 month ++ '-' :: padded 2 day ++
    'T' :: padded 2 (ofDay / 3600) ++ ':' :: padded 2 (ofDay / 60 % 60) ++
    ':' :: padded 2 second ++ places (t.fraction % nanosPerSecond) ++ ['Z'])

/-- Reads a point of time. -/
def Timestamp.ofJson? (v : Json) : Option Timestamp :=
  v.string?.bind Calendar.timestamp?

end LeaseQueue

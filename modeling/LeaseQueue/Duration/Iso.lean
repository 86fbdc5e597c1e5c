import LeaseQueue.Duration.Display
import LeaseQueue.Text.Blank
import LeaseQueue.Text.Quoted

/-!
# ISO 8601 durations

The written form of a duration in settings: `P`, then days, then behind a `T` hours, minutes and
seconds, each at most once and in this order; seconds may have up to nine decimal places behind a
point or a comma.  Calendar units have no fixed length and are refused, as are signs.

`Iso.parse?` reads this form in either letter case and with blanks around it, and refuses it when a
number, a product or a sum on the way passes what a duration holds; `Iso.print` writes the shortest
such form without days.
-/

set_option autoImplicit false

namespace LeaseQueue.Iso

open Text

/-- A text that is no ISO 8601 duration. -/
structure Invalid where
  text : String
deriving DecidableEq, Repr

/-- The wording of the refusal, with the text as it was given. -/
def Invalid.message (e : Invalid) : String :=
  "invalid ISO-8601 duration: " ++ quoted e.text

/-- The value of at least one digit and nothing else, if it fits 64 bits. -/
def wholeNumber? (cs : List Char) : Option Nat :=
  if cs.isEmpty || !cs.all Char.isDigit then none else (readDigits maxWord64 0 cs).toOption

/-- A product, if it fits 64 bits. -/
def product? (a b : Nat) : Option Nat :=
  if a * b ≤ maxWord64 then some (a * b) else none

/-- The duration of a whole number of units of so many seconds. -/
def wholeUnits? (unitSeconds : Nat) (cs : List Char) : Option Duration := do
  let n ← wholeNumber? cs
  let seconds ← product? n unitSeconds
  pure (.ofSeconds seconds)

/-- The nanoseconds of one to nine decimal places, read with zeros behind them up to the ninth. -/
def decimalPlaces? (cs : List Char) : Option Nat :=
  if cs.isEmpty || 9 < cs.length || !cs.all Char.isDigit then none
  else (readDigits maxWord32 0 (cs ++ List.replicate (9 - cs.length) '0')).toOption

/-- The point or comma in front of decimal places. -/
def isDecimalMark (c : Char) : Bool := c == '.' || c == ','

/-- The seconds with their decimal places. -/
def secondsPart? (cs : List Char) : Option Duration :=
  match cs.dropWhile (fun c => !isDecimalMark c) with
  | [] => (wholeNumber? cs).map .ofSeconds
  | _ :: places => do
    let whole ← wholeNumber? (cs.takeWhile fun c => !isDecimalMark c)
    let nanos ← decimalPlaces? places
    pure (.ofNanos (whole * nanosPerSecond + nanos))

/-- The units behind the `T`. -/
inductive TimeUnit
  | hour
  | minute
  | second
deriving DecidableEq, Repr

namespace TimeUnit

/-- All units, in the order in which they may stand. -/
def ordered : List TimeUnit := [hour, minute, second]

/-- The letter behind a number of the unit. -/
def letter : TimeUnit → Char
  | hour => 'H'
  | minute => 'M'
  | second => 'S'

/-- The duration of a number in front of the unit's letter. -/
def part? (unit : TimeUnit) (number : List Char) : Option Duration :=
  match unit with
  | hour => wholeUnits? 3600 number
  | minute => wholeUnits? 60 number
  | second => secondsPart? number

end TimeUnit

/-- Adds up the components behind the `T`, where only the given units are left: a component takes
its own unit and all before it out of the list. -/
def timeOnto? (total : Duration) : List TimeUnit → List Char → Option Duration
  | _, [] => some total
  | [], _ :: _ => none
  | unit :: later, cs@(_ :: _) =>
    match cs.dropWhile (fun c => !c.isAlpha) with
    | [] => none
    | letter :: rest =>
      if letter = unit.letter then do
        let part ← unit.part? (cs.takeWhile fun c => !c.isAlpha)
        let total ← total.add? part
        timeOnto? total later rest
      else timeOnto? total later cs

/-- The duration of the days in front of the `T`. -/
def daysPart? (cs : List Char) : Option Duration :=
  match cs with
  | [] => some .zero
  | c :: tail =>
    if (c :: tail).getLast? = some 'D' then wholeUnits? 86400 (c :: tail).dropLast else none

/-- The duration of a whole written form in upper case and without blanks around it. -/
def duration? : List Char → Option Duration
  | 'P' :: body =>
    let days := body.takeWhile (· != 'T')
    match body.dropWhile (· != 'T') with
    | [] => if days.isEmpty then none else daysPart? days
    | _ :: time =>
      if time.isEmpty then none
      else do
        let dayPart ← daysPart? days
        let timePart ← timeOnto? .zero TimeUnit.ordered time
        dayPart.add? timePart
  | _ => none

/-- Reads a duration. -/
def parse? (text : String) : Option Duration :=
  duration? (upper (trim text)).toList

/-- Reads a duration, or names the text that is none. -/
def parse (text : String) : Except Invalid Duration :=
  match parse? text with
  | some d => .ok d
  | none => .error ⟨text⟩

/-- A number in front of its unit; nothing for zero. -/
def component (value : Nat) (letter : Char) : List Char :=
  if value = 0 then [] else Nat.toDigits 10 value ++ [letter]

/-- The characters of the written form. -/
def printed (d : Duration) : List Char :=
  if d.nanos = 0 then ['P', 'T', '0', 'S']
  else
    let secs := d.seconds
    let second :=
      if d.fraction = 0 then component (secs % 60) 'S'
      else Nat.toDigits 10 (secs % 60) ++ fractionText 9 d.fraction ++ ['S']
    ['P', 'T'] ++ component (secs / 3600) 'H' ++ component (secs % 3600 / 60) 'M' ++ second

/-- Writes a duration in hours, minutes and seconds. -/
def print (d : Duration) : String :=
  String.ofList (printed d)

end LeaseQueue.Iso

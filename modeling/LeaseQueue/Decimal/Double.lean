import LeaseQueue.Decimal.Shortest
import LeaseQueue.Text.Numeral

/-!
# Doubles in decimal

Reading a decimal into a double keeps as many leading digits as fit 64 bits and scales them by one
power of ten, so the result may be off in its last place.  Writing gives the shortest decimal that
rounds to the double, positionally for first-digit exponents from -5 to 15 and with a signed
exponent of at least two digits elsewhere.
-/

set_option autoImplicit false

namespace LeaseQueue.Decimal

open Text

/-- A power of ten that a double holds. -/
def powerOfTen (e : Nat) : Float := Float.ofScientific 1 false e

/-- A double scaled by a power of ten; none if it leaves the range.  A large negative power is
applied in steps, of which three always suffice. -/
def scaled? (f : Float) (exponent : Int) : Nat → Option Float
  | 0 => some f
  | fuel + 1 =>
    if exponent.natAbs ≤ 308 then
      if 0 ≤ exponent then
        let g := f * powerOfTen exponent.natAbs
        if g.isInf then none else some g
      else some (f / powerOfTen exponent.natAbs)
    else if f == 0.0 then some f
    else if 0 ≤ exponent then none
    else scaled? (f / powerOfTen 308) (exponent + 308) fuel

/-- As many digits as fit 64 bits behind those already taken, how many that were, and whether some
are left. -/
def takeDigits (value taken : Nat) : List Char → Nat × Nat × Bool
  | [] => (value, taken, false)
  | c :: rest =>
    let value' := value * 10 + (c.toNat - '0'.toNat)
    if maxWord64 < value' then (value, taken, true) else takeDigits value' (taken + 1) rest

/-- The largest exponent that is told apart from larger ones. -/
def maxExponent : Nat := 2147483647

/-- The absolute value of a number given by its whole digits, its decimal places and its exponent;
none if it leaves the range. -/
def double? (whole places : List Char) (negative : Bool) (exponent : List Char) :
    Option Float :=
  let (high, taken, full) := takeDigits 0 0 whole
  let dropped := if full then whole.length - taken else 0
  let (value, takenPlaces, _) := takeDigits high 0 places
  let e := digitsValue exponent
  let zero := value == 0
  if maxExponent < e then
    if !zero && !negative then none else some 0.0
  else
    let shift : Int := (dropped : Int) - takenPlaces
    let total := if negative then shift - e else shift + e
    let total := max (-2147483648) (min total 2147483647)
    scaled? value.toUInt64.toFloat total 4

/-- The bit of 52 binary places that a double does not store. -/
def hiddenBit : Nat := 4503599627370496

/-- The binary fraction of a positive double. -/
def binaryOf (f : Float) : Binary :=
  let bits : Nat := f.toBits.toNat
  let exponent : Nat := bits / hiddenBit % 2048
  let fraction : Nat := bits % hiddenBit
  if exponent = 0 then ⟨fraction, -1074, false⟩
  else ⟨hiddenBit + fraction, (exponent : Int) - 1075, fraction == 0 && 1 < exponent⟩

/-- The digits of a decimal with its point in place, or with an exponent. -/
def Scaled.printed (d : Scaled) : List Char :=
  let digits := Nat.toDigits 10 d.digits
  let first : Int := d.exponent + digits.length - 1
  if -5 ≤ first ∧ first ≤ 15 then
    if 0 ≤ d.exponent then digits ++ List.replicate d.exponent.toNat '0' ++ ['.', '0']
    else if 0 ≤ first then
      digits.take (first.toNat + 1) ++ '.' :: digits.drop (first.toNat + 1)
    else ['0', '.'] ++ List.replicate (-first - 1).toNat '0' ++ digits
  else
    let places := if digits.length ≤ 1 then [] else '.' :: digits.drop 1
    digits.take 1 ++ places ++ ['e', if first < 0 then '-' else '+'] ++ padded 2 first.natAbs

/-- The shortest text of a finite double. -/
def printDouble (f : Float) : List Char :=
  let isNegative := f.toBits.toNat / wordHalf == 1
  let sign := if isNegative then ['-'] else []
  if f == 0.0 then sign ++ ['0', '.', '0'] else sign ++ (binaryOf f.abs).shortest.printed

end LeaseQueue.Decimal

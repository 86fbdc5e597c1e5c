/-!
# The shortest decimal of a binary fraction

A number `m * 2 ^ q` of limited precision stands for all reals that round to it.  Its shortest
decimal is the one with the fewest digits among those reals; of several with that many digits it is
the one nearest to the number itself.

The search tries one digit, two digits and so on.  On every such grid only the two neighbours of the
number have to be looked at: if any point of the grid lies in the interval, one of them does.
-/

set_option autoImplicit false

namespace LeaseQueue.Decimal

/-- A positive binary fraction `significand * 2 ^ exponent`.  At the least significand of its
exponent the reals below are half as far away. -/
structure Binary where
  significand : Nat
  exponent : Int
  isLeast : Bool
deriving DecidableEq, Repr

/-- A decimal `digits * 10 ^ exponent`. -/
structure Scaled where
  digits : Nat
  exponent : Int
deriving DecidableEq, Repr

/-- A positive rational as numerator and denominator, `significand * 2 ^ exponent`. -/
def ratio (significand : Nat) (exponent : Int) : Nat × Nat :=
  match exponent with
  | .ofNat e => (significand * Nat.pow 2 e, 1)
  | .negSucc e => (significand, Nat.pow 2 (e + 1))

/-- Whether `digits * 10 ^ exponent` rounds to the number: between the points half-way to its
neighbours, which count themselves if the significand is even. -/
def Binary.rounds (b : Binary) (d : Scaled) : Bool :=
  let below := if b.isLeast then 1 else 2
  let (lo, den) := ratio (4 * b.significand - below) (b.exponent - 2)
  let (hi, _) := ratio (4 * b.significand + 2) (b.exponent - 2)
  let (num, scale) : Nat × Nat :=
    match d.exponent with
    | .ofNat e => (d.digits * Nat.pow 10 e * den, 1)
    | .negSucc e => (d.digits * den, Nat.pow 10 (e + 1))
  if b.significand % 2 = 0 then lo * scale ≤ num && num ≤ hi * scale
  else lo * scale < num && num < hi * scale

/-- The number in units of `10 ^ exponent`, as whole part, rest and divisor. -/
def Binary.onGrid (b : Binary) (exponent : Int) : Nat × Nat × Nat :=
  let (num, den) := ratio b.significand b.exponent
  let (num, den) :=
    match exponent with
    | .ofNat e => (num, den * Nat.pow 10 e)
    | .negSucc e => (num * Nat.pow 10 (e + 1), den)
  (num / den, num % den, den)

/-- The exponent of the first digit of a rational below one: how often it has to be multiplied by
ten to reach one. -/
def leadingZeros (num den : Nat) : Nat → Nat
  | 0 => 0
  | fuel + 1 => if den ≤ num then 0 else leadingZeros (num * 10) den fuel + 1

/-- The exponent of the first digit of the number. -/
def Binary.magnitude (b : Binary) : Int :=
  let (num, den) := ratio b.significand b.exponent
  if den ≤ num then ((Nat.toDigits 10 (num / den)).length : Int) - 1
  else -(leadingZeros num den (2 * b.exponent.natAbs) : Int)

/-- The neighbour on a grid that rounds to the number; of two the nearer one, and the even one of
two equally near. -/
def Binary.onGrid? (b : Binary) (exponent : Int) : Option Scaled :=
  let (whole, rest, den) := b.onGrid exponent
  let down : Scaled := ⟨whole, exponent⟩
  let up : Scaled := ⟨whole + 1, exponent⟩
  match b.rounds down, b.rounds up with
  | true, true =>
    if 2 * rest < den then some down
    else if den < 2 * rest then some up
    else if whole % 2 = 0 then some down
    else some up
  | true, false => some down
  | false, true => some up
  | false, false => none

/-- The decimal without zeros at the end of its digits. -/
def Scaled.stripped (d : Scaled) : Nat → Scaled
  | 0 => d
  | fuel + 1 =>
    if d.digits ≠ 0 ∧ d.digits % 10 = 0 then
      Scaled.stripped ⟨d.digits / 10, d.exponent + 1⟩ fuel
    else d

/-- The shortest decimal with at least `count` digits, where `fuel` more may be tried. -/
def Binary.shortestFrom (b : Binary) (count : Nat) : Nat → Scaled
  | 0 => ⟨b.significand, b.exponent⟩
  | fuel + 1 =>
    match b.onGrid? (b.magnitude - count + 1) with
    | some d => d.stripped 20
    | none => b.shortestFrom (count + 1) fuel

/-- The shortest decimal of a number; seventeen digits suffice for 53 binary places. -/
def Binary.shortest (b : Binary) : Scaled := b.shortestFrom 1 17

end LeaseQueue.Decimal

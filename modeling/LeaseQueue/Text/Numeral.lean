/-!
# Bounded decimal numerals

Whole numbers in settings are written in ASCII digits, with at most one leading plus sign.  Reading
one either gives a number up to the bound of its field or says which of three things is wrong; of
two faults the one further left is named.
-/

set_option autoImplicit false

namespace LeaseQueue.Text

/-- Why a text is no numeral of its field. -/
inductive NumeralError
  | empty
  | invalidDigit
  | tooLarge
deriving DecidableEq, Repr

/-- The wording of each fault. -/
def NumeralError.message : NumeralError → String
  | .empty => "cannot parse integer from empty string"
  | .invalidDigit => "invalid digit found in string"
  | .tooLarge => "number too large to fit in target type"

/-- The value of an ASCII digit. -/
def digitValue? (c : Char) : Option Nat :=
  if c.isDigit then some (c.toNat - '0'.toNat) else none

/-- The value of a row of ASCII digits. -/
def digitsValue (cs : List Char) : Nat := Nat.ofDigitChars 10 cs 0

/-- Reads digits from left to right onto the value of those already read. -/
def readDigits (bound : Nat) (value : Nat) : List Char → Except NumeralError Nat
  | [] => .ok value
  | c :: rest =>
    match digitValue? c with
    | none => .error .invalidDigit
    | some d =>
      if bound < value * 10 + d then .error .tooLarge else readDigits bound (value * 10 + d) rest

/-- Reads a whole number of at most `bound`. -/
def readNumeral (bound : Nat) (text : String) : Except NumeralError Nat :=
  match text.toList with
  | [] => .error .empty
  | ['+'] => .error .invalidDigit
  | '+' :: digits => readDigits bound 0 digits
  | digits => readDigits bound 0 digits

/-- The largest number of 32 bits. -/
def maxWord32 : Nat := 4294967295

/-- The largest number of 64 bits. -/
def maxWord64 : Nat := 18446744073709551615

/-- The first number that 63 bits do not hold. -/
def wordHalf : Nat := 9223372036854775808

/-- The text of a number in at least `width` digits. -/
def padded (width : Nat) (value : Nat) : List Char :=
  let digits := Nat.toDigits 10 value
  List.replicate (width - digits.length) '0' ++ digits

end LeaseQueue.Text

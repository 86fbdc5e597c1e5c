import LeaseQueue.Decimal.Double
import LeaseQueue.Json.Printer
import LeaseQueue.OrderedMap

/-!
# Normal form of JSON values

The value that a text stands for when nothing about its form is known: whole numbers within 64 bits
are kept, all others become doubles, and the members of an object are sorted by key, the last one
counting of those with one key.  Values that are nested too deeply or hold a number beyond all
doubles have no normal form.
-/

set_option autoImplicit false

namespace LeaseQueue.Json

open Decimal Text

/-- The parts of a written number: whole digits, decimal places, sign and digits of the exponent;
without a point and an exponent there are only whole digits. -/
def numberParts (written : List Char) : List Char × List Char × Bool × List Char :=
  let whole := written.takeWhile Char.isDigit
  let rest := written.dropWhile Char.isDigit
  let (places, rest) :=
    match rest with
    | '.' :: rest => (rest.takeWhile Char.isDigit, rest.dropWhile Char.isDigit)
    | rest => ([], rest)
  match rest with
  | _ :: '-' :: ds => (whole, places, true, ds)
  | _ :: '+' :: ds => (whole, places, false, ds)
  | _ :: ds => (whole, places, false, ds)
  | [] => (whole, places, false, [])

/-- The normal form of a number without its sign, where whole numbers are kept up to a bound. -/
def normalUnsigned? (least bound : Nat) (written : List Char) : Option (List Char) :=
  if written.all Char.isDigit ∧ least ≤ digitsValue written ∧ digitsValue written ≤ bound then
    some (Nat.toDigits 10 (digitsValue written))
  else
    let (whole, places, negative, exponent) := numberParts written
    (double? whole places negative exponent).map printDouble

/-- The normal form of a number. -/
def normalNumber? : List Char → Option (List Char)
  | '-' :: written => (normalUnsigned? 1 wordHalf written).map ('-' :: ·)
  | written => normalUnsigned? 0 maxWord64 written

mutual

/-- The normal form of a value with at most `depth` brackets around any part of it. -/
def normal? (depth : Nat) : Json → Option Json
  | .null => some .null
  | .bool b => some (.bool b)
  | .number written => (normalNumber? written).map .number
  | .text s => s.map ofString
  | .array items =>
    match depth with
    | 0 => none
    | depth + 1 => (normalItems? depth items).map .array
  | .object members =>
    match depth with
    | 0 => none
    | depth + 1 => do
      let members ← normalMembers? depth members
      pure (record (OrderedMap.ofList members).entries)

/-- The normal forms of the items of an array. -/
def normalItems? (depth : Nat) : List Json → Option (List Json)
  | [] => some []
  | item :: items => do
    let item ← normal? depth item
    let items ← normalItems? depth items
    pure (item :: items)

/-- The normal forms of the members of an object. -/
def normalMembers? (depth : Nat) : List (Option String × Json) → Option (List (String × Json))
  | [] => some []
  | (key, value) :: members => do
    let key ← key
    let value ← normal? depth value
    let members ← normalMembers? depth members
    pure ((key, value) :: members)

end

/-- The deepest nesting of brackets that has a normal form. -/
def maxDepth : Nat := 127

end LeaseQueue.Json

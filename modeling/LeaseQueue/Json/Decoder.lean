import LeaseQueue.Json
import LeaseQueue.Settings

/-!
# Reading values of a known form

A record is written as an object, or as an array of its fields in their order.  In an object fields
may come in any order, unknown ones are passed over and a known one may not be repeated; in an array
there may be no item beyond the fields.  A field that is missing is null in an object and missing
for good in an array, unless it has a default.
-/

set_option autoImplicit false

namespace LeaseQueue.Json

open Text

/-- A well-formed text. -/
def string? : Json → Option String
  | .text s => s
  | _ => none

/-- A text or null. -/
def optional? {α : Type} (read : Json → Option α) : Json → Option (Option α)
  | .null => some none
  | v => (read v).map some

/-- True or false. -/
def bool? : Json → Option Bool
  | .bool b => some b
  | _ => none

/-- A number written without places, exponent or minus sign, up to a bound. -/
def nat? (bound : Nat) : Json → Option Nat
  | .number written =>
    if written.all Char.isDigit ∧ digitsValue written ≤ bound then some (digitsValue written)
    else none
  | _ => none

/-- A number of 64 bits with sign, written without places or exponent; minus zero is none. -/
def int64? : Json → Option Int
  | .number ('-' :: written) =>
    if written.all Char.isDigit ∧ 0 < digitsValue written ∧ digitsValue written ≤ wordHalf then
      some (-(digitsValue written : Int))
    else none
  | v => (nat? (wordHalf - 1) v).map Int.ofNat

/-- A named value, by its exact name: as a text, or as the key of an object with null. -/
def choice? {α : Type} [Named α] (v : Json) : Option α := do
  let name ← match v with
    | .text s => s
    | .object [(key, .null)] => key
    | _ => none
  (Named.all : List α).find? fun a => Named.name a == name

/-- The items of an array. -/
def list? {α : Type} (read : Json → Option α) : Json → Option (List α)
  | .array items => items.mapM read
  | _ => none

/-- An object from keys to values; of two members with one key the later one counts. -/
def map? {α : Type} (read : Json → Option α) : Json → Option (OrderedMap String α)
  | .object members => do
    let entries ← members.mapM fun m => do pure (← m.1, ← read m.2)
    pure (.ofList entries)
  | _ => none

/-- The fields of a record, as far as they are there. -/
structure Fields where
  /-- Whether a field that is missing counts as null. -/
  missingIsNull : Bool
  value? : String → Option Json

/-- The fields of an object or an array. -/
def fields? (names : List String) : Json → Option Fields
  | .object members => do
    let members ← members.mapM fun m => do pure (← m.1, m.2)
    if names.any fun n => 1 < (members.filter fun m => m.1 == n).length then none
    else pure ⟨true, fun n => (members.find? fun m => m.1 == n).map Prod.snd⟩
  | .array items =>
    if names.length < items.length then none
    else pure ⟨false, fun n => ((names.zip items).find? fun m => m.1 == n).map Prod.snd⟩
  | _ => none

namespace Fields

/-- A field that has to be there. -/
def required {α : Type} (f : Fields) (name : String) (read : Json → Option α) : Option α :=
  (f.value? name).bind read

/-- A field that may be null, or missing in an object. -/
def nullable {α : Type} (f : Fields) (name : String) (read : Json → Option α) :
    Option (Option α) :=
  match f.value? name with
  | some v => optional? read v
  | none => if f.missingIsNull then some none else none

/-- A field with a default. -/
def orDefault {α : Type} (f : Fields) (name : String) (default : α) (read : Json → Option α) :
    Option α :=
  match f.value? name with
  | some v => read v
  | none => some default

end Fields

end LeaseQueue.Json

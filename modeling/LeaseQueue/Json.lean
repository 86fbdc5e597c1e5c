/-!
# JSON values

A JSON value as it was written: numbers keep their digits, objects the order and the repetitions of
their members.  What a number or a repeated member means is up to whoever reads the value.

An escape in a text can name one half of a surrogate pair.  A text with such a half on its own has
no characters; it is kept as `none`, so that a reader that has no use for the text may pass over it.
-/

set_option autoImplicit false

namespace LeaseQueue

/-- A JSON value. -/
inductive Json
  | null
  | bool (value : Bool)
  /-- A number, as written. -/
  | number (written : List Char)
  | text (value : Option String)
  | array (items : List Json)
  | object (members : List (Option String × Json))
deriving Inhabited

namespace Json

/-- A well-formed text. -/
def ofString (s : String) : Json := .text (some s)

/-- A text or null. -/
def ofString? (s : Option String) : Json :=
  match s with
  | some s => ofString s
  | none => .null

/-- A natural number. -/
def ofNat (n : Nat) : Json := .number (Nat.toDigits 10 n)

/-- A whole number. -/
def ofInt (n : Int) : Json :=
  .number (if n < 0 then '-' :: Nat.toDigits 10 n.natAbs else Nat.toDigits 10 n.natAbs)

/-- An object with well-formed keys. -/
def record (members : List (String × Json)) : Json :=
  .object (members.map fun m => (some m.1, m.2))

end Json

end LeaseQueue

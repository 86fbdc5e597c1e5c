import LeaseQueue.Json
import LeaseQueue.Text.Numeral

/-!
# Writing JSON

The compact text of a value: no space between tokens, and escapes only where JSON asks for them.
-/

set_option autoImplicit false

namespace LeaseQueue.Json

open Text

/-- One character of a text: quote, backslash and control characters are escaped, the common ones
by a letter. -/
def escapedChar (c : Char) : List Char :=
  if c = '"' then ['\\', '"']
  else if c = '\\' then ['\\', '\\']
  else if c = '\n' then ['\\', 'n']
  else if c = '\r' then ['\\', 'r']
  else if c = '\t' then ['\\', 't']
  else if c = '\x08' then ['\\', 'b']
  else if c = '\x0c' then ['\\', 'f']
  else if c.toNat < 0x20 then
    let digits := Nat.toDigits 16 c.toNat
    ['\\', 'u'] ++ List.replicate (4 - digits.length) '0' ++ digits
  else [c]

/-- A text between quotes. -/
def quotedText (s : String) : List Char :=
  '"' :: s.toList.flatMap escapedChar ++ ['"']

mutual

/-- The characters of a value; a text without characters is written as an empty one. -/
def printed : Json → List Char
  | .null => ['n', 'u', 'l', 'l']
  | .bool true => ['t', 'r', 'u', 'e']
  | .bool false => ['f', 'a', 'l', 's', 'e']
  | .number written => written
  | .text s => quotedText (s.getD "")
  | .array items => '[' :: printedItems items ++ [']']
  | .object members => '\x7b' :: printedMembers members ++ ['\x7d']

/-- The items of an array with commas between them. -/
def printedItems : List Json → List Char
  | [] => []
  | [item] => printed item
  | item :: item' :: items => printed item ++ ',' :: printedItems (item' :: items)

/-- The members of an object with commas between them. -/
def printedMembers : List (Option String × Json) → List Char
  | [] => []
  | [(key, value)] => quotedText (key.getD "") ++ ':' :: printed value
  | (key, value) :: member :: members =>
    quotedText (key.getD "") ++ ':' :: printed value ++ ',' :: printedMembers (member :: members)

end

/-- The compact text of a value. -/
def print (v : Json) : String := String.ofList (printed v)

end LeaseQueue.Json

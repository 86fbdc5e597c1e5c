import LeaseQueue.Text.VisibleRanges

/-!
# Quoted text

A text inside a message stands between double quotes, written so that it fits on one line and shows
what it holds: the quote and the backslash get a backslash, tab, line feed, carriage return and the
null character have short escapes, and a character that would be invisible or would merge with its
neighbour is given by its code point.
-/

set_option autoImplicit false

namespace LeaseQueue.Text

/-- Whether a character beyond ASCII is shown as it is. -/
def isVisible (c : Char) : Bool :=
  visibleRanges.any fun range => range.1 ≤ c.toNat && c.toNat ≤ range.2

/-- A character given by its code point in lower-case hexadecimal digits. -/
def codePointEscape (c : Char) : List Char :=
  ['\\', 'u', '\x7b'] ++ Nat.toDigits 16 c.toNat ++ ['\x7d']

/-- One character as it stands between the quotes. -/
def quotedChar (c : Char) : List Char :=
  if c = '"' then ['\\', '"']
  else if c = '\\' then ['\\', '\\']
  else if c = '\t' then ['\\', 't']
  else if c = '\n' then ['\\', 'n']
  else if c = '\r' then ['\\', 'r']
  else if c.toNat = 0 then ['\\', '0']
  else if 0x20 ≤ c.toNat ∧ c.toNat < 0x7F then [c]
  else if isVisible c then [c]
  else codePointEscape c

/-- The text between double quotes. -/
def quoted (text : String) : String :=
  String.ofList ('"' :: text.toList.flatMap quotedChar ++ ['"'])

end LeaseQueue.Text

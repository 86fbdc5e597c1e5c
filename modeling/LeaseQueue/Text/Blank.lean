/-!
# Blank characters and letter case

The characters that separate words (the Unicode property `White_Space`), the text without such
characters at its ends, and the upper case of ASCII letters.  Configuration values are read after
both have been applied, so a value may be padded and spelled in either case.
-/

set_option autoImplicit false

namespace LeaseQueue.Text

/-- The characters with the Unicode property `White_Space`. -/
def isBlank (c : Char) : Bool :=
  (0x09 ≤ c.val && c.val ≤ 0x0D) || c.val == 0x20 || c.val == 0x85 || c.val == 0xA0 ||
  c.val == 0x1680 || (0x2000 ≤ c.val && c.val ≤ 0x200A) || c.val == 0x2028 || c.val == 0x2029 ||
  c.val == 0x202F || c.val == 0x205F || c.val == 0x3000

/-- The characters without the blank ones at both ends. -/
def trimmed (cs : List Char) : List Char :=
  ((cs.dropWhile isBlank).reverse.dropWhile isBlank).reverse

/-- The text without the blank characters at both ends. -/
def trim (text : String) : String :=
  String.ofList (trimmed text.toList)

/-- A text is blank when trimming leaves nothing of it. -/
def isBlankText (text : String) : Bool :=
  (trimmed text.toList).isEmpty

/-- The text with every ASCII letter in upper case; all other characters stay. -/
def upper (text : String) : String :=
  String.ofList (text.toList.map Char.toUpper)

end LeaseQueue.Text

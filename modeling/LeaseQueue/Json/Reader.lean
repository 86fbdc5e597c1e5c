import LeaseQueue.Json

/-!
# Reading JSON

`Json.read?` accepts exactly the grammar of JSON: no comma before a closing bracket, no leading
zeros, no control characters inside a text, and nothing but space behind the value.
-/

set_option autoImplicit false

namespace LeaseQueue.Json

/-- Space between tokens. -/
def isSpace (c : Char) : Bool := c == ' ' || c == '\n' || c == '\t' || c == '\r'

/-- The characters from the first one that is no space. -/
def skipSpace (cs : List Char) : List Char := cs.dropWhile isSpace

/-- The value of a hexadecimal digit of either case. -/
def hexValue? (c : Char) : Option Nat :=
  if c.isDigit then some (c.toNat - '0'.toNat)
  else if 'a' ≤ c ∧ c ≤ 'f' then some (c.toNat - 'a'.toNat + 10)
  else if 'A' ≤ c ∧ c ≤ 'F' then some (c.toNat - 'A'.toNat + 10)
  else none

/-- The code unit of four hexadecimal digits. -/
def codeUnit? (a b c d : Char) : Option Nat := do
  pure ((((← hexValue? a) * 16 + (← hexValue? b)) * 16 + (← hexValue? c)) * 16 + (← hexValue? d))

/-- A piece of a text: a character, or a code unit given by an escape. -/
inductive Piece
  | char (c : Char)
  | unit (n : Nat)

/-- The character of a short escape. -/
def shortEscape? : Char → Option Char
  | '"' => some '"'
  | '\\' => some '\\'
  | '/' => some '/'
  | 'b' => some '\x08'
  | 'f' => some '\x0c'
  | 'n' => some '\n'
  | 'r' => some '\r'
  | 't' => some '\t'
  | _ => none

/-- The pieces of a text up to its closing quote, and what is behind it. -/
def pieces? : List Char → Option (List Piece × List Char)
  | [] => none
  | '"' :: rest => some ([], rest)
  | '\\' :: 'u' :: a :: b :: c :: d :: rest => do
    let n ← codeUnit? a b c d
    let (ps, rest) ← pieces? rest
    pure (.unit n :: ps, rest)
  | '\\' :: e :: rest => do
    let c ← shortEscape? e
    let (ps, rest) ← pieces? rest
    pure (.char c :: ps, rest)
  | c :: rest =>
    if c.toNat < 0x20 ∨ c = '\\' then none
    else do
      let (ps, rest) ← pieces? rest
      pure (.char c :: ps, rest)

/-- The first half of a surrogate pair. -/
def isHighHalf (n : Nat) : Bool := 0xD800 ≤ n && n < 0xDC00

/-- The second half of a surrogate pair. -/
def isLowHalf (n : Nat) : Bool := 0xDC00 ≤ n && n < 0xE000

/-- The characters of the pieces, unless half a surrogate pair stands on its own. -/
def characters? : List Piece → Option (List Char)
  | [] => some []
  | .char c :: rest => (characters? rest).map (c :: ·)
  | .unit h :: .unit l :: rest =>
    if isHighHalf h then
      if isLowHalf l then
        (characters? rest).map (Char.ofNat (0x10000 + (h - 0xD800) * 0x400 + (l - 0xDC00)) :: ·)
      else none
    else if isLowHalf h then none
    else (characters? (.unit l :: rest)).map (Char.ofNat h :: ·)
  | .unit n :: rest =>
    if isHighHalf n || isLowHalf n then none else (characters? rest).map (Char.ofNat n :: ·)

/-- A text behind its opening quote. -/
def textToken? (cs : List Char) : Option (Option String × List Char) := do
  let (ps, rest) ← pieces? cs
  pure ((characters? ps).map String.ofList, rest)

/-- The digits at the front, at least one. -/
def digits? (cs : List Char) : Option (List Char × List Char) :=
  match cs.takeWhile Char.isDigit with
  | [] => none
  | ds => some (ds, cs.dropWhile Char.isDigit)

/-- The whole part of a number: a zero, or digits that do not begin with one. -/
def wholeToken? (cs : List Char) : Option (List Char × List Char) := do
  let (ds, rest) ← digits? cs
  match ds with
  | '0' :: _ :: _ => none
  | ds => pure (ds, rest)

/-- The decimal places of a number, with their point; there may be none. -/
def placesToken? : List Char → Option (List Char × List Char)
  | '.' :: cs => do
    let (ds, rest) ← digits? cs
    pure ('.' :: ds, rest)
  | cs => some ([], cs)

/-- The exponent of a number, with its letter and sign; there may be none. -/
def exponentToken? : List Char → Option (List Char × List Char)
  | e :: cs =>
    if e = 'e' ∨ e = 'E' then
      match cs with
      | '+' :: cs => do
        let (ds, rest) ← digits? cs
        pure (e :: '+' :: ds, rest)
      | '-' :: cs => do
        let (ds, rest) ← digits? cs
        pure (e :: '-' :: ds, rest)
      | cs => do
        let (ds, rest) ← digits? cs
        pure (e :: ds, rest)
    else some ([], e :: cs)
  | [] => some ([], [])

/-- A number without its sign. -/
def unsignedToken? (cs : List Char) : Option (List Char × List Char) := do
  let (whole, cs) ← wholeToken? cs
  let (places, cs) ← placesToken? cs
  let (exponent, cs) ← exponentToken? cs
  pure (whole ++ places ++ exponent, cs)

/-- A number. -/
def numberToken? : List Char → Option (List Char × List Char)
  | '-' :: cs => do
    let (written, rest) ← unsignedToken? cs
    pure ('-' :: written, rest)
  | cs => unsignedToken? cs

mutual

/-- A value at the front of the characters, and what is behind it.  The fuel bounds the nesting and
the number of values together; the length of the text always suffices. -/
def value? : Nat → List Char → Option (Json × List Char)
  | 0, _ => none
  | fuel + 1, cs =>
    match skipSpace cs with
    | 'n' :: 'u' :: 'l' :: 'l' :: rest => some (.null, rest)
    | 't' :: 'r' :: 'u' :: 'e' :: rest => some (.bool true, rest)
    | 'f' :: 'a' :: 'l' :: 's' :: 'e' :: rest => some (.bool false, rest)
    | '"' :: rest => do
      let (s, rest) ← textToken? rest
      pure (.text s, rest)
    | '[' :: rest =>
      match skipSpace rest with
      | ']' :: rest => some (.array [], rest)
      | rest => do
        let (items, rest) ← items? fuel rest
        pure (.array items, rest)
    | '\x7b' :: rest =>
      match skipSpace rest with
      | '\x7d' :: rest => some (.object [], rest)
      | rest => do
        let (members, rest) ← members? fuel rest
        pure (.object members, rest)
    | rest => do
      let (written, rest) ← numberToken? rest
      pure (.number written, rest)

/-- The items of an array up to its closing bracket. -/
def items? : Nat → List Char → Option (List Json × List Char)
  | 0, _ => none
  | fuel + 1, cs => do
    let (item, rest) ← value? fuel cs
    match skipSpace rest with
    | ',' :: rest =>
      let (items, rest) ← items? fuel rest
      pure (item :: items, rest)
    | ']' :: rest => pure ([item], rest)
    | _ => none

/-- The members of an object up to its closing brace. -/
def members? : Nat → List Char → Option (List (Option String × Json) × List Char)
  | 0, _ => none
  | fuel + 1, cs =>
    match skipSpace cs with
    | '"' :: rest => do
      let (key, rest) ← textToken? rest
      match skipSpace rest with
      | ':' :: rest =>
        let (value, rest) ← value? fuel rest
        match skipSpace rest with
        | ',' :: rest =>
          let (members, rest) ← members? fuel rest
          pure ((key, value) :: members, rest)
        | '\x7d' :: rest => pure ([(key, value)], rest)
        | _ => none
      | _ => none
    | _ => none

end

/-- Reads a text that holds one value. -/
def read? (s : String) : Option Json := do
  let cs := s.toList
  let (v, rest) ← value? (2 * cs.length + 1) cs
  if (skipSpace rest).isEmpty then some v else none

end LeaseQueue.Json

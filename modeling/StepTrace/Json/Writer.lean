import StepTrace.Json.Basic

/-!
# Writing JSON

`Json.compress` writes a value without any white space, `Json.pretty` one item to a line with two
spaces of indentation. Strings escape the quote, the backslash and the control characters, and
nothing else. A value that stands for nothing is written as null.
-/

set_option autoImplicit false

namespace StepTrace.Json

/-- A hexadecimal digit, in lower case. -/
def hexChar (n : Nat) : Char := if n < 10 then Char.ofNat (48 + n) else Char.ofNat (87 + n)

/-- A character as a string holds it. -/
def escape (c : Char) : List Char :=
  if c = '\x22' then ['\\', '\x22']
  else if c = '\\' then ['\\', '\\']
  else if c = '\x08' then ['\\', 'b']
  else if c = '\x0c' then ['\\', 'f']
  else if c = '\n' then ['\\', 'n']
  else if c = '\r' then ['\\', 'r']
  else if c = '\t' then ['\\', 't']
  else if c.toNat < 0x20 then
    ['\\', 'u', '0', '0', hexChar (c.toNat / 16), hexChar (c.toNat % 16)]
  else [c]

/-- A string between its quotes. -/
def quote (s : List Char) : List Char := '\x22' :: s.flatMap escape ++ ['\x22']

/-- An integer in decimal digits. -/
def writeInteger : Int → List Char
  | .ofNat n => Text.digits n
  | .negSucc n => '-' :: Text.digits (n + 1)

mutual

/-- A value without white space. -/
def compact : Json → List Char
  | .null => "null".toList
  | .bool true => "true".toList
  | .bool false => "false".toList
  | .integer i => writeInteger i
  | .real literal => literal.toList
  | .string s => quote s.toList
  | .array items => '[' :: compactItems items ++ [']']
  | .object members => '\x7b' :: compactMembers members ++ ['\x7d']
  | .unreadable => "null".toList

/-- The items of an array with a comma between each two. -/
def compactItems : List Json → List Char
  | [] => []
  | [j] => compact j
  | j :: k :: js => compact j ++ ',' :: compactItems (k :: js)

/-- The members of an object with a comma between each two. -/
def compactMembers : List (String × Json) → List Char
  | [] => []
  | [(name, j)] => quote name.toList ++ ':' :: compact j
  | (name, j) :: m :: ms => quote name.toList ++ ':' :: compact j ++ ',' :: compactMembers (m :: ms)

end

/-- A value without white space, as a string. -/
def compress (j : Json) : String := String.ofList (compact j)

/-- The start of a line at some depth. -/
def newLine (depth : Nat) : List Char := '\n' :: List.replicate (2 * depth) ' '

mutual

/-- A value with each item on a line of its own, indented to `depth`. -/
def spread (depth : Nat) : Json → List Char
  | .array [] => ['[', ']']
  | .array (j :: js) =>
    '[' :: newLine (depth + 1) ++ spread (depth + 1) j ++ spreadItems (depth + 1) js ++
      newLine depth ++ [']']
  | .object [] => ['\x7b', '\x7d']
  | .object ((name, j) :: ms) =>
    '\x7b' :: newLine (depth + 1) ++ quote name.toList ++ [':', ' '] ++ spread (depth + 1) j ++
      spreadMembers (depth + 1) ms ++ newLine depth ++ ['\x7d']
  | j => compact j

/-- The further items of an array, each after a comma. -/
def spreadItems (depth : Nat) : List Json → List Char
  | [] => []
  | j :: js => ',' :: newLine depth ++ spread depth j ++ spreadItems depth js

/-- The further members of an object, each after a comma. -/
def spreadMembers (depth : Nat) : List (String × Json) → List Char
  | [] => []
  | (name, j) :: ms =>
    ',' :: newLine depth ++ quote name.toList ++ [':', ' '] ++ spread depth j ++
      spreadMembers depth ms

end

/-- A value with each item on a line of its own, as a string. -/
def pretty (j : Json) : String := String.ofList (spread 0 j)

end StepTrace.Json

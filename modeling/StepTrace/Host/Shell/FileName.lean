/-!
# File names in messages

A message of a tool shows a file name so that it can be given back to a shell: bare where nothing in
it is special, in quotes elsewhere, and with escapes for bytes that cannot be printed.
-/

set_option autoImplicit false

namespace StepTrace.Host.Shell.FileName

/-- The letter that a backslash makes a control character of. -/
def escapeLetter? (c : Char) : Option Char :=
  [('\x07', 'a'), ('\x08', 'b'), ('\t', 't'), ('\n', 'n'), ('\x0b', 'v'), ('\x0c', 'f'),
    ('\r', 'r')].lookup c

/-- Whether a byte cannot be printed. -/
def isHidden (c : Char) : Bool := c < ' ' || '~' < c

/-- The escape of a byte that cannot be printed: a letter, or three octal digits. -/
def escaped (c : Char) : List Char :=
  match escapeLetter? c with
  | some letter => ['\\', letter]
  | none => '\\' :: [c.toNat / 64, c.toNat / 8 % 8, c.toNat % 8].map Nat.digitChar

/-- The text between the outer quotes; `escaping` tells whether it goes on after an escape. -/
def body (escaping : Bool) : List Char → List Char
  | [] => []
  | c :: r =>
    if isHidden c then
      (if escaping then [] else "'$'".toList) ++ escaped c ++ body true r
    else if c = '\x27' then "'\\''".toList ++ body false r
    else (if escaping then "''".toList else []) ++ c :: body false r

/-- A character that a shell takes literally wherever it stands. -/
def isPlain (c : Char) : Bool := c.isAlphanum || "%+,-./_]@".toList.contains c

/-- Whether a name can stand without quotes. -/
def isBare (name : List Char) : Bool :=
  match name with
  | [] => false
  | [c] => isPlain c
  | c :: r => (isPlain c || c == '{' || c == '}') &&
    r.all fun c => isPlain c || "{}#~".toList.contains c

/-- A name in quotes: double ones if a single quote is all that is special besides blanks. -/
def quoted (name : List Char) : List Char :=
  let mild := fun c => isPlain c || c == ' ' || c == '\x27' || c == ':'
  if name.contains '\x27' && name.all mild then '\x22' :: name ++ ['\x22']
  else '\x27' :: body false name ++ ['\x27']

/-- A name, in quotes if it needs them. -/
def shown (name : List Char) : List Char := if isBare name then name else quoted name

end StepTrace.Host.Shell.FileName

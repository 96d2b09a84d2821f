import StepTrace.Text.Numeral
import StepTrace.Toml.Reader

/-!
# Writing TOML

A string is written in the plainest of four kinds that can hold it: with quotes if it needs no
escape, else literal, else on several lines, and only then with escapes. A name goes without quotes
if it can. An array of several strings has each on a line of its own.
-/

set_option autoImplicit false

namespace StepTrace.Toml

/-- The length of the longest run of a character in a text, after `run` of them. -/
def longestRun (quote : Char) (run : Nat) : List Char → Nat
  | [] => run
  | c :: r =>
    if c = quote then longestRun quote (run + 1) r else max run (longestRun quote 0 r)

/-- A control character that only an escape can write. -/
def needsEscape (c : Char) : Bool :=
  (c.toNat < 0x20 && c != '\t' && c != '\n') || c.toNat = 0x7F

/-- A hexadecimal digit, in upper case. -/
def hexChar (n : Nat) : Char := if n < 10 then Char.ofNat (48 + n) else Char.ofNat (55 + n)

/-- A control character by its number. -/
def numbered (c : Char) : List Char :=
  ['\\', 'u', '0', '0', hexChar (c.toNat / 16), hexChar (c.toNat % 16)]

/-- A text with escapes, on one line or on several; `run` quotes stand before it. No more than
`allowed` quotes follow one another. -/
def escaped (long : Bool) (allowed run : Nat) : List Char → List Char
  | [] => []
  | c :: r =>
    if c = '\x22' then
      if run < allowed then c :: escaped long allowed (run + 1) r
      else '\\' :: c :: escaped long allowed 0 r
    else if c = '\\' then '\\' :: '\\' :: escaped long allowed 0 r
    else if c = '\x08' then '\\' :: 'b' :: escaped long allowed 0 r
    else if c = '\t' then '\\' :: 't' :: escaped long allowed 0 r
    else if c = '\n' then
      if long then c :: escaped long allowed 0 r else '\\' :: 'n' :: escaped long allowed 0 r
    else if c = '\x0c' then '\\' :: 'f' :: escaped long allowed 0 r
    else if c = '\r' then '\\' :: 'r' :: escaped long allowed 0 r
    else if needsEscape c then numbered c ++ escaped long allowed 0 r
    else c :: escaped long allowed 0 r

/-- A string on one line with escapes. -/
def basic (s : List Char) : List Char := '\x22' :: escaped false 0 0 s ++ ['\x22']

/-- A literal string on one line. -/
def literal (s : List Char) : List Char := '\x27' :: s ++ ['\x27']

/-- The line break before the text of a string that goes over several lines. -/
def leadingBreak (s : List Char) : List Char := if s.contains '\n' then ['\n'] else []

/-- A string on several lines with escapes. -/
def longBasic (s : List Char) : List Char :=
  List.replicate 3 '\x22' ++ leadingBreak s ++ escaped true 2 0 s ++ List.replicate 3 '\x22'

/-- A literal string on several lines. -/
def longLiteral (s : List Char) : List Char :=
  List.replicate 3 '\x27' ++ leadingBreak s ++ s ++ List.replicate 3 '\x27'

/-- A string between quotes. -/
def quote (s : List Char) : List Char :=
  let controls := s.any needsEscape
  let backslash := s.contains '\\'
  let breaks := s.contains '\n'
  let doubles := longestRun '\x22' 0 s
  let singles := longestRun '\x27' 0 s
  if !controls && !backslash && doubles = 0 && !breaks then basic s
  else if !controls && singles = 0 && !breaks then literal s
  else if !controls && !backslash && doubles ≤ 2 then longBasic s
  else if !controls && singles ≤ 2 then longLiteral s
  else if breaks then longBasic s
  else basic s

/-- A name, between quotes if it needs them. -/
def quoteName (s : List Char) : List Char :=
  let controls := s.any fun c => needsEscape c || c == '\n'
  if !s.isEmpty && s.all isBare then s
  else if !controls && !s.contains '\\' && !s.contains '\x22' then basic s
  else if !controls && !s.contains '\x27' then literal s
  else basic s

/-- A line that gives a name a value. -/
def assignment (name : String) (value : List Char) : List Char :=
  quoteName name.toList ++ " = ".toList ++ value ++ ['\n']

/-- A truth value. -/
def truth (b : Bool) : List Char := (if b then "true" else "false").toList

/-- An array of strings. -/
def strings : List String → List Char
  | [] => "[]".toList
  | [s] => '[' :: quote s.toList ++ [']']
  | items =>
    let lines := items.flatMap fun s => "    ".toList ++ quote s.toList ++ ",\n".toList
    "[\n".toList ++ lines ++ [']']

/-- A table with a header. -/
def titled (name : String) (lines : List (List Char)) : List Char :=
  '[' :: name.toList ++ "]\n".toList ++ lines.flatten

end StepTrace.Toml

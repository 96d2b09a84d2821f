import StepTrace.Text.Blank
import StepTrace.Text.Pieces

/-!
# Words and comments of a script line

The first word of a line, its words, and the line without the comment at its end. A comment starts
at a number sign after a blank or a semicolon, outside quotes.
-/

set_option autoImplicit false

namespace StepTrace.Posix

/-- A character between words. -/
def isBreak (c : Char) : Bool := Text.isBlank c || c == ';'

/-- What a line holds before its first blank or semicolon. -/
def firstWord (s : List Char) : List Char := s.takeWhile fun c => !isBreak c

/-- The pieces of a line between blanks and semicolons, those that are empty included. -/
def words (s : List Char) : List (List Char) := Text.pieces isBreak s

/-- What stands before a comment, in some state of quotes and after some character. -/
def beforeComment (inSingle inDouble : Bool) (previous : Char) : List Char → List Char
  | [] => []
  | c :: r =>
    if c = '\x27' ∧ inDouble = false then c :: beforeComment (!inSingle) inDouble c r
    else if c = '\x22' ∧ inSingle = false then c :: beforeComment inSingle (!inDouble) c r
    else if c = '#' ∧ inSingle = false ∧ inDouble = false ∧ isBreak previous = true then []
    else c :: beforeComment inSingle inDouble c r

/-- A line without the comment at its end. -/
def stripComment (s : List Char) : List Char := beforeComment false false ' ' s

end StepTrace.Posix

import StepTrace.Marker
import StepTrace.Posix.ScriptState

/-!
# Shell scripts that report their progress

`instrument` puts a command that prints a marker before each line on which a command begins; no line
is changed. `wrap` puts a script into a group whose errors go to its output.
-/

set_option autoImplicit false

namespace StepTrace.Posix

/-- The blanks that a line begins with. -/
def indentation (line : List Char) : List Char := line.takeWhile Text.isBlank

/-- The command that prints a text. -/
def echo (text : List Char) : List Char := "echo \x22".toList ++ text ++ ['\x22']

theorem echo_eq (text : List Char) : echo text = "echo \x22".toList ++ text ++ ['\x22'] := rfl

/-- The lines of a script from a line with a number on, with their markers. -/
def markLines (s : ScriptState) (number : Nat) : List (List Char) → List (List Char)
  | [] => []
  | line :: rest =>
    let after := line :: markLines (s.consume line) (number + 1) rest
    if s.startsCommand line then
      (indentation line ++ echo (Marker.ofLine number)) :: after
    else after

/-- A script with a marker before each line on which a command begins. -/
def instrument (code : List Char) : List Char :=
  Text.joinLines (markLines .start 1 (Text.splitLines code))

/-- A script as a group with one output. -/
def wrap (code : List Char) : List Char := "\x7b\n".toList ++ code ++ "\n\x7d 2>&1".toList

/-- The command that prints the end marker. -/
def endStatement : List Char := echo Marker.ending

end StepTrace.Posix

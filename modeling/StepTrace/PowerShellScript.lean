import StepTrace.Marker

/-!
# PowerShell scripts that report their progress

Every line of a PowerShell script, blank ones and comments included, gets a line before it that
prints its marker.
-/

set_option autoImplicit false

namespace StepTrace.PowerShell

/-- The command that prints a text. -/
def writeOutput (text : List Char) : List Char :=
  "Write-Output \x22".toList ++ text ++ ['\x22']

/-- Lines with their markers, the first of them with a number. -/
def markLines (number : Nat) : List (List Char) → List (List Char)
  | [] => []
  | line :: rest => writeOutput (Marker.ofLine number) :: line :: markLines (number + 1) rest

/-- A script with a marker before each line. -/
def instrument (code : List Char) : List Char :=
  Text.joinLines (markLines 1 (Text.splitLines code))

/-- A script inside a `try` block that stops at the first error and prints it. -/
def wrap (code : List Char) : List Char :=
  "\ntry \x7b\n    $ErrorActionPreference = \x22Stop\x22\n".toList ++ code ++
    "\n\x7d catch \x7b\n    Write-Error $_\n\x7d\n".toList

/-- The command that prints the end marker. -/
def endStatement : List Char := writeOutput Marker.ending

end StepTrace.PowerShell

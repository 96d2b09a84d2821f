import StepTrace.Text.Blank
import StepTrace.Text.Line
import StepTrace.Text.Numeral
import StepTrace.Text.Span

/-!
# Reports of a shell's syntax check

A shell that refuses a script prints its own name, the line and the cause, as in `sh: 2: message` or
`bash: line 2: message`. `readReport` finds the first line of this form; a report without one stands
for the first line of the script.
-/

set_option autoImplicit false

namespace StepTrace.Posix

/-- The line number and the cause in a line of a report. -/
def readReportLine (s : List Char) : Option (Nat × List Char) := do
  let (_, rest) ← Text.cutAt ": ".toList s
  let name := s.take (s.length - rest.length - 2)
  if name.contains ':' then none
  let rest := (Text.dropLeading? "line ".toList rest).getD rest
  let (number, rest) := rest.span Char.isDigit
  let cause ← Text.dropLeading? ": ".toList rest
  if cause.isEmpty then none
  let line ← Text.readWord number
  return (line, Text.trim cause)

/-- The line number and the cause that a report gives. -/
def readReport (report : List Char) : Nat × List Char :=
  ((Text.lines report).findSome? readReportLine).getD (1, Text.trim report)

end StepTrace.Posix

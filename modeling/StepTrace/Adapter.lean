import StepTrace.Failure
import StepTrace.Language
import StepTrace.Posix.Script
import StepTrace.Posix.SyntaxReport
import StepTrace.PowerShellScript
import StepTrace.Python.Program
import StepTrace.Python.Prompt

/-!
# Adapters

An adapter knows one kind of interpreter: the command that launches it, how code is prepared for it
and what its lines of output mean. `Adapter.preprocess` is the text that an interpreter is fed for a
submission; it fails only where the code cannot be parsed or a syntax check refused it.
-/

set_option autoImplicit false

namespace StepTrace

/-- The command that starts an interpreter. -/
structure LaunchCommand where
  program : String
  args : List String
  deriving DecidableEq, Repr, Inhabited

/-- A command as one line. -/
def LaunchCommand.text (c : LaunchCommand) : String := String.intercalate " " (c.program :: c.args)

/-- The two streams that an interpreter prints on. -/
inductive Source where
  | stdout
  | stderr
  deriving DecidableEq, Repr, Inhabited

/-- The kinds of interpreters. -/
inductive Dialect where
  | python
  | powershell
  | posix
  deriving DecidableEq, Repr, Inhabited

/-- What a shell that only checks a script says of it. -/
inductive Verdict where
  /-- The script passed, or there was no shell to ask. -/
  | accepted
  /-- The shell refused the script and printed a report. -/
  | refused (report : String)
  deriving DecidableEq, Repr, Inhabited

/-- An interpreter's kind, the language it runs and the command that starts it. -/
structure Adapter where
  dialect : Dialect
  language : Language
  launch : LaunchCommand
  deriving DecidableEq, Repr, Inhabited

namespace Adapter

/-- The adapter of a Python interpreter. -/
def python (launch : LaunchCommand) : Adapter := ⟨.python, .python, launch⟩

/-- The adapter of a PowerShell interpreter. -/
def powershell (launch : LaunchCommand) : Adapter := ⟨.powershell, .powershell, launch⟩

/-- The adapter of a shell that runs code of some language. -/
def posix (language : Language) (launch : LaunchCommand) : Adapter := ⟨.posix, language, launch⟩

/-- The name of an adapter. -/
def name (a : Adapter) : String :=
  match a.dialect with
  | .python => "python"
  | .powershell => "powershell"
  | .posix => "posix-shell"

/-- The failure that a syntax error in Python code becomes. -/
def syntaxFailure (e : Python.SyntaxError) : Failure :=
  .instrumentationFailed Language.python.id e.line e.message

/-- Code with a marker before each of its steps. -/
def instrument (a : Adapter) (code : List Char) : Except Failure (List Char) :=
  match a.dialect with
  | .python => (Python.instrument code).mapError syntaxFailure
  | .powershell => .ok (PowerShell.instrument code)
  | .posix => .ok (Posix.instrument code)

/-- Code whose errors are reported and not fatal. -/
def wrapErrors (a : Adapter) (code : List Char) : Except Failure (List Char) :=
  match a.dialect with
  | .python => (Python.wrap code).mapError syntaxFailure
  | .powershell => .ok (PowerShell.wrap code)
  | .posix => .ok (Posix.wrap code)

/-- The statement that prints the end marker. -/
def endStatement (a : Adapter) : List Char :=
  match a.dialect with
  | .python => "print(\x22".toList ++ Marker.ending ++ "\x22)".toList
  | .powershell => PowerShell.endStatement
  | .posix => Posix.endStatement

/-- Whether code is shown to the interpreter's own syntax check before it runs. -/
def checksSyntax (a : Adapter) : Bool := a.dialect == .posix

/-- The failure, if any, that the verdict on some code means. -/
def judge (a : Adapter) : Verdict → Except Failure Unit
  | .accepted => .ok ()
  | .refused report =>
    let (line, cause) := Posix.readReport report.toList
    .error (.instrumentationFailed a.language.id line (String.ofList cause))

/-- A text without the line feeds at its end. -/
def dropFinalBreaks (s : List Char) : List Char := (s.reverse.dropWhile (· == '\n')).reverse

theorem dropFinalBreaks_eq_self {s : List Char} (h : s.getLast? ≠ some '\n') :
    dropFinalBreaks s = s := by
  rw [dropFinalBreaks]
  cases hr : s.reverse with
  | nil => rw [List.reverse_eq_nil_iff.mp hr]; rfl
  | cons c r =>
    have hc : (c == '\n') = false := by
      refine beq_false_of_ne fun hc => h ?_
      rw [← List.head?_reverse, hr, hc]
      rfl
    rw [List.dropWhile_cons, hc, if_neg (by simp), ← hr, List.reverse_reverse]

/-- Prepared code with the statement that ends it. -/
def closed (a : Adapter) (code : List Char) : List Char :=
  dropFinalBreaks code ++ '\n' :: '\n' :: a.endStatement

/-- What an interpreter is fed for code that its syntax check gave a verdict on. -/
def preprocess (a : Adapter) (verdict : Verdict) (code : List Char) :
    Except Failure (List Char) := do
  a.judge verdict
  let instrumented ← a.instrument code
  let wrapped ← a.wrapErrors instrumented
  return a.closed wrapped

/-- What a line of output means, whatever stream it came from. -/
def classifyLine (a : Adapter) (line : List Char) : LineEvent :=
  match a.dialect with
  | .python => Python.classifyPrompted line
  | _ => Marker.classify line

/-- What a line of a stream means. Only the error stream of Python holds prompts. -/
def classifyOutput (a : Adapter) (line : List Char) (source : Source) : LineEvent :=
  match source with
  | .stdout => Marker.classify line
  | .stderr => a.classifyLine line

end Adapter

end StepTrace

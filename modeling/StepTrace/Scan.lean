import StepTrace.Host.Program

/-!
# Scans

Code can be looked over by a scanner before it runs. The scanner is a program that finds the code in
a file of its working directory and says by its status whether it found anything.
-/

set_option autoImplicit false

namespace StepTrace

/-- What a scanner said of some code. -/
structure ScanReport where
  language : Language
  properName : String
  /-- Whether nothing was found. -/
  clean : Bool
  /-- All that the scanner printed. -/
  output : String
  deriving DecidableEq, Repr, Inhabited

namespace ScanReport

/-- What was found, in a sentence. -/
def summary (r : ScanReport) : String :=
  (if r.clean then "No issues" else "Issues") ++ " were found in this " ++ r.properName ++ " code."

end ScanReport

namespace Scan

/-- The scanner that is used if no other is named. -/
def usualScanner : String := "semgrep"

/-- The directory of files that are not kept; an empty name means the working directory. -/
def temporary (h : Host) : String :=
  match h.environment.get? "TMPDIR" with
  | some path => if path.isEmpty then "." else path
  | none => "/tmp"

/-- The name of the file that holds the code. -/
def fileName (l : Language) : String := l.fileName "linecast-scan00"

/-- What a scanner is told to do. -/
def args (l : Language) : List String :=
  ["scan", "--config", "auto", "--quiet", "--error", fileName l]

/-- The host as the scanner finds it: in the directory that the code was put in. -/
def prepare (h : Host) (l : Language) (code : List Char) : Option Host := do
  let place ← h.disk.locate h.directory (temporary h)
  if !h.disk.isDirectoryAt place then none
  let file := Host.Entry.file (.data (Host.Bytes.ofText code)) false
  return { h with disk := h.disk.put (place ++ [fileName l]) file, directory := place }

/-- Runs a scanner over code. -/
def run (h : Host) (scanner : String) (l : Language) (code : List Char) :
    Except Failure ScanReport :=
  match h.findCommand? scanner with
  | none => .error (.scanFailed l.id (scanner ++ " not found"))
  | some path =>
    match prepare h l code with
    | none => .error (.io "the code cannot be written")
    | some h =>
      match h.launch? path (args l) 1 0 with
      | none => .error (.scanFailed l.id "the scanner cannot be started")
      | some program =>
        let outcome := program.runToEnd []
        let printed := Host.Bytes.text outcome.stdout ++ Host.Bytes.text outcome.stderr
        .ok ⟨l, l.properName, outcome.status == some 0, String.ofList printed⟩

end Scan

end StepTrace

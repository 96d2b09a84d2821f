import StepTrace.CommandLine
import StepTrace.Host.Standard

/-!
# The program

Puts together what the command line needs to know of the machine, and prints what it answers.
-/

set_option autoImplicit false

namespace StepTrace

/-- The variables that the program looks at. -/
def watchedVariables : List String :=
  ["PATH", "HOME", "XDG_CONFIG_HOME", SettingsFile.pathVariable, "TMPDIR"]

/-- The host with a file of the machine, if it is there. -/
def withFile (h : Host) (path : String) : IO Host := do
  try
    let bytes ← IO.FS.readBinFile path
    let data := bytes.toList.map fun b => Char.ofNat b.toNat
    let place := Host.Path.names (Host.Path.join h.directoryPath path)
    return { h with disk := h.disk.install place (.file (.data data) false) }
  catch _ => return h

/-- The machine as far as the program looks at it. -/
def readHost (args : List String) : IO Host := do
  let mut environment := Environment.empty
  for name in watchedVariables do
    if let some value ← IO.getEnv name then environment := environment.insert name value
  let directory := Host.Path.names (← IO.currentDir).toString
  let disk := Host.usualDisk
  let disk := if disk.isDirectoryAt directory then disk else disk.install directory .directory
  let mut host : Host := ⟨disk, directory, environment⟩
  let named := match CommandLine.Request.ofArgs args with
    | .ok r => r.config.toList ++ (r.source?.bind CommandLine.CodeSource.file).toList
    | .error _ => []
  for path in SettingsFile.searchPaths host ++ named do host ← withFile host path
  return host

end StepTrace

/-- Runs the program. -/
def main (args : List String) : IO UInt32 := do
  let host ← StepTrace.readHost args
  let input ← match StepTrace.CommandLine.Request.ofArgs args with
    | .ok r => if r.readsInput then IO.FS.Stream.readToEnd (← IO.getStdin) else pure ""
    | .error _ => pure ""
  let outcome := StepTrace.CommandLine.execute host args input.toList
  IO.print outcome.stdout
  IO.eprint outcome.stderr
  return UInt32.ofNat outcome.status

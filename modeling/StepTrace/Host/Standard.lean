import StepTrace.Host
import StepTrace.Host.Shell.Tool

/-!
# A usual machine

The directories and tools that are found on every machine.
-/

set_option autoImplicit false

namespace StepTrace.Host

/-- The directories that are always there. -/
def usualDirectories : List (List String) :=
  [["bin"], ["dev"], ["etc"], ["root"], ["tmp"], ["usr"], ["usr", "bin"], ["var"]]

/-- The tools that are always there. -/
def usualTools : List String := "sh" :: "env" :: Shell.Tool.names

/-- The disk of a usual machine. -/
def usualDisk : Disk :=
  ⟨usualDirectories.map (fun d => (d, .directory)) ++
    usualTools.flatMap fun t =>
      [(["bin", t], Entry.file (.tool t) true), (["usr", "bin", t], .file (.tool t) true)]⟩

end StepTrace.Host

/-!
# The welcome notice

A notice that is shown once. `Notice.once` gives the text the first time and nothing afterwards.
-/

set_option autoImplicit false

namespace StepTrace

/-- Whether the notice has been shown. -/
structure Notice where
  shown : Bool
  deriving DecidableEq, Repr

namespace Notice

/-- The notice before anything was shown. -/
def fresh : Notice := ⟨false⟩

/-- The text of the notice. -/
def text : String :=
  "Welcome to linecast.\n\nCode runs in persistent Python, PowerShell and shell interpreters on " ++
    "this machine, with the same access you have. Review code before running it."

/-- The text if it has not been shown yet. -/
def once (n : Notice) : Option String × Notice :=
  (if n.shown then none else some text, ⟨true⟩)

theorem once_once (n : Notice) : (n.once.2.once).1 = none := rfl

end Notice

end StepTrace

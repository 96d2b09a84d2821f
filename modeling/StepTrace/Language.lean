import StepTrace.Text.Blank
import StepTrace.Text.Case
import StepTrace.Json.Basic

/-!
# Languages

The languages that code can be written in, the names they go by, and the catalogue that gives each
its proper name, its file extension and its aliases. There are two ways from a name to a language,
the table `Language.ofName?` and the search `Language.lookup?` through the catalogue.
-/

set_option autoImplicit false

namespace StepTrace

/-- A language that code is submitted in. -/
inductive Language where
  | python
  | powershell
  | shell
  deriving DecidableEq, Repr, Inhabited

namespace Language

/-- Every language, in the order of the catalogue. -/
def all : List Language := [.python, .powershell, .shell]

/-- The identifier of a language. -/
def id : Language → String
  | .python => "python"
  | .powershell => "powershell"
  | .shell => "shell"

/-- The name of a language as a reader expects it. -/
def properName : Language → String
  | .python => "Python"
  | .powershell => "PowerShell"
  | .shell => "Shell"

/-- The extension of a file of the language, without its point. -/
def fileExtension : Language → String
  | .python => "py"
  | .powershell => "ps1"
  | .shell => "sh"

/-- The further names that a language goes by. -/
def aliases : Language → List String
  | .python => ["py", "python3"]
  | .powershell => ["pwsh", "ps1"]
  | .shell => ["bash", "sh", "zsh"]

/-- Whether indentation carries meaning in the language. -/
def indentationSensitive : Language → Bool
  | .python => true
  | _ => false

/-- The language that a name in lower case stands for. -/
def ofLowerName? (name : String) : Option Language :=
  if name = "python" ∨ name = "py" ∨ name = "python3" then some .python
  else if name = "powershell" ∨ name = "pwsh" ∨ name = "ps1" then some .powershell
  else if name = "shell" ∨ name = "bash" ∨ name = "sh" ∨ name = "zsh" then some .shell
  else none

/-- The language that a name stands for, whatever its case and the blanks around it. -/
def ofName? (name : String) : Option Language :=
  ofLowerName? (String.ofList (Text.lower (Text.trim name.toList)))

/-- Whether a name is the identifier or an alias of a language, up to blanks around it and the case
of ASCII letters. -/
def isNamed (l : Language) (name : String) : Bool :=
  let name := Text.trim name.toList
  (l.id :: l.aliases).any fun known => Text.sameName known.toList name

/-- The language in the catalogue that goes by a name. -/
def lookup? (name : String) : Option Language := all.find? fun l => l.isNamed name

/-- The name of a file of the language. -/
def fileName (l : Language) (stem : String) : String := stem ++ "." ++ l.fileExtension

/-- The language with an identifier. -/
def ofId? (id : String) : Option Language := all.find? fun l => l.id == id

/-- A language in JSON is the symbol of its identifier. -/
def ofJson? (j : Json) : Option Language := j.symbol?.bind ofId?

/-- The identifier as JSON. -/
def toJson (l : Language) : Json := .string l.id

/-- An identifier names its language. -/
theorem ofId?_id (l : Language) : ofId? l.id = some l := by cases l <;> decide

theorem ofJson?_toJson (l : Language) : ofJson? l.toJson = some l := ofId?_id l

end Language

end StepTrace

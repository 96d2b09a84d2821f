import StepTrace.Python.Stmt.Marking
import StepTrace.Python.Stmt.Reader
import StepTrace.Python.Stmt.Writer

/-!
# Programs that report their progress

Two changes to Python source by way of its statement tree: `instrument` puts a marker before
every statement, `wrap` guards the whole program.
-/

set_option autoImplicit false

namespace StepTrace.Python

/-- A source with a marker before every statement. -/
def instrument (source : List Char) : Except SyntaxError (List Char) :=
  (parse source).map fun program => Stmt.render (Stmt.markAll program)

/-- A source inside one `try` statement. -/
def wrap (source : List Char) : Except SyntaxError (List Char) :=
  (parse source).map fun program => Stmt.render [Stmt.guarded program]

end StepTrace.Python

import StepTrace.Python.Stmt

/-!
# Marking and guarding statement trees

`markAll` puts a marker before every statement of every statement list, `guarded` wraps a program in
one `try` statement that prints the traceback of an exception.
-/

set_option autoImplicit false

namespace StepTrace.Python.Stmt

mutual

/-- A statement with markers in all its bodies. -/
def marked : Stmt → Stmt
  | simple line text => simple line text
  | marker line => marker line
  | branch line header body orelse => branch line header (markAll body) (markAll orelse)
  | loop line header body orelse => loop line header (markAll body) (markAll orelse)
  | attempt line body handlers orelse final =>
    attempt line (markAll body) (markClauses handlers) (markAll orelse) (markAll final)
  | scope line header body => scope line header (markAll body)
  | define line decorators header body => define line decorators header (markAll body)
  | choose line header cases => choose line header (markClauses cases)

/-- A list of statements with a marker before each, and in all bodies; a marker that is there
already gets none. -/
def markAll : List Stmt → List Stmt
  | [] => []
  | s :: rest =>
    if s.isMarker then s :: markAll rest else marker s.line :: marked s :: markAll rest

/-- Clauses with markers in their bodies. -/
def markClauses : List Clause → List Clause
  | [] => []
  | .mk line header body :: rest => .mk line header (markAll body) :: markClauses rest

end

/-- A program inside a `try` statement whose one handler prints the traceback. -/
def guarded (program : List Stmt) : Stmt :=
  attempt 1 (simple 1 "import traceback".toList :: program)
    [.mk 1 "except Exception:".toList [simple 1 "traceback.print_exc()".toList]] [] []

end StepTrace.Python.Stmt

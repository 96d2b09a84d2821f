/-!
# Statement trees

The block structure of a Python program. Expressions, headers and simple statements stay text; an
`elif` clause is an `if` statement in the `else` part of another. A marker statement announces the
source line of the statement after it.
-/

set_option autoImplicit false

namespace StepTrace.Python

mutual

/-- A statement. -/
inductive Stmt where
  /-- A statement without a body. -/
  | simple (line : Nat) (text : List Char)
  /-- A statement that prints the marker of a line. -/
  | marker (line : Nat)
  | branch (line : Nat) (header : List Char) (body orelse : List Stmt)
  | loop (line : Nat) (header : List Char) (body orelse : List Stmt)
  | attempt (line : Nat) (body : List Stmt) (handlers : List Clause) (orelse final : List Stmt)
  | scope (line : Nat) (header : List Char) (body : List Stmt)
  | define (line : Nat) (decorators : List (List Char)) (header : List Char) (body : List Stmt)
  | choose (line : Nat) (header : List Char) (cases : List Clause)

/-- A header with a body: a handler of a `try` statement or a case of a `match` statement. -/
inductive Clause where
  | mk (line : Nat) (header : List Char) (body : List Stmt)

end

namespace Clause

/-- The line that the clause starts on. -/
def line : Clause → Nat
  | mk line _ _ => line

/-- The text up to and including the colon. -/
def header : Clause → List Char
  | mk _ header _ => header

/-- The statements of the clause. -/
def body : Clause → List Stmt
  | mk _ _ body => body

end Clause

namespace Stmt

/-- The source line of a statement; that of its `def` or `class` keyword if it is decorated. -/
def line : Stmt → Nat
  | simple line _ => line
  | marker line => line
  | branch line _ _ _ => line
  | loop line _ _ _ => line
  | attempt line _ _ _ _ => line
  | scope line _ _ => line
  | define line _ _ _ => line
  | choose line _ _ => line

/-- Whether a statement is a marker. -/
def isMarker : Stmt → Bool
  | marker _ => true
  | _ => false

mutual

/-- The number of statements in a statement, itself included and markers excluded. -/
def count : Stmt → Nat
  | simple _ _ => 1
  | marker _ => 0
  | branch _ _ body orelse => 1 + (countAll body + countAll orelse)
  | loop _ _ body orelse => 1 + (countAll body + countAll orelse)
  | attempt _ body handlers orelse final =>
    1 + (countAll body + countClauses handlers + countAll orelse + countAll final)
  | scope _ _ body => 1 + countAll body
  | define _ _ _ body => 1 + countAll body
  | choose _ _ cases => 1 + countClauses cases

/-- The number of statements in a list of statements. -/
def countAll : List Stmt → Nat
  | [] => 0
  | s :: rest => count s + countAll rest

/-- The number of statements in the bodies of clauses. -/
def countClauses : List Clause → Nat
  | [] => 0
  | .mk _ _ body :: rest => countAll body + countClauses rest

end

end Stmt

end StepTrace.Python

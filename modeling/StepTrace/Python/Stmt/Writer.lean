import StepTrace.Marker
import StepTrace.Python.Stmt

/-!
# Writing statement trees

A tree is written back as source with four spaces to a level. No blank line is written: an
interactive interpreter takes one as the end of the statement it stands in.
-/

set_option autoImplicit false

namespace StepTrace.Python.Stmt

/-- A text at some depth. -/
def indented (depth : Nat) (text : List Char) : List Char :=
  List.replicate (4 * depth) ' ' ++ text

/-- The text of a marker statement. -/
def markerText (line : Nat) : List Char :=
  "print(\x22".toList ++ Marker.ofLine line ++ "\x22)".toList

mutual

/-- The texts that a statement is written as, each on a line of its own. -/
def written (depth : Nat) : Stmt → List (List Char)
  | simple _ text => [indented depth text]
  | marker line => [indented depth (markerText line)]
  | branch _ header body orelse =>
    indented depth header :: writtenAll (depth + 1) body ++
      (if orelse.isEmpty then []
        else indented depth "else:".toList :: writtenAll (depth + 1) orelse)
  | loop _ header body orelse =>
    indented depth header :: writtenAll (depth + 1) body ++
      (if orelse.isEmpty then []
        else indented depth "else:".toList :: writtenAll (depth + 1) orelse)
  | attempt _ body handlers orelse final =>
    indented depth "try:".toList :: writtenAll (depth + 1) body ++
      writtenClauses depth handlers ++
      (if orelse.isEmpty then []
        else indented depth "else:".toList :: writtenAll (depth + 1) orelse) ++
      (if final.isEmpty then []
        else indented depth "finally:".toList :: writtenAll (depth + 1) final)
  | scope _ header body => indented depth header :: writtenAll (depth + 1) body
  | define _ decorators header body =>
    decorators.map (indented depth) ++ indented depth header :: writtenAll (depth + 1) body
  | choose _ header cases => indented depth header :: writtenClauses (depth + 1) cases

/-- The texts that a list of statements is written as. -/
def writtenAll (depth : Nat) : List Stmt → List (List Char)
  | [] => []
  | s :: rest => written depth s ++ writtenAll depth rest

/-- The texts that clauses are written as. -/
def writtenClauses (depth : Nat) : List Clause → List (List Char)
  | [] => []
  | .mk _ header body :: rest =>
    indented depth header :: writtenAll (depth + 1) body ++ writtenClauses depth rest

end

/-- A program as source. -/
def render (program : List Stmt) : List Char := Text.joinLines (writtenAll 0 program)

end StepTrace.Python.Stmt

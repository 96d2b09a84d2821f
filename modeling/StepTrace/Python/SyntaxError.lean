/-!
# Syntax errors of Python source

Why a source is no program. Each cause carries the source line that it was found on.
-/

set_option autoImplicit false

namespace StepTrace.Python

/-- The causes for which Python source is refused. -/
inductive SyntaxError where
  | unterminatedString (line : Nat)
  | unmatchedBracket (line : Nat) (found : Char)
  | mismatchedBracket (line : Nat) (found expected : Char)
  | unclosedBracket (line : Nat) (opener : Char)
  | unexpectedIndent (line : Nat)
  | inconsistentDedent (line : Nat)
  | expectedIndentedBlock (line : Nat) (keyword : String)
  | missingColon (line : Nat) (keyword : String)
  | orphanClause (line : Nat) (keyword : String)
  | incompleteTry (line : Nat)
  | danglingDecorator (line : Nat)
  | expectedCase (line : Nat)
  deriving DecidableEq, Repr, Inhabited

namespace SyntaxError

/-- The line that the error was found on. -/
def line : SyntaxError → Nat
  | unterminatedString line => line
  | unmatchedBracket line _ => line
  | mismatchedBracket line _ _ => line
  | unclosedBracket line _ => line
  | unexpectedIndent line => line
  | inconsistentDedent line => line
  | expectedIndentedBlock line _ => line
  | missingColon line _ => line
  | orphanClause line _ => line
  | incompleteTry line => line
  | danglingDecorator line => line
  | expectedCase line => line

/-- The error in words. -/
def message : SyntaxError → String
  | unterminatedString _ => "unterminated string literal"
  | unmatchedBracket _ found => "unmatched '" ++ String.singleton found ++ "'"
  | mismatchedBracket _ found expected =>
    "closing '" ++ String.singleton found ++ "' does not match opening '" ++
      String.singleton expected ++ "'"
  | unclosedBracket _ opener => "'" ++ String.singleton opener ++ "' was never closed"
  | unexpectedIndent _ => "unexpected indent"
  | inconsistentDedent _ => "unindent does not match any outer indentation level"
  | expectedIndentedBlock _ keyword => "expected an indented block after '" ++ keyword ++ "'"
  | missingColon _ keyword => "expected ':' after '" ++ keyword ++ "'"
  | orphanClause _ keyword => "'" ++ keyword ++ "' without a matching statement"
  | incompleteTry _ => "expected 'except' or 'finally' block"
  | danglingDecorator _ => "decorator is not followed by a def or class"
  | expectedCase _ => "expected 'case' inside 'match' block"

end SyntaxError

end StepTrace.Python

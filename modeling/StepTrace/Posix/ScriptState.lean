import StepTrace.Posix.CommentFree
import StepTrace.Posix.LineScan

/-!
# The state of a shell script between lines

What has to be known at the start of a line to tell whether a command begins there: open quotes,
parentheses and `case` blocks, pending here-documents, and whether the line before goes on.
-/

set_option autoImplicit false

namespace StepTrace.Posix

/-- The state of a script at the start of a line. -/
structure ScriptState where
  quoting : Quoting
  /-- Here-documents whose end has not been seen, the next one first. -/
  heredocs : List Delimiter
  /-- Whether the line belongs to the first of them. -/
  inHeredoc : Bool
  parens : Nat
  cases : Nat
  continued : Bool
  deriving DecidableEq, Repr

/-- Words that go on with a compound command instead of starting one. -/
def clauseWords : List (List Char) :=
  ["then", "do", "done", "fi", "else", "elif", "esac", ";;", "\x7d", ")", "in"].map String.toList

/-- Whether a text holds, after an opening parenthesis perhaps, a pattern that a closing one ends.
-/
def beginsPattern (s : List Char) : Bool :=
  let s := match s with
    | '(' :: r => r
    | _ => s
  match Text.trimStart s with
  | [] => false
  | c :: r =>
    c != '(' && c != ')' && (r.dropWhile fun d => d != '(' && d != ')').head? == some ')'

/-- Whether a trimmed line begins an arm of a `case` block. -/
def isCaseArm (trimmed : List Char) : Bool :=
  beginsPattern trimmed && !"$(".toList.isPrefixOf trimmed

/-- The text after the first closing parenthesis. -/
def afterParen (s : List Char) : List Char := (s.dropWhile fun c => c != ')').tail

/-- Whether a trimmed line is empty or a comment. -/
def isIdle (trimmed : List Char) : Bool := trimmed.isEmpty || trimmed.head? == some '#'

/-- Whether the code of a line asks for the next line: a pipe, an `&&`, or the parentheses of a
function header. -/
def asksForMore (code : List Char) : Bool :=
  let tail := Text.trimEnd code
  "|".toList.isSuffixOf tail || "&&".toList.isSuffixOf tail ||
    ("()".toList.isSuffixOf tail && !"$()".toList.isSuffixOf tail)

namespace ScriptState

/-- The state at the start of a script. -/
def start : ScriptState := ⟨.bare, [], false, 0, 0, false⟩

/-- Whether a command begins on a line, so that a marker may stand before it. -/
def startsCommand (s : ScriptState) (line : List Char) : Bool :=
  if s.inHeredoc || s.quoting != .bare || s.continued || s.parens > 0 then false
  else
    let trimmed := Text.trim line
    if isIdle trimmed then false
    else if clauseWords.contains (firstWord trimmed) || ";;".toList.isPrefixOf trimmed then false
    else !(s.cases > 0 && isCaseArm trimmed)

/-- The state after a line of the here-document that the script stands in. -/
def passHeredoc (s : ScriptState) (line : List Char) : ScriptState :=
  match s.heredocs with
  | [] => s
  | d :: rest =>
    let candidate := if d.stripTabs then line.dropWhile (· == '\t') else line
    if candidate = d.word then { s with heredocs := rest, inHeredoc := !rest.isEmpty } else s

/-- The state after a line of code. -/
def passCode (s : ScriptState) (line : List Char) : ScriptState :=
  let trimmed := Text.trim line
  let bare := s.quoting == .bare
  let cases := if bare && firstWord trimmed == "case".toList then s.cases + 1 else s.cases
  -- the parenthesis behind a pattern closes nothing
  let body := if bare && cases > 0 && isCaseArm trimmed then afterParen line else line
  let scan := (LineScan.start s.quoting s.parens s.heredocs).run body
  let code := stripComment body
  -- within quotes the word closes no block
  let closed := if scan.quoting == .bare then (words code).count "esac".toList else 0
  { quoting := scan.quoting
    heredocs := scan.heredocs
    inHeredoc := scan.quoting == .bare && !scan.heredocs.isEmpty
    parens := scan.parens
    cases := cases - closed
    continued := scan.escaped || asksForMore code }

/-- The state after a line. -/
def consume (s : ScriptState) (line : List Char) : ScriptState :=
  if s.inHeredoc then s.passHeredoc line
  else if s.quoting == .bare && isIdle (Text.trim line) then s
  else s.passCode line

end ScriptState

end StepTrace.Posix

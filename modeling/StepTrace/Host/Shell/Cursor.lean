import StepTrace.Host.Shell.Command
import StepTrace.Text.Span

/-!
# Reading positions in a script

A cursor stands somewhere in the text of a script and knows the number of its line. The text may go
on after what is known of it: a reader that runs into the end then asks for more.
-/

set_option autoImplicit false

namespace StepTrace.Host.Shell

/-- Why a script cannot be read. -/
inductive Trouble where
  /-- The text may go on. -/
  | more
  /-- The text is wrong on some line. -/
  | wrong (line : Nat) (text : String)
  deriving DecidableEq, Repr, Inhabited

/-- The line that ends a here-document. -/
structure Mark where
  text : List Char
  /-- Whether tabs at the start of its lines do not count. -/
  stripTabs : Bool
  deriving DecidableEq, Repr, Inhabited

/-- A place in a script. -/
structure Cursor where
  rest : List Char
  line : Nat
  /-- Lines of here-documents that have been taken out of the text after the end of this line. -/
  taken : Nat
  /-- Such lines before this one. -/
  passed : Nat
  /-- Whether the text ends where it seems to. -/
  closed : Bool
  /-- What ends the here-document that is read. -/
  mark : Option Mark
  /-- What comes after that here-document once its end has been reached. -/
  beyond : Option (List Char)
  /-- What is wrong with the here-documents that begin after the end of this line. -/
  fault : Option Trouble
  /-- What was wrong with those before this line. -/
  overdue : Option Trouble
  /-- Whether the next word is no keyword, wherever it stands. -/
  wordNext : Bool
  deriving Repr, Inhabited

namespace Cursor

/-- The cursor at the start of a text. -/
def start (text : List Char) (line : Nat) (closed : Bool) : Cursor :=
  ⟨text, line, 0, 0, closed, none, none, none, none, false⟩

/-- The cursor behind a line break. -/
def newLine (c : Cursor) (rest : List Char) : Cursor :=
  { c with
    rest := rest
    line := c.line + 1 + c.taken
    taken := 0
    passed := c.taken
    fault := none
    overdue := c.overdue <|> c.fault }

/-- The cursor behind some text of a word. -/
def past (c : Cursor) (text rest : List Char) : Cursor :=
  { c with rest := rest, line := c.line + text.count '\n' }

/-- The cursor if there was nothing wrong with the here-documents before its line. -/
def settled (c : Cursor) : Except Trouble Cursor :=
  match c.overdue with
  | some fault => .error fault
  | none => .ok c

/-- A failure to read on this line. -/
def fail {α : Type} (c : Cursor) (text : String) : Except Trouble α := .error (.wrong c.line text)

/-- A failure for the end of the text, if it ends where it seems to. -/
def failAtEnd {α : Type} (c : Cursor) (text : String) : Except Trouble α :=
  if c.closed then (c.past c.rest []).fail text else .error .more

/-- The cursor behind blanks, escaped line breaks and a comment. -/
def skipBlanks (c : Cursor) : Nat → Cursor
  | 0 => c
  | fuel + 1 =>
    match c.rest with
    | ' ' :: r => { c with rest := r }.skipBlanks fuel
    | '\t' :: r => { c with rest := r }.skipBlanks fuel
    | '\\' :: '\n' :: r => { c with rest := r, line := c.line + 1 }.skipBlanks fuel
    | '#' :: r => { c with rest := r.dropWhile (· != '\n') }
    | _ => c

/-- The cursor without the escaped line breaks among the characters of some kind that come next, of
which there are at most so many. -/
def unfoldBreaks (kind : Char → Bool) : Nat → Nat → Cursor → Cursor
  | 0, _, c => c
  | fuel + 1, most, c =>
    let run := (c.rest.takeWhile kind).take most
    match c.rest.drop run.length with
    | '\\' :: '\n' :: r =>
      let left := most - run.length
      let next := unfoldBreaks kind fuel left { c with rest := r, line := c.line + 1 }
      { next with rest := run ++ next.rest }
    | _ => c

/-- The cursor without the escaped line breaks up to the first character that is not of a kind. -/
def unfold (kind : Char → Bool) (c : Cursor) : Cursor :=
  unfoldBreaks kind c.rest.length c.rest.length c

/-- The cursor without the escaped line breaks within an operator. -/
def unfoldOperator (c : Cursor) : Cursor :=
  let c := c.unfold fun _ => false
  match c.rest with
  | ch :: _ =>
    if ch = '&' || ch = '|' || ch = ';' || ch = '>' then
      unfoldBreaks (fun _ => true) c.rest.length 1 c
    else if ch = '<' then unfoldBreaks (· == '<') c.rest.length 2 c
    else c
  | [] => c

/-- The cursor at the start of a line of a here-document, which may be the one that ends it. -/
def openLine (c : Cursor) : Cursor :=
  match c.mark with
  | none => c
  | some m =>
    let text := if m.stripTabs then c.rest.dropWhile (· == '\t') else c.rest
    let ended := fun (r : List Char) =>
      { c with rest := [], line := c.line + 1, closed := true, beyond := some r }
    match Text.dropLeading? m.text text with
    | some ('\n' :: r) => ended r
    | some [] => if c.closed then ended [] else { c with rest := text }
    | _ => { c with rest := text }

end Cursor

/-- A character that ends a word outside quotes. -/
def endsWord (c : Char) : Bool := " \t\n;&|<>()".toList.contains c

/-- A character that a name can start with. -/
def startsName (c : Char) : Bool := c.isAlpha || c == '_'

/-- A character of a name. -/
def isNameChar (c : Char) : Bool := c.isAlphanum || c == '_'

/-- Whether a text is a name. -/
def isName (s : List Char) : Bool :=
  match s with
  | [] => false
  | c :: r => startsName c && r.all isNameChar

/-- The character that closes what a character of a word opens within what is open already, the
innermost first; `last` is the character before it. -/
def opened (inside : List Char) (last c : Char) : Option Char :=
  let inDouble := inside.head? == some '\x22'
  if c = '\x60' || c = '\x22' || (c = '\x27' && !inDouble) then some c
  else if c = '(' && (last = '$' || inside.head? == some ')') then some ')'
  else if c = '\x7b' && last = '$' then some '\x7d'
  else none

/-- What is open behind a character of a line; a number sign stands for a comment and a backslash
for an escaped character. -/
def inside (last c : Char) : List Char → List Char
  | ['#'] => ['#']
  | '\\' :: outer => outer
  | '\x27' :: outer => if c = '\x27' then outer else '\x27' :: outer
  | [] =>
    if c = '#' && endsWord last then ['#']
    else if c = '\\' then ['\\']
    else (opened [] last c).toList
  | close :: outer =>
    if c = close then outer
    else if c = '\\' then '\\' :: close :: outer
    else if close = '\x60' then close :: outer
    else (opened (close :: outer) last c).toList ++ close :: outer

/-- The rest of a line, with what goes on over several lines, and what follows it; `last` is the
character before it. -/
def restOfLine (within : List Char) (last : Char) : List Char → List Char × Option (List Char)
  | [] => ([], none)
  | c :: r =>
    if c = '\n' && (within.isEmpty || within == ['#']) then ([], some r)
    else
      let (line, after) := restOfLine (inside last c within) c r
      (c :: line, after)

/-- The text of the word that names the end of a here-document, whether it is free of quotes, and
what follows it; `quote` is the quote that it stands in. There is none if a quote is left open. -/
def markText (quote : Option Char) : List Char → Option (List Char × Bool × List Char)
  | [] => if quote.isNone then some ([], true, []) else none
  | '\\' :: [] => if quote.isNone then some (['\\'], false, []) else none
  | '\\' :: e :: r =>
    if quote = some '\x27' then
      (markText quote (e :: r)).map fun p => ('\\' :: p.1, p.2)
    else if e = '\n' then markText quote r
    else
      let kept := quote.isSome && !"$\x60\x22\\".toList.contains e
      (markText quote r).map fun p => ((if kept then ['\\', e] else [e]) ++ p.1, false, p.2.2)
  | c :: r =>
    if quote = some c then (markText none r).map fun p => (p.1, false, p.2.2)
    else if quote.isNone && (c = '\x22' || c = '\x27') then
      (markText (some c) r).map fun p => (p.1, false, p.2.2)
    else if quote.isNone && endsWord c then some ([], true, c :: r)
    else (markText quote r).map fun p => (c :: p.1, p.2)

end StepTrace.Host.Shell

import StepTrace.Host.Shell.Cursor

/-!
# Reading shell scripts

A script is read one complete command at a time, as a shell does that runs it: `nextCommand` gives
the commands of the next line, with the lines that they go on over. The readers call each other and
carry fuel; each call that does not consume text makes the construct smaller that is read.
-/

set_option autoImplicit false

namespace StepTrace.Host.Shell

/-- Where the parts of a word are read. -/
inductive Place where
  | bare
  | double
  /-- The word of an expansion outside double quotes. -/
  | brace
  /-- The word of an expansion in double quotes. -/
  | braceDouble
  /-- A here-document. -/
  | here
  /-- A here-document without expansions. -/
  | raw
  /-- An arithmetic expression. -/
  | arithmetic
  deriving DecidableEq, Repr

/-- Whether text at a place is outside quotes. -/
def Place.isBare : Place → Bool
  | .bare => true
  | .brace => true
  | _ => false

/-- Whether a character has no special meaning at a place. -/
def Place.isPlain (p : Place) (c : Char) : Bool :=
  if c = '$' ∨ c = '\x60' ∨ c = '\\' then p = .raw
  else
    match p with
    | .bare => !endsWord c && c != '\x27' && c != '\x22'
    | .double => c != '\x22'
    | .brace => c != '}' && c != '\x27' && c != '\x22'
    | .braceDouble => c != '}' && c != '\x22'
    | .here => true
    | .raw => true
    | .arithmetic => c != '(' && c != ')'

/-- A character that a backslash makes plain where double quotes stand. -/
def Place.isEscapable (p : Place) (c : Char) : Bool :=
  c = '$' || c = '\x60' || c = '\\' || (c = '\x22' && p != .here) || (c = '}' && p == .braceDouble)

/-- A piece of a script that commands are made of. -/
inductive Token where
  | finish
  | newLine
  | operator (text : String)
  | redirect (descriptor : Option Nat) (operator : String)
  /-- A word, and whether it is free of quotes and expansions. -/
  | word (parts : List Part) (plain : Bool)
  | keyword (text : String)

/-- A token as a message names it. -/
def Token.describe : Token → String
  | .finish => "end of file"
  | .newLine => "newline"
  | .operator text => "\x22" ++ text ++ "\x22"
  | .redirect _ _ => "redirection"
  | .word _ _ => "word"
  | .keyword text => "\x22" ++ text ++ "\x22"

/-- Whether a token is the end of the text. -/
def Token.isFinish : Token → Bool
  | .finish => true
  | _ => false

/-- Whether a token is a line break. -/
def Token.isBreak : Token → Bool
  | .newLine => true
  | _ => false

/-- The parts that a token counts for where a pattern stands. -/
def Token.parts : Token → List Part
  | .word parts _ => parts
  | .keyword text => [.bare text.toList]
  | _ => []

/-- The words with a meaning of their own where a command may start. -/
def keywords : List String :=
  ["!", "case", "do", "done", "elif", "else", "esac", "fi", "for", "if", "in", "then", "until",
    "while", "\x7b", "\x7d"]

/-- The operators between commands, longer ones first. -/
def operators : List String := ["&&", "||", ";;", "&", "|", ";", "(", ")"]

/-- The operators of redirections, longer ones first. -/
def redirectOperators : List String := ["<<-", "<<", "<&", "<>", "<", ">>", ">&", ">|", ">"]

/-- The operator that a text begins with. -/
def leadingOperator? (known : List String) (s : List Char) : Option (String × List Char) :=
  known.findSome? fun op => (Text.dropLeading? op.toList s).map fun r => (op, r)

/-- The literal text of parts, and whether they are nothing else. -/
def literalText (parts : List Part) : List Char × Bool :=
  parts.foldl (fun (acc : List Char × Bool) p =>
    match p with
    | .bare t => (acc.1 ++ t, acc.2)
    | .quoted t => (acc.1 ++ t, false)
    | .double ps =>
      (acc.1 ++ ps.flatMap (fun q => match q with
        | .bare t => t
        | .quoted t => t
        | _ => []), false)
    | _ => (acc.1, false)) ([], true)

/-- The failure of a token that cannot stand where it stands. -/
def unexpected {α : Type} (c : Cursor) (t : Token) (expected : Option Token) :
    Except Trouble α :=
  -- a here-document is not read behind a line break that cannot stand there
  let c := if t.isBreak then { c with line := c.line - c.passed } else c
  c.fail ("Syntax error: " ++ t.describe ++ " unexpected" ++
    match expected with
    | some e => " (expecting " ++ e.describe ++ ")"
    | none => "")

/-- What follows the name of a parameter in braces: a modifier, and whether a word goes with it. -/
def readModifier (s : List Char) : Option (Modifier × List Char) :=
  match s with
  | '\x7d' :: r => some (.value, r)
  | ':' :: '-' :: r => some (.default true, r)
  | '-' :: r => some (.default false, r)
  | ':' :: '=' :: r => some (.assign true, r)
  | '=' :: r => some (.assign false, r)
  | ':' :: '?' :: r => some (.complain true, r)
  | '?' :: r => some (.complain false, r)
  | ':' :: '+' :: r => some (.alternative true, r)
  | '+' :: r => some (.alternative false, r)
  | '#' :: '#' :: r => some (.dropStart true, r)
  | '#' :: r => some (.dropStart false, r)
  | '%' :: '%' :: r => some (.dropEnd true, r)
  | '%' :: r => some (.dropEnd false, r)
  | _ => none

/-- The name of a parameter at the start of a text: a name, digits, or one special character. -/
def readParameter (inBraces : Bool) (s : List Char) : Option (List Char × List Char) :=
  match s with
  | [] => none
  | c :: r =>
    if startsName c then
      let name := s.takeWhile isNameChar
      some (name, s.drop name.length)
    else if c.isDigit then
      if inBraces then
        let ds := s.takeWhile Char.isDigit
        some (ds, s.drop ds.length)
      else some ([c], r)
    else if "@*#?-$!".toList.contains c then some ([c], r)
    else none

/-- A name, the modifier that follows it, and what follows that. -/
def otherwise (named : List Char × List Char) : List Char × Modifier × List Char :=
  let (name, s) := named
  if name.isEmpty then ([], .wrong, if s.head? == some '\x7d' then s else s.drop 1)
  else
    match readModifier s with
    | some (modifier, r) => (name, modifier, r)
    | none => (name, .wrong, s.drop (if s.head? == some ':' then 2 else 1))

/-- The name and the modifier of an expansion behind its opening brace, and what follows them. A
character that can be neither is passed over. -/
def readOpening (s : List Char) : List Char × Modifier × List Char :=
  let named := (readParameter true s).getD ([], s)
  match s with
  | '#' :: '#' :: '\x7d' :: r => (['#'], .length, r)
  | '#' :: c :: r =>
    match readParameter true (c :: r) with
    -- a number sign before a whole name asks for the length
    | some (name, '\x7d' :: r') => (name, .length, r')
    | some (name, r') =>
      if isNameChar c then (name, .wrong, r') else otherwise named
    | none => if r.head? == some '\x7d' && c != '\x7d' then ([], .wrong, r) else otherwise named
  | _ => otherwise named

/-- The text between backquotes without the backslashes that protect it, and what follows. -/
def readBackquoted (inDouble : Bool) : List Char → Option (List Char × List Char)
  | [] => none
  | '\x60' :: r => some ([], r)
  | '\\' :: '\n' :: r => readBackquoted inDouble r
  | '\\' :: c :: r =>
    if c = '\\' ∨ c = '$' ∨ c = '\x60' ∨ (inDouble = true ∧ c = '\x22') then
      (readBackquoted inDouble r).map fun p => (c :: p.1, p.2)
    else (readBackquoted inDouble r).map fun p => ('\\' :: c :: p.1, p.2)
  | c :: r => (readBackquoted inDouble r).map fun p => (c :: p.1, p.2)

/-- An assignment at the start of a word: the name and the parts of the value. -/
def readAssignment (parts : List Part) : Option (List Char × List Part) :=
  match parts with
  | .bare t :: rest =>
    let name := t.takeWhile (· != '=')
    if isName name ∧ name.length < t.length then
      let value := t.drop (name.length + 1)
      some (name, if value.isEmpty then rest else .bare value :: rest)
    else none
  | _ => none

/-- The kind of redirection that an operator stands for, and the descriptor that it usually means.
-/
def redirectKind (operator : String) : RedirectKind × Nat :=
  if operator = "<" then (.input, 0)
  else if operator = "<>" then (.both, 0)
  else if operator = "<&" then (.copy, 0)
  else if operator = ">>" then (.append, 1)
  else if operator = ">&" then (.copy, 1)
  else if operator = "<<" ∨ operator = "<<-" then (.here, 0)
  else if operator = ">|" then (.overwrite, 1)
  else (.output, 1)

/-- Whether a text does not begin with a word, but with its end or a redirection with a descriptor.
-/
def beginsNoWord : List Char → Bool
  | [] => true
  | [c] => endsWord c
  | c :: d :: _ => endsWord c || (c.isDigit && (d == '<' || d == '>'))

/-- Whether a list of commands may end before a token. -/
def endsList : Token → Bool
  | .finish => true
  | .operator text => text == ")" || text == ";;"
  | .keyword text =>
    ["do", "done", "elif", "else", "esac", "fi", "then", "\x7d"].contains text
  | _ => false

/-- The cursor behind blanks, comments and line breaks. -/
def breaksBehind (c : Cursor) : Nat → Cursor
  | 0 => c
  | fuel + 1 =>
    let c := c.skipBlanks (c.rest.length + 1)
    match c.rest with
    | '\n' :: r => breaksBehind (c.newLine r) fuel
    | _ => c

/-- What stands at the start of a line of a here-document apart from its text, and the cursor behind
it. -/
def Place.openLine (p : Place) (c : Cursor) : List Part × Cursor :=
  let next := c.openLine
  match next.rest with
  | '\\' :: '\n' :: r =>
    -- a line break is not escaped where tabs have been dropped before it
    if p != .raw && next.rest.length < c.rest.length then
      ([.quoted ['\\', '\n']], { next with rest := r })
    else ([], next)
  | _ => ([], next)

mutual

/-- The parts of a word from a place on; `depth` parentheses are open in an arithmetic expression.
-/
def readParts : Nat → Place → Nat → Cursor → Except Trouble (List Part × Cursor)
  | 0, _, _, c => c.fail "Syntax error: script too long"
  | fuel + 1, place, depth, c =>
    -- of what is open in a here-document only the brace counts
    let openQuote := if c.mark.isSome then "Syntax error: Missing '\x7d'"
      else "Syntax error: Unterminated quoted string"
    let plain := fun ch => place.isPlain ch && !(ch == '\n' && c.mark.isSome)
    match c.rest with
    | [] =>
      match place with
      | .here => if c.closed then .ok ([], c) else .error .more
      | .raw => if c.closed then .ok ([], c) else .error .more
      | .bare => if c.closed then .ok ([], c) else .error .more
      | .double => c.failAtEnd openQuote
      | .braceDouble => c.failAtEnd openQuote
      | .arithmetic => c.failAtEnd "Syntax error: Missing '))'"
      | _ => c.failAtEnd "Syntax error: Missing '\x7d'"
    | ch :: r =>
      if plain ch then
        let run := (ch :: r).takeWhile plain
        let c := c.past run ((ch :: r).drop run.length)
        (readParts fuel place depth c).map fun p =>
          ((if place.isBare then .bare run else .quoted run) :: p.1, p.2)
      else if ch = '\n' && place != .bare then
        let c := c.newLine r
        let (head, c) := place.openLine (if place = .raw then c else c.unfold fun _ => false)
        (readParts fuel place depth c).map fun p => (.quoted ['\n'] :: head ++ p.1, p.2)
      else if ch = '\\' then
        match r with
        | [] => if c.closed then .ok ([.quoted ['\\']], { c with rest := [] }) else .error .more
        | '\n' :: r => readParts fuel place depth { c with rest := r, line := c.line + 1 }
        | e :: r' =>
          if place.isBare || place.isEscapable e then
            (readParts fuel place depth { c with rest := r' }).map fun p =>
              (.quoted [e] :: p.1, p.2)
          else
            (readParts fuel place depth { c with rest := r }).map fun p =>
              (.quoted ['\\'] :: p.1, p.2)
      else if ch = '$' then do
        let (part, c) ← readDollar fuel place { c with rest := r }
        let (parts, c) ← readParts fuel place depth c
        return (part :: parts, c)
      else if ch = '\x60' then
        match readBackquoted (!place.isBare) r with
        | none => c.failAtEnd "Syntax error: EOF in backquote substitution"
        | some (inner, r') => do
          -- what cannot go on a list of commands ends it, and nothing more is read
          let (body, _) ← readList fuel true (.start inner 1 true)
          let (parts, c) ← readParts fuel place depth (c.past (r.take (r.length - r'.length)) r')
          return (.output body :: parts, c)
      else if ch = '\x27' then
        match r.span (· != '\x27') with
        | (_, []) => c.failAtEnd openQuote
        | (text, _ :: r') =>
          (readParts fuel place depth (c.past text r')).map fun p => (.quoted text :: p.1, p.2)
      else if ch = '\x22' then
        if place = .double then .ok ([], { c with rest := r })
        else do
          let (inner, c) ← readParts fuel .double 0 { c with rest := r }
          let (parts, c) ← readParts fuel place depth c
          return (.double inner :: parts, c)
      else if place = .arithmetic then
        if ch = '(' then
          (readParts fuel place (depth + 1) { c with rest := r }).map fun p =>
            (.quoted ['('] :: p.1, p.2)
        else
          match depth with
          | d + 1 =>
            (readParts fuel place d { c with rest := r }).map fun p => (.quoted [')'] :: p.1, p.2)
          | 0 =>
            let c := { c with rest := r }.unfold fun _ => false
            match c.rest with
            | ')' :: r => .ok ([], { c with rest := r })
            -- a single one that closes nothing stays
            | _ => (readParts fuel place 0 c).map fun p => (.quoted [')'] :: p.1, p.2)
      else if place = .bare then .ok ([], c)
      else .ok ([], { c with rest := r })

/-- An expansion after its dollar sign. -/
def readDollar : Nat → Place → Cursor → Except Trouble (Part × Cursor)
  | 0, _, c => c.fail "Syntax error: script too long"
  | fuel + 1, place, c =>
    let c := c.unfold (· == '(')
    match c.rest with
    | '(' :: '(' :: r =>
      (readParts fuel .arithmetic 0 { c with rest := r }).map fun p => (.arithmetic p.1, p.2)
    | '(' :: r => do
      if r.isEmpty && !c.closed then throw .more
      let (body, next) ← readList fuel true { c with rest := r, taken := 0, mark := none }
      match ← readToken fuel true true next with
      | (.operator ")", next) =>
        return (.output body, { next with taken := c.taken + next.taken, mark := c.mark })
      | (t, next) => unexpected next t (some (.operator ")"))
    | '\x7b' :: r => readBraces fuel place { c with rest := r }
    | [] => if c.closed then .ok (.quoted ['$'], c) else .error .more
    | _ =>
      let c := c.unfold isNameChar
      match readParameter false c.rest with
      | some (name, r) => .ok (.parameter name .value [], { c with rest := r })
      | none => .ok (if place.isBare then .bare ['$'] else .quoted ['$'], c)

/-- An expansion after its opening brace. -/
def readBraces : Nat → Place → Cursor → Except Trouble (Part × Cursor)
  | 0, _, c => c.fail "Syntax error: script too long"
  | fuel + 1, place, c =>
    let c := c.unfold fun ch => isNameChar ch || ":-=?+#%@*!$".toList.contains ch
    match readOpening c.rest with
    | (name, .value, r) => .ok (.parameter name .value [], { c with rest := r })
    | (name, .length, r) => .ok (.parameter name .length [], { c with rest := r })
    | (name, modifier, r) => do
      let inner := match modifier with
        | .dropStart _ => Place.brace
        | .dropEnd _ => .brace
        | _ => if place.isBare then .brace else .braceDouble
      let (word, c) ← readParts fuel inner 0 { c with rest := r }
      return (.parameter name modifier word, c)

/-- The next token; line breaks are passed over and keywords told from words if that is wanted. -/
def readToken : Nat → Bool → Bool → Cursor → Except Trouble (Token × Cursor)
  | 0, _, _, c => c.fail "Syntax error: script too long"
  | fuel + 1, overBreaks, known, c => do
    let c ← c.settled
    let known := known && !c.wordNext
    let c := { c with wordNext := false }
    let c := (c.skipBlanks (c.rest.length + 1)).unfoldOperator
    let c := c.unfold Place.bare.isPlain
    match c.rest with
    | [] => if c.closed then .ok (.finish, c) else .error .more
    | '\n' :: r =>
      if overBreaks then readToken fuel overBreaks known (c.newLine r)
      else .ok (.newLine, c.newLine r)
    | s =>
      match leadingOperator? operators s with
      | some (op, r) =>
        -- the operator could be longer than what is known of it
        if r.isEmpty && !c.closed then .error .more else .ok (.operator op, { c with rest := r })
      | none =>
        let ds := s.takeWhile Char.isDigit
        let behind := { c with rest := s.drop ds.length }.unfoldOperator
        let redirect? := leadingOperator? redirectOperators behind.rest
        -- only a single digit names a descriptor; more of them are a word
        match redirect?.filter fun _ => ds.length ≤ 1 with
        | some (op, r) =>
          let descriptor := if ds.isEmpty then none else some (Nat.ofDigitChars 10 ds 0)
          .ok (.redirect descriptor op, { behind with rest := r })
        | none => do
          let (parts, c) ← readParts fuel .bare 0 c
          let (text, plain) := literalText parts
          let name := String.ofList text
          if known && plain && keywords.contains name then return (.keyword name, c)
          return (.word parts plain, c)

/-- A redirection after its operator. -/
def readRedirect : Nat → Option Nat → String → Cursor → Except Trouble (Redirect × Cursor)
  | 0, _, _, c => c.fail "Syntax error: script too long"
  | fuel + 1, descriptor, operator, c => do
    let (kind, usual) := redirectKind operator
    let descriptor := descriptor.getD usual
    if kind = .here then
      let (word, c) ← readDocument fuel (operator == "<<-") c
      return (.mk descriptor .here word, c)
    match ← readToken fuel false false c with
    | (.word parts _, c) => return (.mk descriptor kind parts, c)
    | (t, c) => unexpected c t none

/-- A here-document after its operator, taken out of the text after the end of this line. -/
def readDocument : Nat → Bool → Cursor → Except Trouble (List Part × Cursor)
  | 0, _, c => c.fail "Syntax error: script too long"
  | fuel + 1, stripTabs, c => do
    let c := (c.skipBlanks (c.rest.length + 1)).unfold fun _ => false
    if beginsNoWord c.rest then
      let (t, c) ← readToken fuel false false c
      unexpected c t none
    match markText none c.rest with
    | none => c.failAtEnd "Syntax error: Unterminated quoted string"
    | some (text, plain, r) =>
      let c := c.past (c.rest.take (c.rest.length - r.length)) r
      match restOfLine [] 'E' r with
      | (_, none) => if c.closed then return ([], c) else throw .more
      | (line, some after) =>
        let start := (c.newLine after).past line after
        let body := { start with mark := some ⟨text, stripTabs⟩, beyond := none }
        -- a delimiter without quotes leaves the expansions in the text alive
        let place := if plain then Place.here else .raw
        let (head, body) := place.openLine (if plain then body.unfold fun _ => false else body)
        match readParts fuel place 0 body with
        | .ok (parts, ended) =>
          let rest := line ++ '\n' :: ended.beyond.getD []
          let taken := c.taken + (ended.line - start.line)
          return (head ++ parts, { c with rest := rest, taken := taken })
        | .error .more => throw .more
        | .error fault =>
          -- what is wrong on the line itself comes first
          return ([], { c with rest := line ++ ['\n'], fault := some (c.fault.getD fault) })

/-- The redirections after a command. -/
def readRedirects : Nat → Cursor → Except Trouble (List Redirect × Cursor)
  | 0, c => c.fail "Syntax error: script too long"
  | fuel + 1, c => do
    match ← readToken fuel false false c with
    | (.redirect descriptor op, c) =>
      let (redirect, c) ← readRedirect fuel descriptor op c
      let (rest, c) ← readRedirects fuel c
      return (redirect :: rest, { c with wordNext := true })
    | _ => return ([], c)

/-- The rest of a simple command after some assignments, words and redirections, the last ones
first. -/
def readSimple : Nat → Nat → List (List Char × List Part) → List (List Part) → List Redirect →
    Cursor → Except Trouble (Command × Cursor)
  | 0, _, _, _, _, c => c.fail "Syntax error: script too long"
  | fuel + 1, line, assignments, words, redirects, c => do
    let done := Command.simple line assignments.reverse words.reverse redirects.reverse
    match ← readToken fuel false false c with
    | (.word parts plain, next) =>
      match if words.isEmpty then readAssignment parts else none with
      | some a => readSimple fuel line (a :: assignments) words redirects next
      | none =>
        if words.isEmpty && assignments.isEmpty && redirects.isEmpty then
          match readToken fuel false false next with
          | .ok (.operator "(", after) =>
            match ← readToken fuel false false after with
            | (.operator ")", after) =>
              let name := (literalText parts).1
              if !plain || !isName name then after.fail "Syntax error: Bad function name"
              let (body, c) ← readCommand fuel true after
              return (.define name body, c)
            | (t, after) => unexpected after t (some (.operator ")"))
          | .error .more => throw .more
          | _ => readSimple fuel line assignments (parts :: words) redirects next
        else readSimple fuel line assignments (parts :: words) redirects next
    | (.redirect descriptor op, next) =>
      let (redirect, next) ← readRedirect fuel descriptor op next
      readSimple fuel line assignments words (redirect :: redirects) next
    | _ => return (done, c)

/-- The tests and bodies of an `if` command after its keyword. -/
def readBranch : Nat → Cursor → Except Trouble (Command × Cursor)
  | 0, c => c.fail "Syntax error: script too long"
  | fuel + 1, c => do
    let (test, c) ← readList fuel false c
    let c ← expectKeyword fuel "then" c
    let (body, c) ← readList fuel false c
    match ← readToken fuel true true c with
    | (.keyword "elif", c) =>
      let (rest, c) ← readBranch fuel c
      return (.branch test body [rest], c)
    | (.keyword "else", c) =>
      let (orelse, c) ← readList fuel false c
      return (.branch test body orelse, ← expectKeyword fuel "fi" c)
    | _ => return (.branch test body [], ← expectKeyword fuel "fi" c)

/-- Passes over a keyword. -/
def expectKeyword : Nat → String → Cursor → Except Trouble Cursor
  | 0, _, c => c.fail "Syntax error: script too long"
  | fuel + 1, keyword, c => do
    match ← readToken fuel true true c with
    | (.keyword text, next) =>
      if text = keyword then return next
      else unexpected next (.keyword text) (some (.keyword keyword))
    | (t, next) => unexpected next t (some (.keyword keyword))

/-- The words of a `for` command. -/
def readWords : Nat → Cursor → Except Trouble (List (List Part) × Cursor)
  | 0, c => c.fail "Syntax error: script too long"
  | fuel + 1, c => do
    match ← readToken fuel false false c with
    | (.word parts _, c) =>
      let (words, c) ← readWords fuel c
      return (parts :: words, c)
    | (.newLine, c) => return ([], c)
    | (.operator ";", c) => return ([], c)
    | (t, c) => unexpected c t none

/-- The patterns of an arm of a `case` command, the first of which has been read. -/
def readPatterns : Nat → List Part → Cursor → Except Trouble (List (List Part) × Cursor)
  | 0, _, c => c.fail "Syntax error: script too long"
  | fuel + 1, first, c => do
    match ← readToken fuel false false c with
    | (.operator "|", c) =>
      let (pattern, c) ← readToken fuel false false c
      let (patterns, c) ← readPatterns fuel pattern.parts c
      return (first :: patterns, c)
    | (.operator ")", c) => return ([first], c)
    | (t, c) => unexpected c t (some (.operator ")"))

/-- The arms of a `case` command. -/
def readArms : Nat → Cursor → Except Trouble (List (List (List Part) × List Command) × Cursor)
  | 0, c => c.fail "Syntax error: script too long"
  | fuel + 1, c => do
    match ← readToken fuel true true c with
    | (.keyword "esac", c) => return ([], c)
    | (.operator "(", c) =>
      let (pattern, c) ← readToken fuel false false c
      readArm fuel pattern.parts c
    | (pattern, c) => readArm fuel pattern.parts c

/-- An arm of a `case` command whose first pattern has been read, and those after it. -/
def readArm : Nat → List Part → Cursor →
    Except Trouble (List (List (List Part) × List Command) × Cursor)
  | 0, _, c => c.fail "Syntax error: script too long"
  | fuel + 1, first, c => do
    let (patterns, c) ← readPatterns fuel first c
    let (body, c) ← readList fuel true c
    match ← readToken fuel true true c with
    | (.keyword "esac", c) => return ([(patterns, body)], c)
    | (.operator ";;", c) =>
      let (arms, c) ← readArms fuel c
      return ((patterns, body) :: arms, c)
    | (t, c) => unexpected c t (some (.operator ";;"))

/-- A command; it may stand after line breaks if that is wanted. -/
def readCommand : Nat → Bool → Cursor → Except Trouble (Command × Cursor)
  | 0, _, c => c.fail "Syntax error: script too long"
  | fuel + 1, overBreaks, c => do
    let (token, next) ← readToken fuel overBreaks true c
    let start := if overBreaks then breaksBehind c (c.rest.length + 1) else c
    let line := (start.skipBlanks (c.rest.length + 1)).line
    match token with
    | .keyword "if" => readBranch fuel next >>= finishCommand fuel line
    | .keyword "while" =>
      let (test, c) ← readList fuel false next
      let (body, c) ← readList fuel false (← expectKeyword fuel "do" c)
      finishCommand fuel line (.loop false test body, ← expectKeyword fuel "done" c)
    | .keyword "until" =>
      let (test, c) ← readList fuel false next
      let (body, c) ← readList fuel false (← expectKeyword fuel "do" c)
      finishCommand fuel line (.loop true test body, ← expectKeyword fuel "done" c)
    | .keyword "for" =>
      match ← readToken fuel false false next with
      | (.word parts plain, c) =>
        let name := (literalText parts).1
        if !plain || !isName name then c.fail "Syntax error: Bad for loop variable"
        let (words, c) ← match ← readToken fuel true true c with
          | (.keyword "in", c) => (readWords fuel c).map fun p => (some p.1, p.2)
          | (.operator ";", c) => pure (none, c)
          | _ => pure (none, c)
        let (body, c) ← readList fuel false (← expectKeyword fuel "do" c)
        finishCommand fuel line (.each name words body, ← expectKeyword fuel "done" c)
      | (_, c) => c.fail "Syntax error: Bad for loop variable"
    | .keyword "case" =>
      match ← readToken fuel false false next with
      | (.word parts _, c) =>
        let (arms, c) ← readArms fuel (← expectKeyword fuel "in" c)
        finishCommand fuel line (.choose parts arms, c)
      | (t, c) => unexpected c t (some (.word [] true))
    | .keyword "\x7b" =>
      let (body, c) ← readList fuel false next
      finishCommand fuel line (.group body, ← expectKeyword fuel "\x7d" c)
    | .operator "(" =>
      let (body, c) ← readList fuel false next
      match ← readToken fuel true true c with
      | (.operator ")", c) => finishCommand fuel line (.subshell body, c)
      | (t, c) => unexpected c t (some (.operator ")"))
    | .word _ _ =>
      readSimple fuel line [] [] [] start
    | .redirect _ _ =>
      readSimple fuel line [] [] [] start
    | t => unexpected next t none

/-- A compound command that begins on a line, with the redirections after it. -/
def finishCommand : Nat → Nat → Command × Cursor → Except Trouble (Command × Cursor)
  | 0, _, (_, c) => c.fail "Syntax error: script too long"
  | fuel + 1, line, (command, c) => do
    let (redirects, c) ← readRedirects fuel c
    return (.at line (if redirects.isEmpty then command else .redirected command redirects), c)

/-- The further stages of a pipeline. -/
def readStages : Nat → Cursor → Except Trouble (List Command × Cursor)
  | 0, c => c.fail "Syntax error: script too long"
  | fuel + 1, c => do
    match ← readToken fuel false true c with
    | (.operator "|", next) =>
      let (command, c) ← readCommand fuel true next
      let (rest, c) ← readStages fuel c
      return (command :: rest, c)
    | _ => return ([], c)

/-- A pipeline. -/
def readPipeline : Nat → Bool → Cursor → Except Trouble (Command × Cursor)
  | 0, _, c => c.fail "Syntax error: script too long"
  | fuel + 1, overBreaks, c => do
    match ← readToken fuel overBreaks true c with
    | (.keyword "!", next) =>
      let (first, c) ← readCommand fuel false next
      let (rest, c) ← readStages fuel c
      return (.pipe true (first :: rest), c)
    | _ =>
      let (first, c) ← readCommand fuel overBreaks c
      let (rest, c) ← readStages fuel c
      return (if rest.isEmpty then first else .pipe false (first :: rest), c)

/-- What follows a pipeline in a chain of commands that depend on one another. -/
def readChain : Nat → Command → Cursor → Except Trouble (Command × Cursor)
  | 0, _, c => c.fail "Syntax error: script too long"
  | fuel + 1, first, c => do
    match ← readToken fuel false true c with
    | (.operator "&&", next) =>
      let (second, c) ← readPipeline fuel true next
      readChain fuel (.both first second) c
    | (.operator "||", next) =>
      let (second, c) ← readPipeline fuel true next
      readChain fuel (.either first second) c
    | _ => return (first, c)

/-- A list of commands up to a token that ends it; it may be empty if that is allowed. -/
def readList : Nat → Bool → Cursor → Except Trouble (List Command × Cursor)
  | 0, _, c => c.fail "Syntax error: script too long"
  | fuel + 1, mayBeEmpty, c => do
    let (token, next) ← readToken fuel true true c
    if endsList token then
      if mayBeEmpty || token.isFinish then return ([], c) else unexpected next token none
    else
      let (first, c) ← readPipeline fuel true c
      let (command, c) ← readChain fuel first c
      match ← readToken fuel false true c with
      | (.operator "&", c) => (readList fuel true c).map fun p => (.background command :: p.1, p.2)
      | (.operator ";", c) => (readList fuel true c).map fun p => (command :: p.1, p.2)
      | (.newLine, c) => (readList fuel true c).map fun p => (command :: p.1, p.2)
      | _ => return ([command], c)

/-- All commands of a text. -/
def readScript : Nat → Cursor → Except Trouble (List Command × Cursor)
  | 0, c => c.fail "Syntax error: script too long"
  | fuel + 1, c => do
    let (commands, c) ← readList fuel true c
    match ← readToken fuel true true c with
    | (.finish, c) => return (commands, c)
    | (t, c) => unexpected c t none

/-- The commands of a line, without the line break that ends it. -/
def readLine : Nat → Cursor → Except Trouble (List Command × Cursor)
  | 0, c => c.fail "Syntax error: script too long"
  | fuel + 1, c => do
    let (first, c) ← readPipeline fuel false c
    let (command, c) ← readChain fuel first c
    match ← readToken fuel false true c with
    | (.operator "&", c) => readLineRest fuel (.background command) c
    | (.operator ";", c) => readLineRest fuel command c
    | (.newLine, c) => return ([command], ← c.settled)
    | (.finish, c) => return ([command], c)
    | (t, c) => unexpected c t none

/-- The commands of a line after a separator. -/
def readLineRest : Nat → Command → Cursor → Except Trouble (List Command × Cursor)
  | 0, _, c => c.fail "Syntax error: script too long"
  | fuel + 1, first, c => do
    match ← readToken fuel false true c with
    | (.newLine, c) => return ([first], ← c.settled)
    | (.finish, c) => return ([first], c)
    | _ => (readLine fuel c).map fun p => (first :: p.1, p.2)

end

/-- The fuel that any reader of a text needs. -/
def readingFuel (s : List Char) : Nat := 16 * (s.length + 8)

/-- The commands of the next line that has any, and the cursor behind it; `none` at the end of the
text. -/
def nextCommand (c : Cursor) : Except Trouble (Option (List Command × Cursor)) := do
  let fuel := readingFuel c.rest
  let c := breaksBehind c fuel
  match c.rest with
  | [] => if c.closed then return none else throw .more
  | _ => return some (← readLine fuel c)

/-- The first fault in a script. -/
def firstFault (c : Cursor) : Nat → Option (Nat × String)
  | 0 => none
  | fuel + 1 =>
    match nextCommand c with
    | .ok (some (_, c)) => firstFault c fuel
    | .error (.wrong line text) => some (line, text)
    | _ => none

end StepTrace.Host.Shell

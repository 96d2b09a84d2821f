import StepTrace.Text.Span

/-!
# Patterns

The patterns that file names, the arms of `case` and the ends of values are matched against. A
pattern is read from characters of which some are quoted; a quoted character stands for itself.
-/

set_option autoImplicit false

namespace StepTrace.Host.Shell

/-- A character, and whether it is quoted. -/
abbrev Marked := Char × Bool

/-- A piece of a pattern. -/
inductive PatternItem where
  | exactly (c : Char)
  /-- Any character. -/
  | one
  /-- Any text. -/
  | many
  /-- A character that is in one of some ranges, or in none of them. -/
  | among (negated : Bool) (ranges : List (Char × Char))
  deriving DecidableEq, Repr, Inhabited

namespace Pattern

/-- Whether a character is in one of some ranges. -/
def inRanges (ranges : List (Char × Char)) (c : Char) : Bool :=
  ranges.any fun r => r.1 ≤ c && c ≤ r.2

/-- Whether a pattern matches the whole of a text. -/
def isMatch : List PatternItem → List Char → Bool
  | [], s => s.isEmpty
  | .many :: p, s => (List.range (s.length + 1)).any fun n => isMatch p (s.drop n)
  | _ :: _, [] => false
  | .exactly c :: p, d :: s => c == d && isMatch p s
  | .one :: p, _ :: s => isMatch p s
  | .among negated ranges :: p, d :: s => inRanges ranges d != negated && isMatch p s

/-- The ranges that a named class of characters stands for. -/
def classRanges (name : String) : List (Char × Char) :=
  match name with
  | "digit" => [('0', '9')]
  | "lower" => [('a', 'z')]
  | "upper" => [('A', 'Z')]
  | "alpha" => [('a', 'z'), ('A', 'Z')]
  | "alnum" => [('a', 'z'), ('A', 'Z'), ('0', '9')]
  | "space" => [(' ', ' '), ('\t', '\x0d')]
  | "blank" => [(' ', ' '), ('\t', '\t')]
  | "punct" => [('!', '/'), (':', '@'), ('[', '\x60'), ('\x7b', '~')]
  | "xdigit" => [('0', '9'), ('a', 'f'), ('A', 'F')]
  | "print" => [(' ', '~')]
  | "graph" => [('!', '~')]
  | "cntrl" => [('\x00', '\x1f'), ('\x7f', '\x7f')]
  | _ => []

/-- The ranges of a set up to the bracket that closes it, and what follows. A bracket that comes
first is a member. -/
def readRanges : Nat → Bool → List Marked → Option (List (Char × Char) × List Marked)
  | 0, _, _ => none
  | _ + 1, _, [] => none
  | fuel + 1, first, (c, quoted) :: r =>
    if c = ']' ∧ !quoted ∧ !first then some ([], r)
    else
      match (c, quoted, r) with
      | ('[', false, (':', false) :: r') =>
        let name := r'.takeWhile fun m => m.1.isAlpha
        match r'.drop name.length with
        | (':', _) :: (']', _) :: r'' =>
          (readRanges fuel false r'').map fun p =>
            (classRanges (String.ofList (name.map Prod.fst)) ++ p.1, p.2)
        | _ => (readRanges fuel false r).map fun p => ((c, c) :: p.1, p.2)
      | (_, _, ('-', false) :: (d, dq) :: r') =>
        if d = ']' ∧ !dq then (readRanges fuel false r).map fun p => ((c, c) :: p.1, p.2)
        else (readRanges fuel false r').map fun p => ((c, d) :: p.1, p.2)
      | _ => (readRanges fuel false r).map fun p => ((c, c) :: p.1, p.2)

/-- A set after its opening bracket, and what follows it. -/
def readSet (s : List Marked) : Option (PatternItem × List Marked) :=
  let (negated, s) := match s with
    | ('!', false) :: r => (true, r)
    | ('^', false) :: r => (true, r)
    | _ => (false, s)
  (readRanges (s.length + 1) true s).map fun p => (.among negated p.1, p.2)

/-- The pieces of a pattern. -/
def read : Nat → List Marked → List PatternItem
  | 0, _ => []
  | _ + 1, [] => []
  | fuel + 1, (c, quoted) :: r =>
    if quoted then .exactly c :: read fuel r
    else if c = '*' then .many :: read fuel r
    else if c = '?' then .one :: read fuel r
    else if c = '[' then
      match readSet r with
      | some (item, rest) => item :: read fuel rest
      | none => .exactly c :: read fuel r
    else .exactly c :: read fuel r

/-- The pattern that some characters spell. -/
def ofMarked (s : List Marked) : List PatternItem := read (s.length + 1) s

/-- Whether characters spell a pattern that is more than a text. -/
def isActive (s : List Marked) : Bool :=
  s.any fun m => !m.2 && (m.1 == '*' || m.1 == '?' || m.1 == '[')

/-- The lengths of the leading parts of a text that a pattern matches, the shortest first. -/
def matchingHeads (p : List PatternItem) (s : List Char) : List Nat :=
  (List.range (s.length + 1)).filter fun n => isMatch p (s.take n)

/-- A text without what a pattern matches at its start. -/
def dropHead (longest : Bool) (p : List PatternItem) (s : List Char) : List Char :=
  let lengths := matchingHeads p s
  s.drop ((if longest then lengths.getLast? else lengths.head?).getD 0)

/-- The lengths of the parts before a match at the end of a text, the shortest first. -/
def partsBefore (p : List PatternItem) (s : List Char) : List Nat :=
  (List.range (s.length + 1)).filter fun n => isMatch p (s.drop n)

/-- A text without what a pattern matches at its end. -/
def dropTail (longest : Bool) (p : List PatternItem) (s : List Char) : List Char :=
  let lengths := partsBefore p s
  s.take ((if longest then lengths.head? else lengths.getLast?).getD s.length)

end Pattern

end StepTrace.Host.Shell

import StepTrace.Host.Shell.Machine
import StepTrace.Host.Shell.Pattern

/-!
# Fields

What the words of a command become. An expanded word is a list of glyphs, which tell for each
character where it comes from; `Field.split` cuts it into fields, `Field.spread` puts the names of
files in the place of a pattern.
-/

set_option autoImplicit false

namespace StepTrace.Host.Shell

/-- A piece of an expanded word. -/
inductive Glyph where
  /-- A character outside quotes. -/
  | bare (c : Char)
  /-- A character of a value outside quotes. -/
  | value (c : Char)
  | quoted (c : Char)
  /-- Quotes, whether anything is in them or not. -/
  | quotes
  /-- The end of a field. -/
  | cut
  deriving DecidableEq, Repr, Inhabited

namespace Field

/-- What fields are cut by if nothing else is chosen. -/
def usualSeparators : List Char := [' ', '\t', '\n']

/-- Whether a separator is white space, of which any amount separates once. -/
def isWhite (c : Char) : Bool := usualSeparators.contains c

/-- The fields that are complete, the last one first, the one that is being read, its last character
first, and whether white space just ended one. -/
structure Splitting where
  complete : List (List Marked)
  current : Option (List Marked)
  afterWhite : Bool

/-- A character joins the current field. -/
def Splitting.add (s : Splitting) (m : Marked) : Splitting :=
  { s with current := some (m :: s.current.getD []), afterWhite := false }

/-- The current field is complete. -/
def Splitting.close (s : Splitting) : Splitting :=
  match s.current with
  | some f => { s with complete := f.reverse :: s.complete, current := none }
  | none => s

/-- The splitting after one more glyph. -/
def Splitting.step (separators : List Char) (s : Splitting) : Glyph → Splitting
  | .bare c => s.add (c, false)
  | .quoted c => s.add (c, true)
  | .quotes => { s with current := some (s.current.getD []), afterWhite := false }
  | .cut => { s.close with afterWhite := false }
  | .value c =>
    if !separators.contains c then s.add (c, false)
    else if isWhite c then
      if s.current.isSome then { s.close with afterWhite := true } else s
    else if s.current.isNone && s.afterWhite then { s with afterWhite := false }
    else { { s with current := some (s.current.getD []) }.close with afterWhite := false }

/-- The fields of an expanded word. -/
def split (separators : List Char) (glyphs : List Glyph) : List (List Marked) :=
  ((glyphs.foldl (Splitting.step separators) ⟨[], none, false⟩).close.complete).reverse

/-- The characters of an expanded word, with marks, where no fields are cut. -/
def whole (glyphs : List Glyph) : List Marked :=
  glyphs.filterMap fun g => match g with
    | .bare c => some (c, false)
    | .value c => some (c, false)
    | .quoted c => some (c, true)
    | .quotes => none
    | .cut => some (' ', false)

/-- The text of marked characters. -/
def text (s : List Marked) : List Char := s.map Prod.fst

/-- The pieces of a pattern for paths between its slashes. -/
def pathPieces (s : List Marked) : List (List Marked) := Text.pieces (fun m => m.1 == '/') s

/-- The paths that start as some text and go on as pieces of a pattern say. -/
def pathsFrom (disk : Disk) (directory : List String) (start : List Char) :
    List (List Marked) → List (List Char)
  | [] => [start]
  | piece :: rest =>
    let name := text piece
    let goOn := fun (name : List Char) (rest : List (List Marked)) =>
      start ++ name ++ (if rest.isEmpty then [] else ['/'])
    if !Pattern.isActive piece then pathsFrom disk directory (goOn name rest) rest
    else
      let place := if start.isEmpty then some directory
        else disk.locate directory (Bytes.string start)
      let names := (place.map disk.namesIn).getD []
      let pattern := Pattern.ofMarked piece
      -- a directory also holds itself and the one above
      let names := [['.'], ['.', '.']] ++ names.map Bytes.ofString
      let matching := names.filter fun n =>
        Pattern.isMatch pattern n && (n.head? != some '.' || name.head? == some '.')
      matching.flatMap fun n => pathsFrom disk directory (goOn n rest) rest

/-- The paths that a field stands for: itself, unless it is a pattern that matches some. -/
def spread (disk : Disk) (directory : List String) (field : List Marked) : List (List Char) :=
  if !Pattern.isActive field then [text field]
  else
    let found := (pathsFrom disk directory [] (pathPieces field)).filter fun p =>
      (disk.find? directory (Bytes.string p)).isSome
    if found.isEmpty then [text field] else found.mergeSort fun a b => !(b < a)

/-- The start of a line up to a separator, and what follows the separator and the white space around
it. -/
def takeField (separators : List Char) (s : List Marked) : List Marked × List Marked :=
  let separates := fun (m : Marked) => !m.2 && separators.contains m.1
  let white := fun (m : Marked) => separates m && isWhite m.1
  let field := s.takeWhile fun m => !separates m
  let rest := (s.drop field.length).dropWhile white
  let rest := match rest with
    | m :: r => if separates m && !white m then r.dropWhile white else rest
    | [] => []
  (field, rest)

/-- The values that a line gives to some variables; the last one gets the rest of the line. -/
def assignLine (separators : List Char) : List (List Char) → List Marked →
    List (List Char × List Char)
  | [], _ => []
  | [name], s =>
    let white := fun (m : Marked) => !m.2 && separators.contains m.1 && isWhite m.1
    [(name, text ((s.reverse.dropWhile white).reverse))]
  | name :: names, s =>
    let (field, rest) := takeField separators s
    (name, text field) :: assignLine separators names rest

end Field

end StepTrace.Host.Shell

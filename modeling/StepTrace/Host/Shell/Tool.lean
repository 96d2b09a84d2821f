import StepTrace.Host.Shell.FileName
import StepTrace.Host.Shell.Format
import StepTrace.Host.Shell.Machine

/-!
# Tools

The tools that every machine has. Each reads its input, prints, and gives a status; what they do
with text is in functions of their own.
-/

set_option autoImplicit false

namespace StepTrace.Host.Shell.Tool

/-- Prints on the output stream. -/
def print (bytes : List Char) : Action Unit := do
  let _ ← write 1 bytes

/-- Prints lines. -/
def printLines (lines : List (List Char)) : Action Unit :=
  print (lines.flatMap fun l => l ++ ['\n'])

/-- A message of a tool. -/
def blame (tool : String) (message : List Char) : Action Unit :=
  complain (Bytes.ofString (tool ++ ": ") ++ message)

/-- A text in quotes. -/
def quoted (text : List Char) : List Char := '\x27' :: text ++ ['\x27']

/-- Whether a path leads through a file that is no directory. -/
def passesFile (d : Disk) (directory : List String) (path : List Char) : Bool :=
  (List.range path.length).any fun n =>
    path[n]? == some '/' && d.isFile directory (Bytes.string (path.take n))

/-- Why a file cannot be read or written. -/
def refusal (path : List Char) : Action (List Char) := do
  let m ← get
  let text := Bytes.string path
  return Bytes.ofString <|
    if m.disk.isDirectory m.shell.directory text then ": Is a directory"
    else if passesFile m.disk m.shell.directory path then ": Not a directory"
    else ": No such file or directory"

/-- Says which file cannot be read or written, and why. -/
def blameFile (tool : String) (path : List Char) : Action Unit := do
  blame tool (FileName.shown path ++ (← refusal path))

/-- How a message ends that tells how to get help. -/
def askForHelp (tool : String) : List Char :=
  Bytes.ofString ("\nTry \x27" ++ tool ++ " --help\x27 for more information.")

/-- The lines of a text; what is left after the last line feed is one. -/
def linesOf (s : List Char) : List (List Char) :=
  match (Text.splitLines s).getLast? with
  | some [] => (Text.splitLines s).dropLast
  | _ => Text.splitLines s

/-- Splits the options of a tool, as letters, from its other arguments. -/
def options : List (List Char) → List Char × List (List Char)
  | [] => ([], [])
  | arg :: rest =>
    match arg with
    | '-' :: '-' :: [] => ([], rest)
    | '-' :: c :: cs =>
      let (letters, args) := options rest
      (c :: cs ++ letters, args)
    | _ => ([], arg :: rest)

/-- Copies what a descriptor gives as it comes. -/
def copy (fuel : Nat) : Action Unit :=
  match fuel with
  | 0 => throw .waiting
  | fuel + 1 => do
    match ← readBytes 0 with
    | .bytes data =>
      print data
      copy fuel
    | _ => return

/-- Prints files one after the other; without any, the input. -/
def cat : List (List Char) → Action Nat
  | [] => do
    copy (← readings)
    return 0
  | paths => do
    let mut status := 0
    for path in paths do
      if path = ['-'] then copy (← readings)
      else
        match ← fileBytes? path with
        | some bytes => print bytes
        | none =>
          blameFile "cat" path
          status := 1
    return status

/-- The milliseconds that a duration means. -/
def duration? (s : List Char) : Option Nat :=
  let whole := s.takeWhile Char.isDigit
  let r := s.drop whole.length
  let (fraction, r) := match r with
    | '.' :: r =>
      let ds := r.takeWhile Char.isDigit
      (ds, r.drop ds.length)
    | r => ([], r)
  let unit : Option Nat := match r with
    | [] => some 1
    | ['s'] => some 1
    | ['m'] => some 60
    | ['h'] => some 3600
    | ['d'] => some 86400
    | _ => none
  if whole.isEmpty && fraction.isEmpty then none
  else
    unit.map fun u =>
      let scale := Nat.pow 10 fraction.length
      (Text.digitValue whole * scale + Text.digitValue fraction) * 1000 * u / scale

/-- Waits. -/
def sleep (args : List (List Char)) : Action Nat := do
  match args.mapM duration? with
  | some [] => do
    blame "sleep" (Bytes.ofString "missing operand" ++ askForHelp "sleep")
    return 1
  | some ds => do
    let _ ← waitFor ((← get).clock + ds.foldl (· + ·) 0)
    return 0
  | none => do
    let bad := (args.find? fun a => (duration? a).isNone).getD []
    blame "sleep" (Bytes.ofString "invalid time interval " ++ quoted bad ++ askForHelp "sleep")
    return 1

/-- The characters between two, the ends included. -/
def between (a b : Char) : List Char :=
  (List.range (b.toNat + 1 - a.toNat)).map fun i => Char.ofNat (a.toNat + i)

/-- The characters of a named class. -/
def classMembers (name : List Char) : List Char :=
  match String.ofList name with
  | "lower" => between 'a' 'z'
  | "upper" => between 'A' 'Z'
  | "digit" => between '0' '9'
  | "alpha" => between 'A' 'Z' ++ between 'a' 'z'
  | "alnum" => between '0' '9' ++ between 'A' 'Z' ++ between 'a' 'z'
  | "space" => between '\t' '\x0d' ++ [' ']
  | "blank" => ['\t', ' ']
  | _ => []

/-- The characters that a set of `tr` stands for. -/
def members : Nat → List Char → List Char
  | 0, _ => []
  | _ + 1, [] => []
  | fuel + 1, '[' :: ':' :: r =>
    let name := r.takeWhile Char.isAlpha
    match r.drop name.length with
    | ':' :: ']' :: rest => classMembers name ++ members fuel rest
    | _ => '[' :: ':' :: members fuel r
  | fuel + 1, a :: '-' :: b :: r => between a b ++ members fuel r
  | fuel + 1, c :: r => c :: members fuel r

/-- The characters of a set with escapes. -/
def setOf (s : List Char) : List Char :=
  let text := (unescape false (s.length + 1) s).1
  members (text.length + 1) text

/-- The character that takes the place of another: the one at its place in the second set, or the
last one there. -/
def translate (source target : List Char) (c : Char) : Char :=
  match source.reverse.findIdx? (· == c) with
  | some back =>
    let i := source.length - 1 - back
    (target[i]?.orElse fun _ => target.getLast?).getD c
  | none => c

/-- A text in which of equal neighbours from a set only the first is left. -/
def squeeze (set : List Char) (last : Option Char) : List Char → List Char
  | [] => []
  | c :: r =>
    if last = some c ∧ set.contains c = true then squeeze set last r
    else c :: squeeze set (some c) r

/-- What `tr` makes of a text. -/
def transliterate (letters : List Char) (sets : List (List Char)) (s : List Char) : List Char :=
  let first := setOf (sets.headD [])
  let first :=
    if letters.any fun c => c == 'c' || c == 'C' then
      (between '\x00' '\u00ff').filter fun c => !first.contains c
    else first
  let second := setOf (sets.getD 1 [])
  if letters.contains 'd' then
    let kept := s.filter fun c => !first.contains c
    if letters.contains 's' then squeeze second none kept else kept
  else if sets.length < 2 then squeeze first none s
  else
    let changed := s.map (translate first second)
    if letters.contains 's' then squeeze second none changed else changed

/-- Translates the input as it comes. -/
def tr (letters : List Char) (sets : List (List Char)) : Nat → Action Nat
  | 0 => throw .waiting
  | fuel + 1 => do
    match ← readBytes 0 with
    | .bytes data =>
      print (transliterate letters sets data)
      tr letters sets fuel
    | _ => return 0

/-- A number, if digits spell it. -/
def count? (s : List Char) : Option Nat :=
  if Text.isDigits s then some (Text.digitValue s) else none

/-- How much `head` or `tail` prints, whether bytes are meant, whether counted from the start, and
the files. -/
def portion : List (List Char) → Nat × Bool × Bool × List (List Char)
  | ['-', 'n'] :: ('+' :: n) :: rest => ((count? n).getD 10, false, true, rest)
  | ['-', 'n'] :: n :: rest => ((count? n).getD 10, false, false, rest)
  | ['-', 'c'] :: ('+' :: n) :: rest => ((count? n).getD 0, true, true, rest)
  | ['-', 'c'] :: n :: rest => ((count? n).getD 0, true, false, rest)
  | ('-' :: 'n' :: '+' :: n) :: rest => ((count? n).getD 10, false, true, rest)
  | ('-' :: 'n' :: n) :: rest => ((count? n).getD 10, false, false, rest)
  | ('-' :: 'c' :: n) :: rest => ((count? n).getD 0, true, false, rest)
  | ('-' :: n) :: rest => ((count? n).getD 10, false, false, rest)
  | rest => (10, false, false, rest)

/-- The tools that say that they wanted to open a file. -/
def openers : List String := ["head", "tail"]

/-- The bytes of a file, or of the input if none is named. -/
def source (tool : String) (files : List (List Char)) : Action (Option (List Char)) := do
  match files with
  | [] => return some (← slurp 0)
  | path :: _ =>
    match ← fileBytes? path with
    | some bytes => return some bytes
    | none =>
      let reason ← refusal path
      if openers.contains tool then
        blame tool (Bytes.ofString "cannot open " ++ FileName.quoted path ++
          Bytes.ofString " for reading" ++ reason)
      else if tool = "sort" then
        blame tool (Bytes.ofString "cannot read: " ++ FileName.shown path ++ reason)
      else blame tool (FileName.shown path ++ reason)
      return none

/-- Prints the next lines of the input, up to some number of them. -/
def headLines : Nat → Action Unit
  | 0 => return
  | n + 1 => do
    let (line, ended) ← readLineFrom 0 (← readings)
    if ended then
      print (line ++ ['\n'])
      headLines n
    else print line

/-- Prints the start of a file or of the input. -/
def head (args : List (List Char)) : Action Nat := do
  let (n, bytes, _, files) := portion args
  if files.isEmpty && !bytes then
    headLines n
    return 0
  match ← source "head" files with
  | none => return 1
  | some data =>
    if bytes then print (data.take n)
    else
      let lines := Text.splitLines data
      print (if lines.length ≤ n then data else (lines.take n).flatMap fun l => l ++ ['\n'])
    return 0

/-- Prints the end of a file or of the input. -/
def tail (args : List (List Char)) : Action Nat := do
  let (n, bytes, fromStart, files) := portion args
  match ← source "tail" files with
  | none => return 1
  | some data =>
    if bytes then print (if fromStart then data.drop (n - 1) else data.drop (data.length - n))
    else
      let whole := data.getLast? = some '\n' ∨ data.isEmpty = true
      let lines := linesOf data
      let kept := if fromStart then lines.drop (n - 1) else lines.drop (lines.length - n)
      let text := kept.flatMap fun l => l ++ ['\n']
      print (if whole then text else text.dropLast)
    return 0

/-- The number of words in a text. -/
def wordCount (s : List Char) : Nat :=
  (s.foldl (fun (acc : Nat × Bool) c =>
    let blank := c == ' ' || ('\t' ≤ c && c ≤ '\x0d')
    (if !blank && !acc.2 then acc.1 + 1 else acc.1, !blank)) (0, false)).1

/-- Prints how many lines, words and bytes there are. -/
def wc (args : List (List Char)) : Action Nat := do
  let (letters, files) := options args
  match ← source "wc" files with
  | none => return 1
  | some data =>
    let all := [('l', data.count '\n'), ('w', wordCount data), ('c', data.length)]
    let chosen := if letters.isEmpty then all else all.filter fun p => letters.contains p.1
    let width := if chosen.length > 1 && files.isEmpty then 7 else 0
    let numbers := chosen.map fun p => Format.pad false width (Text.digits p.2)
    let name := match files with
      | path :: _ => [path]
      | [] => []
    print (List.intercalate [' '] (numbers ++ name) ++ ['\n'])
    return 0

/-- A number with a sign. -/
def integer? (s : List Char) : Option Int :=
  match s with
  | '-' :: r => (count? r).map fun n => -(n : Int)
  | s => (count? s).map Int.ofNat

/-- Numbers from a first one in steps up to a last one. -/
def progression (step last : Int) : Nat → Int → List Int
  | 0, _ => []
  | fuel + 1, n =>
    if (0 < step ∧ last < n) ∨ (step < 0 ∧ n < last) ∨ step = 0 then []
    else n :: progression step last fuel (n + step)

/-- Prints numbers in a row. -/
def seq (args : List (List Char)) : Action Nat := do
  let range := match args.mapM integer? with
    | some [last] => some ((1 : Int), (1 : Int), last)
    | some [first, last] => some (first, 1, last)
    | some [first, step, last] => some (first, step, last)
    | _ => none
  match range with
  | some (first, step, last) =>
    let numbers := progression step last ((last - first).natAbs + 1) first
    printLines (numbers.map fun n => (toString n).toList)
    return 0
  | none =>
    blame "seq" (Bytes.ofString "invalid argument")
    return 1

/-- Writes a file, anew or at its end. -/
def writeFile (path : List Char) (bytes : List Char) : Action Bool := do
  let m ← get
  match m.disk.write? m.shell.directory (Bytes.string path) bytes with
  | some disk =>
    set { m with disk := disk }
    return true
  | none => return false

/-- Copies the input to the output and to files. -/
def tee (args : List (List Char)) : Action Nat := do
  let (letters, files) := options args
  let data ← slurp 0
  print data
  let mut status := 0
  for path in files do
    let old ← if letters.contains 'a' then pure ((← fileBytes? path).getD []) else pure []
    if !(← writeFile path (old ++ data)) then
      blameFile "tee" path
      status := 1
  return status

/-- A path without the slashes at its end. -/
def dropSlashes (s : List Char) : List Char :=
  let r := (s.reverse.dropWhile (· == '/')).reverse
  if r.isEmpty && !s.isEmpty then ['/'] else r

/-- The name that a path ends in, without a suffix. -/
def baseName (path suffix : List Char) : List Char :=
  let p := dropSlashes path
  if p = ['/'] then p
  else
    let name := (p.reverse.takeWhile (· != '/')).reverse
    if name.length > suffix.length && suffix.isSuffixOf name then
      name.take (name.length - suffix.length)
    else name

/-- What stands before the name that a path ends in. -/
def dirName (path : List Char) : List Char :=
  let p := dropSlashes path
  let before := (p.reverse.dropWhile (· != '/')).reverse
  if before.isEmpty then ['.'] else dropSlashes before

/-- Makes directories. -/
def mkdir (args : List (List Char)) : Action Nat := do
  let (letters, paths) := options args
  let mut status := 0
  for path in paths do
    let m ← get
    let text := Bytes.string path
    let made :=
      if letters.contains 'p' then m.disk.makeDirectories m.shell.directory text
      else
        match m.disk.locate m.shell.directory text with
        | some place =>
          if (m.disk.at? place).isNone && m.disk.isDirectoryAt place.dropLast then
            some (m.disk.put place .directory)
          else none
        | none => none
    match made with
    | some disk => set { m with disk := disk }
    | none =>
      let there := (m.disk.find? m.shell.directory text).isSome
      blame "mkdir" (Bytes.ofString "cannot create directory " ++ FileName.quoted path ++
        Bytes.ofString (if there then ": File exists" else ": No such file or directory"))
      status := 1
  return status

/-- Removes files, and directories with all that is in them if that is wanted. -/
def rm (args : List (List Char)) : Action Nat := do
  let (letters, paths) := options args
  let mut status := 0
  for path in paths do
    let m ← get
    let refuse := fun (reason : String) => do
      blame "rm" (Bytes.ofString "cannot remove " ++ FileName.quoted path ++
        Bytes.ofString (": " ++ reason))
    match m.disk.locate m.shell.directory (Bytes.string path) with
    | some place =>
      match m.disk.at? place with
      | some (.file _ _) => set { m with disk := m.disk.remove place }
      | some .directory =>
        if letters.contains 'r' then
          let kept := m.disk.entries.filter fun e => !place.isPrefixOf e.1
          set { m with disk := ⟨kept⟩ }
        else
          refuse "Is a directory"
          status := 1
      | none =>
        if !letters.contains 'f' then
          refuse "No such file or directory"
          status := 1
    | none =>
      if !letters.contains 'f' then
        refuse "No such file or directory"
        status := 1
  return status

/-- Makes files that are not there. -/
def touch (args : List (List Char)) : Action Nat := do
  let mut status := 0
  for path in (options args).2 do
    if (← entry? path).isNone then
      if !(← writeFile path []) then
        blame "touch" (Bytes.ofString "cannot touch " ++ FileName.quoted path ++
          Bytes.ofString ": No such file or directory")
        status := 1
  return status

/-- Whether a mode of `chmod` lets files be executed; none if it says nothing of that. -/
def executableBy? (mode : List Char) : Option Bool :=
  let asked := mode.dropWhile fun c => c == 'u' || c == 'g' || c == 'o' || c == 'a'
  match asked with
  | '+' :: what => if what.contains 'x' then some true else none
  | '-' :: what => if what.contains 'x' then some false else none
  | digits => digits.reverse[2]?.map fun c => c.toNat % 2 == 1

/-- Changes whether files may be executed. -/
def chmod (args : List (List Char)) : Action Nat := do
  let mut status := 0
  for path in args.tail do
    let m ← get
    match m.disk.locate m.shell.directory (Bytes.string path), ← entry? path with
    | some place, some (.file content old) =>
      let executable := (executableBy? (args.headD [])).getD old
      set { m with disk := m.disk.put place (.file content executable) }
    | _, some .directory => pure ()
    | _, _ =>
      blame "chmod" (Bytes.ofString "cannot access " ++ FileName.quoted path ++
        Bytes.ofString ": No such file or directory")
      status := 1
  return status

/-- Texts in order. -/
def sorted (texts : List (List Char)) : List (List Char) := texts.mergeSort fun a b => !(b < a)

/-- Prints the names in a directory. -/
def ls (args : List (List Char)) : Action Nat := do
  let (letters, paths) := options args
  let mut status := 0
  for path in (if paths.isEmpty then [['.']] else paths) do
    let m ← get
    match m.disk.find? m.shell.directory (Bytes.string path) with
    | some .directory =>
      let place := (m.disk.locate m.shell.directory (Bytes.string path)).getD []
      let names := (m.disk.namesIn place).map Bytes.ofString
      let shown := names.filter fun n => letters.contains 'a' || n.head? != some '.'
      printLines (sorted shown)
    | some _ => printLines [path]
    | none =>
      blame "ls" (Bytes.ofString "cannot access " ++ FileName.quoted path ++
        Bytes.ofString ": No such file or directory")
      status := 2
  return status

/-- Lines of which each stands once where equal ones follow each other. -/
def distinct : List (List Char) → List (List Char)
  | [] => []
  | [l] => [l]
  | l :: l' :: r => if l = l' then distinct (l' :: r) else l :: distinct (l' :: r)

/-- Prints lines in order. -/
def sort (args : List (List Char)) : Action Nat := do
  let (letters, files) := options args
  match ← source "sort" files with
  | none => return 2
  | some data =>
    let lines := linesOf data
    let byNumber := fun (l : List Char) =>
      (Format.readNumber true (l.takeWhile fun c => c.isDigit || c == '-' || c == ' ')).1
    let lines :=
      if letters.contains 'n' then (sorted lines).mergeSort fun a b => byNumber a ≤ byNumber b
      else sorted lines
    let lines := if letters.contains 'u' then distinct lines else lines
    printLines (if letters.contains 'r' then lines.reverse else lines)
    return 0

/-- Prints lines without those that repeat the one before. -/
def uniq (args : List (List Char)) : Action Nat := do
  match ← source "uniq" (options args).2 with
  | none => return 1
  | some data =>
    printLines (distinct (linesOf data))
    return 0

/-- What a tool does; none if there is no such tool. -/
def run? (name : String) (args : List (List Char)) : Option (Action Nat) :=
  match name with
  | "cat" => some (cat (args.filter fun a => a != ['-', 'u']))
  | "sleep" => some (sleep args)
  | "tr" => some (do
      let (letters, sets) := options args
      tr letters sets (← readings))
  | "head" => some (head args)
  | "tail" => some (tail args)
  | "wc" => some (wc args)
  | "seq" => some (seq args)
  | "tee" => some (tee args)
  | "basename" => some (do
      printLines [baseName (args.headD []) (args.getD 1 [])]
      return 0)
  | "dirname" => some (do
      printLines [dirName (args.headD [])]
      return 0)
  | "mkdir" => some (mkdir args)
  | "rm" => some (rm args)
  | "touch" => some (touch args)
  | "chmod" => some (chmod args)
  | "ls" => some (ls args)
  | "sort" => some (sort args)
  | "uniq" => some (uniq args)
  | "true" => some (return 0)
  | "false" => some (return 1)
  | _ => none

/-- The tools. -/
def names : List String :=
  ["cat", "sleep", "tr", "head", "tail", "wc", "seq", "tee", "basename", "dirname", "mkdir", "rm",
    "touch", "chmod", "ls", "sort", "uniq", "true", "false"]

end StepTrace.Host.Shell.Tool

import StepTrace.Host.Shell.Condition
import StepTrace.Host.Shell.Cursor
import StepTrace.Host.Shell.Field
import StepTrace.Host.Shell.OptionWord
import StepTrace.Host.Shell.Switch

/-!
# Commands of the shell itself

The commands that a shell carries out without another program and that run no commands themselves.
-/

set_option autoImplicit false

namespace StepTrace.Host.Shell

namespace Builtin

/-- The separators of fields. -/
def separators : Action (List Char) := do
  return ((← get).valueOf? "IFS".toList).getD Field.usualSeparators

/-- The letters of the options before the other arguments, and those arguments. -/
def readOptions (known : String) (args : List (List Char)) :
    Action (List Char × List (List Char)) := do
  let (letters, rest) := Tool.options args
  match letters.find? fun c => !known.toList.contains c with
  | some c => fail ("Illegal option -" ++ Bytes.string [c])
  | none => return (letters, rest)

/-- Gives a variable a value, unless it cannot be changed. -/
def give (name value : List Char) : Action Unit := do
  if (← get).isReadOnly name then fail (Bytes.string name ++ ": is read only")
  change fun m => m.assign name value

/-- Refuses what is no name of a variable. -/
def needName (name : List Char) : Action Unit := do
  if !isName name then fail (Bytes.string name ++ ": bad variable name")

/-- Prints what a command of the shell has to say. -/
def say (text : List Char) : Action Nat := do
  if text.isEmpty || (← write 1 text) then return 0
  report (Bytes.string (← ofShell State.within) ++ ": I/O error")
  return 1

/-- Prints lines. -/
def sayLines (lines : List (List Char)) : Action Nat := say (lines.flatMap fun l => l ++ ['\n'])

/-- Writes its arguments with a blank between each two. -/
def echo (args : List (List Char)) : Action Nat := do
  let (silent, args) := match args with
    | ['-', 'n'] :: rest => (true, rest)
    | args => (false, args)
  let text := List.intercalate [' '] args
  let (text, stopped) := unescape true (text.length + 1) text
  say (if stopped || silent then text else text ++ ['\n'])

/-- Writes its arguments in a format, after what is said of them. -/
def printf (args : List (List Char)) : Action Nat := do
  let (_, args) ← readOptions "" args
  match args with
  | [] => fail "usage: printf format [arg ...]"
  | format :: args =>
    let (text, faults, status) := Format.write format args
    for fault in faults do report fault
    let written ← say text
    return max status written

/-- Reads a line in which a backslash quotes what follows; a quoted line feed joins two lines. -/
def readJoined : Nat → Action (List Marked × Bool)
  | 0 => return ([], false)
  | fuel + 1 => do
    let (line, ended) ← readLineFrom 0 (← readings)
    let (marked, quoting) := line.foldl (fun (acc : List Marked × Bool) c =>
      if acc.2 then ((c, true) :: acc.1, false)
      else if c = '\\' then (acc.1, true)
      else ((c, false) :: acc.1, false)) ([], false)
    if quoting && ended then
      let (more, ended) ← readJoined fuel
      return (marked.reverse ++ more, ended)
    return (marked.reverse, ended)

/-- The names in the arguments of `read`, and whether backslashes are plain. A prompt is passed
over. -/
def readNames (args : List (List Char)) : Action (Bool × List (List Char)) := do
  let (letters, names) ← readOptions "pr" args
  if letters.contains 'p' then
    let (more, names) ← readOptions "pr" names.tail
    return (letters.contains 'r' || more.contains 'r', names)
  return (letters.contains 'r', names)

/-- Reads a line into variables. -/
def read (args : List (List Char)) : Action Nat := do
  let (raw, names) ← readNames args
  if names.isEmpty then fail "arg count"
  match names.find? fun n => !isName n with
  | some bad => fail (Bytes.string bad ++ ": bad variable name")
  | none =>
    let (line, ended) ←
      if raw then do
        let (line, ended) ← readLineFrom 0 (← readings)
        pure (line.map fun c => (c, false), ended)
      else readJoined (← readings)
    let line := line.filter fun m => m.1 != '\x00'
    let ifs ← separators
    let line := line.dropWhile fun m => !m.2 && ifs.contains m.1 && Field.isWhite m.1
    for (name, value) in Field.assignLine ifs names line do give name value
    return if ended then 0 else 1

/-- Changes the working directory. -/
def cd (args : List (List Char)) : Action Nat := do
  let (_, args) ← readOptions "LP" args
  let m ← get
  let path := match args.head? with
    | some ['-'] => (m.valueOf? "OLDPWD".toList).getD []
    | some path => path
    | none => (m.valueOf? "HOME".toList).getD []
  if path.isEmpty then return 0
  let place := m.disk.locate m.shell.directory (Bytes.string path)
  match place.filter m.disk.isDirectoryAt with
  | none => fail ("can\x27t cd to " ++ Bytes.string path)
  | some place =>
    let old := Bytes.ofString (Path.ofNames m.shell.directory)
    let new := Bytes.ofString (Path.ofNames place)
    changeShell fun s => { s with directory := place }
    for (name, value) in [("OLDPWD".toList, old), ("PWD".toList, new)] do
      change fun m => (m.assign name value).handOn name
    if args.head? = some ['-'] then sayLines [new] else return 0

/-- Prints the working directory. -/
def pwd (args : List (List Char)) : Action Nat := do
  let _ ← readOptions "LP" args
  sayLines [Bytes.ofString (Path.ofNames (← get).shell.directory)]

/-- A name with a value that may be given to it. -/
def splitAssignment (arg : List Char) : List Char × Option (List Char) :=
  match arg.span (· != '=') with
  | (name, _ :: value) => (name, some value)
  | (name, []) => (name, none)

/-- A text between quotes, in which quotes of the other kind go around single ones. -/
def inQuotes : Nat → List Char → List Char
  | 0, _ => []
  | fuel + 1, s =>
    let plain := s.takeWhile (· != '\x27')
    let rest := s.drop plain.length
    let singles := rest.takeWhile (· == '\x27')
    let after := rest.drop singles.length
    Tool.quoted plain ++ (if singles.isEmpty then [] else '\x22' :: singles ++ ['\x22']) ++
      (if after.isEmpty then [] else inQuotes fuel after)

/-- Prints the commands that mark the variables of some kind again. -/
def listVariables (command : String) (marked : Variable → Bool) : Action Nat := do
  let vars := (← ofShell State.vars).filter marked
  let vars := vars.mergeSort fun a b => !(b.name < a.name)
  sayLines (vars.map fun v =>
    let value := v.value.map fun x => '=' :: inQuotes (x.length + 1) x
    Bytes.ofString (command ++ " ") ++ v.name ++ value.getD [])

/-- Marks the variables that are named, which may get values, or lists those that are marked. -/
def markNames (command : String) (marked : Variable → Bool)
    (mark : Machine → List Char → Machine) (args : List (List Char)) : Action Nat := do
  let (letters, args) ← readOptions "p" args
  if args.isEmpty || letters.contains 'p' then return ← listVariables command marked
  for arg in args do
    let (name, value) := splitAssignment arg
    needName name
    match value with
    | some v => give name v
    | none => pure ()
    change fun m => mark m name
  return 0

/-- Makes variables of a function that is being called. -/
def localNames (args : List (List Char)) : Action Nat := do
  if (← ofShell State.locals).isEmpty then fail "not in a function"
  for arg in args do
    let (name, value) := splitAssignment arg
    needName name
    changeShell fun s =>
      match s.locals with
      | here :: outer =>
        let old := s.vars.find? fun v => v.name == name
        { s with locals := ((name, old) :: here) :: outer }
      | [] => s
    match value with
    | some v => give name v
    | none => pure ()
  return 0

/-- Takes variables or functions away. -/
def unsetNames (args : List (List Char)) : Action Nat := do
  let (letters, names) ← readOptions "vf" args
  for name in names do
    if letters.contains 'f' then
      changeShell fun s => { s with functions := s.functions.filter fun f => f.1 != name }
    else
      needName name
      if (← get).isReadOnly name then fail (Bytes.string name ++ ": is read only")
      change fun m => m.forget name
  return 0

/-- A number that an argument has to be. -/
def numberArg (arg : List Char) : Action Nat := do
  match Tool.count? arg with
  | some n => return n
  | none => fail ("Illegal number: " ++ Bytes.string arg)

/-- Takes arguments away from the front. -/
def shift (args : List (List Char)) : Action Nat := do
  let n ← match args.head? with
    | some arg => numberArg arg
    | none => pure 1
  if (← ofShell State.args).length < n then fail "can\x27t shift that many"
  changeShell fun s => { s with args := s.args.drop n }
  return 0

/-- Turns options on and off and replaces the arguments. -/
def setOptions : List (List Char) → Action Nat
  | [] => return 0
  | ['-', 'o'] :: [] => do
    Switch.list false
    return 0
  | ['+', 'o'] :: [] => do
    Switch.list true
    return 0
  | ['-', 'o'] :: name :: rest => do
    Switch.turnNamed true name
    setOptions rest
  | ['+', 'o'] :: name :: rest => do
    Switch.turnNamed false name
    setOptions rest
  | ['-', '-'] :: rest => do
    changeShell fun s => { s with args := rest }
    return 0
  | arg :: rest => do
    match arg with
    | '-' :: c :: cs =>
      Switch.turnAll true (c :: cs)
      setOptions rest
    | '+' :: c :: cs =>
      Switch.turnAll false (c :: cs)
      setOptions rest
    | _ =>
      changeShell fun s => { s with args := arg :: rest }
      return 0

/-- Goes on to the next option among arguments, those of the script if no others are given. -/
def getopts (args : List (List Char)) : Action Nat := do
  match args with
  | known :: name :: given =>
    let s ← ofShell id
    let (found, index, offset) :=
      OptionWord.next known (if given.isEmpty then s.args else given) s.optionPlace
    let silent := known.head? == some ':'
    let argument := "OPTARG".toList
    let letter ← match found with
      | .nothing => pure '?'
      | .option letter value => do
        give argument value
        pure letter
      | .unknown letter => do
        if silent then give argument [letter]
        else
          complain (Bytes.ofString "Illegal option -" ++ [letter])
          change fun m => m.forget argument
        pure '?'
      | .incomplete letter => do
        if silent then give argument [letter]
        else
          complain (Bytes.ofString "No arg for -" ++ letter :: Bytes.ofString " option")
          change fun m => m.forget argument
        pure (if silent then ':' else '?')
    give "OPTIND".toList (Text.digits index)
    changeShell fun s => { s with optionPlace := (index, offset) }
    needName name
    give name [letter]
    return if found = .nothing then 1 else 0
  | _ => fail "usage: getopts optstring var [arg]"

/-- The number of a signal by its number or name. -/
def signal? (s : List Char) : Option Nat :=
  match Tool.count? s with
  | some n => some n
  | none =>
    let name := (Bytes.string s).toUpper
    signalNames.idxOf? (if name.startsWith "SIG" then String.ofList (name.toList.drop 3) else name)

/-- A program in the background after one of them was ended by a signal. -/
def stopChild (pid now signal : Nat) (c : Child) : Child :=
  if c.pid = pid then ⟨pid, some (min now (c.finish.getD now)), 128 + signal⟩ else c

/-- Sends a signal to programs. Of all programs only this one and those in its background are
known. -/
def sendTo (signal : Nat) (targets : List (List Char)) : Action Nat := do
  let mut status := 0
  for target in targets do
    let m ← get
    let target := if target.head? = some '-' then target.tail else target
    match Tool.count? target with
    | none =>
      report ("Illegal number: " ++ Bytes.string target)
      status := 2
    | some pid =>
      if pid = m.pid then
        if signal != 0 then
          let _ ← takeSignal signal
      else if m.children.any fun c => c.pid == pid then
        if signal != 0 then
          set { m with children := m.children.map (stopChild pid m.clock signal) }
      else
        report "No such process\n"
        status := 1
  return status

/-- How the command that sends signals is used. -/
def killUsage : String :=
  "Usage: kill [-s sigspec | -signum | -sigspec] [pid | job]... or\n" ++
    "kill -l [exitstatus]"

/-- The names of the real-time signals, which have numbers from 32 on. -/
def realTimeNames : List String :=
  ["32", "33", "RTMIN"] ++ (List.range 15).map (fun i => "RTMIN+" ++ toString (i + 1)) ++
    (List.range 14).map (fun i => "RTMAX-" ++ toString (14 - i)) ++ ["RTMAX"]

/-- Prints the name of a signal, which may be given as the status of a program that it ended. -/
def nameSignal (number : List Char) : Action Nat := do
  let n ← numberArg number
  let n := if n > 128 then n - 128 else n
  match (signalNames ++ realTimeNames)[n]? with
  | some name => sayLines [name.toList]
  | none => fail ("invalid signal number or exit status: " ++ Bytes.string number)

/-- Sends the signal that its arguments name. -/
def kill (args : List (List Char)) : Action Nat := do
  match args with
  | [] => fail killUsage
  | ['-', 'l'] :: [] => sayLines (("0" :: signalNames.tail ++ realTimeNames).map String.toList)
  | ['-', 'l'] :: number :: _ => nameSignal number
  | ['-', 's'] :: name :: targets =>
    match signal? name with
    | some n => sendTo n targets
    | none => fail ("invalid signal number or name: " ++ Bytes.string name)
  | ('-' :: name) :: targets =>
    match signal? name with
    | some n => sendTo n targets
    | none => fail ("Illegal option -" ++ Bytes.string (name.take 1))
  | targets => sendTo 15 targets

/-- Tells what signals start. -/
def listTraps : Action Nat := do
  let traps := (← ofShell State.traps).mergeSort fun a b => a.1 ≤ b.1
  sayLines (traps.map fun t =>
    Bytes.ofString "trap -- " ++ inQuotes (t.2.length + 1) t.2 ++
      ' ' :: (signalNames.getD t.1 (toString t.1)).toList)

/-- Sets what signals start, or tells it. -/
def trap (args : List (List Char)) : Action Nat := do
  let (_, args) ← readOptions "" args
  match args with
  | [] => listTraps
  | action :: names =>
    let (remove, names) :=
      if names.isEmpty then (true, args)
      else (action == ['-'] || (Tool.count? action).isSome, names)
    let mut status := 0
    for name in names do
      match signal? name with
      | none =>
        report (Bytes.string name ++ ": bad trap")
        status := 1
      | some n =>
        changeShell fun s =>
          let others := s.traps.filter fun t => t.1 != n
          { s with traps := if remove then others else (n, action) :: others }
    return status

/-- Waits for programs in the background. -/
def wait (args : List (List Char)) : Action Nat := do
  let (_, args) ← readOptions "" args
  let m ← get
  let waited := if args.isEmpty then m.children
    else m.children.filter fun c => args.contains (Text.digits c.pid)
  let time := waited.foldl (fun t c => max t (c.finish.getD (m.horizon + 1))) m.clock
  let _ ← waitFor time
  if args.isEmpty then return 0
  return (waited.getLast?.map Child.status).getD 127

/-- Prints the usual mask of the modes of new files. -/
def umask (args : List (List Char)) : Action Nat := do
  let (letters, args) ← readOptions "S" args
  if !args.isEmpty then return 0
  sayLines [(if letters.isEmpty then "0022" else "u=rwx,g=rx,o=rx").toList]

/-- What a command of the shell does; none if there is no such command. -/
def run? (name : String) (args : List (List Char)) : Option (Action Nat) :=
  match name with
  | ":" => some (return 0)
  | "true" => some (return 0)
  | "false" => some (return 1)
  | "echo" => some (echo args)
  | "printf" => some (printf args)
  | "read" => some (read args)
  | "cd" => some (cd args)
  | "pwd" => some (pwd args)
  | "export" => some (markNames name Variable.exported Machine.handOn args)
  | "readonly" => some (markNames name Variable.readOnly Machine.protect args)
  | "local" => some (localNames args)
  | "unset" => some (unsetNames args)
  | "shift" => some (shift args)
  | "set" => some (setOptions args)
  | "getopts" => some (getopts args)
  | "kill" => some (kill args)
  | "trap" => some (trap args)
  | "wait" => some (wait args)
  | "umask" => some (umask args)
  | "ulimit" => some (return 0)
  | "jobs" => some (return 0)
  | "fg" => some (fail "No current job")
  | "bg" => some (fail "No current job")
  | "test" => some (Condition.test args)
  | "[" => some (do
      if args.getLast? = some [']'] then Condition.test args.dropLast else fail "missing ]")
  | _ => none

/-- The commands of the shell that keep what is assigned before them and whose failures end it. -/
def special : List String :=
  [":", ".", "break", "continue", "eval", "exec", "exit", "export", "local", "readonly", "return",
    "set", "shift", "times", "trap", "unset"]

/-- The commands whose arguments may be assignments. -/
def assigning : List String := ["export", "local", "readonly"]

/-- The commands that control what runs next or look for programs. -/
def control : List String :=
  [".", "break", "command", "continue", "eval", "exec", "exit", "hash", "return", "type"]

/-- Whether a name is that of a command of the shell. -/
def isOwn (name : String) : Bool := control.contains name || (run? name []).isSome

end Builtin

end StepTrace.Host.Shell

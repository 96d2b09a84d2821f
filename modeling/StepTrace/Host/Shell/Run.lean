import StepTrace.Host.Shell.Arithmetic
import StepTrace.Host.Shell.Builtin
import StepTrace.Host.Shell.Parser

/-!
# Running shell commands

Expansion of words, redirections, and commands of every form. The functions call each other and
carry fuel: a program that has used it up is one whose future is not known.
-/

set_option autoImplicit false

namespace StepTrace.Host.Shell

/-- Does something after an action, however the action is left. -/
def afterwards {α : Type} (body : Action α) (last : Action Unit) : Action α := do
  let value ← tryCatch body fun flow => do
    last
    throw flow
  last
  return value

/-- Runs a command of the shell under its name, which messages carry meanwhile. -/
def underName {α : Type} (name : List Char) (body : Action α) : Action α := do
  let outer ← ofShell State.within
  changeShell fun s => { s with within := name }
  afterwards body (changeShell fun s => { s with within := outer })

/-- Runs a command that the shell survives if it fails. -/
def survive (body : Action Nat) : Action Nat :=
  tryCatch body fun flow =>
    match flow with
    | .failed => return 2
    | flow => throw flow

/-- The status with which a shell ends that an action leaves. -/
def statusOfEnd (body : Action Nat) : Action Nat :=
  tryCatch body fun flow =>
    match flow with
    | .exit status => return status
    | .back status => return status
    | .failed => return 2
    | .leave _ => return 0
    | .again _ => return 0
    | flow => throw flow

/-- How a program that runs beside others comes out. -/
inductive Ending where
  | finished (status : Nat)
  | killed (signal : Nat)
  | unknown
  deriving DecidableEq, Repr, Inhabited

/-- Runs an action in a copy of the shell. -/
def beside (body : Action Nat) : Action Ending := do
  let m ← get
  -- of the traps a copy keeps only those that pass signals over
  let ignored := m.shell.traps.filter fun t => t.2.isEmpty
  set { m with
    held := m.shell.descriptors :: m.shell.saved :: m.held
    shell := { m.shell with traps := ignored } }
  let ending ← tryCatch (do return .finished (← statusOfEnd body)) fun flow =>
    match flow with
    | .killed signal => return .killed signal
    | _ => return .unknown
  change fun now => { now with shell := m.shell, held := m.held, pid := m.pid }.seeClosed
  return ending

/-- Runs an action in a subshell. What kills the subshell kills the shell. -/
def inSubshell (body : Action Nat) : Action Nat := do
  match ← beside body with
  | .finished status => return status
  | .killed signal => throw (.killed signal)
  | .unknown => throw .waiting

/-- Takes the signals that a program has taken which was waited for meanwhile. -/
def takeSignals : List (Nat × Nat) → Action Unit
  | [] => return
  | (_, signal) :: rest => do
    let _ ← takeSignal signal
    takeSignals rest

/-- Runs an action as a program of its own, which a signal may end alone. -/
def asProgram (body : Action Nat) : Action Nat := do
  let m ← get
  let ending ← beside do
    change fun m => { m with pid := m.pid + 1 }
    body
  -- signals that the program took meanwhile came to this one too
  let taken := m.signals.length - (← get).signals.length
  takeSignals (m.signals.take taken)
  match ending with
  | .finished status => return status
  | .killed signal => return 128 + signal
  | .unknown => throw .waiting

/-- Records the status of a command; a failure that is not tested may end the shell. -/
def settle (tested : Bool) (status : Nat) : Action Nat := do
  changeShell fun s => { s with status := status }
  if status != 0 && !tested && (← ofShell State.options).contains 'e' then throw (.exit status)
  return status

/-- The value of a parameter that is not a list. -/
def parameter? (name : List Char) : Action (Option (List Char)) := do
  let m ← get
  match String.ofList name with
  | "#" => return some (Text.digits m.shell.args.length)
  | "?" => return some (Text.digits m.shell.status)
  | "$" => return some (Text.digits m.pid)
  | "!" => return m.shell.lastChild.map Text.digits
  | "-" => return some (Switch.inForce m.shell.options)
  | "0" => return some m.shell.name
  | "@" => return some (List.intercalate [' '] m.shell.args)
  | "*" => return some (List.intercalate ((← Builtin.separators).take 1) m.shell.args)
  | _ =>
    match Tool.count? name with
    | some n => return m.shell.args[n - 1]?
    | none => return m.valueOf? name

/-- The characters of a value as glyphs. -/
def valueGlyphs (quoted : Bool) (value : List Char) : List Glyph :=
  value.map fun c => if quoted then .quoted c else .value c

/-- The arguments as glyphs, each a field. -/
def argGlyphs (quoted : Bool) (args : List (List Char)) : List Glyph :=
  List.intercalate [.cut] (args.map fun a =>
    if quoted then .quotes :: valueGlyphs true a else valueGlyphs false a)

/-- Whether the status of a word's value is that of a command in it. -/
def runsCommand (parts : List Part) : Bool :=
  parts.any fun p => match p with
    | .output _ => true
    | .double ps => ps.any fun q => match q with
      | .output _ => true
      | _ => false
    | _ => false

/-- The directory that a tilde with a name behind it stands for. -/
def tildeDirectory? (name : List Char) : Action (Option (List Char)) := do
  if name.isEmpty then return (← get).valueOf? "HOME".toList
  return if name = "root".toList then some "/root".toList else none

/-- Parts of a word in which tildes are replaced: at the start and, in an assignment, behind colons;
`start` tells whether the parts stand in such a place. -/
def expandTildes : Nat → Bool → Bool → List Part → Action (List Part)
  | 0, _, _, parts => return parts
  | _ + 1, _, _, [] => return []
  | fuel + 1, assigning, start, .bare text :: rest => do
    let cut := fun (c : Char) => c == '/' || (assigning && c == ':')
    let name := (text.drop 1).takeWhile fun c => !cut c
    let after := text.drop (name.length + 1)
    -- the name has to end within the text
    let whole := !after.isEmpty || rest.isEmpty
    let home ← if start && text.head? == some '~' && whole then tildeDirectory? name
      else pure none
    match home with
    | some home =>
      return .quoted home :: (← expandTildes fuel assigning false (.bare after :: rest))
    | none =>
      let head := text.takeWhile (· != ':')
      match text.drop head.length with
      | ':' :: r =>
        if assigning then
          return .bare (head ++ [':']) :: (← expandTildes fuel assigning true (.bare r :: rest))
        return .bare text :: rest
      | _ => return .bare text :: (← expandTildes fuel assigning false rest)
  | fuel + 1, assigning, _, part :: rest => do
    if assigning then return part :: (← expandTildes fuel assigning false rest)
    return part :: rest

/-- How many parts a word may have once its tildes are replaced. -/
def tildeFuel (parts : List Part) : Nat :=
  parts.foldl (fun n p => match p with
    | .bare text => n + 2 * text.length + 2
    | _ => n + 1) 1

/-- The home directory in the place of a tilde at the start of a word. -/
def expandTilde (parts : List Part) : Action (List Part) :=
  expandTildes (tildeFuel parts) false true parts

/-- What is said of an expression that has no value. -/
def faultMessage (text : List Char) : Fault → String
  | .divisionByZero =>
    "arithmetic expression: division by zero: \x22" ++ Bytes.string text ++ "\x22"
  | .illegalNumber bad => "Illegal number: " ++ Bytes.string bad
  | .expecting what =>
    "arithmetic expression: expecting " ++ what ++ ": \x22" ++ Bytes.string text ++ "\x22"

/-- The value of an expression, after its assignments are done. -/
def calculate (text : List Char) : Action (List Char) := do
  let m ← get
  let lookup := fun name => (m.valueOf? name).getD []
  match (Expression.read text).value lookup false [] with
  | .error fault => fail (faultMessage text fault)
  | .ok (n, assigned) =>
    for (name, value) in assigned.reverse do Builtin.give name (toString value).toList
    return (toString n).toList

/-- The channel of a path that is no file. -/
def device? (path : List Char) : Action (Option Channel) := do
  let m ← get
  match Bytes.string path with
  | "/dev/null" => return some .nothing
  | "/dev/stdin" => return m.channel? 0
  | "/dev/stdout" => return m.channel? 1
  | "/dev/stderr" => return m.channel? 2
  | _ => return none

/-- Opens a file for reading. -/
def openInput (path : List Char) : Action (Option Channel) := do
  match ← device? path with
  | some c => return some c
  | none =>
    match ← fileBytes? path with
    | some bytes =>
      let (id, m) := (← get).addQueue ⟨if bytes.isEmpty then [] else [(0, bytes)], some 0⟩
      set m
      return some (.queue id)
    | none =>
      report ("cannot open " ++ Bytes.string path ++ ": No such file")
      return none

/-- Opens a file for writing, at its end or anew; `fresh` says that it must not be there yet. -/
def openOutput (append fresh : Bool) (path : List Char) : Action (Option Channel) := do
  match ← device? path with
  | some c => return some c
  | none =>
    let m ← get
    let refuse := fun (reason : String) => do
      report ("cannot create " ++ Bytes.string path ++ ": " ++ reason)
      return none
    let old ← entry? path
    if old = some .directory then refuse "Is a directory"
    else if fresh && old.isSome then refuse "File exists"
    else
      let old ← if append then pure ((← fileBytes? path).getD []) else pure []
      if ← Tool.writeFile path old then
        return (m.disk.locate m.shell.directory (Bytes.string path)).map Channel.file
      else refuse "Directory nonexistent"

/-- The paths at which a command may be found by its name. -/
def programPaths (name : List Char) : Action (List (List Char)) := do
  let path := ((← get).valueOf? "PATH".toList).getD []
  return (Text.pieces (· == ':') path).map fun d => if d.isEmpty then name else d ++ '/' :: name

/-- The file of a command by its name, or by its path if it is one. -/
def findProgram (name : List Char) : Action (Option (List Char)) := do
  let m ← get
  if name.contains '/' then return if (← entry? name).isSome then some name else none
  return (← programPaths name).find? fun p => m.disk.isExecutable m.shell.directory (Bytes.string p)

/-- The file of a script by its name. -/
def findSourced (name : List Char) : Action (Option (List Char)) := do
  let m ← get
  return (← programPaths name).find? fun p =>
    match m.disk.find? m.shell.directory (Bytes.string p) with
    | some (.file _ _) => true
    | _ => false

/-- Says that a command is not found, or that what has its name is no program. -/
def reportMissing (name : List Char) : Action Nat := do
  let m ← get
  let there := (← programPaths name).any fun p =>
    (m.disk.find? m.shell.directory (Bytes.string p)).isSome
  report (Bytes.string name ++
    if there && !name.contains '/' then ": Permission denied" else ": not found")
  return 127

/-- The interpreter and its argument that the first line of a script names. -/
def interpreterLine? (bytes : List Char) : Option (List Char × List (List Char)) :=
  match bytes with
  | '#' :: '!' :: r =>
    let blank := fun c => c == ' ' || c == '\t'
    let line := (r.takeWhile (· != '\n')).dropWhile blank
    let line := (line.reverse.dropWhile blank).reverse
    let program := line.takeWhile fun c => !blank c
    let arg := (line.drop program.length).dropWhile blank
    if program.isEmpty then none else some (program, if arg.isEmpty then [] else [arg])
  | _ => none

/-- The variable that a shell takes from an entry of its environment. What stands there before the
first equals sign has to be a name. -/
def fromEnvironment? (v : Variable) : Option Variable := do
  let (name, value) := Builtin.splitAssignment (v.name ++ '=' :: (← v.value))
  if v.exported && isName name then some ⟨name, value, true, false⟩ else none

/-- The variables that a shell has if its environment does not name them. -/
def usualVariables : List Variable :=
  [("PATH", "/usr/local/sbin:/usr/local/bin:/usr/sbin:/usr/bin:/sbin:/bin"), ("PS4", "+ "),
    ("OPTIND", "1")].map fun p => ⟨p.1.toList, some p.2.toList, false, false⟩

/-- The variables of a shell that starts in a directory. -/
def inherited (disk : Disk) (directory : List String) (vars : List Variable) : List Variable :=
  let given := (vars.filterMap fromEnvironment?).filter fun v => v.name != "IFS".toList
  let usual := usualVariables.filter fun v => !given.any fun w => w.name == v.name
  -- the working directory keeps a name that leads there
  let leadsHere := fun (v : Variable) => v.value.any fun path =>
    path.head? == some '/' && disk.locate directory (Bytes.string path) == some directory
  let here := Bytes.ofString (Path.ofNames directory)
  let kept := (given ++ usual).filter fun v => v.name != "PWD".toList || leadsHere v
  if kept.any fun v => v.name == "PWD".toList then kept
  else kept ++ [⟨"PWD".toList, some here, true, false⟩]

/-- The place of a variable among those that are handed on. -/
def handingOrder (v : Variable) : Nat :=
  v.name.foldl (fun n c => n + c.toNat) (16 * (v.name.headD '\x00').toNat) % 39

/-- Makes the shell one that starts. -/
def becomeShell (name : List Char) (args : List (List Char)) : Action Unit := do
  let disk := (← get).disk
  changeShell fun s =>
    { s with
      name := name
      args := args
      vars := inherited disk s.directory s.vars
      functions := []
      saved := []
      status := 0
      lastChild := none
      lastOutput := 0
      loops := 0
      options := []
      traps := s.traps.filter fun t => t.2.isEmpty
      locals := []
      line := 1
      within := []
      optionPlace := (1, none) }

/-- How many functions may be called within one another. -/
def deepestCall : Nat := 1000

/-- Variables of which one is what it was before. -/
def putBack (vars : List Variable) (name : List Char) (old : Option Variable) : List Variable :=
  (vars.filter fun v => v.name != name) ++ old.toList

/-- Puts local variables back to what they were. -/
def restoreLocals (old : List (List Char × Option Variable)) : Action Unit :=
  changeShell fun s =>
    { s with
      vars := old.foldl (fun vs o => putBack vs o.1 o.2) s.vars
      locals := s.locals.tail }

/-- What an assignment has given, and what the variable was before. -/
structure Assigned where
  name : List Char
  value : List Char
  old : Option Variable
  deriving Inhabited

/-- Undoes assignments, the last one first. -/
def takeBack (assigned : List Assigned) : Action Unit :=
  changeShell fun s =>
    { s with vars := assigned.reverse.foldl (fun vs a => putBack vs a.name a.old) s.vars }

/-- The rounds of a loop go on after a break or a jump to the next round, if it was meant for this
loop; the value tells whether there is another round. -/
def oneRound (body : Action Nat) : Action (Option Nat) := do
  let loops ← ofShell State.loops
  changeShell fun s => { s with loops := loops + 1 }
  let round ← tryCatch (do return some (← body)) fun flow =>
    match flow with
    | .leave n => if n ≤ 1 then return none else throw (.leave (n - 1))
    | .again n => if n ≤ 1 then return some 0 else throw (.again (n - 1))
    | flow => throw flow
  changeShell fun s => { s with loops := loops }
  return round

/-- Goes out of some of the loops that there are, or on to their next round. -/
def leaveLoops (way : Nat → Flow) (n : Nat) : Action Nat := do
  let loops ← ofShell State.loops
  if loops = 0 then return 0 else throw (way (min n loops))

/-- Reads the commands of a text without running them. -/
def checkText (c : Cursor) : Action Nat := do
  match firstFault c (c.rest.length + 2) with
  | some (line, text) =>
    changeShell fun s => { s with line := line }
    report text
    return 2
  | none => return 0

mutual

/-- The glyphs of parts of a word; `inner` if they stand in an expansion. -/
def partGlyphs : Nat → Bool → Bool → List Part → Action (List Glyph)
  | 0, _, _, _ => throw .waiting
  | _ + 1, _, _, [] => return []
  | fuel + 1, quoted, inner, part :: rest => do
    let glyphs ← match part with
      | .bare text => pure (text.map fun c => if inner then Glyph.value c else .bare c)
      | .quoted text => pure (.quotes :: text.map Glyph.quoted)
      | .double [.parameter ['@'] .value []] => do
        pure (argGlyphs true (← ofShell State.args))
      | .double parts => do pure (.quotes :: (← partGlyphs fuel true inner parts))
      | .parameter name modifier word => parameterGlyphs fuel quoted name modifier word
      | .output body => do pure (valueGlyphs quoted (← outputOf fuel body))
      | .arithmetic parts => do
        let text := Field.text (Field.whole (← partGlyphs fuel true false parts))
        pure (valueGlyphs quoted (← calculate text))
    return glyphs ++ (← partGlyphs fuel quoted inner rest)

/-- The glyphs of a parameter with a modifier and its word. -/
def parameterGlyphs : Nat → Bool → List Char → Modifier → List Part → Action (List Glyph)
  | 0, _, _, _, _ => throw .waiting
  | fuel + 1, quoted, name, modifier, word => do
    if modifier = .wrong then fail "Bad substitution"
    let isPattern := match modifier with
      | .dropStart _ => true
      | .dropEnd _ => true
      | _ => false
    let word ← if isPattern || !quoted then expandTilde word else pure word
    let value ← parameter? name
    let isList := name = ['@'] ∨ (name = ['*'] ∧ quoted = false)
    let known := fun (orEmpty : Bool) => match value with
      | none => false
      | some v => !(orEmpty && v.isEmpty)
    let shown := valueGlyphs quoted (value.getD [])
    let needValue : Action Unit := do
      if value.isNone && !isList && (← ofShell State.options).contains 'u' then
        fail (Bytes.string name ++ ": parameter not set")
    match modifier with
    | .wrong => return []
    | .value =>
      needValue
      if isList then return argGlyphs quoted (← ofShell State.args)
      return shown
    | .length =>
      needValue
      return valueGlyphs quoted (Text.digits (value.getD []).length)
    | .default orEmpty =>
      if known orEmpty then return shown else partGlyphs fuel quoted (!quoted) word
    | .alternative orEmpty =>
      if known orEmpty then partGlyphs fuel quoted (!quoted) word else return []
    | .assign orEmpty =>
      if known orEmpty then return shown
      let text := Field.text (Field.whole (← partGlyphs fuel quoted (!quoted) word))
      Builtin.give name text
      return valueGlyphs quoted text
    | .complain orEmpty =>
      if known orEmpty then return shown
      let text := Field.text (Field.whole (← partGlyphs fuel quoted (!quoted) word))
      let reason :=
        if !word.isEmpty then Bytes.string text
        else if orEmpty then "parameter not set or null"
        else "parameter not set"
      fail (Bytes.string name ++ ": " ++ reason)
    | .dropStart longest =>
      needValue
      let pattern := Pattern.ofMarked (Field.whole (← partGlyphs fuel false false word))
      return valueGlyphs quoted (Pattern.dropHead longest pattern (value.getD []))
    | .dropEnd longest =>
      needValue
      let pattern := Pattern.ofMarked (Field.whole (← partGlyphs fuel false false word))
      return valueGlyphs quoted (Pattern.dropTail longest pattern (value.getD []))

/-- The output of commands without the line feeds at its end. -/
def outputOf : Nat → List Command → Action (List Char)
  | 0, _ => throw .waiting
  | fuel + 1, body => do
    let (id, m) := (← get).addQueue ⟨[], none⟩
    set m
    let status ← inSubshell do
      change fun m => m.redirect 1 (some (.queue id))
      toTheEnd fuel (runAll fuel false body)
    changeShell fun s => { s with lastOutput := status }
    -- null bytes and the line feeds at the end get lost
    let written := ((← get).queues.getD id default).items.flatMap Prod.snd
    return ((written.filter (· != '\x00')).reverse.dropWhile (· == '\n')).reverse

/-- The value that an assignment gives. -/
def valueText : Nat → List Part → Action (List Char)
  | 0, _ => throw .waiting
  | fuel + 1, parts => do
    let parts ← expandTildes (tildeFuel parts) true true parts
    return Field.text (Field.whole (← partGlyphs fuel false false parts))

/-- The text of a word where it is not cut into fields. -/
def wordText : Nat → List Part → Action (List Char)
  | 0, _ => throw .waiting
  | fuel + 1, parts => do
    return Field.text (Field.whole (← partGlyphs fuel false false (← expandTilde parts)))

/-- The fields of some words. -/
def wordFields : Nat → List (List Part) → Action (List (List Char))
  | 0, _ => throw .waiting
  | _ + 1, [] => return []
  | fuel + 1, parts :: rest => do
    let glyphs ← partGlyphs fuel false false (← expandTilde parts)
    let fields := Field.split (← Builtin.separators) glyphs
    let m ← get
    let spread := if m.shell.options.contains 'f' then fields.map Field.text
      else fields.flatMap (Field.spread m.disk m.shell.directory)
    return spread ++ (← wordFields fuel rest)

/-- The fields of the words of a command; arguments of some commands are assignments. -/
def commandFields : Nat → List (List Part) → Action (List (List Char))
  | 0, _ => throw .waiting
  | _ + 1, [] => return []
  | fuel + 1, parts :: rest => do
    let fields ← wordFields fuel [parts]
    match fields.head? with
    | none => commandFields fuel rest
    | some name =>
      let text := Bytes.string name
      if Builtin.assigning.contains text then return fields ++ (← assigningFields fuel rest)
      if text = "command" then return fields ++ (← commandFields fuel rest)
      return fields ++ (← wordFields fuel rest)

/-- The fields of words of which those that are assignments are not cut. -/
def assigningFields : Nat → List (List Part) → Action (List (List Char))
  | 0, _ => throw .waiting
  | _ + 1, [] => return []
  | fuel + 1, parts :: rest => do
    let fields ← match readAssignment parts with
      | some (name, value) => do pure [name ++ '=' :: (← valueText fuel value)]
      | none => wordFields fuel [parts]
    return fields ++ (← assigningFields fuel rest)

/-- Carries a redirection out; tells whether that was possible. -/
def redirectOne : Nat → Redirect → Action Bool
  | 0, _ => throw .waiting
  | fuel + 1, .mk descriptor kind word => do
    let target : Option (Option Channel) ← match kind with
      | .here => do
        let text := Field.text (Field.whole (← partGlyphs fuel true false word))
        let (id, m) := (← get).addQueue ⟨if text.isEmpty then [] else [(0, text)], some 0⟩
        set m
        pure (some (some (.queue id)))
      | .copy => do
        let text ← wordText fuel word
        if text = ['-'] then pure (some none)
        else
          let m ← get
          match (Tool.count? text).bind m.channel? with
          | some c => pure (some (some c))
          | none =>
            report (Bytes.string text ++ ": Bad file descriptor")
            pure none
      | .input => do pure ((← openInput (← wordText fuel word)).map some)
      | .append => do pure ((← openOutput true false (← wordText fuel word)).map some)
      | .both => do pure ((← openOutput true false (← wordText fuel word)).map some)
      | .overwrite => do pure ((← openOutput false false (← wordText fuel word)).map some)
      | .output => do
        let fresh := (← ofShell State.options).contains 'C'
        pure ((← openOutput false fresh (← wordText fuel word)).map some)
    match target with
    | none => return false
    | some c =>
      change fun m => m.redirect descriptor c
      return true

/-- Carries redirections out, up to the first that is not possible. -/
def redirectAll : Nat → List Redirect → Action Bool
  | 0, _ => throw .waiting
  | _ + 1, [] => return true
  | fuel + 1, r :: rest => do
    if ← redirectOne fuel r then redirectAll fuel rest else return false

/-- Runs an action with redirections, which are undone after it; `refused` is what happens if they
are not possible. -/
def redirected : Nat → List Redirect → Action Nat → Action Nat → Action Nat
  | 0, _, _, _ => throw .waiting
  | fuel + 1, redirects, refused, body => do
    if redirects.isEmpty then body
    else
      let m ← get
      let old := redirects.map fun r => match r with
        | .mk descriptor _ _ => (descriptor, m.channel? descriptor)
      let kept := old.filterMap fun o => o.2.map fun c => (o.1, c)
      changeShell fun s => { s with saved := kept ++ s.saved }
      afterwards (do if ← redirectAll fuel redirects then body else refused) do
        change fun now =>
          let now := old.foldl (fun now o => now.redirect o.1 o.2) now
          { now with shell := { now.shell with saved := m.shell.saved } }.seeClosed

/-- Runs commands one after the other. -/
def runAll : Nat → Bool → List Command → Action Nat
  | 0, _, _ => throw .waiting
  | _ + 1, _, [] => return 0
  | fuel + 1, tested, [command] => runCommand fuel tested command
  | fuel + 1, tested, command :: rest => do
    let _ ← runCommand fuel tested command
    runAll fuel tested rest

/-- Runs a command. -/
def runCommand : Nat → Bool → Command → Action Nat
  | 0, _, _ => throw .waiting
  | fuel + 1, tested, command => do
    if (← ofShell State.options).contains 'n' then return 0
    match command with
    | .simple line assignments words redirects =>
      changeShell fun s => { s with line := line }
      let status ← runSimple fuel tested assignments words redirects
      let status ← settle tested status
      runDue fuel
      return status
    | .both first second =>
      let status ← runCommand fuel true first
      if status = 0 then runCommand fuel tested second else return status
    | .either first second =>
      let status ← runCommand fuel true first
      if status = 0 then return status else runCommand fuel tested second
    | .pipe negated stages =>
      let status ← match stages with
        | [stage] => runCommand fuel (tested || negated) stage
        | stages => do
          let m ← get
          runStages fuel (m.clock, m.signals) none stages
      if negated then settle true (if status = 0 then 1 else 0) else settle tested status
    | .background body => do
      let m ← get
      let pid := m.pid + m.children.length + 1
      let ending ← beside do
        change fun m => m.redirect 0 (some .nothing)
        toTheEnd fuel (runCommand fuel true body)
      let now ← get
      let child : Child := match ending with
        | .finished status => ⟨pid, some now.clock, status⟩
        | .killed signal => ⟨pid, some now.clock, 128 + signal⟩
        | .unknown => ⟨pid, none, 0⟩
      -- the shell goes on at the time at which the commands began
      change fun now => { now with
        clock := m.clock
        signals := m.signals
        children := now.children ++ [child]
        shell := { now.shell with lastChild := some pid } }
      settle tested 0
    | .group body => runAll fuel tested body
    | .subshell body => do
      let status ← inSubshell (toTheEnd fuel (runAll fuel tested body))
      settle tested status
    | .branch test body orelse =>
      let status ← runAll fuel true test
      if status = 0 then runAll fuel tested body
      else if orelse.isEmpty then settle true 0
      else runAll fuel tested orelse
    | .loop untilTrue test body => runLoop fuel tested untilTrue test body 0
    | .each name words body =>
      let values ← match words with
        | some words => wordFields fuel words
        | none => ofShell State.args
      runEach fuel tested name body values 0
    | .choose word arms =>
      let text ← wordText fuel word
      runArms fuel tested text arms
    | .define name body =>
      changeShell fun s =>
        { s with functions := (name, body) :: s.functions.filter fun f => f.1 != name }
      settle true 0
    | .at line body => do
      changeShell fun s => { s with line := line }
      runCommand fuel tested body
    | .redirected body redirects =>
      let status ← redirected fuel redirects (return 2) (runCommand fuel tested body)
      settle true status

/-- Runs the commands of traps that are due. -/
def runDue : Nat → Action Unit
  | 0 => throw .waiting
  | fuel + 1 => do
    match (← get).due with
    | [] => return
    | action :: rest =>
      change fun m => { m with due := rest }
      let status ← ofShell State.status
      let _ ← runText fuel 0 (.start action 1 true)
      changeShell fun s => { s with status := status }
      runDue fuel

/-- Runs the stages of a pipeline from the same time on, with the same signals to come, each with
the output of the one before. -/
def runStages : Nat → Nat × List (Nat × Nat) → Option Channel → List Command → Action Nat
  | 0, _, _, _ => throw .waiting
  | _ + 1, _, _, [] => return 0
  | fuel + 1, start, input, stage :: rest => do
    let (id, m) := (← get).addQueue ⟨[], none⟩
    if !rest.isEmpty then set m
    let ending ← beside do
      if input.isSome then change fun m => m.redirect 0 input
      if !rest.isEmpty then change fun m => m.redirect 1 (some (.queue id))
      toTheEnd fuel (runCommand fuel true stage)
    let finish := (← get).clock
    if rest.isEmpty then
      match ending with
      | .finished status => return status
      | .killed signal => throw (.killed signal)
      | .unknown => throw .waiting
    else
      if ending != .unknown then
        change fun m =>
          let q := m.queues.getD id default
          m.setQueue id { q with ended := some finish }
      -- the next stage begins at the same time as this one
      change fun m => { m with clock := start.1, signals := start.2 }
      let status ← runStages fuel start (some (.queue id)) rest
      -- a pipeline ends with the last of its stages
      let _ ← waitFor (max finish (← get).clock)
      match ending with
      | .finished _ => return status
      | .killed signal => throw (.killed signal)
      | .unknown => throw .waiting

/-- Runs a loop while its test has the wanted outcome. -/
def runLoop : Nat → Bool → Bool → List Command → List Command → Nat → Action Nat
  | 0, _, _, _, _, _ => throw .waiting
  | fuel + 1, tested, untilTrue, test, body, last => do
    let round ← oneRound do
      let status ← runAll fuel true test
      -- the test ends the loop
      if (status == 0) == untilTrue then throw (.leave 0)
      runAll fuel tested body
    match round with
    | some status => runLoop fuel tested untilTrue test body status
    | none => settle true last

/-- Runs the body of a loop for each value. -/
def runEach : Nat → Bool → List Char → List Command → List (List Char) → Nat → Action Nat
  | 0, _, _, _, _, _ => throw .waiting
  | _ + 1, _, _, _, [], last => settle true last
  | fuel + 1, tested, name, body, value :: rest, _ => do
    Builtin.give name value
    match ← oneRound (runAll fuel tested body) with
    | some status => runEach fuel tested name body rest status
    | none => settle true 0

/-- Runs the first arm with a pattern that matches a text. -/
def runArms : Nat → Bool → List Char → List (List (List Part) × List Command) → Action Nat
  | 0, _, _, _ => throw .waiting
  | _ + 1, _, _, [] => settle true 0
  | fuel + 1, tested, text, (patterns, body) :: rest => do
    if ← anyMatch fuel text patterns then
      if body.isEmpty then settle true 0 else runAll fuel tested body
    else runArms fuel tested text rest

/-- Whether one of some patterns matches a text. -/
def anyMatch : Nat → List Char → List (List Part) → Action Bool
  | 0, _, _ => throw .waiting
  | _ + 1, _, [] => return false
  | fuel + 1, text, parts :: rest => do
    let pattern := Field.whole (← partGlyphs fuel false false (← expandTilde parts))
    if Pattern.isMatch (Pattern.ofMarked pattern) text then return true
    anyMatch fuel text rest

/-- Carries assignments out; what they give, and what the variables were before. -/
def assignAll : Nat → List (List Char × List Part) → Action (List Assigned)
  | 0, _ => throw .waiting
  | _ + 1, [] => return []
  | fuel + 1, (name, parts) :: rest => do
    let value ← valueText fuel parts
    let old := (← get).lookup? name
    Builtin.give name value
    return ⟨name, value, old⟩ :: (← assignAll fuel rest)

/-- What commands that are shown begin with. -/
def showingMark : Nat → Action (List Char)
  | 0 => throw .waiting
  | fuel + 1 => do
    match (← get).valueOf? "PS4".toList with
    | none => return []
    | some text =>
      match readParts (readingFuel text) .here 0 (.start text 1 true) with
      | .ok (parts, _) => return Field.text (Field.whole (← partGlyphs fuel true false parts))
      | .error _ => return text

/-- Shows a command where messages went before its redirections, if commands are to be shown. -/
def showCommand : Nat → Option Channel → List Assigned → List (List Char) → Action Unit
  | 0, _, _, _ => throw .waiting
  | fuel + 1, stream, assigned, words => do
    if (← ofShell State.options).contains 'x' then
      let mark ← showingMark fuel
      let shown := assigned.map (fun a => a.name ++ '=' :: a.value) ++ words
      match stream with
      | some c => change fun m => m.writeTo c (mark ++ List.intercalate [' '] shown ++ ['\n'])
      | none => return

/-- Runs a command of assignments, words and redirections. -/
def runSimple : Nat → Bool → List (List Char × List Part) → List (List Part) → List Redirect →
    Action Nat
  | 0, _, _, _, _ => throw .waiting
  | fuel + 1, tested, assignments, words, redirects => do
    let fields ← commandFields fuel words
    let stream := (← get).channel? 2
    match fields with
    | [] =>
      redirected fuel redirects (return 2) do
        let assigned ← assignAll fuel assignments
        showCommand fuel stream assigned []
        let runs := words.any runsCommand || assignments.any fun a => runsCommand a.2
        if runs then ofShell State.lastOutput else return 0
    | name :: args =>
      let text := Bytes.string name
      let isFunction := (← get).shell.functions.any fun f => f.1 == name
      -- assignments before a special command stay
      if Builtin.special.contains text && !isFunction then
        let run : Action Nat := do
          let assigned ← assignAll fuel assignments
          showCommand fuel stream assigned fields
          runOwn fuel tested true name args
        if text = "exec" then
          if !(← redirectAll fuel redirects) then throw .failed
          change Machine.seeClosed
          run
        else redirected fuel redirects (throw .failed) run
      else
        redirected fuel redirects (return 2) do
          let assigned ← assignAll fuel assignments
          showCommand fuel stream assigned fields
          -- assignments before any other command hold while it runs
          for a in assigned do change fun m => m.handOn a.name
          afterwards (runNamed fuel tested name args) (takeBack assigned)

/-- Runs the function, the command of the shell or the program with a name. -/
def runNamed : Nat → Bool → List Char → List (List Char) → Action Nat
  | 0, _, _, _ => throw .waiting
  | fuel + 1, tested, name, args => do
    match (← get).shell.functions.find? fun f => f.1 == name with
    | some (_, body) => callFunction fuel tested body args
    | none => runOwn fuel tested true name args

/-- Runs the command of the shell or the program with a name; `mayEnd` says that the failure of a
special command ends the shell. -/
def runOwn : Nat → Bool → Bool → List Char → List (List Char) → Action Nat
  | 0, _, _, _, _ => throw .waiting
  | fuel + 1, tested, mayEnd, name, args => do
    let text := Bytes.string name
    let fatal := mayEnd && Builtin.special.contains text
    let own := fun (action : Action Nat) =>
      underName name (if fatal then action else survive action)
    if text = "command" then runChosen fuel tested args
    else if Builtin.control.contains text then own (runControl fuel text args)
    else
      match Builtin.run? text args with
      | some action => own action
      | none => runProgram fuel name args

/-- Runs a command that is no function, or tells what a name stands for. -/
def runChosen : Nat → Bool → List (List Char) → Action Nat
  | 0, _, _ => throw .waiting
  | fuel + 1, tested, args => do
    let (letters, words) ← underName "command".toList (Builtin.readOptions "pvV" args)
    match words with
    | [] => return 0
    | name :: args =>
      if letters.contains 'V' then tellKinds fuel [name]
      else if letters.contains 'v' then
        let text := Bytes.string name
        let functions ← ofShell State.functions
        let known := keywords.contains text || Builtin.isOwn text ||
          functions.any fun f => f.1 == name
        let found ← if known then pure (some name) else findProgram name
        match found with
        | some path => Builtin.sayLines [path]
        | none => return 127
      else runOwn fuel tested false name args

/-- Runs a function with arguments of its own. -/
def callFunction : Nat → Bool → Command → List (List Char) → Action Nat
  | 0, _, _, _ => throw .waiting
  | fuel + 1, tested, body, args => do
    let outer ← ofShell id
    if outer.locals.length ≥ deepestCall then
      fail ("Maximum function recursion depth (" ++ toString deepestCall ++ ") reached")
    changeShell fun s =>
      { s with args := args, locals := [] :: s.locals, loops := 0, optionPlace := (1, none) }
    afterwards (tryCatch (runCommand fuel tested body) fun flow =>
      match flow with
      | .back status => return status
      | flow => throw flow) do
      restoreLocals ((← ofShell State.locals).headD [])
      changeShell fun s =>
        { s with args := outer.args, loops := outer.loops, optionPlace := outer.optionPlace }

/-- Runs a command of the shell that controls what runs next. -/
def runControl : Nat → String → List (List Char) → Action Nat
  | 0, _, _ => throw .waiting
  | fuel + 1, name, args => do
    let status ← ofShell State.status
    let number : Nat → Action Nat := fun usual => match args with
      | arg :: _ => Builtin.numberArg arg
      | [] => return usual
    let loops : Action Nat := do
      match ← number 1 with
      | 0 => fail "Illegal number: 0"
      | n => return n
    match name with
    | "exit" => throw (.exit ((← number status) % 256))
    | "return" => throw (.back ((← number status) % 256))
    | "break" => leaveLoops .leave (← loops)
    | "continue" => leaveLoops .again (← loops)
    | "eval" => runText fuel 0 (.start (List.intercalate [' '] args) 1 true)
    | "type" => tellKinds fuel args
    | "hash" => remember fuel (← Builtin.readOptions "r" args).2
    | "exec" =>
      match args with
      | [] => return 0
      | program :: args => runInstead fuel program args
    | "." => runSourced fuel (← Builtin.readOptions "" args).2
    | _ => return 0

/-- Looks programs up for later. -/
def remember : Nat → List (List Char) → Action Nat
  | 0, _ => throw .waiting
  | _ + 1, [] => return 0
  | fuel + 1, name :: rest => do
    if Builtin.isOwn (Bytes.string name) || (← findProgram name).isSome then remember fuel rest
    else
      report (Bytes.string name ++ ": not found")
      let _ ← remember fuel rest
      return 1

/-- Runs a script as a part of this one. -/
def runSourced : Nat → List (List Char) → Action Nat
  | 0, _ => throw .waiting
  | _ + 1, [] => return 0
  | fuel + 1, path :: _ => do
    let found ← if path.contains '/' then pure (some path) else findSourced path
    match ← (match found with
      | some p => fileBytes? p
      | none => return none) with
    | some bytes =>
      changeShell fun s => { s with within := found.getD path }
      tryCatch (runText fuel 0 (.start bytes 1 true)) fun flow =>
        match flow with
        | .back status => return status
        | flow => throw flow
    | none =>
      fail (if path.contains '/' then "cannot open " ++ Bytes.string path ++ ": No such file"
        else Bytes.string path ++ ": not found")

/-- Prints what some names stand for. -/
def tellKinds : Nat → List (List Char) → Action Nat
  | 0, _ => throw .waiting
  | _ + 1, [] => return 0
  | fuel + 1, name :: rest => do
    let text := Bytes.string name
    let functions ← ofShell State.functions
    let kind ←
      if keywords.contains text then pure (some " is a shell keyword")
      else if functions.any fun f => f.1 == name then pure (some " is a shell function")
      else if Builtin.special.contains text then pure (some " is a special shell builtin")
      else if Builtin.isOwn text then pure (some " is a shell builtin")
      else (findProgram name).map fun p? => p?.map fun p => " is " ++ Bytes.string p
    let _ ← Builtin.sayLines [name ++ Bytes.ofString (kind.getD ": not found")]
    let status ← tellKinds fuel rest
    return if kind.isSome then status else 127

/-- Runs a program as one of its own. -/
def runProgram : Nat → List Char → List (List Char) → Action Nat
  | 0, _, _ => throw .waiting
  | fuel + 1, name, args => do
    match ← findProgram name with
    | none => reportMissing name
    | some path =>
      let m ← get
      if m.disk.isExecutable m.shell.directory (Bytes.string path) then
        asProgram do
          changeShell fun s =>
            { s with vars := s.vars.mergeSort fun a b => handingOrder a ≤ handingOrder b }
          runFile fuel name path args
      else
        report (Bytes.string name ++ ": Permission denied")
        return 126

/-- Runs a program in the place of this one. -/
def runInstead : Nat → List Char → List (List Char) → Action Nat
  | 0, _, _ => throw .waiting
  | fuel + 1, name, args => do
    match ← findProgram name with
    | none =>
      report (Bytes.string name ++ ": not found")
      throw (.exit 127)
    | some path =>
      let m ← get
      if m.disk.isExecutable m.shell.directory (Bytes.string path) then
        changeShell fun s => { s with saved := [] }
        change Machine.seeClosed
        throw (.exit (← runFile fuel name path args))
      else
        report (Bytes.string name ++ ": Permission denied")
        throw (.exit 126)

/-- Runs what is in a file, under the name that it is called by. -/
def runFile : Nat → List Char → List Char → List (List Char) → Action Nat
  | 0, _, _, _ => throw .waiting
  | fuel + 1, name, path, args => do
    match ← entry? path with
    | some (.file (.tool "sh") _) => runShell fuel name args
    | some (.file (.tool "env") _) => runEnv fuel args
    | some (.file (.tool name) _) => (Tool.run? name args).getD (return 127)
    | some (.file (.data bytes) _) =>
      match interpreterLine? bytes with
      | some (interpreter, extra) => runFile fuel interpreter interpreter (extra ++ path :: args)
      -- a file without an interpreter line is a script of the shell
      | none => runShell fuel path (path :: args)
    | _ =>
      report (Bytes.string path ++ ": not found")
      return 127

/-- Runs a program with some more variables, or prints those that there are. -/
def runEnv : Nat → List (List Char) → Action Nat
  | 0, _ => throw .waiting
  | fuel + 1, args => do
    match args with
    | ['-', 'i'] :: rest =>
      changeShell fun s => { s with vars := [] }
      runEnv fuel rest
    | arg :: rest =>
      match Builtin.splitAssignment arg with
      | (name, some value) =>
        change fun m => (m.assign name value).handOn name
        runEnv fuel rest
      | (_, none) =>
        match ← findProgram arg with
        | some path => runFile fuel arg path rest
        | none =>
          Tool.blame "env" (Tool.quoted arg ++ Bytes.ofString ": No such file or directory")
          return 127
    | [] =>
      Tool.printLines (((← get).shell.vars.filter Variable.exported).filterMap fun v =>
        v.value.map fun value => v.name ++ '=' :: value)
      return 0

/-- Runs a shell with arguments: options, then a script with its own, or commands. -/
def runShell : Nat → List Char → List (List Char) → Action Nat
  | 0, _, _ => throw .waiting
  | fuel + 1, name, args => do
    let (letters, operands) := Tool.options args
    becomeShell name operands
    let fromInput := !letters.contains 'c' && (letters.contains 's' || operands.isEmpty)
    let options := letters.filter fun c => c != 'c' && c != 's'
    changeShell fun s => { s with options := if fromInput then 's' :: options else options }
    let body : Action Nat := do
      if let some bad := options.find? fun c => !Switch.letters.contains c then
        complain (name ++ Bytes.ofString ": 0: Illegal option -" ++ [bad])
        return 2
      else if letters.contains 'c' then
        match operands with
        | text :: rest =>
          changeShell fun s => { s with name := rest.headD name, args := rest.tail }
          runText fuel 0 (.start text 1 true)
        | [] =>
          complain (name ++ Bytes.ofString ": 0: -c requires an argument")
          return 2
      else
        match if letters.contains 's' then none else operands.head? with
        | some path =>
          changeShell fun s => { s with name := path, args := operands.tail }
          match ← fileBytes? path with
          | some bytes =>
            if letters.contains 'n' then checkText (.start bytes 1 true)
            else runText fuel 0 (.start bytes 1 true)
          | none =>
            complain (name ++ Bytes.ofString ": 0: cannot open " ++ path ++
              Bytes.ofString ": No such file")
            return 2
        | none =>
          if letters.contains 'n' then do checkText (.start (← slurp 0) 1 true)
          else runInput fuel (.start [] 1 false)
    toTheEnd fuel body

/-- Runs an action to the end of the shell, and then the command of the trap for it, whose own
status does not count. -/
def toTheEnd : Nat → Action Nat → Action Nat
  | 0, _ => throw .waiting
  | fuel + 1, body => do
    let status ← statusOfEnd body
    match (← ofShell State.traps).find? fun t => t.1 == 0 with
    | some (_, action) =>
      changeShell fun s => { s with traps := s.traps.filter fun t => t.1 != 0, status := status }
      statusOfEnd do
        let _ ← runText fuel 0 (.start action 1 true)
        return status
    | none => return status

/-- Runs the commands of a text; `last` is the status if there are none. -/
def runText : Nat → Nat → Cursor → Action Nat
  | 0, _, _ => throw .waiting
  | fuel + 1, last, c => do
    match nextCommand c with
    | .ok none => return last
    | .ok (some (commands, c)) =>
      let status ← runAll fuel false commands
      runText fuel status c
    | .error (.wrong line text) =>
      changeShell fun s => { s with line := line }
      fail text
    | .error .more => return 0

/-- Runs the commands that are read from the input as they come. -/
def runInput : Nat → Cursor → Action Nat
  | 0, _ => throw .waiting
  | fuel + 1, c => do
    match nextCommand c with
    | .ok none => ofShell State.status
    | .ok (some (commands, c)) =>
      let _ ← runAll fuel false commands
      runInput fuel c
    | .error (.wrong line text) =>
      changeShell fun s => { s with line := line }
      fail text
    | .error .more =>
      match ← readBytes 0 with
      | .bytes data => runInput fuel { c with rest := c.rest ++ data }
      | .finished => runInput fuel { c with closed := true }
      | .interrupted =>
        runDue fuel
        runInput fuel c

end

end StepTrace.Host.Shell

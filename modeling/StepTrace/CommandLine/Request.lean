import StepTrace.Language

/-!
# Requests on a command line

What the arguments of the program ask for. Options may be written in their long or their short form,
with their value in the same argument or in the next one. An option is given at most once before the
name of the task and at most once after it.
-/

set_option autoImplicit false

namespace StepTrace.CommandLine

/-- The options of all tasks. -/
inductive OptionName where
  | config
  | debug
  | language
  | file
  | code
  | json
  | help
  | version
  deriving DecidableEq, Repr, Inhabited

namespace OptionName

/-- The long form of an option. -/
def long : OptionName → String
  | config => "config"
  | debug => "debug"
  | language => "language"
  | file => "file"
  | code => "code"
  | json => "json"
  | help => "help"
  | version => "version"

/-- The short form of an option, if it has one. -/
def short? : OptionName → Option Char
  | config => some 'c'
  | debug => some 'd'
  | language => some 'l'
  | file => some 'f'
  | help => some 'h'
  | version => some 'V'
  | _ => none

/-- Whether a value goes with an option. -/
def takesValue : OptionName → Bool
  | config => true
  | language => true
  | file => true
  | code => true
  | _ => false

/-- Whether the value of an option is a path, which cannot be empty. -/
def isPath : OptionName → Bool
  | config => true
  | file => true
  | _ => false

end OptionName

/-- Why no task is carried out. -/
inductive Stop where
  /-- The arguments make no sense. -/
  | usage
  | help
  | version
  deriving DecidableEq, Repr, Inhabited

/-- Options that were given, with their values. -/
abbrev Given := List (OptionName × String)

/-- Takes note of an option. -/
def note (given : Given) (name : OptionName) (value : String) : Except Stop Given :=
  if name = .help then .error .help
  else if name = .version then .error .version
  else if given.any fun g => g.1 == name then .error .usage
  else if name.isPath && value.isEmpty then .error .usage
  else .ok (given ++ [(name, value)])

/-- Whether an argument can be the value of the option before it. -/
def isValue (arg : String) : Bool := arg.toList.head? != some '-' || arg == "-"

/-- Takes note of an option whose value is the next argument. -/
def noteNext (given : Given) (name : OptionName) :
    List String → Except Stop (Given × List String)
  | [] => .error .usage
  | value :: rest =>
    if isValue value then (note given name value).map fun given => (given, rest)
    else .error .usage

/-- Reads an option in its long form, after the hyphens. -/
def readLong (known : List OptionName) (given : Given) (body : List Char) (rest : List String) :
    Except Stop (Given × List String) :=
  let (name, value) := match body.span (· != '=') with
    | (name, _ :: value) => (String.ofList name, some (String.ofList value))
    | (name, []) => (String.ofList name, none)
  match known.find? fun o => o.long == name with
  | none => .error .usage
  | some o =>
    match o.takesValue, value with
    | true, some v => (note given o v).map fun given => (given, rest)
    | true, none => noteNext given o rest
    | false, some _ => .error .usage
    | false, none => (note given o "").map fun given => (given, rest)

/-- Reads options in their short form, after the hyphen. -/
def readShort (known : List OptionName) (given : Given) (rest : List String) :
    List Char → Except Stop (Given × List String)
  | [] => .ok (given, rest)
  | c :: cs =>
    match known.find? fun o => o.short? == some c with
    | none => .error .usage
    | some o =>
      if o.takesValue then
        match cs with
        | [] => noteNext given o rest
        -- an equals sign before the value is no part of it
        | '=' :: v => (note given o (String.ofList v)).map fun given => (given, rest)
        | v => (note given o (String.ofList v)).map fun given => (given, rest)
      else
        match note given o "" with
        | .ok given => readShort known given rest cs
        | .error stop => .error stop

/-- Reads options up to the first argument that is none. -/
def readOptions (known : List OptionName) :
    Nat → Given → List String → Except Stop (Given × List String)
  | 0, _, _ => .error .usage
  | _ + 1, given, [] => .ok (given, [])
  | fuel + 1, given, arg :: rest =>
    let read := match arg.toList with
      | ['-'] => none
      | ['-', '-'] => none
      | '-' :: '-' :: body => some (readLong known given body rest)
      | '-' :: cs => some (readShort known given rest cs)
      | _ => none
    match read with
    | none => .ok (given, arg :: rest)
    | some (.error stop) => .error stop
    | some (.ok (given, rest)) => readOptions known fuel given rest

/-- The value of an option. -/
def valueOf? (given : Given) (name : OptionName) : Option String :=
  (given.find? fun g => g.1 == name).map Prod.snd

/-- Whether an option was given. -/
def isGiven (given : Given) (name : OptionName) : Bool := given.any fun g => g.1 == name

/-- Where code comes from and what language it is in. -/
structure CodeSource where
  /-- A name of the language. -/
  language : String
  file : Option String
  code : Option String
  deriving DecidableEq, Repr, Inhabited

/-- What the program can do. -/
inductive Task where
  | run (source : CodeSource) (json : Bool)
  | languages
  | info (json : Bool)
  | scan (source : CodeSource)
  deriving DecidableEq, Repr, Inhabited

/-- What the program is asked to do. -/
structure Request where
  task : Task
  /-- A settings file. -/
  config : Option String
  debug : Bool
  deriving DecidableEq, Repr, Inhabited

/-- The source of the code that a request is about. -/
def Request.source? (r : Request) : Option CodeSource :=
  match r.task with
  | .run source _ => some source
  | .scan source => some source
  | _ => none

/-- Whether the code comes from the input. -/
def Request.readsInput (r : Request) : Bool :=
  r.source?.any fun s => s.file.isNone && s.code.isNone

/-- The source of code that options name. Code is not given both in a file and in an argument. -/
def codeSource (given : Given) : Except Stop CodeSource :=
  match valueOf? given .language with
  | none => .error .usage
  | some language =>
    if isGiven given .file && isGiven given .code then .error .usage
    else .ok ⟨language, valueOf? given .file, valueOf? given .code⟩

/-- The options that every task has. -/
def common : List OptionName := [.config, .debug, .help]

/-- The options of a task by its name. -/
def taskOptions? (name : String) : Option (List OptionName) :=
  match name with
  | "run" => some (common ++ [.language, .file, .code, .json])
  | "languages" => some common
  | "info" => some (common ++ [.json])
  | "scan" => some (common ++ [.language, .file, .code])
  | _ => none

/-- The task with a name and options. -/
def task (name : String) (given : Given) : Except Stop Task :=
  match name with
  | "run" => (codeSource given).map fun source => .run source (isGiven given .json)
  | "scan" => (codeSource given).map .scan
  | "info" => .ok (.info (isGiven given .json))
  | _ => .ok .languages

/-- Reads what follows the name of a task. -/
def readTask (outer : Given) (name : String) (args : List String) : Except Stop Request :=
  match taskOptions? name with
  | none =>
    if name = "help" then
      match args with
      | [] => .error .help
      | topic :: _ =>
        .error (if (taskOptions? topic).isSome || topic == "help" then .help else .usage)
    else .error .usage
  | some known =>
    match readOptions known (args.length + 1) [] args with
    | .error stop => .error stop
    | .ok (given, rest) =>
      if rest.isEmpty || rest == ["--"] then
        (task name given).map fun t =>
          -- what stands behind the name of the task wins
          ⟨t, valueOf? given .config <|> valueOf? outer .config,
            isGiven given .debug || isGiven outer .debug⟩
      else .error .usage

/-- What some arguments ask for. -/
def Request.ofArgs (args : List String) : Except Stop Request :=
  match readOptions (common ++ [.version]) (args.length + 1) [] args with
  | .error stop => .error stop
  | .ok (_, []) => .error .usage
  | .ok (outer, name :: rest) => readTask outer name rest

end StepTrace.CommandLine

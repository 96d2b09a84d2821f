import StepTrace.CommandLine.Request
import StepTrace.Diagnostics
import StepTrace.Notice
import StepTrace.Scan
import StepTrace.Settings.File
import StepTrace.Workshop

/-!
# The command line

What the program prints for its arguments, and the status that it ends with. Code that runs is shown
as plain text, where the lines that become active go to the error stream, or as chunks in JSON.
-/

set_option autoImplicit false

namespace StepTrace.CommandLine

/-- What the program prints and how it ends. -/
structure Outcome where
  status : Nat
  stdout : String
  stderr : String
  deriving DecidableEq, Repr, Inhabited

/-- The outcome of a failure that is told to the user. -/
def Outcome.failed (stdout stderr text : String) : Outcome :=
  ⟨1, stdout, stderr ++ "Error: " ++ text ++ "\n"⟩

/-- The output of events as plain text. -/
def plainOutput (events : List LineEvent) : String :=
  String.join ((events.filterMap LineEvent.outputText?).map fun t => t ++ "\n")

/-- The active lines of events, as plain text tells of them. -/
def plainLines (events : List LineEvent) : String :=
  String.join ((events.filterMap LineEvent.activeLine?).map fun n =>
    "[line " ++ toString n ++ "]\n")

/-- The chunks of events, one on each line. -/
def jsonOutput (events : List LineEvent) : String :=
  String.join ((Chunk.ofEvents events).map fun c => c.toJson.compress ++ "\n")

/-- The reason of the last fault among events. -/
def lastFault? (events : List LineEvent) : Option String :=
  events.foldl (fun last e => match e with
    | .fault reason => some reason
    | _ => last) none

/-- The end of a run in which some events came. -/
def runOutcome (l : Language) (json : Bool) (welcome : String) (events : List LineEvent) :
    Outcome :=
  let stdout := if json then jsonOutput events else plainOutput events
  let stderr := if json then welcome else welcome ++ plainLines events
  match lastFault? events with
  | some reason => .failed stdout stderr (l.properName ++ " interpreter failed: " ++ reason)
  | none => ⟨0, stdout, stderr⟩

/-- Follows a turn to its end. -/
def follow (l : Language) (json : Bool) (welcome : String) (w : Workshop) (t : Turn) : Outcome :=
  runOutcome l json welcome (w.allEvents t).1

/-- What is told of a file that cannot be read. -/
def unreadable (path cause : String) : String :=
  "Failed to read " ++ path ++ "\n\nCaused by:\n    " ++ cause

/-- The code that a source stands for; without a file and an argument it is the input. -/
def readCode (h : Host) (input : List Char) (source : CodeSource) : Except String (List Char) :=
  match source.code, source.file with
  | some code, _ => .ok code.toList
  | none, none => .ok input
  | none, some path =>
    match h.disk.find? h.directory path with
    | some .directory => .error (unreadable path "Is a directory (os error 21)")
    | none => .error (unreadable path "No such file or directory (os error 2)")
    | some _ =>
      match (h.disk.read? h.directory path).bind Host.Bytes.text? with
      | some text => .ok text
      | none => .error (unreadable path "stream did not contain valid UTF-8")

/-- The language and the code of a source. -/
def readSource (h : Host) (input : List Char) (source : CodeSource) :
    Except String (Language × List Char) := do
  let l ← match Language.lookup? source.language with
    | some l => pure l
    | none => throw (Failure.unknownLanguage source.language).message
  return (l, ← readCode h input source)

/-- Runs code. -/
def run (h : Host) (settings : Settings) (input : List Char) (source : CodeSource) (json : Bool) :
    Outcome :=
  match readSource h input source with
  | .error text => .failed "" "" text
  | .ok (l, code) =>
    let welcome := if json then "" else Notice.text ++ "\n\n"
    match (Workshop.fresh h settings).execute l code with
    | (.error f, _) => .failed "" welcome f.explanation
    | (.ok turn, w) => follow l json welcome w turn

/-- A text with blanks after it, up to some width. -/
def column (width : Nat) (text : String) : String :=
  text ++ String.ofList (List.replicate (width - text.length) ' ')

/-- The catalogue of languages. -/
def languageTable : String :=
  String.join (Language.all.map fun l =>
    column 12 l.id ++ " " ++ column 12 l.properName ++ " ." ++ column 5 l.fileExtension ++
      " aliases: " ++ Failure.listed l.aliases ++ "\n")

/-- Scans code. -/
def scan (h : Host) (input : List Char) (source : CodeSource) : Outcome :=
  match readSource h input source with
  | .error text => .failed "" "" text
  | .ok (l, code) =>
    match Scan.run h Scan.usualScanner l code with
    | .error f => .failed "" "" f.message
    | .ok report =>
      let shown := if Text.allBlank report.output.toList then "" else report.output
      let stdout := shown ++ report.summary ++ "\n"
      if report.clean then ⟨0, stdout, ""⟩ else .failed stdout "" "Scan reported issues"

/-- What can be found out about an interpreter, as JSON. -/
def runtimeToJson (r : RuntimeInfo) : Json :=
  .object [("language", r.language.toJson), ("adapter", .ofOption .string r.adapter),
    ("path", .ofOption .string r.path), ("version", .ofOption .string r.version),
    ("error", .ofOption .string r.error)]

/-- Tells about the machine. -/
def info (h : Host) (settings : Settings) (json : Bool) : Outcome :=
  let i : SystemInfo :=
    ⟨"linux", "unix", "x86_64", Diagnostics.version, Diagnostics.runtimes h settings⟩
  if json then
    let j := Json.object [("os", .string i.os), ("family", .string i.family),
      ("arch", .string i.arch), ("version", .string i.version),
      ("runtimes", .array (i.runtimes.map runtimeToJson))]
    ⟨0, j.pretty ++ "\n", ""⟩
  else ⟨0, i.text, ""⟩

/-- How the program is used. -/
def usage : String :=
  "Run code in persistent interpreters and watch it execute line by line\n\n" ++
    "Usage: linecast [OPTIONS] <COMMAND>\n"

/-- Carries out a request. -/
def fulfil (h : Host) (input : List Char) (r : Request) : Outcome :=
  let loaded := match r.config with
    | some path => SettingsFile.startWith h path
    | none => SettingsFile.start h
  match loaded with
  | .error f => .failed "" "" f.explanation
  | .ok settings =>
    match r.task with
    | .run source json => run h settings input source json
    | .languages => ⟨0, languageTable, ""⟩
    | .info json => info h settings json
    | .scan source => scan h input source

/-- What the program does with some arguments and some input. -/
def execute (h : Host) (args : List String) (input : List Char) : Outcome :=
  match Request.ofArgs args with
  | .ok r => fulfil h input r
  | .error .version => ⟨0, "linecast " ++ Diagnostics.version ++ "\n", ""⟩
  | .error .help => ⟨0, usage, ""⟩
  | .error .usage => ⟨2, "", usage⟩

end StepTrace.CommandLine

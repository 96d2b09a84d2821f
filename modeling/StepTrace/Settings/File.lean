import StepTrace.Host
import StepTrace.Json.Reader
import StepTrace.Json.Writer
import StepTrace.Settings.Toml
import StepTrace.Text.Utf8

/-!
# Settings files

Settings are searched for in a list of files, of which the first that can be read counts, and saved
to the file that they came from. The extension of a file decides its format. `Settings.validate`
refuses settings that no session could be run with.
-/

set_option autoImplicit false

namespace StepTrace

/-- The format of a settings file. -/
inductive SettingsFormat where
  | toml
  | json
  deriving DecidableEq, Repr, Inhabited

/-- The format that the extension of a path stands for. -/
def SettingsFormat.ofPath? (path : String) : Option SettingsFormat :=
  match Host.Path.extension? path with
  | some "toml" => some .toml
  | some "json" => some .json
  | _ => none

/-- The format of a file; one without a known extension holds TOML. -/
def SettingsFormat.ofPath (path : String) : SettingsFormat := (ofPath? path).getD .toml

namespace Settings

/-- The largest number of milliseconds that late lines may be waited for. -/
def maxDrainGrace : Nat := 10000

/-- The settings that a text describes. -/
def parse? (format : SettingsFormat) (text : List Char) : Option Settings :=
  match format with
  | .toml => (Toml.parse? text).bind (ofJson? false)
  | .json => (Json.parse? text).bind (ofJson? true)

/-- Settings as a text. -/
def write (format : SettingsFormat) (s : Settings) : List Char :=
  match format with
  | .toml => s.toToml
  | .json => s.toJson.pretty.toList

/-- The failure of a field for some reason. -/
def invalid (field reason : String) : Except Failure Unit :=
  .error (.configValidationFailed field reason)

/-- Refuses an executable with an empty path. -/
def checkExecutable (field : String) (launch : LaunchSettings) : Except Failure Unit :=
  if launch.executable = some "" then invalid field "Executable path cannot be empty" else .ok ()

/-- Refuses a language that is not known. -/
def checkLanguage (name : String) : Except Failure Unit :=
  if (Language.ofName? name).isNone then
    invalid "session.eager_languages" ("Unknown language '" ++ name ++ "'")
  else .ok ()

/-- Refuses a working directory that is none. -/
def checkDirectory (h : Host) : Option String → Except Failure Unit
  | none => .ok ()
  | some path =>
    if h.disk.isDirectory h.directory path then .ok ()
    else invalid "session.working_directory" ("'" ++ path ++ "' is not a directory")

/-- Refuses settings that no session could be run with. -/
def validate (h : Host) (s : Settings) : Except Failure Unit := do
  if s.session.drainGrace > maxDrainGrace then
    invalid "session.drain_grace_ms"
      ("Drain window cannot exceed " ++ toString maxDrainGrace ++ " ms")
  if s.session.transcriptLimit = 0 then
    invalid "session.transcript_limit" "Transcript limit must be greater than 0"
  s.session.eagerLanguages.forM checkLanguage
  checkExecutable "python.executable" s.python
  checkExecutable "powershell.executable" s.powershell
  checkExecutable "shell.executable" s.shell
  checkDirectory h s.session.workingDirectory

end Settings

/-- How settings are loaded. -/
structure LoadOptions where
  /-- Whether the usual settings stand in for a missing file. -/
  orDefault : Bool
  /-- Whether what is loaded is laid over the usual settings. -/
  merge : Bool
  validate : Bool
  deriving DecidableEq, Repr, Inhabited

/-- The files that settings are searched in, and the one that they came from. -/
structure SettingsFile where
  search : List String
  current : Option String
  deriving DecidableEq, Repr, Inhabited

namespace SettingsFile

/-- The variable that names a settings file. -/
def pathVariable : String := "LINECAST_CONFIG"

/-- The home directory of a user for whom no variable names one. -/
def fallbackHome : String := "/root"

/-- The directory of the user's settings. -/
def userDirectory (h : Host) : String :=
  let home := match h.environment.get? "HOME" with
    | some home => if home.isEmpty then fallbackHome else home
    | none => fallbackHome
  match h.environment.get? "XDG_CONFIG_HOME" with
  | some path => if Host.Path.isAbsolute path then path else Host.Path.join home ".config"
  | none => Host.Path.join home ".config"

/-- A file among the user's settings. -/
def userFile (h : Host) (name : String) : String :=
  Host.Path.join (Host.Path.join (userDirectory h) "linecast") name

/-- The files that settings are usually searched in, the first one first. -/
def searchPaths (h : Host) : List String :=
  let named := match h.environment.get? pathVariable with
    | some path => if Text.allBlank path.toList then [] else [path]
    | none => []
  named ++ [Host.Path.join h.directoryPath "linecast.toml",
    Host.Path.join h.directoryPath ".linecast.toml", userFile h "config.toml",
    userFile h "config.json"]

/-- Settings that are searched for in the usual files. -/
def usual (h : Host) : SettingsFile := ⟨searchPaths h, none⟩

/-- The settings in a file. -/
def read? (h : Host) (path : String) : Option Settings := do
  let bytes ← h.disk.read? h.directory path
  let text ← Text.decode? (bytes.map fun c => UInt8.ofNat c.toNat)
  Settings.parse? (.ofPath path) text

/-- The first file that settings can be read from, with them. -/
def find? (h : Host) (paths : List String) : Option (String × Settings) :=
  paths.findSome? fun path =>
    if h.disk.isFile h.directory path then (read? h path).map fun s => (path, s) else none

/-- Settings, refused if they are to be validated and are not valid. -/
def checked (h : Host) (options : LoadOptions) (s : Settings) : Except Failure Settings :=
  if options.validate then (s.validate h).map fun _ => s else .ok s

/-- Loads settings. The file that was read becomes the current one even if its settings are
refused. -/
def load (h : Host) (options : LoadOptions) (f : SettingsFile) :
    Except Failure Settings × SettingsFile :=
  match find? h f.search with
  | some (path, s) =>
    -- the file counts as the current one even if its settings are refused
    (checked h options (if options.merge then Settings.default.merge s else s),
      { f with current := some path })
  | none =>
    if options.orDefault then (checked h options .default, f) else (.error .configNotFound, f)

/-- Everything is done that loading can do. -/
def usualOptions : LoadOptions := ⟨true, true, true⟩

/-- Loads the settings of one file. -/
def loadFrom (h : Host) (path : String) : Except Failure Settings :=
  (load h { usualOptions with orDefault := false } ⟨[path], none⟩).1

/-- Loads settings as a program does that starts: what cannot be loaded is as if it were not there,
but what is used has to be valid. -/
def start (h : Host) : Except Failure Settings :=
  let s := match (load h usualOptions (usual h)).1 with
    | .ok s => s
    | .error _ => .default
  (s.validate h).map fun _ => s

/-- Loads the settings of a file that a user named. -/
def startWith (h : Host) (path : String) : Except Failure Settings :=
  if (h.disk.find? h.directory path).isSome then loadFrom h path
  else .error (.configLoadFailed path "Configuration file does not exist")

/-- The path of the directory that a path stands in. -/
def parent (path : String) : String :=
  let way := String.intercalate "/" (Host.Path.names path).dropLast
  if Host.Path.isAbsolute path then "/" ++ way else way

/-- Saves settings under a path. -/
def saveTo (h : Host) (path : String) (s : Settings) : Except Failure Host :=
  let text := Settings.write (.ofPath path) s
  let bytes := (Text.encode text).map fun b => Char.ofNat b.toNat
  match (h.disk.makeDirectories h.directory (parent path)).bind fun d =>
      d.write? h.directory path bytes with
  | some disk => .ok { h with disk := disk }
  | none => .error (.io "the file cannot be written")

/-- Saves settings to the current file, or to the user's if there is none. -/
def save (h : Host) (f : SettingsFile) (s : Settings) : Except Failure (String × Host) :=
  let path := f.current.getD (userFile h "config.toml")
  (saveTo h path s).map fun h => (path, h)

end SettingsFile

end StepTrace

/-!
# Failures

Every cause for which an operation fails, its wording (`Failure.message`), and the fuller
explanation with hints that a user gets when a program cannot start (`Failure.explanation`).
-/

set_option autoImplicit false

namespace StepTrace

/-- Why an operation failed. -/
inductive Failure where
  | instrumentationFailed (language : String) (line : Nat) (reason : String)
  | interpreterNotFound (language : String) (candidates : List String)
  | spawnFailed (command reason : String)
  | pipeUnavailable (stream : String)
  | inputSendFailed (reason : String)
  | executionInProgress (language : String)
  | sessionTerminated (language : String)
  | signalSendFailed (signal reason : String)
  | unknownLanguage (name : String)
  | configLoadFailed (path reason : String)
  | configNotFound
  | configValidationFailed (field reason : String)
  | configSerializationFailed (format reason : String)
  | configParseFailed (format reason : String)
  | scanFailed (language reason : String)
  | io (reason : String)
  | badJson (reason : String)
  | badToml (reason : String)
  | other (text : String)
  deriving DecidableEq, Repr, Inhabited

namespace Failure

/-- Names with a comma between each two. -/
def listed (names : List String) : String := String.intercalate ", " names

/-- A failure in words. -/
def message : Failure → String
  | instrumentationFailed language line reason =>
    "Could not instrument " ++ language ++ " code (line " ++ toString line ++ "): " ++ reason
  | interpreterNotFound language candidates =>
    "No " ++ language ++ " interpreter found (tried: " ++ listed candidates ++ ")"
  | spawnFailed command reason =>
    "Failed to spawn interpreter '" ++ command ++ "': " ++ reason
  | pipeUnavailable stream => "Interpreter " ++ stream ++ " is not piped"
  | inputSendFailed reason => "Failed to send input to interpreter: " ++ reason
  | executionInProgress language => "A " ++ language ++ " execution is already in progress"
  | sessionTerminated language => "The " ++ language ++ " interpreter has terminated"
  | signalSendFailed signal reason => "Failed to send signal '" ++ signal ++ "': " ++ reason
  | unknownLanguage name => "Unknown language: '" ++ name ++ "'"
  | configLoadFailed path reason => "Failed to load config from '" ++ path ++ "': " ++ reason
  | configNotFound => "Configuration file not found"
  | configValidationFailed field reason =>
    "Configuration validation failed for '" ++ field ++ "': " ++ reason
  | configSerializationFailed format reason =>
    "Failed to serialize config as " ++ format ++ ": " ++ reason
  | configParseFailed format reason => "Failed to parse " ++ format ++ " config: " ++ reason
  | scanFailed language reason => "Could not scan " ++ language ++ " code: " ++ reason
  | io reason => "I/O error: " ++ reason
  | badJson reason => "Serialization error: " ++ reason
  | badToml reason => "TOML parsing error: " ++ reason
  | other text => "Error: " ++ text

/-- A failure as a user is told of it, with hints where there are any. -/
def explanation : Failure → String
  | configLoadFailed path reason =>
    "Configuration Error: Failed to load config from '" ++ path ++ "': " ++ reason ++
      "\n\nTry:\n• Check configuration file syntax\n• Ensure file permissions are correct"
  | configParseFailed format reason =>
    "Configuration Error: Failed to parse " ++ format ++ " config: " ++ reason
  | configValidationFailed field reason =>
    "Configuration Error: Validation failed for '" ++ field ++ "': " ++ reason
  | configNotFound => "Configuration Error: Config file not found"
  | interpreterNotFound language candidates =>
    "No " ++ language ++ " interpreter found (tried: " ++ listed candidates ++
      ")\n\nTry:\n• Install one of them\n• Set \x60" ++ language ++
      ".executable\x60 in the configuration"
  | instrumentationFailed language line reason =>
    "The " ++ language ++ " code could not be parsed (line " ++ toString line ++ "): " ++ reason
  | f => "Error: " ++ f.message

/-- Whether the session that a failure came from is of no more use. -/
def isSessionFatal : Failure → Bool
  | sessionTerminated _ => true
  | inputSendFailed _ => true
  | _ => false

/-- Whether another failure is behind this one. -/
def hasSource : Failure → Bool
  | io _ => true
  | badJson _ => true
  | badToml _ => true
  | _ => false

end Failure

end StepTrace

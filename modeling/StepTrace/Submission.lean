import StepTrace.Language
import StepTrace.Json.Record

/-!
# Submissions

A submission is code together with the language it is written in.
-/

set_option autoImplicit false

namespace StepTrace

/-- Code to run. -/
structure Submission where
  language : Language
  code : String
  deriving DecidableEq, Repr, Inhabited

namespace Submission

/-- A submission as JSON. -/
def toJson (s : Submission) : Json :=
  .object [("language", s.language.toJson), ("code", .string s.code)]

/-- The submission that JSON describes. -/
def ofJson? (j : Json) : Option Submission :=
  match j.fields? ["language", "code"] with
  | some [language, code] => do
    let language ← Json.required? Language.ofJson? language
    let code ← Json.required? Json.string? code
    return ⟨language, code⟩
  | _ => none

end Submission

end StepTrace

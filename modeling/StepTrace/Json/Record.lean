import StepTrace.Json.Basic

/-!
# Records in JSON

A record is written as an object, or as an array of its fields in their order. In an object unknown
members are passed over and no field may be given twice. A field that is left out is `none` here;
what that means is the record's own decision.
-/

set_option autoImplicit false

namespace StepTrace.Json

/-- Whether an object names one of the fields twice. -/
def repeatsField (names : List String) (members : List (String × Json)) : Bool :=
  names.any fun name => (members.filter fun m => m.1 == name).length > 1

/-- The values of the fields of a record, by an object. -/
def fieldsOfObject? (names : List String) (members : List (String × Json)) :
    Option (List (Option Json)) :=
  if repeatsField names members then none
  else some (names.map fun name => (Json.object members).member? name)

/-- The values of the fields of a record all of whose fields may be left out. -/
def openFields? (names : List String) : Json → Option (List (Option Json))
  | .object members => fieldsOfObject? names members
  | .array items =>
    if items.length ≤ names.length then
      some (items.map some ++ List.replicate (names.length - items.length) none)
    else none
  | _ => none

/-- The values of the fields of a record; an array has to hold every one. -/
def fields? (names : List String) : Json → Option (List (Option Json))
  | .object members => fieldsOfObject? names members
  | .array items => if items.length = names.length then some (items.map some) else none
  | _ => none

/-- The value of a field that has to be given. -/
def required? {α : Type} (read : Json → Option α) (j : Option Json) : Option α := j.bind read

/-- The value of a field that may be left out or be null. -/
def absentOr? {α : Type} (read : Json → Option α) : Option Json → Option (Option α)
  | none => some none
  | some j => j.optional? read

/-- The value of a field that has a default. -/
def defaulted? {α : Type} (fallback : α) (read : Json → Option α) : Option Json → Option α
  | none => some fallback
  | some j => read j

end StepTrace.Json

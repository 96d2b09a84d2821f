import StepTrace.Text.Numeral

/-!
# JSON values

A JSON document as data. A number is kept as an integer where it is written as one, and as its text
otherwise; a minus sign before zero makes no integer. Object members keep their order and may repeat
a name. A document may hold well-formed values that stand for nothing, such as a string with half a
surrogate pair; they are kept as `unreadable` and hurt nobody who passes over them.
-/

set_option autoImplicit false

namespace StepTrace

/-- A JSON value. -/
inductive Json where
  | null
  | bool (value : Bool)
  | integer (value : Int)
  | real (literal : String)
  | string (value : String)
  | array (items : List Json)
  | object (members : List (String × Json))
  /-- A string that stands for no text, or an object one of whose names is such a string. -/
  | unreadable
  deriving Inhabited

namespace Json

/-- The member of an object with a name, the first if there are several. -/
def member? (name : String) : Json → Option Json
  | .object members => (members.find? fun m => m.1 == name).map Prod.snd
  | _ => none

/-- A truth value. -/
def bool? : Json → Option Bool
  | .bool b => some b
  | _ => none

/-- A string. -/
def string? : Json → Option String
  | .string s => some s
  | _ => none

/-- A symbol is written as a string, or as the name of the one member of an object that is null. -/
def symbol? : Json → Option String
  | .string name => some name
  | .object [(name, .null)] => some name
  | _ => none

/-- A natural number below `bound`, written as an integer. -/
def natural? (bound : Nat) : Json → Option Nat
  | .integer (.ofNat n) => if n < bound then some n else none
  | _ => none

/-- An integer from `low` up to, but not including, `high`. -/
def integer? (low high : Int) : Json → Option Int
  | .integer i => if low ≤ i ∧ i < high then some i else none
  | _ => none

/-- A machine word. -/
def word? (j : Json) : Option Nat := j.natural? Text.wordBound

/-- The items of an array. -/
def array? : Json → Option (List Json)
  | .array items => some items
  | _ => none

/-- A list, each of whose items reads. -/
def list? {α : Type} (item : Json → Option α) (j : Json) : Option (List α) :=
  j.array?.bind fun items => items.mapM item

/-- A value that may be absent, and is absent where null is written. -/
def optional? {α : Type} (value : Json → Option α) : Json → Option (Option α)
  | .null => some none
  | j => (value j).map some

/-- Each string of a list. -/
def ofStrings (items : List String) : Json := .array (items.map .string)

/-- A number. -/
def ofNat (n : Nat) : Json := .integer n

/-- A value, or null. -/
def ofOption {α : Type} (value : α → Json) : Option α → Json
  | none => .null
  | some a => value a

end Json

end StepTrace

import StepTrace.Json.Basic

/-!
# Tables of TOML

A document defines tables by headers, by dotted names and inline, and each may be defined once. A
node knows how it came about, which decides what may still be added to it. A table that is only
implied, by a longer header or by a dotted name, can be extended in both ways; a header can open it
as long as no dotted name has passed through it.
-/

set_option autoImplicit false

namespace StepTrace.Toml

/-- A value under construction. -/
inductive Node where
  /-- A finished value, inline tables and arrays included. -/
  | leaf (value : Json)
  /-- A table: whether it is only implied, whether a dotted name passes through it, and its
  members. -/
  | table (implied dotted : Bool) (members : List (String × Node))
  /-- The tables of an array of tables, the last one first. -/
  | tables (items : List (List (String × Node)))

/-- The members of a table. -/
abbrev Members := List (String × Node)

mutual

/-- A node as data. -/
def Node.toJson : Node → Json
  | .leaf value => value
  | .table _ _ members => .object (membersToJson members)
  | .tables items => .array (tablesToJson items).reverse

/-- Members as data. -/
def membersToJson : List (String × Node) → List (String × Json)
  | [] => []
  | (name, node) :: rest => (name, node.toJson) :: membersToJson rest

/-- Tables as data. -/
def tablesToJson : List (List (String × Node)) → List Json
  | [] => []
  | members :: rest => .object (membersToJson members) :: tablesToJson rest

end

/-- The member with a name. -/
def find? (name : String) (members : Members) : Option Node :=
  (members.find? fun m => m.1 == name).map Prod.snd

/-- Members of which one is replaced. -/
def replace (name : String) (node : Node) (members : Members) : Members :=
  members.map fun m => if m.1 == name then (name, node) else m

/-- A way through tables to a member, and what happens at its end. The way is that of a header or
of a dotted name. -/
def walk (dotted : Bool) (change : Members → Option Members) :
    List String → Members → Option Members
  | [], members => change members
  | name :: path, members =>
    match find? name members with
    | none => do
      let inner ← walk dotted change path []
      return members ++ [(name, .table true dotted inner)]
    | some (.table implied byDot inner) => do
      -- a dotted name extends no table that a header has opened
      if dotted && !implied then none
      let inner ← walk dotted change path inner
      return replace name (.table implied (byDot || dotted) inner) members
    | some (.tables (current :: earlier)) => do
      if dotted && path.isEmpty then none
      -- the way leads on through the table that was opened last
      let current ← walk dotted change path current
      return replace name (.tables (current :: earlier)) members
    | some _ => none

/-- Adds a member that is not there yet. -/
def add (name : String) (node : Node) (members : Members) : Option Members :=
  if (find? name members).isSome then none else some (members ++ [(name, node)])

/-- Gives a value to a dotted name. -/
def assign (path : List String) (name : String) (value : Json) (members : Members) :
    Option Members :=
  walk true (add name (.leaf value)) path members

/-- Opens a table by its header. -/
def openHere (name : String) (members : Members) : Option Members :=
  match find? name members with
  | none => some (members ++ [(name, .table false false [])])
  | some (.table true false inner) => some (replace name (.table false false inner) members)
  | some _ => none

/-- Opens the next table of an array by its header. -/
def openNext (name : String) (members : Members) : Option Members :=
  match find? name members with
  | none => some (members ++ [(name, .tables [[]])])
  | some (.tables items) => some (replace name (.tables ([] :: items)) members)
  | some _ => none

/-- Opens the table that a header names. -/
def openTable (path : List String) (name : String) (members : Members) : Option Members :=
  walk false (openHere name) path members

/-- Opens the next table of the array that a header names. -/
def openArray (path : List String) (name : String) (members : Members) : Option Members :=
  walk false (openNext name) path members

/-- Changes the table that the last header opened. -/
def within (header : List String) (change : Members → Option Members) (members : Members) :
    Option Members := walk false change header members

end StepTrace.Toml

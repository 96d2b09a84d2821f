import StepTrace.Host.Shell.Machine

/-!
# Options among arguments

How `getopts` goes through the arguments of a script: `OptionWord.next` finds the option behind a
place among them. The place is the number of the argument that comes next, counted from one, and how
much has been read of the argument before it.
-/

set_option autoImplicit false

namespace StepTrace.Host.Shell.OptionWord

/-- What stands at a place among the arguments. -/
inductive Found where
  /-- No option any more. -/
  | nothing
  /-- An option with its argument, if it takes one. -/
  | option (letter : Char) (argument : List Char)
  /-- A letter that is no option. -/
  | unknown (letter : Char)
  /-- An option without the argument that it takes. -/
  | incomplete (letter : Char)
  deriving DecidableEq, Repr, Inhabited

/-- Whether an option takes an argument; none if there is no such option. A colon behind a letter
says that it does. -/
def takesArgument? (letter : Char) : List Char → Option Bool
  | [] => none
  | [c] => if c = letter then some false else none
  | c :: ':' :: r => if c = letter then some true else takesArgument? letter r
  | c :: d :: r => if c = letter then some false else takesArgument? letter (d :: r)

/-- The option with a letter, of which more text follows in the same argument, and the place behind
it. -/
def atLetter (known : List Char) (args : List (List Char)) (index : Nat) (letter : Char)
    (rest : List Char) : Found × Nat × Option Nat :=
  let offset := some ((args.getD (index - 2) []).length - rest.length)
  match takesArgument? letter known with
  | none => (.unknown letter, index, offset)
  | some false => (.option letter [], index, offset)
  | some true =>
    if !rest.isEmpty then (.option letter rest, index, none)
    else
      match args[index - 1]? with
      | some argument => (.option letter argument, index + 1, none)
      | none => (.incomplete letter, index, none)

/-- What stands at a place among the arguments, and the place behind it. -/
def next (known : List Char) (args : List (List Char)) (place : Nat × Option Nat) :
    Found × Nat × Option Nat :=
  let (index, offset) := place
  let current := offset.bind fun n =>
    if index ≤ 1 then none else args[index - 2]?.map fun a => a.drop n
  match current with
  | some (c :: r) => atLetter known args index c r
  | _ =>
    match args[index - 1]? with
    | some ['-', '-'] => (.nothing, index + 1, none)
    | some ('-' :: c :: r) => atLetter known args (index + 1) c r
    | _ => (.nothing, index, none)

end StepTrace.Host.Shell.OptionWord

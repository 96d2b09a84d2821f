import StepTrace.Host.Shell.Machine

/-!
# Options of a shell

The options that `set` turns on and off. Each has a name, and most have a letter; the shell keeps
the letters of those that are on.
-/

set_option autoImplicit false

namespace StepTrace.Host.Shell.Switch

/-- The names of the options, and the letters that stand for them. -/
def known : List (String × Option Char) :=
  [("errexit", some 'e'), ("noglob", some 'f'), ("ignoreeof", some 'I'), ("interactive", some 'i'),
    ("monitor", some 'm'), ("noexec", some 'n'), ("stdin", some 's'), ("xtrace", some 'x'),
    ("verbose", some 'v'), ("vi", some 'V'), ("emacs", some 'E'), ("noclobber", some 'C'),
    ("allexport", some 'a'), ("notify", some 'b'), ("nounset", some 'u'), ("privileged", some 'p'),
    ("nolog", none), ("debug", none)]

/-- The letters of the options. -/
def letters : List Char := known.filterMap Prod.snd

/-- The letters of the options that are on, in the order in which `$-` tells them. -/
def inForce (options : List Char) : List Char := letters.reverse.filter options.contains

/-- Turns an option on or off. -/
def turn (on : Bool) (letter : Char) : Action Unit := do
  if !letters.contains letter then fail ("Illegal option -" ++ toString letter)
  changeShell fun s =>
    let others := s.options.filter (· != letter)
    { s with options := if on then others ++ [letter] else others }

/-- Turns options on or off. -/
def turnAll (on : Bool) : List Char → Action Unit
  | [] => return
  | c :: r => do
    turn on c
    turnAll on r

/-- Turns an option with a name on or off. -/
def turnNamed (on : Bool) (name : List Char) : Action Unit :=
  match known.find? fun o => o.1.toList == name with
  | some (_, some letter) => turn on letter
  | some (_, none) => return
  | none => fail ("Illegal option -o " ++ Bytes.string name)

/-- Tells which options are on, for people or as commands. -/
def list (asCommands : Bool) : Action Unit := do
  let options ← ofShell State.options
  let isOn := fun (o : String × Option Char) => o.2.any options.contains
  let lines := known.map fun o =>
    if asCommands then "set " ++ (if isOn o then "-o " else "+o ") ++ o.1
    else o.1 ++ "".pushn ' ' (16 - o.1.length) ++ (if isOn o then "on" else "off")
  let lines := if asCommands then lines else "Current option settings" :: lines
  let _ ← write 1 (lines.flatMap fun l => l.toList ++ ['\n'])

end StepTrace.Host.Shell.Switch

/-!
# Commands of a shell

The tree of a shell script. A text is a list of characters that stand for bytes. A word is a list of
parts, of which only those outside quotes are split into fields and matched against file names.
-/

set_option autoImplicit false

namespace StepTrace.Host.Shell

/-- What an expansion does with the value of a parameter, before the word that goes with it. -/
inductive Modifier where
  /-- The value. -/
  | value
  /-- The number of bytes of the value. -/
  | length
  /-- The word instead of a missing value; with `orEmpty` also instead of an empty one. -/
  | default (orEmpty : Bool)
  /-- As `default`, and the parameter gets that value. -/
  | assign (orEmpty : Bool)
  /-- A failure with the word as its text if there is no value. -/
  | complain (orEmpty : Bool)
  /-- The word if there is a value. -/
  | alternative (orEmpty : Bool)
  /-- The value without what the word matches at its start. -/
  | dropStart (longest : Bool)
  /-- The value without what the word matches at its end. -/
  | dropEnd (longest : Bool)
  /-- None that there is; the expansion fails. -/
  | wrong
  deriving DecidableEq, Repr, Inhabited

/-- How a file descriptor is redirected. -/
inductive RedirectKind where
  | input
  | output
  /-- As `output`, also where files are not to be overwritten. -/
  | overwrite
  | append
  | both
  /-- To a copy of the descriptor that the word names, or to nothing. -/
  | copy
  /-- To a text in the script. -/
  | here
  deriving DecidableEq, Repr, Inhabited

mutual

/-- A part of a word. -/
inductive Part where
  /-- Text outside quotes. -/
  | bare (text : List Char)
  /-- Text in quotes. -/
  | quoted (text : List Char)
  /-- Parts in double quotes. -/
  | double (parts : List Part)
  | parameter (name : List Char) (modifier : Modifier) (word : List Part)
  /-- The output of commands. -/
  | output (body : List Command)
  /-- The value of an arithmetic expression. -/
  | arithmetic (parts : List Part)

/-- A redirection of a descriptor. -/
inductive Redirect where
  | mk (descriptor : Nat) (kind : RedirectKind) (word : List Part)

/-- A command. -/
inductive Command where
  /-- Assignments, words and redirections on a line. -/
  | simple (line : Nat) (assignments : List (List Char × List Part)) (words : List (List Part))
      (redirects : List Redirect)
  | pipe (negated : Bool) (stages : List Command)
  | both (first second : Command)
  | either (first second : Command)
  | background (body : Command)
  | group (body : List Command)
  | subshell (body : List Command)
  | branch (test body orelse : List Command)
  | loop (untilTrue : Bool) (test body : List Command)
  /-- A loop over words, or over the arguments if there is no list of them. -/
  | each (name : List Char) (words : Option (List (List Part))) (body : List Command)
  | choose (word : List Part) (arms : List (List (List Part) × List Command))
  | define (name : List Char) (body : Command)
  | redirected (body : Command) (redirects : List Redirect)
  /-- A command that begins on a line. -/
  | at (line : Nat) (body : Command)

end

instance : Inhabited Part := ⟨.bare []⟩

instance : Inhabited Command := ⟨.group []⟩

end StepTrace.Host.Shell

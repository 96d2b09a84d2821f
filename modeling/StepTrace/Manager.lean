import StepTrace.Session

/-!
# Managers

A manager keeps one session for each language and puts a new one in the place of one that died. All
sessions that were ever started are kept by number; a slot says which of them stands for a language.
A turn holds its session, and nobody else can have it meanwhile.

The operations are steps between which others may take theirs: a slot is looked up (`usable?`),
filled (`fill`), its session is held (`hold`), found dead and dropped (`discard`), or fed.
-/

set_option autoImplicit false

namespace StepTrace

/-- The sessions of all languages. -/
structure Manager where
  settings : Settings
  /-- All sessions, the first one first. -/
  sessions : List Session
  /-- The sessions that stand for languages. -/
  slots : List (Language × Nat)
  /-- The sessions that are held. -/
  held : List Nat
  deriving DecidableEq, Inhabited

namespace Manager

/-- A manager without sessions. -/
def fresh (settings : Settings) : Manager := ⟨settings, [], [], []⟩

/-- The session that stands for a language. -/
def slot? (m : Manager) (l : Language) : Option Nat :=
  (m.slots.find? fun s => s.1 == l).map Prod.snd

/-- Whether the handle of a session shows it as alive. -/
def seemsAlive (m : Manager) (n : Nat) : Bool := (m.sessions[n]?.map Session.alive).getD false

/-- The session that stands for a language, if it seems alive. -/
def usable? (m : Manager) (l : Language) : Option Nat := (m.slot? l).filter m.seemsAlive

/-- The manager after another session stands for a language, or none. -/
def setSlot (m : Manager) (l : Language) (n : Option Nat) : Manager :=
  let others := m.slots.filter fun s => s.1 != l
  { m with slots := match n with
    | some n => others ++ [(l, n)]
    | none => others }

/-- Fills the slot of a language with a session that was started for it, unless there is a usable
one by now. -/
def fill (m : Manager) (l : Language) (started : Except Failure Session) :
    Except Failure Nat × Manager :=
  match m.usable? l with
  | some n => (.ok n, m)
  | none =>
    match started with
    | .error f => (.error f, m)
    | .ok s =>
      let n := m.sessions.length
      (.ok n, { m with sessions := m.sessions ++ [s] }.setSlot l (some n))

/-- Whether a session is held. -/
def isHeld (m : Manager) (n : Nat) : Bool := m.held.contains n

/-- Holds a session, if nobody does. -/
def hold? (m : Manager) (n : Nat) : Option Manager :=
  if m.isHeld n then none else some { m with held := n :: m.held }

/-- Lets a session go. -/
def release (m : Manager) (n : Nat) : Manager := { m with held := m.held.erase n }

/-- The manager after a session has changed. -/
def setSession (m : Manager) (n : Nat) (s : Session) : Manager :=
  { m with sessions := m.sessions.set n s }

/-- Empties the slot of a language if a given session is in it. -/
def discard (m : Manager) (l : Language) (n : Nat) : Manager :=
  if m.slot? l = some n then m.setSlot l none else m

/-- The languages whose sessions seem alive, in the order of the catalogue. -/
def activeLanguages (m : Manager) : List Language :=
  Language.all.filter fun l => (m.usable? l).isSome

/-- The transcript of a language's session. -/
def transcript? (m : Manager) (l : Language) : Option Transcript := do
  return (← m.sessions[← m.slot? l]?).transcript

end Manager

end StepTrace

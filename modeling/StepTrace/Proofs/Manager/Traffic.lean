import StepTrace.Proofs.Manager.Execution
import StepTrace.Proofs.Session.Keeping

/-!
# Everything that goes on at a manager

Any number of callers may be in calls of one manager, while others have turns and the threads of the
sessions work. `Call` and `Tenure` say how far a caller and a holder of a turn have come; each of
their steps goes to the next point at which somebody else may act, a lock or a wait. `Traffic` is all
of it together, with what is remembered of it, and `Act` is what may happen next.

What a call can do to the manager is said once (`Call.Effect`, `Call.effect_step`), and so is what
the holder of a turn can do (`Tenure.Effect`).

A workshop, where one call is over before the next begins, is a case of this; so says the module on
histories of a workshop.
-/

set_option autoImplicit false

namespace StepTrace

namespace Manager

variable {m m' : Manager} {l : Language} {n : Nat}

/-- What others can rely on when somebody has done something to a manager: its sessions are there
still, each keeps what sessions keep, and new ones are sane. -/
structure Keeps (m m' : Manager) : Prop where
  length : m.sessions.length ≤ m'.sessions.length
  session : ∀ n < m.sessions.length, (m.session n).Keeps (m'.session n)
  sane : (∀ n < m.sessions.length, (m.session n).Sane) →
    ∀ n < m'.sessions.length, (m'.session n).Sane

/-- A manager with the same sessions keeps everything. -/
theorem keeps_of_sessions (h : m'.sessions = m.sessions) : m.Keeps m' := by
  have hsession : ∀ n, m'.session n = m.session n := fun n => by rw [session, h]; rfl
  refine ⟨Nat.le_of_eq (by rw [h]), fun n _ => by rw [hsession]; exact .refl _, fun hsane n hn => ?_⟩
  rw [hsession]
  exact hsane n (by rwa [h] at hn)

theorem keeps_setSession {s : Session} (hn : n < m.sessions.length) (h : (m.session n).Keeps s) :
    m.Keeps (m.setSession n s) where
  length := Nat.le_of_eq length_setSession.symm
  session k _ := by
    rw [session_setSession hn]
    split
    · next hk => rw [hk]; exact h
    · exact .refl _
  sane hsane k hk := by
    rw [length_setSession] at hk
    rw [session_setSession hn]
    split
    · exact h.sane (hsane n hn)
    · exact hsane k hk

theorem session_append (s : Session) (k : Nat) :
    ({ m with sessions := m.sessions ++ [s] } : Manager).session k =
      if k = m.sessions.length then s else m.session k := by
  simp only [session, List.getD_eq_getElem?_getD, List.getElem?_append]
  split_ifs with h₁ h₂ h₃
  · omega
  · rfl
  · simp [h₃]
  · rw [List.getElem?_eq_none (by simp; omega), List.getElem?_eq_none (by omega)]

/-- A new session in a slot leaves the others as they were. -/
theorem session_setSlot (o : Option Nat) (k : Nat) : (m.setSlot l o).session k = m.session k := rfl

theorem slot?_setSlot (m : Manager) (l : Language) (o : Option Nat) (l' : Language) :
    (m.setSlot l o).slot? l' = if l' = l then o else m.slot? l' := by
  have hothers : (m.slots.filter fun s => s.1 != l).find? (fun s => s.1 == l') =
      if l' = l then none else m.slots.find? fun s => s.1 == l' := by
    rw [List.find?_filter]
    split
    · next h =>
      subst h
      rw [List.find?_eq_none]
      simp
    · next h =>
      congr 1
      funext s
      by_cases hs : s.1 = l'
      · simp [hs, h]
      · simp [hs]
  cases o with
  | none =>
    simp only [slot?, setSlot, hothers]
    split <;> rfl
  | some n =>
    simp only [slot?, setSlot, List.find?_append, hothers]
    split
    · next h => simp [h]
    · next h => simp [Ne.symm h]

theorem mem_of_slot? (h : m.slot? l = some n) : (l, n) ∈ m.slots := by
  rw [slot?, Option.map_eq_some_iff] at h
  obtain ⟨⟨l', n'⟩, hfind, rfl⟩ := h
  have hl : l' = l := by simpa using List.find?_some hfind
  exact hl ▸ List.mem_of_find?_eq_some hfind

theorem mem_setSlot {p : Language × Nat} {o : Option Nat} (h : p ∈ (m.setSlot l o).slots) :
    p ∈ m.slots ∨ o = some p.2 ∧ p.1 = l := by
  cases o with
  | none => exact .inl (List.mem_filter.mp h).1
  | some n =>
    rcases List.mem_append.mp h with h | h
    · exact .inl (List.mem_filter.mp h).1
    · rw [List.mem_singleton] at h
      exact .inr (h ▸ ⟨rfl, rfl⟩)

/-- No session that stands for a language seems alive when none is usable for it. -/
theorem alive_of_usable?_eq_none (h : m.usable? l = none) (hslot : m.slot? l = some n)
    (hn : n < m.sessions.length) : (m.session n).alive = false := by
  rw [usable?, hslot, Option.filter_eq_none_iff] at h
  have hseems := h n rfl
  simpa [seemsAlive, session, List.getD_eq_getElem?_getD, hn] using hseems

end Manager

theorem Manager.length_id (m : Manager) : m.sessions.length ≤ (id m).sessions.length :=
  Nat.le_refl _

/-- The circumstances of a step before which nothing else has happened. -/
def Circumstance.still (o : Observation) (launched : Except Failure (Adapter × Moment × Nat))
    (verdict : Verdict) : Circumstance := ⟨id, Manager.length_id, o, launched, verdict⟩

/-- The session that an execution holds. -/
def Stage.held? : Stage → Option Nat
  | checking _ n => some n
  | leaving _ n => some n
  | admitting n => some n
  | feeding n => some n
  | _ => none

/-! ## Calls -/

/-- What is asked of a manager. -/
inductive Request where
  | execute (l : Language) (code : List Char)
  | startEager
  | reset (l : Language)
  /-- The sessions are stopped in some order. -/
  | shutdown (order : { order : List Nat → List Nat // ∀ ns, (order ns).Perm ns })

/-- How far somebody has come who calls a manager. -/
inductive Call where
  | execute (l : Language) (code : List Char) (stage : Stage) (handed : List (Nat × List Char))
  /-- Sessions are to be started; the first language may have been looked up in vain. -/
  | startEager (rest : List Language) (missing : Bool)
  | reset (l : Language)
  | shutdown (order : { order : List Nat → List Nat // ∀ ns, (order ns).Perm ns })
  /-- Sessions that were taken from their slots are to be stopped. -/
  | stop (rest : List Nat)
  /-- A session is held and told to end, and others are to be stopped after it. -/
  | terminate (n : Nat) (rest : List Nat)

/-- The call that a request begins. -/
def Request.call (m : Manager) : Request → Call
  | execute l code => .execute l code (.seeking 1) []
  | startEager => .startEager m.settings.eagerLanguages false
  | reset l => .reset l
  | shutdown order => .shutdown order

namespace Call

/-- The session that a call holds. -/
def held? : Call → Option Nat
  | execute _ _ stage _ => stage.held?
  | terminate n _ => some n
  | _ => none

/-- The language for which a call starts a session at its next step, unless there is one by then. -/
def opens : Call → Option Language
  | execute l _ (.filling _) _ => some l
  | startEager (l :: _) true => some l
  | _ => none

/-- The sessions that a call takes from their slots at its next step, to stop them. -/
def takes (m : Manager) : Call → List Nat
  | reset l => (m.slot? l).toList
  | shutdown order => order.val (m.slots.map Prod.snd)
  | _ => []

/-- The turn that a call has given when it comes to be another one by a step. -/
def begun : Call → Call → Option Turn
  | execute _ _ (.feeding _) _, execute _ _ (.ended (.ok t)) _ => some t
  | _, _ => none

/-- One step of a call. -/
def step (c : Circumstance) (m : Manager) : Call → Manager × Call
  | execute l code stage handed =>
    let e := Execution.next l code ⟨m, stage, handed⟩ c
    (e.manager, execute l code e.stage e.handed)
  | startEager [] missing => (m, startEager [] missing)
  | startEager (l :: rest) false =>
    match m.usable? l with
    | some _ => (m, startEager rest false)
    | none => (m, startEager (l :: rest) true)
  | startEager (l :: rest) true =>
    let started := c.launched.map fun p => Session.start p.1 m.settings.session p.2.1 p.2.2
    ((m.fill l started).2, startEager rest false)
  | reset l => (m.setSlot l none, stop (m.slot? l).toList)
  | shutdown order => ({ m with slots := [] }, stop (order.val (m.slots.map Prod.snd)))
  | stop [] => (m, stop [])
  | stop (n :: rest) =>
    match m.hold? n with
    | some m => (m, terminate n rest)
    -- a turn has the session, so its process is killed by the handle
    | none => (m, stop rest)
  | terminate n rest =>
    ((m.setSession n ((m.session n).terminate c.observed)).release n, stop rest)

end Call

/-! ## Turns -/

/-- What somebody who has a turn is about. -/
inductive Grip where
  | reading
  /-- A call for the next event has found the streams closed and waits for the process to end. -/
  | reaping
  /-- The turn was let go and given up if it had not finished; its session is still held. -/
  | leaving
  | gone
  deriving DecidableEq, Repr

/-- A turn that somebody has or had. -/
structure Tenure where
  turn : Turn
  grip : Grip
  /-- The events that came of it. -/
  yielded : List LineEvent
  /-- The messages that came into the queue of its session since the code was fed, while the session
  was held. -/
  queued : List Message

/-- What somebody does who has a turn. -/
inductive Deed where
  /-- A call for the next event reads the queue. -/
  | poll
  /-- A call that has found the streams closed goes on, with what the host answers by now. -/
  | reap (o : Observation)
  /-- The drain window passes while a call waits. -/
  | quiet
  /-- The turn is let go, and given up if it has not finished. -/
  | drop (o : Observation)
  /-- The session of a turn that was let go is held no longer. -/
  | leave

namespace Tenure

/-- A turn that has just begun. -/
def begin (t : Turn) : Tenure := ⟨t, .reading, [], []⟩

/-- The session that is held for a turn. -/
def held? (t : Tenure) : Option Nat := if t.grip = .gone then none else some t.turn.session

/-- Whether events may still be asked for. -/
def isOpen (t : Tenure) : Bool := !t.turn.finished && (t.grip == .reading || t.grip == .reaping)

/-- The turn after an event came of it. -/
def yield (t : Tenure) (e : LineEvent) : Tenure :=
  { t with
    turn := { t.turn with finished := e.isTerminal }
    grip := .reading
    yielded := t.yielded ++ [e] }

/-- The turn after messages came into the queue of a session. -/
def hear (t : Tenure) (n : Nat) (more : List Message) : Tenure :=
  if t.held? = some n then { t with queued := t.queued ++ more } else t

/-- The manager and the turn after somebody who has the turn did something; nothing, if it cannot be
done. -/
def step (m : Manager) (t : Tenure) : Deed → Manager × Tenure
  | .poll =>
    if t.isOpen then
      match (m.session t.turn.session).poll with
      | (.event e, s) => (m.setSession t.turn.session s, t.yield e)
      | (.idle, s) =>
        (m.setSession t.turn.session s, { t with turn := { t.turn with finished := true } })
      | (.waiting, s) => (m.setSession t.turn.session s, { t with grip := .reading })
      | (.gone, s) => (m.setSession t.turn.session s, { t with grip := .reaping })
    else (m, t)
  | .reap o =>
    if t.isOpen ∧ t.grip = .reaping then
      let (e, s) := (m.session t.turn.session).exited o
      (m.setSession t.turn.session s, t.yield e)
    else (m, t)
  | .quiet =>
    if t.isOpen ∧ t.grip = .reading ∧ (m.session t.turn.session).progress = .draining then
      let (e, s) := (m.session t.turn.session).quiet
      (m.setSession t.turn.session s, t.yield e)
    else (m, t)
  | .drop o =>
    if t.grip = .reading ∨ t.grip = .reaping then
      (if t.turn.finished then m
        else m.setSession t.turn.session ((m.session t.turn.session).abandon o),
        { t with grip := .leaving })
    else (m, t)
  | .leave =>
    if t.grip = .leaving then (m.release t.turn.session, { t with grip := .gone }) else (m, t)

end Tenure

/-! ## All together -/

/-- A manager, those who call it, those who have turns, and what is remembered. -/
structure Traffic where
  manager : Manager
  calls : List Call
  tenures : List Tenure
  /-- The language for which each session was started. -/
  origins : List Language
  /-- The sessions that were taken from their slots to be stopped. -/
  taken : List Nat

/-- What may happen next. -/
inductive Act where
  | enter (r : Request)
  /-- Somebody takes a step who is in a call; what the host answers is for that step. -/
  | go (k : Nat) (o : Observation) (launched : Except Failure (Adapter × Moment × Nat))
      (verdict : Verdict)
  /-- Somebody does something who has a turn. -/
  | handle (k : Nat) (d : Deed)
  /-- The threads of a session go on. -/
  | threads (n : Nat) (streams : Streams) (transcript : Transcript)

namespace Traffic

/-- A manager without sessions that nobody has called. -/
def start (settings : Settings) : Traffic := ⟨.fresh settings, [], [], [], []⟩

/-- The traffic after a step of a call that is in a place. -/
def goOn (x : Traffic) (k : Nat) (call : Call) (c : Circumstance) : Traffic :=
  let (m, call') := call.step c x.manager
  { manager := m
    calls := x.calls.set k call'
    tenures := x.tenures ++ ((call.begun call').map Tenure.begin).toList
    origins := x.origins ++
      if x.manager.sessions.length < m.sessions.length then call.opens.toList else []
    taken := x.taken ++ call.takes x.manager }

/-- The traffic after something happened; nothing, if it cannot happen. -/
def act (x : Traffic) : Act → Traffic
  | .enter r => { x with calls := x.calls ++ [r.call x.manager] }
  | .go k o launched verdict =>
    match x.calls[k]? with
    | some call => x.goOn k call (.still o launched verdict)
    | none => x
  | .handle k d =>
    match x.tenures[k]? with
    | some t =>
      let (m, t) := t.step x.manager d
      { x with manager := m, tenures := x.tenures.set k t }
    | none => x
  | .threads n streams transcript =>
    let s := x.manager.session n
    if n < x.manager.sessions.length ∧ s.streams.Grows streams then
      { x with
        manager := x.manager.setSession n { s with streams := streams, transcript := transcript }
        tenures := x.tenures.map fun t =>
          t.hear n (streams.queue.drop s.streams.queue.length) }
    else x

/-- The traffic after several things happened. -/
def run (x : Traffic) (acts : List Act) : Traffic := acts.foldl act x

end Traffic

/-! ## What a call does -/

namespace Stage

/-- What an execution knows of its session at some stages. -/
def Knows (m : Manager) : Stage → Prop
  | leaving _ n => (m.session n).needsRestart = true
  | discarding _ n => (m.session n).needsRestart = true
  | admitting n => (m.session n).needsRestart = false
  | feeding n => (m.session n).needsRestart = false
  | _ => True

end Stage

namespace Call

variable {m m' : Manager} {call : Call} {l : Language} {code : List Char} {stage : Stage}
  {handed : List (Nat × List Char)} {c : Circumstance} {o : Observation}
  {launched : Except Failure (Adapter × Moment × Nat)} {verdict : Verdict}

/-- How a call fits a manager: its sessions are there, an execution has handed nothing over before
it ends well, and what it knows of its session is so. -/
def Fits (m : Manager) : Call → Prop
  | execute _ _ stage handed => (∀ n ∈ stage.session?, n < m.sessions.length) ∧ stage.Knows m ∧
      ((∀ t, stage ≠ .ended (.ok t)) → handed = [])
  | stop rest => ∀ n ∈ rest, n < m.sessions.length
  | terminate n rest => n < m.sessions.length ∧ ∀ k ∈ rest, k < m.sessions.length
  | _ => True

/-- What a step of a call does to a manager, which session the call holds then, and which turn it
has given. -/
inductive Effect (m : Manager) (call : Call) : Manager → Option Nat → Option Turn → Prop
  /-- Nothing is changed. -/
  | looks : Effect m call m call.held? none
  /-- A session that nobody held is held. -/
  | holds (n : Nat) : call.held? = none → n < m.sessions.length → n ∉ m.held →
      Effect m call { m with held := n :: m.held } (some n) none
  /-- The session that is held is changed. -/
  | changes (n : Nat) (s : Session) : call.held? = some n → n < m.sessions.length →
      (m.session n).Keeps s → Effect m call (m.setSession n s) (some n) none
  /-- The session that was held is let go. -/
  | lets (n : Nat) (s : Session) : call.held? = some n → n < m.sessions.length →
      (m.session n).Keeps s → Effect m call ((m.setSession n s).release n) none none
  /-- Code is fed to the session that is held, and the turn takes it over. -/
  | feeds (n : Nat) (s : Session) (verdict : Verdict) (code : List Char) (t : Turn) :
      call.held? = some n → n < m.sessions.length → (m.session n).needsRestart = false →
      (m.session n).feed verdict code = (.ok (), s) → t.session = n → t.finished = false →
      Effect m call (m.setSession n s) none (some t)
  /-- A session is started for a language that has no usable one. -/
  | opens (l : Language) (adapter : Adapter) (now : Moment) (pid : Nat) :
      call.held? = none → call.opens = some l → m.usable? l = none →
      Effect m call ({ m with sessions := m.sessions ++
        [Session.start adapter m.settings.session now pid] }.setSlot l (some m.sessions.length))
        none none
  /-- Slots are emptied, of sessions that are dead or are to be stopped. -/
  | empties (slots : List (Language × Nat)) : call.held? = none → slots ⊆ m.slots →
      (∀ l, { m with slots := slots }.slot? l = m.slot? l ∨
        { m with slots := slots }.slot? l = none ∧ ∀ n, m.slot? l = some n →
          n ∈ call.takes m ∨ (m.session n).needsRestart = true) →
      Effect m call { m with slots := slots } none none

theorem effect_fill {r : Except Failure Nat} (hheld : call.held? = none)
    (hopens : call.opens = some l)
    (h : m.fill l (launched.map fun p => Session.start p.1 m.settings.session p.2.1 p.2.2) =
      (r, m')) : call.Effect m m' none none := by
  have hlooks : call.Effect m m none none := hheld ▸ .looks
  unfold Manager.fill at h
  split at h
  · cases h
    exact hlooks
  · next hnone =>
    cases launched with
    | error f =>
      cases h
      exact hlooks
    | ok p =>
      cases h
      exact .opens l p.1 p.2.1 p.2.2 hheld hopens hnone

/-- A slot is emptied of a session that is dead or is to be stopped. -/
theorem effect_setSlot (hheld : call.held? = none)
    (h : ∀ n, m.slot? l = some n → n ∈ call.takes m ∨ (m.session n).needsRestart = true) :
    call.Effect m (m.setSlot l none) none none := by
  have hslot : ∀ l', (m.setSlot l none).slot? l' = m.slot? l' ∨
      (m.setSlot l none).slot? l' = none ∧ ∀ n, m.slot? l' = some n →
        n ∈ call.takes m ∨ (m.session n).needsRestart = true := by
    intro l'
    rw [Manager.slot?_setSlot]
    split
    · next hl => exact .inr ⟨rfl, hl ▸ h⟩
    · exact .inl rfl
  exact .empties _ hheld (List.filter_subset_self _) hslot

/-- A step of an execution that has not ended is one of its stage. -/
theorem step_execute (hgoes : ∀ r, stage ≠ .ended r) :
    (execute l code stage handed).step (.still o launched verdict) m =
      ((stage.step l code (.still o launched verdict) m).1,
        execute l code (stage.step l code (.still o launched verdict) m).2
          (handed ++ m.handed (stage.step l code (.still o launched verdict) m).1)) := by
  rw [step, Execution.next_eq hgoes]
  rfl

/-- What a stage of an execution does. -/
theorem effect_stage (h : (execute l code stage handed).Fits m) (hgoes : ∀ r, stage ≠ .ended r)
    (handed' : List (Nat × List Char)) :
    (execute l code stage handed).Effect m
      (stage.step l code (.still o launched verdict) m).1
      (stage.step l code (.still o launched verdict) m).2.held?
      (begun (execute l code stage handed) (execute l code
        (stage.step l code (.still o launched verdict) m).2 handed')) := by
  obtain ⟨hknown, hknows, -⟩ := h
  cases stage with
  | ended r => exact absurd rfl (hgoes r)
  | seeking tries =>
    simp only [Stage.step]
    cases m.usable? l <;> exact .looks
  | filling tries =>
    obtain ⟨⟨r, m'⟩, hfill⟩ : ∃ p, m.fill l
      (launched.map fun p => Session.start p.1 m.settings.session p.2.1 p.2.2) = p := ⟨_, rfl⟩
    simp only [Stage.step, Circumstance.still, hfill]
    cases r <;> exact effect_fill rfl rfl hfill
  | holding tries n =>
    simp only [Stage.step]
    split
    · exact .looks
    · next m' hsome =>
      obtain ⟨hfree, rfl⟩ := Manager.hold?_eq_some_iff.mp hsome
      exact .holds n rfl (hknown n rfl) hfree
  | checking tries n =>
    simp only [Stage.step]
    split <;> exact .changes n _ rfl (hknown n rfl) (Session.keeps_refresh _ _)
  | leaving tries n =>
    -- a session that is let go unchanged is let go after a change to itself
    have hlets : (execute l code (.leaving tries n) handed).Effect m
        ((m.setSession n (m.session n)).release n) none none :=
      .lets n _ rfl (hknown n rfl) (.refl _)
    rwa [Manager.setSession_self] at hlets
  | discarding tries n =>
    have hdiscard : (execute l code (.discarding tries n) handed).Effect m (m.discard l n) none
        none := by
      rw [Manager.discard]
      split
      · next hslot =>
        -- the session in the slot is the one that was found dead
        refine effect_setSlot rfl fun k hk => .inr ?_
        rw [hslot] at hk
        cases hk
        exact hknows
      · exact .looks
    cases tries <;> exact hdiscard
  | admitting n =>
    obtain ⟨⟨r, s⟩, hwelcome⟩ : ∃ p, (m.session n).welcome o = p := ⟨_, rfl⟩
    have hkeeps := Session.keeps_welcome hwelcome
    simp only [Stage.step, Circumstance.still, hwelcome]
    cases r with
    | error f => exact .lets n s rfl (hknown n rfl) hkeeps
    | ok _ => exact .changes n s rfl (hknown n rfl) hkeeps
  | feeding n =>
    obtain ⟨⟨r, s⟩, hfeed⟩ : ∃ p, (m.session n).feed verdict code = p := ⟨_, rfl⟩
    simp only [Stage.step, Circumstance.still, hfeed]
    cases r with
    | error f => exact .lets n s rfl (hknown n rfl) (Session.keeps_feed hfeed)
    | ok _ => exact .feeds n s verdict code _ rfl (hknown n rfl) hknows hfeed rfl rfl

/-- What a step of a call does. -/
theorem effect_step (h : call.Fits m) (o : Observation)
    (launched : Except Failure (Adapter × Moment × Nat)) (verdict : Verdict) :
    call.Effect m (call.step (.still o launched verdict) m).1
      (call.step (.still o launched verdict) m).2.held?
      (call.begun (call.step (.still o launched verdict) m).2) := by
  cases call with
  | execute l code stage handed =>
    by_cases hended : ∃ r, stage = .ended r
    · obtain ⟨r, rfl⟩ := hended
      exact .looks
    · rw [step_execute (not_exists.mp hended)]
      exact effect_stage h (not_exists.mp hended) _
  | startEager rest missing =>
    cases rest with
    | nil => exact .looks
    | cons l rest =>
      cases missing with
      | false =>
        simp only [step]
        cases m.usable? l <;> exact .looks
      | true => exact effect_fill rfl rfl rfl
  | reset l => exact effect_setSlot rfl fun n hn => .inl (by simp [takes, hn])
  | shutdown order =>
    -- the order permutes the sessions in the slots, so each is one that the call takes
    refine .empties [] rfl (List.nil_subset _) fun l => .inr ⟨rfl, fun n hn => .inl ?_⟩
    exact (order.property _).mem_iff.mpr (List.mem_map.mpr ⟨_, Manager.mem_of_slot? hn, rfl⟩)
  | stop rest =>
    cases rest with
    | nil => exact .looks
    | cons n rest =>
      simp only [step]
      split
      · next m' hsome =>
        obtain ⟨hfree, rfl⟩ := Manager.hold?_eq_some_iff.mp hsome
        exact .holds n rfl (h n (by simp)) hfree
      · exact .looks
  | terminate n rest => exact .lets n _ rfl h.1 (Session.keeps_terminate _ _)

/-- What an execution knows of its session after a step. -/
theorem knows_step (h : (execute l code stage handed).Fits m) (hgoes : ∀ r, stage ≠ .ended r) :
    (stage.step l code c m).2.Knows (stage.step l code c m).1 := by
  obtain ⟨hknown, hknows, -⟩ := h
  cases stage with
  | ended r => exact absurd rfl (hgoes r)
  | seeking tries =>
    simp only [Stage.step]
    cases m.usable? l <;> trivial
  | filling tries =>
    simp only [Stage.step]
    split <;> trivial
  | holding tries n =>
    simp only [Stage.step]
    split <;> trivial
  | checking tries n =>
    have hn : n < m.sessions.length := hknown n rfl
    simp only [Stage.step]
    split
    · next hrestart =>
      rw [Stage.Knows, Manager.session_setSession_self hn]
      exact hrestart
    · next hrestart =>
      rw [Stage.Knows, Manager.session_setSession_self hn]
      exact Bool.eq_false_iff.mpr hrestart
  | leaving tries n => exact hknows
  | discarding tries n => cases tries <;> trivial
  | admitting n =>
    have hn : n < m.sessions.length := hknown n rfl
    obtain ⟨⟨r, s⟩, hwelcome⟩ : ∃ p, (m.session n).welcome c.observed = p := ⟨_, rfl⟩
    simp only [Stage.step, hwelcome]
    cases Session.welcome_cases hwelcome with
    | busy => trivial
    | gone => trivial
    | admitted _ hrestart =>
      dsimp only
      rw [Stage.Knows, Manager.session_setSession_self hn]
      exact hrestart
  | feeding n =>
    simp only [Stage.step]
    split <;> trivial

/-- A call fits the manager after its step. -/
theorem fits_step (h : call.Fits m) (hslots : ∀ p ∈ m.slots, p.2 < m.sessions.length)
    (o : Observation) (launched : Except Failure (Adapter × Moment × Nat)) (verdict : Verdict) :
    (call.step (.still o launched verdict) m).2.Fits
      (call.step (.still o launched verdict) m).1 := by
  cases call with
  | execute l code stage handed =>
    by_cases hended : ∃ r, stage = .ended r
    · obtain ⟨r, rfl⟩ := hended
      exact h
    · rw [not_exists] at hended
      rw [step_execute hended]
      have hknows := knows_step (c := .still o launched verdict) h hended
      obtain ⟨hknown, -, hnone⟩ := h
      rw [hnone fun t => hended (.ok t), List.nil_append]
      -- nothing is handed over before the execution ends well, so nothing was before this step
      have hsteps := Stage.steps_step l code (.still o launched verdict) hknown hended
      generalize stage.step l code (.still o launched verdict) m = after at hknows hsteps
      obtain ⟨m', stage'⟩ := after
      cases hsteps with
      | on _ hhanded hthere => exact ⟨hthere, hknows, fun _ => hhanded⟩
      | done => exact ⟨by rintro _ ⟨⟩, trivial, fun hnot => absurd rfl (hnot _)⟩
  | startEager rest missing =>
    cases rest with
    | nil => trivial
    | cons l rest =>
      cases missing with
      | false =>
        simp only [step]
        split <;> trivial
      | true => trivial
  | reset l =>
    intro n hn
    exact hslots _ (Manager.mem_of_slot? (by simpa using hn))
  | shutdown order =>
    intro n hn
    obtain ⟨p, hp, rfl⟩ := List.mem_map.mp ((order.property _).mem_iff.mp hn)
    exact hslots p hp
  | stop rest =>
    cases rest with
    | nil => exact h
    | cons n rest =>
      have hrest : ∀ k ∈ rest, k < m.sessions.length := fun k hk => h k (List.mem_cons_of_mem n hk)
      simp only [step]
      split
      · next m' hsome =>
        obtain ⟨-, rfl⟩ := Manager.hold?_eq_some_iff.mp hsome
        exact ⟨h n (by simp), hrest⟩
      · exact hrest
  | terminate n rest =>
    intro k hk
    exact Nat.lt_of_lt_of_eq (h.2 k hk) Manager.length_setSession.symm

theorem Fits.lt_of_held? (h : call.Fits m) {n : Nat} (hn : call.held? = some n) :
    n < m.sessions.length := by
  cases call with
  | execute l code stage handed =>
    refine h.1 n ?_
    cases stage <;> first | exact hn | cases hn
  | terminate k rest =>
    cases hn
    exact h.1
  | _ => cases hn

/-- A call still fits a manager with which somebody else has done something, if it knows as much of
the session that it holds. -/
theorem Fits.of_keeps (h : call.Fits m) (hkeeps : m.Keeps m')
    (hstill : ∀ n, call.held? = some n →
      (m'.session n).needsRestart = (m.session n).needsRestart) : call.Fits m' := by
  cases call with
  | execute l code stage handed =>
    obtain ⟨hknown, hknows, hnone⟩ := h
    refine ⟨fun n hn => Nat.lt_of_lt_of_le (hknown n hn) hkeeps.length, ?_, hnone⟩
    cases stage with
    | leaving tries n => exact (hkeeps.session n (hknown n rfl)).restart hknows
    | discarding tries n => exact (hkeeps.session n (hknown n rfl)).restart hknows
    | admitting n => exact (hstill n rfl).trans hknows
    | feeding n => exact (hstill n rfl).trans hknows
    | _ => trivial
  | startEager => trivial
  | reset => trivial
  | shutdown => trivial
  | stop rest => exact fun n hn => Nat.lt_of_lt_of_le (h n hn) hkeeps.length
  | terminate n rest =>
    exact ⟨Nat.lt_of_lt_of_le h.1 hkeeps.length,
      fun k hk => Nat.lt_of_lt_of_le (h.2 k hk) hkeeps.length⟩

/-! ## What others have of it -/

variable {held : Option Nat} {begun : Option Turn}

/-- What others can rely on when a call has taken a step. -/
theorem Effect.keeps (h : call.Effect m m' held begun) : m.Keeps m' := by
  cases h with
  | looks => exact Manager.keeps_of_sessions rfl
  | holds => exact Manager.keeps_of_sessions rfl
  | changes n s _ hn hs => exact Manager.keeps_setSession hn hs
  | lets n s _ hn hs =>
    have hset := Manager.keeps_setSession hn hs
    exact ⟨hset.length, hset.session, hset.sane⟩
  | feeds n s verdict code t _ hn _ hfeed =>
    exact Manager.keeps_setSession hn (Session.keeps_feed hfeed)
  | opens l adapter now pid =>
    refine ⟨by simp [Manager.setSlot], fun n hn => ?_, fun hsane n hn => ?_⟩
    · rw [Manager.session_setSlot, Manager.session_append, if_neg (Nat.ne_of_lt hn)]
      exact .refl _
    · rw [Manager.session_setSlot, Manager.session_append]
      split
      · exact Session.sane_start _ _ _ _
      · next hne =>
        refine hsane n ?_
        simp only [Manager.setSlot, List.length_append, List.length_singleton] at hn
        omega
  | empties => exact Manager.keeps_of_sessions rfl

/-- A session that a call does not hold is the same after its step. -/
theorem Effect.others (h : call.Effect m m' held begun) {n : Nat} (hn : n < m.sessions.length)
    (hne : call.held? ≠ some n) : m'.session n = m.session n := by
  have hset : ∀ {k s}, call.held? = some k → k < m.sessions.length →
      (m.setSession k s).session n = m.session n := by
    intro k s hk hlt
    rw [Manager.session_setSession hlt, if_neg]
    rintro rfl
    exact hne hk
  cases h with
  | looks => rfl
  | holds => rfl
  | changes k s hk hlt => exact hset hk hlt
  | lets k s hk hlt => exact hset hk hlt
  | feeds k s verdict code t hk hlt => exact hset hk hlt
  | opens l adapter now pid =>
    rw [Manager.session_setSlot, Manager.session_append, if_neg (Nat.ne_of_lt hn)]
  | empties => rfl

/-- A turn that is given begins on a session that need not be replaced and was fed the code. -/
theorem Effect.of_begun {t : Turn} (h : call.Effect m m' held (some t)) :
    t.session < m.sessions.length ∧ (m.session t.session).needsRestart = false ∧
      t.finished = false ∧ m'.sessions.length = m.sessions.length ∧ ∃ verdict code,
        (m.session t.session).feed verdict code = (.ok (), m'.session t.session) := by
  cases h with
  | feeds n s verdict code _ _ hn hrestart hfeed hsession hfinished =>
    subst hsession
    refine ⟨hn, hrestart, hfinished, Manager.length_setSession, verdict, code, ?_⟩
    rw [Manager.session_setSession_self hn]
    exact hfeed

/-- What becomes of the slots: some may have been emptied, or a session was started for one that had
no usable session. -/
theorem Effect.slots (h : call.Effect m m' held begun) :
    (m'.sessions.length = m.sessions.length ∧ m'.slots ⊆ m.slots ∧
      ∀ l, m'.slot? l = m.slot? l ∨ m'.slot? l = none ∧ ∀ n, m.slot? l = some n →
        n ∈ call.takes m ∨ (m.session n).needsRestart = true) ∨
    ∃ l adapter now pid, call.opens = some l ∧ m.usable? l = none ∧
      m' = { m with sessions := m.sessions ++
        [Session.start adapter m.settings.session now pid] }.setSlot l
          (some m.sessions.length) := by
  have hsame : m.slots ⊆ m.slots ∧ ∀ l, m.slot? l = m.slot? l ∨ m.slot? l = none ∧
      ∀ n, m.slot? l = some n → n ∈ call.takes m ∨ (m.session n).needsRestart = true :=
    ⟨List.Subset.refl _, fun _ => .inl rfl⟩
  cases h with
  | looks => exact .inl ⟨rfl, hsame⟩
  | holds => exact .inl ⟨rfl, hsame⟩
  | changes => exact .inl ⟨Manager.length_setSession, hsame⟩
  | lets => exact .inl ⟨Manager.length_setSession, hsame⟩
  | feeds => exact .inl ⟨Manager.length_setSession, hsame⟩
  | opens l adapter now pid _ hopens hnone =>
    exact .inr ⟨l, adapter, now, pid, hopens, hnone, rfl⟩
  | empties slots _ hsubset hslots => exact .inl ⟨rfl, hsubset, hslots⟩

/-- Who holds sessions, if they are held by the call and by others. -/
theorem Effect.custody (h : call.Effect m m' held begun) (hnodup : m.held.Nodup)
    {others : List Nat} (hheld : (call.held?.toList ++ others).Perm m.held) :
    m'.held.Nodup ∧
      (held.toList ++ ((begun.map Turn.session).toList ++ others)).Perm m'.held := by
  cases h with
  | looks => exact ⟨hnodup, hheld⟩
  | holds n hnone _ hfree =>
    rw [hnone] at hheld
    exact ⟨List.nodup_cons.mpr ⟨hfree, hnodup⟩, hheld.cons n⟩
  | changes n s hn =>
    rw [hn] at hheld
    exact ⟨hnodup, hheld⟩
  | lets n s hn =>
    rw [hn] at hheld
    have herase := hheld.erase n
    simp only [Option.toList_some, List.singleton_append, List.erase_cons_head] at herase
    exact ⟨hnodup.erase n, herase⟩
  | feeds n s verdict code t hn _ _ _ ht =>
    rw [hn] at hheld
    subst ht
    exact ⟨hnodup, hheld⟩
  | opens l adapter now pid hnone =>
    rw [hnone] at hheld
    exact ⟨hnodup, hheld⟩
  | empties slots hnone =>
    rw [hnone] at hheld
    exact ⟨hnodup, hheld⟩

end Call

/-! ## What the holder of a turn does -/

namespace Tenure

variable {m m' : Manager} {t t' : Tenure} {n : Nat}

/-- What somebody who has a turn does to a manager and to the turn. -/
inductive Effect (m : Manager) (t : Tenure) : Manager → Tenure → Prop
  | still : Effect m t m t
  /-- The session of the turn is changed. -/
  | changes (s : Session) (t' : Tenure) : (m.session t.turn.session).Keeps s → t.grip ≠ .gone →
      t'.grip ≠ .gone → t'.turn.session = t.turn.session →
      Effect m t (m.setSession t.turn.session s) t'
  /-- The session of the turn is let go. -/
  | lets : t.grip ≠ .gone → Effect m t (m.release t.turn.session) { t with grip := .gone }

theorem grip_of_isOpen (h : t.isOpen = true) : t.grip ≠ .gone := by
  intro hgone
  rw [isOpen, hgone] at h
  simp at h

/-- What a deed does. -/
theorem effect_step (m : Manager) (t : Tenure) (d : Deed) :
    t.Effect m (t.step m d).1 (t.step m d).2 := by
  cases d with
  | poll =>
    rw [step]
    split
    · next hopen =>
      have hgrip := grip_of_isOpen hopen
      have hkeeps := Session.keeps_poll (m.session t.turn.session)
      generalize (m.session t.turn.session).poll = out at hkeeps
      obtain ⟨p, s⟩ := out
      cases p with
      | event e => exact .changes s _ hkeeps hgrip (by rintro ⟨⟩) rfl
      | idle => exact .changes s _ hkeeps hgrip hgrip rfl
      | waiting => exact .changes s _ hkeeps hgrip (by rintro ⟨⟩) rfl
      | gone => exact .changes s _ hkeeps hgrip (by rintro ⟨⟩) rfl
    · exact .still
  | reap o =>
    rw [step]
    split
    · next hopen =>
      exact .changes _ _ (Session.keeps_exited _ o) (grip_of_isOpen hopen.1) (by rintro ⟨⟩) rfl
    · exact .still
  | quiet =>
    rw [step]
    split
    · next hopen =>
      exact .changes _ _ (Session.keeps_quiet _) (grip_of_isOpen hopen.1) (by rintro ⟨⟩) rfl
    · exact .still
  | drop o =>
    rw [step]
    split
    · next hgrip =>
      have hgone : t.grip ≠ .gone := by
        rintro h
        rw [h] at hgrip
        rcases hgrip with h | h <;> cases h
      -- a turn that has finished leaves its session as it is; another one gives it up
      split
      · have h := Effect.changes (m := m) (t := t) (m.session t.turn.session)
          { t with grip := .leaving } (.refl _) hgone (by rintro ⟨⟩) rfl
        rwa [Manager.setSession_self] at h
      · exact .changes _ _ (Session.keeps_abandon _ o) hgone (by rintro ⟨⟩) rfl
    · exact .still
  | leave =>
    rw [step]
    split
    · next hgrip => exact .lets (by rw [hgrip]; rintro ⟨⟩)
    · exact .still

theorem held?_eq_some : t.held? = some n ↔ t.grip ≠ .gone ∧ t.turn.session = n := by
  rw [held?]
  split
  · next h => simp [h]
  · next h => simp [h]

/-- The turn is of the same session whatever is done with it. -/
theorem Effect.session (h : t.Effect m m' t') : t'.turn.session = t.turn.session := by
  cases h with
  | still => rfl
  | changes _ _ _ _ _ h => exact h
  | lets => rfl

theorem Effect.keeps (h : t.Effect m m' t') (hn : t.turn.session < m.sessions.length) :
    m.Keeps m' := by
  cases h with
  | still => exact Manager.keeps_of_sessions rfl
  | changes s _ hs => exact Manager.keeps_setSession hn hs
  | lets => exact Manager.keeps_of_sessions rfl

/-- The other sessions are the same. -/
theorem Effect.others (h : t.Effect m m' t') (hn : t.turn.session < m.sessions.length)
    (hne : t.held? ≠ some n) : m'.session n = m.session n := by
  cases h with
  | still => rfl
  | changes s _ _ hgone =>
    rw [Manager.session_setSession hn, if_neg]
    rintro rfl
    exact hne (held?_eq_some.mpr ⟨hgone, rfl⟩)
  | lets => rfl

theorem Effect.custody (h : t.Effect m m' t') (hnodup : m.held.Nodup)
    {others : List Nat} (hheld : (t.held?.toList ++ others).Perm m.held) :
    m'.held.Nodup ∧ (t'.held?.toList ++ others).Perm m'.held := by
  cases h with
  | still => exact ⟨hnodup, hheld⟩
  | changes s _ _ hgrip hgrip' hsession =>
    refine ⟨hnodup, ?_⟩
    rw [held?_eq_some.mpr ⟨hgrip', hsession⟩]
    rwa [held?_eq_some.mpr ⟨hgrip, rfl⟩] at hheld
  | lets hgrip =>
    rw [held?_eq_some.mpr ⟨hgrip, rfl⟩] at hheld
    have herase := hheld.erase t.turn.session
    simp only [Option.toList_some, List.singleton_append, List.erase_cons_head] at herase
    exact ⟨hnodup.erase _, herase⟩

/-- Nothing is done to slots, and no session is started. -/
theorem Effect.slots (h : t.Effect m m' t') :
    m'.sessions.length = m.sessions.length ∧ m'.slots = m.slots := by
  cases h with
  | still => exact ⟨rfl, rfl⟩
  | changes => exact ⟨Manager.length_setSession, rfl⟩
  | lets => exact ⟨rfl, rfl⟩

end Tenure

end StepTrace

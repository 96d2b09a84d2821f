import StepTrace.Session
import Mathlib.Data.List.Basic

/-!
# The events of a turn

A turn is followed call by call: `await` is one call for the next event, which waits for messages,
for the end of the channel or for the drain window to pass; `calls` makes several calls in a row.
`turnEvents` is the law: of the classified lines that a turn reads it keeps those before the end
marker, lines that mean nothing left out, and behind the end marker those that were printed.

`calls_of_fed` says that a turn whose calls all return delivers the events of the law, then exactly
one terminal event, then nothing. The proof carries the law through one reading of the queue
(`pollFrom_spec`), one call (`await_spec`) and all calls (`calls_of_inFlight`). That all calls
return is sure once the channel ends (`calls_of_endComes`).
-/

set_option autoImplicit false

namespace StepTrace

/-! ## The law -/

/-- Whether an event is a line that was printed. -/
def LineEvent.isOutput : LineEvent → Bool
  | .outputText _ => true
  | _ => false

/-- What the lines among some messages mean. -/
def Adapter.heard (a : Adapter) (read : List Message) : List LineEvent :=
  read.filterMap fun
    | .line source text => some (a.classifyOutput text.toList source)
    | _ => none

/-- The events that lines with some meanings come to, the terminal one left out. -/
def turnEvents (heard : List LineEvent) : List LineEvent :=
  (heard.takeWhile (· != .endOfExecution)).filter (· != .discard) ++
    (heard.dropWhile (· != .endOfExecution)).filter LineEvent.isOutput

/-- The events that lines come to from some progress of a turn on. -/
def eventsFrom (p : Progress) (heard : List LineEvent) : List LineEvent :=
  if p = .draining then heard.filter LineEvent.isOutput else turnEvents heard

theorem turnEvents_cons (e : LineEvent) (heard : List LineEvent) (h1 : e ≠ .endOfExecution)
    (h2 : e ≠ .discard) : turnEvents (e :: heard) = e :: turnEvents heard := by
  simp [turnEvents, h1, h2]

/-- A line that means nothing is never an event of a turn. -/
theorem discard_not_mem_turnEvents (heard : List LineEvent) :
    LineEvent.discard ∉ turnEvents heard := by
  intro h
  rcases List.mem_append.mp h with h | h
  · simp at h
  · simp [LineEvent.isOutput] at h

theorem classify_ne_fault (s : List Char) (reason : String) :
    Marker.classify s ≠ .fault reason := by
  rw [Marker.classify]
  split
  · simp
  · split <;> simp

/-- No line of output is a fault. -/
theorem classifyOutput_ne_fault (a : Adapter) (line : List Char) (source : Source)
    (reason : String) : a.classifyOutput line source ≠ .fault reason := by
  cases source with
  | stdout => exact classify_ne_fault line reason
  | stderr =>
    simp only [Adapter.classifyOutput, Adapter.classifyLine]
    split
    · simp only [Python.classifyPrompted]
      split
      · simp
      · exact classify_ne_fault _ reason
    · exact classify_ne_fault line reason

namespace Session

/-! ## Reading the queue -/

/-- What reading some messages of a turn with some progress comes to, and the session then: all are
passed over, they become an event, they end the turn, or the streams turn out to be closed. -/
inductive Reads (a : Adapter) (p : Progress) (read : List Message) : Option Poll → Session → Prop
  | passed (t : Session) : t.progress ≠ .idle → t.adapter = a →
      (∀ later, eventsFrom p (a.heard read ++ later) = eventsFrom t.progress later) →
      Reads a p read none t
  | event (e : LineEvent) (t : Session) : e.isTerminal = false → t.progress ≠ .idle →
      t.adapter = a →
      (∀ later, eventsFrom p (a.heard read ++ later) = e :: eventsFrom t.progress later) →
      Reads a p read (some (.event e)) t
  | last (e : LineEvent) (t : Session) : e.isTerminal = true → t.progress = .idle →
      eventsFrom p (a.heard read) = [] → Reads a p read (some (.event e)) t
  | gone (t : Session) : t.progress ≠ .idle → t.adapter = a →
      eventsFrom p (a.heard read) = [] → Reads a p read (some .gone) t

theorem heard_append (a : Adapter) (read more : List Message) :
    a.heard (read ++ more) = a.heard read ++ a.heard more :=
  List.filterMap_append

/-- Messages that are passed over count with those that are read after them. -/
theorem Reads.after_passed {a : Adapter} {p : Progress} {read more : List Message} {t u : Session}
    {out : Option Poll} (h1 : Reads a p read none t) (h2 : Reads t.adapter t.progress more out u) :
    Reads a p (read ++ more) out u := by
  cases h1 with
  | passed _ hbusy hadapter hlaw =>
    subst hadapter
    -- the law holds whatever comes later, so also with what was read in between
    cases h2 with
    | passed _ hb ha hl =>
      refine .passed u hb ha fun later => ?_
      rw [heard_append, List.append_assoc, hlaw, hl]
    | event e _ he hb ha hl =>
      refine .event e u he hb ha fun later => ?_
      rw [heard_append, List.append_assoc, hlaw, hl]
    | last e _ he hi hl => exact .last e u he hi (by rw [heard_append, hlaw, hl])
    | gone _ hb ha hl => exact .gone u hb ha (by rw [heard_append, hlaw, hl])

theorem eventsFrom_nil (p : Progress) : eventsFrom p [] = [] := by
  simp [eventsFrom, turnEvents]

/-- What one message does to a turn in flight. -/
theorem heed_spec (s : Session) (m : Message) (hs : s.progress ≠ .idle) :
    Reads s.adapter s.progress [m] (s.heed m).1 (s.heed m).2 := by
  cases m with
  | closed source =>
    simp only [heed]
    split
    · exact .gone s hs rfl (eventsFrom_nil _)
    · exact .passed s hs rfl fun _ => rfl
  | writeFailed reason => exact .last _ _ rfl rfl (eventsFrom_nil _)
  | line source text =>
    have hone : s.adapter.heard [.line source text] =
        [s.adapter.classifyOutput text.toList source] := rfl
    simp only [heed]
    cases hc : s.adapter.classifyOutput text.toList source with
    | discard =>
      refine .passed s hs rfl fun later => ?_
      rw [hone, hc, eventsFrom, eventsFrom]
      split <;> rfl
    | endOfExecution =>
      -- a second end marker is passed over; the first one ends the turn or begins the draining
      by_cases hd : s.progress = .draining
      · simp only [hd, if_true]
        refine .passed s hs rfl fun later => ?_
        rw [hone, hc, hd]
        rfl
      · simp only [hd, if_false]
        split
        · exact .last _ _ rfl rfl (by rw [hone, hc, eventsFrom, if_neg hd]; rfl)
        · refine .passed _ (by simp) rfl fun later => ?_
          rw [hone, hc, eventsFrom, if_neg hd]
          rfl
    | activeLine n =>
      by_cases hd : s.progress = .draining
      · simp only [hd, if_true]
        refine .passed s hs rfl fun later => ?_
        rw [hone, hc, hd]
        rfl
      · simp only [hd, if_false]
        refine .event _ s rfl hs rfl fun later => ?_
        rw [hone, hc]
        simp only [eventsFrom, if_neg hd]
        exact turnEvents_cons _ _ (by simp) (by simp)
    | outputText t =>
      refine .event _ s rfl hs rfl fun later => ?_
      rw [hone, hc, eventsFrom, eventsFrom]
      split
      · rfl
      · exact turnEvents_cons _ _ (by simp) (by simp)
    | fault reason => exact absurd hc (classifyOutput_ne_fault _ _ _ _)

theorem streams_heed (s : Session) (m : Message) : (s.heed m).2.streams = s.streams := by
  cases m with
  | closed source => rfl
  | writeFailed reason => rfl
  | line source text =>
    simp only [heed]
    split
    · rfl
    · split
      · rfl
      · split <;> rfl
    · split <;> rfl
    · rfl

theorem queue_takeMessage (s : Session) (m : Message) (rest : List Message) :
    (s.takeMessage m rest).streams.queue = rest := Streams.queue_note _ m

/-- Reading a queue comes to an event, to closed streams, or to a wait when all is read. -/
theorem pollFrom_spec (queue : List Message) (s : Session) (hs : s.progress ≠ .idle)
    (hq : s.streams.queue = queue) :
    ∃ read p t, s.pollFrom queue = (p, t) ∧ read ++ t.streams.queue = queue ∧
      (Reads s.adapter s.progress read (some p) t ∨
        p = .waiting ∧ t.streams.queue = [] ∧ t.streams.senderGone = false ∧
          Reads s.adapter s.progress read none t) := by
  -- each message either decides the call or is passed over
  induction queue generalizing s with
  | nil =>
    refine ⟨[], (if s.streams.senderGone then .gone else .waiting), s, rfl, by simp [hq], ?_⟩
    split
    · exact .inl (.gone s hs rfl (eventsFrom_nil _))
    · next h => exact .inr ⟨rfl, hq, by simpa using h, .passed s hs rfl fun _ => rfl⟩
  | cons m rest ih =>
    have hread := heed_spec (s.takeMessage m rest) m hs
    have hqueue : ((s.takeMessage m rest).heed m).2.streams.queue = rest := by
      rw [streams_heed, queue_takeMessage]
    rw [pollFrom]
    generalize (s.takeMessage m rest).heed m = out at hread hqueue ⊢
    rcases out with ⟨_ | p, t⟩
    · have hbusy : t.progress ≠ .idle := by cases hread; assumption
      obtain ⟨read, p, u, hpoll, hcut, h⟩ := ih t hbusy hqueue
      refine ⟨m :: read, p, u, hpoll, by simp [hcut], ?_⟩
      rcases h with hr | ⟨hp, he, hg, hr⟩
      · exact .inl (hread.after_passed hr)
      · exact .inr ⟨hp, he, hg, hread.after_passed hr⟩
    · have hrest : t.streams.queue = rest := hqueue
      exact ⟨[m], p, t, rfl, by simp [hrest], .inl hread⟩

theorem poll_spec (s : Session) (hs : s.progress ≠ .idle) :
    ∃ read p t, s.poll = (p, t) ∧ read ++ t.streams.queue = s.streams.queue ∧
      (Reads s.adapter s.progress read (some p) t ∨
        p = .waiting ∧ t.streams.queue = [] ∧ t.streams.senderGone = false ∧
          Reads s.adapter s.progress read none t) := by
  rw [poll, if_neg hs]
  exact pollFrom_spec s.streams.queue s hs rfl

/-! ## One call -/

/-- What a call for the next event may meet while nothing is in the queue. -/
inductive Arrival where
  | message (m : Message)
  /-- Nobody is left who could send a message. -/
  | ended
  /-- The drain window passes; without one this is nothing. -/
  | quiet
  deriving DecidableEq, Repr

/-- The messages among arrivals. -/
def arriving (as : List Arrival) : List Message :=
  as.filterMap fun
    | .message m => some m
    | _ => none

/-- One call for the next event, and the arrivals that it leaves; nothing if it waits for ever. -/
def await (host : Nat → Observation) (s : Session) (as : List Arrival) :
    Option (Option LineEvent × Session × List Arrival) :=
  match s.poll with
  | (.event e, t) => some (some e, t, as)
  | (.idle, t) => some (none, t, as)
  | (.gone, t) =>
    let (e, t) := t.exited (host t.patience)
    some (some e, t, as)
  | (.waiting, t) =>
    match as with
    | [] => none
    | .message m :: as => await host { t with streams := t.streams.send m } as
    | .ended :: as => await host { t with streams := t.streams.dropSender } as
    | .quiet :: as => if t.progress = .draining then some (some t.quiet.1, t.quiet.2, as)
      else await host t as
  termination_by structural as

/-- A call without a turn in flight gives nothing. -/
theorem await_of_idle (host : Nat → Observation) (s : Session) (as : List Arrival)
    (hs : s.progress = .idle) : await host s as = some (none, s, as) := by
  unfold await
  simp [poll, hs]

/-- The turn ends when the process is gone. -/
theorem exited_spec (s : Session) (o : Observation) :
    (s.exited o).1.isTerminal = true ∧ (s.exited o).2.progress = .idle ∧
      (s.exited o).2.streams = s.streams := by
  have hreap : (s.reap o).streams = s.streams := by
    rw [reap]
    split <;> rfl
  have hdead : (s.markDead.reap o).streams = s.streams := by
    rw [reap]
    split <;> rfl
  rw [exited]
  split
  · exact ⟨rfl, rfl, hdead⟩
  · exact ⟨rfl, rfl, hreap⟩

/-- What a call has read when it comes back. -/
def Returns (s : Session) (as : List Arrival) (out : Option LineEvent) (t : Session)
    (rest : List Arrival) : Prop :=
  ∃ e read, out = some e ∧ Reads s.adapter s.progress read (some (.event e)) t ∧
    read ++ (t.streams.queue ++ arriving rest) = s.streams.queue ++ arriving as

/-- A call that need not wait gives an event at once. -/
theorem returns_of_reads (host : Nat → Observation) (s u t : Session) (as rest : List Arrival)
    (out : Option LineEvent) (p : Poll) (read : List Message) (hpoll : s.poll = (p, u))
    (hread : Reads s.adapter s.progress read (some p) u)
    (hcut : read ++ u.streams.queue = s.streams.queue)
    (h : await host s as = some (out, t, rest)) : Returns s as out t rest := by
  unfold await at h
  rw [hpoll] at h
  cases hread with
  | event e _ he hb ha hl =>
    simp only [Option.some.injEq, Prod.mk.injEq] at h
    obtain ⟨rfl, rfl, rfl⟩ := h
    exact ⟨e, read, rfl, .event e u he hb ha hl, by rw [← List.append_assoc, hcut]⟩
  | last e _ he hi hl =>
    simp only [Option.some.injEq, Prod.mk.injEq] at h
    obtain ⟨rfl, rfl, rfl⟩ := h
    exact ⟨e, read, rfl, .last e u he hi hl, by rw [← List.append_assoc, hcut]⟩
  | gone _ hb ha hl =>
    obtain ⟨hterminal, hidle, hstreams⟩ := exited_spec u (host u.patience)
    simp only [Option.some.injEq, Prod.mk.injEq] at h
    obtain ⟨rfl, rfl, rfl⟩ := h
    exact ⟨_, read, rfl, .last _ _ hterminal hidle hl,
      by rw [hstreams, ← List.append_assoc, hcut]⟩

/-- A call that has passed over all that waited goes on with what arrives. -/
theorem Returns.after_passed {s u v t : Session} {as more rest : List Arrival}
    {out : Option LineEvent} {read : List Message} (h : Returns v more out t rest)
    (hread : Reads s.adapter s.progress read none u) (hcut : read = s.streams.queue)
    (hp : v.progress = u.progress) (ha : v.adapter = u.adapter)
    (hmore : v.streams.queue ++ arriving more = arriving as) : Returns s as out t rest := by
  obtain ⟨e, later, rfl, hlater, hrest⟩ := h
  rw [hp, ha] at hlater
  refine ⟨e, read ++ later, rfl, hread.after_passed hlater, ?_⟩
  rw [List.append_assoc, hrest, hmore, hcut]

/-- A call that comes back has read a first part of the messages, and gives what this comes to. -/
theorem await_spec (host : Nat → Observation) (as rest : List Arrival) (s t : Session)
    (out : Option LineEvent) (hs : s.progress ≠ .idle)
    (h : await host s as = some (out, t, rest)) : Returns s as out t rest := by
  -- a call waits only when the queue is read to its end, so each arrival is read before the next
  induction as generalizing s with
  | nil =>
    obtain ⟨read, p, u, hpoll, hcut, hread | ⟨rfl, -, -, -⟩⟩ := poll_spec s hs
    · exact returns_of_reads host s u t [] rest out p read hpoll hread hcut h
    · unfold await at h
      simp [hpoll] at h
  | cons a as ih =>
    obtain ⟨read, p, u, hpoll, hcut, hread | ⟨rfl, hempty, hgone, hread⟩⟩ := poll_spec s hs
    · exact returns_of_reads host s u t (a :: as) rest out p read hpoll hread hcut h
    have hbusy : u.progress ≠ .idle := by cases hread; assumption
    rw [hempty, List.append_nil] at hcut
    unfold await at h
    simp only [hpoll] at h
    cases a with
    | message m =>
      have hqueue : (u.streams.send m).queue = [m] := by simp [Streams.send, hgone, hempty]
      refine (ih { u with streams := u.streams.send m } hbusy h).after_passed hread hcut rfl rfl ?_
      simp [hqueue, arriving]
    | ended =>
      refine (ih { u with streams := u.streams.dropSender } hbusy h).after_passed hread hcut
        rfl rfl ?_
      simp [Streams.dropSender, hempty, arriving]
    | quiet =>
      simp only at h
      split at h
      · next hd =>
        simp only [Option.some.injEq, Prod.mk.injEq] at h
        obtain ⟨rfl, rfl, rfl⟩ := h
        have hlast : Reads u.adapter u.progress [] (some (.event u.quiet.1)) u.quiet.2 :=
          .last _ _ rfl rfl (eventsFrom_nil _)
        exact ⟨_, read, rfl, by simpa using hread.after_passed hlast,
          by simp [quiet, finishTurn, hempty, hcut, arriving]⟩
      · exact (ih u hbusy h).after_passed hread hcut rfl rfl (by simp [hempty, arriving])

/-! ## All calls of a turn -/

/-- Some calls in a row: what they give, the session then, and the arrivals that they leave; nothing
if one of them waits for ever. -/
def calls (host : Nat → Observation) : Nat → Session → List Arrival →
    Option (List (Option LineEvent) × Session × List Arrival)
  | 0, s, as => some ([], s, as)
  | n + 1, s, as => do
    let (out, t, left) ← await host s as
    let (outs, u, left) ← calls host n t left
    return (out :: outs, u, left)

/-- Without a turn in flight nothing comes of any number of calls. -/
theorem calls_of_idle (host : Nat → Observation) (n : Nat) (s : Session) (as : List Arrival)
    (hs : s.progress = .idle) : calls host n s as = some (List.replicate n none, s, as) := by
  induction n with
  | zero => rfl
  | succ n ih => simp [calls, await_of_idle host s as hs, ih, List.replicate_succ]

/-- More calls go on where the first one stopped. -/
theorem calls_succ (host : Nat → Observation) (n : Nat) (s t : Session) (as left : List Arrival)
    (out : Option LineEvent) (h : await host s as = some (out, t, left)) :
    calls host (n + 1) s as =
      (calls host n t left).map fun c => (out :: c.1, c.2.1, c.2.2) := by
  simp only [calls, h, Option.bind_eq_bind, Option.bind_some]
  cases calls host n t left <;> rfl

/-- An event that does not end the turn was read off some message. -/
theorem Reads.read_ne_nil {a : Adapter} {p : Progress} {read : List Message} {t : Session}
    {e : LineEvent} (h : Reads a p read (some (.event e)) t) (he : e.isTerminal = false) :
    read ≠ [] := by
  rintro rfl
  cases h with
  | event _ _ _ _ _ hlaw =>
    have hnil := hlaw []
    rw [List.append_nil, eventsFrom_nil] at hnil
    exact absurd ((eventsFrom_nil p).symm.trans hnil) (by simp)
  | last _ _ hlast => exact absurd hlast (by simp [he])

/-- What all calls from some point of a turn on come to: events that do not end it, as the law has
them for the messages that are read, the event that ends it, and nothing more. -/
def Delivers (host : Nat → Observation) (s : Session) (as : List Arrival) : Prop :=
  ∃ before last read t left,
    read ++ (t.streams.queue ++ arriving left) = s.streams.queue ++ arriving as ∧
    before = eventsFrom s.progress (s.adapter.heard read) ∧
    (∀ e ∈ before, e.isTerminal = false) ∧ last.isTerminal = true ∧ t.progress = .idle ∧
    ∀ n, calls host (before.length + 1 + n) s as =
      some ((before ++ [last]).map some ++ List.replicate n none, t, left)

/-- A turn of which every call returns comes to its end. The number of messages that are still to
come falls with each call that does not end the turn. -/
theorem calls_of_inFlight (host : Nat → Observation) (s : Session) (as : List Arrival)
    (hs : s.progress ≠ .idle) (hreturn : ∀ n, calls host n s as ≠ none) :
    Delivers host s as := by
  induction hk : (s.streams.queue ++ arriving as).length using Nat.strongRecOn
    generalizing s as with
  | ind k ih =>
    obtain ⟨⟨out, t, left⟩, hawait⟩ : ∃ r, await host s as = some r := by
      refine Option.ne_none_iff_exists'.mp fun hnone => hreturn 1 ?_
      simp [calls, hnone]
    obtain ⟨e, read, rfl, hread, hcut⟩ := await_spec host as left s t out hs hawait
    cases he : e.isTerminal with
    | true =>
      cases hread with
      | event _ _ h => exact absurd he (by simp [h])
      | last _ _ _ hidle hlaw =>
        -- the turn is over, and all further calls give nothing
        refine ⟨[], e, read, t, left, hcut, hlaw.symm, by simp, he, hidle, fun n => ?_⟩
        rw [List.length_nil, Nat.zero_add, Nat.add_comm, calls_succ host n s t as left _ hawait,
          calls_of_idle host n t left hidle]
        rfl
    | false =>
      have hsome := hread.read_ne_nil he
      cases hread with
      | last _ _ h => exact absurd h (by simp [he])
      | event _ _ _ hbusy hadapter hlaw =>
        -- the event took a message, so the calls after it have fewer before them
        have hless : (t.streams.queue ++ arriving left).length < k := by
          have hpos := List.length_pos_iff.mpr hsome
          have hlen := congrArg List.length hcut
          rw [List.length_append] at hlen
          omega
        have hgoes : ∀ n, calls host n t left ≠ none := by
          intro n hnone
          apply hreturn (n + 1)
          rw [calls_succ host n s t as left _ hawait, hnone, Option.map_none]
        obtain ⟨before, last, more, u, rest, hmore, hbefore, hnone, hlast, hidle, hcalls⟩ :=
          ih _ hless t left hbusy hgoes rfl
        refine ⟨e :: before, last, read ++ more, u, rest, ?_, ?_, ?_, hlast, hidle, ?_⟩
        · rw [List.append_assoc, hmore, hcut]
        · rw [heard_append, hlaw, hbefore, hadapter]
        · exact List.forall_mem_cons.mpr ⟨he, hnone⟩
        · intro n
          have hlen : (e :: before).length + 1 + n = before.length + 1 + n + 1 := by
            rw [List.length_cons]
            omega
          rw [hlen, calls_succ host _ s t as left _ hawait, hcalls n]
          rfl

/-- Whether the channel ends while a turn is followed. -/
def EndComes (s : Session) (as : List Arrival) : Prop :=
  s.streams.senderGone = true ∨ Arrival.ended ∈ as

theorem senderGone_takeMessage (s : Session) (m : Message) (rest : List Message) :
    (s.takeMessage m rest).streams.senderGone = s.streams.senderGone := by
  cases m with
  | closed source => cases source <;> rfl
  | line => rfl
  | writeFailed => rfl

theorem senderGone_pollFrom (queue : List Message) (s : Session) :
    (s.pollFrom queue).2.streams.senderGone = s.streams.senderGone := by
  induction queue generalizing s with
  | nil => rfl
  | cons m rest ih =>
    have hstep : ((s.takeMessage m rest).heed m).2.streams.senderGone = s.streams.senderGone := by
      rw [streams_heed, senderGone_takeMessage]
    rw [pollFrom]
    generalize (s.takeMessage m rest).heed m = out at hstep
    rcases out with ⟨_ | p, t⟩
    · exact (ih t).trans hstep
    · exact hstep

theorem senderGone_poll (s : Session) :
    s.poll.2.streams.senderGone = s.streams.senderGone := by
  rw [poll]
  split
  · rfl
  · exact senderGone_pollFrom _ s

/-- A call that need not wait comes back, and the channel still ends. -/
theorem await_of_poll (host : Nat → Observation) (s u : Session) (as : List Arrival) (p : Poll)
    (hpoll : s.poll = (p, u)) (hp : p ≠ .waiting) (hend : EndComes s as) :
    ∃ out t left, await host s as = some (out, t, left) ∧
      (t.progress = .idle ∨ EndComes t left) := by
  have hsender := senderGone_poll s
  rw [hpoll] at hsender
  have hstill : EndComes u as := hend.imp_left hsender.trans
  unfold await
  rw [hpoll]
  cases p with
  | event e => exact ⟨some e, u, as, rfl, .inr hstill⟩
  | idle => exact ⟨none, u, as, rfl, .inr hstill⟩
  | waiting => exact absurd rfl hp
  | gone =>
    obtain ⟨-, hidle, -⟩ := exited_spec u (host u.patience)
    exact ⟨_, _, as, rfl, .inl hidle⟩

/-- A call comes back if the channel ends. -/
theorem await_of_endComes (host : Nat → Observation) (s : Session) (as : List Arrival)
    (hs : s.progress ≠ .idle) (hend : EndComes s as) :
    ∃ out t left, await host s as = some (out, t, left) ∧
      (t.progress = .idle ∨ EndComes t left) := by
  induction as generalizing s with
  | nil =>
    obtain ⟨read, p, u, hpoll, -, hread | ⟨-, -, hgone, -⟩⟩ := poll_spec s hs
    · exact await_of_poll host s u [] p hpoll (by rintro rfl; cases hread) hend
    · have hsender := senderGone_poll s
      rw [hpoll, hgone] at hsender
      rcases hend with h | h
      · exact absurd (hsender.trans h) (by simp)
      · exact absurd h (by simp)
  | cons a as ih =>
    obtain ⟨read, p, u, hpoll, -, hread | ⟨rfl, -, hgone, hread⟩⟩ := poll_spec s hs
    · exact await_of_poll host s u (a :: as) p hpoll (by rintro rfl; cases hread) hend
    have hbusy : u.progress ≠ .idle := by cases hread; assumption
    -- the call waits, so somebody is left who could send: the end is still to come
    have hmem : Arrival.ended ∈ a :: as := by
      have hsender := senderGone_poll s
      rw [hpoll, hgone] at hsender
      rcases hend with h | h
      · exact absurd (hsender.trans h) (by simp)
      · exact h
    unfold await
    simp only [hpoll]
    cases a with
    | message m =>
      have hmore : Arrival.ended ∈ as := by simpa using hmem
      exact ih { u with streams := u.streams.send m } hbusy (.inr hmore)
    | ended => exact ih { u with streams := u.streams.dropSender } hbusy (.inl rfl)
    | quiet =>
      have hmore : Arrival.ended ∈ as := by simpa using hmem
      simp only
      split
      · exact ⟨_, _, as, rfl, .inl rfl⟩
      · exact ih u hbusy (.inr hmore)

/-- Every call of a turn comes back if the channel ends. -/
theorem calls_of_endComes (host : Nat → Observation) (s : Session) (as : List Arrival)
    (hend : EndComes s as) (n : Nat) : calls host n s as ≠ none := by
  induction n generalizing s as with
  | zero => simp [calls]
  | succ n ih =>
    by_cases hs : s.progress = .idle
    · simp [calls_of_idle host (n + 1) s as hs]
    obtain ⟨out, t, left, hawait, hnext⟩ := await_of_endComes host s as hs hend
    rw [calls_succ host n s t as left out hawait, Ne, Option.map_eq_none_iff]
    rcases hnext with hidle | hnext
    · simp [calls_of_idle host n t left hidle]
    · exact ih t left hnext

/-- What feeding leaves of a session. -/
theorem feed_spec {s t : Session} {verdict : Verdict} {code : List Char}
    (h : s.feed verdict code = (.ok (), t)) :
    t.progress = .running ∧ t.adapter = s.adapter ∧ t.drainGrace = s.drainGrace ∧
      t.streams.queue = [] := by
  have hqueue := Streams.queue_drain s.streams
  rw [feed] at h
  split at h
  · simp at h
  · simp only [Streams.write] at h
    split at h
    · simp at h
    · next hw =>
      simp only [Prod.mk.injEq, true_and] at h
      subst h
      split at hw
      · simp at hw
      · simp only [Except.ok.injEq] at hw
        subst hw
        exact ⟨rfl, rfl, rfl, hqueue⟩

/-- What a turn of the shell may meet: late lines after the end marker, a late marker among them,
until the drain window passes. -/
def lateArrivals : List Arrival :=
  ["##active_line1##", "hi", "##end_of_execution##", "late", "##active_line2##"].map
    (fun text => .message (.line .stdout text)) ++ [.quiet, .ended]

/-- A session of a shell that was just started. -/
def freshShell : Session := start (.posix .shell ⟨"sh", []⟩) .default default 1

end Session

end StepTrace

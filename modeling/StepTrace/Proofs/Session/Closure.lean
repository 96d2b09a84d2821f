import StepTrace.Proofs.Session.Threads

/-!
# Turns whose streams are known to be closed

That both output streams have closed ends a turn when the call for the next event reads it. But a
submission also throws away what waits before it feeds the code, and only takes down what is said of
closed streams; the code is fed all the same. Here a session is followed through submissions and
calls for events while its threads work (`Exchange`). While a turn is in flight both streams are
known to be closed exactly if they were when the code was fed (`InFlight.closed`). Then nothing but a
failure of the writer can still be heard, and without one the call waits for ever (`await_of_muted`).
-/

set_option autoImplicit false

namespace StepTrace

/-- What happens to a session that is submitted to and read from. -/
inductive Dealing where
  | hear (news : News)
  /-- A submission; the news arrive while the code is prepared. -/
  | submit (o : Observation) (news : List News) (verdict : Verdict) (code : List Char)
  /-- A call for the next event reads the queue. It returns an event, or it still waits. -/
  | next (host : Nat → Observation)
  /-- The drain window passes while a call for the next event waits. -/
  | quiet

/-- A session, and what is remembered of the submission in flight. -/
structure Exchange where
  session : Session
  /-- Whether both output streams were known to be closed when the code was fed. -/
  fedClosed : Bool

namespace Exchange

/-- A session that has just started. -/
def start (adapter : Adapter) (settings : SessionSettings) (now : Moment) (pid : Nat) : Exchange :=
  ⟨.start adapter settings now pid, false⟩

/-- The exchange after something happened. -/
def deal (x : Exchange) : Dealing → Exchange
  | .hear news => { x with session := x.session.hear news }
  | .submit o news verdict code =>
    match x.session.welcome o with
    | (.error _, s) => { x with session := s }
    | (.ok _, s) =>
      match (s.hearAll news).feed verdict code with
      | (.error _, t) => { x with session := t }
      | (.ok _, t) => ⟨t, (s.hearAll news).streams.drain.2.allClosed⟩
  | .next host => { x with session := (x.session.next host).2 }
  | .quiet => if x.session.progress = .draining then { x with session := x.session.quiet.2 } else x

/-- The exchange after several things happened. -/
def run (x : Exchange) (ds : List Dealing) : Exchange := ds.foldl deal x

end Exchange

namespace Session

/-! ## A turn in which nothing is printed any more -/

/-- A turn in flight whose readers have stopped: the writer may fail, and that is all. -/
structure Muted (s : Session) : Prop where
  progress : s.progress = .running
  closed : s.streams.allClosed = true
  queue : s.streams.queue = [] ∧ s.streams.writerGone = false ∧ s.streams.senderGone = false ∨
    ∃ reason, s.streams.queue = [.writeFailed reason] ∧ s.streams.writerGone = true

theorem not_reads_of_allClosed {s : Streams} (h : s.allClosed = true) (source : Source) :
    s.reads source = false := by
  rw [Streams.allClosed_eq, Bool.and_eq_true, Bool.not_eq_true', Bool.not_eq_true'] at h
  cases source with
  | stdout => rw [Streams.reads, h.1, Bool.false_and]
  | stderr => rw [Streams.reads, h.2, Bool.false_and]

theorem Muted.hear {s : Session} (h : s.Muted) (news : News) : (s.hear news).Muted := by
  have hstreams : (s.hear news).streams = s.streams.hear news := rfl
  have hhears := s.streams.hear_cases news
  rw [← hstreams] at hhears
  refine ⟨h.progress, hhears.grows.allClosed.trans h.closed, ?_⟩
  generalize (s.hear news).streams = t at hhears ⊢
  cases hhears with
  | still => exact h.queue
  | sent source m hreads =>
    rw [not_reads_of_allClosed h.closed] at hreads
    cases hreads
  | taken => exact h.queue
  | failed reason hwriter =>
    rcases h.queue with ⟨hempty, -, hsender⟩ | ⟨_, -, hgone⟩
    · refine .inr ⟨reason, ?_, rfl⟩
      simp [Streams.dropWriter, Streams.send, hsender, hempty]
    · rw [hwriter] at hgone
      cases hgone
  | left hwriter =>
    rcases h.queue with ⟨-, hthere, -⟩ | ⟨reason, hqueue, -⟩
    · rw [hwriter] at hthere
      cases hthere
    · exact .inr ⟨reason, hqueue, hwriter⟩

/-- A call reads the failure of the writer, or finds nothing and waits. -/
theorem Muted.poll {s : Session} (h : s.Muted) :
    s.poll = (.waiting, s) ∧ s.streams.queue = [] ∨
      ∃ reason t, s.streams.queue = [.writeFailed reason] ∧ t.progress = .idle ∧
        s.poll = (.event (.fault ("failed to write to interpreter: " ++ reason)), t) := by
  have hbusy : s.progress ≠ .idle := by
    rw [h.progress]
    decide
  rw [Session.poll, if_neg hbusy]
  rcases h.queue with ⟨hempty, -, hsender⟩ | ⟨reason, hqueue, -⟩
  · refine .inl ⟨?_, hempty⟩
    rw [hempty, pollFrom, hsender]
    rfl
  · refine .inr ⟨reason, _, hqueue, ?_, by rw [hqueue]; rfl⟩
    rfl

/-- With nobody heard a call waits for ever, unless the writer has failed. -/
theorem await_of_muted {s : Session} (h : s.Muted) (host : Nat → Observation) (k : Nat) :
    (await host s (List.replicate k .quiet) = none ∧ s.streams.queue = []) ∨
      ∃ reason t left, s.streams.queue = [.writeFailed reason] ∧
        await host s (List.replicate k .quiet) =
          some (some (.fault ("failed to write to interpreter: " ++ reason)), t, left) := by
  rcases h.poll with ⟨hpoll, hempty⟩ | ⟨reason, t, hqueue, -, hpoll⟩
  · refine .inl ⟨?_, hempty⟩
    -- the drain window is not open while the code runs, so its passing changes nothing
    induction k with
    | zero =>
      unfold await
      rw [List.replicate_zero, hpoll]
    | succ k ih =>
      unfold await
      rw [List.replicate_succ, hpoll]
      dsimp only
      rw [if_neg (by rw [h.progress]; decide), ih]
  · refine .inr ⟨reason, t, List.replicate k .quiet, hqueue, ?_⟩
    unfold await
    rw [hpoll]

/-! ## A turn that began with an open stream -/

/-- Reading ends the turn if it tells that the last stream has closed. -/
theorem allClosed_pollFrom (queue : List Message) (s : Session)
    (h : s.streams.allClosed = false) :
    (s.pollFrom queue).1 = .gone ∨ (s.pollFrom queue).2.progress = .idle ∨
      (s.pollFrom queue).2.streams.allClosed = false := by
  induction queue generalizing s with
  | nil => exact .inr (.inr h)
  | cons m rest ih =>
    have hstreams := streams_heed (s.takeMessage m rest) m
    rw [pollFrom]
    cases hopen : (s.takeMessage m rest).streams.allClosed with
    | false =>
      rw [← hstreams] at hopen
      generalize (s.takeMessage m rest).heed m = out at hopen
      rcases out with ⟨_ | p, t⟩
      · exact ih t hopen
      · exact .inr (.inr hopen)
    | true =>
      -- only the notice of a closed stream can have told it
      cases m with
      | line source text =>
        rw [show (s.takeMessage (.line source text) rest).streams.allClosed = s.streams.allClosed
          from rfl, h] at hopen
        cases hopen
      | writeFailed reason => exact .inr (.inl rfl)
      | closed source =>
        left
        rw [heed, hopen]
        rfl

theorem allClosed_next {s : Session} (h : s.streams.allClosed = false)
    (host : Nat → Observation) :
    (s.next host).2.progress = .idle ∨ (s.next host).2.streams.allClosed = false := by
  have hpoll : s.poll.1 = .gone ∨ s.poll.2.progress = .idle ∨
      s.poll.2.streams.allClosed = false := by
    rw [poll]
    split
    · exact .inr (.inr h)
    · exact allClosed_pollFrom _ s h
  rw [next]
  split
  · next t hgone => exact .inl (exited_spec t _).2.1
  · next other hother =>
    rcases hpoll with hgone | hrest
    · generalize s.poll = out at hgone hother
      obtain ⟨p, t⟩ := out
      cases hgone
      exact absurd rfl (hother t)
    · exact hrest

theorem writerLast_next {s : Session} (h : s.streams.WriterLast) (host : Nat → Observation) :
    (s.next host).2.streams.WriterLast := by
  have hpoll := writerLast_poll h
  rw [next]
  split
  · next t hgone =>
    rw [hgone] at hpoll
    rw [(exited_spec t _).2.2]
    exact hpoll
  · next other hother => exact hpoll

theorem writerLast_hearAll {s : Session} (h : s.streams.WriterLast) (news : List News) :
    (s.hearAll news).streams.WriterLast := by
  induction news generalizing s with
  | nil => exact h
  | cons n news ih => exact ih (h.of_grows (s.streams.hear_cases n).grows)

theorem progress_hearAll (s : Session) (news : List News) :
    (s.hearAll news).progress = s.progress := by
  induction news generalizing s with
  | nil => rfl
  | cons n news ih => exact ih (s.hear n)

end Session

/-! ## Every exchange -/

namespace Exchange

/-- What is known of an exchange at any time. -/
structure Known (x : Exchange) : Prop where
  writer : x.session.streams.WriterLast
  /-- In flight both streams are known to be closed only if they were when the code was fed. -/
  opened : x.session.progress ≠ .idle → x.fedClosed = false → x.session.streams.allClosed = false
  muted : x.session.progress ≠ .idle → x.fedClosed = true → x.session.Muted

theorem known_start (adapter : Adapter) (settings : SessionSettings) (now : Moment) (pid : Nat) :
    (start adapter settings now pid).Known where
  writer := by rintro ⟨⟩
  opened h := absurd rfl h
  muted h := absurd rfl h

/-- A session without a turn is all right. -/
theorem Known.of_idle {x : Exchange} (hwriter : x.session.streams.WriterLast)
    (hidle : x.session.progress = .idle) : x.Known :=
  ⟨hwriter, fun h => absurd hidle h, fun h => absurd hidle h⟩

theorem known_hear {x : Exchange} (h : x.Known) (news : News) : (x.deal (.hear news)).Known where
  writer := h.writer.of_grows (x.session.streams.hear_cases news).grows
  opened hbusy hopen :=
    (x.session.streams.hear_cases news).grows.allClosed.trans (h.opened hbusy hopen)
  muted hbusy hclosed := (h.muted hbusy hclosed).hear news

/-- A submission begins a turn with an empty queue, and with the writer at work. -/
theorem known_submit {x : Exchange} (h : x.Known) (o : Observation) (news : List News)
    (verdict : Verdict) (code : List Char) : (x.deal (.submit o news verdict code)).Known := by
  obtain ⟨⟨r, s⟩, hwelcome⟩ : ∃ p, x.session.welcome o = p := ⟨_, rfl⟩
  have hrefreshed := Session.writerLast_refresh h.writer o
  rw [deal, hwelcome]
  cases Session.welcome_cases hwelcome with
  | busy => exact ⟨h.writer, h.opened, h.muted⟩
  | gone hidle => exact .of_idle hrefreshed ((Session.refresh_spec _ o).2.1.trans hidle)
  | admitted hidle =>
    obtain ⟨t, ht⟩ : ∃ t, (x.session.refresh o).hearAll news = t := ⟨_, rfl⟩
    have hwriter : t.streams.WriterLast := ht ▸ Session.writerLast_hearAll hrefreshed news
    have hstill : t.progress = .idle := by
      rw [← ht, Session.progress_hearAll, (Session.refresh_spec _ o).2.1, hidle]
    obtain ⟨⟨r, u⟩, hfeed⟩ : ∃ p, t.feed verdict code = p := ⟨_, rfl⟩
    dsimp only
    rw [ht, hfeed]
    cases Session.feed_cases hfeed with
    | unprepared => exact .of_idle hwriter hstill
    | unsent => exact .of_idle hwriter.drain hstill
    | handed program hprepared hthere =>
      refine ⟨hwriter.drain, fun _ hopen => hopen, fun _ hclosed => ⟨rfl, hclosed, .inl ?_⟩⟩
      have hgone : t.streams.drain.2.writerGone = false :=
        (Streams.writerGone_drain t.streams).trans hthere
      refine ⟨Streams.queue_drain t.streams, hgone, ?_⟩
      -- the writer is the last to let go of the channel, and it is at work
      by_contra hsender
      rw [Bool.not_eq_false] at hsender
      exact absurd (hwriter.drain hsender) (by rw [hgone]; decide)

theorem known_next {x : Exchange} (h : x.Known) (host : Nat → Observation) :
    (x.deal (.next host)).Known := by
  have hwriter := Session.writerLast_next h.writer host
  by_cases hidle : x.session.progress = .idle
  · refine .of_idle hwriter ?_
    rw [deal, Session.next, Session.poll, if_pos hidle]
    exact hidle
  cases hfed : x.fedClosed with
  | false =>
    rcases Session.allClosed_next (h.opened hidle hfed) host with hended | hopen
    · exact .of_idle hwriter hended
    · exact ⟨hwriter, fun _ _ => hopen, fun _ hclosed => absurd (hfed.symm.trans hclosed) (by decide)⟩
  | true =>
    have hmuted := h.muted hidle hfed
    rcases hmuted.poll with ⟨hpoll, -⟩ | ⟨reason, t, -, hended, hpoll⟩
    · have hsame : x.deal (.next host) = x := by
        rw [deal, Session.next, hpoll]
      rw [hsame]
      exact h
    · refine .of_idle hwriter ?_
      rw [deal, Session.next, hpoll]
      exact hended

theorem known_quiet {x : Exchange} (h : x.Known) : (x.deal .quiet).Known := by
  rw [deal]
  split
  · exact .of_idle h.writer rfl
  · exact h

theorem known_deal {x : Exchange} (h : x.Known) (d : Dealing) : (x.deal d).Known := by
  cases d with
  | hear news => exact known_hear h news
  | submit o news verdict code => exact known_submit h o news verdict code
  | next host => exact known_next h host
  | quiet => exact known_quiet h

theorem known_run {x : Exchange} (h : x.Known) (ds : List Dealing) : (x.run ds).Known := by
  induction ds generalizing x with
  | nil => exact h
  | cons d ds ih => exact ih (known_deal h d)

/-- While a turn is in flight, both output streams are known to be closed exactly if they were when
the code was fed. Then the code is still taken to run, and a call for the next event comes back
without another message exactly if the writer has failed: it waits for ever if not. -/
theorem allClosed_in_flight (adapter : Adapter) (settings : SessionSettings) (now : Moment)
    (pid : Nat) (ds : List Dealing) (x : Exchange)
    (hx : (start adapter settings now pid).run ds = x) (hbusy : x.session.progress ≠ .idle) :
    (x.session.streams.allClosed = true ↔ x.fedClosed = true) ∧
    (x.session.streams.allClosed = true → x.session.progress = .running ∧
      ∀ host k, (Session.await host x.session (List.replicate k .quiet) ≠ none ↔
        ∃ reason, x.session.streams.queue = [.writeFailed reason]) ∧
        ∀ out, Session.await host x.session (List.replicate k .quiet) = some out →
          ∃ reason, out.1 = some (.fault ("failed to write to interpreter: " ++ reason))) := by
  subst hx
  have hknown := known_run (known_start adapter settings now pid) ds
  generalize (start adapter settings now pid).run ds = x at hbusy hknown ⊢
  have hiff : x.session.streams.allClosed = true ↔ x.fedClosed = true := by
    constructor
    · intro hclosed
      by_contra hfed
      rw [hknown.opened hbusy (Bool.eq_false_iff.mpr hfed)] at hclosed
      cases hclosed
    · exact fun hfed => (hknown.muted hbusy hfed).closed
  refine ⟨hiff, fun hclosed => ?_⟩
  -- with both streams closed only the writer can still send anything
  have hmuted := hknown.muted hbusy (hiff.mp hclosed)
  refine ⟨hmuted.progress, fun host k => ?_⟩
  rcases Session.await_of_muted hmuted host k with ⟨hnone, hempty⟩ |
    ⟨reason, t, left, hqueue, hawait⟩
  · rw [hnone, hempty]
    exact ⟨⟨fun h => absurd rfl h, by rintro ⟨_, ⟨⟩⟩⟩, by rintro _ ⟨⟩⟩
  · rw [hawait, hqueue]
    refine ⟨⟨fun _ => ⟨reason, rfl⟩, fun _ => by simp⟩, ?_⟩
    rintro _ ⟨⟩
    exact ⟨reason, rfl⟩

/-- An exchange with a shell that has just started. -/
def freshShell : Exchange := start (.posix .shell ⟨"sh", []⟩) .default default 1

/-- A submission while whose code is prepared both output streams close. -/
def closedMeanwhile : Dealing :=
  .submit default [.closed .stdout, .closed .stderr] .accepted ['x']

theorem allClosed_in_flight_closedMeanwhile :
    (freshShell.run [closedMeanwhile, .hear (.failed "Broken pipe")]).session.progress ≠ .idle ∧
      (freshShell.run [closedMeanwhile, .hear (.failed "Broken pipe")]).fedClosed = true ∧
      (freshShell.run [closedMeanwhile, .hear (.failed "Broken pipe")]).session.streams.allClosed =
        true ∧
      ∀ host k, Session.await host
        (freshShell.run [closedMeanwhile, .hear (.failed "Broken pipe")]).session
        (List.replicate k .quiet) ≠ none := by
  have hbusy : (freshShell.run [closedMeanwhile, .hear (.failed "Broken pipe")]).session.progress ≠
      .idle := by decide
  have hfed : (freshShell.run [closedMeanwhile, .hear (.failed "Broken pipe")]).fedClosed = true :=
    by decide
  obtain ⟨hiff, hends⟩ := allClosed_in_flight _ _ _ _ _ _ rfl hbusy
  refine ⟨hbusy, hfed, hiff.mpr hfed, fun host k => ?_⟩
  exact ((hends (hiff.mpr hfed)).2 host k).1.mpr ⟨"Broken pipe", by decide⟩

/-- A turn in flight whose streams are known to be closed, and a call for its next event that waits
for ever: the submission has thrown the notices away. -/
theorem closed_turn_waits :
    (freshShell.run [closedMeanwhile]).session.progress = .running ∧
      (freshShell.run [closedMeanwhile]).session.streams.allClosed = true ∧
      ∀ host k, Session.await host (freshShell.run [closedMeanwhile]).session
        (List.replicate k .quiet) = none := by
  have hknown : (freshShell.run [closedMeanwhile]).Known :=
    known_run (known_start _ _ _ _) [closedMeanwhile]
  have hmuted := hknown.muted (by decide) (by decide)
  refine ⟨hmuted.progress, hmuted.closed, fun host k => ?_⟩
  rcases Session.await_of_muted hmuted host k with ⟨hnone, -⟩ | ⟨reason, _, _, hqueue, -⟩
  · exact hnone
  · have hempty : (freshShell.run [closedMeanwhile]).session.streams.queue = [] := by decide
    rw [hempty] at hqueue
    cases hqueue

end Exchange

end StepTrace

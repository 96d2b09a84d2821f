import StepTrace.Proofs.Manager.Exclusion

/-!
# Turns that do not leak into each other

A turn reads the messages that came into the queue of its session since its code was fed, and nobody
throws away any of them while the session is held for it. So what was queued is always cut into what
was read and what waits (`Tenure.InFlight.cut`), and the events are what was read comes to. A turn
that was given up, or that ended in a fault, leaves a session that takes no code any more.

`Course` is the invariant of one turn. What its own holder does keeps it (`course_step`), and so does
all else (`fair_act`). What comes of it is `Apart`.
-/

set_option autoImplicit false

namespace StepTrace

/-- The events that a message may tell. That the streams have closed tells that the process is gone,
which the host knows more about. -/
inductive Adapter.Tells (a : Adapter) : Message → LineEvent → Prop
  | line (source : Source) (text : String) :
      Tells a (.line source text) (a.classifyOutput text.toList source)
  | closed (source : Source) (code : Option Int) :
      Tells a (.closed source) (.fault (Session.exitReason code))
  | failed (reason : String) :
      Tells a (.writeFailed reason) (.fault ("failed to write to interpreter: " ++ reason))

theorem Adapter.exists_tells_of_mem_heard {a : Adapter} {read : List Message} {e : LineEvent}
    (h : e ∈ a.heard read) : ∃ m ∈ read, a.Tells m e := by
  obtain ⟨m, hm, he⟩ := List.mem_filterMap.mp h
  cases m with
  | line source text =>
    cases he
    exact ⟨_, hm, .line source text⟩
  | closed source => cases he
  | writeFailed reason => cases he

theorem mem_heard_of_mem_turnEvents {heard : List LineEvent} {e : LineEvent}
    (h : e ∈ turnEvents heard) : e ∈ heard := by
  rcases List.mem_append.mp h with h | h
  · exact (List.takeWhile_sublist _).mem (List.mem_filter.mp h).1
  · exact (List.dropWhile_sublist _).mem (List.mem_filter.mp h).1

namespace Session

/-! ## What a call has read -/

/-- What a call for the next event has read when it comes back or waits, beyond what the events
are: messages that tell how it comes back. -/
structure Heeds (s : Session) (read : List Message) (p : Option Poll) (t : Session) : Prop where
  writer : t.streams.writerGone = s.streams.writerGone
  draining : t.progress = .draining →
    s.progress = .draining ∨ .endOfExecution ∈ s.adapter.heard read
  ended : ∀ e, p = some (.event e) → e.isTerminal = true →
    ∃ m ∈ read, s.adapter.Tells m e ∧ ((∃ reason, e = .fault reason) → t.needsRestart = true)
  gone : p = some .gone → (∃ source, .closed source ∈ read) ∨
    t.streams.queue = [] ∧ t.streams.senderGone = true
  goes : p = some .gone → ∀ later,
    eventsFrom s.progress (s.adapter.heard read ++ later) = eventsFrom t.progress later
  /-- A failure of the writer ends the turn. -/
  unfailed : (∀ e, p = some (.event e) → e.isTerminal = false) → read.any Message.isFailure = false

/-- A line that is passed over, or that becomes an event which does not end the turn. -/
theorem heeds_line (s : Session) (source : Source) (text : String) {p : Option Poll}
    (hp : ∀ e, p = some (.event e) → e.isTerminal = false) (hgone : p ≠ some .gone) :
    s.Heeds [.line source text] p s where
  writer := rfl
  draining := .inl
  ended e he hterminal := absurd ((hp e he).symm.trans hterminal) (by decide)
  gone h := absurd h hgone
  goes h := absurd h hgone
  unfailed _ := rfl

/-- What one message tells. -/
theorem heeds_heed (s : Session) (m : Message) : s.Heeds [m] (s.heed m).1 (s.heed m).2 := by
  cases m with
  | closed source =>
    refine ⟨rfl, .inl, fun e he => ?_, fun _ => .inl ⟨source, by simp⟩, fun _ _ => rfl,
      fun _ => rfl⟩
    simp only [heed] at he
    split at he <;> cases he
  | writeFailed reason =>
    refine ⟨rfl, (by rintro ⟨⟩), ?_, (by rintro ⟨⟩), (by rintro ⟨⟩), fun h => ?_⟩
    · rintro _ ⟨⟩ -
      exact ⟨_, List.mem_singleton_self _, .failed reason, fun _ => rfl⟩
    · cases h _ rfl
  | line source text =>
    have htells := Adapter.Tells.line (a := s.adapter) source text
    simp only [heed]
    cases hc : s.adapter.classifyOutput text.toList source with
    | discard => exact heeds_line s source text (by rintro _ ⟨⟩) (by rintro ⟨⟩)
    | endOfExecution =>
      have hmarker : LineEvent.endOfExecution ∈ s.adapter.heard [.line source text] := by
        rw [← hc]
        exact List.mem_singleton_self _
      dsimp only
      -- while draining the marker is passed over; else it ends the turn or begins to drain
      split
      · exact heeds_line s source text (by rintro _ ⟨⟩) (by rintro ⟨⟩)
      · split
        · refine ⟨rfl, (by rintro ⟨⟩), ?_, (by rintro ⟨⟩), (by rintro ⟨⟩), fun _ => rfl⟩
          rintro _ ⟨⟩ -
          exact ⟨_, List.mem_singleton_self _, (hc ▸ htells : s.adapter.Tells _ .endOfExecution),
            by rintro ⟨_, ⟨⟩⟩⟩
        · exact ⟨rfl, fun _ => .inr hmarker, (by rintro _ ⟨⟩), (by rintro ⟨⟩), (by rintro ⟨⟩),
            fun _ => rfl⟩
    | activeLine n =>
      dsimp only
      split
      · exact heeds_line s source text (by rintro _ ⟨⟩) (by rintro ⟨⟩)
      · exact heeds_line s source text (by rintro _ ⟨⟩; rfl) (by rintro ⟨⟩)
    | outputText t => exact heeds_line s source text (by rintro _ ⟨⟩; rfl) (by rintro ⟨⟩)
    | fault reason => exact absurd hc (classifyOutput_ne_fault _ _ _ _)

/-- What is read after a message that was passed over. -/
theorem Heeds.after_passed {s t u : Session} {read more : List Message} {p : Option Poll}
    (h : s.Heeds read none t) (h' : t.Heeds more p u) (hreads : Reads s.adapter s.progress read none t) :
    s.Heeds (read ++ more) p u := by
  cases hreads with
  | passed _ hbusy hadapter hlaw =>
    refine ⟨h'.writer.trans h.writer, fun hu => ?_, fun e he hterminal => ?_, fun hp => ?_,
      fun hp later => ?_, fun hp => ?_⟩
    · rw [heard_append, List.mem_append, ← hadapter]
      rcases h'.draining hu with ht | hmore
      · exact (h.draining ht).imp_right fun hread => .inl (hadapter ▸ hread)
      · exact .inr (.inr hmore)
    · obtain ⟨m, hm, htells, hdead⟩ := h'.ended e he hterminal
      exact ⟨m, List.mem_append_right read hm, hadapter ▸ htells, hdead⟩
    · exact (h'.gone hp).imp_left fun ⟨source, hin⟩ => ⟨source, List.mem_append_right read hin⟩
    · rw [heard_append, List.append_assoc, hlaw, ← hadapter, h'.goes hp]
    · rw [List.any_append, h.unfailed (by rintro _ ⟨⟩), h'.unfailed hp]
      rfl

/-- What is read off a queue. -/
theorem heeds_pollFrom (queue : List Message) (s : Session) (hs : s.progress ≠ .idle)
    (hq : s.streams.queue = queue) :
    ∃ read, read ++ (s.pollFrom queue).2.streams.queue = queue ∧
      s.Heeds read (some (s.pollFrom queue).1) (s.pollFrom queue).2 := by
  induction queue generalizing s with
  | nil =>
    refine ⟨[], hq, rfl, .inl, fun e he => ?_, fun hp => .inr ⟨hq, ?_⟩, fun _ _ => rfl, fun _ => rfl⟩
    · simp only [pollFrom] at he
      split at he <;> cases he
    · simp only [pollFrom] at hp
      split at hp
      · assumption
      · cases hp
  | cons m rest ih =>
    have hheeds := heeds_heed (s.takeMessage m rest) m
    have hreads := heed_spec (s.takeMessage m rest) m hs
    have hqueue : ((s.takeMessage m rest).heed m).2.streams.queue = rest := by
      rw [streams_heed, queue_takeMessage]
    -- taking the message has changed what is known of the streams only
    have htaken : ∀ {read p t}, (s.takeMessage m rest).Heeds read p t → s.Heeds read p t :=
      fun h => ⟨h.writer.trans (Streams.writerGone_note _ m), h.draining, h.ended, h.gone, h.goes,
        h.unfailed⟩
    rw [pollFrom]
    generalize (s.takeMessage m rest).heed m = out at hheeds hreads hqueue ⊢
    rcases out with ⟨_ | p, t⟩
    · have hbusy : t.progress ≠ .idle := by cases hreads; assumption
      obtain ⟨read, hcut, h⟩ := ih t hbusy hqueue
      exact ⟨m :: read, by simp [hcut], htaken (hheeds.after_passed h hreads)⟩
    · exact ⟨[m], by simp [show t.streams.queue = rest from hqueue], htaken hheeds⟩

theorem heeds_poll (s : Session) (hs : s.progress ≠ .idle) :
    ∃ read, read ++ s.poll.2.streams.queue = s.streams.queue ∧
      s.Heeds read (some s.poll.1) s.poll.2 := by
  rw [poll, if_neg hs]
  exact heeds_pollFrom _ s hs rfl

end Session

/-! ## The course of a turn -/

namespace Tenure

/-- A turn of which events may still be asked for, when some messages have been read. -/
structure InFlight (s : Session) (t : Tenure) (read : List Message) : Prop where
  isOpen : t.isOpen = true
  busy : s.progress ≠ .idle
  /-- Nothing that was queued has been thrown away. -/
  cut : read ++ s.streams.queue = t.queued
  law : ∀ later, turnEvents (s.adapter.heard read ++ later) =
    t.yielded ++ eventsFrom s.progress later
  draining : s.progress = .draining → .endOfExecution ∈ s.adapter.heard read
  /-- If the writer has stopped, its failure is still to be read. -/
  writer : s.streams.writerGone = true → s.streams.queue.any Message.isFailure = true
  reaping : t.grip = .reaping → ∃ source, .closed source ∈ read

/-- A turn that has finished or was let go, when some messages had been read. -/
structure Over (s : Session) (t : Tenure) (read rest : List Message) : Prop where
  isOpen : t.isOpen = false
  cut : read ++ rest = t.queued
  /-- What was not read still waits as long as the session is held. -/
  held : t.grip ≠ .gone → s.streams.queue = rest
  givenUp : t.turn.finished = false →
    t.yielded = turnEvents (s.adapter.heard read) ∧ s.needsRestart = true
  finished : t.turn.finished = true → ∃ last m, m ∈ read ∧ s.adapter.Tells m last ∧
    last.isTerminal = true ∧ t.yielded = turnEvents (s.adapter.heard read) ++ [last] ∧
    ((∃ reason, last = .fault reason) → s.needsRestart = true)

/-- How it is with a turn and its session. -/
inductive Course (s : Session) (t : Tenure) : Prop where
  | inFlight (read : List Message) : t.InFlight s read → Course s t
  | past (read rest : List Message) : t.Over s read rest → Course s t

variable {s u : Session} {t : Tenure} {read rest : List Message}

theorem yielded_of_inFlight (h : t.InFlight s read) :
    t.yielded = turnEvents (s.adapter.heard read) := by
  have hlaw := h.law []
  rw [List.append_nil, Session.eventsFrom_nil, List.append_nil] at hlaw
  exact hlaw.symm

theorem finished_of_isOpen (h : t.isOpen = true) :
    t.turn.finished = false ∧ (t.grip = .reading ∨ t.grip = .reaping) := by
  rw [isOpen, Bool.and_eq_true, Bool.not_eq_true', Bool.or_eq_true, beq_iff_eq, beq_iff_eq] at h
  exact h

/-- A turn that has just begun. -/
theorem inFlight_begin {s₀ : Session} {verdict : Verdict} {code : List Char} {turn : Turn}
    (hfed : s₀.feed verdict code = (.ok (), s)) (hturn : turn.finished = false) :
    (begin turn).InFlight s [] := by
  obtain ⟨hrunning, -, -, hqueue⟩ := Session.feed_spec hfed
  have hwriter : s.streams.writerGone = false := by
    cases Session.feed_cases hfed with
    | handed program _ h => exact (Streams.writerGone_drain s₀.streams).trans h
  refine ⟨by rw [isOpen, begin, hturn]; rfl, by rw [hrunning]; decide, by rw [hqueue]; rfl,
    fun later => by rw [hrunning]; rfl, fun h => ?_, fun h => ?_, by rintro ⟨⟩⟩
  · rw [hrunning] at h
    cases h
  · rw [hwriter] at h
    cases h

/-- A terminal event ends the turn. -/
theorem over_yield {m : Message} {last : LineEvent} (hread : t.queued = read ++ rest)
    (hheld : s.streams.queue = rest) (hyielded : t.yielded = turnEvents (s.adapter.heard read))
    (hlast : last.isTerminal = true) (hm : m ∈ read) (htells : s.adapter.Tells m last)
    (hdead : (∃ reason, last = .fault reason) → s.needsRestart = true) :
    (t.yield last).Over s read rest where
  isOpen := by simp [isOpen, yield, hlast]
  cut := hread.symm
  held _ := hheld
  givenUp h := absurd (hlast.symm.trans h) (by decide)
  finished _ := ⟨last, m, hm, htells, hlast, by rw [yield, hyielded], hdead⟩

/-- A turn goes on when more was read. -/
theorem InFlight.go_on {t' : Tenure} {more : List Message} {p : Poll} (h : t.InFlight s read)
    (hheeds : s.Heeds more (some p) u) (hcut : more ++ u.streams.queue = s.streams.queue)
    (hadapter : u.adapter = s.adapter) (hgoes : ∀ e, p = .event e → e.isTerminal = false)
    (hbusy : u.progress ≠ .idle) (hopen : t'.isOpen = true) (hqueued : t'.queued = t.queued)
    (hlaw : ∀ later, turnEvents (s.adapter.heard (read ++ more) ++ later) =
      t'.yielded ++ eventsFrom u.progress later)
    (hreaping : t'.grip = .reaping → ∃ source, .closed source ∈ more) :
    t'.InFlight u (read ++ more) where
  isOpen := hopen
  busy := hbusy
  cut := by rw [List.append_assoc, hcut, h.cut, hqueued]
  law := by rw [hadapter]; exact hlaw
  draining hdraining := by
    rw [hadapter, Session.heard_append, List.mem_append]
    exact (hheeds.draining hdraining).imp_left h.draining
  writer hgone := by
    -- a failure that had been read would have ended the turn
    have hany := h.writer (hheeds.writer.symm.trans hgone)
    rw [← hcut, List.any_append, hheeds.unfailed fun e he => hgoes e (Option.some.inj he)] at hany
    simpa using hany
  reaping hgrip := by
    obtain ⟨source, hsource⟩ := hreaping hgrip
    exact ⟨source, List.mem_append_right read hsource⟩

/-- What a call for the next event makes of a turn. -/
theorem course_poll {m : Manager} (h : t.InFlight (m.session t.turn.session) read)
    (hn : t.turn.session < m.sessions.length)
    (hwriter : (m.session t.turn.session).streams.WriterLast) :
    (t.step m .poll).2.Course ((t.step m .poll).1.session t.turn.session) := by
  obtain ⟨s, hs⟩ : ∃ s, m.session t.turn.session = s := ⟨_, rfl⟩
  rw [hs] at h hwriter
  -- what the call tells and what it makes of the progress are two lemmas about the same reading
  obtain ⟨more, hcut, hheeds⟩ := Session.heeds_poll s h.busy
  obtain ⟨more', p, u, hpoll, hcut', hreads⟩ := Session.poll_spec s h.busy
  have hlast := Session.writerLast_poll hwriter
  have hadapter := Session.adapter_poll s
  rw [hpoll] at hcut hheeds hlast hadapter
  obtain rfl : more = more' := List.append_cancel_right (hcut.trans hcut'.symm)
  have hlaw : ∀ later, turnEvents (s.adapter.heard (read ++ more) ++ later) =
      t.yielded ++ eventsFrom s.progress (s.adapter.heard more ++ later) := by
    intro later
    rw [Session.heard_append, List.append_assoc, h.law]
  have hfinished := (finished_of_isOpen h.isOpen).1
  have hopen : ∀ grip, grip = .reading ∨ grip = .reaping →
      ({ t with grip := grip } : Tenure).isOpen = true := by
    rintro grip (rfl | rfl) <;> simp [isOpen, hfinished]
  rw [step, if_pos h.isOpen, hs, hpoll]
  rcases hreads with hreads | ⟨rfl, -, -, hreads⟩
  · cases hreads with
    | event e _ hnot hbusy _ hgoes =>
      dsimp only
      rw [Manager.session_setSession_self hn]
      refine .inFlight _ (h.go_on hheeds hcut hadapter (by rintro _ ⟨⟩; exact hnot) hbusy ?_ rfl
        (fun later => ?_) (by rintro ⟨⟩))
      · simp [isOpen, yield, hnot]
      · rw [hlaw, hgoes, yield, List.append_assoc]
        rfl
    | last e _ hterminal _ hnone =>
      obtain ⟨m, hm, htells, hdead⟩ := hheeds.ended e rfl hterminal
      dsimp only
      rw [Manager.session_setSession_self hn]
      refine .past (read ++ more) u.streams.queue (over_yield ?_ rfl ?_ hterminal
        (List.mem_append_right read hm) (hadapter ▸ htells) hdead)
      · rw [List.append_assoc, hcut, h.cut]
      · have hall := hlaw []
        rw [List.append_nil, List.append_nil, hnone, List.append_nil] at hall
        rw [hadapter, hall]
    | gone _ hbusy =>
      dsimp only
      rw [Manager.session_setSession_self hn]
      have hclosed : ∃ source, .closed source ∈ more := by
        rcases hheeds.gone rfl with hclosed | ⟨hempty, hsender⟩
        · exact hclosed
        · -- the channel ends after the writer has failed, and that would have been read first
          have hany := h.writer (hheeds.writer.symm.trans (hlast hsender))
          rw [← hcut, List.any_append, hheeds.unfailed (by rintro _ ⟨⟩), hempty] at hany
          cases hany
      refine .inFlight _ (h.go_on hheeds hcut hadapter (by rintro _ ⟨⟩) hbusy
        (hopen .reaping (.inr rfl)) rfl (fun later => ?_) fun _ => hclosed)
      rw [hlaw, hheeds.goes rfl]
  · cases hreads with
    | passed _ hbusy _ hgoes =>
      dsimp only
      rw [Manager.session_setSession_self hn]
      refine .inFlight _ (h.go_on hheeds hcut hadapter (by rintro _ ⟨⟩) hbusy
        (hopen .reading (.inl rfl)) rfl (fun later => ?_) (by rintro ⟨⟩))
      rw [hlaw, hgoes]

/-- A call that has found the streams closed ends the turn. -/
theorem over_reap (h : t.InFlight s read) (hgrip : t.grip = .reaping) (o : Observation) :
    (t.yield (s.exited o).1).Over (s.exited o).2 read s.streams.queue := by
  obtain ⟨hterminal, -, hstreams⟩ := Session.exited_spec s o
  have hadapter := (Session.keeps_exited s o).adapter
  have hdead := (Session.exited_kept s o).1
  have htells : ∃ m ∈ read, s.adapter.Tells m (s.exited o).1 := by
    rw [Session.exited]
    split
    · next hdraining => exact Adapter.exists_tells_of_mem_heard (h.draining hdraining)
    · obtain ⟨source, hsource⟩ := h.reaping hgrip
      exact ⟨_, hsource, .closed source _⟩
  obtain ⟨m, hm, htells⟩ := htells
  refine over_yield h.cut.symm (by rw [hstreams]) ?_ hterminal hm (hadapter ▸ htells) fun _ => hdead
  rw [hadapter]
  exact yielded_of_inFlight h

/-- The drain window passes and ends the turn. -/
theorem over_quiet (h : t.InFlight s read) (hdraining : s.progress = .draining) :
    (t.yield s.quiet.1).Over s.quiet.2 read s.streams.queue := by
  obtain ⟨m, hm, htells⟩ := Adapter.exists_tells_of_mem_heard (h.draining hdraining)
  have hyielded := yielded_of_inFlight h
  exact over_yield h.cut.symm rfl hyielded rfl hm htells (by rintro ⟨_, ⟨⟩⟩)

/-- A turn that is given up leaves a dead session. -/
theorem over_drop (h : t.InFlight s read) (o : Observation) :
    ({ t with grip := .leaving } : Tenure).Over (s.abandon o) read s.streams.queue := by
  have hadapter := (Session.keeps_abandon s o).adapter
  have hfinished := (finished_of_isOpen h.isOpen).1
  have hyielded := yielded_of_inFlight h
  have hdead : (s.abandon o).needsRestart = true ∧ (s.abandon o).streams = s.streams := by
    rw [Session.abandon, if_pos ((Session.isBusy_iff s).mpr h.busy)]
    exact ⟨rfl, rfl⟩
  refine ⟨by simp [isOpen], h.cut, fun _ => by rw [hdead.2], fun _ => ⟨?_, hdead.1⟩, fun hnot => ?_⟩
  · rw [hadapter]
    exact hyielded
  · exact absurd (hfinished.symm.trans hnot) (by decide)

/-- A turn that is over stays so while its holder lets it go. -/
theorem Over.of_grip {grip : Grip} (h : t.Over s read rest) (hgrip : grip ≠ .gone → t.grip ≠ .gone)
    (hleaves : grip = .leaving ∨ grip = .gone) :
    ({ t with grip := grip } : Tenure).Over s read rest where
  isOpen := by rcases hleaves with rfl | rfl <;> simp [Tenure.isOpen]
  cut := h.cut
  held hheld := h.held (hgrip hheld)
  givenUp := h.givenUp
  finished := h.finished

/-- What is done by somebody whose turn is in flight. -/
theorem InFlight.course_step {m : Manager} (h : t.InFlight (m.session t.turn.session) read)
    (hn : t.turn.session < m.sessions.length)
    (hwriter : (m.session t.turn.session).streams.WriterLast) (d : Deed) :
    (t.step m d).2.Course ((t.step m d).1.session t.turn.session) := by
  have hfinished := finished_of_isOpen h.isOpen
  cases d with
  | poll => exact course_poll h hn hwriter
  | reap o =>
    rw [step]
    split
    · next hreap =>
      dsimp only
      rw [Manager.session_setSession_self hn]
      exact .past _ _ (over_reap h hreap.2 o)
    · exact .inFlight read h
  | quiet =>
    rw [step]
    split
    · next hquiet =>
      dsimp only
      rw [Manager.session_setSession_self hn]
      exact .past _ _ (over_quiet h hquiet.2.2)
    · exact .inFlight read h
  | drop o =>
    rw [step, if_pos hfinished.2, hfinished.1]
    dsimp only
    rw [if_neg (by decide), Manager.session_setSession_self hn]
    exact .past _ _ (over_drop h o)
  | leave =>
    -- the session is let go only after the turn was dropped
    rw [step, if_neg]
    · exact .inFlight read h
    · rcases hfinished.2 with hgrip | hgrip <;> rw [hgrip] <;> rintro ⟨⟩

/-- What is done by somebody whose turn is over: no more than letting it go. -/
theorem Over.course_step {m : Manager} (h : t.Over (m.session t.turn.session) read rest)
    (d : Deed) : (t.step m d).2.Course ((t.step m d).1.session t.turn.session) := by
  have hstill : ∀ {P : Prop} {_ : Decidable P} {a : Manager × Tenure},
      ¬P → (if P then a else (m, t)).2.Course ((if P then a else (m, t)).1.session
        t.turn.session) := by
    intro P _ a hP
    rw [if_neg hP]
    exact .past read rest h
  have hclosed : ¬t.isOpen = true := by rw [h.isOpen]; decide
  cases d with
  | poll => exact hstill hclosed
  | reap o => exact hstill fun hP => hclosed hP.1
  | quiet => exact hstill fun hP => hclosed hP.1
  | drop o =>
    rw [step]
    split
    · next hgrip =>
      -- a turn that is over and not let go has finished, so its session is not given up
      have hfinished : t.turn.finished = true := by
        have hnot := h.isOpen
        rcases hgrip with hgrip | hgrip <;> simpa [Tenure.isOpen, hgrip] using hnot
      rw [hfinished]
      refine .past read rest (h.of_grip (fun _ hgone => ?_) (.inl rfl))
      rcases hgrip with hgrip | hgrip <;> rw [hgone] at hgrip <;> cases hgrip
    · exact .past read rest h
  | leave =>
    rw [step]
    split
    · exact .past read rest (h.of_grip (fun hne => absurd rfl hne) (.inr rfl))
    · exact .past read rest h

/-- Whatever is done by somebody who has a turn, it stays on its course. -/
theorem course_step {m : Manager} (h : t.Course (m.session t.turn.session))
    (hn : t.turn.session < m.sessions.length)
    (hwriter : (m.session t.turn.session).streams.WriterLast) (d : Deed) :
    (t.step m d).2.Course ((t.step m d).1.session t.turn.session) := by
  cases h with
  | inFlight read h => exact h.course_step hn hwriter d
  | past read rest h => exact h.course_step d

/-! ## What others do -/

/-- A turn whose session is held no longer stays on its course whatever becomes of the session. -/
theorem Course.of_gone (h : t.Course s) (hgone : t.grip = .gone) (hkeeps : s.Keeps u) :
    t.Course u := by
  cases h with
  | inFlight read h => exact absurd hgone (grip_of_isOpen h.isOpen)
  | past read rest h =>
    refine .past read rest ⟨h.isOpen, h.cut, fun hne => absurd hgone hne, fun hnot => ?_,
      fun hfinished => ?_⟩
    · rw [hkeeps.adapter]
      exact (h.givenUp hnot).imp_right hkeeps.restart
    · rw [hkeeps.adapter]
      obtain ⟨last, m, hm, htells, hterminal, hyielded, hdead⟩ := h.finished hfinished
      exact ⟨last, m, hm, htells, hterminal, hyielded, hkeeps.restart ∘ hdead⟩

/-- A turn whose session is held stays on its course when the threads of the session go on. -/
theorem Course.of_grows {n : Nat} {streams : Streams} (h : t.Course s) (hheld : t.held? = some n)
    (hgrows : s.streams.Grows streams) (hwriter : s.streams.WriterLast)
    (transcript : Transcript) :
    (t.hear n (streams.queue.drop s.streams.queue.length)).Course
      { s with streams := streams, transcript := transcript } := by
  obtain ⟨more, hmore⟩ := hgrows.queue
  have hdrop : streams.queue.drop s.streams.queue.length = more := by rw [← hmore, List.drop_left]
  rw [hdrop, hear, if_pos hheld]
  cases h with
  | inFlight read h =>
    refine .inFlight read ⟨h.isOpen, h.busy, ?_, h.law, h.draining, fun hgone => ?_, h.reaping⟩
    · rw [← hmore, ← List.append_assoc, h.cut]
    · have hbefore : s.streams.writerGone = true → streams.queue.any Message.isFailure = true := by
        intro hstopped
        rw [← hmore, List.any_append, h.writer hstopped, Bool.true_or]
      rcases hgrows.told hgone with hstopped | hsender | hfailed
      · exact hbefore hstopped
      · exact hbefore (hwriter hsender)
      · exact hfailed
  | past read rest h =>
    have hrest := h.held (held?_eq_some.mp hheld).1
    refine .past read streams.queue ⟨h.isOpen, ?_, fun _ => rfl, h.givenUp, h.finished⟩
    rw [← hmore, hrest, ← List.append_assoc, h.cut]

end Tenure

namespace Traffic

variable {x : Traffic} {k n : Nat} {call : Call} {o : Observation}
  {launched : Except Failure (Adapter × Moment × Nat)} {verdict : Verdict}

/-- Every turn is on its course. -/
def Fair (x : Traffic) : Prop := ∀ t ∈ x.tenures, t.Course (x.manager.session t.turn.session)

/-- What somebody else does to a manager leaves a turn on its course, if that leaves the session as
it is while it is held for the turn. -/
theorem course_of_others {m m' : Manager} {t : Tenure} (h : t.Course (m.session t.turn.session))
    (hn : t.turn.session < m.sessions.length) (hkeeps : m.Keeps m')
    (hothers : t.held? = some t.turn.session →
      m'.session t.turn.session = m.session t.turn.session) :
    t.Course (m'.session t.turn.session) := by
  by_cases hgone : t.grip = .gone
  · exact h.of_gone hgone (hkeeps.session _ hn)
  · rw [hothers (Tenure.held?_eq_some.mpr ⟨hgone, rfl⟩)]
    exact h

theorem fair_go (h : x.Orderly) (hfair : x.Fair) (hcall : x.calls[k]? = some call) :
    (x.goOn k call (.still o launched verdict)).Fair := by
  obtain ⟨calls, hperm, -⟩ := exists_perm_set hcall
  have hcustody := h.custody_call hperm
  have heffect := Call.effect_step (h.calls call (List.mem_of_getElem? hcall)) o launched verdict
  rw [goOn]
  generalize call.step (.still o launched verdict) x.manager = after at heffect
  obtain ⟨m, call'⟩ := after
  dsimp only at heffect ⊢
  intro t ht
  rcases List.mem_append.mp ht with ht | ht
  · have hn := h.tenures t ht
    refine course_of_others (hfair t ht) hn heffect.keeps fun hheld => heffect.others hn ?_
    exact h.held?_ne hcustody (List.mem_append_right _ (List.mem_filterMap.mpr ⟨t, ht, hheld⟩))
  · -- a turn that has just begun
    obtain ⟨turn, hbegun, rfl⟩ := Option.mem_map.mp (Option.mem_toList.mp ht)
    rw [hbegun] at heffect
    obtain ⟨-, -, hunfinished, -, verdict, code, hfeed⟩ := heffect.of_begun
    exact .inFlight [] (Tenure.inFlight_begin hfeed hunfinished)

theorem fair_handle (h : x.Orderly) (hfair : x.Fair) (k : Nat) (d : Deed) :
    (x.act (.handle k d)).Fair := by
  rw [act]
  split
  case h_2 => exact hfair
  case h_1 t ht =>
  obtain ⟨tenures, hperm, hset⟩ := exists_perm_set ht
  have hmem : t ∈ x.tenures := hperm.mem_iff.mpr (by simp)
  have hn := h.tenures t hmem
  have hcustody := h.custody_tenure hperm
  have heffect := t.effect_step x.manager d
  have hcourse := Tenure.course_step (hfair t hmem) hn (h.sane _ hn).writer d
  generalize t.step x.manager d = after at heffect hcourse
  obtain ⟨m, t'⟩ := after
  dsimp only at heffect hcourse
  intro u hu
  rcases List.mem_cons.mp ((hset t').mem_iff.mp hu) with rfl | hu
  · rw [heffect.session]
    exact hcourse
  · have huold := hperm.mem_iff.mpr (List.mem_cons_of_mem t hu)
    refine course_of_others (hfair u huold) (h.tenures u huold) (heffect.keeps hn) fun hheld => ?_
    refine heffect.others hn ?_
    exact h.held?_ne hcustody (List.mem_append_left _ (List.mem_filterMap.mpr ⟨u, hu, hheld⟩))

theorem fair_threads (h : x.Orderly) (hfair : x.Fair) (n : Nat) (streams : Streams)
    (transcript : Transcript) : (x.act (.threads n streams transcript)).Fair := by
  rw [act]
  split
  case isFalse => exact hfair
  case isTrue hthreads =>
  obtain ⟨hn, hgrows⟩ := hthreads
  intro u hu
  obtain ⟨t, ht, rfl⟩ := List.mem_map.mp hu
  dsimp only
  rw [(turn_hear t n _).1]
  by_cases hheld : t.held? = some n
  · have hsession := (Tenure.held?_eq_some.mp hheld).2
    have hcourse := hfair t ht
    rw [hsession] at hcourse ⊢
    rw [Manager.session_setSession_self hn]
    exact hcourse.of_grows hheld hgrows (h.sane n hn).writer transcript
  · rw [Tenure.hear, if_neg hheld]
    refine course_of_others (hfair t ht) (h.tenures t ht)
      (Manager.keeps_setSession hn (Session.keeps_grows hgrows transcript)) fun hself => ?_
    rw [Manager.session_setSession hn, if_neg]
    rintro rfl
    exact hheld hself

theorem fair_act (h : x.Orderly) (hfair : x.Fair) (a : Act) : (x.act a).Fair := by
  cases a with
  | enter r => exact hfair
  | go k o launched verdict =>
    cases hcall : x.calls[k]? with
    | none =>
      rw [act, hcall]
      exact hfair
    | some call =>
      rw [act_go hcall]
      exact fair_go h hfair hcall
  | handle k d => exact fair_handle h hfair k d
  | threads n streams transcript => exact fair_threads h hfair n streams transcript

theorem fair_run (h : x.Orderly) (hfair : x.Fair) (acts : List Act) : (x.run acts).Fair := by
  induction acts generalizing x with
  | nil => exact hfair
  | cons a acts ih => exact ih (orderly_act h a) (fair_act h hfair a)

/-! ## Sessions that take no code any more -/

theorem keeps_act (h : x.Orderly) (a : Act) : x.manager.Keeps (x.act a).manager := by
  have hself : x.manager.Keeps x.manager := Manager.keeps_of_sessions rfl
  cases a with
  | enter r => exact hself
  | go k o launched verdict =>
    rw [act]
    split
    · next call hcall =>
      exact (Call.effect_step (h.calls call (List.mem_of_getElem? hcall)) o launched verdict).keeps
    · exact hself
  | handle k d =>
    rw [act]
    split
    · next t ht =>
      exact (t.effect_step x.manager d).keeps (h.tenures t (List.mem_of_getElem? ht))
    · exact hself
  | threads n streams transcript =>
    rw [act]
    split
    · next hthreads =>
      exact Manager.keeps_setSession hthreads.1 (Session.keeps_grows hthreads.2 transcript)
    · exact hself

/-- A turn stays a turn of its session, and a new one begins on a session that need not be
replaced. -/
theorem session_tenures_act (h : x.Orderly) (a : Act) {j : Nat} {u : Tenure}
    (hu : (x.act a).tenures[j]? = some u) :
    (∃ t, x.tenures[j]? = some t ∧ u.turn.session = t.turn.session) ∨
      (x.manager.session u.turn.session).needsRestart = false := by
  cases a with
  | enter r => exact .inl ⟨u, hu, rfl⟩
  | go k o launched verdict =>
    cases hcall : x.calls[k]? with
    | none =>
      rw [act, hcall] at hu
      exact .inl ⟨u, hu, rfl⟩
    | some call =>
      -- only the step of a call can begin a turn
      have heffect :=
        Call.effect_step (h.calls call (List.mem_of_getElem? hcall)) o launched verdict
      rw [act_go hcall, goOn] at hu
      generalize call.step (.still o launched verdict) x.manager = after at heffect hu
      obtain ⟨m, call'⟩ := after
      dsimp only at heffect hu
      rw [List.getElem?_append] at hu
      split at hu
      · exact .inl ⟨u, hu, rfl⟩
      · -- behind the turns that were there stands the one that the call has begun
        right
        obtain ⟨turn, hbegun, rfl⟩ :=
          Option.mem_map.mp (Option.mem_toList.mp (List.mem_of_getElem? hu))
        rw [hbegun] at heffect
        exact heffect.of_begun.2.1
  | handle k d =>
    rw [act] at hu
    split at hu
    · next t ht =>
      rw [List.getElem?_set] at hu
      split at hu
      · next hk =>
        split at hu
        · cases hu
          exact .inl ⟨t, hk ▸ ht, (t.effect_step x.manager d).session⟩
        · cases hu
      · exact .inl ⟨u, hu, rfl⟩
    · exact .inl ⟨u, hu, rfl⟩
  | threads n streams transcript =>
    rw [act] at hu
    split at hu
    · rw [List.getElem?_map, Option.map_eq_some_iff] at hu
      obtain ⟨t, ht, rfl⟩ := hu
      exact .inl ⟨t, ht, by rw [(turn_hear t n _).1]⟩
    · exact .inl ⟨u, hu, rfl⟩

/-- On a dead session no turn begins any more. -/
structure Avoids (x : Traffic) (first n : Nat) : Prop where
  there : n < x.manager.sessions.length
  dead : (x.manager.session n).needsRestart = true
  later : ∀ (j : Nat) (u : Tenure), first ≤ j → x.tenures[j]? = some u → u.turn.session ≠ n

theorem avoids_act {first : Nat} (h : x.Orderly) (havoids : x.Avoids first n) (a : Act) :
    (x.act a).Avoids first n where
  there := Nat.lt_of_lt_of_le havoids.there (keeps_act h a).length
  dead := ((keeps_act h a).session n havoids.there).restart havoids.dead
  later j u hj hu := by
    rcases session_tenures_act h a hu with ⟨t, ht, hsession⟩ | halive
    · rw [hsession]
      exact havoids.later j t hj ht
    · rintro rfl
      rw [havoids.dead] at halive
      cases halive

theorem avoids_run {first : Nat} (h : x.Orderly) (havoids : x.Avoids first n) (acts : List Act) :
    (x.run acts).Avoids first n := by
  induction acts generalizing x with
  | nil => exact havoids
  | cons a acts ih => exact ih (orderly_act h a) (avoids_act h havoids a)

end Traffic

/-! ## What the events come from -/

namespace Tenure

/-- What the events of a turn come from. The messages that came into the queue of its session since
the code was fed are cut into those that the turn has read and those that wait, none of them thrown
away as long as the session is held; and the events are what those that were read come to. -/
def Told (s : Session) (t : Tenure) : Prop :=
  ∃ read rest, read ++ rest = t.queued ∧ (t.grip ≠ .gone → s.streams.queue = rest) ∧
    (∀ e ∈ t.yielded, ∃ m ∈ read, s.adapter.Tells m e) ∧
    (t.turn.finished = false → t.yielded = turnEvents (s.adapter.heard read)) ∧
    (t.turn.finished = true → ∃ last, last.isTerminal = true ∧
      t.yielded = turnEvents (s.adapter.heard read) ++ [last])

/-- Whether a turn was let go before it had finished, or ended in a fault. -/
def Spoilt (t : Tenure) : Prop :=
  t.turn.finished = false ∧ (t.grip = .leaving ∨ t.grip = .gone) ∨
    ∃ reason, .fault reason ∈ t.yielded

variable {s : Session} {t : Tenure}

theorem exists_tells_of_mem_turnEvents {a : Adapter} {read : List Message} {e : LineEvent}
    (h : e ∈ turnEvents (a.heard read)) : ∃ m ∈ read, a.Tells m e :=
  Adapter.exists_tells_of_mem_heard (mem_heard_of_mem_turnEvents h)

theorem fault_not_mem_turnEvents (a : Adapter) (read : List Message) (reason : String) :
    .fault reason ∉ turnEvents (a.heard read) := by
  intro h
  obtain ⟨m, -, hm⟩ := List.mem_filterMap.mp (mem_heard_of_mem_turnEvents h)
  cases m with
  | line source text => exact classifyOutput_ne_fault _ _ _ _ (Option.some.inj hm)
  | closed source => cases hm
  | writeFailed reason => cases hm

theorem Course.told (h : t.Course s) : t.Told s := by
  cases h with
  | inFlight read h =>
    have hyielded := yielded_of_inFlight h
    refine ⟨read, s.streams.queue, h.cut, fun _ => rfl, fun e he => ?_, fun _ => hyielded,
      fun hfinished => absurd ((finished_of_isOpen h.isOpen).1.symm.trans hfinished) (by decide)⟩
    exact exists_tells_of_mem_turnEvents (hyielded ▸ he)
  | past read rest h =>
    refine ⟨read, rest, h.cut, h.held, fun e he => ?_, fun hnot => (h.givenUp hnot).1,
      fun hfinished => ?_⟩
    · cases hfinished : t.turn.finished with
      | false => exact exists_tells_of_mem_turnEvents ((h.givenUp hfinished).1 ▸ he)
      | true =>
        obtain ⟨last, m, hm, htells, -, hyielded, -⟩ := h.finished hfinished
        rw [hyielded, List.mem_append, List.mem_singleton] at he
        rcases he with he | rfl
        · exact exists_tells_of_mem_turnEvents he
        · exact ⟨m, hm, htells⟩
    · obtain ⟨last, m, -, -, hterminal, hyielded, -⟩ := h.finished hfinished
      exact ⟨last, hterminal, hyielded⟩

/-- A turn that was let go too early or ended in a fault leaves a session that has to be replaced. -/
theorem Course.dead_of_spoilt (h : t.Course s) (hspoilt : t.Spoilt) : s.needsRestart = true := by
  cases h with
  | inFlight read h =>
    rcases hspoilt with ⟨-, hleft⟩ | ⟨reason, hfault⟩
    · have hgrip := (finished_of_isOpen h.isOpen).2
      rcases hleft with hleft | hleft <;> rw [hleft] at hgrip <;> rcases hgrip with h | h <;> cases h
    · rw [yielded_of_inFlight h] at hfault
      exact absurd hfault (fault_not_mem_turnEvents _ _ _)
  | past read rest h =>
    cases hfinished : t.turn.finished with
    | false => exact (h.givenUp hfinished).2
    | true =>
      obtain ⟨last, m, -, -, -, hyielded, hdead⟩ := h.finished hfinished
      rcases hspoilt with ⟨hnot, -⟩ | ⟨reason, hfault⟩
      · exact absurd (hnot.symm.trans hfinished) (by decide)
      · rw [hyielded, List.mem_append, List.mem_singleton] at hfault
        rcases hfault with hfault | hfault
        · exact absurd hfault (fault_not_mem_turnEvents _ _ _)
        · exact hdead ⟨reason, hfault.symm⟩

end Tenure

namespace Traffic

variable {x : Traffic}

theorem avoids_of_spoilt (h : x.Orderly) (hfair : x.Fair) {t : Tenure} (ht : t ∈ x.tenures)
    (hspoilt : t.Spoilt) : x.Avoids x.tenures.length t.turn.session where
  there := h.tenures t ht
  dead := (hfair t ht).dead_of_spoilt hspoilt
  later _ _ hj hu := absurd (List.getElem?_eq_some_iff.mp hu).1 (Nat.not_lt.mpr hj)

/-- How turns are kept apart, whatever happens next. -/
structure Apart (x : Traffic) : Prop where
  /-- The events of a turn come of what was queued for it. -/
  told : ∀ t ∈ x.tenures, t.Told (x.manager.session t.turn.session)
  /-- After a turn that was let go before it had finished, or ended in a fault, no turn begins on its
  session. -/
  left : ∀ t ∈ x.tenures, t.Spoilt → ∀ (more : List Act) (j : Nat) (u : Tenure),
    x.tenures.length ≤ j → (x.run more).tenures[j]? = some u → u.turn.session ≠ t.turn.session

theorem apart_of_fair (h : x.Orderly) (hfair : x.Fair) : x.Apart where
  told _ ht := (hfair _ ht).told
  left _ ht hspoilt more j u hj hu :=
    (avoids_run h (avoids_of_spoilt h hfair ht hspoilt) more).later j u hj hu

end Traffic

end StepTrace

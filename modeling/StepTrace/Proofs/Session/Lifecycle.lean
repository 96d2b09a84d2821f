import StepTrace.Proofs.Session.Submission

/-!
# The life of a session

What a session shows of its process: whether it has to be replaced, what its handles see, and the
record. Each operation changes some of this, in an order of its own and partly through helpers that
change less. `Operation` lists the operations with all that they may meet; `Sound` says how the parts
fit together between two operations, and `Later` what is never taken back. Both hold over every run
(`sound_run`, `later_run`), because every operation keeps them (`kept_perform`).
-/

set_option autoImplicit false

namespace StepTrace

namespace Session

/-! ## Operations -/

/-- Submits code when the streams and the transcript come to be something else while the code is
prepared. -/
def submitMeeting (s : Session) (o : Observation) (streams : Streams) (transcript : Transcript)
    (verdict : Verdict) (code : List Char) : Except Failure Unit × Session :=
  match s.welcome o with
  | (.error f, s) => (.error f, s)
  | (.ok _, s) => { s with streams := streams, transcript := transcript }.feed verdict code

/-- What may be done with a session, with what the host answers meanwhile. -/
inductive Operation where
  /-- The threads of the streams pass messages on, take input, and keep the transcript. -/
  | threads (streams : Streams) (transcript : Transcript)
  | submit (o : Observation) (streams : Streams) (transcript : Transcript) (verdict : Verdict)
      (code : List Char)
  /-- A call for the next event reads the queue. It returns an event, or it still waits. -/
  | next (host : Nat → Observation)
  /-- A call for the next event is given up, though the streams have closed. -/
  | leave
  /-- The drain window passes while a call for the next event waits. -/
  | quiet
  | isAlive (o : Observation)
  | abandon (o : Observation)
  | terminate (o : Observation)
  /-- A signal is sent through a handle. -/
  | signal (number : Nat)

/-- The session after an operation. A signal goes to the process, not to the session. -/
def perform (s : Session) : Operation → Session
  | .threads streams transcript => { s with streams := streams, transcript := transcript }
  | .submit o streams transcript verdict code =>
    (s.submitMeeting o streams transcript verdict code).2
  | .next host => (s.next host).2
  | .leave => s.poll.2
  | .quiet => if s.progress = .draining then s.quiet.2 else s
  | .isAlive o => s.refresh o
  | .abandon o => s.abandon o
  | .terminate o => s.terminate o
  | .signal _ => s

/-- The session after some operations. -/
def run (s : Session) (ops : List Operation) : Session := ops.foldl perform s

/-! ## What an operation keeps -/

/-- How the parts of a session fit together between two operations. -/
structure Sound (s : Session) : Prop where
  /-- The handles see what the session knows. -/
  alive : s.alive = !s.needsRestart
  ended : s.record.isTerminated = true → s.needsRestart = true ∧ s.progress = .idle

/-- What a later state of a session does not take back. -/
structure Later (s t : Session) : Prop where
  restart : s.needsRestart = true → t.needsRestart = true
  record : s.record.isTerminated = true → t.record = s.record

theorem Later.refl (s : Session) : s.Later s := ⟨id, fun _ => rfl⟩

theorem Later.trans {s t u : Session} (h : s.Later t) (h' : t.Later u) : s.Later u where
  restart hs := h'.restart (h.restart hs)
  record hs := by
    have ht := h.record hs
    rw [h'.record (by rw [ht]; exact hs), ht]

/-- What is known of the process does not change, but that it may be marked as dead. -/
structure MarkedAtMost (s t : Session) : Prop where
  record : t.record = s.record
  marks : t.needsRestart = s.needsRestart ∧ t.alive = s.alive ∨
    t.needsRestart = true ∧ t.alive = false

theorem MarkedAtMost.refl (s : Session) : s.MarkedAtMost s := ⟨rfl, .inl ⟨rfl, rfl⟩⟩

theorem MarkedAtMost.trans {s t u : Session} (h : s.MarkedAtMost t) (h' : t.MarkedAtMost u) :
    s.MarkedAtMost u where
  record := h'.record.trans h.record
  marks := by
    rcases h'.marks with ⟨hr, ha⟩ | hdead
    · rw [hr, ha]
      exact h.marks
    · exact .inr hdead

theorem MarkedAtMost.later {s t : Session} (h : s.MarkedAtMost t) : s.Later t where
  restart hs := by
    rcases h.marks with ⟨hr, -⟩ | ⟨hr, -⟩
    · rw [hr, hs]
    · exact hr
  record _ := h.record

/-- Marking is told to the handles. -/
theorem MarkedAtMost.alive {s t : Session} (h : s.MarkedAtMost t)
    (hs : s.alive = !s.needsRestart) : t.alive = !t.needsRestart := by
  rcases h.marks with ⟨hr, ha⟩ | ⟨hr, ha⟩
  · rw [hr, ha]
    exact hs
  · rw [hr, ha]
    rfl

/-- A session that is marked at most and begins no turn stays sound. -/
theorem Sound.of_markedAtMost {s t : Session} (hs : s.Sound) (h : s.MarkedAtMost t)
    (hp : s.progress = .idle → t.progress = .idle) : t.Sound where
  alive := h.alive hs.alive
  ended ht := by
    rw [h.record] at ht
    obtain ⟨hr, hi⟩ := hs.ended ht
    exact ⟨h.later.restart hr, hp hi⟩

/-- A session without a turn that has to be replaced is sound if its handles know it. -/
theorem Sound.of_dead {s : Session} (hr : s.needsRestart = true) (ha : s.alive = false)
    (hp : s.progress = .idle) : s.Sound where
  alive := by rw [hr, ha]; rfl
  ended _ := ⟨hr, hp⟩

theorem markTerminated_of_isTerminated {r : ProcessRecord} (h : r.isTerminated = true)
    (now : Moment) (code : Option Int) : r.markTerminated now code = r := if_pos h

/-! ## Reading -/

theorem markedAtMost_heed (s : Session) (m : Message) : s.MarkedAtMost (s.heed m).2 := by
  cases m with
  | closed source => exact .refl s
  | writeFailed reason => exact ⟨rfl, .inr ⟨rfl, rfl⟩⟩
  | line source text =>
    simp only [heed]
    split
    · exact .refl s
    · split
      · exact .refl s
      · split <;> exact ⟨rfl, .inl ⟨rfl, rfl⟩⟩
    · split <;> exact .refl s
    · exact .refl s

theorem markedAtMost_pollFrom (queue : List Message) (s : Session) :
    s.MarkedAtMost (s.pollFrom queue).2 := by
  induction queue generalizing s with
  | nil => exact .refl s
  | cons m rest ih =>
    have htaken : s.MarkedAtMost (s.takeMessage m rest) := ⟨rfl, .inl ⟨rfl, rfl⟩⟩
    have hstep := htaken.trans (markedAtMost_heed (s.takeMessage m rest) m)
    rw [pollFrom]
    generalize (s.takeMessage m rest).heed m = out at hstep
    rcases out with ⟨_ | p, t⟩
    · exact hstep.trans (ih t)
    · exact hstep

theorem markedAtMost_poll (s : Session) : s.MarkedAtMost s.poll.2 := by
  rw [poll]
  split
  · exact .refl s
  · exact markedAtMost_pollFrom _ s

theorem poll_of_idle {s : Session} (h : s.progress = .idle) : s.poll = (.idle, s) := if_pos h

theorem sound_poll {s : Session} (hs : s.Sound) : s.poll.2.Sound := by
  refine hs.of_markedAtMost (markedAtMost_poll s) fun hidle => ?_
  rw [poll_of_idle hidle]
  exact hidle

/-- Whatever is known when the process is found gone, the turn ends and the session with it. -/
theorem exited_kept (s : Session) (o : Observation) :
    (s.exited o).2.needsRestart = true ∧ (s.exited o).2.alive = false ∧
      (s.exited o).2.progress = .idle ∧ s.Later (s.exited o).2 := by
  have hrecord : ∀ now code, s.record.isTerminated = true →
      s.record.markTerminated now code = s.record :=
    fun now code h => markTerminated_of_isTerminated h now code
  rw [exited]
  split
  · cases ho : o.exit with
    | none => simp only [reap, ho]; exact ⟨rfl, rfl, rfl, fun _ => rfl, fun _ => rfl⟩
    | some code => simp only [reap, ho]; exact ⟨rfl, rfl, rfl, fun _ => rfl, hrecord _ _⟩
  · cases ho : o.exit with
    | none => simp only [reap, ho]; exact ⟨rfl, rfl, rfl, fun _ => rfl, fun _ => rfl⟩
    | some code => simp only [reap, ho]; exact ⟨rfl, rfl, rfl, fun _ => rfl, hrecord _ _⟩

/-- A call for the next event reads the queue, and ends the turn if the streams turn out to be
closed. -/
theorem next_cases (s : Session) (host : Nat → Observation) :
    (s.next host).2 = s.poll.2 ∨ ∃ o, (s.next host).2 = (s.poll.2.exited o).2 := by
  rw [next]
  split
  · next t h => exact .inr ⟨host t.patience, by rw [h]⟩
  · next other h => exact .inl rfl

/-! ## The other operations -/

theorem markedAtMost_refresh (s : Session) (o : Observation) : s.MarkedAtMost (s.refresh o) := by
  rw [refresh]
  split
  · exact .refl s
  · dsimp only
    split
    · exact ⟨rfl, .inr ⟨rfl, rfl⟩⟩
    · exact ⟨rfl, .inl ⟨rfl, rfl⟩⟩

theorem markedAtMost_feed {s t : Session} {verdict : Verdict} {code : List Char}
    {r : Except Failure Unit} (h : s.feed verdict code = (r, t)) : s.MarkedAtMost t := by
  cases feed_cases h with
  | unprepared => exact .refl s
  | unsent => exact ⟨rfl, .inr ⟨rfl, rfl⟩⟩
  | handed => exact ⟨rfl, .inl ⟨rfl, rfl⟩⟩

theorem markedAtMost_submitMeeting (s : Session) (o : Observation) (streams : Streams)
    (transcript : Transcript) (verdict : Verdict) (code : List Char) :
    s.MarkedAtMost (s.submitMeeting o streams transcript verdict code).2 := by
  obtain ⟨⟨r, t⟩, hwelcome⟩ : ∃ p, s.welcome o = p := ⟨_, rfl⟩
  rw [submitMeeting, hwelcome]
  cases welcome_cases hwelcome with
  | busy => exact .refl s
  | gone => exact markedAtMost_refresh s o
  | admitted =>
    have hmet : (s.refresh o).MarkedAtMost
        { s.refresh o with streams := streams, transcript := transcript } :=
      ⟨rfl, .inl ⟨rfl, rfl⟩⟩
    exact ((markedAtMost_refresh s o).trans hmet).trans (markedAtMost_feed rfl)

/-- A session that has to be replaced takes no submission and is left as it is. -/
theorem submitMeeting_of_needsRestart {s : Session} (h : s.needsRestart = true) (o : Observation)
    (streams : Streams) (transcript : Transcript) (verdict : Verdict) (code : List Char) :
    ∃ f, s.submitMeeting o streams transcript verdict code = (.error f, s) := by
  have hrefresh : s.refresh o = s := by rw [refresh, if_pos h]
  obtain ⟨⟨r, t⟩, hwelcome⟩ : ∃ p, s.welcome o = p := ⟨_, rfl⟩
  rw [submitMeeting, hwelcome]
  cases welcome_cases hwelcome with
  | busy => exact ⟨_, rfl⟩
  | gone =>
    rw [hrefresh]
    exact ⟨_, rfl⟩
  | admitted _ hrestart =>
    rw [hrefresh, h] at hrestart
    cases hrestart

theorem sound_submitMeeting {s : Session} (hs : s.Sound) (o : Observation) (streams : Streams)
    (transcript : Transcript) (verdict : Verdict) (code : List Char) :
    (s.submitMeeting o streams transcript verdict code).2.Sound := by
  have hmarked := markedAtMost_submitMeeting s o streams transcript verdict code
  cases hrestart : s.needsRestart with
  | true =>
    obtain ⟨f, hf⟩ := submitMeeting_of_needsRestart hrestart o streams transcript verdict code
    rw [hf]
    exact hs
  | false =>
    -- the process has not ended as far as the session knows, so a turn may begin
    refine ⟨hmarked.alive hs.alive, fun ht => ?_⟩
    rw [hmarked.record] at ht
    rw [(hs.ended ht).1] at hrestart
    cases hrestart

/-- A process that was killed or stopped is known to have ended. -/
theorem killed_kept (s : Session) (o : Observation) :
    (s.killed o).needsRestart = true ∧ (s.killed o).alive = false ∧
      (s.killed o).progress = s.progress ∧ s.Later (s.killed o) :=
  ⟨rfl, rfl, rfl, fun _ => rfl, fun h => markTerminated_of_isTerminated h _ _⟩

/-! ## Every operation, and every run -/

/-- Every operation leaves a sound session sound, and takes nothing back. -/
theorem kept_perform {s : Session} (hs : s.Sound) (op : Operation) :
    (s.perform op).Sound ∧ s.Later (s.perform op) := by
  cases op with
  | threads streams transcript => exact ⟨⟨hs.alive, hs.ended⟩, id, fun _ => rfl⟩
  | submit o streams transcript verdict code =>
    exact ⟨sound_submitMeeting hs o streams transcript verdict code,
      (markedAtMost_submitMeeting s o streams transcript verdict code).later⟩
  | next host =>
    have hread := (markedAtMost_poll s).later
    -- a call that finds the streams closed marks the session as well
    rcases next_cases s host with h | ⟨o, h⟩
    · rw [perform, h]
      exact ⟨sound_poll hs, hread⟩
    · obtain ⟨hr, ha, hp, hlater⟩ := exited_kept s.poll.2 o
      rw [perform, h]
      exact ⟨.of_dead hr ha hp, hread.trans hlater⟩
  | leave => exact ⟨sound_poll hs, (markedAtMost_poll s).later⟩
  | quiet =>
    rw [perform]
    split
    · exact ⟨⟨hs.alive, fun ht => ⟨(hs.ended ht).1, rfl⟩⟩, id, fun _ => rfl⟩
    · exact ⟨hs, .refl s⟩
  | isAlive o =>
    have hmarked := markedAtMost_refresh s o
    refine ⟨hs.of_markedAtMost hmarked fun hidle => ?_, hmarked.later⟩
    exact (refresh_spec s o).2.1.trans hidle
  | abandon o =>
    rw [perform, abandon]
    split
    · -- the turn is taken from the session before its process is killed
      obtain ⟨hr, ha, hp, hlater⟩ := killed_kept { s with progress := .idle } o
      exact ⟨.of_dead hr ha hp, hlater.restart, hlater.record⟩
    · exact ⟨hs, .refl s⟩
  | terminate o =>
    rw [perform, terminate]
    split
    · exact ⟨hs, .refl s⟩
    · next h => exact ⟨.of_dead rfl rfl rfl, fun _ => rfl, fun ht => absurd ht h⟩
  | signal number => exact ⟨hs, .refl s⟩

theorem sound_start (adapter : Adapter) (settings : SessionSettings) (now : Moment) (pid : Nat) :
    (start adapter settings now pid).Sound := ⟨rfl, by rintro ⟨⟩⟩

theorem run_append (s : Session) (ops more : List Operation) :
    s.run (ops ++ more) = (s.run ops).run more := List.foldl_append

theorem sound_run {s : Session} (hs : s.Sound) (ops : List Operation) : (s.run ops).Sound := by
  induction ops generalizing s with
  | nil => exact hs
  | cons op ops ih => exact ih (kept_perform hs op).1

theorem later_run {s : Session} (hs : s.Sound) (ops : List Operation) : s.Later (s.run ops) := by
  induction ops generalizing s with
  | nil => exact .refl s
  | cons op ops ih =>
    obtain ⟨hsound, hlater⟩ := kept_perform hs op
    exact hlater.trans (ih hsound)

end Session

end StepTrace

import StepTrace.Proofs.Session.TurnEvents

/-!
# Turns that have read their end marker

Behind the end marker a turn only waits for late lines. What ends it then is read from the queue,
or is the drain window that passes while nothing comes. `Streams.failure?` says of some messages
whether the failure of the writer is among them before both output streams have closed: that alone
makes a fault of a turn whose code has run to its end. `draining_turn_ends` is the law: the turn
ends, behind its late lines, and it ends well exactly if no such failure is heard.

The proof follows one reading of the queue (`drains_pollFrom`) and one call (`await_draining`). Each
either ends the turn, or leaves it draining with the same failure ahead.
-/

set_option autoImplicit false

namespace StepTrace

namespace Streams

/-- Why the writer failed, if messages say so before they tell that both outputs have closed. -/
def failure? (s : Streams) : List Message → Option String
  | [] => none
  | .line _ _ :: rest => s.failure? rest
  | .writeFailed reason :: _ => some reason
  | .closed source :: rest =>
    if (s.note (.closed source)).allClosed then none else (s.note (.closed source)).failure? rest

/-- Of the streams only what is known of the outputs counts. -/
theorem failure?_congr {s t : Streams} (hout : s.stdoutOpen = t.stdoutOpen)
    (herr : s.stderrOpen = t.stderrOpen) (ms : List Message) : s.failure? ms = t.failure? ms := by
  induction ms generalizing s t with
  | nil => rfl
  | cons m ms ih =>
    cases m with
    | line source text => exact ih hout herr
    | writeFailed reason => rfl
    | closed source =>
      have hnoted : (s.note (.closed source)).stdoutOpen = (t.note (.closed source)).stdoutOpen ∧
          (s.note (.closed source)).stderrOpen = (t.note (.closed source)).stderrOpen := by
        cases source with
        | stdout => exact ⟨rfl, herr⟩
        | stderr => exact ⟨hout, rfl⟩
      have hclosed : (s.note (.closed source)).allClosed = (t.note (.closed source)).allClosed := by
        rw [allClosed, hnoted.1, hnoted.2]
        rfl
      rw [failure?, failure?, hclosed, ih hnoted.1 hnoted.2]

theorem failure?_note_queue (s : Streams) (m : Message) (queue ms : List Message) :
    ({ s with queue := queue }.note m).failure? ms = (s.note m).failure? ms := by
  apply failure?_congr <;> rcases m with _ | ⟨_ | _⟩ | _ <;> rfl

end Streams

namespace Session

/-! ## What is still to be heard -/

/-- Whether an arrival is a message. -/
def Arrival.isMessage : Arrival → Bool
  | .message _ => true
  | _ => false

/-- The messages that can be read behind the queue before the channel ends or the drain window
passes. -/
def later (s : Session) (as : List Arrival) : List Message :=
  if s.streams.senderGone then [] else arriving (as.takeWhile Arrival.isMessage)

/-- Nothing is read after the window has passed. -/
theorem later_quiet (s : Session) (as : List Arrival) : s.later (as ++ [.quiet]) = s.later as := by
  have htake : (as ++ [Arrival.quiet]).takeWhile Arrival.isMessage =
      as.takeWhile Arrival.isMessage := by
    induction as with
    | nil => rfl
    | cons a as ih =>
      rw [List.cons_append, List.takeWhile_cons, List.takeWhile_cons, ih]
  rw [later, later, htake]

/-- Why the writer failed, if a session that drains hears of it before its turn is over. -/
def failure? (s : Session) (as : List Arrival) : Option String :=
  s.streams.failure? (s.streams.queue ++ s.later as)

/-- The event that ends a turn which drains, by the failure of the writer that is heard. -/
def closing : Option String → LineEvent
  | none => .endOfExecution
  | some reason => .fault ("failed to write to interpreter: " ++ reason)

/-- Whether the turn of a session that drains comes to its end: the window passes, or the channel
ends. -/
def Ends (s : Session) (as : List Arrival) : Prop := .quiet ∈ as ∨ EndComes s as

/-! ## Reading the queue -/

/-- What reading a queue comes to for a session that drains, with messages that may be read behind
the queue, and the session then. -/
inductive Drains (s : Session) (queue later : List Message) : Poll → Session → Prop
  | printed (text : String) (t : Session) : t.progress = .draining →
      s.streams.failure? (queue ++ later) = t.streams.failure? (t.streams.queue ++ later) →
      Drains s queue later (.event (.outputText text)) t
  | last (t : Session) : t.progress = .idle →
      Drains s queue later (.event (closing (s.streams.failure? (queue ++ later)))) t
  | gone (t : Session) : t.progress = .draining →
      s.streams.failure? (queue ++ later) = none → Drains s queue later .gone t
  | waiting (t : Session) : t.progress = .draining → t.streams.queue = [] →
      t.streams.senderGone = false →
      s.streams.failure? (queue ++ later) = t.streams.failure? later →
      Drains s queue later .waiting t

/-- A message that is passed over and tells of no failure leaves what the others tell. -/
theorem Drains.after_passed {s t u : Session} {m : Message} {queue later : List Message} {p : Poll}
    (h : Drains t queue later p u)
    (hm : s.streams.failure? (m :: queue ++ later) = t.streams.failure? (queue ++ later)) :
    Drains s (m :: queue) later p u := by
  cases h with
  | printed text _ hp hsame => exact .printed text u hp (hm.trans hsame)
  | last _ hp =>
    rw [← hm]
    exact .last u hp
  | gone _ hp hnone => exact .gone u hp (hm.trans hnone)
  | waiting _ hp hempty hsender hsame => exact .waiting u hp hempty hsender (hm.trans hsame)

/-- A line that comes late is printed or passed over. -/
theorem heed_line_draining (s : Session) (hs : s.progress = .draining) (source : Source)
    (text : String) : s.heed (.line source text) = (none, s) ∨
      ∃ late, s.heed (.line source text) = (some (.event (.outputText late)), s) := by
  simp only [heed]
  cases hc : s.adapter.classifyOutput text.toList source with
  | discard => exact .inl rfl
  | endOfExecution => exact .inl (if_pos hs)
  | activeLine n => exact .inl (if_pos hs)
  | outputText late => exact .inr ⟨late, rfl⟩
  | fault reason => exact absurd hc (classifyOutput_ne_fault _ _ _ _)

theorem drains_pollFrom (queue later : List Message) (s : Session) (hs : s.progress = .draining)
    (hq : s.streams.queue = queue) (hlater : s.streams.senderGone = true → later = []) :
    Drains s queue later (s.pollFrom queue).1 (s.pollFrom queue).2 := by
  -- each message either ends the reading or leaves a session that drains for the rest
  induction queue generalizing s with
  | nil =>
    rw [pollFrom]
    split
    · next hsender => exact .gone s hs (by rw [hlater hsender]; rfl)
    · next hsender => exact .waiting s hs hq (Bool.eq_false_iff.mpr hsender) rfl
  | cons m rest ih =>
    obtain ⟨t, ht⟩ : ∃ t, s.takeMessage m rest = t := ⟨_, rfl⟩
    have hprogress : t.progress = .draining := ht ▸ hs
    have hqueue : t.streams.queue = rest := ht ▸ queue_takeMessage s m rest
    have hsender : t.streams.senderGone = s.streams.senderGone :=
      ht ▸ senderGone_takeMessage s m rest
    have htold : t.streams.failure? (rest ++ later) =
        (s.streams.note m).failure? (rest ++ later) :=
      ht ▸ Streams.failure?_note_queue s.streams m rest (rest ++ later)
    have hrest := ih t hprogress hqueue fun h => hlater (hsender ▸ h)
    rw [pollFrom, ht]
    cases m with
    | line source text =>
      have hsame : s.streams.failure? (.line source text :: rest ++ later) =
          t.streams.failure? (rest ++ later) := htold.symm
      rcases heed_line_draining t hprogress source text with h | ⟨late, h⟩
      · rw [h]
        exact hrest.after_passed hsame
      · rw [h]
        exact .printed late t hprogress (by rw [hqueue, hsame])
    | closed source =>
      have hsame : s.streams.failure? (.closed source :: rest ++ later) =
          if t.streams.allClosed then none else t.streams.failure? (rest ++ later) := by
        have hclosed : t.streams.allClosed = (s.streams.note (.closed source)).allClosed := by
          rw [← ht]
          cases source <;> rfl
        rw [List.cons_append, Streams.failure?, hclosed, htold]
      rw [heed]
      cases hclosed : t.streams.allClosed with
      | true =>
        rw [hclosed] at hsame
        exact .gone t hprogress hsame
      | false =>
        rw [hclosed] at hsame
        exact hrest.after_passed hsame
    | writeFailed reason =>
      exact .last (t.fault ("failed to write to interpreter: " ++ reason)).2 rfl

theorem drains_poll (s : Session) (as : List Arrival) (hs : s.progress = .draining) :
    Drains s s.streams.queue (s.later as) s.poll.1 s.poll.2 := by
  rw [poll, if_neg (by rw [hs]; decide)]
  refine drains_pollFrom _ _ s hs rfl fun hsender => ?_
  rw [later, if_pos hsender]

/-! ## One call -/

theorem exited_of_draining (s : Session) (o : Observation) (hs : s.progress = .draining) :
    (s.exited o).1 = .endOfExecution ∧ (s.exited o).2.progress = .idle := by
  rw [exited, if_pos hs]
  exact ⟨rfl, rfl⟩

/-- What one call comes to in a session that drains: a late line, behind which the same failure is
to be heard, or the end of the turn. -/
inductive Gives (s : Session) (as : List Arrival) : LineEvent → Session → List Arrival → Prop
  | late (text : String) (t : Session) (left : List Arrival) : t.progress = .draining →
      t.Ends left → t.failure? left = s.failure? as → Gives s as (.outputText text) t left
  | last (t : Session) (left : List Arrival) : t.progress = .idle →
      Gives s as (closing (s.failure? as)) t left

/-- Nothing was printed for a while, and the call goes on with what arrives. -/
theorem Gives.after_waiting {s t : Session} {as more : List Arrival} {e : LineEvent} {u : Session}
    {left : List Arrival} (h : Gives t more e u left) (hsame : t.failure? more = s.failure? as) :
    Gives s as e u left := by
  cases h with
  | late text _ _ hp hends hfailure => exact .late text u left hp hends (hfailure.trans hsame)
  | last _ _ hp =>
    rw [hsame]
    exact .last u left hp

/-- A call that need not wait gives an event at once. -/
theorem gives_of_drains (host : Nat → Observation) {s t : Session} {as : List Arrival} {p : Poll}
    (hends : s.Ends as) (hpoll : s.poll = (p, t)) (hp : p ≠ .waiting)
    (hread : Drains s s.streams.queue (s.later as) p t) :
    ∃ e u left, await host s as = some (some e, u, left) ∧ Gives s as e u left := by
  have hsender : t.streams.senderGone = s.streams.senderGone := by
    have h := senderGone_poll s
    rwa [hpoll] at h
  unfold await
  rw [hpoll]
  cases hread with
  | printed text _ hdrains hsame =>
    have hlater : t.later as = s.later as := by rw [later, later, hsender]
    refine ⟨_, t, as, rfl, .late text t as hdrains ?_ ?_⟩
    · exact hends.imp_right (Or.imp_left hsender.trans)
    · rw [failure?, hlater, ← hsame, failure?]
  | last _ hidle => exact ⟨_, t, as, rfl, .last t as hidle⟩
  | gone _ hdrains hnone =>
    -- what the process has ended with does not matter once the end marker was read
    obtain ⟨hlast, hidle⟩ := exited_of_draining t (host t.patience) hdrains
    have hclosing : (t.exited (host t.patience)).1 = closing (s.failure? as) := by
      rw [hlast, failure?, hnone]
      rfl
    refine ⟨(t.exited (host t.patience)).1, (t.exited (host t.patience)).2, as, rfl, ?_⟩
    rw [hclosing]
    exact .last _ as hidle
  | waiting => exact absurd rfl hp

/-- A session that waits has read its queue, and the same failure is to be heard as before. -/
theorem Drains.of_waiting {s t : Session} {as : List Arrival}
    (hread : Drains s s.streams.queue (s.later as) .waiting t)
    (hsender : t.streams.senderGone = s.streams.senderGone) :
    t.progress = .draining ∧ t.streams.queue = [] ∧ t.streams.senderGone = false ∧
      t.failure? as = s.failure? as := by
  cases hread with
  | waiting _ hdrains hempty hopen hsame =>
    refine ⟨hdrains, hempty, hopen, ?_⟩
    have hlater : t.later as = s.later as := by rw [later, later, hsender]
    rw [failure?, hempty, hlater, failure?, hsame]
    rfl

/-- The message that comes while a session waits is the next one to be heard. -/
theorem failure?_send {t : Session} (hempty : t.streams.queue = [])
    (hopen : t.streams.senderGone = false) (m : Message) (as : List Arrival) :
    failure? { t with streams := t.streams.send m } as = t.failure? (.message m :: as) := by
  have hqueue : (t.streams.send m).queue = [m] := by simp [Streams.send, hopen, hempty]
  have hsent : (t.streams.send m).senderGone = false := by simp [Streams.send, hopen]
  have hout : (t.streams.send m).stdoutOpen = t.streams.stdoutOpen := by simp [Streams.send, hopen]
  have herr : (t.streams.send m).stderrOpen = t.streams.stderrOpen := by simp [Streams.send, hopen]
  rw [failure?, failure?, later, later, hqueue, hsent, hempty, hopen,
    Streams.failure?_congr hout herr]
  rfl

/-- When the channel ends while a session waits, nothing more is heard. -/
theorem failure?_dropSender {t : Session} (hempty : t.streams.queue = []) (as : List Arrival) :
    failure? { t with streams := t.streams.dropSender } as = t.failure? (.ended :: as) := by
  have hqueue : t.streams.dropSender.queue = [] := hempty
  have hlater : t.later (.ended :: as) = [] := by simp [later, arriving, Arrival.isMessage]
  rw [failure?, failure?, hempty, hlater, hqueue]
  rfl

theorem failure?_quiet {t : Session} (hempty : t.streams.queue = []) (as : List Arrival) :
    t.failure? (.quiet :: as) = none := by
  have hlater : t.later (.quiet :: as) = [] := by simp [later, arriving, Arrival.isMessage]
  rw [failure?, hempty, hlater]
  rfl

/-- A turn that ends still does when a message has come. -/
theorem Ends.of_message {s t : Session} {m : Message} {as : List Arrival}
    (hends : s.Ends (.message m :: as)) (hopen : s.streams.senderGone = false) : t.Ends as := by
  rcases hends with h | h | h
  · exact .inl (by simpa using h)
  · rw [hopen] at h
    cases h
  · exact .inr (.inr (by simpa using h))

/-- A call comes back, with a late line or with the end of the turn. -/
theorem await_draining (host : Nat → Observation) (as : List Arrival) (s : Session)
    (hs : s.progress = .draining) (hends : s.Ends as) :
    ∃ e t left, await host s as = some (some e, t, left) ∧ Gives s as e t left := by
  induction as generalizing s with
  | nil =>
    obtain ⟨⟨p, t⟩, hpoll⟩ : ∃ out, s.poll = out := ⟨_, rfl⟩
    have hread := drains_poll s [] hs
    have hsender := senderGone_poll s
    simp only [hpoll] at hread hsender
    apply gives_of_drains host hends hpoll ?_ hread
    -- a call that waits for ever would have a channel that ends
    rintro rfl
    obtain ⟨-, -, hopen, -⟩ := hread.of_waiting hsender
    rcases hends with h | h | h
    · cases h
    · rw [← hsender, hopen] at h
      cases h
    · cases h
  | cons a as ih =>
    obtain ⟨⟨p, t⟩, hpoll⟩ : ∃ out, s.poll = out := ⟨_, rfl⟩
    have hread := drains_poll s (a :: as) hs
    have hsender := senderGone_poll s
    simp only [hpoll] at hread hsender
    by_cases hp : p = .waiting
    · subst hp
      obtain ⟨hdrains, hempty, hopen, hsame⟩ := hread.of_waiting hsender
      unfold await
      simp only [hpoll]
      -- what arrives is taken in, and the call goes on with the rest
      cases a with
      | message m =>
        have hmore : Ends { t with streams := t.streams.send m } as :=
          hends.of_message (hsender.symm.trans hopen)
        obtain ⟨e, u, left, hawait, hgives⟩ :=
          ih { t with streams := t.streams.send m } hdrains hmore
        have hheard := (failure?_send hempty hopen m as).trans hsame
        exact ⟨e, u, left, hawait, hgives.after_waiting hheard⟩
      | ended =>
        have hmore : Ends { t with streams := t.streams.dropSender } as := .inr (.inl rfl)
        obtain ⟨e, u, left, hawait, hgives⟩ :=
          ih { t with streams := t.streams.dropSender } hdrains hmore
        have hheard := (failure?_dropSender hempty as).trans hsame
        exact ⟨e, u, left, hawait, hgives.after_waiting hheard⟩
      | quiet =>
        have hlast : Gives s (.quiet :: as) (closing (s.failure? (.quiet :: as))) t.quiet.2 as :=
          .last t.quiet.2 as rfl
        rw [← hsame, failure?_quiet hempty] at hlast
        exact ⟨t.quiet.1, t.quiet.2, as, if_pos hdrains, hlast⟩
    · exact gives_of_drains host hends hpoll hp hread

/-! ## All calls -/

/-- Every call of a turn that drains comes back. -/
theorem calls_ne_none_of_draining (host : Nat → Observation) (n : Nat) (s : Session)
    (as : List Arrival) (hs : s.progress = .draining) (hends : s.Ends as) :
    calls host n s as ≠ none := by
  induction n generalizing s as with
  | zero => simp [calls]
  | succ n ih =>
    obtain ⟨e, t, left, hawait, hgives⟩ := await_draining host as s hs hends
    rw [calls_succ host n s t as left (some e) hawait, Ne, Option.map_eq_none_iff]
    cases hgives with
    | late text _ _ hdrains hmore => exact ih t left hdrains hmore
    | last _ _ hidle => simp [calls_of_idle host n t left hidle]

/-- Whichever call ends the turn, it gives the same event. -/
theorem last_of_calls_draining (host : Nat → Observation) (n : Nat) {s t : Session}
    {as left : List Arrival} {outs : List (Option LineEvent)} {e : LineEvent}
    (hs : s.progress = .draining) (hends : s.Ends as)
    (hcalls : calls host n s as = some (outs, t, left)) (he : some e ∈ outs)
    (hlast : e.isTerminal = true) : e = closing (s.failure? as) := by
  induction n generalizing s as outs with
  | zero =>
    cases hcalls
    cases he
  | succ n ih =>
    obtain ⟨e', u, more, hawait, hgives⟩ := await_draining host as s hs hends
    rw [calls_succ host n s u as more (some e') hawait] at hcalls
    obtain ⟨⟨rest, _, _⟩, hrest, hsplit⟩ := Option.map_eq_some_iff.mp hcalls
    cases hsplit
    rcases List.mem_cons.mp he with hfirst | hlater
    · cases hfirst
      cases hgives with
      | late text => cases hlast
      | last => rfl
    · cases hgives with
      | late text _ _ hdrains hmore hsame =>
        rw [← hsame]
        exact ih hdrains hmore hrest hlater
      | last _ _ hidle =>
        -- behind the end of the turn the calls give nothing
        rw [calls_of_idle host n u more hidle] at hrest
        cases hrest
        cases List.eq_of_mem_replicate hlater

/-- A turn that has read its end marker ends, as soon as nothing more comes for a while at the
latest. What it delivers before are the lines that are printed late. It ends well exactly if it does
not hear that the writer has failed, and with that failure if it does. -/
theorem draining_turn_ends (host : Nat → Observation) (s : Session) (as : List Arrival)
    (hs : s.progress = .draining) :
    ∃ before last read t left,
      read ++ (t.streams.queue ++ arriving left) = s.streams.queue ++ arriving as ∧
      before = (s.adapter.heard read).filter LineEvent.isOutput ∧
      (∀ n, calls host (before.length + 1 + n) s (as ++ [.quiet]) =
        some ((before ++ [last]).map some ++ List.replicate n none, t, left)) ∧
      (last = .endOfExecution ↔ s.failure? as = none) ∧
      ∀ reason, s.failure? as = some reason →
        last = .fault ("failed to write to interpreter: " ++ reason) := by
  -- the quiet window that is promised ends the turn, if nothing else has before
  have hends : s.Ends (as ++ [.quiet]) := .inl (by simp)
  have hfailure : s.failure? (as ++ [.quiet]) = s.failure? as := by
    rw [failure?, failure?, later_quiet]
  obtain ⟨before, last, read, t, left, hcut, hbefore, -, hterminal, -, hcalls⟩ :=
    calls_of_inFlight host s (as ++ [.quiet]) (by rw [hs]; decide) fun n =>
      calls_ne_none_of_draining host n s _ hs hends
  have hlast : last = closing (s.failure? as) := by
    rw [← hfailure]
    exact last_of_calls_draining host _ hs hends (hcalls 0) (by simp) hterminal
  refine ⟨before, last, read, t, left, ?_, ?_, hcalls, ?_, ?_⟩
  · rw [hcut, arriving, List.filterMap_append]
    simp [arriving]
  · rw [hbefore, eventsFrom, if_pos hs]
  · rw [hlast]
    cases s.failure? as <;> simp [closing]
  · intro reason hreason
    rw [hlast, hreason]
    rfl

/-- A shell whose turn has just read its end marker. -/
def drainingShell : Session :=
  let fed := (freshShell.feed .accepted "echo hi".toList).2
  { fed with streams := fed.streams.send (.line .stdout "##end_of_execution##") }.poll.2

/-- A late line, both closings, and a failure of the writer that nobody hears any more. -/
def unheardFailure : List Arrival :=
  [.line .stderr "late", .closed .stdout, .closed .stderr,
    .writeFailed "Broken pipe (os error 32)"].map .message

theorem draining_turn_ends_unheardFailure : drainingShell.progress = .draining ∧
    drainingShell.failure? unheardFailure = none ∧
    ∃ before read t left,
      read ++ (t.streams.queue ++ arriving left) =
        drainingShell.streams.queue ++ arriving unheardFailure ∧
      before = (drainingShell.adapter.heard read).filter LineEvent.isOutput ∧
      ∀ n, calls (fun _ => default) (before.length + 1 + n) drainingShell
          (unheardFailure ++ [.quiet]) =
        some ((before ++ [LineEvent.endOfExecution]).map some ++ List.replicate n none, t,
          left) := by
  have hdrains : drainingShell.progress = .draining := by rfl
  have hnone : drainingShell.failure? unheardFailure = none := by rfl
  obtain ⟨before, last, read, t, left, hcut, hbefore, hcalls, hwell, -⟩ :=
    draining_turn_ends (fun _ => default) drainingShell unheardFailure hdrains
  rw [hwell.mpr hnone] at hcalls
  exact ⟨hdrains, hnone, before, read, t, left, hcut, hbefore, hcalls⟩

/-- The writer fails while late lines are waited for, and the turn ends with a fault though its code
has run to the end. -/
theorem draining_turn_faults : drainingShell.progress = .draining ∧
    drainingShell.drainGrace ≠ 0 ∧
    ∀ host, ∃ t, await host drainingShell [.message (.writeFailed "Broken pipe (os error 32)")] =
      some (some (.fault "failed to write to interpreter: Broken pipe (os error 32)"), t, []) := by
  refine ⟨by rfl, by decide, fun host => ⟨_, by rfl⟩⟩

end Session

end StepTrace

import StepTrace.Proofs.Interpreter.Arrivals
import StepTrace.Proofs.Manager.Execution

/-!
# Executions in a workshop

A workshop executes code without a break, while nothing but time goes on beside it. Here its way is
found among the executions that are taken step by step: `Leads` says that an execution comes from
one stage to another while nobody else calls the manager, and the workshop's execution goes so from
its first stage to its end (`leads_executeTrying`). What holds of every execution step by step thus
holds of it.

The main statement, `submission_at_most_once`, is about refused submissions of one session, about
executions step by step whatever happens between the steps, and about the workshop's.
-/

set_option autoImplicit false

namespace StepTrace

/-! ## What arrives meanwhile -/

namespace Session

theorem Meanwhile.refl (s : Session) : s.Meanwhile s := ⟨s.streams, s.transcript, rfl⟩

theorem Meanwhile.eq {s t : Session} (h : s.Meanwhile t) :
    { s with streams := t.streams, transcript := t.transcript } = t := by
  obtain ⟨streams, transcript, rfl⟩ := h
  rfl

end Session

/-- What may become of a manager while nobody calls it: its sessions go on. -/
structure Manager.Meanwhile (m m' : Manager) : Prop where
  settings : m'.settings = m.settings
  slots : m'.slots = m.slots
  held : m'.held = m.held
  length : m'.sessions.length = m.sessions.length
  session : ∀ n, (m.session n).Meanwhile (m'.session n)

namespace Manager

variable {m m' : Manager} {n : Nat} {s t : Session}

theorem Meanwhile.refl (m : Manager) : m.Meanwhile m := ⟨rfl, rfl, rfl, rfl, fun _ => .refl _⟩

theorem meanwhile_setSession (hn : n < m.sessions.length) (h : s.Meanwhile t) :
    (m.setSession n s).Meanwhile (m.setSession n t) where
  settings := rfl
  slots := rfl
  held := rfl
  length := length_setSession.trans length_setSession.symm
  session := by
    intro k
    rw [session_setSession hn, session_setSession hn]
    split
    · exact h
    · exact .refl _

theorem setSession_setSession (m : Manager) (n : Nat) (s t : Session) :
    (m.setSession n s).setSession n t = m.setSession n t := by
  simp [setSession]

/-- What may become of a manager while nobody calls it and something arrives at one session. -/
def Arrives (m m' : Manager) : Prop := ∃ n t, (m.session n).Arrives t ∧ m.setSession n t = m'

theorem Arrives.refl (m : Manager) : m.Arrives m := ⟨0, m.session 0, .refl _, setSession_self m 0⟩

theorem Arrives.release (h : m.Arrives m') (n : Nat) : (m.release n).Arrives (m'.release n) := by
  obtain ⟨k, t, harrives, rfl⟩ := h
  exact ⟨k, t, harrives, rfl⟩

theorem arrives_setSession (hn : n < m.sessions.length) (h : s.Arrives t) :
    (m.setSession n s).Arrives (m.setSession n t) :=
  ⟨n, t, by rwa [session_setSession_self hn], setSession_setSession m n s t⟩

theorem Arrives.meanwhile (h : m.Arrives m') : m.Meanwhile m' := by
  obtain ⟨n, t, harrives, rfl⟩ := h
  by_cases hn : n < m.sessions.length
  · have hmeanwhile := meanwhile_setSession hn harrives.meanwhile
    rwa [setSession_self] at hmeanwhile
  · rw [setSession, List.set_eq_of_length_le (Nat.le_of_not_lt hn)]
    exact .refl m

end Manager

namespace Circumstance

/-- Whether nobody else calls the manager. -/
def OnlyArrivals (c : Circumstance) : Prop := ∀ m : Manager, m.Meanwhile (c.meanwhile m)

/-- Something arrives at one session. -/
def arriving (n : Nat) (t : Session) (o : Observation)
    (launched : Except Failure (Adapter × Moment × Nat)) (verdict : Verdict) : Circumstance where
  meanwhile m :=
    m.setSession n { m.session n with streams := t.streams, transcript := t.transcript }
  length_meanwhile _ := Nat.le_of_eq Manager.length_setSession.symm
  observed := o
  launched := launched
  verdict := verdict

theorem onlyArrivals_arriving (n : Nat) (t : Session) (o : Observation)
    (launched : Except Failure (Adapter × Moment × Nat)) (verdict : Verdict) :
    (arriving n t o launched verdict).OnlyArrivals := by
  intro m
  by_cases hn : n < m.sessions.length
  · have h := Manager.meanwhile_setSession (t := { m.session n with
      streams := t.streams, transcript := t.transcript }) hn (s := m.session n) ⟨_, _, rfl⟩
    rwa [Manager.setSession_self] at h
  · have hsame : (arriving n t o launched verdict).meanwhile m = m :=
      congrArg (fun sessions => { m with sessions := sessions })
        (List.set_eq_of_length_le (Nat.le_of_not_lt hn))
    rw [hsame]
    exact .refl m

/-- What arrives is there at the next step. -/
theorem meanwhile_arriving {m : Manager} {n : Nat} {t : Session} (h : (m.session n).Meanwhile t)
    (o : Observation) (launched : Except Failure (Adapter × Moment × Nat)) (verdict : Verdict) :
    (arriving n t o launched verdict).meanwhile m = m.setSession n t :=
  congrArg (m.setSession n) h.eq

end Circumstance

/-! ## From stage to stage -/

/-- Whether an execution comes from one stage to another while nobody else calls the manager: before
each of its steps something may arrive at one session. -/
inductive Leads (l : Language) (code : List Char) : Manager → Stage → Manager → Stage → Prop
  | done (m : Manager) (stage : Stage) : Leads l code m stage m stage
  | step {m m' : Manager} {stage stage' : Stage} (n : Nat) (t : Session) (o : Observation)
      (launched : Except Failure (Adapter × Moment × Nat)) (verdict : Verdict) :
      (m.session n).Arrives t → (∀ r, stage ≠ .ended r) →
      Leads l code
        (stage.step l code (.arriving n t o launched verdict) (m.setSession n t)).1
        (stage.step l code (.arriving n t o launched verdict) (m.setSession n t)).2 m' stage' →
      Leads l code m stage m' stage'

namespace Leads

variable {l : Language} {code : List Char} {m m' m'' : Manager} {stage stage' stage'' : Stage}
  {tries n : Nat} {t u : Session}

theorem trans (h : Leads l code m stage m' stage') (h' : Leads l code m' stage' m'' stage'') :
    Leads l code m stage m'' stage'' := by
  induction h with
  | done => exact h'
  | step n t o launched verdict harrives hgoes _ ih =>
    exact .step n t o launched verdict harrives hgoes (ih h')

/-- A step before which something has arrived at a session. -/
theorem of_arriving (o : Observation) (verdict : Verdict) (h : (m.session n).Arrives t)
    (hgoes : ∀ r, stage ≠ .ended r)
    (hstep : ∀ c : Circumstance, c.observed = o → c.verdict = verdict →
      stage.step l code c (m.setSession n t) = (m', stage')) :
    Leads l code m stage m' stage' := by
  refine .step n t o (.error default) verdict h hgoes ?_
  rw [hstep _ rfl rfl]
  exact .done m' stage'

/-- A step before which nothing has happened. -/
theorem of_still (launched : Except Failure (Adapter × Moment × Nat)) (verdict : Verdict)
    (hgoes : ∀ r, stage ≠ .ended r)
    (hstep : ∀ c : Circumstance, c.launched = launched → c.verdict = verdict →
      stage.step l code c m = (m', stage')) :
    Leads l code m stage m' stage' := by
  refine .step 0 (m.session 0) default launched verdict (.refl _) hgoes ?_
  rw [Manager.setSession_self, hstep _ rfl rfl]
  exact .done m' stage'

/-- An execution that comes so to a stage is a run in which nobody else calls the manager. -/
theorem exists_run (h : Leads l code m stage m' stage') (handed : List (Nat × List Char)) :
    ∃ cs : List Circumstance, (∀ c ∈ cs, c.OnlyArrivals) ∧
      ∃ handed', Execution.run l code cs ⟨m, stage, handed⟩ = ⟨m', stage', handed'⟩ := by
  induction h generalizing handed with
  | done => exact ⟨[], by rintro _ ⟨⟩, handed, rfl⟩
  | @step m _ stage _ n t o launched verdict harrives hgoes _ ih =>
    obtain ⟨cs, hcs, handed', hrun⟩ :=
      ih (handed ++ (m.setSession n t).handed
        (stage.step l code (.arriving n t o launched verdict) (m.setSession n t)).1)
    refine ⟨.arriving n t o launched verdict :: cs, ?_, handed', ?_⟩
    · intro c hc
      rcases List.mem_cons.mp hc with rfl | hc
      · exact Circumstance.onlyArrivals_arriving n t o launched verdict
      · exact hcs c hc
    · rw [← hrun, Execution.run, List.foldl_cons, Execution.next_eq hgoes,
        Circumstance.meanwhile_arriving harrives.meanwhile]
      rfl

end Leads

namespace Workshop

variable {l : Language} {code : List Char} {w w' : Workshop} {tries n : Nat}

/-- An interpreter that a workshop starts has a session that has just started. -/
theorem session_of_startFor {i : Interpreter} (h : w.startFor l = .ok i) :
    ∃ adapter, i.session =
      .start adapter w.manager.settings.session (.ofMillis w.clock) w.nextPid := by
  rw [startFor] at h
  cases hadapter : w.host.adapterFor l w.manager.settings with
  | error f =>
    rw [hadapter] at h
    cases h
  | ok adapter =>
    rw [hadapter] at h
    change Interpreter.start w.host adapter w.manager.settings.session w.clock w.nextPid = .ok i
      at h
    rw [Interpreter.start] at h
    split at h
    · cases h
      exact ⟨adapter, rfl⟩
    · cases h

/-- What looking for a session leads to. -/
def sought (tries : Nat) : Except Failure Nat → Stage
  | .ok n => .holding tries n
  | .error f => .ended (.error f)

/-- Looking for a session goes through its two stages. -/
theorem leads_sessionFor (code : List Char) (tries : Nat) {r : Except Failure Nat}
    (h : w.sessionFor l = (r, w')) :
    Leads l code w.manager (.seeking tries) w'.manager (sought tries r) ∧
      ∀ n, r = .ok n → n < w'.manager.sessions.length := by
  rw [sessionFor] at h
  cases husable : w.manager.usable? l with
  | some n =>
    rw [husable] at h
    cases h
    refine ⟨.of_still (.error default) .accepted (by rintro _ ⟨⟩) fun c _ _ => ?_, ?_⟩
    · simp only [Stage.step, husable, sought]
    · rintro _ ⟨⟩
      exact Manager.lt_of_usable? husable
  | none =>
    rw [husable] at h
    have hseek : Leads l code w.manager (.seeking tries) w.manager (.filling tries) := by
      refine .of_still (.error default) .accepted (by rintro _ ⟨⟩) fun c _ _ => ?_
      simp only [Stage.step, husable]
    cases hstart : w.startFor l with
    | error f =>
      rw [hstart] at h
      cases h
      refine ⟨hseek.trans (.of_still (.error f) .accepted (by rintro _ ⟨⟩) fun c hc _ => ?_), ?_⟩
      · simp only [Stage.step, hc, Except.map, Manager.fill, husable, sought]
      · rintro _ ⟨⟩
    | ok i =>
      obtain ⟨adapter, hsession⟩ := session_of_startFor hstart
      obtain ⟨⟨r', m'⟩, hfill⟩ : ∃ p, w.manager.fill l (.ok (.start adapter
        w.manager.settings.session (.ofMillis w.clock) w.nextPid)) = p := ⟨_, rfl⟩
      -- the manager meets the session that the workshop has started
      have hlaunch : ∀ c : Circumstance, c.launched = .ok (adapter, .ofMillis w.clock, w.nextPid) →
          w.manager.fill l (c.launched.map fun p =>
            Session.start p.1 w.manager.settings.session p.2.1 p.2.2) = (r', m') := by
        intro c hc
        rw [hc]
        exact hfill
      rw [hstart] at h
      dsimp only at h
      rw [hsession, hfill] at h
      cases h
      refine ⟨hseek.trans (.of_still (.ok (adapter, .ofMillis w.clock, w.nextPid)) .accepted
        (by rintro _ ⟨⟩) fun c hc _ => ?_), ?_⟩
      · simp only [Stage.step, hlaunch c hc]
        cases r' <;> rfl
      · exact (Stage.handed_fill (hlaunch (.arriving 0 default default _ .accepted) rfl)).2

/-- Looking whether a session still lives is one stage. -/
theorem leads_isAlive (l : Language) (code : List Char) (tries : Nat)
    (hn : n < w.manager.sessions.length) :
    Leads l code w.manager (.checking tries n)
      (w.update n ((w.interpreter n).isAlive w.clock).2 w.clock).manager
      (if ((w.interpreter n).isAlive w.clock).1 then .admitting n else .leaving tries n) := by
  refine .of_arriving ((w.interpreter n).advance w.clock |>.process.observe w.clock) .accepted
    (Interpreter.arrives_advance (w.interpreter n) w.clock) (by rintro _ ⟨⟩) fun c hc _ => ?_
  simp only [Stage.step, hc, Manager.session_setSession_self hn, Manager.setSession_setSession,
    Interpreter.isAlive, update]
  by_cases hrestart : (((w.interpreter n).advance w.clock).session.refresh
    (((w.interpreter n).advance w.clock).process.observe w.clock)).needsRestart = true
  · simp [hrestart]
  · simp [hrestart]

/-- Beginning a turn goes through two stages; then the writer takes the input. -/
theorem leads_beginTurn (l : Language) (code : List Char)
    (hn : n < w.manager.sessions.length) :
    ∃ m', Leads l code w.manager (.admitting n) m' (.ended (w.beginTurn l n code).1) ∧
      m'.Arrives (w.beginTurn l n code).2.manager := by
  obtain ⟨i, hi⟩ : ∃ i, (w.interpreter n).advance w.clock = i := ⟨_, rfl⟩
  have harrives : (w.manager.session n).Arrives i.session := by
    rw [← hi]
    exact Interpreter.arrives_advance (w.interpreter n) w.clock
  obtain ⟨o, ho⟩ : ∃ o, i.process.observe w.clock = o := ⟨_, rfl⟩
  obtain ⟨⟨r, s⟩, hwelcome⟩ : ∃ p, i.session.welcome o = p := ⟨_, rfl⟩
  have hadmit : (w.interpreter n).welcome w.clock = (r, ⟨s, i.process⟩) := by
    rw [Interpreter.welcome, hi]
    dsimp only
    rw [ho, hwelcome]
  rw [beginTurn, Interpreter.submit, hadmit]
  cases r with
  | error f =>
    refine ⟨_, .of_arriving o .accepted harrives (by rintro _ ⟨⟩) fun c hc _ => ?_, .refl _⟩
    simp only [Stage.step, hc, Manager.session_setSession_self hn, Manager.setSession_setSession,
      hwelcome]
    rfl
  | ok _ =>
    have hleads : Leads l code w.manager (.admitting n) (w.manager.setSession n s)
        (.feeding n) := by
      refine .of_arriving o .accepted harrives (by rintro _ ⟨⟩) fun c hc _ => ?_
      simp only [Stage.step, hc, Manager.session_setSession_self hn,
        Manager.setSession_setSession, hwelcome]
    dsimp only
    generalize w.clock + Interpreter.checkMillis w.host s.adapter code = time
    -- more may arrive while the code is checked
    obtain ⟨j, hj⟩ : ∃ j, Interpreter.advance ⟨s, i.process⟩ time = j := ⟨_, rfl⟩
    have hcomes : ((w.manager.setSession n s).session n).Arrives j.session := by
      rw [Manager.session_setSession_self hn, ← hj]
      exact Interpreter.arrives_advance ⟨s, i.process⟩ time
    obtain ⟨⟨r', s'⟩, hfeed⟩ :
      ∃ p, j.session.feed (Interpreter.verdict w.host j.session.adapter code) code = p := ⟨_, rfl⟩
    rw [Interpreter.feed, hj]
    dsimp only
    rw [hfeed]
    have hwritten := Manager.arrives_setSession hn
      (Interpreter.arrives_writeInput { j with session := s' } time)
    have hfed : ∀ c : Circumstance,
        c.verdict = Interpreter.verdict w.host j.session.adapter code →
        ((w.manager.setSession n j.session).session n).feed c.verdict code = (r', s') := by
      intro c hc
      rw [Manager.session_setSession_self hn, hc]
      exact hfeed
    cases r' with
    | ok _ =>
      refine ⟨_, hleads.trans (.of_arriving default
        (Interpreter.verdict w.host j.session.adapter code) hcomes (by rintro _ ⟨⟩)
        fun c _ hc => ?_), hwritten⟩
      simp only [Stage.step, Manager.setSession_setSession, hfed c hc]
    | error f =>
      refine ⟨_, hleads.trans (.of_arriving default
        (Interpreter.verdict w.host j.session.adapter code) hcomes (by rintro _ ⟨⟩)
        fun c _ hc => ?_), hwritten.release n⟩
      simp only [Stage.step, Manager.setSession_setSession, hfed c hc]

/-- A try that gets hold of a session begins a turn if the session lives, and leaves it to the next
try if not. -/
theorem executeTrying_of_held {w₁ w₂ : Workshop} {m : Manager} {alive : Bool} {i : Interpreter}
    (hsession : w.sessionFor l = (.ok n, w₁)) (hheld : w₁.manager.hold? n = some m)
    (hw₂ : { w₁ with manager := m } = w₂)
    (halive : (w₂.interpreter n).isAlive w₂.clock = (alive, i)) (k : Nat) :
    w.executeTrying l code (k + 1) =
      if alive then (w₂.update n i w₂.clock).beginTurn l n code
      else { w₂.update n i w₂.clock with
        manager := ((w₂.update n i w₂.clock).manager.release n).discard l n }.executeTrying l code
          k := by
  subst hw₂
  rw [executeTrying, hsession]
  dsimp only
  rw [hheld]
  dsimp only at halive ⊢
  rw [halive]

/-- One try ends the execution, or it finds a dead session and leaves it to the next try. -/
theorem leads_try (w : Workshop) (l : Language) (code : List Char) (tries : Nat) :
    (∃ result, ∃ m' : Manager, ∃ w' : Workshop,
      (∀ k, w.executeTrying l code (k + 1) = (result, w')) ∧
      Leads l code w.manager (.seeking tries) m' (.ended result) ∧ m'.Arrives w'.manager) ∨
    ∃ n, ∃ m : Manager, ∃ w' : Workshop,
      (∀ k, w.executeTrying l code (k + 1) = w'.executeTrying l code k) ∧
      Leads l code w.manager (.seeking tries) m (.discarding tries n) ∧
      w'.manager = m.discard l n := by
  obtain ⟨⟨r, w₁⟩, hsession⟩ : ∃ p, w.sessionFor l = p := ⟨_, rfl⟩
  obtain ⟨hsought, hthere⟩ := leads_sessionFor code tries hsession
  cases r with
  | error f =>
    refine .inl ⟨.error f, _, w₁, fun k => ?_, hsought, .refl _⟩
    rw [executeTrying, hsession]
  | ok n =>
    have hn := hthere n rfl
    cases hheld : w₁.manager.hold? n with
    | none =>
      -- a turn has the session: the execution is refused
      refine .inl ⟨.error (.executionInProgress l.id), _, w₁, fun k => ?_, hsought.trans
        (.of_still (.error default) .accepted (by rintro _ ⟨⟩) fun c _ _ => ?_), .refl _⟩
      · rw [executeTrying, hsession]
        dsimp only
        rw [hheld]
      · simp only [sought, Stage.step, hheld]
    | some m =>
      have hlength : n < m.sessions.length := by
        rw [Manager.sessions_of_hold? hheld]
        exact hn
      have hhold : Leads l code w₁.manager (.holding tries n) m (.checking tries n) := by
        refine .of_still (.error default) .accepted (by rintro _ ⟨⟩) fun c _ _ => ?_
        simp only [Stage.step, hheld]
      obtain ⟨w₂, hw₂⟩ : ∃ w₂ : Workshop, { w₁ with manager := m } = w₂ := ⟨_, rfl⟩
      have hmanager : w₂.manager = m := by rw [← hw₂]
      obtain ⟨⟨alive, i⟩, halive⟩ : ∃ p, (w₂.interpreter n).isAlive w₂.clock = p := ⟨_, rfl⟩
      have hcheck := leads_isAlive l code tries (w := w₂)
        (by rw [hmanager]; exact hlength)
      rw [halive, hmanager] at hcheck
      have hlead := (hsought.trans hhold).trans hcheck
      cases alive with
      | true =>
        have hn₃ : n < (w₂.update n i w₂.clock).manager.sessions.length := by
          rw [update, Manager.length_setSession, hmanager]
          exact hlength
        obtain ⟨m', hbegin, harrives⟩ := leads_beginTurn l code hn₃
        refine .inl ⟨_, m', _, fun k => ?_, hlead.trans hbegin, harrives⟩
        exact executeTrying_of_held hsession hheld hw₂ halive k
      | false =>
        -- letting the dead session go is one more stage; the next try begins with discarding it
        refine .inr ⟨n, (w₂.update n i w₂.clock).manager.release n, { w₂.update n i w₂.clock with
          manager := ((w₂.update n i w₂.clock).manager.release n).discard l n }, fun k => ?_,
          hlead.trans (.of_still (.error default) .accepted (by rintro _ ⟨⟩) fun c _ _ => rfl),
          rfl⟩
        exact executeTrying_of_held hsession hheld hw₂ halive k

/-- The workshop's execution is an execution during which nobody else calls the manager. -/
theorem leads_executeTrying (w : Workshop) (l : Language) (code : List Char) (tries : Nat) :
    ∃ m', Leads l code w.manager (.seeking tries) m'
        (.ended (w.executeTrying l code (tries + 1)).1) ∧
      m'.Arrives (w.executeTrying l code (tries + 1)).2.manager := by
  -- the induction is on the sessions that may still be tried
  induction tries generalizing w with
  | zero =>
    rcases leads_try w l code 0 with
      ⟨result, m', w', heq, hlead, harrives⟩ | ⟨n, m, w', heq, hlead, hmanager⟩
    · rw [heq 0]
      exact ⟨m', hlead, harrives⟩
    · rw [heq 0, executeTrying, hmanager]
      exact ⟨_, hlead.trans
        (.of_still (.error default) .accepted (by rintro _ ⟨⟩) fun c _ _ => rfl), .refl _⟩
  | succ tries ih =>
    rcases leads_try w l code (tries + 1) with
      ⟨result, m', w', heq, hlead, harrives⟩ | ⟨n, m, w', heq, hlead, hmanager⟩
    · rw [heq (tries + 1)]
      exact ⟨m', hlead, harrives⟩
    · obtain ⟨m', hrest, harrives⟩ := ih w'
      rw [heq (tries + 1)]
      refine ⟨m', (hlead.trans (.of_still (.error default) .accepted (by rintro _ ⟨⟩)
        fun c _ _ => rfl)).trans (hmanager ▸ hrest), harrives⟩

end Workshop

/-! ## At most once -/

namespace Execution

/-- What an execution that has ended may have handed over: the code, prepared for the session of its
turn and with a line feed, to that session and no other; and nothing if it has failed. -/
def HandedOnce (code : List Char) (cs : List Circumstance) (e : Execution) :
    Except Failure Turn → Prop
  | .error _ => e.handed = []
  | .ok t => ∃ c ∈ cs, ∃ program,
      (e.manager.session t.session).adapter.preprocess c.verdict code = .ok program ∧
        e.handed = [(t.session, program ++ ['\n'])]

/-- Submission is at most once and all or nothing. A session that refuses code is as `Unharmed`
says; an execution ends, whatever happens between its steps, and has handed over what its result
says; and the workshop's execution is one of these. -/
theorem submission_at_most_once :
    (∀ (s t : Session) (o : Observation) (verdict : Verdict) (code : List Char) (f : Failure),
      s.submit o verdict code = (.error f, t) → s.Unharmed f t) ∧
    (∀ (m : Manager) (l : Language) (code : List Char) (cs : List Circumstance),
      (start m).stage.rank ≤ cs.length →
      ∃ result, ((start m).run l code cs).stage = .ended result ∧
        ((start m).run l code cs).HandedOnce code cs result) ∧
    ∀ (w : Workshop) (l : Language) (code : List Char), ∃ cs : List Circumstance,
      (∀ c ∈ cs, c.OnlyArrivals) ∧
      ((start w.manager).run l code cs).stage = .ended (w.execute l code).1 ∧
      ((start w.manager).run l code cs).HandedOnce code cs (w.execute l code).1 ∧
      ((start w.manager).run l code cs).manager.Meanwhile (w.execute l code).2.manager := by
  -- what holds of every execution holds of the workshop's, which is one of them
  have honce : ∀ (m : Manager) (l : Language) (code : List Char) (cs : List Circumstance) result,
      ((start m).run l code cs).stage = .ended result →
      ((start m).run l code cs).HandedOnce code cs result := by
    intro m l code cs result hended
    have haccounted : Accounted l code cs ((start m).run l code cs) :=
      accounted_run (accounted_start m)
    cases result with
    | error f =>
      refine haccounted.unended ?_
      intro t ht
      rw [hended] at ht
      cases ht
    | ok t => exact (haccounted.ended t hended).2
  refine ⟨fun s t o verdict code f h => Session.unharmed_of_submit h, ?_, ?_⟩
  · intro m l code cs hlength
    have haccounted : Accounted l code [] (start m) := accounted_start m
    obtain ⟨result, hended⟩ := exists_ended_run haccounted hlength
    exact ⟨result, hended, honce m l code cs result hended⟩
  · intro w l code
    obtain ⟨m', hlead, harrives⟩ := Workshop.leads_executeTrying w l code 1
    obtain ⟨cs, hcs, handed, hrun⟩ := hlead.exists_run []
    change (start w.manager).run l code cs = _ at hrun
    have hended : ((start w.manager).run l code cs).stage = .ended (w.execute l code).1 := by
      rw [hrun]
      rfl
    refine ⟨cs, hcs, hended, honce _ _ _ _ _ hended, ?_⟩
    rw [hrun]
    exact harrives.meanwhile

/-- A shell session that a manager may have. -/
def shellSession : Session := .start (.posix .shell ⟨"sh", []⟩) .default default 1

/-- A manager whose only session has a process that has ended, which is not known yet. -/
def forsaken : Manager where
  settings := default
  sessions := [shellSession]
  slots := [(.shell, 0)]
  held := []

/-- The process has ended; another interpreter can be started. -/
def replacing : Circumstance where
  meanwhile m := m
  length_meanwhile _ := Nat.le_refl _
  observed := ⟨default, some (some 0)⟩
  launched := .ok (.posix .shell ⟨"sh", []⟩, default, 2)
  verdict := .accepted

/-- The process runs. -/
def running : Circumstance := { replacing with observed := ⟨default, none⟩ }

/-- The session dies, another one takes its place, and the code goes to that one. -/
def replacement : List Circumstance := List.replicate 6 replacing ++ List.replicate 6 running

theorem submission_at_most_once_replacement :
    (shellSession.submit running.observed (.refused "sh: 1: Syntax error") [] =
        (.error (.instrumentationFailed "shell" 1 "Syntax error"), shellSession) ∧
      shellSession.Unharmed (.instrumentationFailed "shell" 1 "Syntax error") shellSession) ∧
    ((start forsaken).stage.rank ≤ replacement.length ∧
      ∃ result, ((start forsaken).run .shell ['x'] replacement).stage = .ended result ∧
        ((start forsaken).run .shell ['x'] replacement).HandedOnce ['x'] replacement result) ∧
    ((start forsaken).run .shell ['x'] replacement).handed =
      [(1, ("\x7b\necho \"##active_line1##\"" ++
        "\nx\n\x7d 2>&1\n\necho \"##end_of_execution##\"\n").toList)] := by
  have hrefused : shellSession.submit running.observed (.refused "sh: 1: Syntax error") [] =
      (.error (.instrumentationFailed "shell" 1 "Syntax error"), shellSession) := by decide +kernel
  have hlength : (start forsaken).stage.rank ≤ replacement.length := by decide
  obtain ⟨hsubmit, hrun, -⟩ := submission_at_most_once
  exact ⟨⟨hrefused, hsubmit _ _ _ _ _ _ hrefused⟩,
    ⟨hlength, hrun forsaken .shell ['x'] replacement hlength⟩, by decide⟩

end Execution

end StepTrace

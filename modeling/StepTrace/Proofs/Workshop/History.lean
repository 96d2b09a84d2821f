import StepTrace.Proofs.Manager.Turns
import StepTrace.Proofs.Workshop.Execution

/-!
# Histories of a workshop

Somebody uses a workshop: has code executed, asks turns for events and lets them go, resets, starts
and shuts down. `Ledger` is the workshop with the turns that were given out, and an `Errand` is what
may be done with it. Each errand is a run of the traffic in which one caller goes through without a
break, while the threads of the sessions work (`pictures_errand`). So what holds of all traffic holds
of every history of a workshop (`exists_run_of_history`), such as that a session is never used again
after a turn on it went wrong (`session_ne_of_spoilt`).

The main statements are `exclusive_run` and `turns_apart`.
-/

set_option autoImplicit false

namespace StepTrace

/-! ## Errands -/

namespace Workshop

/-- What somebody does who has a workshop. -/
inductive Errand where
  | execute (l : Language) (code : List Char)
  /-- The next event of a turn is asked for. -/
  | next (k : Nat)
  /-- A turn is let go. -/
  | drop (k : Nat)
  | startEager
  | reset (l : Language)
  | shutdown
  /-- A process is killed by the handle of its session. -/
  | kill (n : Nat)
  | sleep (millis : Nat)

/-- A turn that was given out. -/
structure Given where
  turn : Turn
  /-- The events that came of it. -/
  events : List LineEvent
  /-- Whether it was let go. -/
  dropped : Bool

/-- Whether a turn was let go before it had finished, or came to a fault. -/
def Given.Spoilt (g : Given) : Prop :=
  g.turn.finished = false ∧ g.dropped = true ∨ ∃ reason, .fault reason ∈ g.events

/-- A workshop and the turns that were given out. -/
structure Ledger where
  workshop : Workshop
  turns : List Given

/-- The ledger after an errand; nothing if it never comes to an end, since a turn waits for an event
that does not come. -/
def Ledger.errand (b : Ledger) : Errand → Option Ledger
  | .execute l code =>
    match b.workshop.execute l code with
    | (.ok t, w) => some ⟨w, b.turns ++ [⟨t, [], false⟩]⟩
    | (.error _, w) => some ⟨w, b.turns⟩
  | .next k =>
    match b.turns[k]? with
    | some ⟨t, events, false⟩ =>
      if t.finished then some b
      else
        match b.workshop.next t with
        | (some e, t, w) => some ⟨w, b.turns.set k ⟨t, events ++ [e], false⟩⟩
        | (none, _, _) => none
    | _ => some b
  | .drop k =>
    match b.turns[k]? with
    | some ⟨t, events, false⟩ => some ⟨b.workshop.drop t, b.turns.set k ⟨t, events, true⟩⟩
    | _ => some b
  | .startEager => some { b with workshop := b.workshop.startEager.2 }
  | .reset l => some { b with workshop := b.workshop.reset l }
  | .shutdown => some { b with workshop := b.workshop.shutdown }
  | .kill n => some { b with workshop := b.workshop.kill n }
  | .sleep millis => some { b with workshop := b.workshop.sleep millis }

/-- The ledger after some errands, if they all come to an end. -/
def Ledger.history (b : Ledger) (errands : List Errand) : Option Ledger := errands.foldlM errand b

end Workshop

open Workshop (Errand Given Ledger)

/-- What is seen of a turn from outside. -/
def Tenure.seen (t : Tenure) : Turn × List LineEvent × Grip := (t.turn, t.yielded, t.grip)

/-- What is seen of a turn that was given out. -/
def Workshop.Given.seen (g : Given) : Turn × List LineEvent × Grip :=
  (g.turn, g.events, if g.dropped then .gone else .reading)

namespace Traffic

variable {x y z : Traffic} {k n : Nat} {l : Language} {code : List Char}

/-! ## Going from one traffic to another -/

/-- Whether one traffic comes to be another one. -/
def Goes (x y : Traffic) : Prop := ∃ acts, x.run acts = y

theorem Goes.refl (x : Traffic) : x.Goes x := ⟨[], rfl⟩

theorem Goes.trans (h : x.Goes y) (h' : y.Goes z) : x.Goes z := by
  obtain ⟨acts, rfl⟩ := h
  obtain ⟨more, rfl⟩ := h'
  exact ⟨acts ++ more, List.foldl_append⟩

theorem goes_act (x : Traffic) (a : Act) : x.Goes (x.act a) := ⟨[a], rfl⟩

/-- What is seen of the turns from outside. -/
def view (x : Traffic) : List (Turn × List LineEvent × Grip) := x.tenures.map Tenure.seen

/-- What arrives at a session is brought by its threads. -/
theorem goes_arrives (x : Traffic) {m : Manager} (h : x.manager.Arrives m) :
    ∃ y, x.Goes y ∧ y.manager = m ∧ y.calls = x.calls ∧ y.view = x.view := by
  obtain ⟨n, t, ⟨streams, transcript, hgrows, rfl⟩, rfl⟩ := h
  by_cases hn : n < x.manager.sessions.length
  · refine ⟨_, x.goes_act (.threads n streams transcript), ?_⟩
    rw [act, if_pos ⟨hn, hgrows⟩]
    refine ⟨rfl, rfl, ?_⟩
    rw [view, List.map_map]
    refine List.map_congr_left fun t _ => ?_
    rw [Function.comp_apply, Tenure.hear]
    split <;> rfl
  · refine ⟨x, .refl x, ?_, rfl, rfl⟩
    rw [Manager.setSession, List.set_eq_of_length_le (Nat.le_of_not_lt hn)]

/-- A step of a call is an act. -/
theorem goes_step {call : Call} (hcall : x.calls[k]? = some call) (o : Observation)
    (launched : Except Failure (Adapter × Moment × Nat)) (verdict : Verdict) :
    ∃ y : Traffic, x.Goes y ∧
      y.manager = (call.step (.still o launched verdict) x.manager).1 ∧
      y.calls[k]? = some (call.step (.still o launched verdict) x.manager).2 ∧
      y.view = x.view ++
        (call.begun (call.step (.still o launched verdict) x.manager).2).toList.map
          fun t => (t, [], .reading) := by
  refine ⟨_, x.goes_act (.go k o launched verdict), ?_⟩
  rw [act_go hcall, goOn]
  refine ⟨rfl, ?_, ?_⟩
  · have hk := (List.getElem?_eq_some_iff.mp hcall).1
    exact List.getElem?_set_self hk
  · rw [view, List.map_append]
    generalize call.begun _ = begun
    cases begun <;> rfl

/-- A request is an act. -/
theorem goes_enter (x : Traffic) (r : Request) :
    ∃ (y : Traffic) (k : Nat), x.Goes y ∧ y.manager = x.manager ∧
      y.calls[k]? = some (r.call x.manager) ∧ y.view = x.view :=
  ⟨_, x.calls.length, x.goes_act (.enter r), rfl, List.getElem?_concat_length, rfl⟩

end Traffic

namespace Workshop

theorem manager_kill (w : Workshop) (n : Nat) : (w.kill n).manager = w.manager := by
  rw [kill, update, Interpreter.session_signal]
  exact Manager.setSession_self w.manager n

theorem manager_stop (w : Workshop) (n : Nat) :
    (w.stop n).manager = if w.manager.isHeld n then w.manager
      else w.manager.setSession n ((w.interpreter n).terminate w.clock).1.session := by
  rw [stop]
  split
  · exact w.manager_kill n
  · obtain ⟨⟨i, time⟩, hterminate⟩ : ∃ p, (w.interpreter n).terminate w.clock = p := ⟨_, rfl⟩
    rw [hterminate]
    rfl

end Workshop

/-! ## Executions -/

/-- The turn with which an execution has ended. -/
def Stage.turn? : Stage → Option Turn
  | ended (.ok t) => some t
  | _ => none

theorem Stage.eq_ended_of_turn? {stage : Stage} {t : Turn} (h : stage.turn? = some t) :
    stage = .ended (.ok t) := by
  cases stage with
  | ended r =>
    cases r with
    | ok u =>
      cases h
      rfl
    | error f => cases h
  | _ => cases h

theorem Stage.step_arriving (stage : Stage) (l : Language) (code : List Char) (n : Nat) (t : Session)
    (o : Observation) (launched : Except Failure (Adapter × Moment × Nat)) (verdict : Verdict)
    (m : Manager) : stage.step l code (.arriving n t o launched verdict) m =
      stage.step l code (.still o launched verdict) m := by
  cases stage with
  | discarding tries n => cases tries <;> rfl
  | _ => rfl

/-- A turn begins with the step that ends an execution well. -/
theorem Call.begun_step {l : Language} {code : List Char} {stage : Stage} {c : Circumstance}
    {m : Manager} (hgoes : ∀ r, stage ≠ .ended r) (handed handed' : List (Nat × List Char)) :
    (execute l code stage handed).begun (execute l code (stage.step l code c m).2 handed') =
      (stage.step l code c m).2.turn? := by
  cases stage with
  | ended r => exact absurd rfl (hgoes r)
  | seeking tries =>
    simp only [Stage.step]
    split <;> rfl
  | filling tries =>
    simp only [Stage.step]
    split <;> rfl
  | holding tries n =>
    simp only [Stage.step]
    split <;> rfl
  | checking tries n =>
    simp only [Stage.step]
    split <;> rfl
  | leaving tries n => rfl
  | discarding tries n => cases tries <;> rfl
  | admitting n =>
    simp only [Stage.step]
    split <;> rfl
  | feeding n =>
    simp only [Stage.step]
    split <;> rfl

theorem Leads.eq_of_ended {l : Language} {code : List Char} {m m' : Manager} {stage : Stage}
    {r : Except Failure Turn} (h : Leads l code m (.ended r) m' stage) :
    m' = m ∧ stage = .ended r := by
  cases h with
  | done => exact ⟨rfl, rfl⟩
  | step _ _ _ _ _ _ hgoes => exact absurd rfl (hgoes r)

namespace Traffic

variable {x : Traffic} {k n : Nat} {l : Language} {code : List Char} {w : Workshop} {s u : Session}
  {out : Option LineEvent} {e : LineEvent} {t : Turn} {yielded : List LineEvent}

/-- An execution during which nobody else calls the manager is one caller's way through. -/
theorem goes_leads {m m' : Manager} {stage stage' : Stage} (h : Leads l code m stage m' stage') :
    ∀ (x : Traffic) handed, x.manager = m → x.calls[k]? = some (.execute l code stage handed) →
      stage.turn? = none → ∃ y, x.Goes y ∧ y.manager = m' ∧
        y.view = x.view ++ stage'.turn?.toList.map fun t => (t, [], .reading) := by
  induction h with
  | done m stage =>
    intro x handed hm hcall hnone
    exact ⟨x, .refl x, hm, by simp [hnone]⟩
  | @step m m' stage stage' n t o launched verdict harrives hgoes hrest ih =>
    intro x handed hm hcall hnone
    subst hm
    obtain ⟨y, hgoes₁, hmanager₁, hcalls₁, hview₁⟩ := x.goes_arrives ⟨n, t, harrives, rfl⟩
    rw [← hcalls₁] at hcall
    obtain ⟨z, hgoes₂, hmanager₂, hcalls₂, hview₂⟩ := goes_step hcall o launched verdict
    rw [Stage.step_arriving] at hrest ih
    rw [Call.step_execute hgoes, hmanager₁] at hmanager₂ hcalls₂ hview₂
    rw [Call.begun_step hgoes, hview₁] at hview₂
    have hreach := hgoes₁.trans hgoes₂
    cases hturn : (stage.step l code (.still o launched verdict)
      (x.manager.setSession n t)).2.turn? with
    | none =>
      obtain ⟨w, hgoes₃, hmanager₃, hview₃⟩ := ih z _ hmanager₂ hcalls₂ hturn
      refine ⟨w, hreach.trans hgoes₃, hmanager₃, ?_⟩
      rw [hview₃, hview₂, hturn]
      simp
    | some turn =>
      -- the execution has ended, and nothing follows
      have hended := Stage.eq_ended_of_turn? hturn
      rw [hended] at hrest
      obtain ⟨rfl, rfl⟩ := hrest.eq_of_ended
      exact ⟨z, hreach, hmanager₂, by rw [hview₂, hended]⟩

/-- The workshop's execution. -/
theorem goes_execute (x : Traffic) {w : Workshop} (hw : x.manager = w.manager) (l : Language)
    (code : List Char) :
    ∃ y, x.Goes y ∧ y.manager = (w.execute l code).2.manager ∧
      y.view = x.view ++
        (Stage.ended (w.execute l code).1).turn?.toList.map fun t => (t, [], .reading) := by
  obtain ⟨m, hleads, harrives⟩ := Workshop.leads_executeTrying w l code 1
  obtain ⟨y₁, k, hgoes₁, hmanager₁, hcall, hview₁⟩ := x.goes_enter (.execute l code)
  obtain ⟨y₂, hgoes₂, hmanager₂, hview₂⟩ := goes_leads hleads y₁ []
    (hmanager₁.trans hw) hcall rfl
  rw [← hmanager₂] at harrives
  obtain ⟨y₃, hgoes₃, hmanager₃, -, hview₃⟩ := y₂.goes_arrives harrives
  exact ⟨y₃, (hgoes₁.trans hgoes₂).trans hgoes₃, hmanager₃, by rw [hview₃, hview₂, hview₁]; rfl⟩

/-! ## Turns -/

/-- What somebody does who has a turn is an act. -/
theorem goes_handle {t t' : Tenure} {d : Deed} {m : Manager} (ht : x.tenures[k]? = some t)
    (hstep : t.step x.manager d = (m, t')) :
    ∃ y, x.Goes y ∧ y.manager = m ∧ y.view = x.view.set k t'.seen := by
  refine ⟨_, x.goes_act (.handle k d), ?_⟩
  rw [act, ht]
  dsimp only
  rw [hstep]
  exact ⟨rfl, List.map_set⟩

theorem exists_tenure {grip : Grip} (h : x.view[k]? = some (t, yielded, grip)) :
    ∃ queued, x.tenures[k]? = some ⟨t, grip, yielded, queued⟩ := by
  rw [view, List.getElem?_map, Option.map_eq_some_iff] at h
  obtain ⟨⟨_, _, _, queued⟩, ht, hseen⟩ := h
  cases hseen
  exact ⟨queued, ht⟩

theorem getElem?_view_set {y : Traffic} {seen seen' : Turn × List LineEvent × Grip}
    (hk : x.view[k]? = some seen) (hy : y.view = x.view.set k seen') :
    y.view[k]? = some seen' := by
  rw [hy]
  exact List.getElem?_set_self (List.getElem?_eq_some_iff.mp hk).1

theorem isOpen_of_unfinished {grip : Grip} {queued : List Message} (hfinished : t.finished = false)
    (hgrip : grip = .reading ∨ grip = .reaping) :
    Tenure.isOpen ⟨t, grip, yielded, queued⟩ = true := by
  rcases hgrip with rfl | rfl <;> simp [Tenure.isOpen, hfinished]

/-- What is seen of a turn after a call has read the queue. -/
def afterPoll (t : Turn) (yielded : List LineEvent) : Poll → Turn × List LineEvent × Grip
  | .event e => ({ t with finished := e.isTerminal }, yielded ++ [e], .reading)
  | .idle => ({ t with finished := true }, yielded, .reading)
  | .waiting => (t, yielded, .reading)
  | .gone => (t, yielded, .reaping)

theorem goes_poll {p : Poll} (hpoll : (x.manager.session t.session).poll = (p, u))
    (hk : x.view[k]? = some (t, yielded, .reading)) (hfinished : t.finished = false) :
    ∃ y, x.Goes y ∧ y.manager = x.manager.setSession t.session u ∧
      y.view = x.view.set k (afterPoll t yielded p) := by
  obtain ⟨queued, ht⟩ := exists_tenure hk
  have hopen : Tenure.isOpen ⟨t, .reading, yielded, queued⟩ = true :=
    isOpen_of_unfinished hfinished (.inl rfl)
  cases p <;> exact goes_handle ht (d := .poll) (by rw [Tenure.step, if_pos hopen, hpoll])

/-- A call for the next event that comes back with one, while nobody else does anything, is a way
through for the turn. -/
theorem goes_awaits (h : s.Awaits out u) :
    ∀ x : Traffic, x.manager.session t.session = s → t.session < x.manager.sessions.length →
      x.view[k]? = some (t, yielded, .reading) → t.finished = false → out = some e →
      ∃ y, x.Goes y ∧ y.manager = x.manager.setSession t.session u ∧
        y.view = x.view.set k ({ t with finished := e.isTerminal }, yielded ++ [e], .reading) := by
  induction h with
  | @arrives s s' u out harrives _ ih =>
    intro x hs hn hk hfinished hout
    -- what arrives is an act of the threads, and the call goes on from there
    subst hs
    obtain ⟨y, hgoes, hmanager, -, hview⟩ := x.goes_arrives ⟨t.session, s', harrives, rfl⟩
    obtain ⟨z, hgoes', hmanager', hview'⟩ := ih y
      (by rw [hmanager, Manager.session_setSession_self hn])
      (by rwa [hmanager, Manager.length_setSession]) (by rwa [hview]) hfinished hout
    refine ⟨z, hgoes.trans hgoes', ?_, by rw [hview', hview]⟩
    rw [hmanager', hmanager, Manager.setSession_setSession]
  | event hpoll =>
    intro x hs hn hk hfinished hout
    cases hout
    exact goes_poll (hs ▸ hpoll) hk hfinished
  | idle => rintro _ _ _ _ _ ⟨⟩
  | @gone s s' o hpoll =>
    -- two acts: the call finds the streams closed, and then it waits for the process to end
    intro x hs hn hk hfinished hout
    cases hout
    obtain ⟨y, hgoes, hmanager, hview⟩ := goes_poll (hs ▸ hpoll) hk hfinished
    have hsession : y.manager.session t.session = s' := by
      rw [hmanager, Manager.session_setSession_self hn]
    obtain ⟨queued, ht⟩ := exists_tenure (getElem?_view_set hk hview)
    obtain ⟨z, hgoes', hmanager', hview'⟩ := goes_handle ht (d := .reap o)
      (by rw [Tenure.step, if_pos ⟨isOpen_of_unfinished hfinished (.inr rfl), rfl⟩, hsession])
    refine ⟨z, hgoes.trans hgoes', ?_, ?_⟩
    · rw [hmanager', hmanager, Manager.setSession_setSession]
    · rw [hview', hview, List.set_set]
      rfl
  | @waits s s' u out hpoll _ ih =>
    intro x hs hn hk hfinished hout
    obtain ⟨y, hgoes, hmanager, hview⟩ := goes_poll (hs ▸ hpoll) hk hfinished
    obtain ⟨z, hgoes', hmanager', hview'⟩ := ih y
      (by rw [hmanager, Manager.session_setSession_self hn])
      (by rwa [hmanager, Manager.length_setSession])
      (getElem?_view_set hk hview) hfinished hout
    refine ⟨z, hgoes.trans hgoes', ?_, by rw [hview', hview, List.set_set]⟩
    rw [hmanager', hmanager, Manager.setSession_setSession]
  | quiet hdrains =>
    intro x hs hn hk hfinished hout
    cases hout
    obtain ⟨queued, ht⟩ := exists_tenure hk
    exact goes_handle ht (d := .quiet) (by
      rw [Tenure.step, if_pos ⟨isOpen_of_unfinished hfinished (.inl rfl), rfl, hs ▸ hdrains⟩, hs])
  | silent => rintro _ _ _ _ _ ⟨⟩

/-- A turn that is let go is a way through. -/
theorem goes_drop (hw : x.manager = w.manager) (hn : t.session < x.manager.sessions.length)
    (hk : x.view[k]? = some (t, yielded, .reading)) :
    ∃ y, x.Goes y ∧ y.manager = (w.drop t).manager ∧
      y.view = x.view.set k (t, yielded, .gone) := by
  -- the last act is the same whether or not the session had to be given up before
  have hleave : ∀ z : Traffic, x.Goes z → z.view = x.view.set k (t, yielded, .leaving) →
      ∃ y, x.Goes y ∧ y.manager = z.manager.release t.session ∧
        y.view = x.view.set k (t, yielded, .gone) := by
    intro z hgoes hview
    obtain ⟨queued, ht⟩ := exists_tenure (getElem?_view_set hk hview)
    obtain ⟨y, hgoes', hmanager, hview'⟩ := goes_handle ht (d := .leave)
      (by rw [Tenure.step, if_pos rfl])
    refine ⟨y, hgoes.trans hgoes', hmanager, ?_⟩
    rw [hview', hview, List.set_set]
    rfl
  rw [Workshop.drop]
  cases hfinished : t.finished with
  | true =>
    obtain ⟨queued, ht⟩ := exists_tenure hk
    obtain ⟨z, hgoes, hmanager, hview⟩ := goes_handle ht (d := .drop default)
      (by rw [Tenure.step, if_pos (.inl rfl), if_pos hfinished])
    obtain ⟨y, hreach, hreleased, hseen⟩ := hleave z hgoes hview
    exact ⟨y, hreach, by rw [hreleased, hmanager, hw]; rfl, hseen⟩
  | false =>
    obtain ⟨o, habandon⟩ := (w.interpreter t.session).session_abandon w.clock
    have harrives := (w.interpreter t.session).arrives_advance w.clock
    obtain ⟨y, hgoes, hmanager, -, hview⟩ := x.goes_arrives
      (m := x.manager.setSession t.session ((w.interpreter t.session).advance w.clock).session)
      ⟨_, _, by rw [hw]; exact harrives, rfl⟩
    obtain ⟨queued, ht⟩ := exists_tenure (hview ▸ hk)
    obtain ⟨z, hgoes', hmanager', hview'⟩ := goes_handle ht (d := .drop o)
      (by rw [Tenure.step, if_pos (.inl rfl), if_neg (by simp [hfinished]), hmanager,
        Manager.session_setSession_self hn, Manager.setSession_setSession, ← habandon])
    obtain ⟨u, hreach, hreleased, hseen⟩ := hleave z (hgoes.trans hgoes') (hview ▸ hview')
    exact ⟨u, hreach, by rw [hreleased, hmanager', hw]; rfl, hseen⟩

/-! ## Sessions that are stopped -/

/-- A step of a call that is no execution is an act. -/
theorem goes_on {call call' : Call} {m : Manager} (o : Observation)
    (launched : Except Failure (Adapter × Moment × Nat)) (hcall : x.calls[k]? = some call)
    (hquiet : ∀ call', call.begun call' = none)
    (hstep : call.step (.still o launched .accepted) x.manager = (m, call')) :
    ∃ y, x.Goes y ∧ y.manager = m ∧ y.calls[k]? = some call' ∧ y.view = x.view := by
  obtain ⟨y, hgoes, hmanager, hcalls, hview⟩ := goes_step hcall o launched .accepted
  rw [hstep] at hmanager hcalls
  rw [hquiet, Option.toList_none, List.map_nil, List.append_nil] at hview
  exact ⟨y, hgoes, hmanager, hcalls, hview⟩

/-- A session that is to be stopped is held and told to end, unless a turn has it. -/
theorem goes_stop {rest : List Nat} (hw : x.manager = w.manager)
    (hn : n < x.manager.sessions.length) (hcall : x.calls[k]? = some (.stop (n :: rest))) :
    ∃ y, x.Goes y ∧ y.manager = (w.stop n).manager ∧ y.calls[k]? = some (.stop rest) ∧
      y.view = x.view := by
  rw [Workshop.manager_stop, ← hw]
  by_cases hheld : x.manager.isHeld n = true
  · obtain ⟨y, hgoes, hmanager, hcalls, hview⟩ :=
      goes_on default (.error default) hcall (fun _ => rfl)
        (by rw [Call.step, Manager.hold?, if_pos hheld])
    refine ⟨y, hgoes, ?_, hcalls, hview⟩
    rw [if_pos hheld, hmanager]
  · obtain ⟨o, hterminate⟩ := (w.interpreter n).session_terminate w.clock
    have harrives := (w.interpreter n).arrives_advance w.clock
    obtain ⟨y₁, hgoes₁, hmanager₁, hcalls₁, hview₁⟩ :=
      goes_on default (.error default) hcall (fun _ => rfl)
        (by rw [Call.step, Manager.hold?, if_neg hheld])
    obtain ⟨y₂, hgoes₂, hmanager₂, hcalls₂, hview₂⟩ := y₁.goes_arrives
      (m := y₁.manager.setSession n ((w.interpreter n).advance w.clock).session)
      ⟨_, _, by rw [hmanager₁, hw]; exact harrives, rfl⟩
    obtain ⟨y₃, hgoes₃, hmanager₃, hcalls₃, hview₃⟩ :=
      goes_on o (.error default) (hcalls₂ ▸ hcalls₁) (fun _ => rfl) (by rw [Call.step])
    refine ⟨y₃, (hgoes₁.trans hgoes₂).trans hgoes₃, ?_, hcalls₃, by rw [hview₃, hview₂, hview₁]⟩
    have hthere : n < y₁.manager.sessions.length := by rwa [hmanager₁]
    rw [if_neg hheld, hmanager₃, hmanager₂, Manager.session_setSession_self hthere,
      Manager.setSession_setSession, hmanager₁, hterminate]
    simp only [Manager.setSession, Manager.release, List.erase_cons_head]
    rfl

theorem Goes.orderly {y : Traffic} (h : x.Goes y) (horderly : x.Orderly) : y.Orderly := by
  obtain ⟨acts, rfl⟩ := h
  exact orderly_run horderly acts

theorem goes_stops {rest : List Nat} (h : x.Orderly) (hw : x.manager = w.manager)
    (hcall : x.calls[k]? = some (.stop rest)) :
    ∃ y, x.Goes y ∧ y.manager = (rest.foldl Workshop.stop w).manager ∧ y.view = x.view := by
  induction rest generalizing x w with
  | nil => exact ⟨x, .refl x, hw, rfl⟩
  | cons n rest ih =>
    have hn := h.calls _ (List.mem_of_getElem? hcall) n (by simp)
    obtain ⟨y, hgoes, hmanager, hcalls, hview⟩ := goes_stop hw hn hcall
    obtain ⟨z, hgoes', hmanager', hview'⟩ := ih (hgoes.orderly h) hmanager hcalls
    exact ⟨z, hgoes.trans hgoes', hmanager', by rw [hview', hview]⟩

/-- The workshop's reset. -/
theorem goes_reset (h : x.Orderly) (hw : x.manager = w.manager) (l : Language) :
    ∃ y, x.Goes y ∧ y.manager = (w.reset l).manager ∧ y.view = x.view := by
  rw [Workshop.reset, ← hw]
  cases hslot : x.manager.slot? l with
  | none => exact ⟨x, .refl x, hw, rfl⟩
  | some n =>
    obtain ⟨y₁, k, hgoes₁, hmanager₁, hcalls₁, hview₁⟩ := x.goes_enter (.reset l)
    change y₁.calls[k]? = some (.reset l) at hcalls₁
    obtain ⟨y₂, hgoes₂, hmanager₂, hcalls₂, hview₂⟩ :=
      goes_on default (.error default) hcalls₁ (fun _ => rfl) (by rw [Call.step])
    rw [hmanager₁] at hmanager₂ hcalls₂
    rw [hslot, Option.toList_some] at hcalls₂
    have hreach := hgoes₁.trans hgoes₂
    obtain ⟨y₃, hgoes₃, hmanager₃, hview₃⟩ := goes_stops
      (w := { w with manager := x.manager.setSlot l none }) (hreach.orderly h) hmanager₂ hcalls₂
    exact ⟨y₃, hreach.trans hgoes₃, hmanager₃, by rw [hview₃, hview₂, hview₁]⟩

/-- The workshop's shutdown. -/
theorem goes_shutdown (h : x.Orderly) (hw : x.manager = w.manager) :
    ∃ y, x.Goes y ∧ y.manager = w.shutdown.manager ∧ y.view = x.view := by
  obtain ⟨y₁, k, hgoes₁, hmanager₁, hcalls₁, hview₁⟩ :=
    x.goes_enter (.shutdown ⟨id, fun _ => .refl _⟩)
  change y₁.calls[k]? = some (.shutdown ⟨id, _⟩) at hcalls₁
  obtain ⟨y₂, hgoes₂, hmanager₂, hcalls₂, hview₂⟩ :=
    goes_on default (.error default) hcalls₁ (fun _ => rfl) (by rw [Call.step])
  rw [hmanager₁, hw] at hmanager₂ hcalls₂
  have hreach := hgoes₁.trans hgoes₂
  obtain ⟨y₃, hgoes₃, hmanager₃, hview₃⟩ := goes_stops
    (w := { w with manager := { w.manager with slots := [] } }) (hreach.orderly h) hmanager₂ hcalls₂
  exact ⟨y₃, hreach.trans hgoes₃, hmanager₃, by rw [hview₃, hview₂, hview₁]⟩

/-! ## Sessions that are started -/

theorem goes_sessionFor {rest : List Language} (hw : x.manager = w.manager)
    (hcall : x.calls[k]? = some (.startEager (l :: rest) false)) :
    ∃ y, x.Goes y ∧ y.manager = (w.sessionFor l).2.manager ∧
      y.calls[k]? = some (.startEager rest false) ∧ y.view = x.view := by
  rw [Workshop.sessionFor]
  cases husable : w.manager.usable? l with
  | some n =>
    exact goes_on default (.error default) hcall (fun _ => rfl) (by rw [Call.step, hw, husable])
  | none =>
    obtain ⟨y, hgoes, hmanager, hcalls, hview⟩ :=
      goes_on default (.error default) hcall (fun _ => rfl) (by rw [Call.step, hw, husable])
    -- the circumstance under which the call starts the session that the workshop starts
    obtain ⟨launched, hlaunched⟩ : ∃ launched : Except Failure (Adapter × Moment × Nat),
        launched.map (fun p => Session.start p.1 w.manager.settings.session p.2.1 p.2.2) =
          (w.startFor l).map Interpreter.session := by
      cases hstart : w.startFor l with
      | error f => exact ⟨.error f, rfl⟩
      | ok i =>
        obtain ⟨adapter, hsession⟩ := Workshop.session_of_startFor hstart
        exact ⟨.ok (adapter, .ofMillis w.clock, w.nextPid), by simp [Except.map, hsession]⟩
    obtain ⟨z, hgoes', hmanager', hcalls', hview'⟩ :=
      goes_on default launched hcalls (fun _ => rfl) (by rw [Call.step, hmanager])
    refine ⟨z, hgoes.trans hgoes', hmanager'.trans ?_, hcalls', by rw [hview', hview]⟩
    rw [show (Circumstance.still default launched .accepted).launched = launched from rfl, hlaunched]
    cases w.startFor l with
    | error f => simp [Except.map, Manager.fill, husable]
    | ok i => rfl

theorem goes_startEach {ls : List Language} (hw : x.manager = w.manager)
    (hcall : x.calls[k]? = some (.startEager ls false)) :
    ∃ y, x.Goes y ∧ y.manager = (w.startEach ls).2.manager ∧ y.view = x.view := by
  induction ls generalizing x w with
  | nil => exact ⟨x, .refl x, hw, rfl⟩
  | cons l rest ih =>
    obtain ⟨y, hgoes, hmanager, hcalls, hview⟩ := goes_sessionFor hw hcall
    obtain ⟨z, hgoes', hmanager', hview'⟩ := ih hmanager hcalls
    refine ⟨z, hgoes.trans hgoes', hmanager'.trans ?_, by rw [hview', hview]⟩
    rw [Workshop.startEach]
    rcases w.sessionFor l with ⟨_ | _, w'⟩ <;> rfl

/-! ## A whole history -/

/-- Whether traffic is how a ledger has come about: they agree on the manager and on all that can be
seen of the turns. -/
structure Pictures (x : Traffic) (b : Ledger) : Prop where
  manager : x.manager = b.workshop.manager
  view : x.view = b.turns.map Given.seen

variable {b b' : Ledger} {g : Given}

theorem Pictures.getElem?_view (h : x.Pictures b) (hg : b.turns[k]? = some g) :
    x.view[k]? = some g.seen := by
  rw [h.view, List.getElem?_map, hg]
  rfl

/-- A turn that was given out is one of a session that is there. -/
theorem Pictures.lt_of_given (h : x.Pictures b) (horderly : x.Orderly)
    (hg : b.turns[k]? = some g) : g.turn.session < x.manager.sessions.length := by
  obtain ⟨queued, ht⟩ := exists_tenure (h.getElem?_view hg)
  exact horderly.tenures _ (List.mem_of_getElem? ht)

/-- A turn that was given out shows something else. -/
theorem Pictures.of_set (h : x.Pictures b) {y : Traffic} {w : Workshop}
    (hmanager : y.manager = w.manager) (hview : y.view = x.view.set k g.seen) :
    y.Pictures ⟨w, b.turns.set k g⟩ :=
  ⟨hmanager, by rw [hview, h.view, List.map_set]⟩

theorem pictures_execute (h : x.Pictures b)
    (herrand : b.errand (.execute l code) = some b') : ∃ y, x.Goes y ∧ y.Pictures b' := by
  obtain ⟨y, hgoes, hmanager, hview⟩ := x.goes_execute h.manager l code
  rw [h.view] at hview
  refine ⟨y, hgoes, ?_⟩
  rw [Ledger.errand] at herrand
  generalize b.workshop.execute l code = after at herrand hmanager hview
  obtain ⟨r, w⟩ := after
  cases r with
  | ok t =>
    cases herrand
    exact ⟨hmanager, by rw [hview, List.map_append]; rfl⟩
  | error f =>
    cases herrand
    exact ⟨hmanager, by rw [hview]; exact List.append_nil _⟩

theorem pictures_next (h : x.Pictures b) (horderly : x.Orderly)
    (herrand : b.errand (.next k) = some b') : ∃ y, x.Goes y ∧ y.Pictures b' := by
  rw [Ledger.errand] at herrand
  split at herrand
  · next t events hg =>
    split at herrand
    · cases herrand
      exact ⟨x, .refl x, h⟩
    · next hunfinished =>
      -- a call that would wait for ever is no errand, so this one comes back with an event
      have hfinished : t.finished = false := Bool.eq_false_iff.mpr hunfinished
      rw [Workshop.next, if_neg hunfinished] at herrand
      have hawaits := (b.workshop.interpreter t.session).awaits_next b.workshop.clock
      obtain ⟨⟨out, i, clock⟩, hnext⟩ :
        ∃ p, (b.workshop.interpreter t.session).next b.workshop.clock = p := ⟨_, rfl⟩
      rw [hnext] at herrand hawaits
      cases out with
      | none => cases herrand
      | some e =>
        cases herrand
        obtain ⟨y, hgoes, hmanager, hview⟩ := goes_awaits hawaits x (by rw [h.manager]; rfl)
          (h.lt_of_given horderly hg) (h.getElem?_view hg) hfinished rfl
        exact ⟨y, hgoes, h.of_set (by rw [hmanager, h.manager]; rfl) hview⟩
  · cases herrand
    exact ⟨x, .refl x, h⟩

theorem pictures_drop (h : x.Pictures b) (horderly : x.Orderly)
    (herrand : b.errand (.drop k) = some b') : ∃ y, x.Goes y ∧ y.Pictures b' := by
  rw [Ledger.errand] at herrand
  split at herrand
  · next t events hg =>
    cases herrand
    obtain ⟨y, hgoes, hmanager, hview⟩ :=
      goes_drop h.manager (h.lt_of_given horderly hg) (h.getElem?_view hg)
    exact ⟨y, hgoes, h.of_set hmanager hview⟩
  · cases herrand
    exact ⟨x, .refl x, h⟩

/-- An errand is a way through the traffic. -/
theorem pictures_errand (h : x.Pictures b) (horderly : x.Orderly) {errand : Errand}
    (herrand : b.errand errand = some b') : ∃ y, x.Goes y ∧ y.Pictures b' := by
  cases errand with
  | execute l code => exact pictures_execute h herrand
  | next k => exact pictures_next h horderly herrand
  | drop k => exact pictures_drop h horderly herrand
  | startEager =>
    cases herrand
    obtain ⟨y, k, hgoes, hmanager, hcall, hview⟩ := x.goes_enter .startEager
    obtain ⟨z, hgoes', hmanager', hview'⟩ := goes_startEach (hmanager.trans h.manager) hcall
    refine ⟨z, hgoes.trans hgoes', hmanager'.trans ?_, by rw [hview', hview, h.view]⟩
    rw [h.manager]
    rfl
  | reset l =>
    cases herrand
    obtain ⟨y, hgoes, hmanager, hview⟩ := goes_reset horderly h.manager l
    exact ⟨y, hgoes, hmanager, hview.trans h.view⟩
  | shutdown =>
    cases herrand
    obtain ⟨y, hgoes, hmanager, hview⟩ := goes_shutdown horderly h.manager
    exact ⟨y, hgoes, hmanager, hview.trans h.view⟩
  | kill n =>
    cases herrand
    exact ⟨x, .refl x, by rw [h.manager, Workshop.manager_kill], h.view⟩
  | sleep millis =>
    cases herrand
    exact ⟨x, .refl x, h.manager, h.view⟩

theorem pictures_history (h : x.Pictures b) (horderly : x.Orderly) {errands : List Errand}
    (hhistory : b.history errands = some b') : ∃ y, x.Goes y ∧ y.Pictures b' := by
  induction errands generalizing x b with
  | nil =>
    cases hhistory
    exact ⟨x, .refl x, h⟩
  | cons errand errands ih =>
    rw [Ledger.history, List.foldlM_cons, Option.bind_eq_bind, Option.bind_eq_some_iff] at hhistory
    obtain ⟨between, herrand, hrest⟩ := hhistory
    obtain ⟨y, hgoes, hpictures⟩ := pictures_errand h horderly herrand
    obtain ⟨z, hgoes', hpictures'⟩ := ih hpictures (hgoes.orderly horderly) hrest
    exact ⟨z, hgoes.trans hgoes', hpictures'⟩

/-- Every history of a workshop is one that the traffic can take. -/
theorem exists_run_of_history (host : Host) (settings : Settings) (errands : List Errand)
    (hhistory : Ledger.history ⟨.fresh host settings, []⟩ errands = some b) :
    ∃ acts, ((start settings).run acts).Pictures b := by
  have hstart : (start settings).Pictures ⟨.fresh host settings, []⟩ := ⟨rfl, rfl⟩
  obtain ⟨_, ⟨acts, rfl⟩, hpictures⟩ :=
    pictures_history hstart (orderly_start settings) hhistory
  exact ⟨acts, hpictures⟩

/-- After a turn that was let go before it had finished, or came to a fault, the workshop gives out
no turn of the same session any more. -/
theorem session_ne_of_spoilt (host : Host) (settings : Settings) (errands more : List Errand)
    (hhistory : Ledger.history ⟨.fresh host settings, []⟩ errands = some b)
    (hmore : b.history more = some b') (hg : g ∈ b.turns) (hspoilt : g.Spoilt) {g' : Given}
    (hj : b.turns.length ≤ k) (hg' : b'.turns[k]? = some g') :
    g'.turn.session ≠ g.turn.session := by
  obtain ⟨acts, hpictures⟩ := exists_run_of_history host settings errands hhistory
  have horderly := orderly_run (orderly_start settings) acts
  have hapart := apart_of_fair horderly (fair_run (orderly_start settings) (by rintro _ ⟨⟩) acts)
  generalize (start settings).run acts = x at hpictures horderly hapart
  obtain ⟨i, hi⟩ := List.mem_iff_getElem?.mp hg
  obtain ⟨queued, ht⟩ := exists_tenure (hpictures.getElem?_view hi)
  have hlost : Tenure.Spoilt ⟨g.turn, if g.dropped then .gone else .reading, g.events, queued⟩ :=
    hspoilt.imp_left fun ⟨hfinished, hdropped⟩ => ⟨hfinished, .inr (if_pos hdropped)⟩
  obtain ⟨_, ⟨later, rfl⟩, hpictures'⟩ := pictures_history hpictures horderly hmore
  obtain ⟨queued', ht'⟩ := exists_tenure (hpictures'.getElem?_view hg')
  refine hapart.left _ (List.mem_of_getElem? ht) hlost later k _ ?_ ht'
  have hlength := congrArg List.length hpictures.view
  rw [view, List.length_map, List.length_map] at hlength
  rwa [hlength]

/-! ## What holds of all traffic -/

/-- Whatever callers do at the same time, and whatever becomes of turns and processes meanwhile: a
session is started only for a language that has no live one, so that callers who race start one; who
holds a session holds it alone, and an execution that meets it held is refused and writes nothing;
and nobody but a call that stops sessions takes a live one from its slot. What a workshop does is
part of this. -/
theorem exclusive_run (settings : Settings) :
    (∀ acts x, (start settings).run acts = x → x.Exclusive) ∧
      ∀ host errands b, Ledger.history ⟨.fresh host settings, []⟩ errands = some b →
        ∃ acts, ((start settings).run acts).Pictures b := by
  refine ⟨?_, fun host errands b => exists_run_of_history host settings errands⟩
  rintro acts _ rfl
  exact exclusive_of_orderly (orderly_run (orderly_start settings) acts)

/-- A step of a caller while the process runs and another shell can be started. -/
def stepping (k : Nat) : Act :=
  .go k ⟨default, none⟩ (.ok (.posix .shell ⟨"sh", []⟩, default, 1)) .accepted

/-- Two callers who have both looked in vain for a session; one starts it and holds it. -/
def race : List Act :=
  [.enter (.execute .shell ['x']), .enter (.execute .shell ['y']), stepping 0, stepping 1,
    stepping 0, stepping 1, stepping 0]

/-- What is to start at once is started, the shell is reset, and then all is stopped. -/
def visit : List Errand := [.startEager, .sleep 10, .reset .shell, .shutdown]

theorem exclusive_run_race :
    (∃ x, (start default).run race = x ∧ x.Exclusive ∧ x.origins = [.shell] ∧
      x.act (stepping 1) = { x with
        calls := x.calls.set 1 (.execute .shell ['y']
          (.ended (.error (.executionInProgress "shell"))) []) }) ∧
    ∃ b, Ledger.history ⟨.fresh default default, []⟩ visit = some b ∧
      ∃ acts, ((start default).run acts).Pictures b := by
  obtain ⟨hruns, hworks⟩ := exclusive_run default
  have hexclusive := hruns race _ rfl
  refine ⟨⟨_, rfl, hexclusive, by decide, ?_⟩, _, rfl, hworks default visit _ rfl⟩
  exact hexclusive.refuses 1 .shell ['y'] 1 0 [] _ _ _ rfl (by decide)

/-- Turns do not leak into each other. Whatever callers, other turns and threads do meanwhile, the
events of a turn come of the messages that came into the queue of its session since its code was
fed, in their order and none of them thrown away while the session is held for it. And after a turn
that was let go before it had finished, or ended in a fault, no turn begins on its session. What a
workshop does is part of this. -/
theorem turns_apart (settings : Settings) :
    (∀ acts x, (start settings).run acts = x → x.Apart) ∧
      ∀ host errands b, Ledger.history ⟨.fresh host settings, []⟩ errands = some b →
        ∃ acts, ((start settings).run acts).Pictures b := by
  refine ⟨?_, fun host errands b => exists_run_of_history host settings errands⟩
  rintro acts _ rfl
  exact apart_of_fair (orderly_run (orderly_start settings) acts)
    (fair_run (orderly_start settings) (by rintro _ ⟨⟩) acts)

/-- A turn of the shell that prints a line and is let go before it has finished. -/
def forsakenTurn : List Act :=
  .enter (.execute .shell ['x']) :: List.replicate 6 (stepping 0) ++
    [.threads 0 { Streams.fresh with queue := [.line .stdout "hi"] } (.empty 100),
      .handle 0 .poll, .handle 0 (.drop default), .handle 0 .leave]

/-- The next execution. -/
def afterwards : List Act :=
  .enter (.execute .shell ['y']) :: List.replicate 6 (stepping 1)

theorem turns_apart_forsakenTurn :
    (∃ x t u, (start default).run forsakenTurn = x ∧ x.tenures[0]? = some t ∧
      t.yielded = [.outputText "hi"] ∧ t.Told (x.manager.session t.turn.session) ∧
      (x.run afterwards).tenures[1]? = some u ∧ u.turn.language = t.turn.language ∧
      u.turn.session ≠ t.turn.session) ∧
    ∃ b, Ledger.history ⟨.fresh default default, []⟩ visit = some b ∧
      ∃ acts, ((start default).run acts).Pictures b := by
  obtain ⟨hruns, hworks⟩ := turns_apart default
  obtain ⟨htold, hleft⟩ := hruns forsakenTurn _ rfl
  obtain ⟨t, ht⟩ : ∃ t, ((start default).run forsakenTurn).tenures[0]? = some t := ⟨_, rfl⟩
  obtain ⟨u, hu⟩ : ∃ u, (((start default).run forsakenTurn).run afterwards).tenures[1]? = some u :=
    ⟨_, rfl⟩
  have hmem := List.mem_of_getElem? ht
  have hlength : ((start default).run forsakenTurn).tenures.length ≤ 1 := by decide
  have hspoilt : t.Spoilt := by
    cases ht
    exact .inl ⟨by decide, .inr (by decide)⟩
  refine ⟨⟨_, t, u, rfl, ht, ?_, htold t hmem, hu, ?_,
    hleft t hmem hspoilt afterwards 1 u hlength hu⟩, _, rfl, hworks default visit _ rfl⟩
  · cases ht
    decide
  · cases ht
    cases hu
    decide

end Traffic

end StepTrace

import StepTrace.Proofs.Session.Submission
import StepTrace.Workshop

/-!
# Executions step by step

An execution asks the manager for a session, holds it, looks whether it lives, and submits the code
to it; a dead session is let go and the next one is tried. Here it is a machine: `Stage` says what
it does next, `Execution.next` does it. Before each step anything may happen to the manager and its
sessions: processes die, messages arrive, other callers take their turns.

What a step hands over is read off the queues of the sessions' writers (`Manager.handed`). Only
feeding hands anything over, and it ends the execution (`Stage.steps_step`); so an execution that
ends well has handed over one piece of input, and one that fails none (`accounted_run`).
-/

set_option autoImplicit false

namespace StepTrace

namespace Manager

/-! ## What is handed over -/

/-- The session with a number. -/
def session (m : Manager) (n : Nat) : Session := m.sessions.getD n default

/-- The input that waits for the writer of a session. -/
def input (m : Manager) (n : Nat) : List (List Char) := (m.session n).streams.input

/-- The input that waits in one state of a manager beyond what waited in an earlier one, each piece
with the number of its session. -/
def handed (m m' : Manager) : List (Nat × List Char) :=
  (List.range m'.sessions.length).flatMap fun n =>
    ((m'.input n).drop (m.input n).length).map fun data => (n, data)

variable {m m' : Manager} {n : Nat} {s : Session}

theorem session_setSession (hn : n < m.sessions.length) (k : Nat) :
    (m.setSession n s).session k = if k = n then s else m.session k := by
  simp only [session, setSession, List.getD_eq_getElem?_getD, List.getElem?_set]
  by_cases hk : n = k
  · subst hk
    simp [hn]
  · simp [hk, Ne.symm hk]

theorem session_setSession_self (hn : n < m.sessions.length) :
    (m.setSession n s).session n = s := by
  rw [session_setSession hn, if_pos rfl]

theorem setSession_self (m : Manager) (n : Nat) : m.setSession n (m.session n) = m := by
  by_cases hn : n < m.sessions.length
  · have hget : m.session n = m.sessions[n] := by simp [session, List.getD_eq_getElem?_getD, hn]
    rw [setSession, hget, List.set_getElem_self]
  · rw [setSession, List.set_eq_of_length_le (Nat.le_of_not_lt hn)]

theorem length_setSession : (m.setSession n s).sessions.length = m.sessions.length :=
  List.length_set

theorem handed_eq_nil (h : ∀ k, m'.input k = m.input k) : m.handed m' = [] := by
  simp [handed, h]

/-- Where the sessions are as they were, nothing has been handed over. -/
theorem handed_of_sessions (h : m'.sessions = m.sessions) : m.handed m' = [] := by
  apply handed_eq_nil
  intro k
  rw [input, session, h]
  rfl

theorem hold?_eq_some_iff :
    m.hold? n = some m' ↔ n ∉ m.held ∧ { m with held := n :: m.held } = m' := by
  simp [hold?, isHeld]

theorem hold?_eq_none_iff : m.hold? n = none ↔ n ∈ m.held := by
  simp [hold?, isHeld]

theorem sessions_of_hold? (h : m.hold? n = some m') : m'.sessions = m.sessions := by
  obtain ⟨-, rfl⟩ := hold?_eq_some_iff.mp h
  rfl

theorem sessions_discard (m : Manager) (l : Language) (n : Nat) :
    (m.discard l n).sessions = m.sessions := by
  rw [discard]
  split <;> rfl

/-- A session that changes with its input as it was has nothing handed over. -/
theorem handed_setSession_of_eq (h : s.streams.input = m.input n) :
    m.handed (m.setSession n s) = [] := by
  apply handed_eq_nil
  intro k
  by_cases hn : n < m.sessions.length
  · rw [input, session_setSession hn]
    split
    · next hk => rw [h, hk]
    · rfl
  · have hsame : m.setSession n s = m := by
      rw [setSession, List.set_eq_of_length_le (Nat.le_of_not_lt hn)]
    rw [hsame]

theorem flatMap_range_eq {α : Type} {f : Nat → List α} {k : Nat} (hn : n < k)
    (hf : ∀ i, i ≠ n → f i = []) : (List.range k).flatMap f = f n := by
  induction k with
  | zero => omega
  | succ k ih =>
    rw [List.range_succ, List.flatMap_append, List.flatMap_singleton]
    by_cases hk : n = k
    · subst hk
      rw [List.flatMap_eq_nil_iff.mpr fun i hi => hf i (Nat.ne_of_lt (List.mem_range.mp hi)),
        List.nil_append]
    · rw [ih (by omega), hf k (Ne.symm hk), List.append_nil]

/-- One more piece of input for one session is what has been handed over. -/
theorem handed_setSession (hn : n < m.sessions.length) {data : List Char}
    (h : s.streams.input = m.input n ++ [data]) :
    m.handed (m.setSession n s) = [(n, data)] := by
  have hothers : ∀ k, k ≠ n → (m.setSession n s).input k = m.input k := by
    intro k hk
    rw [input, session_setSession hn, if_neg hk]
    rfl
  have hself : (m.setSession n s).input n = m.input n ++ [data] := by
    rw [input, session_setSession_self hn, h]
  rw [handed, length_setSession, flatMap_range_eq hn fun k hk => by simp [hothers k hk], hself]
  simp

/-- A session that was just started waits to write nothing. -/
theorem input_append_start (adapter : Adapter) (now : Moment) (pid k : Nat) :
    ({ m with sessions := m.sessions ++
      [.start adapter m.settings.session now pid] } : Manager).input k = m.input k := by
  simp only [input, session, List.getD_eq_getElem?_getD, List.getElem?_append]
  split
  · rfl
  · next h =>
    rw [List.getElem?_eq_none (Nat.le_of_not_lt h)]
    cases hk : k - m.sessions.length with
    | zero => rfl
    | succ i => rfl

theorem lt_of_usable? {l : Language} (h : m.usable? l = some n) : n < m.sessions.length := by
  obtain ⟨-, hseems⟩ := Option.filter_eq_some_iff.mp h
  by_contra hn
  rw [seemsAlive, List.getElem?_eq_none (Nat.le_of_not_lt hn)] at hseems
  cases hseems

end Manager

/-! ## The machine -/

/-- What an execution does next. A number of tries says how many more sessions it may look for. -/
inductive Stage where
  /-- Look up the session that stands for the language. -/
  | seeking (tries : Nat)
  /-- Start a session if there is still none that is usable. -/
  | filling (tries : Nat)
  /-- Hold a session. -/
  | holding (tries n : Nat)
  /-- Look whether the session that is held still lives. -/
  | checking (tries n : Nat)
  /-- Let a dead session go. -/
  | leaving (tries n : Nat)
  /-- Empty the slot of a dead session. -/
  | discarding (tries n : Nat)
  /-- Have the submission admitted. -/
  | admitting (n : Nat)
  /-- Feed the code. -/
  | feeding (n : Nat)
  /-- Nothing: there is a turn, or a failure. -/
  | ended (result : Except Failure Turn)

/-- What an execution meets at a step. -/
structure Circumstance where
  /-- What has happened to the manager since the step before. -/
  meanwhile : Manager → Manager
  /-- A session that was started keeps its number. -/
  length_meanwhile : ∀ m : Manager, m.sessions.length ≤ (meanwhile m).sessions.length
  /-- What the host answers about the process of the session. -/
  observed : Observation
  /-- What comes of starting an interpreter: its adapter, the time and the number of its process. -/
  launched : Except Failure (Adapter × Moment × Nat)
  /-- What a shell that only checks the code says of it. -/
  verdict : Verdict

namespace Stage

/-- The session that an execution is at. -/
def session? : Stage → Option Nat
  | seeking _ => none
  | filling _ => none
  | holding _ n => some n
  | checking _ n => some n
  | leaving _ n => some n
  | discarding _ n => some n
  | admitting n => some n
  | feeding n => some n
  | ended _ => none

/-- How many steps an execution takes at most from a stage on. -/
def rank : Stage → Nat
  | seeking tries => 6 * tries + 6
  | filling tries => 6 * tries + 5
  | holding tries _ => 6 * tries + 4
  | checking tries _ => 6 * tries + 3
  | leaving tries _ => 6 * tries + 2
  | discarding tries _ => 6 * tries + 1
  | admitting _ => 2
  | feeding _ => 1
  | ended _ => 0

/-- One step of an execution of code in a language. -/
def step (l : Language) (code : List Char) (c : Circumstance) (m : Manager) :
    Stage → Manager × Stage
  | seeking tries =>
    match m.usable? l with
    | some n => (m, holding tries n)
    | none => (m, filling tries)
  | filling tries =>
    let started := c.launched.map fun p => Session.start p.1 m.settings.session p.2.1 p.2.2
    match m.fill l started with
    | (.ok n, m) => (m, holding tries n)
    | (.error f, m) => (m, ended (.error f))
  | holding tries n =>
    match m.hold? n with
    | none => (m, ended (.error (.executionInProgress l.id)))
    | some m => (m, checking tries n)
  | checking tries n =>
    let s := (m.session n).refresh c.observed
    (m.setSession n s, if s.needsRestart then leaving tries n else admitting n)
  | leaving tries n => (m.release n, discarding tries n)
  | discarding 0 n => (m.discard l n, ended (.error (.sessionTerminated l.id)))
  | discarding (tries + 1) n => (m.discard l n, seeking tries)
  | admitting n =>
    match (m.session n).welcome c.observed with
    | (.ok _, s) => (m.setSession n s, feeding n)
    | (.error f, s) => ((m.setSession n s).release n, ended (.error f))
  | feeding n =>
    match (m.session n).feed c.verdict code with
    | (.ok _, s) => (m.setSession n s, ended (.ok ⟨l, n, false⟩))
    | (.error f, s) => ((m.setSession n s).release n, ended (.error f))
  | ended result => (m, ended result)

end Stage

/-- An execution: the manager, what is to be done next, and what was handed over so far. -/
structure Execution where
  manager : Manager
  stage : Stage
  handed : List (Nat × List Char)

namespace Execution

/-- An execution that begins. A session that is found dead is replaced once. -/
def start (m : Manager) : Execution := ⟨m, .seeking 1, []⟩

/-- An execution after one more step. -/
def next (l : Language) (code : List Char) (e : Execution) (c : Circumstance) : Execution :=
  match e.stage with
  | .ended _ => e
  | stage =>
    let m := c.meanwhile e.manager
    let (m', stage) := stage.step l code c m
    ⟨m', stage, e.handed ++ m.handed m'⟩

/-- An execution after some circumstances were met. -/
def run (l : Language) (code : List Char) (cs : List Circumstance) (e : Execution) : Execution :=
  cs.foldl (next l code) e

variable {l : Language} {code : List Char} {e : Execution} {c : Circumstance}

theorem next_of_ended {result : Except Failure Turn} (h : e.stage = .ended result) :
    e.next l code c = e := by
  rw [next, h]

theorem next_eq (h : ∀ result, e.stage ≠ .ended result) :
    e.next l code c =
      ⟨(e.stage.step l code c (c.meanwhile e.manager)).1,
        (e.stage.step l code c (c.meanwhile e.manager)).2,
        e.handed ++ (c.meanwhile e.manager).handed
          (e.stage.step l code c (c.meanwhile e.manager)).1⟩ := by
  rw [next]
  split
  · next result hstage => exact absurd hstage (h result)
  · rfl

end Execution

/-! ## One step -/

namespace Stage

variable {l : Language} {code : List Char} {c : Circumstance} {m m' : Manager}
  {stage stage' : Stage}

/-- What one step comes to: nothing is handed over and the execution goes on or fails, or the code
is handed to the session that the execution is at and the execution ends well. -/
inductive Steps (l : Language) (code : List Char) (c : Circumstance) (m : Manager)
    (stage : Stage) (m' : Manager) : Stage → Prop
  | on (stage' : Stage) : m.handed m' = [] →
      (∀ n ∈ stage'.session?, n < m'.sessions.length) → stage'.rank < stage.rank →
      (∀ t, stage' ≠ ended (.ok t)) → Steps l code c m stage m' stage'
  | done (n : Nat) (program : List Char) :
      (m'.session n).adapter.preprocess c.verdict code = .ok program →
      m.handed m' = [(n, program ++ ['\n'])] → 0 < stage.rank →
      Steps l code c m stage m' (ended (.ok ⟨l, n, false⟩))

theorem handed_self (m : Manager) : m.handed m = [] := Manager.handed_of_sessions rfl

/-- Filling a slot hands nothing over, and gives a session that is there. -/
theorem handed_fill {r : Except Failure Nat}
    (h : m.fill l (c.launched.map fun p => Session.start p.1 m.settings.session p.2.1 p.2.2) =
      (r, m')) :
    m.handed m' = [] ∧ ∀ n, r = .ok n → n < m'.sessions.length := by
  unfold Manager.fill at h
  split at h
  · next n hn =>
    cases h
    refine ⟨handed_self m, ?_⟩
    rintro _ ⟨⟩
    exact Manager.lt_of_usable? hn
  · cases hl : c.launched with
    | error f =>
      rw [hl] at h
      cases h
      exact ⟨handed_self m, by rintro _ ⟨⟩⟩
    | ok p =>
      rw [hl] at h
      cases h
      refine ⟨Manager.handed_eq_nil (Manager.input_append_start p.1 p.2.1 p.2.2), ?_⟩
      rintro _ ⟨⟩
      simp [Manager.setSlot]

/-- A session that refuses code is let go, and nothing is handed over. -/
theorem handed_release_setSession {n : Nat} {s : Session}
    (h : s.streams.input = m.input n) : m.handed ((m.setSession n s).release n) = [] := by
  have hsame := Manager.handed_setSession_of_eq h
  rwa [Manager.handed] at hsame ⊢

/-- A step of an execution that has not ended. The stages before feeding leave every queue as it
was: they change no session, or one session without its input. -/
theorem steps_step (l : Language) (code : List Char) (c : Circumstance)
    (hknown : ∀ n ∈ stage.session?, n < m.sessions.length)
    (hgoes : ∀ result, stage ≠ ended result) :
    Steps l code c m stage (stage.step l code c m).1 (stage.step l code c m).2 := by
  cases stage with
  | ended result => exact absurd rfl (hgoes result)
  | seeking tries =>
    cases hn : m.usable? l with
    | none =>
      simp only [step, hn]
      exact .on _ (handed_self m) (by rintro _ ⟨⟩) (by simp [rank]) (by rintro _ ⟨⟩)
    | some n =>
      simp only [step, hn]
      refine .on _ (handed_self m) ?_ (by simp [rank]) (by rintro _ ⟨⟩)
      rintro _ ⟨⟩
      exact Manager.lt_of_usable? hn
  | filling tries =>
    obtain ⟨⟨r, m'⟩, hfill⟩ : ∃ p, m.fill l
      (c.launched.map fun p => Session.start p.1 m.settings.session p.2.1 p.2.2) = p := ⟨_, rfl⟩
    obtain ⟨hnone, hthere⟩ := handed_fill hfill
    simp only [step, hfill]
    cases r with
    | error f => exact .on _ hnone (by rintro _ ⟨⟩) (by simp [rank]) (by rintro _ ⟨⟩)
    | ok n =>
      refine .on _ hnone ?_ (by simp [rank]) (by rintro _ ⟨⟩)
      rintro _ ⟨⟩
      exact hthere n rfl
  | holding tries n =>
    cases hheld : m.hold? n with
    | none =>
      simp only [step, hheld]
      exact .on _ (handed_self m) (by rintro _ ⟨⟩) (by simp [rank]) (by rintro _ ⟨⟩)
    | some m' =>
      have hsessions := Manager.sessions_of_hold? hheld
      simp only [step, hheld]
      refine .on _ (Manager.handed_of_sessions hsessions) ?_ (by simp [rank]) (by rintro _ ⟨⟩)
      rw [hsessions]
      exact hknown
  | checking tries n =>
    have hnone := Manager.handed_setSession_of_eq (m := m) (n := n)
      (Session.refresh_spec (m.session n) c.observed).1
    have hthere : ∀ k ∈ some n,
        k < (m.setSession n ((m.session n).refresh c.observed)).sessions.length := by
      rw [Manager.length_setSession]
      exact hknown
    simp only [step]
    split
    · exact .on _ hnone hthere (by simp [rank]) (by rintro _ ⟨⟩)
    · exact .on _ hnone hthere (by simp [rank]) (by rintro _ ⟨⟩)
  | leaving tries n =>
    exact .on _ (handed_self m) hknown (by simp [step, rank]) (by rintro _ ⟨⟩)
  | discarding tries n =>
    have hnone := Manager.handed_of_sessions (Manager.sessions_discard m l n)
    -- The last try fails; an earlier one seeks again, and its rank falls by the try it gives up.
    cases tries with
    | zero => exact .on _ hnone (by rintro _ ⟨⟩) (by simp [step, rank]) (by rintro _ ⟨⟩)
    | succ tries =>
      exact .on _ hnone (by rintro _ ⟨⟩) (by simp only [step, rank]; omega) (by rintro _ ⟨⟩)
  | admitting n =>
    obtain ⟨⟨r, s⟩, hwelcome⟩ : ∃ p, (m.session n).welcome c.observed = p := ⟨_, rfl⟩
    have hinput := (Session.welcome_cases hwelcome).spec.1
    simp only [step, hwelcome]
    cases r with
    | error f =>
      exact .on _ (handed_release_setSession hinput) (by rintro _ ⟨⟩) (by simp [rank])
        (by rintro _ ⟨⟩)
    | ok _ =>
      refine .on _ (Manager.handed_setSession_of_eq hinput) ?_ (by simp [rank]) (by rintro _ ⟨⟩)
      rw [Manager.length_setSession]
      exact hknown
  | feeding n =>
    have hn : n < m.sessions.length := hknown n rfl
    obtain ⟨⟨r, s⟩, hfeed⟩ : ∃ p, (m.session n).feed c.verdict code = p := ⟨_, rfl⟩
    have hcases := Session.feed_cases hfeed
    simp only [step, hfeed]
    cases r with
    | error f =>
      exact .on _ (handed_release_setSession hcases.spec_error.1) (by rintro _ ⟨⟩)
        (by simp [rank]) (by rintro _ ⟨⟩)
    | ok _ =>
      cases hcases with
      | handed program hprepared =>
        refine .done n program ?_ (Manager.handed_setSession hn rfl) (by simp [rank])
        rw [Manager.session_setSession_self hn]
        exact hprepared

end Stage

/-! ## A whole execution -/

namespace Execution

variable {l : Language} {code : List Char} {c : Circumstance} {met cs : List Circumstance}
  {e : Execution}

/-- What an execution has handed over when it has met some circumstances: nothing, unless it has
ended well; then the code, prepared for the session of its turn and with a line feed, to that
session. -/
structure Accounted (l : Language) (code : List Char) (met : List Circumstance)
    (e : Execution) : Prop where
  known : ∀ n ∈ e.stage.session?, n < e.manager.sessions.length
  unended : (∀ t, e.stage ≠ .ended (.ok t)) → e.handed = []
  ended : ∀ t, e.stage = .ended (.ok t) → t.language = l ∧ ∃ c ∈ met, ∃ program,
    (e.manager.session t.session).adapter.preprocess c.verdict code = .ok program ∧
      e.handed = [(t.session, program ++ ['\n'])]

theorem accounted_start (m : Manager) : Accounted l code [] (start m) where
  known := by rintro _ ⟨⟩
  unended := fun _ => rfl
  ended := by rintro _ ⟨⟩

/-- One step keeps the account, and brings the execution nearer to its end. -/
theorem accounted_next (h : Accounted l code met e) :
    Accounted l code (met ++ [c]) (e.next l code c) ∧
      ((∀ result, e.stage ≠ .ended result) → (e.next l code c).stage.rank < e.stage.rank) := by
  by_cases hended : ∃ result, e.stage = .ended result
  · obtain ⟨result, hresult⟩ := hended
    rw [next_of_ended hresult]
    refine ⟨⟨h.known, h.unended, fun t ht => ?_⟩, fun hgoes => absurd hresult (hgoes result)⟩
    obtain ⟨hlanguage, c', hc', hprogram⟩ := h.ended t ht
    exact ⟨hlanguage, c', List.mem_append_left _ hc', hprogram⟩
  · rw [not_exists] at hended
    have hnone : e.handed = [] := h.unended fun t => hended (.ok t)
    have hknown : ∀ n ∈ e.stage.session?, n < (c.meanwhile e.manager).sessions.length :=
      fun n hn => Nat.lt_of_lt_of_le (h.known n hn) (c.length_meanwhile e.manager)
    have hsteps := Stage.steps_step l code c hknown hended
    rw [next_eq hended, hnone, List.nil_append]
    generalize e.stage.step l code c (c.meanwhile e.manager) = after at hsteps
    obtain ⟨m', stage'⟩ := after
    cases hsteps with
    | on _ hhanded hthere hrank hnot =>
      exact ⟨⟨hthere, fun _ => hhanded, fun t ht => absurd ht (hnot t)⟩, fun _ => hrank⟩
    | done n program hprepared hhanded hrank =>
      refine ⟨⟨by rintro _ ⟨⟩, fun hnot => absurd rfl (hnot _), ?_⟩, fun _ => hrank⟩
      rintro _ ⟨⟩
      exact ⟨rfl, c, by simp, program, hprepared, hhanded⟩

theorem accounted_run (h : Accounted l code met e) :
    Accounted l code (met ++ cs) (e.run l code cs) := by
  induction cs generalizing met e with
  | nil =>
    rw [List.append_nil]
    exact h
  | cons c cs ih =>
    have hrest := ih (accounted_next (c := c) h).1
    rwa [List.append_assoc] at hrest

/-- An execution ends when it has met as many circumstances as its rank says. -/
theorem exists_ended_run (h : Accounted l code met e) (hlength : e.stage.rank ≤ cs.length) :
    ∃ result, (e.run l code cs).stage = .ended result := by
  induction cs generalizing met e with
  | nil =>
    rw [List.length_nil, Nat.le_zero] at hlength
    cases hstage : e.stage with
    | ended result => exact ⟨result, hstage⟩
    | _ =>
      rw [hstage] at hlength
      cases hlength
  | cons c cs ih =>
    obtain ⟨hnext, hrank⟩ := accounted_next (c := c) h
    refine ih hnext ?_
    rw [List.length_cons] at hlength
    by_cases hended : ∃ result, e.stage = .ended result
    · obtain ⟨result, hresult⟩ := hended
      rw [next_of_ended hresult, hresult]
      exact Nat.zero_le _
    · have hless := hrank (not_exists.mp hended)
      omega

end Execution

end StepTrace

import StepTrace.Proofs.Manager.Traffic
import Mathlib.Data.List.NodupEquivFin
import Mathlib.Data.List.Perm.Basic

/-!
# Who has which session

Whatever callers, turns and threads do between each other's steps, a session that is held is held by
one of them, and a language has at most one session that lives and was not taken from its slot to be
stopped. `Orderly` is the invariant: the holders are exactly those whom the manager knows
(`Orderly.custody`), and a session that lives and was not taken stands for its language
(`Orderly.registered`). Every act keeps it (`orderly_act`).

What callers and those who have turns can rely on is `Exclusive`.
-/

set_option autoImplicit false

namespace StepTrace

/-- The element in one place of a list can be taken out, and another one put there. -/
theorem exists_perm_set {α : Type} {xs : List α} {k : Nat} {a : α} (h : xs[k]? = some a) :
    ∃ others, xs.Perm (a :: others) ∧ ∀ b, (xs.set k b).Perm (b :: others) := by
  obtain ⟨hk, rfl⟩ := List.getElem?_eq_some_iff.mp h
  exact ⟨xs.eraseIdx k, (List.getElem_cons_eraseIdx_perm hk).symm,
    List.set_perm_cons_eraseIdx hk⟩

theorem filterMap_cons_eq {α β : Type} (f : α → Option β) (a : α) (rest : List α) :
    (a :: rest).filterMap f = (f a).toList ++ rest.filterMap f := by
  cases hf : f a <;> simp [hf]

namespace Traffic

/-- Who holds sessions: callers and those who have turns. -/
def holders (x : Traffic) : List Nat :=
  x.calls.filterMap Call.held? ++ x.tenures.filterMap Tenure.held?

/-- Which sessions stand for languages. -/
structure Registry (x : Traffic) : Prop where
  origins : x.origins.length = x.manager.sessions.length
  slots : ∀ p ∈ x.manager.slots, x.origins[p.2]? = some p.1
  /-- A session that need not be replaced and was not taken stands for its language. -/
  registered : ∀ l n, x.origins[n]? = some l → (x.manager.session n).needsRestart = false →
    n ∉ x.taken → x.manager.slot? l = some n

/-- What is so at any time. -/
structure Orderly (x : Traffic) : Prop where
  nodup : x.manager.held.Nodup
  custody : x.holders.Perm x.manager.held
  calls : ∀ call ∈ x.calls, call.Fits x.manager
  tenures : ∀ t ∈ x.tenures, t.turn.session < x.manager.sessions.length
  sane : ∀ n < x.manager.sessions.length, (x.manager.session n).Sane
  registry : x.Registry

variable {x y : Traffic} {k n : Nat} {call : Call} {o : Observation}
  {launched : Except Failure (Adapter × Moment × Nat)} {verdict : Verdict}

theorem orderly_start (settings : Settings) : (start settings).Orderly where
  nodup := List.nodup_nil
  custody := List.Perm.refl _
  calls := by rintro _ ⟨⟩
  tenures := by rintro _ ⟨⟩
  sane := by rintro _ ⟨⟩
  registry := ⟨rfl, by rintro _ ⟨⟩, by rintro _ _ ⟨⟩⟩

/-! ## The registry -/

theorem Registry.lt_of_origin (h : x.Registry) {l : Language} (horigin : x.origins[n]? = some l) :
    n < x.manager.sessions.length := by
  rw [← h.origins]
  exact (List.getElem?_eq_some_iff.mp horigin).1

theorem Registry.lt_of_mem (h : x.Registry) {p : Language × Nat} (hp : p ∈ x.manager.slots) :
    p.2 < x.manager.sessions.length :=
  h.lt_of_origin (h.slots p hp)

theorem Registry.lt_of_slot? (h : x.Registry) {l : Language}
    (hslot : x.manager.slot? l = some n) : n < x.manager.sessions.length :=
  h.lt_of_mem (Manager.mem_of_slot? hslot)

/-- A session that lives now has lived before. -/
theorem needsRestart_of_keeps {m m' : Manager} (h : m.Keeps m') (hn : n < m.sessions.length)
    (hrestart : (m'.session n).needsRestart = false) : (m.session n).needsRestart = false := by
  by_contra hdead
  rw [(h.session n hn).restart (by simpa using hdead)] at hrestart
  cases hrestart

/-- Slots may be emptied of sessions that are dead or are remembered as taken. -/
theorem Registry.of_emptied (h : x.Registry) (hkeeps : x.manager.Keeps y.manager)
    (hlength : y.manager.sessions.length = x.manager.sessions.length)
    (horigins : y.origins = x.origins) (htaken : ∀ n ∈ x.taken, n ∈ y.taken)
    (hsubset : y.manager.slots ⊆ x.manager.slots)
    (hslots : ∀ l, y.manager.slot? l = x.manager.slot? l ∨
      y.manager.slot? l = none ∧ ∀ n, x.manager.slot? l = some n →
        n ∈ y.taken ∨ (x.manager.session n).needsRestart = true) : y.Registry where
  origins := by rw [horigins, hlength, h.origins]
  slots p hp := by
    rw [horigins]
    exact h.slots p (hsubset hp)
  registered l n horigin hrestart hnot := by
    rw [horigins] at horigin
    have halive := needsRestart_of_keeps hkeeps (h.lt_of_origin horigin) hrestart
    have hslot := h.registered l n horigin halive fun hin => hnot (htaken n hin)
    rcases hslots l with hsame | ⟨-, hgone⟩
    · rw [hsame, hslot]
    · rcases hgone n hslot with hin | hdead
      · exact absurd hin hnot
      · rw [halive] at hdead
        cases hdead

/-- A session is put in a slot that had no usable one. -/
theorem Registry.of_opened (h : x.Registry) (hsane : ∀ n < x.manager.sessions.length,
      (x.manager.session n).Sane) {l : Language} {s : Session}
    (husable : x.manager.usable? l = none)
    (hmanager : y.manager = { x.manager with sessions := x.manager.sessions ++ [s] }.setSlot l
      (some x.manager.sessions.length))
    (horigins : y.origins = x.origins ++ [l]) (htaken : ∀ n ∈ x.taken, n ∈ y.taken) :
    y.Registry where
  origins := by simp [hmanager, Manager.setSlot, horigins, h.origins]
  slots p hp := by
    rw [hmanager] at hp
    rw [horigins]
    rcases Manager.mem_setSlot hp with hold | ⟨hnew, hl⟩
    · rw [List.getElem?_append_left (by rw [h.origins]; exact h.lt_of_mem hold)]
      exact h.slots p hold
    · rw [← Option.some.inj hnew, ← h.origins, List.getElem?_concat_length, hl]
  registered l' n horigin hrestart hnot := by
    rw [hmanager, Manager.slot?_setSlot]
    rw [horigins] at horigin
    by_cases hn : n < x.manager.sessions.length
    · rw [List.getElem?_append_left (by rw [h.origins]; exact hn)] at horigin
      have halive : (x.manager.session n).needsRestart = false := by
        rwa [hmanager, Manager.session_setSlot, Manager.session_append,
          if_neg (Nat.ne_of_lt hn)] at hrestart
      have hslot := h.registered l' n horigin halive fun hin => hnot (htaken n hin)
      split
      · next hl =>
        -- the language had no usable session, so this one cannot live
        have hdead := Manager.alive_of_usable?_eq_none husable (hl ▸ hslot) hn
        rw [(hsane n hn).alive, halive] at hdead
        cases hdead
      · exact hslot
    · have hlast : n = x.origins.length := by
        have hlt := (List.getElem?_eq_some_iff.mp horigin).1
        rw [List.length_append, List.length_singleton] at hlt
        rw [← h.origins] at hn
        omega
      subst hlast
      rw [List.getElem?_concat_length] at horigin
      cases horigin
      rw [if_pos rfl, h.origins]

/-! ## Every act -/

theorem orderly_enter (h : x.Orderly) (r : Request) : (x.act (.enter r)).Orderly := by
  have hnone : (r.call x.manager).held? = none := by cases r <;> rfl
  have hfits : (r.call x.manager).Fits x.manager := by
    cases r with
    | execute l code => exact ⟨by rintro _ ⟨⟩, trivial, fun _ => rfl⟩
    | _ => trivial
  refine ⟨h.nodup, ?_, ?_, h.tenures, h.sane, ⟨h.registry.1, h.registry.2, h.registry.3⟩⟩
  · have hcustody := h.custody
    simpa [act, holders, List.filterMap_append, hnone] using hcustody
  · intro call hcall
    rcases List.mem_append.mp hcall with hcall | hcall
    · exact h.calls call hcall
    · rw [List.mem_singleton] at hcall
      rw [hcall]
      exact hfits

/-- What others hold is not what one of the holders holds. -/
theorem Orderly.held?_ne (h : x.Orderly) {held : Option Nat} {others : List Nat}
    (hcustody : (held.toList ++ others).Perm x.manager.held) (hn : n ∈ others) : held ≠ some n := by
  rintro rfl
  have hnodup := hcustody.nodup_iff.mpr h.nodup
  exact (List.nodup_cons.mp hnodup).1 hn

/-- A call and all others: what they hold is what is held. -/
theorem Orderly.custody_call (h : x.Orderly) {calls : List Call}
    (hperm : x.calls.Perm (call :: calls)) :
    (call.held?.toList ++ (calls.filterMap Call.held? ++ x.tenures.filterMap Tenure.held?)).Perm
      x.manager.held := by
  rw [← List.append_assoc, ← filterMap_cons_eq]
  exact ((hperm.filterMap Call.held?).symm.append_right _).trans h.custody

/-- A turn and all others: what they hold is what is held. -/
theorem Orderly.custody_tenure (h : x.Orderly) {t : Tenure} {tenures : List Tenure}
    (hperm : x.tenures.Perm (t :: tenures)) :
    (t.held?.toList ++ (tenures.filterMap Tenure.held? ++ x.calls.filterMap Call.held?)).Perm
      x.manager.held := by
  rw [← List.append_assoc, ← filterMap_cons_eq]
  exact (((hperm.filterMap Tenure.held?).symm.append_right _).trans List.perm_append_comm).trans
    h.custody

/-- A step of a call keeps everything in order. -/
theorem orderly_goOn (h : x.Orderly) (hcall : x.calls[k]? = some call) :
    (x.goOn k call (.still o launched verdict)).Orderly := by
  obtain ⟨calls, hperm, hset⟩ := exists_perm_set hcall
  have hmem : call ∈ x.calls := hperm.mem_iff.mpr (by simp)
  have hcustody := h.custody_call hperm
  have heffect := Call.effect_step (h.calls call hmem) o launched verdict
  have hfits := Call.fits_step (h.calls call hmem) (fun p => h.registry.lt_of_mem) o launched verdict
  rw [goOn]
  generalize call.step (.still o launched verdict) x.manager = after at heffect hfits
  obtain ⟨m, call'⟩ := after
  dsimp only at heffect hfits ⊢
  have hkeeps := heffect.keeps
  obtain ⟨hnodup, hheld⟩ := heffect.custody h.nodup hcustody
  refine ⟨hnodup, ?_, ?_, ?_, hkeeps.sane h.sane, ?_⟩
  -- Custody: what the call held is held by it still, or by the turn that it has begun.
  · have hbegun : ((call.begun call').map Tenure.begin).toList.filterMap Tenure.held? =
        ((call.begun call').map Turn.session).toList := by
      cases call.begun call' <;> rfl
    rw [holders, List.filterMap_append, hbegun]
    refine .trans ?_ hheld
    have hcalls := (hset call').filterMap Call.held?
    rw [filterMap_cons_eq] at hcalls
    refine (hcalls.append_right _).trans ?_
    rw [List.append_assoc]
    refine List.Perm.append_left _ ?_
    rw [← List.append_assoc, ← List.append_assoc]
    exact List.perm_append_comm.trans (List.append_assoc .. ▸ .refl _)
  -- The other calls hold other sessions, and these were left alone.
  · intro other hother
    rcases List.mem_cons.mp ((hset call').mem_iff.mp hother) with rfl | hother
    · exact hfits
    · have hold := h.calls other (hperm.mem_iff.mpr (List.mem_cons_of_mem call hother))
      refine hold.of_keeps hkeeps fun n hn => ?_
      have hne := h.held?_ne hcustody (List.mem_append_left _ (List.mem_filterMap.mpr ⟨_, hother, hn⟩))
      rw [heffect.others (hold.lt_of_held? hn) hne]
  · intro t ht
    rcases List.mem_append.mp ht with ht | ht
    · exact Nat.lt_of_lt_of_le (h.tenures t ht) hkeeps.length
    · obtain ⟨turn, hbegun, rfl⟩ := Option.mem_map.mp (Option.mem_toList.mp ht)
      rw [hbegun] at heffect
      obtain ⟨hn, -, -, hlength, -⟩ := heffect.of_begun
      exact Nat.lt_of_lt_of_eq hn hlength.symm
  -- The registry: slots were emptied, or a session was put in one that had no usable session.
  · rcases heffect.slots with ⟨hlength, hsubset, hslots⟩ |
      ⟨l, adapter, now, pid, hopens, husable, hm⟩
    · refine h.registry.of_emptied hkeeps hlength ?_ (fun n => List.mem_append_left _) hsubset
        fun l => ?_
      · dsimp only
        rw [if_neg (by omega), List.append_nil]
      · refine (hslots l).imp_right fun ⟨hnone, hgone⟩ => ⟨hnone, fun n hn => ?_⟩
        exact (hgone n hn).imp_left (List.mem_append_right _)
    · refine h.registry.of_opened h.sane husable hm ?_ (fun n => List.mem_append_left _)
      dsimp only
      rw [if_pos (by simp [hm, Manager.setSlot]), hopens, Option.toList_some]

/-- What somebody does who has a turn keeps everything in order. -/
theorem orderly_handle (h : x.Orderly) (k : Nat) (d : Deed) : (x.act (.handle k d)).Orderly := by
  rw [act]
  split
  case h_2 => exact h
  case h_1 t ht =>
  obtain ⟨tenures, hperm, hset⟩ := exists_perm_set ht
  have hn := h.tenures t (hperm.mem_iff.mpr (by simp))
  have hcustody := h.custody_tenure hperm
  have heffect := t.effect_step x.manager d
  generalize t.step x.manager d = after at heffect
  obtain ⟨m, t'⟩ := after
  dsimp only at heffect
  have hkeeps := heffect.keeps hn
  obtain ⟨hnodup, hheld⟩ := heffect.custody h.nodup hcustody
  obtain ⟨hlength, hslots⟩ := heffect.slots
  refine ⟨hnodup, ?_, ?_, ?_, hkeeps.sane h.sane, ?_⟩
  -- Custody: all others hold what they held.
  · have htenures := (hset t').filterMap Tenure.held?
    rw [filterMap_cons_eq] at htenures
    refine List.Perm.trans ?_ hheld
    rw [← List.append_assoc]
    exact List.perm_append_comm.trans (htenures.append_right _)
  -- The calls hold other sessions than the turn does.
  · intro call hcall
    refine (h.calls call hcall).of_keeps hkeeps fun n hheld => ?_
    have hne := h.held?_ne hcustody
      (List.mem_append_right _ (List.mem_filterMap.mpr ⟨call, hcall, hheld⟩))
    rw [heffect.others hn hne]
  · intro u hu
    dsimp only
    rw [hlength]
    rcases List.mem_cons.mp ((hset t').mem_iff.mp hu) with rfl | hu
    · rw [heffect.session]
      exact hn
    · exact h.tenures u (hperm.mem_iff.mpr (List.mem_cons_of_mem t hu))
  · refine h.registry.of_emptied hkeeps hlength rfl (fun _ => id)
      (by rw [hslots]; exact List.Subset.refl _) fun l => .inl ?_
    rw [Manager.slot?, Manager.slot?, hslots]

theorem turn_hear (t : Tenure) (n : Nat) (more : List Message) :
    (t.hear n more).turn = t.turn ∧ (t.hear n more).grip = t.grip := by
  rw [Tenure.hear]
  split <;> exact ⟨rfl, rfl⟩

/-- The threads of a session keep everything in order. -/
theorem orderly_threads (h : x.Orderly) (n : Nat) (streams : Streams) (transcript : Transcript) :
    (x.act (.threads n streams transcript)).Orderly := by
  rw [act]
  split
  case isFalse => exact h
  case isTrue hthreads =>
  obtain ⟨hn, hgrows⟩ := hthreads
  have hkeeps := Manager.keeps_setSession hn (Session.keeps_grows hgrows transcript)
  have hheld : ∀ (t : Tenure) more, (t.hear n more).held? = t.held? := by
    intro t more
    obtain ⟨hturn, hgrip⟩ := turn_hear t n more
    rw [Tenure.held?, Tenure.held?, hturn, hgrip]
  refine ⟨h.nodup, ?_, fun call hcall => ?_, fun t ht => ?_, hkeeps.sane h.sane, ?_⟩
  · rw [holders, List.filterMap_map]
    simp only [Function.comp_def, hheld]
    exact h.custody
  · refine (h.calls call hcall).of_keeps hkeeps fun k _ => ?_
    rw [Manager.session_setSession hn]
    split
    · next hk => rw [hk]
    · rfl
  · obtain ⟨u, hu, rfl⟩ := List.mem_map.mp ht
    dsimp only
    rw [(turn_hear u n _).1, Manager.length_setSession]
    exact h.tenures u hu
  · exact h.registry.of_emptied hkeeps Manager.length_setSession rfl (fun _ => id)
      (List.Subset.refl _) fun l => .inl rfl

theorem orderly_act (h : x.Orderly) (a : Act) : (x.act a).Orderly := by
  cases a with
  | enter r => exact orderly_enter h r
  | go k o launched verdict =>
    rw [act]
    split
    · next call hcall => exact orderly_goOn h hcall
    · exact h
  | handle k d => exact orderly_handle h k d
  | threads n streams transcript => exact orderly_threads h n streams transcript

theorem orderly_run (h : x.Orderly) (acts : List Act) : (x.run acts).Orderly := by
  induction acts generalizing x with
  | nil => exact h
  | cons a acts ih => exact ih (orderly_act h a)

/-! ## What can be relied on -/

/-- What callers and those who have turns can rely on, whatever happens next. -/
structure Exclusive (x : Traffic) : Prop where
  /-- A session is started for a language whose session, if there is one, is known to be dead; it
  takes the slot of that language and of no other. -/
  starts : ∀ a, x.manager.sessions.length < (x.act a).manager.sessions.length →
    ∃ k o launched verdict call l, a = .go k o launched verdict ∧ x.calls[k]? = some call ∧
      call.opens = some l ∧
      (∀ n, x.manager.slot? l = some n → (x.manager.session n).alive = false) ∧
      (∃ adapter now pid, (x.act a).manager.sessions =
        x.manager.sessions ++ [.start adapter x.manager.settings.session now pid]) ∧
      ∀ l', (x.act a).manager.slot? l' =
        if l' = l then some x.manager.sessions.length else x.manager.slot? l'
  /-- A live session loses its slot only to a call that takes it to stop it. -/
  stays : ∀ a l n, x.manager.slot? l = some n → (x.manager.session n).alive = true →
    (x.act a).manager.slot? l = some n ∨
      ∃ k o launched verdict call, a = .go k o launched verdict ∧ x.calls[k]? = some call ∧
        n ∈ call.takes x.manager
  /-- Of the sessions of a language at most one lives and was not taken to be stopped. -/
  single : ∀ l i j, x.origins[i]? = some l → x.origins[j]? = some l →
    (x.manager.session i).alive = true → (x.manager.session j).alive = true →
    i ∉ x.taken → j ∉ x.taken → i = j
  /-- As long as the sessions of a language live and are not taken, there is one at most. -/
  once : ∀ l, (∀ n, x.origins[n]? = some l → (x.manager.session n).alive = true ∧ n ∉ x.taken) →
    x.origins.count l ≤ 1
  /-- Who holds a session holds it alone. -/
  alone : x.holders.Nodup ∧ x.holders.Perm x.manager.held
  /-- A session is held for one turn at most. -/
  turns : ∀ (i j : Nat) (t u : Tenure) (n : Nat), x.tenures[i]? = some t → x.tenures[j]? = some u →
    t.held? = some n → u.held? = some n → i = j
  /-- An execution that meets a session that is held is refused, and nothing else is changed. -/
  refuses : ∀ k l code tries n handed o launched verdict,
    x.calls[k]? = some (.execute l code (.holding tries n) handed) → n ∈ x.holders →
    x.act (.go k o launched verdict) = { x with
      calls := x.calls.set k (.execute l code (.ended (.error (.executionInProgress l.id))) []) }
  /-- An execution that is refused or fails has handed nothing to any session. -/
  silent : ∀ l code f handed, Call.execute l code (.ended (.error f)) handed ∈ x.calls →
    handed = []
  /-- An execution that empties a slot empties it of the dead session that it found there. -/
  discards : ∀ k l code tries n handed o launched verdict,
    x.calls[k]? = some (.execute l code (.discarding tries n) handed) →
    (x.manager.session n).alive = false ∧
      (x.act (.go k o launched verdict)).manager.sessions = x.manager.sessions ∧
      ∀ l', (x.act (.go k o launched verdict)).manager.slot? l' =
        if l' = l ∧ x.manager.slot? l = some n then none else x.manager.slot? l'

theorem Orderly.alive_iff (h : x.Orderly) (hn : n < x.manager.sessions.length) :
    (x.manager.session n).alive = true ↔ (x.manager.session n).needsRestart = false := by
  rw [(h.sane n hn).alive, Bool.not_eq_true']

theorem act_go (hcall : x.calls[k]? = some call) :
    x.act (.go k o launched verdict) = x.goOn k call (.still o launched verdict) := by
  rw [act, hcall]

/-- Nobody starts a session or touches a slot but a caller. -/
theorem slots_act (h : x.Orderly) (a : Act) :
    ((x.act a).manager.sessions.length = x.manager.sessions.length ∧
      ∀ l, (x.act a).manager.slot? l = x.manager.slot? l) ∨
    ∃ k o launched verdict call, a = .go k o launched verdict ∧ x.calls[k]? = some call ∧
      ∃ held begun, call.Effect x.manager (x.act a).manager held begun := by
  cases a with
  | enter r => exact .inl ⟨rfl, fun _ => rfl⟩
  | go k o launched verdict =>
    cases hcall : x.calls[k]? with
    | none =>
      rw [act, hcall]
      exact .inl ⟨rfl, fun _ => rfl⟩
    | some call =>
      rw [act_go hcall]
      exact .inr ⟨k, o, launched, verdict, call, rfl, hcall, _, _,
        Call.effect_step (h.calls call (List.mem_of_getElem? hcall)) o launched verdict⟩
  | handle k d =>
    left
    rw [act]
    split
    · next t ht =>
      obtain ⟨hlength, hslots⟩ := (t.effect_step x.manager d).slots
      exact ⟨hlength, fun l => by rw [Manager.slot?, Manager.slot?, hslots]⟩
    · exact ⟨rfl, fun _ => rfl⟩
  | threads n streams transcript =>
    left
    rw [act]
    split
    · exact ⟨Manager.length_setSession, fun _ => rfl⟩
    · exact ⟨rfl, fun _ => rfl⟩

theorem starts_of_orderly (h : x.Orderly) (a : Act)
    (hless : x.manager.sessions.length < (x.act a).manager.sessions.length) :
    ∃ k o launched verdict call l, a = .go k o launched verdict ∧ x.calls[k]? = some call ∧
      call.opens = some l ∧
      (∀ n, x.manager.slot? l = some n → (x.manager.session n).alive = false) ∧
      (∃ adapter now pid, (x.act a).manager.sessions =
        x.manager.sessions ++ [.start adapter x.manager.settings.session now pid]) ∧
      ∀ l', (x.act a).manager.slot? l' =
        if l' = l then some x.manager.sessions.length else x.manager.slot? l' := by
  rcases slots_act h a with ⟨hlength, -⟩ |
    ⟨k, o, launched, verdict, call, ha, hcall, held, begun, heffect⟩
  · omega
  · rcases heffect.slots with ⟨hlength, -⟩ | ⟨l, adapter, now, pid, hopens, husable, hmanager⟩
    · omega
    · refine ⟨k, o, launched, verdict, call, l, ha, hcall, hopens,
        fun n hn => Manager.alive_of_usable?_eq_none husable hn (h.registry.lt_of_slot? hn),
        ⟨adapter, now, pid, by rw [hmanager]; rfl⟩, fun l' => ?_⟩
      rw [hmanager, Manager.slot?_setSlot]
      rfl

theorem stays_of_orderly (h : x.Orderly) (a : Act) (l : Language)
    (hslot : x.manager.slot? l = some n) (halive : (x.manager.session n).alive = true) :
    (x.act a).manager.slot? l = some n ∨
      ∃ k o launched verdict call, a = .go k o launched verdict ∧ x.calls[k]? = some call ∧
        n ∈ call.takes x.manager := by
  have hn := h.registry.lt_of_slot? hslot
  rcases slots_act h a with ⟨-, hslots⟩ |
    ⟨k, o, launched, verdict, call, ha, hcall, held, begun, heffect⟩
  · exact .inl ((hslots l).trans hslot)
  · rcases heffect.slots with ⟨-, -, hslots⟩ | ⟨l', _, _, _, _, husable, hmanager⟩
    · rcases hslots l with hsame | ⟨-, hgone⟩
      · exact .inl (hsame.trans hslot)
      · rcases hgone n hslot with htaken | hdead
        · exact .inr ⟨k, o, launched, verdict, call, ha, hcall, htaken⟩
        · rw [(h.alive_iff hn).mp halive] at hdead
          cases hdead
    · left
      rw [hmanager, Manager.slot?_setSlot, if_neg]
      · exact hslot
      rintro rfl
      rw [Manager.alive_of_usable?_eq_none husable hslot hn] at halive
      cases halive

theorem single_of_orderly (h : x.Orderly) {l : Language} {i j : Nat}
    (hi : x.origins[i]? = some l) (hj : x.origins[j]? = some l)
    (hialive : (x.manager.session i).alive = true) (hjalive : (x.manager.session j).alive = true)
    (hiheld : i ∉ x.taken) (hjheld : j ∉ x.taken) : i = j := by
  have hslot : ∀ n, x.origins[n]? = some l → (x.manager.session n).alive = true → n ∉ x.taken →
      x.manager.slot? l = some n := fun n hn halive hnot =>
    h.registry.registered l n hn ((h.alive_iff (h.registry.lt_of_origin hn)).mp halive) hnot
  exact Option.some.inj ((hslot i hi hialive hiheld).symm.trans (hslot j hj hjalive hjheld))

theorem count_le_one_of_unique {α : Type} [DecidableEq α] {xs : List α} {a : α}
    (h : ∀ i j : Nat, xs[i]? = some a → xs[j]? = some a → i = j) : xs.count a ≤ 1 := by
  by_contra hmany
  obtain ⟨i, j, hij, hi, hj⟩ := List.duplicate_iff_exists_distinct_get.mp
    (List.duplicate_iff_two_le_count.mpr (by omega : 2 ≤ xs.count a))
  have hsame := h i j (by simp [hi]) (by simp [hj])
  exact absurd (Fin.ext hsame) (Fin.ne_of_lt hij)

/-- Two places of a list that give the same are one, if all that the list gives is different. -/
theorem eq_of_nodup_filterMap {α β : Type} {f : α → Option β} {xs : List α} {a b : α} {c : β}
    (h : (xs.filterMap f).Nodup) {i j : Nat} (hi : xs[i]? = some a) (hj : xs[j]? = some b)
    (ha : f a = some c) (hb : f b = some c) : i = j := by
  rw [List.Nodup, List.pairwise_filterMap, List.pairwise_iff_getElem] at h
  obtain ⟨hi', rfl⟩ := List.getElem?_eq_some_iff.mp hi
  obtain ⟨hj', rfl⟩ := List.getElem?_eq_some_iff.mp hj
  rcases Nat.lt_trichotomy i j with hlt | heq | hgt
  · exact absurd rfl (h i j hi' hj' hlt c ha c hb)
  · exact heq
  · exact absurd rfl (h j i hj' hi' hgt c hb c ha)

theorem refuses_of_orderly (h : x.Orderly) {l : Language} {code : List Char} {tries : Nat}
    {handed : List (Nat × List Char)}
    (hcall : x.calls[k]? = some (.execute l code (.holding tries n) handed))
    (hn : n ∈ x.holders) :
    x.act (.go k o launched verdict) = { x with
      calls := x.calls.set k (.execute l code (.ended (.error (.executionInProgress l.id))) []) } := by
  have hheld : x.manager.hold? n = none :=
    Manager.hold?_eq_none_iff.mpr (h.custody.mem_iff.mp hn)
  have hnone : handed = [] := (h.calls _ (List.mem_of_getElem? hcall)).2.2 (by rintro _ ⟨⟩)
  have hstep : (Call.execute l code (.holding tries n) handed).step (.still o launched verdict)
      x.manager =
        (x.manager, .execute l code (.ended (.error (.executionInProgress l.id))) []) := by
    rw [Call.step_execute (by rintro _ ⟨⟩)]
    simp only [Stage.step, hheld, hnone, Stage.handed_self, List.append_nil]
  rw [act_go hcall, goOn, hstep]
  simp [Call.begun, Call.takes]

theorem discards_of_orderly (h : x.Orderly) {l : Language} {code : List Char} {tries : Nat}
    {handed : List (Nat × List Char)}
    (hcall : x.calls[k]? = some (.execute l code (.discarding tries n) handed)) :
    (x.manager.session n).alive = false ∧
      (x.act (.go k o launched verdict)).manager.sessions = x.manager.sessions ∧
      ∀ l', (x.act (.go k o launched verdict)).manager.slot? l' =
        if l' = l ∧ x.manager.slot? l = some n then none else x.manager.slot? l' := by
  obtain ⟨hknown, hknows, -⟩ := h.calls _ (List.mem_of_getElem? hcall)
  have hmanager : (x.act (.go k o launched verdict)).manager = x.manager.discard l n := by
    rw [act_go hcall, goOn, Call.step_execute (by rintro _ ⟨⟩)]
    cases tries <;> rfl
  refine ⟨?_, ?_, fun l' => ?_⟩
  · have hdead : (x.manager.session n).needsRestart = true := hknows
    rw [(h.sane n (hknown n rfl)).alive, hdead]
    rfl
  · rw [hmanager, Manager.sessions_discard]
  · rw [hmanager, Manager.discard]
    split
    · next hslot => simp [Manager.slot?_setSlot, hslot]
    · next hslot => simp [hslot]

theorem exclusive_of_orderly (h : x.Orderly) : x.Exclusive := by
  have hnodup : x.holders.Nodup := h.custody.nodup_iff.mpr h.nodup
  refine ⟨starts_of_orderly h, fun a l n => stays_of_orderly h a l, fun l i j => single_of_orderly h,
    fun l hlive => ?_, ⟨hnodup, h.custody⟩, fun i j t u n hi hj => ?_,
    fun k l code tries n handed o launched verdict => refuses_of_orderly h,
    fun l code f handed hcall => ?_,
    fun k l code tries n handed o launched verdict => discards_of_orderly h⟩
  · refine count_le_one_of_unique fun i j hi hj => ?_
    exact single_of_orderly h hi hj (hlive i hi).1 (hlive j hj).1 (hlive i hi).2 (hlive j hj).2
  · exact eq_of_nodup_filterMap (List.nodup_append.mp hnodup).2.1 hi hj
  · exact (h.calls _ hcall).2.2 (by rintro _ ⟨⟩)

end Traffic

end StepTrace

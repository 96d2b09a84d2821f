import StepTrace.CommandLine
import StepTrace.Proofs.Interpreter.Arrivals
import StepTrace.Proofs.Session.TurnEvents
import Mathlib.Data.List.Induction
import Mathlib.Data.String.Basic

/-!
# Views of a turn

What a turn delivers can be taken event by event, chunk by chunk, all at once, or as the command
line shows it, in plain text or in JSON. `Delivers` is the turn asked for its events one after the
other, and `Whole` says what a list of events has to be to come of that. Every view is a function of
these events (`finish_of_delivers`, `givesChunks_of_delivers`), and the functions agree
(`agree_of_whole`).

The main statement is `views_agree`.
-/

set_option autoImplicit false

namespace StepTrace

/-! ## Whole turns -/

/-- The events of a whole turn: lines that become active and lines that are printed, then one event
that closes the turn. -/
inductive LineEvent.Whole : List LineEvent → Prop
  | finished : Whole [.endOfExecution]
  | fault (reason : String) : Whole [.fault reason]
  | activeLine (n : Nat) {es : List LineEvent} : Whole es → Whole (.activeLine n :: es)
  | outputText (text : String) {es : List LineEvent} : Whole es → Whole (.outputText text :: es)

open CommandLine (plainOutput lastFault? runOutcome follow)
open LineEvent (Whole)

variable {es : List LineEvent} {e : LineEvent}

theorem whole_singleton (h : e.isTerminal = true) : Whole [e] := by
  cases e with
  | endOfExecution => exact .finished
  | fault reason => exact .fault reason
  | _ => cases h

theorem whole_cons (h : Whole es) (hopen : e.isTerminal = false) (hkept : e ≠ .discard) :
    Whole (e :: es) := by
  cases e with
  | activeLine n => exact .activeLine n h
  | outputText text => exact .outputText text h
  | discard => exact absurd rfl hkept
  | _ => cases hopen

/-! ## What the views have in common -/

/-- What is gathered of some events is what plain text shows of them, the lines that became active,
and the last fault. -/
theorem ofEvents_eq (es : List LineEvent) :
    TurnOutput.ofEvents es =
      ⟨plainOutput es, es.filterMap LineEvent.activeLine?, lastFault? es⟩ := by
  induction es using List.reverseRecOn with
  | nil => rfl
  | append_singleton es e ih =>
    have hstep : TurnOutput.ofEvents (es ++ [e]) = (TurnOutput.ofEvents es).add e := by
      simp [TurnOutput.ofEvents]
    rw [hstep, ih]
    cases e <;> simp [TurnOutput.add, plainOutput, lastFault?, LineEvent.activeLine?,
      LineEvent.outputText?, List.filterMap_cons, String.append_assoc]

/-- The chunks hold what plain text shows. -/
theorem join_output_ofEvents (es : List LineEvent) :
    String.join ((Chunk.ofEvents es).filterMap Chunk.output) = plainOutput es := by
  have hchunk : ∀ e : LineEvent,
      e.chunk?.bind Chunk.output = e.outputText?.map fun t => t ++ "\n" := by
    intro e
    cases e <;> rfl
  rw [Chunk.ofEvents, List.filterMap_filterMap, plainOutput, List.map_filterMap]
  simp only [hchunk]

/-- The chunks hold the lines that became active. -/
theorem activeLine_ofEvents (es : List LineEvent) :
    (Chunk.ofEvents es).filterMap Chunk.activeLine = es.filterMap LineEvent.activeLine? := by
  have hchunk : ∀ e : LineEvent, e.chunk?.bind Chunk.activeLine = e.activeLine? := by
    intro e
    cases e <;> rfl
  rw [Chunk.ofEvents, List.filterMap_filterMap]
  simp only [hchunk]

/-- Of the chunks of a whole turn the last one, and no other, is marked as the end; it tells of the
fault. -/
theorem exists_last_chunk (h : Whole es) :
    ∃ before last, Chunk.ofEvents es = before ++ [last] ∧ (∀ c ∈ before, c.done = false) ∧
      last.done = true ∧ last.error = lastFault? es := by
  induction h with
  | finished => exact ⟨[], _, rfl, by simp, rfl, rfl⟩
  | fault reason => exact ⟨[], _, rfl, by simp, rfl, rfl⟩
  | activeLine n _ ih =>
    obtain ⟨before, last, hchunks, hbefore, hdone, herror⟩ := ih
    refine ⟨⟨some n, none, none, false⟩ :: before, last, ?_, ?_, hdone, herror⟩
    · exact congrArg (List.cons _) hchunks
    · exact List.forall_mem_cons.mpr ⟨rfl, hbefore⟩
  | outputText text _ ih =>
    obtain ⟨before, last, hchunks, hbefore, hdone, herror⟩ := ih
    refine ⟨⟨none, some (text ++ "\n"), none, false⟩ :: before, last, ?_, ?_, hdone, herror⟩
    · exact congrArg (List.cons _) hchunks
    · exact List.forall_mem_cons.mpr ⟨rfl, hbefore⟩

/-- How the views of some events agree. -/
structure Agree (es : List LineEvent) : Prop where
  /-- The last chunk, and no other, is marked as the end. It holds the fault. -/
  last : ∃ before last, Chunk.ofEvents es = before ++ [last] ∧ (∀ c ∈ before, c.done = false) ∧
    last.done = true ∧ last.error = (TurnOutput.ofEvents es).fault
  output : String.join ((Chunk.ofEvents es).filterMap Chunk.output) =
    (TurnOutput.ofEvents es).output
  activeLines : (Chunk.ofEvents es).filterMap Chunk.activeLine =
    (TurnOutput.ofEvents es).activeLines
  plain : ∀ l welcome, (runOutcome l false welcome es).stdout = (TurnOutput.ofEvents es).output
  /-- The command line fails exactly if there is a fault, in JSON and in plain text, and says so. -/
  failure : ∀ l json welcome, ∃ stdout stderr, runOutcome l json welcome es =
    match (TurnOutput.ofEvents es).fault with
    | some reason => .failed stdout stderr (l.properName ++ " interpreter failed: " ++ reason)
    | none => ⟨0, stdout, stderr⟩

theorem agree_of_whole (h : Whole es) : Agree es where
  last := by
    rw [ofEvents_eq]
    exact exists_last_chunk h
  output := by rw [join_output_ofEvents, ofEvents_eq]
  activeLines := by rw [activeLine_ofEvents, ofEvents_eq]
  plain := by
    intro l welcome
    rw [ofEvents_eq, runOutcome]
    cases lastFault? es <;> rfl
  failure := by
    intro l json welcome
    rw [ofEvents_eq]
    exact ⟨_, _, rfl⟩

/-! ## What a turn delivers -/

namespace Session

variable {s u : Session} {out : Option LineEvent}

theorem poll_ne_discard {t : Session} (h : s.poll = (.event .discard, t)) : False := by
  by_cases hidle : s.progress = .idle
  · rw [poll, if_pos hidle] at h
    cases h
  · obtain ⟨read, p, t', hpoll, -, hread⟩ := poll_spec s hidle
    rw [h] at hpoll
    cases hpoll
    rcases hread with hread | ⟨hwaiting, -⟩
    · cases hread with
      | event _ _ _ _ _ hlaw =>
        have hmem : LineEvent.discard ∈ eventsFrom s.progress (s.adapter.heard read ++ []) := by
          rw [hlaw]
          exact List.mem_cons_self
        rw [eventsFrom] at hmem
        split at hmem
        · simp [LineEvent.isOutput] at hmem
        · exact discard_not_mem_turnEvents _ hmem
      | last _ _ hterminal => cases hterminal
    · cases hwaiting

/-- No call for the next event comes back with a line that means nothing. -/
theorem Awaits.ne_discard (h : s.Awaits out u) : out ≠ some .discard := by
  induction h with
  | arrives _ _ ih => exact ih
  | event hpoll =>
    rintro ⟨⟩
    exact poll_ne_discard hpoll
  | idle => simp
  | @gone s t o hpoll =>
    have hterminal := (exited_spec t o).1
    intro heq
    rw [Option.some.injEq] at heq
    rw [heq] at hterminal
    cases hterminal
  | waits _ _ ih => exact ih
  | quiet => rintro ⟨⟩
  | silent => simp

end Session

namespace Workshop

/-- What a turn delivers when it is asked for events one after the other, up to the one that closes
it. -/
inductive Delivers : Workshop → Turn → List LineEvent → Turn → Workshop → Prop
  | last {w w' : Workshop} {t t' : Turn} {e : LineEvent} : w.next t = (some e, t', w') →
      e.isTerminal = true → Delivers w t [e] t' w'
  | more {w w' w'' : Workshop} {t t' t'' : Turn} {e : LineEvent} {es : List LineEvent} :
      w.next t = (some e, t', w') → e.isTerminal = false → Delivers w' t' es t'' w'' →
      Delivers w t (e :: es) t'' w''

/-- What a turn gives when it is asked for chunks one after the other, up to where it gives none. -/
inductive GivesChunks (fuel : Nat) : Workshop → Turn → List Chunk → Turn → Workshop → Prop
  | over {w w' : Workshop} {t t' : Turn} : w.nextChunk t fuel = (none, t', w') →
      GivesChunks fuel w t [] t' w'
  | more {w w' w'' : Workshop} {t t' t'' : Turn} {c : Chunk} {cs : List Chunk} :
      w.nextChunk t fuel = (some c, t', w') → GivesChunks fuel w' t' cs t'' w'' →
      GivesChunks fuel w t (c :: cs) t'' w''

variable {w w' : Workshop} {t t' : Turn}

theorem Delivers.of_last (h : (w.next t).1 = some e) (hterminal : e.isTerminal = true) :
    w.Delivers t [e] (w.next t).2.1 (w.next t).2.2 :=
  .last (Prod.ext h rfl) hterminal

theorem Delivers.of_next (h : (w.next t).1 = some e) (hopen : e.isTerminal = false)
    (hrest : (w.next t).2.2.Delivers (w.next t).2.1 es t' w') : w.Delivers t (e :: es) t' w' :=
  .more (Prod.ext h rfl) hopen hrest

theorem next_of_finished (h : t.finished = true) (w : Workshop) : w.next t = (none, t, w) := by
  rw [next, if_pos h]

/-- An event that comes is one that says something, and the turn is over if it closes the turn. -/
theorem next_eq_some (h : w.next t = (some e, t', w')) :
    e ≠ .discard ∧ t'.finished = e.isTerminal := by
  rw [next] at h
  split at h
  · cases h
  · have hawaits := (w.interpreter t.session).awaits_next w.clock
    obtain ⟨⟨out, i, clock⟩, hnext⟩ :
      ∃ p, (w.interpreter t.session).next w.clock = p := ⟨_, rfl⟩
    rw [hnext] at h hawaits
    cases h
    refine ⟨?_, by simp⟩
    rintro rfl
    exact hawaits.ne_discard rfl

theorem whole_of_delivers (h : w.Delivers t es t' w') : Whole es := by
  induction h with
  | last _ hterminal => exact whole_singleton hterminal
  | more hnext hopen _ ih => exact whole_cons ih hopen (next_eq_some hnext).1

theorem Reading.acc_last {r : Reading} (h : r.workshop.next r.turn = (none, t', w')) :
    Acc After r := by
  refine .intro r fun r' hafter => ?_
  obtain ⟨e, he, -⟩ := hafter
  rw [h] at he
  cases he

/-- Only one reading comes right after another. -/
theorem Reading.acc_more {r : Reading} (h : r.workshop.next r.turn = (some e, t', w'))
    (hacc : Acc After ⟨w', t', e :: r.before⟩) : Acc After r := by
  refine .intro r fun r' hafter => ?_
  obtain ⟨w', t', before⟩ := r'
  obtain ⟨e', he, hbefore⟩ := hafter
  rw [h] at he
  cases he
  cases hbefore
  exact hacc

theorem Reading.finish_last {r : Reading} (h : r.workshop.next r.turn = (none, t', w')) :
    r.finish = (r.before.reverse, t', w') := by
  rw [finish, WellFounded.partialExtrinsicFix_eq_apply_of_acc (acc_last h), goOn]
  split
  next he =>
    rw [h] at he
    cases he
  next he =>
    rw [h] at he
    cases he
    rfl

theorem Reading.finish_more {r : Reading} (h : r.workshop.next r.turn = (some e, t', w'))
    (hacc : Acc After ⟨w', t', e :: r.before⟩) :
    r.finish = finish ⟨w', t', e :: r.before⟩ := by
  rw [finish, WellFounded.partialExtrinsicFix_eq_apply_of_acc (acc_more h hacc), goOn]
  split
  next he =>
    rw [h] at he
    cases he
    rfl
  next he =>
    rw [h] at he
    cases he

/-- A turn that is read to its end gives what it delivers. -/
theorem finish_of_delivers (h : w.Delivers t es t' w') (before : List LineEvent) :
    Acc Reading.After ⟨w, t, before⟩ ∧
      Reading.finish ⟨w, t, before⟩ = (before.reverse ++ es, t', w') := by
  -- the turn has an end, so that the recursion unfolds
  induction h generalizing before with
  | last hnext hterminal =>
    have hover := (next_eq_some hnext).2.trans hterminal
    have hlast := next_of_finished hover
    refine ⟨Reading.acc_more hnext (Reading.acc_last (hlast _)), ?_⟩
    rw [Reading.finish_more hnext (Reading.acc_last (hlast _)), Reading.finish_last (hlast _)]
    simp
  | more hnext _ _ ih =>
    obtain ⟨hacc, hfinish⟩ := ih (_ :: before)
    refine ⟨Reading.acc_more hnext hacc, ?_⟩
    rw [Reading.finish_more hnext hacc, hfinish]
    simp

theorem nextChunk_of_finished (h : t.finished = true) (w : Workshop) (fuel : Nat) :
    w.nextChunk t (fuel + 1) = (none, t, w) := by
  rw [nextChunk, next_of_finished h]

/-- No event has to be passed over to get at a chunk. -/
theorem nextChunk_of_next (h : w.next t = (some e, t', w')) (fuel : Nat) :
    ∃ c, e.chunk? = some c ∧ w.nextChunk t (fuel + 1) = (some c, t', w') := by
  have hkept := (next_eq_some h).1
  rw [nextChunk, h]
  cases e with
  | discard => exact absurd rfl hkept
  | _ => exact ⟨_, rfl, rfl⟩

/-- A turn that is asked for chunks gives those of the events that it delivers. -/
theorem givesChunks_of_delivers (h : w.Delivers t es t' w') (fuel : Nat) :
    w.GivesChunks (fuel + 1) t (Chunk.ofEvents es) t' w' := by
  induction h with
  | last hnext hterminal =>
    obtain ⟨c, hc, hchunk⟩ := nextChunk_of_next hnext fuel
    have hover := (next_eq_some hnext).2.trans hterminal
    rw [Chunk.ofEvents, List.filterMap_cons_some hc]
    exact .more hchunk (.over (nextChunk_of_finished hover _ fuel))
  | more hnext _ _ ih =>
    obtain ⟨c, hc, hchunk⟩ := nextChunk_of_next hnext fuel
    rw [Chunk.ofEvents, List.filterMap_cons_some hc]
    exact .more hchunk ih

end Workshop

/-- All views of a turn agree: of every list of events that a turn can deliver, and in whatever way
the turn is read. -/
theorem views_agree :
    (∀ es, Whole es → Agree es) ∧
    ∀ (w w' : Workshop) (t t' : Turn) (es : List LineEvent), w.Delivers t es t' w' →
      Whole es ∧ w.allEvents t = (es, t', w') ∧
      (∀ fuel, w.GivesChunks (fuel + 1) t (Chunk.ofEvents es) t' w') ∧
      ∀ l json welcome, follow l json welcome w t = runOutcome l json welcome es := by
  refine ⟨fun es => agree_of_whole, fun w w' t t' es h => ?_⟩
  have hall : w.allEvents t = (es, t', w') := (Workshop.finish_of_delivers h []).2
  refine ⟨Workshop.whole_of_delivers h, hall, Workshop.givesChunks_of_delivers h, ?_⟩
  intro l json welcome
  rw [follow, hall]

/-- A workshop with a shell that has announced a line, printed one, and announced the end. -/
def printingShop : Workshop where
  host := default
  manager := {
    settings := default
    sessions := [{ Session.freshShell with
      progress := .running
      streams := { Streams.fresh with
        queue := ["##active_line1##", "hi", "##end_of_execution##"].map (.line .stdout) } }]
    slots := [(.shell, 0)]
    held := [0] }
  processes := [⟨default, default, [], 1000000, 0, .fresh, .fresh⟩]
  clock := 0

/-- The turn whose output that is. -/
def printingTurn : Turn := ⟨.shell, 0, false⟩

/-- The events of that turn. -/
def printedEvents : List LineEvent := [.activeLine 1, .outputText "hi", .endOfExecution]

theorem views_agree_printingShop :
    Agree printedEvents ∧ Agree [.outputText "hi", .fault "gone"] ∧
    ∃ t w, printingShop.Delivers printingTurn printedEvents t w ∧
      printingShop.allEvents printingTurn = (printedEvents, t, w) ∧
      printingShop.GivesChunks 1 printingTurn (Chunk.ofEvents printedEvents) t w ∧
      follow .shell false "" printingShop printingTurn = ⟨0, "hi\n", "[line 1]\n"⟩ := by
  obtain ⟨hagree, hdelivers⟩ := views_agree
  have hreads : ∃ t w, printingShop.Delivers printingTurn printedEvents t w := by
    refine ⟨_, _, .of_next ?_ rfl (.of_next ?_ rfl (.of_last ?_ rfl))⟩
    · decide +kernel
    · decide +kernel
    · decide +kernel
  obtain ⟨t, w, h⟩ := hreads
  obtain ⟨hwhole, hall, hchunks, hfollow⟩ := hdelivers _ _ _ _ _ h
  refine ⟨hagree _ hwhole, hagree _ (.outputText _ (.fault _)), t, w, h, hall, hchunks 0, ?_⟩
  rw [hfollow]
  decide

end StepTrace

import StepTrace.Proofs.Session.Lifecycle
import StepTrace.Proofs.Session.Threads

/-!
# What becomes of a session in other hands

Who holds a session may do much with it. What all others can rely on is little (`Keeps`): it stays a
session of its language, one that has to be replaced stays so, and a sane session stays sane. Each
operation of a session keeps that much.
-/

set_option autoImplicit false

namespace StepTrace

namespace Session

/-- The handles of a session see whether it has to be replaced, and its channel of messages ends only
after its writer. -/
structure Sane (s : Session) : Prop where
  alive : s.alive = !s.needsRestart
  writer : s.streams.WriterLast

/-- What a session keeps whatever is done with it. -/
structure Keeps (s t : Session) : Prop where
  adapter : t.adapter = s.adapter
  restart : s.needsRestart = true → t.needsRestart = true
  sane : s.Sane → t.Sane

theorem Keeps.refl (s : Session) : s.Keeps s := ⟨rfl, id, id⟩

theorem sane_start (adapter : Adapter) (settings : SessionSettings) (now : Moment) (pid : Nat) :
    (start adapter settings now pid).Sane := ⟨rfl, by rintro ⟨⟩⟩

/-- A session that is marked at most keeps all that, if its streams stay sane. -/
theorem MarkedAtMost.keeps {s t : Session} (h : s.MarkedAtMost t) (ha : t.adapter = s.adapter)
    (hw : s.streams.WriterLast → t.streams.WriterLast) : s.Keeps t :=
  ⟨ha, h.later.restart, fun hs => ⟨h.alive hs.alive, hw hs.writer⟩⟩

/-- A session that is known to be dead keeps all that, if its streams are as they were. -/
theorem keeps_of_dead {s t : Session} (ha : t.adapter = s.adapter) (hr : t.needsRestart = true)
    (hd : t.alive = false) (hstreams : t.streams = s.streams) : s.Keeps t where
  adapter := ha
  restart _ := hr
  sane hs := ⟨by rw [hr, hd]; rfl, by rw [hstreams]; exact hs.writer⟩

theorem keeps_refresh (s : Session) (o : Observation) : s.Keeps (s.refresh o) :=
  (markedAtMost_refresh s o).keeps (refresh_spec s o).2.2 fun h => writerLast_refresh h o

theorem keeps_welcome {s t : Session} {o : Observation} {r : Except Failure Unit}
    (h : s.welcome o = (r, t)) : s.Keeps t := by
  cases welcome_cases h with
  | busy => exact .refl s
  | gone => exact keeps_refresh s o
  | admitted => exact keeps_refresh s o

theorem keeps_feed {s t : Session} {verdict : Verdict} {code : List Char}
    {r : Except Failure Unit} (h : s.feed verdict code = (r, t)) : s.Keeps t := by
  have hmarked := markedAtMost_feed h
  cases feed_cases h with
  | unprepared => exact .refl s
  | unsent => exact hmarked.keeps rfl Streams.WriterLast.drain
  | handed => exact hmarked.keeps rfl Streams.WriterLast.drain

theorem adapter_heed (s : Session) (m : Message) : (s.heed m).2.adapter = s.adapter := by
  cases m with
  | closed source => rfl
  | writeFailed reason => rfl
  | line source text =>
    simp only [heed]
    split
    · rfl
    · split
      · rfl
      · split <;> rfl
    · split <;> rfl
    · rfl

theorem adapter_pollFrom (queue : List Message) (s : Session) :
    (s.pollFrom queue).2.adapter = s.adapter := by
  induction queue generalizing s with
  | nil => rfl
  | cons m rest ih =>
    have hstep := adapter_heed (s.takeMessage m rest) m
    rw [pollFrom]
    generalize (s.takeMessage m rest).heed m = out at hstep
    rcases out with ⟨_ | p, t⟩
    · exact (ih t).trans hstep
    · exact hstep

theorem adapter_poll (s : Session) : s.poll.2.adapter = s.adapter := by
  rw [poll]
  split
  · rfl
  · exact adapter_pollFrom _ s

theorem keeps_poll (s : Session) : s.Keeps s.poll.2 :=
  (markedAtMost_poll s).keeps (adapter_poll s) writerLast_poll

theorem adapter_reap (s : Session) (o : Observation) : (s.reap o).adapter = s.adapter := by
  rw [reap]
  split <;> rfl

theorem keeps_exited (s : Session) (o : Observation) : s.Keeps (s.exited o).2 := by
  obtain ⟨hr, ha, -, -⟩ := exited_kept s o
  refine keeps_of_dead ?_ hr ha (exited_spec s o).2.2
  rw [exited]
  split
  · exact adapter_reap s.markDead o
  · exact adapter_reap s o

theorem keeps_quiet (s : Session) : s.Keeps s.quiet.2 := ⟨rfl, id, fun hs => ⟨hs.alive, hs.writer⟩⟩

theorem keeps_abandon (s : Session) (o : Observation) : s.Keeps (s.abandon o) := by
  rw [abandon]
  split
  · exact keeps_of_dead rfl rfl rfl rfl
  · exact .refl s

theorem keeps_terminate (s : Session) (o : Observation) : s.Keeps (s.terminate o) := by
  rw [terminate]
  split
  · exact .refl s
  · exact keeps_of_dead rfl rfl rfl rfl

/-- The threads of a session keep it sane. -/
theorem keeps_grows {s : Session} {streams : Streams} (h : s.streams.Grows streams)
    (transcript : Transcript) :
    s.Keeps { s with streams := streams, transcript := transcript } :=
  ⟨rfl, id, fun hs => ⟨hs.alive, hs.writer.of_grows h⟩⟩

end Session

end StepTrace

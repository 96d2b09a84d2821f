import StepTrace.Proofs.Interpreter.Arrivals
import StepTrace.Text.Pieces

/-!
# What the readers of an interpreter pass on

The bytes that a process prints come in pieces of any size, and the pieces of its two streams come
in any order. A reader has the bytes of the line that it is at work on; `linesOf` says, without it,
what the lines of a stream are. That the reader gives these lines is told by what it has when some
bytes have been read: the last piece between line feeds (`feed_pieces`).

An interpreter passes a happening on to the one reader that it concerns (`passOn_receives`). So all
that is sent for a stream are its lines in their order and, behind them, that it has closed,
whatever happens to the other stream in between (`reader_relays`).
-/

set_option autoImplicit false

namespace StepTrace

namespace LineReader

/-! ## The lines of a stream -/

/-- The bytes of a line without the carriage return at their end. -/
def withoutReturn (bytes : List UInt8) : List UInt8 :=
  if bytes.getLast? = some 13 then bytes.dropLast else bytes

/-- The text of a line by its bytes without the line feed. -/
def textOf (bytes : List UInt8) : List Char := Text.decode (withoutReturn bytes)

/-- The bytes between line feeds; behind the last one they count only if there are any. -/
def segments (bytes : List UInt8) : List (List UInt8) :=
  let pieces := Text.pieces (· == 10) bytes
  if pieces.getLast? = some [] then pieces.dropLast else pieces

/-- The lines of a stream by all its bytes. -/
def linesOf (bytes : List UInt8) : List (List Char) := (segments bytes).map textOf

/-! ## The reader at work -/

theorem lineText_of_head? {reversed : List UInt8} (h : reversed.head? ≠ some 10) :
    lineText reversed = textOf reversed.reverse := by
  rw [lineText, textOf, withoutReturn, List.getLast?_reverse, List.dropLast_reverse]
  simp only [if_neg h]
  split <;> rfl

theorem lineText_cons (reversed : List UInt8) :
    lineText (10 :: reversed) = textOf reversed.reverse := by
  rw [textOf, withoutReturn, List.getLast?_reverse, List.dropLast_reverse, lineText]
  simp only [List.head?_cons, if_true, List.tail_cons]
  split <;> rfl

theorem pieces_of_not_mem {bytes : List UInt8} (h : 10 ∉ bytes) :
    Text.pieces (· == 10) bytes = [bytes] := by
  apply Text.pieces_of_not_separates
  intro b hb
  exact beq_eq_false_iff_ne.mpr fun hfeed => h (hfeed ▸ hb)

/-- Behind some bytes a reader has the last piece of them, and has given the lines of the others. -/
theorem feed_pieces (bytes pending : List UInt8) (hpending : 10 ∉ pending) :
    ∃ ended rest, Text.pieces (· == 10) (pending.reverse ++ bytes) = ended ++ [rest] ∧
      (⟨pending⟩ : LineReader).feed bytes = (⟨rest.reverse⟩, ended.map textOf) := by
  -- the bytes that are pending are the start of the piece that the reader is at
  induction bytes generalizing pending with
  | nil =>
    refine ⟨[], pending.reverse, ?_, ?_⟩
    · rw [List.append_nil, List.nil_append]
      apply pieces_of_not_mem
      simpa using hpending
    · rw [List.reverse_reverse]
      rfl
  | cons b bytes ih =>
    by_cases hb : b = 10
    · -- the piece ends, and the reader starts anew
      subst hb
      obtain ⟨ended, rest, hpieces, hfeed⟩ := ih [] (by simp)
      refine ⟨pending.reverse :: ended, rest, ?_, ?_⟩
      · rw [Text.pieces_append_cons _ _ _ rfl, pieces_of_not_mem (by simpa using hpending)]
        exact congrArg _ hpieces
      · rw [feed, step, if_pos rfl]
        simp only [fresh, hfeed, lineText_cons]
        rfl
    · have hmore : (10 : UInt8) ∉ b :: pending := by
        intro h
        rcases List.mem_cons.mp h with h | h
        · exact hb h.symm
        · exact hpending h
      obtain ⟨ended, rest, hpieces, hfeed⟩ := ih (b :: pending) hmore
      refine ⟨ended, rest, ?_, ?_⟩
      · rw [← hpieces, List.reverse_cons, List.append_assoc]
        rfl
      · rw [feed, step, if_neg hb]
        simp only [hfeed]
        rfl

/-- What is left at the end of a stream is a line unless it is empty. -/
theorem finish_of_not_mem {rest : List UInt8} (h : 10 ∉ rest) :
    finish ⟨rest.reverse⟩ = if rest = [] then none else some (textOf rest) := by
  have hhead : rest.reverse.head? ≠ some 10 := by
    rw [List.head?_reverse]
    intro hlast
    exact h (List.mem_of_getLast? hlast)
  have hline := lineText_of_head? hhead
  rw [List.reverse_reverse] at hline
  rw [finish, hline]
  simp only [List.isEmpty_iff, List.reverse_eq_nil_iff]

/-- What a reader gives for bytes that end a stream: the lines they complete, and what is left. -/
def readAll (r : LineReader) (bytes : List UInt8) : List (List Char) :=
  (r.feed bytes).2 ++ (r.feed bytes).1.finish.toList

theorem readAll_append (r : LineReader) (s t : List UInt8) :
    r.readAll (s ++ t) = (r.feed s).2 ++ (r.feed s).1.readAll t := by
  simp [readAll, feed_append]

/-- A reader gives the lines of its stream. -/
theorem readAll_fresh (bytes : List UInt8) : fresh.readAll bytes = linesOf bytes := by
  obtain ⟨ended, rest, hpieces, hfeed⟩ := feed_pieces bytes [] (by simp)
  rw [List.reverse_nil, List.nil_append] at hpieces
  have hrest : (10 : UInt8) ∉ rest := by
    intro h
    have hmem : rest ∈ Text.pieces (· == 10) bytes := by simp [hpieces]
    exact absurd (Text.not_separates_of_mem_pieces _ _ hmem 10 h) (by decide)
  rw [readAll, show fresh = ⟨[]⟩ from rfl, hfeed, finish_of_not_mem hrest, linesOf, segments,
    hpieces, List.getLast?_concat, List.dropLast_concat]
  by_cases hempty : rest = []
  · simp [hempty]
  · simp [hempty]

end LineReader

/-! ## The reader of a stream -/

/-- Whether a message is about an output stream. -/
def Message.isFrom (source : Source) : Message → Bool
  | .line s _ => s == source
  | .closed s => s == source
  | .writeFailed _ => false

/-- The text of a line. -/
def Message.line? : Message → Option (List Char)
  | .line _ text => some text.toList
  | _ => none

/-- Whether a happening is about an output stream. -/
def Host.Shell.Happening.isOn (source : Source) : Host.Shell.Happening → Bool
  | .printed s _ => s == source
  | .closed s => s == source
  | _ => false

/-- Lines as messages of a stream. -/
def Message.lines (source : Source) (lines : List (List Char)) : List Message :=
  lines.map fun line => .line source (String.ofList line)

namespace LineReader

/-- The reader of a stream after something has happened, and what it sends. -/
def hear (source : Source) (r : LineReader) :
    Host.Shell.Happening → LineReader × List Message
  | .printed s bytes =>
    if s = source then
      ((r.feed (Host.Bytes.words bytes)).1,
        Message.lines source (r.feed (Host.Bytes.words bytes)).2)
    else (r, [])
  | .closed s =>
    if s = source then (r, Message.lines source r.finish.toList ++ [.closed source]) else (r, [])
  | _ => (r, [])

/-- What the reader of a stream sends while several things happen. -/
def hearAll (source : Source) (r : LineReader) : List Host.Shell.Happening → List Message
  | [] => []
  | h :: hs => (r.hear source h).2 ++ (r.hear source h).1.hearAll source hs

/-- What happens elsewhere is nothing to a reader. -/
theorem hearAll_filter (source : Source) (hs : List Host.Shell.Happening) (r : LineReader) :
    r.hearAll source hs = r.hearAll source (hs.filter (·.isOn source)) := by
  induction hs generalizing r with
  | nil => rfl
  | cons h hs ih =>
    cases hon : h.isOn source with
    | true =>
      rw [List.filter_cons_of_pos hon, hearAll, hearAll, ← ih]
    | false =>
      have hquiet : r.hear source h = (r, []) := by
        cases h <;> simp_all [hear, Host.Shell.Happening.isOn]
      rw [List.filter_cons_of_neg (by simp [hon]), hearAll, hquiet, ih]
      rfl

/-- However its bytes are cut, the reader of a stream that ends sends their lines and the end. -/
theorem hearAll_chunks (source : Source) (chunks : List (List Char)) (r : LineReader) :
    r.hearAll source (chunks.map (.printed source) ++ [.closed source]) =
      Message.lines source (r.readAll (chunks.flatMap Host.Bytes.words)) ++ [.closed source] := by
  induction chunks generalizing r with
  | nil => simp [hearAll, hear, readAll, feed]
  | cons bytes chunks ih =>
    rw [List.flatMap_cons, readAll_append, List.map_cons, List.cons_append, hearAll, ih]
    simp [hear, Message.lines]

end LineReader

/-! ## What a session receives -/

/-- A session to which some messages have been sent, with the lines among them in its transcript. -/
structure Session.Receives (s : Session) (sent : List Message) (t : Session) : Prop where
  queue : t.streams.queue = s.streams.queue ++ sent
  transcript : t.transcript = (sent.filterMap Message.line?).foldl Transcript.push s.transcript
  sender : t.streams.senderGone = s.streams.senderGone

namespace Session

variable {s t u : Session} {sent more : List Message}

theorem Receives.refl (s : Session) : s.Receives [] s := ⟨by simp, rfl, rfl⟩

theorem Receives.trans (h : s.Receives sent t) (h' : t.Receives more u) :
    s.Receives (sent ++ more) u where
  queue := by rw [h'.queue, h.queue, List.append_assoc]
  transcript := by rw [h'.transcript, h.transcript, List.filterMap_append, List.foldl_append]
  sender := h'.sender.trans h.sender

/-- A message that is no line is only sent. -/
theorem receives_send (hopen : s.streams.senderGone = false) {m : Message} (hm : m.line? = none) :
    s.Receives [m] { s with streams := s.streams.send m } where
  queue := by simp [Streams.send, hopen]
  transcript := by simp [hm]
  sender := by simp [Streams.send, hopen]

theorem receives_print (hopen : s.streams.senderGone = false) (source : Source)
    (line : List Char) :
    s.Receives [.line source (String.ofList line)] (s.print source line) where
  queue := by simp [print, Streams.send, hopen]
  transcript := by simp [print, Message.line?]
  sender := by simp [print, Streams.send, hopen]

end Session

namespace Interpreter

theorem receives_printLines (source : Source) (lines : List (List Char)) (s : Session)
    (hopen : s.streams.senderGone = false) :
    s.Receives (Message.lines source lines) (printLines s source lines) := by
  induction lines generalizing s with
  | nil => exact .refl s
  | cons line lines ih =>
    have hline := Session.receives_print hopen source line
    exact hline.trans (ih (s.print source line) (hline.sender.trans hopen))

theorem receives_failWriter (i : Interpreter) (hopen : i.session.streams.senderGone = false) :
    i.session.Receives [.writeFailed brokenPipe] i.failWriter.session := by
  have hsent := Session.receives_send (m := .writeFailed brokenPipe) hopen rfl
  exact ⟨hsent.queue, hsent.transcript, hsent.sender⟩

theorem reader_setReader (i : Interpreter) (source : Source) (r : LineReader) (other : Source) :
    (i.setReader source r).reader other = if source = other then r else i.reader other := by
  cases source <;> cases other <;> rfl

theorem filter_lines (source other : Source) (lines : List (List Char)) :
    (Message.lines source lines).filter (Message.isFrom other) =
      if source = other then Message.lines source lines else [] := by
  split
  · next h =>
    apply List.filter_eq_self.mpr
    simp [Message.lines, Message.isFrom, h]
  · next h =>
    apply List.filter_eq_nil_iff.mpr
    simp [Message.lines, Message.isFrom, h]

/-- A happening reaches the session through the one reader that it concerns. -/
theorem passOn_receives (i : Interpreter) (h : Host.Shell.Happening)
    (hopen : i.session.streams.senderGone = false) :
    ∃ sent, i.session.Receives sent (i.passOn h).session ∧ ∀ source,
      ((i.passOn h).reader source, sent.filter (Message.isFrom source)) =
        (i.reader source).hear source h := by
  cases h with
  | printed s bytes =>
    obtain ⟨⟨r, lines⟩, hfeed⟩ :
        ∃ out, (i.reader s).feed (Host.Bytes.words bytes) = out := ⟨_, rfl⟩
    have hsession : (i.passOn (.printed s bytes)).session = printLines i.session s lines := by
      simp only [passOn, hfeed, session_setReader]
    have hreader : ∀ source, (i.passOn (.printed s bytes)).reader source =
        (i.setReader s r).reader source := by
      intro source
      rw [passOn, hfeed]
      cases source <;> rfl
    refine ⟨Message.lines s lines, ?_, ?_⟩
    · rw [hsession]
      exact receives_printLines s lines i.session hopen
    · -- the reader of this stream sends its lines, and the other one has not heard anything
      intro source
      rw [hreader, reader_setReader, filter_lines, LineReader.hear]
      split
      · next hsame =>
        subst hsame
        rw [hfeed]
      · rfl
  | closed s =>
    -- what is left of a line comes before the message that the stream has closed
    have hlines := receives_printLines s (i.reader s).finish.toList i.session hopen
    have hclosed := Session.receives_send (m := .closed s) (hlines.sender.trans hopen) rfl
    refine ⟨Message.lines s (i.reader s).finish.toList ++ [.closed s], hlines.trans hclosed, ?_⟩
    intro source
    have hreader : (i.passOn (.closed s)).reader source = i.reader source := by
      cases source <;> rfl
    rw [hreader, List.filter_append, filter_lines, LineReader.hear]
    split
    · next hsame => simp [hsame, Message.isFrom]
    · next hother => simp [hother, Message.isFrom]
  | inputClosed unread =>
    rw [passOn]
    split
    · exact ⟨_, receives_failWriter i hopen, fun source => by cases source <;> rfl⟩
    · exact ⟨[], .refl _, fun source => rfl⟩
  | ended status => exact ⟨[], .refl _, fun source => rfl⟩

/-- Of all that happens the session receives what the two readers send. -/
theorem foldl_passOn_receives (hs : List Host.Shell.Happening) (i : Interpreter)
    (hopen : i.session.streams.senderGone = false) :
    ∃ sent, i.session.Receives sent (hs.foldl passOn i).session ∧ ∀ source,
      sent.filter (Message.isFrom source) = (i.reader source).hearAll source hs := by
  induction hs generalizing i with
  | nil => exact ⟨[], .refl _, fun source => rfl⟩
  | cons h hs ih =>
    obtain ⟨sent, hreceives, hheard⟩ := passOn_receives i h hopen
    obtain ⟨more, hrest, hlater⟩ := ih (i.passOn h) (hreceives.sender.trans hopen)
    refine ⟨sent ++ more, hreceives.trans hrest, ?_⟩
    intro source
    rw [List.filter_append, hlater, LineReader.hearAll, ← hheard]

/-- The bytes of a stream come in pieces of any size, while anything happens elsewhere, and then the
stream closes. What is sent for it then are the lines of all the bytes, in their order, and behind
them that it has closed. The transcript has every line that is sent, in the same order. -/
theorem reader_relays (source : Source) (i : Interpreter) (hs : List Host.Shell.Happening)
    (chunks : List (List Char)) (hopen : i.session.streams.senderGone = false)
    (hfresh : i.reader source = .fresh)
    (hstream : hs.filter (·.isOn source) = chunks.map (.printed source) ++ [.closed source]) :
    ∃ sent, (hs.foldl passOn i).session.streams.queue = i.session.streams.queue ++ sent ∧
      (hs.foldl passOn i).session.transcript =
        (sent.filterMap Message.line?).foldl Transcript.push i.session.transcript ∧
      sent.filter (Message.isFrom source) =
        Message.lines source (LineReader.linesOf (chunks.flatMap Host.Bytes.words)) ++
          [.closed source] := by
  obtain ⟨sent, hreceives, hheard⟩ := foldl_passOn_receives hs i hopen
  refine ⟨sent, hreceives.queue, hreceives.transcript, ?_⟩
  rw [hheard, hfresh, LineReader.hearAll_filter, hstream, LineReader.hearAll_chunks,
    LineReader.readAll_fresh]

/-- An interpreter that has just started. -/
def started : Interpreter := ⟨Session.freshShell, default⟩

/-- Three lines in pieces, the last one without its end, while there is more on the other stream. -/
def piecemeal : List Host.Shell.Happening :=
  [.printed .stdout "one\nt".toList, .printed .stderr "warning\r\n".toList,
    .printed .stdout "wo\r\n".toList, .inputClosed 100000, .printed .stdout "three".toList,
    .closed .stdout, .printed .stderr "more".toList]

theorem reader_relays_piecemeal :
    started.session.streams.senderGone = false ∧ started.reader .stdout = .fresh ∧
      piecemeal.filter (·.isOn .stdout) =
        ["one\nt".toList, "wo\r\n".toList, "three".toList].map (.printed .stdout) ++
          [.closed .stdout] ∧
      ∃ sent, (piecemeal.foldl passOn started).session.streams.queue = sent ∧
        (piecemeal.foldl passOn started).session.transcript =
          (sent.filterMap Message.line?).foldl Transcript.push started.session.transcript ∧
        sent.filter (Message.isFrom .stdout) =
          [.line .stdout "one", .line .stdout "two", .line .stdout "three", .closed .stdout] := by
  have hopen : started.session.streams.senderGone = false := by rfl
  have hfresh : started.reader .stdout = .fresh := by rfl
  have hstream : piecemeal.filter (·.isOn .stdout) =
      ["one\nt".toList, "wo\r\n".toList, "three".toList].map (.printed .stdout) ++
        [.closed .stdout] := by
    decide
  obtain ⟨sent, hqueue, htranscript, hsent⟩ :=
    reader_relays .stdout started piecemeal _ hopen hfresh hstream
  refine ⟨hopen, hfresh, hstream, sent, hqueue, htranscript, hsent.trans ?_⟩
  decide

end Interpreter

end StepTrace

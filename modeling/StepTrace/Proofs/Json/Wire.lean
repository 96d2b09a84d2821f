import Mathlib.Data.List.Basic
import StepTrace.CommandLine
import StepTrace.LineEvent
import StepTrace.Submission
import StepTrace.Proofs.Json.Spelling

/-!
# Events on the wire

Events, chunks and submissions travel as JSON on one line. `read_written` says that nothing is lost
on the way: what is written for each of them reads back, fields that are left out included, two
events that a reader of chunks is told of are never written alike, and the lines of a run in JSON
are, one by one, the chunks of its events. Line numbers are machine words here, as they are wherever
they come from.
-/

set_option autoImplicit false

namespace StepTrace

namespace LineEvent

/-- Whether the line number of an event, if it has one, is a machine word. -/
def Fits (e : LineEvent) : Prop := ∀ line ∈ e.activeLine?, line < Text.wordBound

/-- The event that a text of JSON describes. -/
def read? (text : List Char) : Option LineEvent := (Json.parse? text).bind ofJson?

theorem isPlain_toJson (e : LineEvent) : e.toJson.isPlain = true := by
  cases e <;> rfl

/-- The JSON of an event describes it. -/
theorem ofJson?_toJson (e : LineEvent) (h : e.Fits) : ofJson? e.toJson = some e := by
  cases e with
  | activeLine line =>
    have hline : line < Text.wordBound := h line rfl
    simp [toJson, ofJson?, ofKind?, Json.fieldsOfObject?, Json.repeatsField, Json.member?,
      Json.symbol?, Json.word?, Json.natural?, Json.ofNat, hline]
  | endOfExecution => rfl
  | outputText text => rfl
  | discard => rfl
  | fault reason => rfl

end LineEvent

namespace Chunk

/-- Whether the line number of a chunk, if it has one, is a machine word. -/
def Fits (c : Chunk) : Prop := ∀ line ∈ c.activeLine, line < Text.wordBound

/-- The chunk that a text of JSON describes. -/
def read? (text : List Char) : Option Chunk := (Json.parse? text).bind ofJson?

theorem isPlain_toJson (c : Chunk) : c.toJson.isPlain = true := by
  rcases c with ⟨_ | line, _ | output, _ | error, done⟩ <;> rfl

/-- The fields of a chunk are found in its JSON, those that are left out as absent. -/
theorem fields?_toJson (c : Chunk) :
    c.toJson.fields? ["active_line", "output", "error", "done"] =
      some [c.activeLine.map .ofNat, c.output.map .string, c.error.map .string,
        some (.bool c.done)] := by
  rcases c with ⟨_ | line, _ | output, _ | error, done⟩ <;> rfl

/-- The JSON of a chunk describes it, whichever of its fields are left out. -/
theorem ofJson?_toJson (c : Chunk) (h : c.Fits) : ofJson? c.toJson = some c := by
  have hline : Json.absentOr? Json.word? (c.activeLine.map .ofNat) = some c.activeLine := by
    cases hc : c.activeLine with
    | none => rfl
    | some line =>
      simp [Json.absentOr?, Json.optional?, Json.word?, Json.natural?, Json.ofNat, h line hc]
  have htext (text : Option String) :
      Json.absentOr? Json.string? (text.map .string) = some text := by
    cases text <;> rfl
  rw [ofJson?, fields?_toJson]
  simp [hline, htext, Json.required?, Json.bool?]

end Chunk

namespace Submission

/-- The submission that a text of JSON describes. -/
def read? (text : List Char) : Option Submission := (Json.parse? text).bind ofJson?

theorem isPlain_toJson (s : Submission) : s.toJson.isPlain = true := rfl

/-- The JSON of a submission describes it. -/
theorem ofJson?_toJson (s : Submission) : ofJson? s.toJson = some s := by
  obtain ⟨language, code⟩ := s
  cases language <;> rfl

end Submission

/-! ### What is written and read again -/

theorem LineEvent.read?_compress (e : LineEvent) (h : e.Fits) :
    LineEvent.read? e.toJson.compress.toList = some e := by
  rw [read?, Json.compress, String.toList_ofList, Json.parse?_compact e.isPlain_toJson]
  exact ofJson?_toJson e h

theorem Chunk.read?_compress (c : Chunk) (h : c.Fits) :
    Chunk.read? c.toJson.compress.toList = some c := by
  rw [read?, Json.compress, String.toList_ofList, Json.parse?_compact c.isPlain_toJson]
  exact ofJson?_toJson c h

theorem Submission.read?_compress (s : Submission) :
    Submission.read? s.toJson.compress.toList = some s := by
  rw [read?, Json.compress, String.toList_ofList, Json.parse?_compact s.isPlain_toJson]
  exact ofJson?_toJson s

/-- An event that has a chunk is known from it. -/
theorem LineEvent.chunk?_injective {e e' : LineEvent} {c : Chunk} (h : e.chunk? = some c)
    (h' : e'.chunk? = some c) : e = e' := by
  cases e <;> cases e' <;> cases h <;> simp_all [chunk?]

theorem LineEvent.fits_of_chunk? {e : LineEvent} {c : Chunk} (h : e.chunk? = some c)
    (hfits : e.Fits) : c.Fits := by
  cases e with
  | activeLine line =>
    cases h
    exact hfits
  | endOfExecution =>
    cases h
    exact hfits
  | outputText text =>
    cases h
    exact hfits
  | discard => cases h
  | fault reason =>
    cases h
    exact hfits

/-- Events with chunks that are written alike are the same. -/
theorem LineEvent.eq_of_compress_eq {e e' : LineEvent} (h : e ≠ .discard) (he : e.Fits)
    (he' : e'.Fits)
    (heq : e.chunk?.map (fun c => c.toJson.compress) = e'.chunk?.map (fun c => c.toJson.compress)) :
    e = e' := by
  obtain ⟨c, hc⟩ : ∃ c, e.chunk? = some c := by
    cases e with
    | discard => exact absurd rfl h
    | activeLine line => exact ⟨_, rfl⟩
    | endOfExecution => exact ⟨_, rfl⟩
    | outputText text => exact ⟨_, rfl⟩
    | fault reason => exact ⟨_, rfl⟩
  obtain ⟨c', hc', hwritten⟩ : ∃ c', e'.chunk? = some c' ∧ c'.toJson.compress = c.toJson.compress :=
    Option.map_eq_some_iff.mp (by rw [← heq, hc, Option.map_some])
  have hread := c'.read?_compress (fits_of_chunk? hc' he')
  rw [hwritten, c.read?_compress (fits_of_chunk? hc he), Option.some.injEq] at hread
  subst hread
  exact chunk?_injective hc hc'

/-- The lines of a run in JSON are the chunks of its events. -/
theorem lines_jsonOutput (events : List LineEvent) :
    Text.lines (CommandLine.jsonOutput events).toList =
      (Chunk.ofEvents events).map fun c => c.toJson.compress.toList := by
  have hjoin : (CommandLine.jsonOutput events).toList =
      ((Chunk.ofEvents events).map fun c => c.toJson.compress.toList).flatMap (· ++ ['\n']) := by
    simp [CommandLine.jsonOutput, String.toList_join, List.flatMap_map, String.toList_append]
  rw [hjoin]
  refine Text.lines_ended _ fun l hl => ?_
  obtain ⟨c, -, rfl⟩ := List.mem_map.mp hl
  have honeLine : Json.IsOneLine c.toJson.compress.toList := by
    rw [Json.compress, String.toList_ofList]
    exact Json.isOneLine_compact _ c.isPlain_toJson
  exact ⟨fun hmem => absurd (honeLine _ hmem) (by decide),
    fun hmem => absurd (honeLine _ hmem) (by decide)⟩

/-- Nothing is lost on the wire: events, chunks and submissions read back from their JSON, an event
that has a chunk is known from what is written for it, and the lines of a run in JSON read as the
chunks of its events. -/
theorem read_written :
    (∀ e : LineEvent, e.Fits → LineEvent.read? e.toJson.compress.toList = some e) ∧
    (∀ c : Chunk, c.Fits → Chunk.read? c.toJson.compress.toList = some c) ∧
    (∀ s : Submission, Submission.read? s.toJson.compress.toList = some s) ∧
    (∀ e e' : LineEvent, e ≠ .discard → e' ≠ .discard → e.Fits → e'.Fits →
      e.chunk?.map (fun c => c.toJson.compress) = e'.chunk?.map (fun c => c.toJson.compress) →
        e = e') ∧
    (∀ events : List LineEvent, (∀ e ∈ events, e.Fits) →
      (Text.lines (CommandLine.jsonOutput events).toList).map Chunk.read? =
        (Chunk.ofEvents events).map some) := by
  refine ⟨LineEvent.read?_compress, Chunk.read?_compress, Submission.read?_compress,
    fun e e' he _ hfits hfits' heq => LineEvent.eq_of_compress_eq he hfits hfits' heq,
    fun events hfits => ?_⟩
  rw [lines_jsonOutput, List.map_map]
  refine List.map_congr_left fun c hc => ?_
  obtain ⟨e, he, hce⟩ := List.mem_filterMap.mp hc
  exact c.read?_compress (LineEvent.fits_of_chunk? hce (hfits e he))

/-- The largest line number, a text with quotes, backslashes, breaks and control characters, and a
chunk that only says that the turn is over. -/
theorem read_written_extremes :
    LineEvent.read? (LineEvent.activeLine (Text.wordBound - 1)).toJson.compress.toList =
      some (.activeLine (Text.wordBound - 1)) ∧
    LineEvent.read? (LineEvent.outputText "\"\\\r\n\t\x01é").toJson.compress.toList =
      some (.outputText "\"\\\r\n\t\x01é") ∧
    Chunk.read? (Chunk.mk none none none true).toJson.compress.toList =
      some ⟨none, none, none, true⟩ ∧
    (Text.lines (CommandLine.jsonOutput
        [.activeLine 1, .discard, .outputText "\r\n", .endOfExecution]).toList).map Chunk.read? =
      [some ⟨some 1, none, none, false⟩, some ⟨none, some "\r\n\n", none, false⟩,
        some ⟨none, none, none, true⟩] := by
  obtain ⟨hevents, hchunks, -, -, hlines⟩ := read_written
  refine ⟨hevents _ ?_, hevents _ ?_, hchunks _ ?_, hlines _ ?_⟩
  · simp [LineEvent.Fits, LineEvent.activeLine?, Text.wordBound]
  · simp [LineEvent.Fits, LineEvent.activeLine?]
  · simp [Chunk.Fits]
  · simp [LineEvent.Fits, LineEvent.activeLine?, Text.wordBound]

end StepTrace

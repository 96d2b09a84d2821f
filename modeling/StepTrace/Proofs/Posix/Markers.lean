import StepTrace.Proofs.Posix.State

/-!
# Markers do not move the scan

A marker is a command that prints within quotes, on a line of its own, put where a command may begin
(`consume_marker`). So the scan of a script with its markers goes through the states that the scan
of the script goes through (`foldl_markLines`).
-/

set_option autoImplicit false

namespace StepTrace.Posix

/-! ## The command that prints a marker -/

theorem not_mem_echo {c : Char} (hc : c ∉ "echo \x22#activ_ln".toList) (hdigit : c.isDigit = false)
    (n : Nat) : c ∉ echo (Marker.ofLine n) := by
  have hsigns : "echo \x22".toList ++ "#activ_eln".toList ++ ['\x22'] ⊆
      "echo \x22#activ_ln".toList := by decide
  intro hmem
  apply hc
  apply hsigns
  rw [echo_eq, List.mem_append, List.mem_append] at hmem
  rw [List.mem_append, List.mem_append]
  refine hmem.imp_left fun hmem => hmem.imp_right fun hmem => ?_
  rcases Marker.mem_ofLine hmem with hmem | hmem
  · exact hmem
  · exact absurd hmem (by simp [hdigit])

theorem trim_echo {indent : List Char} (hindent : Text.allBlank indent = true) (text : List Char) :
    Text.trim (indent ++ echo text) = echo text := by
  have hstart : Text.trimStart (indent ++ echo text) = echo text := by
    rw [Text.trimStart, List.dropWhile_append_of_pos fun c hc => List.all_eq_true.mp hindent c hc]
    rfl
  rw [Text.trim, hstart]
  refine Text.trimEnd_eq_self fun c hc => ?_
  rw [echo_eq, List.getLast?_concat] at hc
  cases hc
  decide

/-- A line without a closing parenthesis is no arm. -/
theorem isCaseArm_of_not_mem {trimmed : List Char} (h : ')' ∉ trimmed) :
    isCaseArm trimmed = false := by
  have hbegins : beginsPattern trimmed = false := by
    unfold beginsPattern
    dsimp only
    split
    · rfl
    · next c r hr =>
      have hnot : ')' ∉ r := by
        intro hmem
        have hin := (Text.trimStart_suffix _).subset (hr ▸ List.mem_cons_of_mem c hmem)
        split at hin
        · exact h (List.mem_cons_of_mem _ hin)
        · exact h hin
      rw [Bool.and_eq_false_iff]
      right
      rw [beq_eq_false_iff_ne]
      intro hhead
      exact hnot ((List.dropWhile_suffix _).subset (List.mem_of_head? hhead))
  rw [isCaseArm, hbegins, Bool.false_and]

theorem beforeComment_isPrefix (inSingle inDouble : Bool) (previous : Char) (s : List Char) :
    beforeComment inSingle inDouble previous s <+: s := by
  induction s generalizing inSingle inDouble previous with
  | nil => exact List.nil_prefix
  | cons c r ih =>
    rw [beforeComment]
    split
    · exact List.cons_prefix_cons.mpr ⟨rfl, ih _ _ _⟩
    · split
      · exact List.cons_prefix_cons.mpr ⟨rfl, ih _ _ _⟩
      · split
        · exact List.nil_prefix
        · exact List.cons_prefix_cons.mpr ⟨rfl, ih _ _ _⟩

/-- A line without the signs asks for no other. -/
theorem asksForMore_of_not_mem {code : List Char} (hpipe : '|' ∉ code) (hand : '&' ∉ code)
    (hparen : ')' ∉ code) : asksForMore code = false := by
  have hends : ∀ mark : List Char, (∃ c ∈ mark, c ∉ code) →
      mark.isSuffixOf (Text.trimEnd code) = false := by
    rintro mark ⟨c, hc, hnot⟩
    rw [Bool.eq_false_iff, ne_eq, List.isSuffixOf_iff_suffix]
    exact fun h => hnot ((Text.trimEnd_isPrefix code).subset (h.subset hc))
  simp only [asksForMore, hends "|".toList ⟨'|', by decide, hpipe⟩,
    hends "&&".toList ⟨'&', by decide, hand⟩, hends "()".toList ⟨')', by decide, hparen⟩,
    Bool.false_and, Bool.or_self]

theorem count_words_eq_zero {word code : List Char} (h : ∃ c ∈ word, c ∉ code) :
    (words code).count word = 0 := by
  obtain ⟨c, hc, hnot⟩ := h
  refine List.count_eq_zero.mpr fun hmem => hnot ?_
  exact (Text.infix_of_mem_pieces _ code hmem).subset hc

namespace LineScan

/-- Characters without effect are passed one after the other. -/
theorem run_of_past {s : LineScan} {passed : List Char}
    (h : ∀ c ∈ passed, ∀ p next, (s.past p).step c next = s.past c) (rest : List Char) (p : Char) :
    ∃ q, (s.past p).run (passed ++ rest) = (s.past q).run rest := by
  induction passed generalizing p with
  | nil => exact ⟨p, rfl⟩
  | cons c passed ih =>
    obtain ⟨q, hq⟩ := ih (fun d hd => h d (List.mem_cons_of_mem c hd)) c
    refine ⟨q, ?_⟩
    rw [List.cons_append, run, h c List.mem_cons_self, hq]

/-- The signs that mean something to the scan outside quotes. -/
def bareSigns : List Char := ['\\', '\x27', '\x22', '#', '(', ')', '<']

theorem not_mem_bareSigns_of_isBlank {c : Char} (hc : Text.isBlank c = true) :
    c ∉ bareSigns := by
  have hsigns : bareSigns.all (fun d => !Text.isBlank d) = true := by decide
  intro hmem
  have hnot := List.all_eq_true.mp hsigns c hmem
  rw [hc] at hnot
  cases hnot

theorem step_past_of_bare {c : Char} (hc : c ∉ bareSigns) (parens : Nat)
    (heredocs : List Delimiter) (p : Char) (next : List Char) :
    ((start .bare parens heredocs).past p).step c next = (start .bare parens heredocs).past c := by
  have hne : c ≠ '\\' ∧ c ≠ '\x27' ∧ c ≠ '\x22' ∧ c ≠ '#' ∧ c ≠ '(' ∧ c ≠ ')' ∧ c ≠ '<' := by
    simpa [bareSigns] using hc
  simp [step, stepQuoted, stepBare, start, past, hne]

/-- Text without signs is passed outside quotes, at any depth of parentheses. -/
theorem run_of_plain {passed : List Char} (h : ∀ c ∈ passed, c ∉ bareSigns) (parens : Nat)
    (heredocs : List Delimiter) (rest : List Char) (p : Char) :
    ∃ q, ((start .bare parens heredocs).past p).run (passed ++ rest) =
      ((start .bare parens heredocs).past q).run rest :=
  run_of_past (fun c hc => step_past_of_bare (h c hc) parens heredocs) rest p

/-- Within double quotes a character without effect is any but the quote and the backslash. -/
theorem step_past_of_double {c : Char} (hc : c ≠ '\x22' ∧ c ≠ '\\') (parens : Nat)
    (heredocs : List Delimiter) (p : Char) (next : List Char) :
    ((start .double parens heredocs).past p).step c next =
      (start .double parens heredocs).past c := by
  simp [step, stepQuoted, start, past, hc]

/-- The text that a command prints stands within quotes. -/
theorem run_echo {indent text : List Char} (hindent : Text.allBlank indent = true)
    (htext : ∀ c ∈ text, c ≠ '\x22' ∧ c ≠ '\\') (parens : Nat) (heredocs : List Delimiter) :
    (start .bare parens heredocs).run (indent ++ echo text) =
      (start .bare parens heredocs).past '\x22' := by
  have hword : "echo ".toList.all (fun c => decide (c ∉ bareSigns)) = true := by decide
  have hbare : ∀ c ∈ indent ++ "echo ".toList, c ∉ bareSigns := by
    intro c hc
    rcases List.mem_append.mp hc with hc | hc
    · exact not_mem_bareSigns_of_isBlank (List.all_eq_true.mp hindent c hc)
    · exact of_decide_eq_true (List.all_eq_true.mp hword c hc)
  obtain ⟨p, hp⟩ := run_of_plain hbare parens heredocs ('\x22' :: (text ++ ['\x22'])) ' '
  obtain ⟨q, hq⟩ := run_of_past
    (fun c hc => step_past_of_double (htext c hc) parens heredocs) ['\x22'] '\x22'
  have hparts : indent ++ echo text = indent ++ "echo ".toList ++ '\x22' :: (text ++ ['\x22']) := by
    simp [echo_eq]
  have hopen : ((start .bare parens heredocs).past p).step '\x22' (text ++ ['\x22']) =
      (start .double parens heredocs).past '\x22' := by
    simp [step, stepQuoted, stepBare, start, past]
  have hclose : ((start .double parens heredocs).past q).step '\x22' [] =
      (start .bare parens heredocs).past '\x22' := by
    simp [step, stepQuoted, start, past]
  calc (start .bare parens heredocs).run (indent ++ echo text)
      = ((start .bare parens heredocs).past p).run ('\x22' :: (text ++ ['\x22'])) := hparts ▸ hp
    _ = ((start .double parens heredocs).past '\x22').run (text ++ ['\x22']) := by
        rw [run, hopen]
    _ = ((start .double parens heredocs).past q).run ['\x22'] := hq
    _ = (start .bare parens heredocs).past '\x22' := by
        rw [run, hclose, run]
        rfl

end LineScan

/-! ## Lines that open and close nothing -/

/-- A line of code that the scan passes, met outside quotes, without a change to what is open. -/
structure IsQuiet (line : List Char) : Prop where
  idle : isIdle (Text.trim line) = false
  arm : isCaseArm (Text.trim line) = false
  word : (firstWord (Text.trim line) == "case".toList) = false
  scan : ∀ parens heredocs, ∃ q, (LineScan.start .bare parens heredocs).run line =
    (LineScan.start .bare parens heredocs).past q
  more : asksForMore (stripComment line) = false
  esac : (words (stripComment line)).count "esac".toList = 0

theorem allBlank_indentation (line : List Char) : Text.allBlank (indentation line) = true :=
  List.all_takeWhile

theorem isQuiet_marker (line : List Char) (n : Nat) :
    IsQuiet (indentation line ++ echo (Marker.ofLine n)) := by
  have hindent := allBlank_indentation line
  have htrim := trim_echo hindent (Marker.ofLine n)
  -- the signs that mean something to the scan are no part of a marker
  have hfree : ∀ c : Char, Text.isBlank c = false → c ∉ "echo \x22#activ_ln".toList →
      c.isDigit = false → c ∉ stripComment (indentation line ++ echo (Marker.ofLine n)) := by
    intro c hblank hc hdigit hcode
    have hmem := (beforeComment_isPrefix false false ' '
      (indentation line ++ echo (Marker.ofLine n))).subset hcode
    rcases List.mem_append.mp hmem with hmem | hmem
    · exact absurd (List.all_eq_true.mp hindent c hmem) (by simp [hblank])
    · exact not_mem_echo hc hdigit n hmem
  constructor
  · rw [htrim]
    rfl
  · rw [htrim]
    exact isCaseArm_of_not_mem (not_mem_echo (by decide) (by decide) n)
  · rw [htrim]
    rfl
  · intro parens heredocs
    refine ⟨'\x22', LineScan.run_echo hindent (fun c hc => ?_) parens heredocs⟩
    constructor <;> rintro rfl <;> exact absurd (Marker.mem_ofLine hc) (by decide)
  · apply asksForMore_of_not_mem
    · exact hfree '|' (by decide) (by decide) (by decide)
    · exact hfree '&' (by decide) (by decide) (by decide)
    · exact hfree ')' (by decide) (by decide) (by decide)
  · apply count_words_eq_zero
    exact ⟨'s', by decide, hfree 's' (by decide) (by decide) (by decide)⟩

namespace ScriptState

variable {s : ScriptState}

/-- A line outside quotes that opens nothing: it moves the count of `case` blocks and says whether
it goes on. -/
theorem consume_of_past (hs : s.IsSound) (hquoting : s.quoting = .bare)
    (hin : s.inHeredoc = false) {line : List Char} {q : Char}
    (hidle : isIdle (Text.trim line) = false) (harm : isCaseArm (Text.trim line) = false)
    (hrun : (LineScan.start .bare s.parens s.heredocs).run line =
      (LineScan.start .bare s.parens s.heredocs).past q) :
    s.consume line =
      { s with
        cases := (if firstWord (Text.trim line) == "case".toList then s.cases + 1 else s.cases) -
          (words (stripComment line)).count "esac".toList
        continued := asksForMore (stripComment line) } := by
  have hscanned : s.scanned line = line := by
    rw [scanned, readsArm, harm, Bool.and_false]
    rfl
  have hpass : s.consume line = s.passCode line := by
    rw [consume, hin, hidle, Bool.and_false]
    rfl
  have hscan : s.scan line = (LineScan.start .bare s.parens s.heredocs).past q := by
    rw [scan, hscanned, hquoting, hrun]
  have hopen : (s.quoting == .bare && !s.heredocs.isEmpty) = s.inHeredoc := hs.inHeredoc.symm
  rw [hquoting] at hopen
  rw [hpass, passCode_eq, hscan, hscanned]
  simp only [LineScan.past, LineScan.start, hopen, Bool.false_or, hquoting]
  rfl

/-- Where nothing is open, a quiet line only ends a line that went on. -/
theorem consume_of_isQuiet (hs : s.IsSound) (hquoting : s.quoting = .bare)
    (hheredocs : s.heredocs = []) {line : List Char} (h : IsQuiet line) :
    s.consume line = { s with continued := false } := by
  obtain ⟨q, hrun⟩ := h.scan s.parens s.heredocs
  rw [consume_of_past hs hquoting (hs.inHeredoc_eq_false hheredocs) h.idle h.arm hrun, h.word,
    h.more, h.esac]
  rfl

theorem IsReady.heredocs (h : s.IsReady) (hs : s.IsSound) : s.heredocs = [] := by
  have hnone := hs.inHeredoc
  rw [h.inHeredoc, h.quoting] at hnone
  simpa using hnone

/-- A marker does not move the state that a line behind it is met in. -/
theorem consume_marker (hs : s.IsSound) {line : List Char} (h : s.startsCommand line = true)
    (n : Nat) : s.consume (indentation line ++ echo (Marker.ofLine n)) = s := by
  obtain ⟨hready, -⟩ := (startsCommand_iff s line).mp h
  rw [consume_of_isQuiet hs hready.quoting (hready.heredocs hs) (isQuiet_marker line n),
    ← hready.continued]

/-- Nor do all the markers of a script. -/
theorem foldl_markLines (hs : s.IsSound) (number : Nat) (lines : List (List Char)) :
    (markLines s number lines).foldl consume s = lines.foldl consume s := by
  induction lines generalizing s number with
  | nil => rfl
  | cons line rest ih =>
    have hrest := ih (hs.consume line) (number + 1)
    rw [markLines]
    split
    · next h => rw [List.foldl_cons, consume_marker hs h, List.foldl_cons, List.foldl_cons, hrest]
    · rw [List.foldl_cons, List.foldl_cons, hrest]

end ScriptState

end StepTrace.Posix

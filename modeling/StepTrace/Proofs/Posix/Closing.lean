import StepTrace.Adapter
import StepTrace.Proofs.Posix.Markers

/-!
# How a group of commands ends

A script is run as a group: an opening brace, the script with its markers, a closing brace, and
behind it the command that prints the end marker. The scan stands at the closing brace where it
stood at the end of the script (`foldl_group`), so what the script has left open there takes the
closing brace and the end marker in. `group_closes_iff` says when the end marker is read as a
command, and when the script has left nothing open; `isClosed_iff_of_isPlain` says the latter by the
quotes of the script alone.
-/

set_option autoImplicit false

namespace StepTrace.Posix

/-! ## The group -/

/-- The lines of a script with its markers. -/
def markedLines (code : List Char) : List (List Char) := markLines .start 1 (Text.splitLines code)

/-- The line that ends a group. -/
def closingLine : List Char := "\x7d 2>&1".toList

/-- The lines of the group that a script is run as. -/
def groupLines (code : List Char) : List (List Char) :=
  "\x7b".toList :: markedLines code ++ [closingLine]

theorem mem_of_mem_markLines {s : ScriptState} {number : Nat} {lines : List (List Char)}
    {l : List Char} (h : l ∈ markLines s number lines) : l ∈ lines ∨
      ∃ line ∈ lines, ∃ n, l = indentation line ++ echo (Marker.ofLine n) ∧
        isIdle (Text.trim line) = false := by
  induction lines generalizing s number with
  | nil => cases h
  | cons line rest ih =>
    have hafter : l ∈ line :: markLines (s.consume line) (number + 1) rest →
        l ∈ line :: rest ∨ ∃ m ∈ line :: rest, ∃ n,
          l = indentation m ++ echo (Marker.ofLine n) ∧ isIdle (Text.trim m) = false := by
      intro h
      rcases List.mem_cons.mp h with rfl | h
      · exact .inl List.mem_cons_self
      · rcases ih h with h | ⟨m, hm, n, hn⟩
        · exact .inl (List.mem_cons_of_mem line h)
        · exact .inr ⟨m, List.mem_cons_of_mem line hm, n, hn⟩
    rw [markLines] at h
    split at h
    · next hstarts =>
      rcases List.mem_cons.mp h with rfl | h
      · have hidle := ScriptState.isIdle_of_mayBegin
          ((ScriptState.startsCommand_iff s line).mp hstarts).2
        exact .inr ⟨line, List.mem_cons_self, number, rfl, hidle⟩
      · exact hafter h
    · exact hafter h

theorem subset_markLines (s : ScriptState) (number : Nat) (lines : List (List Char)) :
    lines ⊆ markLines s number lines := by
  induction lines generalizing s number with
  | nil => exact List.nil_subset _
  | cons line rest ih =>
    rw [markLines]
    have hafter := List.cons_subset_cons line (ih (s.consume line) (number + 1))
    split
    · exact List.Subset.trans hafter (List.subset_cons_self _ _)
    · exact hafter

/-- The group holds a command or a clause exactly if the script does. -/
theorem exists_not_isIdle_markedLines (code : List Char) :
    (∃ line ∈ markedLines code, isIdle (Text.trim line) = false) ↔
      ∃ line ∈ Text.splitLines code, isIdle (Text.trim line) = false := by
  constructor
  · rintro ⟨l, hl, hidle⟩
    rcases mem_of_mem_markLines hl with hl | ⟨line, hline, -, -, hidle⟩
    · exact ⟨l, hl, hidle⟩
    · exact ⟨line, hline, hidle⟩
  · rintro ⟨line, hline, hidle⟩
    exact ⟨line, subset_markLines _ _ _ hline, hidle⟩

theorem newline_not_mem_of_mem_markedLines {code l : List Char} (hl : l ∈ markedLines code) :
    '\n' ∉ l := by
  rcases mem_of_mem_markLines hl with hl | ⟨line, hline, n, rfl, -⟩
  · exact Text.newline_not_mem_of_mem_splitLines hl
  · intro hmem
    rcases List.mem_append.mp hmem with hmem | hmem
    · exact Text.newline_not_mem_of_mem_splitLines hline
        ((List.takeWhile_prefix _).subset hmem)
    · exact not_mem_echo (by decide) (by decide) n hmem

/-- What a shell is fed are the lines of the group, a blank one and the end marker. -/
theorem preprocess_accepted (language : Language) (launch : LaunchCommand) (code : List Char) :
    (Adapter.posix language launch).preprocess .accepted code =
      .ok (Text.joinLines (groupLines code ++ [[], endStatement])) := by
  have hmarked : markedLines code ≠ [] := by
    obtain ⟨l, ls, hl⟩ := List.exists_cons_of_ne_nil (Text.splitLines_ne_nil code)
    exact List.ne_nil_of_mem (subset_markLines .start 1 _ (hl ▸ List.mem_cons_self))
  have hwrap : Text.joinLines (groupLines code ++ [[], endStatement]) =
      wrap (instrument code) ++ '\n' :: '\n' :: endStatement := by
    have htail : Text.joinLines ([closingLine] ++ [[], endStatement]) =
        closingLine ++ '\n' :: '\n' :: endStatement := rfl
    have hclose : "\n\x7d 2>&1".toList = '\n' :: closingLine := rfl
    rw [groupLines, List.cons_append, List.cons_append, Text.joinLines_cons _ _ (by simp),
      List.append_assoc, Text.joinLines_append _ _ hmarked (by simp), htail, wrap, instrument,
      hclose, markedLines]
    simp
  have hlast : (wrap (instrument code)).getLast? ≠ some '\n' := by
    have hbrace : "\n\x7d 2>&1".toList.getLast? = some '1' := by decide
    rw [wrap, List.getLast?_append, hbrace]
    simp
  have hfed : (Adapter.posix language launch).preprocess .accepted code =
      .ok (Adapter.dropFinalBreaks (wrap (instrument code)) ++ '\n' :: '\n' :: endStatement) := rfl
  rw [hfed, Adapter.dropFinalBreaks_eq_self hlast, hwrap]

/-! ## What follows the script -/

/-- A line that ends no here-document, whether its tabs are passed over or not. -/
structure IsNoWord (line : List Char) : Prop where
  whole : ¬IsWord line
  stripped : ¬IsWord (line.dropWhile (· == '\t'))

theorem isNoWord_closingLine : IsNoWord closingLine := by
  have hblank : ¬IsWord closingLine := fun h => absurd (h.2 ' ' (by decide)) (by decide)
  exact ⟨hblank, hblank⟩

theorem isNoWord_nil : IsNoWord [] := ⟨fun h => h.1 rfl, fun h => h.1 rfl⟩

theorem isQuiet_closingLine : IsQuiet closingLine := by
  have hplain : closingLine.all (fun c => decide (c ∉ LineScan.bareSigns)) = true := by decide
  refine ⟨by decide, by decide, by decide, fun parens heredocs => ?_, by decide, by decide⟩
  obtain ⟨q, hq⟩ := LineScan.run_of_plain
    (fun c hc => of_decide_eq_true (List.all_eq_true.mp hplain c hc)) parens heredocs [] ' '
  rw [List.append_nil] at hq
  exact ⟨q, hq⟩

namespace ScriptState

variable {s : ScriptState}

/-- A here-document goes on behind a line that is no word. -/
theorem consume_of_heredoc (hs : s.IsSound) (h : s.inHeredoc = true) {line : List Char}
    (hline : IsNoWord line) : s.consume line = s := by
  rw [consume, if_pos h, passHeredoc]
  split
  · rfl
  · next d rest hd =>
    have hword : IsWord d.word := hs.words d (hd ▸ List.mem_cons_self)
    refine if_neg fun heq => ?_
    split at heq
    · exact hline.stripped (heq ▸ hword)
    · exact hline.whole (heq ▸ hword)

/-- Quotes stay open over a line without quotes and backslashes. -/
theorem quoting_consume_of_open (hs : s.IsSound) (hopen : s.quoting ≠ .bare) {line : List Char}
    (hline : ∀ c ∈ line, c ≠ '\x27' ∧ c ≠ '\x22' ∧ c ≠ '\\') :
    (s.consume line).quoting = s.quoting := by
  have hquoted : (s.quoting == .bare) = false := beq_eq_false_iff_ne.mpr hopen
  have hin : s.inHeredoc = false := by rw [hs.inHeredoc, hquoted, Bool.false_and]
  have hscanned : s.scanned line = line := by
    rw [scanned, readsArm, hquoted]
    rfl
  -- only the quote that is open, or a backslash, is more than text here
  have hstep : ∀ c ∈ line, ∀ p next,
      ((LineScan.start s.quoting s.parens s.heredocs).past p).step c next =
        (LineScan.start s.quoting s.parens s.heredocs).past c := by
    intro c hc p next
    obtain ⟨hsingle, hdouble, hescape⟩ := hline c hc
    cases hq : s.quoting with
    | bare => exact absurd hq hopen
    | single => simp [LineScan.step, LineScan.stepQuoted, LineScan.start, LineScan.past, hsingle]
    | double => exact LineScan.step_past_of_double ⟨hdouble, hescape⟩ s.parens s.heredocs p next
  obtain ⟨q, hq⟩ := LineScan.run_of_past hstep [] ' '
  rw [List.append_nil] at hq
  have hscan : s.scan line = (LineScan.start s.quoting s.parens s.heredocs).past q := by
    rw [scan, hscanned]
    exact hq
  rw [consume, hin, hquoted, Bool.false_and, if_neg Bool.false_ne_true, if_neg Bool.false_ne_true,
    passCode_eq, hscan]
  rfl

theorem consume_nil_of_bare (hquoting : s.quoting = .bare) (hin : s.inHeredoc = false) :
    s.consume [] = s := by
  rw [consume, hin, hquoting]
  rfl

/-- Behind the closing line and a blank one a command may begin exactly if nothing was open. -/
theorem isReady_behind_iff (hs : s.IsSound) :
    ((s.consume closingLine).consume []).IsReady ↔
      s.quoting = .bare ∧ s.heredocs = [] ∧ s.parens = 0 := by
  by_cases hquoting : s.quoting = .bare
  · by_cases hheredocs : s.heredocs = []
    · have hin := hs.inHeredoc_eq_false hheredocs
      have hnil : { s with continued := false }.consume [] = { s with continued := false } :=
        consume_nil_of_bare hquoting hin
      rw [consume_of_isQuiet hs hquoting hheredocs isQuiet_closingLine, hnil]
      exact ⟨fun h => ⟨hquoting, hheredocs, h.parens⟩, fun h => ⟨hin, hquoting, rfl, h.2.2⟩⟩
    · -- the here-document takes both lines in
      have hin : s.inHeredoc = true := by
        rw [hs.inHeredoc, hquoting]
        simpa using hheredocs
      rw [consume_of_heredoc hs hin isNoWord_closingLine, consume_of_heredoc hs hin isNoWord_nil]
      refine iff_of_false (fun h => ?_) fun h => hheredocs h.2.1
      rw [h.inHeredoc] at hin
      cases hin
  · -- the quotes take both lines in
    have hplain : closingLine.all
        (fun c => decide (c ≠ '\x27' ∧ c ≠ '\x22' ∧ c ≠ '\\')) = true := by decide
    have hbrace : (s.consume closingLine).quoting = s.quoting :=
      quoting_consume_of_open hs hquoting fun c hc =>
        of_decide_eq_true (List.all_eq_true.mp hplain c hc)
    have hnil : ((s.consume closingLine).consume []).quoting = (s.consume closingLine).quoting :=
      quoting_consume_of_open (hs.consume closingLine) (hbrace ▸ hquoting) (by simp)
    refine iff_of_false (fun h => hquoting ?_) fun h => hquoting h.1
    rw [← hbrace, ← hnil]
    exact h.quoting

/-- Whether a line ends in a backslash that escapes the line feed behind it. -/
def escapes (s : ScriptState) (line : List Char) : Bool :=
  !s.inHeredoc && !(s.quoting == .bare && isIdle (Text.trim line)) && (s.scan line).escaped

theorem continued_of_escapes {line : List Char} (h : s.escapes line = true) :
    (s.consume line).continued = true := by
  rw [escapes, Bool.and_eq_true, Bool.and_eq_true, Bool.not_eq_true', Bool.not_eq_true'] at h
  obtain ⟨⟨hin, hidle⟩, hescaped⟩ := h
  rw [consume, hin, hidle, if_neg Bool.false_ne_true, if_neg Bool.false_ne_true, passCode_eq,
    hescaped, Bool.true_or]

end ScriptState

/-- Some lines leave nothing open: no quotes, no here-document, and no escaped line feed. -/
structure IsClosed (lines : List (List Char)) : Prop where
  quoting : (lines.foldl ScriptState.consume .start).quoting = .bare
  heredocs : (lines.foldl ScriptState.consume .start).heredocs = []
  last : ∀ before line, lines = before ++ [line] →
    (before.foldl ScriptState.consume .start).escapes line = false

/-- A marker is put before a further command exactly if nothing is open and neither a parenthesis
nor an operator asks for more. -/
theorem isMarked_iff_isClosed (lines : List (List Char)) :
    isMarked lines ":".toList = true ↔ IsClosed lines ∧
      (lines.foldl ScriptState.consume .start).parens = 0 ∧
      (lines.foldl ScriptState.consume .start).continued = false := by
  have hsound := ScriptState.isSound_start.foldl lines
  have hbegins : ∀ cases, ScriptState.mayBegin cases (Text.trim ":".toList) = true :=
    ScriptState.mayBegin_of_not_arm (by decide) (by decide)
  rw [isMarked, ScriptState.startsCommand_iff, and_iff_left (hbegins _)]
  constructor
  · intro h
    refine ⟨⟨h.quoting, h.heredocs hsound, fun before line hlines => ?_⟩, h.parens, h.continued⟩
    rw [Bool.eq_false_iff]
    intro hescapes
    have hcontinued := h.continued
    rw [hlines, List.foldl_concat, ScriptState.continued_of_escapes hescapes] at hcontinued
    cases hcontinued
  · rintro ⟨hclosed, hparens, hcontinued⟩
    exact ⟨hsound.inHeredoc_eq_false hclosed.heredocs, hclosed.quoting, hcontinued, hparens⟩

/-- A plain script leaves nothing open exactly if its quotes pair up, unless a pattern in it holds
a part of a string. -/
theorem isClosed_iff_of_isPlain {code : List Char} (hp : IsPlain code)
    (hpatterns : ∀ line ∈ Text.splitLines code, isCaseArm (Text.trim line) = true →
      Quoting.through .bare (patternOf line) = .bare) :
    IsClosed (Text.splitLines code) ↔ Quoting.through .bare code = .bare := by
  have hlines : ∀ line ∈ Text.splitLines code, IsPlain line := fun line hline =>
    hp.of_infix (Text.infix_of_mem_splitLines hline)
  have htrue := Track.isTrue_after _ hlines
  have hstate : (Track.after (Text.splitLines code)).state =
      (Text.splitLines code).foldl ScriptState.consume .start := Track.state_foldl _ _
  have hplain : (Track.after (Text.splitLines code)).plain = Quoting.through .bare code := by
    have hcode := Text.joinLines_append_cons (Text.splitLines code) [] []
    rw [Text.joinLines_append _ _ (Text.splitLines_ne_nil code) (by simp),
      Text.joinLines_splitLines, Text.joinLines, List.append_nil] at hcode
    rw [Track.after, Track.plain_foldl, ← hcode, Quoting.through_append, Quoting.through_cons,
      Quoting.after_of_not_quote _ _ (by decide) (by decide)]
    rfl
  have hquoting := htrue.tracked_iff.mpr (Track.pattern_after_of_closed _ hlines hpatterns)
  have hdry := htrue.dry
  rw [hstate] at hdry hquoting
  rw [hplain] at hquoting
  refine ⟨fun h => hquoting ▸ h.quoting, fun h => ⟨hquoting.trans h, hdry.heredocs, ?_⟩⟩
  intro before line hsplit
  have hline := hlines line (hsplit ▸ List.mem_append_right _ List.mem_cons_self)
  -- a line without a backslash escapes nothing
  have hfree : ((before.foldl ScriptState.consume .start).scan line).IsFree :=
    LineScan.isFree_run _ _ (LineScan.isFree_start _ _ _) (ScriptState.isPlain_scanned _ hline)
  rw [ScriptState.escapes, hfree.escaped, Bool.and_false]

/-- The scan of what a shell is fed stands at the closing line where it stands at the end of the
script. -/
theorem foldl_group (code : List Char) :
    ("\x7b".toList :: markedLines code).foldl ScriptState.consume .start =
      (Text.splitLines code).foldl ScriptState.consume .start := by
  have hopen : ScriptState.start.consume "\x7b".toList = .start := by decide +kernel
  rw [List.foldl_cons, hopen, markedLines, ScriptState.foldl_markLines ScriptState.isSound_start]

/-- The end marker is read as a command exactly if the script leaves neither quotes nor
here-documents nor parentheses open. -/
theorem isMarked_endStatement_iff (code : List Char) :
    isMarked (groupLines code ++ [[]]) endStatement = true ↔
      ((Text.splitLines code).foldl ScriptState.consume .start).quoting = .bare ∧
      ((Text.splitLines code).foldl ScriptState.consume .start).heredocs = [] ∧
      ((Text.splitLines code).foldl ScriptState.consume .start).parens = 0 := by
  have hbegins : ∀ cases, ScriptState.mayBegin cases (Text.trim endStatement) = true :=
    ScriptState.mayBegin_of_not_arm (by decide) (by decide)
  rw [isMarked, ScriptState.startsCommand_iff, and_iff_left (hbegins _), groupLines,
    List.append_assoc, List.foldl_append, foldl_group]
  exact ScriptState.isReady_behind_iff (ScriptState.isSound_start.foldl _)

/-- What is fed for a script that passed the check: the lines of a group, in which a command or
clause stands exactly if one stands in the script; a blank line; and the end marker. No marker moves
the scan, so a command could follow in the group exactly where one could follow the script, which
has nothing open then, and the end marker is a command exactly if no quotes, here-document or
parentheses are open. -/
theorem group_closes_iff {language : Language} {launch : LaunchCommand} {verdict : Verdict}
    {code fed : List Char}
    (h : (Adapter.posix language launch).preprocess verdict code = .ok fed) :
    Text.splitLines fed = groupLines code ++ [[], endStatement] ∧
    ((∃ line ∈ markedLines code, isIdle (Text.trim line) = false) ↔
      ∃ line ∈ Text.splitLines code, isIdle (Text.trim line) = false) ∧
    ("\x7b".toList :: markedLines code).foldl ScriptState.consume .start =
      (Text.splitLines code).foldl ScriptState.consume .start ∧
    (isMarked (Text.splitLines code) ":".toList = true ↔ IsClosed (Text.splitLines code) ∧
      ((Text.splitLines code).foldl ScriptState.consume .start).parens = 0 ∧
      ((Text.splitLines code).foldl ScriptState.consume .start).continued = false) ∧
    (isMarked (groupLines code ++ [[]]) endStatement = true ↔
      ((Text.splitLines code).foldl ScriptState.consume .start).quoting = .bare ∧
      ((Text.splitLines code).foldl ScriptState.consume .start).heredocs = [] ∧
      ((Text.splitLines code).foldl ScriptState.consume .start).parens = 0) := by
  have hfed : fed = Text.joinLines (groupLines code ++ [[], endStatement]) := by
    cases verdict with
    | accepted =>
      rw [preprocess_accepted] at h
      exact (Except.ok.inj h).symm
    | refused report => cases h
  have hlines : ∀ l ∈ groupLines code ++ [[], endStatement], Text.splitLines l = [l] := by
    intro l hl
    refine Text.splitLines_of_not_mem ?_
    rw [groupLines, List.mem_append, List.mem_append, List.mem_cons, List.mem_singleton] at hl
    rcases hl with ((rfl | hl) | rfl) | hl
    · decide
    · exact newline_not_mem_of_mem_markedLines hl
    · decide
    · revert l
      decide
  refine ⟨?_, exists_not_isIdle_markedLines code, foldl_group code, isMarked_iff_isClosed _,
    isMarked_endStatement_iff code⟩
  rw [hfed, Text.splitLines_joinLines _ (by simp), List.flatMap_congr hlines]
  simp

/-- A script with a here-document and a string, both of which end. -/
def endedScript : List Char := "cat <<A\nit's\nA\necho 'x\ny'".toList

theorem group_closes_endedScript :
    (Adapter.posix .shell ⟨"/bin/sh", []⟩).preprocess .accepted endedScript =
      .ok (Text.joinLines (groupLines endedScript ++ [[], endStatement])) ∧
    (∃ line ∈ markedLines endedScript, isIdle (Text.trim line) = false) ∧
    IsClosed (Text.splitLines endedScript) ∧
    isMarked (groupLines endedScript ++ [[]]) endStatement = true := by
  have hfed := preprocess_accepted .shell ⟨"/bin/sh", []⟩ endedScript
  obtain ⟨-, hcommand, -, hclosed, hend⟩ := group_closes_iff hfed
  have hready : isMarked (Text.splitLines endedScript) ":".toList = true := by decide +kernel
  obtain ⟨hclosed, hparens, -⟩ := hclosed.mp hready
  refine ⟨hfed, hcommand.mpr ?_, hclosed, hend.mpr ⟨hclosed.quoting, hclosed.heredocs, hparens⟩⟩
  decide +kernel

/-- Groups that are fed all the same: one without commands, and three that take their closing line
in, as a part of a here-document, of the line before it and of a string. -/
theorem group_left_open :
    (Adapter.posix .shell ⟨"/bin/sh", []⟩).preprocess .accepted [] =
      .ok "\x7b\n\n\x7d 2>&1\n\necho \x22##end_of_execution##\x22".toList ∧
    ¬(∃ line ∈ markedLines [], isIdle (Text.trim line) = false) ∧
    ¬IsClosed (Text.splitLines "cat <<A\nx".toList) ∧
    ¬IsClosed (Text.splitLines "ls \\".toList) ∧
    ¬IsClosed (Text.splitLines "echo 'hi".toList) := by
  refine ⟨by decide +kernel, by decide +kernel, fun h => ?_, fun h => ?_, fun h => ?_⟩
  · exact absurd h.heredocs (by decide +kernel)
  · exact absurd (h.last [] "ls \\".toList (by decide +kernel)) (by decide +kernel)
  · exact absurd h.quoting (by decide +kernel)

end StepTrace.Posix

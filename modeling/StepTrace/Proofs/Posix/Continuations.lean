import Mathlib.Data.List.TakeWhile
import StepTrace.Proofs.Posix.Comments
import StepTrace.Proofs.Posix.Markers
import StepTrace.Proofs.Posix.Passages

/-!
# Lines that go on

A line that ends in a pipe, in `&&` or in a backslash goes on in the next line of code, and a marker
between the two would be taken for the next line. The scan knows where the comment of a line starts,
but whether the line goes on is read off the other reading of it, so a marker is kept out where the
two agree (`unmarked_behind_operator`). Where a line begins within quotes they do not
(`marker_behind_pipe`).
-/

set_option autoImplicit false

namespace StepTrace.Posix

/-! ## The end of a line -/

/-- What is read of a line of code before a comment, the pattern of an arm included. -/
def ScriptState.codeOf (s : ScriptState) (line : List Char) : List Char :=
  (if s.readsArm line then patternOf line ++ [')'] else []) ++
    (LineScan.start s.quoting s.parens s.heredocs).code (s.scanned line)

/-- Whether a text ends in an operator that another command has to follow. -/
def EndsInOperator (code : List Char) : Prop :=
  "|".toList <:+ Text.trimEnd code ∨ "&&".toList <:+ Text.trimEnd code

theorem asksForMore_of_endsInOperator {code : List Char} (h : EndsInOperator code) :
    asksForMore code = true := by
  simp only [asksForMore, Bool.or_eq_true, List.isSuffixOf_iff_suffix]
  exact .inl h

/-- The pattern of an arm has no part in an operator at the end of the line. -/
theorem endsInOperator_of_append {u s : List Char} (h : EndsInOperator (u ++ ')' :: s)) :
    EndsInOperator s := by
  have hend : ∀ {operator t : List Char}, ')' ∉ operator → operator <:+ u ++ ')' :: t →
      operator <:+ t := by
    intro operator t hparen hsuffix
    have hbehind : ')' :: t <:+ u ++ ')' :: t := List.suffix_append u _
    have hlength : operator.length ≤ t.length := Nat.le_of_not_lt fun hlong =>
      hparen ((List.suffix_of_suffix_length_le hbehind hsuffix hlong).subset List.mem_cons_self)
    exact List.suffix_of_suffix_length_le hsuffix ((List.suffix_cons _ t).trans hbehind) hlength
  rw [EndsInOperator, Text.trimEnd_append_cons (by decide)] at h
  exact h.imp (hend (by decide)) (hend (by decide))

theorem patternOf_append_afterParen {line : List Char} (h : ')' ∈ line) :
    patternOf line ++ ')' :: afterParen line = line := by
  have hcut : patternOf line ++ line.dropWhile (fun c => c != ')') = line :=
    List.takeWhile_append_dropWhile
  cases hd : line.dropWhile (fun c => c != ')') with
  | nil => exact absurd (List.dropWhile_eq_nil_iff.mp hd ')' h) (by simp)
  | cons c r =>
    have hc : c = ')' := by
      have hhead := List.head?_dropWhile_not (fun c => c != ')') line
      rw [hd] at hhead
      simpa using hhead
    rw [hd, hc] at hcut
    rw [afterParen, hd, List.tail_cons, hcut]

namespace ScriptState

/-- What is not read of a line is its comment. -/
theorem codeOf_cut (s : ScriptState) (line : List Char) :
    s.codeOf line = line ∨ ∃ v, line = s.codeOf line ++ '#' :: v := by
  have hcut := (LineScan.Tracks.of_start s.quoting s.parens s.heredocs (s.scanned line)).code_cut
  have hscanned : (if s.readsArm line then patternOf line ++ [')'] else []) ++ s.scanned line =
      line := by
    rw [scanned]
    split
    · next harm =>
      rw [readsArm, Bool.and_eq_true] at harm
      have hmem : ')' ∈ Text.trim line := by
        refine Decidable.not_not.mp fun hnot => ?_
        rw [isCaseArm_of_not_mem hnot] at harm
        cases harm.2
      rw [List.append_assoc, List.singleton_append,
        patternOf_append_afterParen ((Text.trim_infix line).subset hmem)]
    · rfl
  rcases hcut with heq | ⟨v, hv, -⟩
  · left
    rw [codeOf, heq, hscanned]
  · right
    exact ⟨v, by rw [codeOf, List.append_assoc, ← hv, hscanned]⟩

/-- A line of code that goes on in the next: no quotes are open behind it, and it ends in an
operator or in a backslash that escapes the line feed. -/
structure GoesOn (s : ScriptState) (line : List Char) : Prop where
  heredoc : s.inHeredoc = false
  code : ¬(s.quoting = .bare ∧ isIdle (Text.trim line) = true)
  closed : (s.scan line).quoting = .bare
  ends : (s.scan line).escaped = true ∨ EndsInOperator (s.codeOf line)

/-- The two readings of a line find the same comment, if the line is not escaped at its end. -/
def SeesComment (s : ScriptState) (line : List Char) : Prop :=
  (s.scan line).escaped = true ∨
    IsSeen (s.scanned line)
      ((LineScan.start s.quoting s.parens s.heredocs).code (s.scanned line))

/-- They do on a line that begins outside quotes and holds neither backslash nor here-document. -/
theorem seesComment_of_bare {s : ScriptState} {line : List Char} (hquoting : s.quoting = .bare)
    (hescape : '\\' ∉ line) (hdoc : ¬['<', '<'] <:+: line) : s.SeesComment line := by
  have hscanned := s.scanned_suffix line
  rw [SeesComment, hquoting]
  exact .inr (isSeen_of_bare _ _ (fun hmem => hescape (hscanned.subset hmem))
    fun hin => hdoc (hin.trans hscanned.isInfix))

theorem continued_consume {s : ScriptState} {line : List Char} (h : s.GoesOn line)
    (hseen : s.SeesComment line) :
    (s.consume line).quoting = .bare ∧ (s.consume line).continued = true := by
  have hpass : s.consume line = s.passCode line := by
    rw [consume, h.heredoc, if_neg Bool.false_ne_true, if_neg]
    rw [Bool.and_eq_true, beq_iff_eq]
    exact h.code
  rw [hpass, passCode_eq]
  refine ⟨h.closed, ?_⟩
  rw [Bool.or_eq_true]
  rcases hseen with hescaped | hseen
  · exact .inl hescaped
  · refine h.ends.imp_right fun hends => ?_
    rw [(stripComment_eq_code_iff _ _ _ _).mpr hseen]
    refine asksForMore_of_endsInOperator ?_
    rw [codeOf] at hends
    split at hends
    · rw [List.append_assoc, List.singleton_append] at hends
      exact endsInOperator_of_append hends
    · exact hends

end ScriptState

/-- Between a line that goes on and the next line of code no marker is put if both readings of the
line find the same comment. They do, in whatever state a text is met, exactly if the plain automaton
stands outside quotes where the scan finds the comment and at no number sign before it that a
comment could start at; so they do on a line that begins outside quotes and holds neither backslash
nor here-document. -/
theorem unmarked_behind_operator {code : List Char} {before idle rest : List (List Char)}
    {line next : List Char} {s : ScriptState}
    (hs : before.foldl ScriptState.consume .start = s)
    (hcode : Text.splitLines code = before ++ line :: (idle ++ next :: rest))
    (hidle : ∀ l ∈ idle, isIdle (Text.trim l) = true) :
    (∀ quoting parens heredocs body,
      stripComment body = (LineScan.start quoting parens heredocs).code body ↔
        IsSeen body ((LineScan.start quoting parens heredocs).code body)) ∧
    (s.quoting = .bare → '\\' ∉ line → ¬['<', '<'] <:+: line → s.SeesComment line) ∧
    (s.codeOf line = line ∨ ∃ v, line = s.codeOf line ++ '#' :: v) ∧
    (s.GoesOn line → s.SeesComment line → isMarked (before ++ line :: idle) next = false ∧
      ∃ below, instrument code =
        Text.joinLines (markLines .start 1 (before ++ [line]) ++ (idle ++ next :: below))) := by
  refine ⟨stripComment_eq_code_iff, ScriptState.seesComment_of_bare, s.codeOf_cut line, ?_⟩
  intro hgoes hseen
  obtain ⟨hquoting, hcontinued⟩ := ScriptState.continued_consume hgoes hseen
  have hbehind : (before ++ [line]).foldl ScriptState.consume .start = s.consume line := by
    rw [List.foldl_concat, hs]
  -- the scan waits for the rest of the command, past blank lines and comments, to the next line
  have hsilent := ScriptState.isSilent_of_continued hquoting hcontinued hidle next
  rw [← hbehind] at hsilent
  have hcode' : Text.splitLines code = (before ++ [line]) ++ (idle ++ [next]) ++ rest := by
    rw [hcode]
    simp
  constructor
  · have hcut : idle ++ [next] = idle ++ next :: [] := rfl
    have hnext := hsilent.startsCommand hcut
    rwa [← List.foldl_append, List.append_assoc] at hnext
  · rw [instrument_of_isSilent hcode' hsilent, List.append_assoc (markLines _ _ _),
      List.append_assoc idle, List.singleton_append]
    exact ⟨_, rfl⟩

/-- A line that begins within quotes, ends in a pipe and has its right-hand side behind a blank line
and a comment. -/
theorem unmarked_behind_operator_quotedLine :
    ∃ s, ["echo 'a".toList].foldl ScriptState.consume .start = s ∧ s.GoesOn "b#c' |".toList ∧
      s.SeesComment "b#c' |".toList ∧
      isMarked (["echo 'a", "b#c' |", "", "# d"].map String.toList) "wc".toList = false ∧
      ∃ below, instrument "echo 'a\nb#c' |\n\n# d\nwc\nls".toList =
        Text.joinLines (markLines .start 1 (["echo 'a", "b#c' |"].map String.toList) ++
          (["", "# d"].map String.toList ++ "wc".toList :: below)) := by
  have hs : ["echo 'a".toList].foldl ScriptState.consume .start =
      ⟨.single, [], false, 0, 0, false⟩ := by decide +kernel
  have hcode : Text.splitLines "echo 'a\nb#c' |\n\n# d\nwc\nls".toList =
      ["echo 'a".toList] ++ "b#c' |".toList ::
        (["", "# d"].map String.toList ++ "wc".toList :: ["ls".toList]) := by decide +kernel
  have hidle : ∀ l ∈ ["", "# d"].map String.toList, isIdle (Text.trim l) = true :=
    List.all_eq_true.mp (by decide +kernel)
  obtain ⟨hagree, -, -, hunmarked⟩ := unmarked_behind_operator hs hcode hidle
  have hgoes : ScriptState.GoesOn ⟨.single, [], false, 0, 0, false⟩ "b#c' |".toList :=
    ⟨rfl, by decide +kernel, by decide +kernel, .inr (.inl (by decide +kernel))⟩
  have hseen : ScriptState.SeesComment ⟨.single, [], false, 0, 0, false⟩ "b#c' |".toList :=
    .inr ((hagree _ _ _ _).mp (by decide +kernel))
  exact ⟨_, hs, hgoes, hseen, hunmarked hgoes hseen⟩

/-- A line that begins within quotes and ends in a pipe and a comment: the reading that begins
outside quotes takes the comment into a string, and a marker is put behind the pipe. -/
theorem marker_behind_pipe :
    (["echo 'a".toList].foldl ScriptState.consume .start).GoesOn "b' | # c".toList ∧
    stripComment "b' | # c".toList = "b' | # c".toList ∧
    (LineScan.start .single 0 []).code "b' | # c".toList = "b' | ".toList ∧
    isMarked (["echo 'a", "b' | # c"].map String.toList) "wc".toList = true ∧
    instrument "echo 'a\nb' | # c\nwc".toList =
      ("echo \x22##active_line1##\x22\necho 'a\nb' | # c\n" ++
        "echo \x22##active_line3##\x22\nwc").toList :=
  ⟨⟨by decide +kernel, by decide +kernel, by decide +kernel, .inr (.inl (by decide +kernel))⟩,
    by decide +kernel, by decide +kernel, by decide +kernel, by decide +kernel⟩

end StepTrace.Posix

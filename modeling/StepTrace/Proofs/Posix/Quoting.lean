import StepTrace.Posix.Script
import Mathlib.Data.List.Basic
import Mathlib.Tactic.Tauto

/-!
# Markers and quotes of a script

The scan of a script follows quotes line by line, but of a line that it takes for an arm of a `case`
block it reads only what follows the first closing parenthesis. `Quoting.through` is the automaton
that follows the quotes of a whole text. A script without number signs, backslashes and
here-documents is compared with it here: the scan and the automaton agree before a line exactly if
the automaton stood outside quotes at the parenthesis of the last arm (`tracked_iff`). So a marker
stands outside all strings exactly under that condition, and a string with a closing parenthesis in
a `case` block breaks it.
-/

set_option autoImplicit false

namespace StepTrace.Posix

namespace Quoting

/-- The quotes after a character: a quote opens outside quotes and ends at its like. -/
def after (q : Quoting) (c : Char) : Quoting :=
  match q with
  | .bare => if c = '\x27' then .single else if c = '\x22' then .double else .bare
  | .single => if c = '\x27' then .bare else .single
  | .double => if c = '\x22' then .bare else .double

/-- The quotes after a text. -/
def through (q : Quoting) (s : List Char) : Quoting := s.foldl after q

theorem through_append (q : Quoting) (s t : List Char) :
    q.through (s ++ t) = (q.through s).through t := by
  simp [through]

theorem through_cons (q : Quoting) (c : Char) (s : List Char) :
    q.through (c :: s) = (q.after c).through s := rfl

/-- A character permutes the three states of the automaton. -/
theorem after_injective (c : Char) (q r : Quoting) (h : q.after c = r.after c) : q = r := by
  -- each of the two quotes swaps two states, and nothing else moves any
  by_cases h1 : c = '\x27' <;> by_cases h2 : c = '\x22' <;> cases q <;> cases r <;>
    simp_all [after]

/-- A text permutes the three states of the automaton. -/
theorem through_injective (s : List Char) (q r : Quoting) (h : q.through s = r.through s) :
    q = r := by
  induction s generalizing q r with
  | nil => exact h
  | cons c s ih => exact after_injective c q r (ih _ _ h)

theorem after_of_not_quote (q : Quoting) (c : Char) (h1 : c ≠ '\x27') (h2 : c ≠ '\x22') :
    q.after c = q := by
  cases q <;> simp [after, h1, h2]

theorem not_quote_of_isBlank (c : Char) (h : Text.isBlank c = true) : c ≠ '\x27' ∧ c ≠ '\x22' := by
  constructor <;> rintro rfl <;> exact absurd h (by decide)

theorem through_of_allBlank (q : Quoting) (s : List Char) (h : Text.allBlank s = true) :
    q.through s = q := by
  induction s with
  | nil => rfl
  | cons c s ih =>
    simp only [Text.allBlank, List.all_cons, Bool.and_eq_true] at h
    obtain ⟨h1, h2⟩ := not_quote_of_isBlank c h.1
    rw [through_cons, after_of_not_quote q c h1 h2]
    exact ih h.2

end Quoting

/-- A text without number signs, backslashes and openings of here-documents. -/
structure IsPlain (s : List Char) : Prop where
  no_comment : '#' ∉ s
  no_escape : '\\' ∉ s
  no_heredoc : ¬ ['<', '<'] <:+: s

namespace IsPlain

theorem of_infix {s t : List Char} (h : IsPlain t) (hs : s <:+: t) : IsPlain s where
  no_comment hc := h.no_comment (hs.subset hc)
  no_escape hc := h.no_escape (hs.subset hc)
  no_heredoc hc := h.no_heredoc (hc.trans hs)

theorem of_suffix {s t : List Char} (h : IsPlain t) (hs : s <:+ t) : IsPlain s :=
  h.of_infix hs.isInfix

end IsPlain

/-! ## One line -/

namespace LineScan

/-- The scan stands in code, with nothing pending. -/
structure IsFree (s : LineScan) : Prop where
  skip : s.skip = 0
  delimiter : s.delimiter = none
  comment : s.comment = false
  escaped : s.escaped = false

theorem isFree_start (quoting : Quoting) (parens : Nat) (heredocs : List Delimiter) :
    (start quoting parens heredocs).IsFree := ⟨rfl, rfl, rfl, rfl⟩

/-- Where neither an escape nor a here-document begins, a step stops at a comment or follows the
quotes. -/
theorem step_of_isFree (s : LineScan) {c : Char} {next : List Char} (hs : s.IsFree)
    (hescape : c ≠ '\\') (hdoc : ¬(c = '<' ∧ next.head? = some '<')) :
    if c = '#' ∧ s.quoting = .bare ∧ isBreak s.previous = true then
      (s.step c next).comment = true
    else (s.step c next).IsFree ∧ (s.step c next).quoting = s.quoting.after c ∧
      (s.step c next).heredocs = s.heredocs ∧ (s.step c next).previous = c := by
  rcases s with ⟨quoting, parens, heredocs, previous, skip, delimiter, comment, escaped⟩
  obtain ⟨hskip, hdel, hcom, hesc⟩ := hs
  simp only at hskip hdel hcom hesc
  subst hskip hdel hcom hesc
  cases quoting with
  | bare =>
    by_cases hstop : c = '#' ∧ (Text.isBlank previous = true ∨ previous = ';')
    · obtain ⟨rfl, hbreak⟩ := hstop
      simp [step, stepQuoted, stepBare, isBreak, hbreak]
    · -- parentheses and quotes may open and close; the quotes are all that is told of here
      have hgoes : ¬(c = '#' ∧ True ∧ isBreak previous = true) := by
        simpa [isBreak] using hstop
      simp only [step, stepQuoted, stepBare, Bool.or_self, Bool.false_eq_true, if_false, hescape,
        hstop, hdoc, past, Quoting.after, if_neg hgoes]
      repeat' split
      all_goals exact ⟨⟨rfl, rfl, rfl, rfl⟩, rfl, rfl, rfl⟩
  | single =>
    simp only [step, stepQuoted, Bool.or_self, Bool.false_eq_true, if_false, past, Quoting.after,
      reduceCtorEq, false_and, and_false]
    split
    all_goals exact ⟨⟨rfl, rfl, rfl, rfl⟩, rfl, rfl, rfl⟩
  | double =>
    simp only [step, stepQuoted, Bool.or_self, Bool.false_eq_true, if_false, hescape, past,
      Quoting.after, reduceCtorEq, false_and, and_false]
    split
    all_goals exact ⟨⟨rfl, rfl, rfl, rfl⟩, rfl, rfl, rfl⟩

/-- A step in a plain text only follows the quotes. -/
theorem step_of_isPlain (s : LineScan) (c : Char) (next : List Char) (hs : s.IsFree)
    (hp : IsPlain (c :: next)) :
    (s.step c next).IsFree ∧ (s.step c next).quoting = s.quoting.after c ∧
      (s.step c next).heredocs = s.heredocs := by
  -- none of the signs is met that do more than move the quotes
  have hcomment : c ≠ '#' := fun h => hp.no_comment (h ▸ List.mem_cons_self)
  have hescape : c ≠ '\\' := fun h => hp.no_escape (h ▸ List.mem_cons_self)
  have hdoc : ¬(c = '<' ∧ next.head? = some '<') := by
    rintro ⟨rfl, hn⟩
    obtain ⟨next, rfl⟩ := List.head?_eq_some_iff.mp hn
    exact hp.no_heredoc ⟨[], next, rfl⟩
  have hstep := s.step_of_isFree hs hescape hdoc
  rw [if_neg fun h => hcomment h.1] at hstep
  exact ⟨hstep.1, hstep.2.1, hstep.2.2.1⟩

/-- The scan of a plain text is the automaton's run over it. -/
theorem run_of_isPlain (s : LineScan) (body : List Char) (hs : s.IsFree) (hp : IsPlain body) :
    (s.run body).quoting = s.quoting.through body ∧ (s.run body).heredocs = s.heredocs := by
  -- every step leaves the scan free, which is all that the next one needs
  induction body generalizing s with
  | nil =>
    have hf : s.finish = s := by simp [finish, hs.delimiter]
    rw [run, hf]
    exact ⟨rfl, rfl⟩
  | cons c next ih =>
    obtain ⟨hfree, hq, hh⟩ := step_of_isPlain s c next hs hp
    obtain ⟨h1, h2⟩ := ih (s.step c next) hfree (hp.of_suffix (List.suffix_cons c next))
    rw [run, h1, h2, hq, hh, Quoting.through_cons]
    exact ⟨rfl, rfl⟩

/-- No line of a plain text ends in a comment or an escape. -/
theorem isFree_run (s : LineScan) (body : List Char) (hs : s.IsFree) (hp : IsPlain body) :
    (s.run body).IsFree := by
  induction body generalizing s with
  | nil =>
    have hf : s.finish = s := by simp [finish, hs.delimiter]
    rw [run, hf]
    exact hs
  | cons c next ih =>
    exact ih (s.step c next) (step_of_isPlain s c next hs hp).1
      (hp.of_suffix (List.suffix_cons c next))

end LineScan

/-! ## Arms of a `case` block -/

/-- What a line holds before its first closing parenthesis. -/
def patternOf (line : List Char) : List Char := line.takeWhile fun c => c != ')'

/-- A closing parenthesis is no quote: past the pattern the automaton goes on as it stood there. -/
theorem through_patternOf (q : Quoting) (line : List Char) :
    (q.through (patternOf line)).through (afterParen line) = q.through line := by
  have hcut : patternOf line ++ line.dropWhile (fun c => c != ')') = line :=
    List.takeWhile_append_dropWhile
  conv_rhs => rw [← hcut, Quoting.through_append]
  rw [afterParen]
  -- a line without the parenthesis is skipped as a whole
  cases hd : line.dropWhile (fun c => c != ')') with
  | nil => rfl
  | cons c r =>
    have hc : c = ')' := by
      have h := List.head?_dropWhile_not (fun c => c != ')') line
      rw [hd] at h
      simpa using h
    rw [List.tail_cons, Quoting.through_cons, hc,
      Quoting.after_of_not_quote _ _ (by decide) (by decide)]

namespace ScriptState

/-- Whether a line is read as an arm of a `case` block, so that its pattern is not scanned. -/
def readsArm (s : ScriptState) (line : List Char) : Bool :=
  s.quoting == .bare && (s.cases > 0 || firstWord (Text.trim line) == "case".toList) &&
    isCaseArm (Text.trim line)

/-- No here-document is open or pending. -/
structure IsDry (s : ScriptState) : Prop where
  heredocs : s.heredocs = []
  inHeredoc : s.inHeredoc = false

theorem isDry_start : start.IsDry := ⟨rfl, rfl⟩

/-- In a plain script only blank lines are idle. -/
theorem allBlank_of_isIdle {line : List Char} (hp : IsPlain line)
    (h : isIdle (Text.trim line) = true) : Text.allBlank line = true := by
  rw [← Text.trim_eq_nil_iff]
  cases ht : Text.trim line with
  | nil => rfl
  | cons c r =>
    -- the other idle lines begin with a number sign
    have hc : c = '#' := by simpa [isIdle, ht] using h
    have hmem : c ∈ line := (Text.trim_infix line).subset (ht ▸ List.mem_cons_self)
    exact absurd (hc ▸ hmem) hp.no_comment

theorem readsArm_of_allBlank (s : ScriptState) {line : List Char}
    (h : Text.allBlank line = true) : s.readsArm line = false := by
  have ht := (Text.trim_eq_nil_iff line).2 h
  simp [readsArm, ht, isCaseArm, beginsPattern, Text.trimStart]

/-- A line that begins with the word itself is inside the block that it opens. -/
theorem inCases_eq (bare word : Bool) (cases : Nat) :
    (bare && decide ((if bare && word then cases + 1 else cases) > 0)) =
      (bare && (decide (cases > 0) || word)) := by
  cases bare <;> cases word <;> simp

/-- The part of a line of code that is scanned. -/
def scanned (s : ScriptState) (line : List Char) : List Char :=
  if s.readsArm line then afterParen line else line

/-- The scan of a line of code. -/
def scan (s : ScriptState) (line : List Char) : LineScan :=
  (LineScan.start s.quoting s.parens s.heredocs).run (s.scanned line)

theorem passCode_eq (s : ScriptState) (line : List Char) :
    s.passCode line =
      { quoting := (s.scan line).quoting
        heredocs := (s.scan line).heredocs
        inHeredoc := (s.scan line).quoting == .bare && !(s.scan line).heredocs.isEmpty
        parens := (s.scan line).parens
        cases := (if s.quoting == .bare && firstWord (Text.trim line) == "case".toList
            then s.cases + 1 else s.cases) -
          (if (s.scan line).quoting == .bare
            then (words (stripComment (s.scanned line))).count "esac".toList else 0)
        continued := (s.scan line).escaped || asksForMore (stripComment (s.scanned line)) } := by
  have hbody : (if (s.quoting == .bare &&
        decide ((if s.quoting == .bare && firstWord (Text.trim line) == "case".toList
          then s.cases + 1 else s.cases) > 0) && isCaseArm (Text.trim line)) = true
      then afterParen line else line) = s.scanned line := by
    rw [inCases_eq, scanned, readsArm]
  simp only [passCode, hbody]
  rfl

theorem scanned_suffix (s : ScriptState) (line : List Char) : s.scanned line <:+ line := by
  rw [scanned]
  split
  · exact (List.tail_suffix _).trans (List.dropWhile_suffix _)
  · exact List.suffix_rfl

theorem isPlain_scanned (s : ScriptState) {line : List Char} (hp : IsPlain line) :
    IsPlain (s.scanned line) := hp.of_suffix (s.scanned_suffix line)

theorem passCode_of_isPlain (s : ScriptState) (line : List Char) (hs : s.IsDry)
    (hp : IsPlain line) :
    (s.passCode line).IsDry ∧ (s.passCode line).quoting =
      s.quoting.through (if s.readsArm line then afterParen line else line) := by
  obtain ⟨hquoting, hheredocs⟩ := LineScan.run_of_isPlain
    (LineScan.start s.quoting s.parens s.heredocs) _
    (LineScan.isFree_start s.quoting s.parens s.heredocs) (s.isPlain_scanned hp)
  have hnone : (s.scan line).heredocs = [] := hheredocs.trans hs.heredocs
  rw [passCode_eq]
  exact ⟨⟨hnone, by simp [hnone]⟩, hquoting⟩

/-- What a plain line does to the quotes that the scan follows. -/
theorem consume_of_isPlain (s : ScriptState) (line : List Char) (hs : s.IsDry)
    (hp : IsPlain line) :
    (s.consume line).IsDry ∧ (s.consume line).quoting =
      s.quoting.through (if s.readsArm line then afterParen line else line) := by
  rw [consume, hs.inHeredoc]
  simp only [Bool.false_eq_true, if_false]
  split
  · -- an idle line is not scanned, and a blank one would move no quotes
    next h =>
    simp only [Bool.and_eq_true] at h
    have hblank := allBlank_of_isIdle hp h.2
    rw [readsArm_of_allBlank s hblank]
    exact ⟨hs, by simp [Quoting.through_of_allBlank _ _ hblank]⟩
  · exact passCode_of_isPlain s line hs hp

end ScriptState

/-! ## A whole script -/

/-- The scan of a script and the automaton side by side. -/
structure Track where
  /-- The state of the scan. -/
  state : ScriptState
  /-- The quotes by the automaton. -/
  plain : Quoting
  /-- The quotes by the automaton at the parenthesis that ended the pattern of the last arm. -/
  pattern : Quoting
  deriving DecidableEq, Repr

namespace Track

/-- Both at the start of a script. -/
def start : Track := ⟨.start, .bare, .bare⟩

/-- Both after a line and its line feed. -/
def next (t : Track) (line : List Char) : Track where
  state := t.state.consume line
  plain := t.plain.through (line ++ ['\n'])
  pattern := if t.state.readsArm line then t.plain.through (patternOf line) else t.pattern

/-- Both after some lines. -/
def after (lines : List (List Char)) : Track := lines.foldl next start

/-- The scan knows the quotes exactly if the last pattern ended outside quotes. -/
structure IsTrue (t : Track) : Prop where
  dry : t.state.IsDry
  tracked_iff : t.state.quoting = t.plain ↔ t.pattern = .bare

theorem isTrue_start : start.IsTrue := ⟨ScriptState.isDry_start, by simp [start, ScriptState.start]⟩

theorem plain_next (t : Track) (line : List Char) :
    (t.next line).plain = t.plain.through line := by
  rw [next, Quoting.through_append, Quoting.through_cons,
    Quoting.after_of_not_quote _ _ (by decide) (by decide)]
  rfl

/-- One line keeps the invariant: the characters that both read permute their states alike, and an
arm sets the scan outside quotes. -/
theorem isTrue_next (t : Track) (line : List Char) (ht : t.IsTrue) (hp : IsPlain line) :
    (t.next line).IsTrue := by
  obtain ⟨hdry, hquoting⟩ := ScriptState.consume_of_isPlain t.state line ht.dry hp
  refine ⟨hdry, ?_⟩
  rw [plain_next]
  change (t.state.consume line).quoting = _ ↔
    (if t.state.readsArm line then t.plain.through (patternOf line) else t.pattern) = .bare
  rw [hquoting]
  cases harm : t.state.readsArm line with
  | false =>
    simp only [Bool.false_eq_true, if_false]
    rw [← ht.tracked_iff]
    exact ⟨Quoting.through_injective line _ _, fun h => by rw [h]⟩
  | true =>
    -- the scan takes up the line outside quotes, behind the pattern that the automaton reads too
    have hbare : t.state.quoting = .bare := by
      simp only [ScriptState.readsArm, Bool.and_eq_true, beq_iff_eq] at harm
      exact harm.1.1
    simp only [if_true]
    rw [hbare, ← through_patternOf t.plain line]
    exact ⟨fun h => (Quoting.through_injective _ _ _ h).symm, fun h => by rw [h]⟩

theorem isTrue_foldl (lines : List (List Char)) (hp : ∀ l ∈ lines, IsPlain l) (t : Track)
    (ht : t.IsTrue) : (lines.foldl next t).IsTrue := by
  induction lines generalizing t with
  | nil => exact ht
  | cons l rest ih =>
    exact ih (fun m hm => hp m (List.mem_cons_of_mem l hm)) (t.next l)
      (isTrue_next t l ht (hp l List.mem_cons_self))

theorem isTrue_after (lines : List (List Char)) (hp : ∀ l ∈ lines, IsPlain l) :
    (after lines).IsTrue := isTrue_foldl lines hp start isTrue_start

theorem state_foldl (lines : List (List Char)) (t : Track) :
    (lines.foldl next t).state = lines.foldl ScriptState.consume t.state := by
  induction lines generalizing t with
  | nil => rfl
  | cons l rest ih => exact ih (t.next l)

theorem plain_foldl (lines : List (List Char)) (t : Track) :
    (lines.foldl next t).plain = t.plain.through (lines.flatMap (· ++ ['\n'])) := by
  induction lines generalizing t with
  | nil => rfl
  | cons l rest ih =>
    rw [List.foldl_cons, ih, List.flatMap_cons, Quoting.through_append]
    rfl

/-- Where the pattern of every arm closes its quotes, every pattern ends outside quotes. -/
theorem pattern_after_of_closed (lines : List (List Char)) (hp : ∀ l ∈ lines, IsPlain l)
    (hc : ∀ l ∈ lines, isCaseArm (Text.trim l) = true →
      Quoting.through .bare (patternOf l) = .bare) :
    (after lines).pattern = .bare := by
  suffices h : ∀ (lines : List (List Char)) (t : Track), t.IsTrue → t.pattern = .bare →
      (∀ l ∈ lines, IsPlain l ∧ (isCaseArm (Text.trim l) = true →
        Quoting.through .bare (patternOf l) = .bare)) → (lines.foldl next t).pattern = .bare from
    h lines start isTrue_start rfl fun l hl => ⟨hp l hl, hc l hl⟩
  -- the scan knows the quotes before every line, so an arm begins outside quotes in truth
  intro lines
  induction lines with
  | nil => exact fun t _ ht _ => ht
  | cons l rest ih =>
    intro t ht hb hl
    obtain ⟨hpl, hcl⟩ := hl l List.mem_cons_self
    refine ih (t.next l) (isTrue_next t l ht hpl) ?_ fun m hm => hl m (List.mem_cons_of_mem l hm)
    change (if t.state.readsArm l then t.plain.through (patternOf l) else t.pattern) = .bare
    split
    · next harm =>
      simp only [ScriptState.readsArm, Bool.and_eq_true, beq_iff_eq] at harm
      rw [← ht.tracked_iff.2 hb, harm.1.1]
      exact hcl harm.2
    · exact hb

end Track

/-- Whether a marker is put before a line that stands behind others. -/
def isMarked (before : List (List Char)) (line : List Char) : Bool :=
  (before.foldl ScriptState.consume .start).startsCommand line

theorem markLines_append (s : ScriptState) (number : Nat) (before rest : List (List Char)) :
    markLines s number (before ++ rest) = markLines s number before ++
      markLines (before.foldl ScriptState.consume s) (number + before.length) rest := by
  induction before generalizing s number with
  | nil => simp [markLines]
  | cons l before ih =>
    have hn : number + 1 + before.length = number + (before.length + 1) := by omega
    simp only [List.cons_append, markLines, ih, List.foldl_cons, List.length_cons, hn]
    split <;> rfl

/-- What instrumenting makes of a script that is cut before one of its lines. -/
theorem instrument_cut (code : List Char) (before : List (List Char)) (line : List Char)
    (rest : List (List Char)) (hcut : Text.splitLines code = before ++ line :: rest) :
    instrument code = Text.joinLines (markLines .start 1 before ++
      (if isMarked before line then
        [indentation line ++ echo (Marker.ofLine (before.length + 1))] else []) ++
      line :: markLines ((before ++ [line]).foldl ScriptState.consume .start)
        (before.length + 2) rest) := by
  have hn : 1 + before.length = before.length + 1 := by omega
  rw [instrument, hcut, markLines_append, hn, markLines, isMarked, List.foldl_append]
  split <;> simp

/-- A marker stands outside all strings exactly if the pattern of the last line before it that was
read as an arm of a `case` block ended outside quotes. -/
theorem marker_outside_quotes_iff (code : List Char) (hp : IsPlain code)
    (before : List (List Char)) (line : List Char) (rest : List (List Char))
    (hcut : Text.splitLines code = before ++ line :: rest) :
    code = before.flatMap (· ++ ['\n']) ++ Text.joinLines (line :: rest) ∧
    instrument code = Text.joinLines (markLines .start 1 before ++
      (if isMarked before line then
        [indentation line ++ echo (Marker.ofLine (before.length + 1))] else []) ++
      line :: markLines ((before ++ [line]).foldl ScriptState.consume .start)
        (before.length + 2) rest) ∧
    (isMarked before line = true →
      (Quoting.through .bare (before.flatMap (· ++ ['\n'])) = .bare ↔
        (Track.after before).pattern = .bare)) := by
  have hcode : code = before.flatMap (· ++ ['\n']) ++ Text.joinLines (line :: rest) := by
    rw [← Text.joinLines_append_cons, ← hcut, Text.joinLines_splitLines]
  refine ⟨hcode, instrument_cut code before line rest hcut, fun hm => ?_⟩
  have hlines : ∀ l ∈ before, IsPlain l := fun l hl =>
    hp.of_infix (Text.infix_of_mem_splitLines (hcut ▸ List.mem_append_left _ hl))
  have htrue := Track.isTrue_after before hlines
  -- a marker is put only where the scan believes to stand outside quotes
  have hstate : (Track.after before).state.quoting = .bare := by
    rw [Track.after, Track.state_foldl]
    simp only [isMarked, ScriptState.startsCommand] at hm
    split at hm
    · cases hm
    · next h =>
      simp only [Bool.or_eq_true, not_or, bne_iff_ne, ne_eq, Decidable.not_not] at h
      exact h.1.1.2
  rw [← htrue.tracked_iff, hstate, Track.after, Track.plain_foldl]
  exact eq_comm

/-- Behind an arm whose pattern closes its quotes the marker stands outside strings. -/
theorem marker_outside_quotes_quoted_arm :
    IsPlain "case x in\n'x') echo 'a\nb'\nesac\necho c".toList ∧
      isMarked (["case x in", "'x') echo 'a", "b'", "esac"].map String.toList)
        "echo c".toList = true ∧
      Quoting.through .bare
        ((["case x in", "'x') echo 'a", "b'", "esac"].map String.toList).flatMap
          (· ++ ['\n'])) = .bare := by
  have hp : IsPlain "case x in\n'x') echo 'a\nb'\nesac\necho c".toList :=
    ⟨by decide +kernel, by decide +kernel, by decide +kernel⟩
  have hm : isMarked (["case x in", "'x') echo 'a", "b'", "esac"].map String.toList)
      "echo c".toList = true := by decide +kernel
  have h := marker_outside_quotes_iff _ hp
    (["case x in", "'x') echo 'a", "b'", "esac"].map String.toList) "echo c".toList []
    (by decide +kernel)
  exact ⟨hp, hm, (h.2.2 hm).2 (by decide +kernel)⟩

/-- The lines of a script whose `case` block prints a closing parenthesis within quotes. -/
def smile : List (List Char) :=
  ["case x in", "x)", "echo \x22smile :)", "bye\x22", ";;", "esac"].map String.toList

/-- Before the fourth line a marker is put, in the middle of a string. -/
theorem marker_in_string :
    IsPlain (Text.joinLines smile) ∧ Text.splitLines (Text.joinLines smile) = smile ∧
      isMarked (smile.take 3) "bye\x22".toList = true ∧
      Quoting.through .bare ((smile.take 3).flatMap (· ++ ['\n'])) = .double ∧
      instrument (Text.joinLines smile) = Text.joinLines (["echo \x22##active_line1##\x22",
        "case x in", "x)", "echo \x22smile :)", "echo \x22##active_line4##\x22", "bye\x22", ";;",
        "esac"].map String.toList) :=
  ⟨⟨by decide +kernel, by decide +kernel, by decide +kernel⟩, by decide +kernel, by decide +kernel,
    by decide +kernel, by decide +kernel⟩

end StepTrace.Posix

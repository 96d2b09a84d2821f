import StepTrace.Proofs.Posix.Quoting

/-!
# States of a script

What holds of every state that a script can be in between two lines: it stands in a here-document
exactly if one is open outside quotes, and no word that ends one holds a blank
(`ScriptState.IsSound.foldl`). `startsCommand_iff` parts what the state and what the line contribute
to the beginning of a command.
-/

set_option autoImplicit false

namespace StepTrace.Posix

/-! ## The words that end here-documents -/

/-- A word without blanks. -/
def IsWord (word : List Char) : Prop := word ≠ [] ∧ ∀ c ∈ word, Text.isBlank c = false

namespace LineScan

/-- What the scan has read of delimiters holds no blank. -/
structure IsWorded (s : LineScan) : Prop where
  heredocs : ∀ d ∈ s.heredocs, IsWord d.word
  read : ∀ stripTabs read, s.delimiter = some (.word stripTabs read) →
    ∀ c ∈ read, Text.isBlank c = false

namespace IsWorded

variable {s t : LineScan}

theorem of_eq (hs : s.IsWorded) (hheredocs : t.heredocs = s.heredocs)
    (hdelimiter : t.delimiter = s.delimiter) : t.IsWorded where
  heredocs := hheredocs ▸ hs.heredocs
  read := hdelimiter ▸ hs.read

/-- A scan that reads no word is worded if its here-documents are. -/
theorem of_no_word (hs : ∀ d ∈ s.heredocs, IsWord d.word)
    (hnone : ∀ stripTabs read, s.delimiter ≠ some (.word stripTabs read)) : s.IsWorded where
  heredocs := hs
  read stripTabs read h := absurd h (hnone stripTabs read)

theorem escape (hs : s.IsWorded) (next : List Char) : (s.escape next).IsWorded := by
  cases next with
  | nil => exact hs.of_eq rfl rfl
  | cons e r => exact hs.of_eq rfl rfl

theorem stepBare (hs : s.IsWorded) (c : Char) (next : List Char) :
    (s.stepBare c next).IsWorded := by
  rw [LineScan.stepBare]
  split
  · exact hs.escape next
  · repeat' split
    all_goals first
      | exact hs.of_eq rfl rfl
      | exact of_no_word hs.heredocs (by simp)

theorem stepQuoted (hs : s.IsWorded) (c : Char) (next : List Char) :
    (s.stepQuoted c next).IsWorded := by
  rw [LineScan.stepQuoted]
  split
  · exact hs.stepBare c next
  · split <;> exact hs.of_eq rfl rfl
  · split
    · exact hs.escape next
    · split <;> exact hs.of_eq rfl rfl

/-- A word that has been read to its end becomes a delimiter. -/
theorem expect (hs : s.IsWorded) (stripTabs : Bool) {read : List Char}
    (hread : ∀ c ∈ read, Text.isBlank c = false) : (s.expect stripTabs read).IsWorded := by
  refine of_no_word ?_ (by simp [LineScan.expect])
  intro d hd
  cases read with
  | nil => exact hs.heredocs d hd
  | cons c r =>
    rcases List.mem_append.mp hd with hd | hd
    · exact hs.heredocs d hd
    · rw [List.mem_singleton.mp hd]
      exact ⟨by simp, fun e he => hread e (List.mem_reverse.mp he)⟩

theorem stepWord (hs : s.IsWorded) (stripTabs : Bool) {read : List Char} (c : Char)
    (next : List Char) (hread : ∀ c ∈ read, Text.isBlank c = false) :
    (s.stepWord stripTabs read c next).IsWorded := by
  rw [LineScan.stepWord]
  split
  · exact ⟨hs.heredocs, fun _ _ h => by cases h; exact hread⟩
  · split
    · exact (hs.expect stripTabs hread).stepBare c next
    · next hends =>
      refine ⟨hs.heredocs, fun _ _ h => ?_⟩
      cases h
      have hc : Text.isBlank c = false := by
        rw [endsDelimiter, Bool.or_eq_true, not_or, Bool.not_eq_true] at hends
        exact hends.1
      exact List.forall_mem_cons.mpr ⟨hc, hread⟩

theorem stepBlanks (hs : s.IsWorded) (stripTabs : Bool) (c : Char) (next : List Char) :
    (s.stepBlanks stripTabs c next).IsWorded := by
  rw [LineScan.stepBlanks]
  split
  · exact of_no_word hs.heredocs (by simp)
  · exact hs.stepWord stripTabs c next (by simp)

theorem step (hs : s.IsWorded) (c : Char) (next : List Char) : (s.step c next).IsWorded := by
  rw [LineScan.step]
  split
  · exact hs
  · split
    · exact hs.of_eq rfl rfl
    · split
      · exact hs.stepQuoted c next
      · split
        · exact of_no_word hs.heredocs (by simp)
        · exact hs.stepBlanks false c next
      · exact hs.stepBlanks _ c next
      · next h => exact hs.stepWord _ c next (hs.read _ _ h)

theorem finish (hs : s.IsWorded) : s.finish.IsWorded := by
  rw [LineScan.finish]
  split
  · next h => exact hs.expect _ (hs.read _ _ h)
  · exact of_no_word hs.heredocs (by simp)
  · exact hs

theorem run (hs : s.IsWorded) (line : List Char) : (s.run line).IsWorded := by
  induction line generalizing s with
  | nil => exact hs.finish
  | cons c next ih => exact ih (hs.step c next)

end IsWorded

end LineScan

namespace ScriptState

/-- A state that a script can be in: it stands in a here-document exactly if one is open outside
quotes, and no blank is in the words that end them. -/
structure IsSound (s : ScriptState) : Prop where
  inHeredoc : s.inHeredoc = (s.quoting == .bare && !s.heredocs.isEmpty)
  words : ∀ d ∈ s.heredocs, IsWord d.word

theorem isSound_start : start.IsSound := ⟨rfl, by simp [start]⟩

variable {s : ScriptState}

theorem IsSound.passHeredoc (hs : s.IsSound) (h : s.inHeredoc = true) (line : List Char) :
    (s.passHeredoc line).IsSound := by
  have hbare : (s.quoting == .bare) = true := by
    rw [hs.inHeredoc, Bool.and_eq_true] at h
    exact h.1
  rw [ScriptState.passHeredoc]
  split
  · exact hs
  · next d rest hd =>
    have hrest : ∀ e ∈ rest, IsWord e.word := fun e he =>
      hs.words e (hd ▸ List.mem_cons_of_mem d he)
    generalize (if d.stripTabs then line.dropWhile (· == '\t') else line) = candidate
    change (if candidate = d.word then _ else s).IsSound
    split
    · exact ⟨by simp [hbare], hrest⟩
    · exact hs

theorem IsSound.passCode (hs : s.IsSound) (line : List Char) : (s.passCode line).IsSound := by
  have hstart : (LineScan.start s.quoting s.parens s.heredocs).IsWorded :=
    .of_no_word hs.words (by simp [LineScan.start])
  rw [passCode_eq]
  exact ⟨rfl, (hstart.run (s.scanned line)).heredocs⟩

theorem IsSound.consume (hs : s.IsSound) (line : List Char) : (s.consume line).IsSound := by
  rw [ScriptState.consume]
  split
  · next h => exact hs.passHeredoc h line
  · split
    · exact hs
    · exact hs.passCode line

theorem IsSound.foldl (hs : s.IsSound) (lines : List (List Char)) :
    (lines.foldl ScriptState.consume s).IsSound := by
  induction lines generalizing s with
  | nil => exact hs
  | cons line rest ih => exact ih (hs.consume line)

theorem IsSound.inHeredoc_eq_false (hs : s.IsSound) (h : s.heredocs = []) :
    s.inHeredoc = false := by
  rw [hs.inHeredoc, h]
  simp

/-- A state in which a command may begin. -/
structure IsReady (s : ScriptState) : Prop where
  inHeredoc : s.inHeredoc = false
  quoting : s.quoting = .bare
  continued : s.continued = false
  parens : s.parens = 0

/-- Whether a command begins on a trimmed line, within `case` blocks or not. -/
def mayBegin (cases : Nat) (trimmed : List Char) : Bool :=
  if isIdle trimmed then false
  else if clauseWords.contains (firstWord trimmed) || ";;".toList.isPrefixOf trimmed then false
  else !(cases > 0 && isCaseArm trimmed)

theorem isIdle_of_mayBegin {cases : Nat} {trimmed : List Char}
    (h : mayBegin cases trimmed = true) : isIdle trimmed = false := by
  rw [mayBegin] at h
  split at h
  · cases h
  · next hidle => exact Bool.not_eq_true _ ▸ hidle

/-- A line that is no arm begins a command within `case` blocks if it does outside. -/
theorem mayBegin_of_not_arm {trimmed : List Char} (harm : isCaseArm trimmed = false)
    (h : mayBegin 0 trimmed = true) (cases : Nat) : mayBegin cases trimmed = true := by
  rw [mayBegin] at h ⊢
  rw [harm, Bool.and_false] at h ⊢
  exact h

theorem startsCommand_iff (s : ScriptState) (line : List Char) :
    s.startsCommand line = true ↔ s.IsReady ∧ mayBegin s.cases (Text.trim line) = true := by
  change (if s.inHeredoc || s.quoting != .bare || s.continued || s.parens > 0 then false
    else mayBegin s.cases (Text.trim line)) = true ↔ _
  split
  · next h =>
    refine iff_of_false Bool.false_ne_true fun hboth => ?_
    obtain ⟨hready, -⟩ := hboth
    simp [hready.inHeredoc, hready.quoting, hready.continued, hready.parens] at h
  · next h =>
    simp only [Bool.or_eq_true, bne_iff_ne, decide_eq_true_eq, not_or, Bool.not_eq_true,
      Decidable.not_not] at h
    exact (and_iff_right ⟨h.1.1.1, h.1.1.2, h.1.2, by omega⟩).symm

theorem isIdle_of_allBlank {line : List Char} (h : Text.allBlank line = true) :
    isIdle (Text.trim line) = true := by
  rw [(Text.trim_eq_nil_iff line).mpr h]
  rfl

/-- On a blank line or a comment no command begins. -/
theorem startsCommand_of_isIdle {line : List Char} (h : isIdle (Text.trim line) = true) :
    s.startsCommand line = false := by
  refine Bool.eq_false_iff.mpr fun hstarts => ?_
  have hnot := isIdle_of_mayBegin ((startsCommand_iff s line).mp hstarts).2
  rw [h] at hnot
  cases hnot

end ScriptState

end StepTrace.Posix

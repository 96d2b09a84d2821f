import StepTrace.Proofs.Python.Copying

/-!
# The reader's way through a source

`passages` lists the characters of a source with where the reader stands before and behind each of
them, so that what happens on the way can be told of a source and not only of its logical lines.
`Lexes` is the way itself, one constructor for each thing that a character can do: a source that is
read without error is one that the reader finds its way through (`lexes_of_lex`), and what one
character keeps of the line that is being read is kept to the end of the line by induction on it.
-/

set_option autoImplicit false

namespace StepTrace.Python

/-- A character that is read, with where the reader stands before and behind it. -/
structure Passage where
  before : Mode
  char : Char
  after : Mode
  deriving DecidableEq, Repr

/-- The characters of a source that are read from some place on. -/
def passages (line : Nat) (m : Mode) : List Char → List Passage
  | [] => []
  | c :: next =>
    match step m line c next with
    | .error _ => []
    | .ok (_, m') => ⟨m, c, m'⟩ :: passages (lineAfter line c) m' next

/-- The characters of a source, its line breaks unified. -/
def passagesOf (source : List Char) : List Passage :=
  passages 1 (.margin 0) (Text.unifyBreaks source)

/-- A source is read from some place on into logical lines. -/
inductive Lexes : Nat → Mode → List Char → List LogicalLine → Prop
  | stop (line : Nat) {m : Mode} : m.Idle → Lexes line m [] []
  | last (line : Nat) {l : OpenLine} : l.frames.findSome? OpenLine.unclosed? = none →
      Lexes line (.inside l) [] [l.finish]
  | idle {line : Nat} {m m' : Mode} {c : Char} {next : List Char} {lines : List LogicalLine} :
      m.Idle → m'.Idle → step m line c next = .ok (none, m') →
      Lexes (lineAfter line c) m' next lines → Lexes line m (c :: next) lines
  | opens {line column : Nat} {c : Char} {next : List Char} {lines : List LogicalLine} :
      Opens c → Lexes line (.inside (.start line column)) (c :: next) lines →
      Lexes line (.margin column) (c :: next) lines
  | ends {line : Nat} {l : OpenLine} {c : Char} {next : List Char} {lines : List LogicalLine} :
      l.Ends c → Lexes (line + 1) (.margin 0) next lines →
      Lexes line (.inside l) (c :: next) (l.finish :: lines)
  | grows {line : Nat} {l l₁ : OpenLine} {c : Char} {next : List Char}
      {lines : List LogicalLine} : ¬l.Ends c → Grows l line c next l₁ →
      Lexes (lineAfter line c) (.inside l₁) next lines → Lexes line (.inside l) (c :: next) lines

variable {line column : Nat} {m m' : Mode} {l l₁ : OpenLine} {c : Char} {s next : List Char}
  {lines : List LogicalLine}

theorem lexes_of_lex (h : lex line m s = .ok lines) : Lexes line m s lines := by
  induction s generalizing line m lines with
  | nil =>
    cases m with
    | margin column =>
      cases h
      exact .stop line trivial
    | remark =>
      cases h
      exact .stop line trivial
    | inside l =>
      rw [lex, Mode.finish] at h
      split at h
      · cases h
      · next hclosed =>
        cases h
        exact .last line hclosed
  | cons c s ih =>
    -- a character that opens a line is read twice, in the margin and as the first of the line
    have hinside : ∀ l : OpenLine, lex line (.inside l) (c :: s) = .ok lines →
        Lexes line (.inside l) (c :: s) lines := by
      intro l hlex
      obtain ⟨hends, more, rfl, hmore⟩ | ⟨hgoes, l₁, hgrow, hnext⟩ := lex_inside_cons hlex
      · exact .ends hends (ih hmore)
      · exact .grows hgoes hgrow (ih hnext)
    have houtside : m.Idle → (∀ column, m = .margin column → ¬Opens c) →
        Lexes line m (c :: s) lines := by
      intro hidle hc
      obtain ⟨m', hidles, hstep⟩ := step_idle c hidle hc
      rw [lex_passes (hstep line s)] at h
      exact .idle hidle hidles.idle (hstep line s) (ih h)
    cases m with
    | inside l => exact hinside l h
    | remark => exact houtside trivial fun column hcolumn => by cases hcolumn
    | margin column =>
      by_cases hc : Opens c
      · exact .opens hc (hinside _ (lex_opens line column hc s ▸ h))
      · exact houtside trivial fun _ _ => hc

theorem lexes_of_tokenize {source : List Char} (h : tokenize source = .ok lines) :
    Lexes 1 (.margin 0) (Text.unifyBreaks source) lines :=
  lexes_of_lex h

/-! ## Passages on the way -/

theorem passages_cons {read : Option LogicalLine} (h : step m line c next = .ok (read, m')) :
    passages line m (c :: next) = ⟨m, c, m'⟩ :: passages (lineAfter line c) m' next := by
  rw [passages, h]

theorem passages_ends (h : l.Ends c) :
    passages line (.inside l) (c :: next) =
      ⟨.inside l, c, .margin 0⟩ :: passages (line + 1) (.margin 0) next := by
  have hstep : step (.inside l) line c next = .ok (some l.finish, .margin 0) := by
    rw [step, stepInside_eq, if_pos h]
  rw [passages_cons hstep, lineAfter, if_pos h.2.2]

theorem passages_grows (hgoes : ¬l.Ends c) (hgrow : Grows l line c next l₁) :
    passages line (.inside l) (c :: next) =
      ⟨.inside l, c, .inside l₁⟩ :: passages (lineAfter line c) (.inside l₁) next := by
  have hstep : step (.inside l) line c next = .ok (none, .inside l₁) := by
    rw [step, stepInside_eq, if_neg hgoes, grow_eq_ok_iff.mpr hgrow]
    rfl
  exact passages_cons hstep

/-- Where a logical line begins, the reader goes on as inside it. -/
theorem passages_opens (h : Opens c) :
    passages line (.margin column) (c :: next) =
      (passages line (.inside (.start line column)) (c :: next)).modifyHead
        fun p => { p with before := .margin column } := by
  have hstep : step (.margin column) line c next =
      step (.inside (.start line column)) line c next := by
    obtain ⟨h1, h2, h3, h4, h5⟩ := h
    rw [step, if_neg h1, if_neg h2, if_neg h3, if_neg h4, if_neg h5, step]
  rw [passages, passages, hstep]
  split <;> rfl

/-! ## Lines on the way -/

/-- Where the source ends, nothing is left open. -/
theorem Lexes.frames_of_nil (h : Lexes line (.inside l) [] lines) (hl : Proper l.frames) :
    l.frames = [] := by
  cases h with
  | stop _ hidle => exact hidle.elim
  | last _ hclosed => exact eq_nil_of_proper hl (eq_field_of_closed hclosed)

/-- What a character does to a sound line on the way, and that the line stays sound. -/
theorem Lexes.fate (h : Lexes (lineAfter line c) (.inside l₁) next lines) (hgoes : ¬l.Ends c)
    (hgrow : Grows l line c next l₁) (hl : l.Sound) :
    Fate l line c next l₁ ∧ l₁.Sound ∧ (next = [] → l₁.inCode = true) := by
  have hproper := hgrow.proper hl.proper
  have hend : next = [] → l₁.inCode = true := by
    rintro rfl
    rw [OpenLine.inCode, h.frames_of_nil hproper]
    rfl
  have hfate := hgrow.fate hl hgoes
  exact ⟨hfate, hfate.sound hl hproper hend, hend⟩

end StepTrace.Python

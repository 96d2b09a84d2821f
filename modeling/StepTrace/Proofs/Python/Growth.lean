import StepTrace.Python.LogicalLine.Reader
import Mathlib.Data.List.Basic

/-!
# How a logical line grows

What the reader of logical lines makes of one character that does not end the line. `Grows` lists
all that can happen, and `grow_eq_ok_iff` says that the list is right; the laws of a step are read
off it: how much text is gained (`Grows.size`), that open constructs stay proper (`Grows.proper`),
that where the line stands does not matter (`grow_moved`), and that of what follows only the next
two characters do (`Grows.congr`).
-/

set_option autoImplicit false

namespace StepTrace.Python

/-! ## One character -/

/-- A construct without the line it stands on. -/
def Frame.unlined : Frame → Frame
  | .bracket opener _ => .bracket opener 0
  | .string quote triple format _ => .string quote triple format 0
  | .field => .field

/-- Whether a construct is a string. -/
def Frame.isString : Frame → Bool
  | .string _ _ _ _ => true
  | _ => false

/-- A logical line without the place it stands at. -/
def LogicalLine.unplaced (l : LogicalLine) : LogicalLine := { l with line := 0, indent := 0 }

namespace OpenLine

/-- A line that is being read without the place it stands at. -/
def unplaced (l : OpenLine) : OpenLine :=
  { l with line := 0, indent := 0, frames := l.frames.map Frame.unlined }

/-- The line inside or outside a comment. -/
def remarking (l : OpenLine) (b : Bool) : OpenLine := { l with comment := b }

/-- The line with other open constructs. -/
def reframed (l : OpenLine) (frames : List Frame) : OpenLine := { l with frames := frames }

/-- The line with a top-level colon noted at the next character. -/
def noteColon (l : OpenLine) : OpenLine := { l with colons := l.offset :: l.colons }

/-- The line with a top-level semicolon noted at the next character. -/
def noteSemicolon (l : OpenLine) : OpenLine := { l with semicolons := l.offset :: l.semicolons }

/-- Whether a character ends the line. -/
def Ends (l : OpenLine) (c : Char) : Prop := l.skip = 0 ∧ l.frames = [] ∧ c = '\n'

instance (l : OpenLine) (c : Char) : Decidable (l.Ends c) := by
  unfold Ends
  infer_instance

/-- Whether the innermost open construct is no string. -/
def inCode (l : OpenLine) : Bool := !l.frames.head?.any Frame.isString

/-- The line with one more character that does not end it. -/
def grow (l : OpenLine) (line : Nat) (c : Char) (next : List Char) :
    Except SyntaxError OpenLine :=
  match l.skip with
  | k + 1 => .ok (l.passing k)
  | 0 =>
    match l.frames with
    | .string quote triple format opened :: _ => stepString l quote triple format opened c next
    | _ =>
      if l.comment = true ∧ c ≠ '\n' then .ok l
      else stepCode (l.remarking false) line c next

end OpenLine

/-- The three situations in which a character is read: it is taken already, it stands in a string,
or in code. -/
inductive OpenLine.Situation (l : OpenLine) : Prop
  | taken (k : Nat) : l.skip = k + 1 → Situation l
  | string (quote : Char) (triple format : Bool) (opened : Nat) (outer : List Frame) :
      l.skip = 0 → l.frames = .string quote triple format opened :: outer → Situation l
  | code : l.skip = 0 → l.inCode = true → Situation l

theorem OpenLine.situation (l : OpenLine) : l.Situation := by
  cases hskip : l.skip with
  | succ k => exact .taken k hskip
  | zero =>
    rcases hframes : l.frames with _ | ⟨_ | ⟨quote, triple, format, opened⟩ | _, outer⟩
    · exact .code hskip (by rw [OpenLine.inCode, hframes]; rfl)
    · exact .code hskip (by rw [OpenLine.inCode, hframes]; rfl)
    · exact .string quote triple format opened outer hskip hframes
    · exact .code hskip (by rw [OpenLine.inCode, hframes]; rfl)

variable {l : OpenLine} {line : Nat} {c : Char} {next : List Char}

theorem grow_taken {k : Nat} (h : l.skip = k + 1) : l.grow line c next = .ok (l.passing k) := by
  unfold OpenLine.grow
  split
  · simp_all
  · simp_all

theorem grow_string {quote : Char} {triple format : Bool} {opened : Nat} {outer : List Frame}
    (hskip : l.skip = 0) (hframes : l.frames = .string quote triple format opened :: outer) :
    l.grow line c next = stepString l quote triple format opened c next := by
  unfold OpenLine.grow
  split
  · simp_all
  · split
    · simp_all
    · next h => exact absurd hframes (h quote triple format opened outer)

theorem grow_code (hskip : l.skip = 0) (hcode : l.inCode = true) :
    l.grow line c next =
      if l.comment = true ∧ c ≠ '\n' then .ok l
      else stepCode (l.remarking false) line c next := by
  unfold OpenLine.grow
  split
  · simp_all
  · split
    · next h => simp [OpenLine.inCode, h, Frame.isString] at hcode
    · rfl

/-- What a character does in a string. -/
inductive StringStep (l : OpenLine) (quote : Char) (triple format : Bool) (c : Char)
    (next : List Char) : OpenLine → Prop
  | loneEscape : c = '\\' → next = [] → StringStep l quote triple format c next (l.push c)
  | escapedBreak : c = '\\' → next.head? = some '\n' →
      StringStep l quote triple format c next (((l.push c).breakLine true).passing 1)
  | escape (e : Char) : c = '\\' → next.head? = some e → e ≠ '\n' →
      StringStep l quote triple format c next (((l.push c).push e).passing 1)
  | broken : c = '\n' → triple = true → StringStep l quote triple format c next (l.breakLine true)
  | closed : c = quote → c ≠ '\\' → c ≠ '\n' → triple = false →
      StringStep l quote triple format c next (l.push c).leave
  | closedTriple : c = quote → c ≠ '\\' → c ≠ '\n' → triple = true → next.take 2 = [c, c] →
      StringStep l quote triple format c next ((((l.push c).push c).push c).leave.passing 2)
  | inner : c = quote → c ≠ '\\' → c ≠ '\n' → triple = true → next.take 2 ≠ [c, c] →
      StringStep l quote triple format c next (l.push c)
  | doubled : c = '\x7b' → c ≠ quote → format = true → next.head? = some '\x7b' →
      StringStep l quote triple format c next (((l.push c).push c).passing 1)
  | field : c = '\x7b' → c ≠ quote → format = true → next.head? ≠ some '\x7b' →
      StringStep l quote triple format c next ((l.push c).enter .field)
  | plain : c ≠ '\\' → c ≠ '\n' → c ≠ quote → ¬(c = '\x7b' ∧ format = true) →
      StringStep l quote triple format c next (l.push c)

theorem stepString_eq_ok_iff {quote : Char} {triple format : Bool} {opened : Nat} {l' : OpenLine} :
    stepString l quote triple format opened c next = .ok l' ↔
      StringStep l quote triple format c next l' := by
  constructor
  · -- the branches of the step, in its order
    intro h
    unfold stepString at h
    split_ifs at h with h1 h2 h3 h4 h5 h6 h7 h8
    · cases next with
      | nil => cases h; exact .loneEscape h1 rfl
      | cons e next =>
        dsimp only at h
        split_ifs at h with he
        · cases h; exact .escapedBreak h1 (by simp [he])
        · cases h; exact .escape e h1 rfl he
    · cases h; exact .broken h2 h3
    · subst h4; cases h; exact .closedTriple rfl h1 h2 h5 h6
    · subst h4; cases h; exact .inner rfl h1 h2 h5 h6
    · subst h4; cases h; exact .closed rfl h1 h2 (by simpa using h5)
    · cases h; exact .doubled h7.1 h4 h7.2 h8
    · cases h; exact .field h7.1 h4 h7.2 h8
    · cases h; exact .plain h1 h2 h4 h7
  · intro h
    cases h with
    | loneEscape h1 h2 => simp [stepString, h1, h2]
    | escapedBreak h1 h2 =>
      obtain ⟨next, rfl⟩ := List.head?_eq_some_iff.mp h2
      simp [stepString, h1]
    | escape e h1 h2 h3 =>
      obtain ⟨next, rfl⟩ := List.head?_eq_some_iff.mp h2
      simp [stepString, h1, h3]
    | broken h1 h2 => simp [stepString, h1, h2]
    | closed h1 h2 h3 h4 => simp [stepString, ← h1, h2, h3, h4]
    | closedTriple h1 h2 h3 h4 h5 => simp [stepString, ← h1, h2, h3, h4, h5]
    | inner h1 h2 h3 h4 h5 => simp [stepString, ← h1, h2, h3, h4, h5]
    | doubled h1 h2 h3 h4 => subst h1; simp [stepString, h2, h3, h4]
    | field h1 h2 h3 h4 => subst h1; simp [stepString, h2, h3, h4]
    | plain h1 h2 h3 h4 => simp [stepString, h1, h2, h3, h4]

/-- What a character does in code. -/
inductive CodeStep (l : OpenLine) (line : Nat) (c : Char) (next : List Char) : OpenLine → Prop
  | remark : c = '#' → l.frames.head? ≠ some .field →
      CodeStep l line c next (l.remarking true)
  | joined : c = '\\' → next.head? = some '\n' →
      CodeStep l line c next (((l.push c).breakLine false).passing 1)
  | broken : c = '\n' → CodeStep l line c next l.continueLine
  | opened : c = '(' ∨ c = '[' ∨ c = '\x7b' →
      CodeStep l line c next ((l.enter (.bracket c line)).push c)
  | closed (frames : List Frame) : c = ')' ∨ c = ']' ∨ c = '\x7d' →
      closeBracket line c l.frames = .ok frames →
      CodeStep l line c next ((l.reframed frames).push c)
  | quote : c = '\x27' ∨ c = '\x22' → next.take 2 ≠ [c, c] →
      CodeStep l line c next ((l.enter (.string c false l.opensFormat line)).push c)
  | quoteTriple : c = '\x27' ∨ c = '\x22' → next.take 2 = [c, c] →
      CodeStep l line c next
        (((((l.enter (.string c true l.opensFormat line)).push c).push c).push c).passing 2)
  | colon : c = ':' → l.frames = [] → next.head? ≠ some '=' →
      CodeStep l line c next (l.noteColon.push c)
  | semicolon : c = ';' → l.frames = [] →
      CodeStep l line c next (l.noteSemicolon.push c)
  | plain : ¬(c = '#' ∧ l.frames.head? ≠ some .field) → ¬(c = '\\' ∧ next.head? = some '\n') →
      c ≠ '\n' → ¬(c = '(' ∨ c = '[' ∨ c = '\x7b') → ¬(c = ')' ∨ c = ']' ∨ c = '\x7d') →
      ¬(c = '\x27' ∨ c = '\x22') → ¬(c = ':' ∧ l.frames = [] ∧ next.head? ≠ some '=') →
      ¬(c = ';' ∧ l.frames = []) → CodeStep l line c next (l.push c)

theorem stepCode_eq_ok_iff {l' : OpenLine} :
    stepCode l line c next = .ok l' ↔ CodeStep l line c next l' := by
  constructor
  · -- the branches of the step, in its order; each constructor asks that those before it did not hold
    intro h
    unfold stepCode at h
    by_cases h1 : c = '#' ∧ l.frames.head? ≠ some .field
    · rw [if_pos h1] at h
      cases h
      exact .remark h1.1 h1.2
    rw [if_neg h1] at h
    by_cases h2 : c = '\\' ∧ next.head? = some '\n'
    · rw [if_pos h2] at h
      cases h
      exact .joined h2.1 h2.2
    rw [if_neg h2] at h
    by_cases h3 : c = '\n'
    · rw [if_pos h3] at h
      cases h
      exact .broken h3
    rw [if_neg h3] at h
    by_cases h4 : c = '(' ∨ c = '[' ∨ c = '\x7b'
    · rw [if_pos h4] at h
      cases h
      exact .opened h4
    rw [if_neg h4] at h
    by_cases h5 : c = ')' ∨ c = ']' ∨ c = '\x7d'
    · rw [if_pos h5] at h
      cases hclose : closeBracket line c l.frames with
      | error e => simp [hclose] at h
      | ok frames =>
        rw [hclose] at h
        cases h
        exact .closed frames h5 hclose
    rw [if_neg h5] at h
    by_cases h6 : c = '\x27' ∨ c = '\x22'
    · rw [if_pos h6] at h
      by_cases h7 : next.take 2 = [c, c]
      · rw [if_pos h7] at h
        cases h
        exact .quoteTriple h6 h7
      · rw [if_neg h7] at h
        cases h
        exact .quote h6 h7
    rw [if_neg h6] at h
    by_cases h8 : c = ':' ∧ l.frames = [] ∧ next.head? ≠ some '='
    · rw [if_pos h8] at h
      cases h
      exact .colon h8.1 h8.2.1 h8.2.2
    rw [if_neg h8] at h
    by_cases h9 : c = ';' ∧ l.frames = []
    · rw [if_pos h9] at h
      cases h
      exact .semicolon h9.1 h9.2
    rw [if_neg h9] at h
    cases h
    exact .plain h1 h2 h3 h4 h5 h6 h8 h9
  · intro h
    cases h with
    | remark h1 h2 => simp [stepCode, OpenLine.remarking, h1, h2]
    | joined h1 h2 => simp [stepCode, h1, h2]
    | broken h1 => simp [stepCode, h1]
    | opened h1 => rcases h1 with rfl | rfl | rfl <;> simp [stepCode]
    | closed frames h1 h2 =>
      rcases h1 with rfl | rfl | rfl <;> simp [stepCode, OpenLine.reframed, h2]
    | quote h1 h2 => rcases h1 with rfl | rfl <;> simp [stepCode, h2]
    | quoteTriple h1 h2 => rcases h1 with rfl | rfl <;> simp [stepCode, h2]
    | colon h1 h2 h3 => simp [stepCode, OpenLine.noteColon, h1, h2, h3]
    | semicolon h1 h2 => simp [stepCode, OpenLine.noteSemicolon, h1, h2]
    | plain h1 h2 h3 h4 h5 h6 h7 h8 =>
      -- the only step that is left when all conditions fail, so they are not simplified away
      rw [stepCode, if_neg h1, if_neg h2, if_neg h3, if_neg h4, if_neg h5, if_neg h6, if_neg h7,
        if_neg h8]

/-- What a character that does not end a line does to it. -/
inductive Grows (l : OpenLine) (line : Nat) (c : Char) (next : List Char) : OpenLine → Prop
  | taken (k : Nat) : l.skip = k + 1 → Grows l line c next (l.passing k)
  | string (quote : Char) (triple format : Bool) (opened : Nat) (outer : List Frame)
      (l' : OpenLine) : l.skip = 0 → l.frames = .string quote triple format opened :: outer →
      StringStep l quote triple format c next l' → Grows l line c next l'
  | comment : l.skip = 0 → l.inCode = true → l.comment = true → c ≠ '\n' → Grows l line c next l
  | code (l' : OpenLine) : l.skip = 0 → l.inCode = true → (l.comment = true → c = '\n') →
      CodeStep (l.remarking false) line c next l' → Grows l line c next l'

theorem grow_eq_ok_iff {l' : OpenLine} :
    l.grow line c next = .ok l' ↔ Grows l line c next l' := by
  constructor
  · intro h
    cases l.situation with
    | taken k hk =>
      rw [grow_taken hk] at h
      cases h
      exact .taken k hk
    | string quote triple format opened outer h0 h1 =>
      rw [grow_string h0 h1, stepString_eq_ok_iff] at h
      exact .string quote triple format opened outer l' h0 h1 h
    | code h0 h1 =>
      -- a comment takes all but the line feed that ends it
      rw [grow_code h0 h1] at h
      split_ifs at h with hcomment
      · cases h
        exact .comment h0 h1 hcomment.1 hcomment.2
      · rw [stepCode_eq_ok_iff] at h
        exact .code l' h0 h1 (fun hc => by simpa [hc] using hcomment) h
  · intro h
    cases h with
    | taken k hk => exact grow_taken hk
    | string quote triple format opened outer _ h0 h1 h2 =>
      rw [grow_string h0 h1, stepString_eq_ok_iff]
      exact h2
    | comment h0 h1 h2 h3 => rw [grow_code h0 h1, if_pos ⟨h2, h3⟩]
    | code _ h0 h1 h2 h3 =>
      rw [grow_code h0 h1, if_neg fun h => h.2 (h2 h.1), stepCode_eq_ok_iff]
      exact h3

/-- Inside a logical line a character either ends it or lets it grow. -/
theorem stepInside_eq (l : OpenLine) (line : Nat) (c : Char) (next : List Char) :
    stepInside l line c next =
      if l.Ends c then .ok (some l.finish, .margin 0)
      else (l.grow line c next).map fun l' => (none, .inside l') := by
  unfold stepInside
  split
  · next k hk =>
    rw [if_neg fun h => absurd (hk.symm.trans h.1) (by simp), grow_taken hk]
    rfl
  · next h0 =>
    split
    · next quote triple format opened outer hf =>
      rw [if_neg fun h => absurd (hf.symm.trans h.2.1) (by simp), grow_string h0 hf]
      cases stepString l quote triple format opened c next <;> rfl
    · next hf =>
      have hcode : l.inCode = true := by
        cases l.situation with
        | taken k hk => omega
        | string quote triple format opened outer _ h => exact absurd h (hf _ _ _ _ _)
        | code _ h => exact h
      rw [grow_code h0 hcode]
      -- in a comment the two agree as well: there only a line feed ends the line
      by_cases hcomment : l.comment = true ∧ c ≠ '\n'
      · rw [if_pos hcomment, if_neg fun h => hcomment.2 h.2.2, if_pos hcomment]
        rfl
      · have hends : l.Ends c ↔ c = '\n' ∧ l.frames = [] := by
          rw [OpenLine.Ends, and_iff_right h0, and_comm]
        rw [if_neg hcomment, if_neg hcomment]
        simp only [hends, OpenLine.remarking]
        split_ifs
        · rfl
        · cases stepCode { l with comment := false } line c next <;> rfl

/-! ## Where a line stands does not matter -/

/-- A construct on another line. -/
def Frame.moved (f : Nat → Nat) : Frame → Frame
  | .bracket opener line => .bracket opener (f line)
  | .string quote triple format line => .string quote triple format (f line)
  | .field => .field

/-- A line that is being read, on another line and at another indentation. -/
def OpenLine.moved (f g : Nat → Nat) (l : OpenLine) : OpenLine :=
  { l with line := f l.line, indent := g l.indent, frames := l.frames.map (Frame.moved f) }

/-- The error on another line. -/
def SyntaxError.moved (f : Nat → Nat) : SyntaxError → SyntaxError
  | .unterminatedString line => .unterminatedString (f line)
  | .unmatchedBracket line found => .unmatchedBracket (f line) found
  | .mismatchedBracket line found expected => .mismatchedBracket (f line) found expected
  | .unclosedBracket line opener => .unclosedBracket (f line) opener
  | .unexpectedIndent line => .unexpectedIndent (f line)
  | .inconsistentDedent line => .inconsistentDedent (f line)
  | .expectedIndentedBlock line keyword => .expectedIndentedBlock (f line) keyword
  | .missingColon line keyword => .missingColon (f line) keyword
  | .orphanClause line keyword => .orphanClause (f line) keyword
  | .incompleteTry line => .incompleteTry (f line)
  | .danglingDecorator line => .danglingDecorator (f line)
  | .expectedCase line => .expectedCase (f line)

/-- What is read from lines with other numbers. -/
def relined {α β : Type} (f : Nat → Nat) (move : α → β) :
    Except SyntaxError α → Except SyntaxError β
  | .ok a => .ok (move a)
  | .error e => .error (e.moved f)

theorem frames_moved_eq_nil (f g : Nat → Nat) (l : OpenLine) :
    (l.moved f g).frames = [] ↔ l.frames = [] :=
  List.map_eq_nil_iff

theorem ends_moved (f g : Nat → Nat) (l : OpenLine) (c : Char) :
    (l.moved f g).Ends c ↔ l.Ends c :=
  and_congr Iff.rfl (and_congr (frames_moved_eq_nil f g l) Iff.rfl)

theorem inCode_moved (f g : Nat → Nat) (l : OpenLine) : (l.moved f g).inCode = l.inCode := by
  dsimp only [OpenLine.moved, OpenLine.inCode]
  rcases l.frames with _ | ⟨_ | _ | _, outer⟩ <;> rfl

theorem stepString_moved (f g : Nat → Nat) (l : OpenLine) (quote : Char) (triple format : Bool)
    (opened : Nat) (c : Char) (next : List Char) :
    stepString (l.moved f g) quote triple format (f opened) c next =
      relined f (OpenLine.moved f g) (stepString l quote triple format opened c next) := by
  have hleave : ∀ l : OpenLine, l.leave.moved f g = (l.moved f g).leave := by
    intro l
    simp [OpenLine.leave, OpenLine.moved, List.map_tail]
  unfold stepString
  split_ifs
  · cases next with
    | nil => rfl
    | cons e next =>
      dsimp only
      split_ifs <;> rfl
  · rfl
  · rfl
  · have hquotes := hleave (((l.push quote).push quote).push quote)
    exact congrArg (fun l => Except.ok (l.passing 2)) hquotes.symm
  · rfl
  · exact congrArg Except.ok (hleave (l.push quote)).symm
  · rfl
  · rfl
  · rfl

theorem closeBracket_moved (f : Nat → Nat) (line : Nat) (c : Char) (frames : List Frame) :
    closeBracket (f line) c (frames.map (Frame.moved f)) =
      relined f (List.map (Frame.moved f)) (closeBracket line c frames) := by
  rcases frames with _ | ⟨⟨opener, opened⟩ | _ | _, outer⟩
  · rfl
  · simp only [closeBracket, List.map_cons, Frame.moved]
    split_ifs <;> rfl
  · rfl
  · simp only [closeBracket, List.map_cons, Frame.moved]
    split_ifs <;> rfl

theorem continueLine_moved (f g : Nat → Nat) (l : OpenLine) :
    (l.moved f g).continueLine = l.continueLine.moved f g := by
  have hsame : ((l.moved f g).earlier ≠ [] ∧ (l.moved f g).inString = false ∧
      Text.allBlank (l.moved f g).current = true) =
      (l.earlier ≠ [] ∧ l.inString = false ∧ Text.allBlank l.current = true) := rfl
  unfold OpenLine.continueLine
  simp only [hsame]
  split_ifs <;> rfl

theorem stepCode_moved (f g : Nat → Nat) (l : OpenLine) (line : Nat) (c : Char)
    (next : List Char) :
    stepCode (l.moved f g) (f line) c next =
      relined f (OpenLine.moved f g) (stepCode l line c next) := by
  have hfield : (l.moved f g).frames.head? ≠ some .field ↔ l.frames.head? ≠ some .field := by
    dsimp only [OpenLine.moved]
    rcases l.frames with _ | ⟨_ | _ | _, outer⟩ <;> simp [Frame.moved]
  unfold stepCode
  -- from here on both sides ask the same questions, so they take the same branch
  simp only [hfield, frames_moved_eq_nil]
  by_cases h1 : c = '#' ∧ l.frames.head? ≠ some .field
  · rw [if_pos h1, if_pos h1]
    rfl
  rw [if_neg h1, if_neg h1]
  by_cases h2 : c = '\\' ∧ next.head? = some '\n'
  · rw [if_pos h2, if_pos h2]
    rfl
  rw [if_neg h2, if_neg h2]
  by_cases h3 : c = '\n'
  · rw [if_pos h3, if_pos h3]
    exact congrArg Except.ok (continueLine_moved f g l)
  rw [if_neg h3, if_neg h3]
  by_cases h4 : c = '(' ∨ c = '[' ∨ c = '\x7b'
  · rw [if_pos h4, if_pos h4]
    rfl
  rw [if_neg h4, if_neg h4]
  by_cases h5 : c = ')' ∨ c = ']' ∨ c = '\x7d'
  · -- the one branch that may refuse the character
    have hclose := closeBracket_moved f line c l.frames
    have hframes : (l.moved f g).frames = l.frames.map (Frame.moved f) := rfl
    rw [if_pos h5, if_pos h5, hframes, hclose]
    cases closeBracket line c l.frames <;> rfl
  rw [if_neg h5, if_neg h5]
  by_cases h6 : c = '\x27' ∨ c = '\x22'
  · rw [if_pos h6, if_pos h6]
    split_ifs <;> rfl
  rw [if_neg h6, if_neg h6]
  by_cases h8 : c = ':' ∧ l.frames = [] ∧ next.head? ≠ some '='
  · rw [if_pos h8, if_pos h8]
    rfl
  rw [if_neg h8, if_neg h8]
  by_cases h9 : c = ';' ∧ l.frames = []
  · rw [if_pos h9, if_pos h9]
    rfl
  rw [if_neg h9, if_neg h9]
  rfl

/-- A line that stands elsewhere grows alike, or is refused for the same cause. -/
theorem grow_moved (f g : Nat → Nat) (l : OpenLine) (line : Nat) (c : Char) (next : List Char) :
    (l.moved f g).grow (f line) c next =
      relined f (OpenLine.moved f g) (l.grow line c next) := by
  cases l.situation with
  | taken k h =>
    have h' : (l.moved f g).skip = k + 1 := h
    rw [grow_taken h, grow_taken h']
    rfl
  | string quote triple format opened outer h0 h =>
    have h0' : (l.moved f g).skip = 0 := h0
    have h' : (l.moved f g).frames =
        .string quote triple format (f opened) :: outer.map (Frame.moved f) := by
      simp [OpenLine.moved, h, Frame.moved]
    rw [grow_string h0 h, grow_string h0' h']
    exact stepString_moved f g l quote triple format opened c next
  | code h0 h =>
    have h0' : (l.moved f g).skip = 0 := h0
    have hcomment : (l.moved f g).comment = l.comment := rfl
    rw [grow_code h0 h, grow_code h0' ((inCode_moved f g l).trans h), hcomment]
    split_ifs
    · rfl
    · exact stepCode_moved f g (l.remarking false) line c next

theorem unplaced_eq_moved (l : OpenLine) : l.unplaced = l.moved (fun _ => 0) fun _ => 0 := by
  have hunlined : Frame.unlined = Frame.moved fun _ => 0 := by
    funext frame
    cases frame <;> rfl
  rw [OpenLine.unplaced, hunlined]
  rfl

theorem frames_unplaced_eq_nil (l : OpenLine) : l.unplaced.frames = [] ↔ l.frames = [] :=
  List.map_eq_nil_iff

theorem ends_unplaced (l : OpenLine) (c : Char) : l.unplaced.Ends c ↔ l.Ends c :=
  and_congr Iff.rfl (and_congr (frames_unplaced_eq_nil l) Iff.rfl)

/-- What a character makes of a line depends on where the line stands in line numbers only. -/
theorem grow_unplaced (l : OpenLine) (line : Nat) (c : Char) (next : List Char) :
    (l.grow line c next).toOption.map OpenLine.unplaced =
      (l.unplaced.grow 0 c next).toOption := by
  rw [unplaced_eq_moved, grow_moved (fun _ => 0) (fun _ => 0) l line c next]
  cases l.grow line c next with
  | error e => rfl
  | ok l' => exact congrArg some (unplaced_eq_moved l')

/-! ## The laws of a step -/

variable {l' : OpenLine}

namespace OpenLine

variable (l) (f : Frame) (d : Char) (b : Bool) (k : Nat)

@[simp] theorem behind_push : (l.push d).behind = d :: l.behind := rfl
@[simp] theorem frames_push : (l.push d).frames = l.frames := rfl
@[simp] theorem skip_push : (l.push d).skip = l.skip := rfl
@[simp] theorem behind_breakLine : (l.breakLine b).behind = '\n' :: l.behind := rfl
@[simp] theorem frames_breakLine : (l.breakLine b).frames = l.frames := rfl
@[simp] theorem skip_breakLine : (l.breakLine b).skip = l.skip := rfl
@[simp] theorem behind_enter : (l.enter f).behind = l.behind := rfl
@[simp] theorem frames_enter : (l.enter f).frames = f :: l.frames := rfl
@[simp] theorem skip_enter : (l.enter f).skip = l.skip := rfl
@[simp] theorem behind_leave : l.leave.behind = l.behind := rfl
@[simp] theorem frames_leave : l.leave.frames = l.frames.tail := rfl
@[simp] theorem skip_leave : l.leave.skip = l.skip := rfl
@[simp] theorem behind_passing : (l.passing k).behind = l.behind := rfl
@[simp] theorem frames_passing : (l.passing k).frames = l.frames := rfl
@[simp] theorem behind_remarking : (l.remarking b).behind = l.behind := rfl
@[simp] theorem frames_remarking : (l.remarking b).frames = l.frames := rfl
@[simp] theorem skip_remarking : (l.remarking b).skip = l.skip := rfl
@[simp] theorem behind_reframed (fs : List Frame) : (l.reframed fs).behind = l.behind := rfl
@[simp] theorem frames_reframed (fs : List Frame) : (l.reframed fs).frames = fs := rfl
@[simp] theorem skip_reframed (fs : List Frame) : (l.reframed fs).skip = l.skip := rfl
@[simp] theorem behind_noteColon : l.noteColon.behind = l.behind := rfl
@[simp] theorem frames_noteColon : l.noteColon.frames = l.frames := rfl
@[simp] theorem skip_noteColon : l.noteColon.skip = l.skip := rfl
@[simp] theorem behind_noteSemicolon : l.noteSemicolon.behind = l.behind := rfl
@[simp] theorem frames_noteSemicolon : l.noteSemicolon.frames = l.frames := rfl
@[simp] theorem skip_noteSemicolon : l.noteSemicolon.skip = l.skip := rfl
@[simp] theorem skip_passing : (l.passing k).skip = k := rfl

end OpenLine

theorem behind_continueLine (l : OpenLine) :
    l.continueLine.behind = l.earlier ∨ l.continueLine.behind = '\n' :: l.behind := by
  unfold OpenLine.continueLine
  split_ifs
  · exact .inl rfl
  · exact .inr rfl

theorem frames_continueLine (l : OpenLine) : l.continueLine.frames = l.frames := by
  unfold OpenLine.continueLine
  split_ifs <;> rfl

theorem skip_continueLine (l : OpenLine) : l.continueLine.skip = l.skip := by
  unfold OpenLine.continueLine
  split_ifs <;> rfl

/-- A line stays where it began. -/
theorem Grows.place (h : Grows l line c next l') : l'.line = l.line ∧ l'.indent = l.indent := by
  cases h with
  | taken k hk => exact ⟨rfl, rfl⟩
  | string _ _ _ _ _ _ _ _ h => cases h <;> exact ⟨rfl, rfl⟩
  | comment => exact ⟨rfl, rfl⟩
  | code _ _ _ _ h =>
    cases h with
    | broken =>
      unfold OpenLine.continueLine
      split_ifs <;> exact ⟨rfl, rfl⟩
    | _ => exact ⟨rfl, rfl⟩

/-- A character adds itself and what is taken along, or less. -/
theorem Grows.size (h : Grows l line c next l') (hskip : l.skip = 0) :
    l'.behind.length ≤ l.behind.length + 1 + l'.skip ∧ l'.skip ≤ next.length := by
  -- what is taken along was seen ahead, so there is that much of it
  have htwo : ∀ d : Char, next.take 2 = [d, d] → 2 ≤ next.length := by
    intro d hd
    have hlen := congrArg List.length hd
    rw [List.length_take] at hlen
    simp only [List.length_cons, List.length_nil] at hlen
    omega
  have hone : ∀ d : Char, next.head? = some d → 1 ≤ next.length := by
    intro d hd
    obtain ⟨rest, rfl⟩ := List.head?_eq_some_iff.mp hd
    simp
  cases h with
  | taken k hk => omega
  | string _ _ _ _ _ _ _ _ h =>
    cases h with
    | escapedBreak _ hnext => simpa using hone _ hnext
    | escape e _ hnext => simpa using hone _ hnext
    | closedTriple _ _ _ _ hnext => simpa using htwo _ hnext
    | doubled _ _ _ hnext => simpa using hone _ hnext
    | _ => simp [hskip]
  | comment => simp [hskip]
  | code _ _ _ _ h =>
    cases h with
    | joined _ hnext => simpa using hone _ hnext
    | broken =>
      -- a physical line that is dropped makes the text shorter
      have hless : l.earlier.length ≤ l.behind.length := by simp [OpenLine.behind]
      rw [skip_continueLine, OpenLine.skip_remarking, hskip]
      refine ⟨?_, Nat.zero_le _⟩
      rcases behind_continueLine (l.remarking false) with hb | hb
      · rw [hb]
        exact Nat.le_trans hless (Nat.le_add_right _ 1)
      · rw [hb, OpenLine.behind_remarking]
        exact Nat.le_refl _
    | quoteTriple _ hnext => simpa using htwo _ hnext
    | _ => simp [hskip]

/-- Open constructs as they can come about: a replacement field stands in a string, and a string
has a quote. -/
def Proper (frames : List Frame) : Prop :=
  frames.getLast? ≠ some .field ∧
    ∀ quote triple format opened, .string quote triple format opened ∈ frames →
      quote = '\x27' ∨ quote = '\x22'

theorem Proper.nil : Proper [] := by
  simp [Proper]

theorem Proper.cons {f : Frame} {frames : List Frame} (h : Proper frames)
    (hfield : f = .field → frames ≠ [])
    (hquote : ∀ quote triple format opened, f = .string quote triple format opened →
      quote = '\x27' ∨ quote = '\x22') : Proper (f :: frames) := by
  refine ⟨?_, fun quote triple format opened hmem => ?_⟩
  · cases frames with
    | nil =>
      intro hf
      exact hfield (by simpa using hf) rfl
    | cons g outer =>
      rw [List.getLast?_cons_cons]
      exact h.1
  · rcases List.mem_cons.mp hmem with heq | hmem
    · exact hquote quote triple format opened heq.symm
    · exact h.2 quote triple format opened hmem

/-- The quote of a string is a sign. -/
theorem Proper.isBlank_quote {frames outer : List Frame} {quote : Char} {triple format : Bool}
    {opened : Nat} (h : Proper frames) (hf : frames = .string quote triple format opened :: outer) :
    Text.isBlank quote = false := by
  rcases h.2 quote triple format opened (by simp [hf]) with rfl | rfl <;> decide

theorem Proper.tail {frames : List Frame} (h : Proper frames) : Proper frames.tail := by
  cases frames with
  | nil => exact h
  | cons f outer =>
    refine ⟨?_, fun quote triple format opened hmem => ?_⟩
    · cases outer with
      | nil => simp
      | cons g outer =>
        have hlast := h.1
        rwa [List.getLast?_cons_cons] at hlast
    · exact h.2 quote triple format opened (List.mem_cons_of_mem f hmem)

/-- What a bracket closes: one of its kind, or the field that its brace ends. -/
theorem closed_of_closeBracket {frames outer : List Frame}
    (h : closeBracket line c frames = .ok outer) :
    (∃ opener opened, frames = .bracket opener opened :: outer ∧ closerOf opener = c) ∨
      frames = .field :: outer ∧ c = '\x7d' := by
  unfold closeBracket at h
  split at h
  · next opener opened rest =>
    split_ifs at h with hcloser
    cases h
    exact .inl ⟨opener, opened, rfl, hcloser⟩
  · next rest =>
    split_ifs at h with hbrace
    cases h
    exact .inr ⟨rfl, hbrace⟩
  · cases h

theorem frames_closeBracket {frames outer : List Frame}
    (h : closeBracket line c frames = .ok outer) : outer = frames.tail := by
  rcases closed_of_closeBracket h with ⟨opener, opened, rfl, -⟩ | ⟨rfl, -⟩ <;> rfl

/-- Constructs that can come about stay such. -/
theorem Grows.proper (h : Grows l line c next l') (hl : Proper l.frames) : Proper l'.frames := by
  -- a field is entered in a string only, and a string at its quote only
  cases h with
  | taken => exact hl
  | string _ _ _ _ _ _ _ hf h =>
    cases h with
    | closed => exact hl.tail
    | closedTriple => exact hl.tail
    | field => exact hl.cons (by simp [hf]) (by simp)
    | _ => exact hl
  | comment => exact hl
  | code _ _ _ _ h =>
    cases h with
    | broken =>
      rw [frames_continueLine]
      exact hl
    | opened => exact hl.cons (by simp) (by simp)
    | closed frames _ hclose =>
      rw [OpenLine.frames_push, OpenLine.frames_reframed, frames_closeBracket hclose]
      exact hl.tail
    | quote hc =>
      refine hl.cons (by simp) fun quote triple format opened heq => ?_
      cases heq
      exact hc
    | quoteTriple hc =>
      refine hl.cons (by simp) fun quote triple format opened heq => ?_
      cases heq
      exact hc
    | _ => exact hl

/-- Whether two texts are the same to a character before them. -/
structure Agree (c : Char) (next next' : List Char) : Prop where
  escaped : c = '\\' → next.head? = next'.head?
  quotes : c = '\x27' ∨ c = '\x22' → (next.take 2 = [c, c] ↔ next'.take 2 = [c, c])
  brace : c = '\x7b' → (next.head? = some '\x7b' ↔ next'.head? = some '\x7b')
  equals : c = ':' → (next.head? = some '=' ↔ next'.head? = some '=')

/-- What follows a character matters only so far. -/
theorem Grows.congr {next' : List Char} (h : Grows l line c next l') (hl : Proper l.frames)
    (ha : Agree c next next') : Grows l line c next' l' := by
  cases h with
  | taken k hk => exact .taken k hk
  | string quote triple format opened outer _ h0 hf h =>
    refine .string quote triple format opened outer l' h0 hf ?_
    -- the quote that a string ends at is one of those on which the texts agree
    have hquote := hl.2 quote triple format opened (by simp [hf])
    cases h with
    | loneEscape hc hnext =>
      refine .loneEscape hc ?_
      have hhead := ha.escaped hc
      rwa [hnext, List.head?_nil, eq_comm, List.head?_eq_none_iff] at hhead
    | escapedBreak hc hnext => exact .escapedBreak hc (ha.escaped hc ▸ hnext)
    | escape e hc hnext he => exact .escape e hc (ha.escaped hc ▸ hnext) he
    | broken hc ht => exact .broken hc ht
    | closed hc h1 h2 ht => exact .closed hc h1 h2 ht
    | closedTriple hc h1 h2 ht hnext =>
      exact .closedTriple hc h1 h2 ht ((ha.quotes (hc ▸ hquote)).mp hnext)
    | inner hc h1 h2 ht hnext =>
      exact .inner hc h1 h2 ht fun h => hnext ((ha.quotes (hc ▸ hquote)).mpr h)
    | doubled hc h1 hf hnext => exact .doubled hc h1 hf ((ha.brace hc).mp hnext)
    | field hc h1 hf hnext => exact .field hc h1 hf fun h => hnext ((ha.brace hc).mpr h)
    | plain h1 h2 h3 h4 => exact .plain h1 h2 h3 h4
  | comment h0 h1 h2 h3 => exact .comment h0 h1 h2 h3
  | code _ h0 h1 h2 h =>
    refine .code l' h0 h1 h2 ?_
    cases h with
    | remark hc hf => exact .remark hc hf
    | joined hc hnext => exact .joined hc (ha.escaped hc ▸ hnext)
    | broken hc => exact .broken hc
    | opened hc => exact .opened hc
    | closed frames hc hclose => exact .closed frames hc hclose
    | quote hc hnext => exact .quote hc fun h => hnext ((ha.quotes hc).mpr h)
    | quoteTriple hc hnext => exact .quoteTriple hc ((ha.quotes hc).mp hnext)
    | colon hc hf hnext => exact .colon hc hf fun h => hnext ((ha.equals hc).mpr h)
    | semicolon hc hf => exact .semicolon hc hf
    | plain h1 h2 h3 h4 h5 h6 h7 h8 =>
      refine .plain h1 (fun h => h2 ⟨h.1, (ha.escaped h.1).trans h.2⟩) h3 h4 h5 h6 (fun h => ?_) h8
      exact h7 ⟨h.1, h.2.1, fun hnext => h.2.2 ((ha.equals h.1).mp hnext)⟩

/-- A line that stands elsewhere grows alike. -/
theorem Grows.elsewhere {m : OpenLine} (h : Grows l line c next l') (hm : m.unplaced = l.unplaced)
    (line' : Nat) : ∃ m', Grows m line' c next m' ∧ m'.unplaced = l'.unplaced := by
  have hl := grow_unplaced l line c next
  have hm' := grow_unplaced m line' c next
  rw [grow_eq_ok_iff.mpr h] at hl
  rw [hm, ← hl] at hm'
  cases hgrow : m.grow line' c next with
  | error e =>
    rw [hgrow] at hm'
    cases hm'
  | ok m' =>
    rw [hgrow] at hm'
    exact ⟨m', grow_eq_ok_iff.mp hgrow, Option.some.inj hm'⟩

end StepTrace.Python

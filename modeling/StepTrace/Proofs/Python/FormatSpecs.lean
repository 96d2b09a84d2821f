import StepTrace.Proofs.Python.Slices

/-!
# Format specs in replacement fields

A format spec is text, but the reader takes what stands in a replacement field for code, up to the
closing brace. `Settles` says what a spec must be for the reader to get through it: every bracket is
closed by its own and every single quote by another. A formatted string with a single field is one
logical line if its spec settles, and refused otherwise (`tokenize_fieldString`). So a bracket or a
single quote cannot be the character that a spec fills with; any other character can, the sign of a
comment included (`settles_of_not_delimiters`).
-/

set_option autoImplicit false

namespace StepTrace.Python

/-- What stands before the name in the field. -/
def fieldStart : List Char := ['f', '\x22', '\x7b']

/-- What stands behind the format spec. -/
def fieldEnd : List Char := ['\x7d', '\x22']

/-- A formatted string with one replacement field that has a format spec. -/
def fieldString (name spec : List Char) : List Char :=
  fieldStart ++ (name ++ ':' :: (spec ++ fieldEnd))

/-- What a format spec may be written with, in a string on one line that double quotes close. -/
def SpecChar (c : Char) : Prop :=
  c ≠ '\x7b' ∧ c ≠ '\x7d' ∧ c ≠ '\x22' ∧ c ≠ '\\' ∧ c ≠ '\n'

instance (c : Char) : Decidable (SpecChar c) := by
  unfold SpecChar
  infer_instance

/-- The characters that open and close brackets and strings in a format spec. -/
def delimiters : List Char := "()[]\x27".toList

/-- Whether the rest of a format spec closes the brackets that are open, the innermost first, and
all that it opens itself. -/
inductive Settles : List Char → List Char → Prop
  | done : Settles [] []
  | plain {openers s : List Char} {c : Char} : c ∉ delimiters → (c = '#' → openers = []) →
      Settles openers s → Settles openers (c :: s)
  | opened {openers s : List Char} {c : Char} : c = '(' ∨ c = '[' → Settles (c :: openers) s →
      Settles openers (c :: s)
  | closed {openers s : List Char} {opener : Char} : opener = '(' ∨ opener = '[' →
      Settles openers s → Settles (opener :: openers) (closerOf opener :: s)
  | quoted {openers s body rest : List Char} : s.take 2 ≠ ['\x27', '\x27'] →
      Text.cutAt ['\x27'] s = some (body, rest) → Settles openers rest →
      Settles openers ('\x27' :: s)
  | tripleQuoted {openers s body rest : List Char} :
      Text.cutAt ['\x27', '\x27', '\x27'] s = some (body, rest) → Settles openers rest →
      Settles openers ('\x27' :: '\x27' :: '\x27' :: s)

/-- A spec without brackets and single quotes settles, whatever else is in it. -/
theorem settles_of_not_delimiters {spec : List Char} (h : ∀ c ∈ spec, c ∉ delimiters) :
    Settles [] spec := by
  induction spec with
  | nil => exact .done
  | cons c s ih =>
    exact .plain (h c List.mem_cons_self) (fun _ => rfl)
      (ih fun d hd => h d (List.mem_cons_of_mem c hd))

/-- The characters of words are read alike everywhere. -/
theorem plain_of_isWordChar {c : Char} (h : Text.isWordChar c = true) : Plain c := by
  have hne : ∀ d, Text.isWordChar d = false → c ≠ d := by
    rintro d hd rfl
    exact absurd (h.symm.trans hd) (by simp)
  simp only [Plain, not_or]
  exact ⟨hne _ (by decide), hne _ (by decide), hne _ (by decide),
    ⟨hne _ (by decide), hne _ (by decide), hne _ (by decide)⟩,
    ⟨hne _ (by decide), hne _ (by decide), hne _ (by decide)⟩,
    ⟨hne _ (by decide), hne _ (by decide)⟩, hne _ (by decide), hne _ (by decide)⟩

/-! ## The reader in a field -/

/-- The line in the field of a formatted string, behind some text, the last character first, and in
brackets. -/
def inSpec (behind openers : List Char) : OpenLine :=
  ⟨1, 0, [], behind, false, [], [],
    openers.map (Frame.bracket · 1) ++ [.field, .string '\x22' false true 1], 0, false⟩

/-- The line in single quotes within the field. -/
def inQuotes (behind openers : List Char) (triple format : Bool) : OpenLine :=
  (inSpec behind openers).enter (.string '\x27' triple format 1)

variable {behind openers s next : List Char} {c : Char} {l l₁ : OpenLine} {triple format : Bool}
  {lines : List LogicalLine}

theorem inCode_inSpec (behind openers : List Char) : (inSpec behind openers).inCode = true := by
  cases openers <;> rfl

theorem frames_inSpec_ne_nil (behind openers : List Char) : (inSpec behind openers).frames ≠ [] :=
  List.append_ne_nil_of_right_ne_nil _ (by simp)

/-- On one line of the source, a character is a step. -/
theorem lex_grows_line (hgrow : Grows l 1 c next l₁) (hc : c ≠ '\n') :
    lex 1 (.inside l) (c :: next) = lex 1 (.inside l₁) next := by
  rw [lex_grows (fun h => hc h.2.2) hgrow, lineAfter, if_neg hc]

theorem lex_inSpec (h : CodeStep (inSpec behind openers) 1 c next l) (hc : c ≠ '\n') :
    lex 1 (.inside (inSpec behind openers)) (c :: next) = lex 1 (.inside l) next :=
  lex_grows_line (.code l rfl (inCode_inSpec behind openers) (fun h => by cases h) h) hc

theorem lex_inQuotes (h : StringStep (inQuotes behind openers triple format) '\x27' triple format c
    next l) (hc : c ≠ '\n') :
    lex 1 (.inside (inQuotes behind openers triple format)) (c :: next) =
      lex 1 (.inside l) next :=
  lex_grows_line (.string '\x27' triple format 1 _ l rfl rfl h) hc

/-- In a field a character of the spec that is no delimiter is text. -/
theorem codeStep_plain (hc : SpecChar c) (hplain : c ∉ delimiters)
    (hsign : c = '#' → openers = []) :
    CodeStep (inSpec behind openers) 1 c next (inSpec (c :: behind) openers) := by
  obtain ⟨h1, h2, h3, h4, h5⟩ := hc
  have hne : ∀ d ∈ delimiters, c ≠ d := by
    rintro d hd rfl
    exact hplain hd
  have hopen := frames_inSpec_ne_nil behind openers
  refine .plain (fun h => ?_) (fun h => h4 h.1) h5
    (not_or.mpr ⟨hne _ (by decide), not_or.mpr ⟨hne _ (by decide), h1⟩⟩)
    (not_or.mpr ⟨hne _ (by decide), not_or.mpr ⟨hne _ (by decide), h2⟩⟩)
    (not_or.mpr ⟨hne _ (by decide), h3⟩) (fun h => hopen h.2.1) fun h => hopen h.2
  rw [hsign h.1] at h
  exact h.2 rfl

theorem not_mem_delimiters (hopener : ¬(c = '(' ∨ c = '[' ∨ c = '\x7b'))
    (hcloser : ¬(c = ')' ∨ c = ']' ∨ c = '\x7d')) (hquote : ¬(c = '\x27' ∨ c = '\x22')) :
    c ∉ delimiters := by
  simp only [delimiters, String.reduceToList, List.mem_cons, List.not_mem_nil, or_false]
  tauto

theorem codeStep_opened (hc : c = '(' ∨ c = '[') :
    CodeStep (inSpec behind openers) 1 c next (inSpec (c :: behind) (c :: openers)) :=
  .opened (hc.imp_right .inl)

theorem codeStep_closed {opener : Char} (h : opener = '(' ∨ opener = '[') :
    CodeStep (inSpec behind (opener :: openers)) 1 (closerOf opener) next
      (inSpec (closerOf opener :: behind) openers) := by
  refine .closed (inSpec behind openers).frames ?_ (if_pos rfl)
  rcases h with rfl | rfl
  · exact .inl rfl
  · exact .inr (.inl rfl)

/-! ## Strings in a field -/

/-- What closes a string of single quotes. -/
def quoteMark (triple : Bool) : List Char :=
  if triple then ['\x27', '\x27', '\x27'] else ['\x27']

/-- Behind a spec there is no single quote that a string would open with. -/
theorem take_fieldEnd (s : List Char) :
    (s ++ fieldEnd).take 2 = ['\x27', '\x27'] ↔ s.take 2 = ['\x27', '\x27'] := by
  rcases s with _ | ⟨d, _ | ⟨e, s⟩⟩
  · exact iff_of_false (by decide) (by decide)
  · exact iff_of_false (fun h => by cases h) (by simp)
  · rfl

theorem exists_of_take_two {d : Char} (h : s.take 2 = [d, d]) : ∃ rest, s = d :: d :: rest := by
  rcases s with _ | ⟨e, _ | ⟨f, s⟩⟩
  · cases h
  · cases h
  · cases h
    exact ⟨s, rfl⟩

/-- A character of a string that does not begin what closes it is text. -/
theorem stringStep_inner (hc : SpecChar c) (hmark : ¬(quoteMark triple).isPrefixOf (c :: s)) :
    StringStep (inQuotes behind openers triple format) '\x27' triple format c (s ++ fieldEnd)
      (inQuotes (c :: behind) openers triple format) := by
  obtain ⟨h1, -, -, h4, h5⟩ := hc
  by_cases hquote : c = '\x27'
  · subst hquote
    cases triple with
    | false => exact absurd rfl hmark
    | true =>
      refine .inner rfl h4 h5 rfl fun htake => hmark ?_
      obtain ⟨s, rfl⟩ := exists_of_take_two ((take_fieldEnd s).mp htake)
      rfl
  · exact .plain h4 h5 hquote fun h => h1 h.1

theorem lex_quote (h : s.take 2 ≠ ['\x27', '\x27']) :
    lex 1 (.inside (inSpec behind openers)) ('\x27' :: (s ++ fieldEnd)) =
      lex 1 (.inside (inQuotes (quoteMark false ++ behind) openers false
        (inSpec behind openers).opensFormat)) (s ++ fieldEnd) :=
  lex_inSpec (.quote (.inl rfl) (mt (take_fieldEnd s).mp h)) (by decide)

theorem lex_quoteTriple :
    lex 1 (.inside (inSpec behind openers)) ('\x27' :: '\x27' :: '\x27' :: next) =
      lex 1 (.inside (inQuotes (quoteMark true ++ behind) openers true
        (inSpec behind openers).opensFormat)) next := by
  rw [lex_inSpec (.quoteTriple (.inl rfl) rfl) (by decide),
    lex_grows_line (.taken 1 rfl) (by decide), lex_grows_line (.taken 0 rfl) (by decide)]
  rfl

/-- A string is left where what closes it first stands. -/
theorem lex_closed {body rest : List Char} (hs : ∀ c ∈ s, SpecChar c)
    (hcut : Text.cutAt (quoteMark triple) s = some (body, rest)) :
    lex 1 (.inside (inQuotes behind openers triple format)) (s ++ fieldEnd) =
      lex 1 (.inside (inSpec (quoteMark triple ++ (body.reverse ++ behind)) openers))
        (rest ++ fieldEnd) := by
  induction s generalizing behind body with
  | nil => cases triple <;> cases hcut
  | cons c s ih =>
    rw [Text.cutAt] at hcut
    split at hcut
    · next hmark =>
      cases hcut
      cases triple with
      | false =>
        have hstep : StringStep (inQuotes behind openers false format) '\x27' false format '\x27'
            (s ++ fieldEnd) (inSpec ('\x27' :: behind) openers) :=
          .closed rfl (by decide) (by decide) rfl
        obtain rfl : '\x27' = c := by simpa [quoteMark] using hmark
        exact lex_inQuotes hstep (by decide)
      | true =>
        obtain ⟨s, rfl, rfl⟩ : ∃ u, c = '\x27' ∧ s = '\x27' :: '\x27' :: u := by
          obtain ⟨u, hu⟩ := List.isPrefixOf_iff_prefix.mp hmark
          cases hu
          exact ⟨u, rfl, rfl⟩
        -- two of the quotes are taken along with the first
        have hstep : StringStep (inQuotes behind openers true format) '\x27' true format '\x27'
            ('\x27' :: '\x27' :: (s ++ fieldEnd))
            ((inSpec ('\x27' :: '\x27' :: '\x27' :: behind) openers).passing 2) :=
          .closedTriple rfl (by decide) (by decide) rfl rfl
        refine (lex_inQuotes hstep (by decide)).trans ?_
        rw [lex_grows_line (.taken 1 rfl) (by decide), lex_grows_line (.taken 0 rfl) (by decide)]
        rfl
    · next hmark =>
      cases hr : Text.cutAt (quoteMark triple) s with
      | none =>
        rw [hr] at hcut
        cases hcut
      | some p =>
        rw [hr] at hcut
        cases hcut
        have hc := hs c List.mem_cons_self
        rw [List.cons_append, lex_inQuotes (stringStep_inner hc hmark) hc.2.2.2.2,
          ih (fun d hd => hs d (List.mem_cons_of_mem c hd)) hr, List.reverse_cons,
          List.append_assoc]
        rfl

/-- A string that is not closed in the spec is not closed at all. -/
theorem lex_unclosed (hs : ∀ c ∈ s, SpecChar c) (hcut : Text.cutAt (quoteMark triple) s = none) :
    lex 1 (.inside (inQuotes behind openers triple format)) (s ++ fieldEnd) =
      .error (.unterminatedString 1) := by
  induction s generalizing behind with
  | nil =>
    have hbrace : StringStep (inQuotes behind openers triple format) '\x27' triple format '\x7d'
        ['\x22'] (inQuotes ('\x7d' :: behind) openers triple format) :=
      .plain (by decide) (by decide) (by decide) (fun h => absurd h.1 (by decide))
    have hquote : StringStep (inQuotes ('\x7d' :: behind) openers triple format) '\x27' triple
        format '\x22' [] (inQuotes ('\x22' :: '\x7d' :: behind) openers triple format) :=
      .plain (by decide) (by decide) (by decide) (fun h => absurd h.1 (by decide))
    exact (lex_inQuotes hbrace (by decide)).trans (lex_inQuotes hquote (by decide))
  | cons c s ih =>
    rw [Text.cutAt] at hcut
    split at hcut
    · cases hcut
    · next hmark =>
      have hc := hs c List.mem_cons_self
      rw [Option.map_eq_none_iff] at hcut
      rw [List.cons_append, lex_inQuotes (stringStep_inner hc hmark) hc.2.2.2.2]
      exact ih (fun d hd => hs d (List.mem_cons_of_mem c hd)) hcut

/-- A string that the reader gets through is closed in the spec. -/
theorem closed_of_lex (hs : ∀ c ∈ s, SpecChar c)
    (h : lex 1 (.inside (inQuotes behind openers triple format)) (s ++ fieldEnd) = .ok lines) :
    ∃ body rest, Text.cutAt (quoteMark triple) s = some (body, rest) ∧
      lex 1 (.inside (inSpec (quoteMark triple ++ (body.reverse ++ behind)) openers))
        (rest ++ fieldEnd) = .ok lines := by
  cases hcut : Text.cutAt (quoteMark triple) s with
  | none =>
    rw [lex_unclosed hs hcut] at h
    cases h
  | some p => exact ⟨p.1, p.2, rfl, lex_closed hs hcut ▸ h⟩

/-! ## Brackets in a field -/

/-- A bracket of the spec that closes one closes the innermost. -/
theorem exists_of_closeBracket {frames : List Frame} (hc : c ≠ '\x7d')
    (h : closeBracket 1 c (inSpec behind openers).frames = .ok frames) :
    ∃ opener outer, openers = opener :: outer ∧ closerOf opener = c ∧
      frames = (inSpec behind outer).frames := by
  rcases closed_of_closeBracket h with ⟨opener, opened, hframes, hcloser⟩ | ⟨-, hbrace⟩
  · cases openers with
    | nil => cases hframes
    | cons first outer =>
      cases hframes
      exact ⟨opener, outer, rfl, hcloser, rfl⟩
  · exact absurd hbrace hc

/-- The brace behind the spec closes no bracket of it. -/
theorem lex_unbalanced {opener : Char} (h : opener = '(' ∨ opener = '[') :
    lex 1 (.inside (inSpec behind (opener :: openers))) fieldEnd =
      .error (.mismatchedBracket 1 '\x7d' opener) := by
  rcases h with rfl | rfl <;> rfl

/-- In a comment nothing is read, and what is open stays open. -/
theorem lex_comment (hs : ∀ c ∈ s, c ≠ '\n') (hl : l.skip = 0) (hcode : l.inCode = true)
    (hcomment : l.comment = true) : lex 1 (.inside l) s = (Mode.inside l).finish := by
  induction s with
  | nil => rfl
  | cons c s ih =>
    have hc := hs c List.mem_cons_self
    rw [lex_grows_line (.comment hl hcode hcomment hc) hc]
    exact ih fun d hd => hs d (List.mem_cons_of_mem c hd)

/-- In brackets a comment takes the rest of the string. -/
theorem lex_remark {opener : Char} (hs : ∀ c ∈ next, c ≠ '\n') :
    lex 1 (.inside (inSpec behind (opener :: openers))) ('#' :: next) =
      .error (.unclosedBracket 1 opener) := by
  rw [lex_inSpec (.remark rfl (by simp [inSpec])) (by decide)]
  exact lex_comment hs rfl rfl rfl

/-! ## The spec -/

theorem cutAt_length {mark body rest : List Char} (h : Text.cutAt mark s = some (body, rest)) :
    rest.length ≤ s.length := by
  have hjoin := congrArg List.length (Text.joinAt_cutAt _ _ _ _ h)
  rw [List.length_append] at hjoin
  omega

/-- What is left of a spec is part of it. -/
theorem specChar_of_cutAt {mark body rest : List Char} (hs : ∀ c ∈ s, SpecChar c)
    (h : Text.cutAt mark s = some (body, rest)) : ∀ c ∈ rest, SpecChar c := by
  intro c hc
  rw [← Text.joinAt_cutAt _ _ _ _ h] at hs
  exact hs c (List.mem_append_right _ hc)

/-- The reader gets through a spec that settles, and keeps all of it. -/
theorem lex_settles (h : Settles openers s) (hs : ∀ c ∈ s, SpecChar c) :
    lex 1 (.inside (inSpec behind openers)) (s ++ fieldEnd) =
      lex 1 (.inside (inSpec (s.reverse ++ behind) [])) fieldEnd := by
  induction h generalizing behind with
  | done => rfl
  | @plain openers s c hplain hsign _ ih =>
    have hc := hs c List.mem_cons_self
    rw [List.cons_append, lex_inSpec (codeStep_plain hc hplain hsign) hc.2.2.2.2,
      ih fun d hd => hs d (List.mem_cons_of_mem c hd), List.reverse_cons, List.append_assoc]
    rfl
  | @opened openers s c hc _ ih =>
    have hbreak := (hs c List.mem_cons_self).2.2.2.2
    rw [List.cons_append, lex_inSpec (codeStep_opened hc) hbreak,
      ih fun d hd => hs d (List.mem_cons_of_mem c hd), List.reverse_cons, List.append_assoc]
    rfl
  | @closed openers s opener hopener _ ih =>
    have hbreak := (hs _ List.mem_cons_self).2.2.2.2
    rw [List.cons_append, lex_inSpec (codeStep_closed hopener) hbreak,
      ih fun d hd => hs d (List.mem_cons_of_mem _ hd), List.reverse_cons, List.append_assoc]
    rfl
  | @quoted openers s body rest hnext hcut _ ih =>
    have hs' : ∀ c ∈ s, SpecChar c := fun d hd => hs d (List.mem_cons_of_mem _ hd)
    have hclosed : Text.cutAt (quoteMark false) s = some (body, rest) := hcut
    rw [List.cons_append, lex_quote hnext, lex_closed hs' hclosed,
      ih (specChar_of_cutAt hs' hcut), ← Text.joinAt_cutAt _ _ _ _ hcut]
    simp [quoteMark]
  | @tripleQuoted openers s body rest hcut _ ih =>
    have hs' : ∀ c ∈ s, SpecChar c := fun d hd => hs d (by simp [hd])
    have hclosed : Text.cutAt (quoteMark true) s = some (body, rest) := hcut
    rw [List.cons_append, List.cons_append, List.cons_append, lex_quoteTriple,
      lex_closed hs' hclosed, ih (specChar_of_cutAt hs' hcut),
      ← Text.joinAt_cutAt _ _ _ _ hcut]
    simp [quoteMark]

theorem no_break_of_specChar (hs : ∀ c ∈ s, SpecChar c) : ∀ c ∈ s ++ fieldEnd, c ≠ '\n' := by
  intro c hc
  rcases List.mem_append.mp hc with hc | hc
  · exact (hs c hc).2.2.2.2
  · rintro rfl
    exact absurd hc (by decide)

/-- A character that the reader gets past in a field is a step in code. -/
theorem codeStep_of_lex (hc : c ≠ '\n')
    (h : lex 1 (.inside (inSpec behind openers)) (c :: next) = .ok lines) :
    ∃ l, CodeStep (inSpec behind openers) 1 c next l ∧ lex 1 (.inside l) next = .ok lines := by
  obtain ⟨hends, -⟩ | ⟨-, l, hgrow, hnext⟩ := lex_inside_cons h
  · exact absurd hends.2.2 hc
  rw [lineAfter, if_neg hc] at hnext
  refine ⟨l, ?_, hnext⟩
  cases hgrow with
  | taken k hk => cases hk
  | string quote triple format opened outer _ _ hf =>
    exact absurd ((inCode_of_string hf).symm.trans (inCode_inSpec behind openers)) (by simp)
  | comment _ _ hcomment => cases hcomment
  | code _ _ _ _ hstep => exact hstep

/-- A spec that the reader gets through settles. -/
theorem settles_of_lex (n : Nat) (hn : s.length < n) (hs : ∀ c ∈ s, SpecChar c)
    (hopeners : ∀ c ∈ openers, c = '(' ∨ c = '[')
    (h : lex 1 (.inside (inSpec behind openers)) (s ++ fieldEnd) = .ok lines) :
    Settles openers s := by
  -- on the length of the spec, since a string takes more than one character of it
  induction n generalizing s openers behind with
  | zero => omega
  | succ n ih =>
    cases s with
    | nil =>
      cases openers with
      | nil => exact .done
      | cons opener openers =>
        rw [List.nil_append, lex_unbalanced (hopeners opener List.mem_cons_self)] at h
        cases h
    | cons c s =>
      have hc := hs c List.mem_cons_self
      have hs' : ∀ d ∈ s, SpecChar d := fun d hd => hs d (List.mem_cons_of_mem c hd)
      rw [List.length_cons] at hn
      obtain ⟨l, hstep, hnext⟩ := codeStep_of_lex hc.2.2.2.2 h
      cases hstep with
      | remark hsign hfield =>
        cases openers with
        | nil => exact absurd rfl hfield
        | cons opener openers =>
          rw [hsign, List.cons_append, lex_remark (no_break_of_specChar hs')] at h
          cases h
      | joined hbackslash => exact absurd hbackslash hc.2.2.2.1
      | broken hbreak => exact absurd hbreak hc.2.2.2.2
      | opened hopener =>
        have hopener' : c = '(' ∨ c = '[' := hopener.imp_right fun h => h.resolve_right hc.1
        refine .opened hopener' (ih (by omega) hs' (fun d hd => ?_) hnext)
        rcases List.mem_cons.mp hd with rfl | hd
        · exact hopener'
        · exact hopeners d hd
      | closed frames hcloser hclose =>
        obtain ⟨opener, outer, rfl, rfl, rfl⟩ := exists_of_closeBracket hc.2.1 hclose
        exact .closed (hopeners opener List.mem_cons_self)
          (ih (by omega) hs' (fun d hd => hopeners d (List.mem_cons_of_mem opener hd)) hnext)
      | quote hquote hne =>
        obtain rfl : c = '\x27' := hquote.resolve_right hc.2.2.1
        have hopen : lex 1 (.inside (inQuotes ('\x27' :: behind) openers false
            (inSpec behind openers).opensFormat)) (s ++ fieldEnd) = .ok lines := hnext
        obtain ⟨body, rest, hcut, hrest⟩ := closed_of_lex hs' hopen
        have hlen := cutAt_length hcut
        exact .quoted (mt (take_fieldEnd s).mpr hne) hcut
          (ih (by omega) (specChar_of_cutAt hs' hcut) hopeners hrest)
      | quoteTriple hquote htake =>
        obtain rfl : c = '\x27' := hquote.resolve_right hc.2.2.1
        obtain ⟨s, rfl⟩ := exists_of_take_two ((take_fieldEnd s).mp htake)
        have hs'' : ∀ d ∈ s, SpecChar d := fun d hd => hs' d (by simp [hd])
        rw [List.cons_append, List.cons_append, List.cons_append, lex_quoteTriple] at h
        rw [List.length_cons, List.length_cons] at hn
        obtain ⟨body, rest, hcut, hrest⟩ := closed_of_lex hs'' h
        have hlen := cutAt_length hcut
        exact .tripleQuoted hcut (ih (by omega) (specChar_of_cutAt hs'' hcut) hopeners hrest)
      | colon _ hnil => exact absurd hnil (frames_inSpec_ne_nil behind openers)
      | semicolon _ hnil => exact absurd hnil (frames_inSpec_ne_nil behind openers)
      | plain h1 _ _ h4 h5 h6 =>
        refine .plain (not_mem_delimiters h4 h5 h6) (fun hsign => ?_)
          (ih (by omega) hs' hopeners hnext)
        cases openers with
        | nil => rfl
        | cons opener openers => exact absurd ⟨hsign, fun hfield => by cases hfield⟩ h1

/-! ## The whole string -/

/-- What is text in a format spec is text before it. -/
theorem lex_text {t : List Char} (ht : ∀ c ∈ t, SpecChar c ∧ c ∉ delimiters) (s : List Char) :
    lex 1 (.inside (inSpec behind [])) (t ++ s) =
      lex 1 (.inside (inSpec (t.reverse ++ behind) [])) s := by
  induction t generalizing behind with
  | nil => rfl
  | cons c t ih =>
    obtain ⟨hc, hplain⟩ := ht c List.mem_cons_self
    rw [List.cons_append, lex_inSpec (codeStep_plain hc hplain fun _ => rfl) hc.2.2.2.2,
      ih fun d hd => ht d (List.mem_cons_of_mem c hd), List.reverse_cons, List.append_assoc]
    rfl

theorem specChar_of_plain (h : Plain c) : SpecChar c ∧ c ∉ delimiters := by
  obtain ⟨-, h2, h3, h4, h5, h6, -⟩ := h
  refine ⟨⟨fun h => h4 (.inr (.inr h)), fun h => h5 (.inr (.inr h)), fun h => h6 (.inr h), h2, h3⟩,
    not_mem_delimiters h4 h5 h6⟩

/-- The string begins, and so does its field. -/
theorem lex_fieldStart (h : next.head? ≠ some '\x7b') :
    lex 1 (.margin 0) (fieldStart ++ next) =
      lex 1 (.inside (inSpec fieldStart.reverse [])) next := by
  have hmark : Grows (.start 1 0) 1 'f' ('\x22' :: '\x7b' :: next)
      ((OpenLine.start 1 0).push 'f') :=
    .code _ rfl rfl (fun h => by cases h) (.plain (by simp) (by simp) (by decide) (by decide)
      (by decide) (by decide) (by simp) (by simp))
  have hquote : Grows ((OpenLine.start 1 0).push 'f') 1 '\x22' ('\x7b' :: next)
      ((((OpenLine.start 1 0).push 'f').enter (.string '\x22' false true 1)).push '\x22') :=
    .code _ rfl rfl (fun h => by cases h) (.quote (.inr rfl) (by simp))
  have hfield : Grows ((((OpenLine.start 1 0).push 'f').enter
      (.string '\x22' false true 1)).push '\x22') 1 '\x7b' next (inSpec fieldStart.reverse []) :=
    .string '\x22' false true 1 [] _ rfl rfl (.field rfl (by decide) rfl h)
  rw [fieldStart, List.cons_append, List.cons_append, List.cons_append, List.nil_append,
    lex_opens 1 0 (by decide), lex_grows_line hmark (by decide), lex_grows_line hquote (by decide),
    lex_grows_line hfield (by decide)]
  rfl

/-- The field ends, and so does the string. -/
theorem lex_fieldEnd (behind : List Char) :
    lex 1 (.inside (inSpec behind [])) fieldEnd =
      .ok [⟨1, 0, behind.reverse ++ fieldEnd, [], []⟩] := by
  have hbrace : CodeStep (inSpec behind []) 1 '\x7d' ['\x22']
      (((inSpec behind []).reframed [.string '\x22' false true 1]).push '\x7d') :=
    .closed _ (.inr (.inr rfl)) rfl
  have hquote : Grows (((inSpec behind []).reframed [.string '\x22' false true 1]).push '\x7d') 1
      '\x22' [] ⟨1, 0, [], '\x22' :: '\x7d' :: behind, false, [], [], [], 0, false⟩ :=
    .string '\x22' false true 1 [] _ rfl rfl (.closed rfl (by decide) (by decide) rfl)
  have htrim : Text.trimEnd (behind.reverse ++ fieldEnd) = behind.reverse ++ fieldEnd := by
    refine Text.trimEnd_eq_self fun c hc => ?_
    rw [List.getLast?_append_of_ne_nil _ (by decide)] at hc
    cases hc
    decide
  rw [fieldEnd, lex_inSpec hbrace (by decide), lex_grows_line hquote (by decide), ← fieldEnd,
    ← htrim]
  simp [lex, Mode.finish, OpenLine.finish, OpenLine.behind, fieldEnd]

/-- The reader comes to the spec behind the colon. -/
theorem tokenize_fieldString_eq {name spec : List Char} (hname : ∀ c ∈ name, Plain c)
    (hspec : ∀ c ∈ spec, SpecChar c) :
    tokenize (fieldString name spec) =
      lex 1 (.inside (inSpec ((name ++ [':']).reverse ++ fieldStart.reverse) []))
        (spec ++ fieldEnd) := by
  have hbreak : '\n' ∉ fieldString name spec := by
    intro hmem
    simp only [fieldString, fieldStart, fieldEnd, List.mem_append, List.mem_cons,
      List.not_mem_nil, or_false] at hmem
    rcases hmem with (h | h | h) | h | h | h | h | h
    · cases h
    · cases h
    · cases h
    · exact (hname _ h).2.2.1 rfl
    · cases h
    · exact (hspec _ h).2.2.2.2 rfl
    · cases h
    · cases h
  have hbreaks : Text.unifyBreaks (fieldString name spec) = fieldString name spec :=
    (Text.unifyBreaks_eq_self_iff _).mpr fun h => hbreak (h.mem (by simp))
  have htext : ∀ c ∈ name ++ [':'], SpecChar c ∧ c ∉ delimiters := by
    intro c hc
    rcases List.mem_append.mp hc with hc | hc
    · exact specChar_of_plain (hname c hc)
    · rw [List.mem_singleton.mp hc]
      decide
  -- the brace before the name opens a field, as the next character is no brace
  have hhead : (name ++ ':' :: (spec ++ fieldEnd)).head? ≠ some '\x7b' := by
    cases name with
    | nil => exact fun h => by cases h
    | cons c name =>
      intro h
      exact (specChar_of_plain (hname c List.mem_cons_self)).1.1 (Option.some.inj h)
  have hrest : name ++ ':' :: (spec ++ fieldEnd) = (name ++ [':']) ++ (spec ++ fieldEnd) := by simp
  rw [tokenize, hbreaks, fieldString, lex_fieldStart hhead, hrest, lex_text htext]

/-- A formatted string whose field has a name, a colon and a format spec is one logical line, with
no top-level colons and semicolons, if its spec settles; if not, it is refused. -/
theorem tokenize_fieldString {name spec : List Char} (hname : ∀ c ∈ name, Plain c)
    (hspec : ∀ c ∈ spec, SpecChar c) :
    (Settles [] spec → tokenize (fieldString name spec) =
        .ok [⟨1, 0, fieldString name spec, [], []⟩]) ∧
      (¬Settles [] spec → ∃ e, tokenize (fieldString name spec) = .error e) := by
  rw [tokenize_fieldString_eq hname hspec]
  constructor
  · intro hsettles
    rw [lex_settles hsettles hspec, lex_fieldEnd]
    simp [fieldString, fieldEnd]
  · intro hnot
    cases h : lex 1 (.inside (inSpec ((name ++ [':']).reverse ++ fieldStart.reverse) []))
        (spec ++ fieldEnd) with
    | error e => exact ⟨e, rfl⟩
    | ok lines =>
      exact absurd (settles_of_lex _ (Nat.lt_succ_self _) hspec (by simp) h) hnot

theorem tokenize_fieldString_filled : (∀ c ∈ "width".toList, Plain c) ∧
    (∀ c ∈ "#;(^)10".toList, SpecChar c) ∧
    tokenize (fieldString "width".toList "#;(^)10".toList) =
      .ok [⟨1, 0, fieldString "width".toList "#;(^)10".toList, [], []⟩] := by
  have hname : ∀ c ∈ "width".toList, Plain c := fun c hc =>
    plain_of_isWordChar (List.all_eq_true.mp (by decide) c hc)
  have hspec : ∀ c ∈ "#;(^)10".toList, SpecChar c := by simp [SpecChar]
  have hbehind : Settles [] "10".toList := settles_of_not_delimiters (by simp [delimiters])
  have hbracket : Settles [] "(^)10".toList :=
    .opened (.inl rfl) (.plain (by decide) (fun h => absurd h (by decide))
      (.closed (.inl rfl) hbehind))
  have hsettles : Settles [] "#;(^)10".toList :=
    .plain (by decide) (fun _ => rfl) (.plain (by decide) (fun _ => rfl) hbracket)
  exact ⟨hname, hspec, (tokenize_fieldString hname hspec).1 hsettles⟩

/-- A bracket that fills is not closed in the spec: the string is refused, though there is nothing
wrong with it. -/
theorem tokenize_fieldString_bracket_refused :
    ¬∀ name spec, name ≠ [] → (∀ c ∈ name, Text.isWordChar c = true) →
      (∀ c ∈ spec, SpecChar c ∧ c ≠ '\r') →
      tokenize (fieldString name spec) = .ok [⟨1, 0, fieldString name spec, [], []⟩] := by
  intro h
  have hrefused : tokenize (fieldString "x".toList "(>10".toList) =
      .error (.mismatchedBracket 1 '\x7d' '(') := by decide +kernel
  have hname : ∀ c ∈ "x".toList, Text.isWordChar c = true := List.all_eq_true.mp (by decide)
  have hspec : ∀ c ∈ "(>10".toList, SpecChar c ∧ c ≠ '\r' := by simp [SpecChar]
  rw [h _ _ (by decide) hname hspec] at hrefused
  cases hrefused

end StepTrace.Python

import StepTrace.Proofs.Python.Growth

/-!
# Reading is local

`Scans` follows the reader through a stretch of source that ends no logical line. A text that is a
logical line by itself is such a stretch (`OneLine.scans`), and since it is read alike in front of
a line feed, the reader finds the same line wherever the text stands as a row of its own
(`lex_row`).
-/

set_option autoImplicit false

namespace StepTrace.Python

/-- The line number after a character. -/
def lineAfter (line : Nat) (c : Char) : Nat := if c = '\n' then line + 1 else line

/-- A logical line grows by a stretch of source that more source follows. -/
inductive Scans (after : List Char) : Nat → OpenLine → List Char → OpenLine → Prop
  | nil (line : Nat) (l : OpenLine) : Scans after line l [] l
  | cons {line : Nat} {l l₁ l' : OpenLine} {c : Char} {s : List Char} : ¬l.Ends c →
      Grows l line c (s ++ after) l₁ → Scans after (lineAfter line c) l₁ s l' →
      Scans after line l (c :: s) l'

theorem lineAfter_add_breaks (line : Nat) (c : Char) (s : List Char) :
    lineAfter line c + Text.breaks s = line + Text.breaks (c :: s) := by
  by_cases hc : c = '\n'
  · simp [lineAfter, Text.breaks, hc, Nat.add_assoc, Nat.add_comm 1]
  · simp [lineAfter, Text.breaks, hc]

variable {line : Nat} {l l' : OpenLine} {c : Char} {s after next : List Char}

/-! ## Steps of the reader -/

theorem lex_passes {m m' : Mode} (h : step m line c next = .ok (none, m')) :
    lex line m (c :: next) = lex (lineAfter line c) m' next := by
  rw [lex, h]
  dsimp only [lineAfter]
  cases lex (if c = '\n' then line + 1 else line) m' next <;> rfl

theorem lex_ends (line : Nat) (h : l.Ends c) (next : List Char) :
    lex line (.inside l) (c :: next) =
      (lex (line + 1) (.margin 0) next).map (l.finish :: ·) := by
  rw [lex, step, stepInside_eq, if_pos h, if_pos h.2.2]
  dsimp only
  cases lex (line + 1) (.margin 0) next <;> rfl

theorem lex_grows (h : ¬l.Ends c) (hgrow : Grows l line c next l') :
    lex line (.inside l) (c :: next) = lex (lineAfter line c) (.inside l') next := by
  refine lex_passes ?_
  rw [step, stepInside_eq, if_neg h, grow_eq_ok_iff.mpr hgrow]
  rfl

/-- A logical line that is read on either ends or grows. -/
theorem lex_inside_cons {lines : List LogicalLine}
    (h : lex line (.inside l) (c :: next) = .ok lines) :
    l.Ends c ∧ (∃ more, lines = l.finish :: more ∧ lex (line + 1) (.margin 0) next = .ok more) ∨
      ¬l.Ends c ∧ ∃ l', Grows l line c next l' ∧
        lex (lineAfter line c) (.inside l') next = .ok lines := by
  by_cases hends : l.Ends c
  · rw [lex_ends line hends] at h
    cases hmore : lex (line + 1) (.margin 0) next with
    | error e =>
      rw [hmore] at h
      cases h
    | ok more =>
      rw [hmore] at h
      cases h
      exact .inl ⟨hends, more, rfl, rfl⟩
  · cases hgrow : l.grow line c next with
    | error e =>
      rw [lex, step, stepInside_eq, if_neg hends, hgrow] at h
      cases h
    | ok l' =>
      have hgrows := grow_eq_ok_iff.mp hgrow
      rw [lex_grows hends hgrows] at h
      exact .inr ⟨hends, l', hgrows, h⟩

/-! ## Stretches of source -/

theorem lex_scans (h : Scans after line l s l') :
    lex line (.inside l) (s ++ after) = lex (line + Text.breaks s) (.inside l') after := by
  induction h with
  | nil => rfl
  | @cons line l l₁ l' c s hends hgrow _ ih =>
    rw [List.cons_append, lex_grows hends hgrow, ih]
    rw [lineAfter_add_breaks]

theorem Scans.place (h : Scans after line l s l') : l'.line = l.line ∧ l'.indent = l.indent := by
  induction h with
  | nil => exact ⟨rfl, rfl⟩
  | cons _ hgrow _ ih => exact ⟨ih.1.trans hgrow.place.1, ih.2.trans hgrow.place.2⟩

theorem Scans.proper (h : Scans after line l s l') (hl : Proper l.frames) : Proper l'.frames := by
  induction h with
  | nil => exact hl
  | cons _ hgrow _ ih => exact ih (hgrow.proper hl)

theorem Scans.elsewhere {m : OpenLine} (h : Scans after line l s l')
    (hm : m.unplaced = l.unplaced) (line' : Nat) :
    ∃ m', Scans after line' m s m' ∧ m'.unplaced = l'.unplaced := by
  induction h generalizing m line' with
  | nil => exact ⟨m, .nil _ _, hm⟩
  | @cons line l l₁ l' c s hends hgrow _ ih =>
    obtain ⟨m₁, hgrow₁, hm₁⟩ := hgrow.elsewhere hm line'
    obtain ⟨m', hscan, hm'⟩ := ih hm₁ (lineAfter line' c)
    have hsame : m.Ends c ↔ l.Ends c := by rw [← ends_unplaced, hm, ends_unplaced]
    exact ⟨m', .cons (mt hsame.mp hends) hgrow₁ hscan, hm'⟩

theorem Scans.append {l₁ : OpenLine} {more : List Char}
    (h : Scans (more ++ after) line l s l₁)
    (hmore : Scans after (line + Text.breaks s) l₁ more l') :
    Scans after line l (s ++ more) l' := by
  induction h with
  | nil => exact hmore
  | @cons line l l₂ l₁ c s hends hgrow _ ih =>
    rw [← lineAfter_add_breaks] at hmore
    rw [List.cons_append]
    refine .cons hends ?_ (ih hmore)
    rwa [List.append_assoc]

/-- What a text may go on with that no character before takes along. -/
def Inert (after : List Char) : Prop :=
  ∀ d ∈ after.head?, d ≠ '\x27' ∧ d ≠ '\x22' ∧ d ≠ '\x7b' ∧ d ≠ '='

theorem Inert.nil : Inert [] := fun d hd => absurd hd (by simp)

/-- What follows a stretch does not matter if it is inert, but for its first character behind a
backslash. -/
theorem Agree.of_inert {after' : List Char}
    (hc : s = [] → c = '\\' → after.head? = after'.head?) (h : Inert after)
    (h' : Inert after') : Agree c (s ++ after) (s ++ after') := by
  -- a pair of quotes does not reach into what is inert
  have hpair : ∀ s : List Char, s.length ≤ 1 → ∀ after : List Char, Inert after →
      c = '\x27' ∨ c = '\x22' → (s ++ after).take 2 ≠ [c, c] := by
    intro s hs after hafter hq htake
    have hmem : c ∈ after.head? := by
      rcases s with _ | ⟨d, _ | ⟨e, s⟩⟩
      · cases after <;> simp_all
      · cases after <;> simp_all
      · simp at hs
    obtain ⟨h1, h2, -⟩ := hafter c hmem
    exact hq.elim h1 h2
  cases s with
  | nil =>
    refine ⟨hc rfl, fun hq => ?_, fun _ => ?_, fun _ => ?_⟩
    · exact iff_of_false (hpair [] (by simp) _ h hq) (hpair [] (by simp) _ h' hq)
    · exact iff_of_false (fun hh => (h _ hh).2.2.1 rfl) (fun hh => (h' _ hh).2.2.1 rfl)
    · exact iff_of_false (fun hh => (h _ hh).2.2.2 rfl) (fun hh => (h' _ hh).2.2.2 rfl)
  | cons d s =>
    refine ⟨fun _ => rfl, fun hq => ?_, fun _ => Iff.rfl, fun _ => Iff.rfl⟩
    cases s with
    | nil => exact iff_of_false (hpair [d] (by simp) _ h hq) (hpair [d] (by simp) _ h' hq)
    | cons e s => exact Iff.rfl

theorem Scans.congr {after' : List Char} (h : Scans after line l s l') (hl : Proper l.frames)
    (hlast : s.getLast? ≠ some '\\') (ha : Inert after) (ha' : Inert after') :
    Scans after' line l s l' := by
  induction h with
  | nil => exact .nil _ _
  | @cons line l l₁ l' c s hends hgrow _ ih =>
    -- only the last character of the stretch sees what follows, and it is no backslash
    have hagree : Agree c (s ++ after) (s ++ after') := by
      refine .of_inert (fun hs hc => absurd ?_ hlast) ha ha'
      rw [hs, hc]
      rfl
    refine .cons hends (hgrow.congr hl hagree) (ih (hgrow.proper hl) fun hs => hlast ?_)
    cases s with
    | nil => cases hs
    | cons d s => rwa [List.getLast?_cons_cons]

/-! ## How much text a line has -/

/-- How much text has been gathered. -/
def Mode.gained : Mode → Nat
  | .inside l => l.behind.length
  | _ => 0

/-- How many characters of what follows are gathered already. -/
def Mode.ahead : Mode → Nat
  | .inside l => l.skip
  | _ => 0

/-- Whether the reader stands outside logical lines. -/
def Mode.Idle : Mode → Prop
  | .inside _ => False
  | _ => True

theorem Mode.Idle.gained {m : Mode} (h : m.Idle) : m.gained = 0 := by
  cases m with
  | inside => exact h.elim
  | _ => rfl

theorem Mode.Idle.ahead {m : Mode} (h : m.Idle) : m.ahead = 0 := by
  cases m with
  | inside => exact h.elim
  | _ => rfl

theorem length_text_finish (l : OpenLine) : l.finish.text.length ≤ l.behind.length := by
  have h := (Text.trimEnd_isPrefix l.behind.reverse).length_le
  rwa [List.length_reverse] at h

theorem gained_of_grows (hgrow : Grows l line c next l') (hskip : l.skip ≤ (c :: next).length) :
    l'.behind.length + next.length + l.skip ≤ l.behind.length + (c :: next).length + l'.skip ∧
      l'.skip ≤ next.length := by
  rw [List.length_cons] at hskip ⊢
  cases hk : l.skip with
  | zero =>
    have hsize := hgrow.size hk
    omega
  | succ k =>
    cases hgrow with
    | taken k' hk' =>
      rw [OpenLine.behind_passing, OpenLine.skip_passing]
      omega
    | string _ _ _ _ _ _ h0 => omega
    | comment h0 => omega
    | code _ h0 => omega

/-- Whether a character begins a logical line. -/
def Opens (c : Char) : Prop := c ≠ ' ' ∧ c ≠ '\t' ∧ c ≠ '\x0c' ∧ c ≠ '\n' ∧ c ≠ '#'

instance (c : Char) : Decidable (Opens c) := by
  unfold Opens
  infer_instance

theorem lex_opens (line column : Nat) (h : Opens c) (next : List Char) :
    lex line (.margin column) (c :: next) =
      lex line (.inside (.start line column)) (c :: next) := by
  obtain ⟨h1, h2, h3, h4, h5⟩ := h
  rw [lex, lex, step, if_neg h1, if_neg h2, if_neg h3, if_neg h4, if_neg h5, step]

/-- The blanks of an indentation. -/
def isIndentation (c : Char) : Bool := c == ' ' || c == '\t' || c == '\x0c'

/-- How a character outside logical lines is passed over. -/
inductive Idles : Mode → Char → Mode → Prop
  | newline {m : Mode} : m.Idle → Idles m '\n' (.margin 0)
  | indentation {c : Char} (column column' : Nat) : isIndentation c = true →
      Idles (.margin column) c (.margin column')
  | comment (column : Nat) : Idles (.margin column) '#' .remark
  | remark {c : Char} : c ≠ '\n' → Idles .remark c .remark

theorem Idles.idle {m m' : Mode} (h : Idles m c m') : m'.Idle := by
  cases h <;> trivial

/-- Outside logical lines other characters are passed over, whatever follows them. -/
theorem step_idle (c : Char) {m : Mode} (hm : m.Idle)
    (hc : ∀ column, m = .margin column → ¬Opens c) :
    ∃ m' : Mode, Idles m c m' ∧ ∀ line next, step m line c next = .ok (none, m') := by
  cases m with
  | inside l => exact hm.elim
  | remark =>
    by_cases h : c = '\n'
    · subst h
      exact ⟨.margin 0, .newline trivial, fun _ _ => rfl⟩
    · exact ⟨.remark, .remark h, fun _ _ => if_neg h⟩
  | margin column =>
    have hopens := hc column rfl
    by_cases h1 : c = ' '
    · subst h1
      exact ⟨_, .indentation column _ rfl, fun _ _ => rfl⟩
    by_cases h2 : c = '\t'
    · subst h2
      exact ⟨_, .indentation column _ rfl, fun _ _ => rfl⟩
    by_cases h3 : c = '\x0c'
    · subst h3
      exact ⟨_, .indentation column _ rfl, fun _ _ => rfl⟩
    by_cases h4 : c = '\n'
    · subst h4
      exact ⟨_, .newline trivial, fun _ _ => rfl⟩
    by_cases h5 : c = '#'
    · subst h5
      exact ⟨_, .comment column, fun _ _ => rfl⟩
    exact absurd ⟨h1, h2, h3, h4, h5⟩ hopens

theorem lex_idle (line : Nat) (c : Char) (next : List Char) {m : Mode} (hm : m.Idle)
    (hc : ∀ column, m = .margin column → ¬Opens c) :
    ∃ m' : Mode, m'.Idle ∧ lex line m (c :: next) = lex (lineAfter line c) m' next := by
  obtain ⟨m', hidles, hstep⟩ := step_idle c hm hc
  exact ⟨m', hidles.idle, lex_passes (hstep line next)⟩

/-- A line has no more text than was read for it. -/
theorem length_text_le (m : Mode) (t : LogicalLine) (ts : List LogicalLine)
    (h : lex line m s = .ok (t :: ts)) (hahead : m.ahead ≤ s.length) :
    t.text.length + m.ahead ≤ m.gained + s.length := by
  induction s generalizing line m with
  | nil =>
    cases m with
    | margin => cases h
    | remark => cases h
    | inside l =>
      have hskip : l.skip = 0 := Nat.le_zero.mp hahead
      simp only [lex, Mode.finish] at h
      split at h
      · cases h
      · cases h
        have hfinish := length_text_finish l
        simp only [Mode.ahead, Mode.gained, hskip]
        omega
  | cons c s ih =>
    -- inside a line the character is gathered; outside none is
    have hinside : ∀ l : OpenLine, lex line (.inside l) (c :: s) = .ok (t :: ts) →
        l.skip ≤ (c :: s).length → t.text.length + l.skip ≤ l.behind.length + (c :: s).length := by
      intro l hlex hskip
      obtain ⟨hends, more, hmore, -⟩ | ⟨-, l', hgrow, hnext⟩ := lex_inside_cons hlex
      · cases hmore
        have hfinish := length_text_finish l
        rw [hends.1]
        omega
      · obtain ⟨hgained, hahead'⟩ := gained_of_grows hgrow hskip
        have := ih (.inside l') hnext hahead'
        simp only [Mode.ahead, Mode.gained] at this
        omega
    have houtside : m.Idle → (∀ column, m = .margin column → ¬Opens c) →
        t.text.length + m.ahead ≤ m.gained + (c :: s).length := by
      intro hm hc
      obtain ⟨m', hidle, heq⟩ := lex_idle line c s hm hc
      have := ih m' (heq ▸ h) (by rw [hidle.ahead]; exact Nat.zero_le _)
      rw [hidle.gained, hidle.ahead] at this
      rw [hm.gained, hm.ahead, List.length_cons]
      omega
    cases m with
    | inside l => exact hinside l h hahead
    | remark => exact houtside trivial fun _ hm => absurd hm (by simp)
    | margin column =>
      by_cases hc : Opens c
      · exact hinside (.start line column) (lex_opens line column hc s ▸ h) (Nat.zero_le _)
      · exact houtside trivial fun _ _ => hc

/-- Only a replacement field may be open where the source ends. -/
theorem eq_field_of_closed {frames : List Frame}
    (h : frames.findSome? OpenLine.unclosed? = none) : ∀ f ∈ frames, f = .field := by
  intro f hf
  have hopen := List.findSome?_eq_none_iff.mp h f hf
  cases f with
  | field => rfl
  | _ => cases hopen

/-- A line that has all the text that was read for it was read without a break. -/
theorem scans_of_full (t : LogicalLine) (ts : List LogicalLine)
    (h : lex line (.inside l) s = .ok (t :: ts)) (hskip : l.skip ≤ s.length)
    (hfull : l.behind.length + s.length ≤ t.text.length + l.skip) :
    ∃ l', Scans [] line l s l' ∧ l'.skip = 0 ∧ t = l'.finish ∧ ts = [] ∧
      ∀ f ∈ l'.frames, f = .field := by
  induction s generalizing line l with
  | nil =>
    simp only [lex, Mode.finish] at h
    split at h
    · cases h
    · next hnone =>
      cases h
      exact ⟨l, .nil _ _, Nat.le_zero.mp hskip, rfl, rfl, eq_field_of_closed hnone⟩
  | cons c s ih =>
    obtain ⟨hends, more, hmore, -⟩ | ⟨hends, l₁, hgrow, hnext⟩ := lex_inside_cons h
    · -- a line that ends here would be too short
      cases hmore
      have hfinish := length_text_finish l
      rw [hends.1, List.length_cons] at hfull
      omega
    · obtain ⟨hgained, hahead⟩ := gained_of_grows hgrow hskip
      have hbound := length_text_le (.inside l₁) t ts hnext hahead
      simp only [Mode.ahead, Mode.gained] at hbound
      obtain ⟨l', hscan, hrest⟩ := ih hnext hahead (by omega)
      exact ⟨l', .cons hends (by rwa [List.append_nil]) hscan, hrest⟩

/-! ## Rows -/

/-- A text that is one logical line by itself, without indentation and with all its characters. -/
structure OneLine (x : List Char) (l : LogicalLine) : Prop where
  read : tokenize x = .ok [l]
  indent : l.indent = 0
  text : l.text = x

theorem eq_nil_of_proper {frames : List Frame} (h : Proper frames)
    (hfield : ∀ f ∈ frames, f = .field) : frames = [] := by
  by_contra hne
  refine h.1 ?_
  rw [List.getLast?_eq_getLast_of_ne_nil hne, hfield _ (List.getLast_mem hne)]

/-- How a text that is one logical line is read. -/
structure Reading (x : List Char) (l : LogicalLine) (end' : OpenLine) : Prop where
  scans : Scans [] 1 (.start 1 0) x end'
  skip : end'.skip = 0
  frames : end'.frames = []
  finish : l = end'.finish

theorem OneLine.breaks {x : List Char} {l : LogicalLine} (h : OneLine x l) :
    Text.unifyBreaks x = x := by
  have hle := length_text_le (.margin 0) l [] h.read (Nat.zero_le _)
  rw [h.text] at hle
  simp only [Mode.ahead, Mode.gained] at hle
  exact (Text.unifyBreaks_sublist x).eq_of_length_le (by omega)

theorem OneLine.opens {x : List Char} {l : LogicalLine} (h : OneLine x l) :
    ∃ c s, x = c :: s ∧ Opens c := by
  have hlex := h.read
  rw [tokenize, h.breaks] at hlex
  cases x with
  | nil => cases hlex
  | cons c s =>
    -- were the first character passed over, the text would be too short
    refine ⟨c, s, rfl, by_contra fun hc => ?_⟩
    obtain ⟨m', hidle, heq⟩ := lex_idle 1 c s (m := .margin 0) trivial fun _ _ => hc
    have hle := length_text_le m' l [] (heq ▸ hlex) (by rw [hidle.ahead]; exact Nat.zero_le _)
    rw [h.text, hidle.gained, hidle.ahead, List.length_cons] at hle
    omega

theorem OneLine.of_scans {c : Char} {s : List Char} {l : OpenLine} (hc : Opens c)
    (hbreaks : Text.unifyBreaks (c :: s) = c :: s) (h : Scans [] 1 (.start 1 0) (c :: s) l)
    (hframes : l.frames = []) (htext : Text.trimEnd l.behind.reverse = c :: s) :
    OneLine (c :: s) l.finish := by
  refine ⟨?_, h.place.2, htext⟩
  have hlex := lex_scans h
  rw [List.append_nil] at hlex
  rw [tokenize, hbreaks, lex_opens 1 0 hc, hlex, lex, Mode.finish, hframes]
  rfl

theorem OneLine.reading {x : List Char} {l : LogicalLine} (h : OneLine x l) :
    ∃ l', Reading x l l' := by
  obtain ⟨c, s, rfl, hc⟩ := h.opens
  have hlex := h.read
  rw [tokenize, h.breaks, lex_opens 1 0 hc] at hlex
  obtain ⟨l', hscan, hskip, hfinish, -, hfield⟩ := scans_of_full l [] hlex (Nat.zero_le _)
    (by simp [OpenLine.start, OpenLine.behind, h.text])
  exact ⟨l', hscan, hskip, eq_nil_of_proper (hscan.proper .nil) hfield, hfinish⟩

/-- A text that is one logical line is read alike wherever a logical line may begin, in front of
what it does not take along. -/
theorem OneLine.lex_append {x : List Char} {l : LogicalLine} (h : OneLine x l)
    (hlast : x.getLast? ≠ some '\\') (after : List Char) (ha : Inert after) (line column : Nat) :
    ∃ l', lex line (.margin column) (x ++ after) =
        lex (line + Text.breaks x) (.inside l') after ∧
      l'.skip = 0 ∧ l'.frames = [] ∧ l'.finish = { l with line := line, indent := column } := by
  obtain ⟨l₁, hread⟩ := h.reading
  obtain ⟨c, s, rfl, hc⟩ := h.opens
  -- first with something behind it, then at another place
  have hscan := hread.scans.congr .nil hlast .nil ha
  obtain ⟨l', hscan', hsame⟩ := hscan.elsewhere (m := .start line column) rfl line
  obtain ⟨hline, hindent⟩ := hscan'.place
  have hskip : l'.unplaced.skip = l₁.unplaced.skip := congrArg OpenLine.skip hsame
  have hframes : l'.unplaced.frames = l₁.unplaced.frames := congrArg OpenLine.frames hsame
  have hfinish : l'.unplaced.finish = l₁.unplaced.finish := congrArg OpenLine.finish hsame
  refine ⟨l', ?_, hskip.trans hread.skip, ?_, ?_⟩
  · rw [List.cons_append, lex_opens line column hc]
    exact lex_scans hscan'
  · rw [← frames_unplaced_eq_nil, hframes, frames_unplaced_eq_nil]
    exact hread.frames
  · have hplain : ∀ m : OpenLine, m.finish =
        { m.unplaced.finish with line := m.line, indent := m.indent } := fun _ => rfl
    rw [hplain l', hfinish, hline, hindent, hread.finish, hplain l₁]
    rfl

theorem lex_indentation (line column : Nat) (n : Nat) (s : List Char) :
    lex line (.margin column) (List.replicate n ' ' ++ s) = lex line (.margin (column + n)) s := by
  induction n generalizing column with
  | zero => rfl
  | succ n ih =>
    have hstep : lex line (.margin column) (' ' :: (List.replicate n ' ' ++ s)) =
        lex line (.margin (column + 1)) (List.replicate n ' ' ++ s) :=
      lex_passes (by rw [step, if_pos rfl])
    rw [List.replicate_succ, List.cons_append, hstep, ih, Nat.add_assoc, Nat.add_comm 1]

/-- A row is read as the line that its text is by itself. -/
theorem lex_row {x : List Char} {l : LogicalLine} (h : OneLine x l)
    (hlast : x.getLast? ≠ some '\\') (line n : Nat) (rest : List Char) :
    lex line (.margin 0) (List.replicate n ' ' ++ x ++ '\n' :: rest) =
      (lex (line + Text.breaks x + 1) (.margin 0) rest).map
        ({ l with line := line, indent := n } :: ·) := by
  have hinert : Inert ('\n' :: rest) := by
    intro d hd
    cases hd
    decide
  obtain ⟨l', hlex, hskip, hframes, hfinish⟩ := h.lex_append hlast _ hinert line n
  rw [List.append_assoc, lex_indentation, Nat.zero_add, hlex, lex_ends _ ⟨hskip, hframes, rfl⟩,
    hfinish]

theorem lex_last_row {x : List Char} {l : LogicalLine} (h : OneLine x l)
    (hlast : x.getLast? ≠ some '\\') (line n : Nat) :
    lex line (.margin 0) (List.replicate n ' ' ++ x) =
      .ok [{ l with line := line, indent := n }] := by
  obtain ⟨l', hlex, hskip, hframes, hfinish⟩ :=
    h.lex_append hlast [] .nil line n
  rw [List.append_nil] at hlex
  rw [lex_indentation, Nat.zero_add, hlex, lex, Mode.finish, hframes]
  exact congrArg (fun l => Except.ok [l]) hfinish

end StepTrace.Python

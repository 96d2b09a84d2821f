import StepTrace.Proofs.Posix.Quoting

/-!
# Where a comment starts

Two readings of a script line look for the comment at its end. The scan goes on from the quotes that
the line begins in and knows escapes and here-documents (`LineScan.code` is what it reads before the
comment). `stripComment` takes every line to begin outside quotes and follows the plain automaton of
quotes. `stripComment_eq_code_iff` says when they agree, from any state that a line is met in:
exactly if the automaton stands outside quotes where the scan finds the comment, and at no number
sign before it that a comment could start at. They agree on lines without backslashes and
here-documents that begin outside quotes (`isSeen_of_bare`).
-/

set_option autoImplicit false

namespace StepTrace.Posix

/-! ## The reading that begins outside quotes -/

/-- Whether a comment may start behind a text that itself stands behind a character. -/
def endsInBreak (previous : Char) (s : List Char) : Bool := isBreak (s.getLast?.getD previous)

theorem endsInBreak_cons (previous c : Char) (s : List Char) :
    endsInBreak previous (c :: s) = endsInBreak c s := by
  rw [endsInBreak, endsInBreak, List.getLast?_cons, Option.getD_some]

/-- What the automaton reads before a comment, in some quotes and behind some character. -/
def uncommented (q : Quoting) (previous : Char) (s : List Char) : List Char :=
  beforeComment (q == .single) (q == .double) previous s

theorem stripComment_eq (s : List Char) : stripComment s = uncommented .bare ' ' s := rfl

theorem uncommented_cons (q : Quoting) (previous c : Char) (r : List Char) :
    uncommented q previous (c :: r) =
      if c = '#' ∧ q = .bare ∧ isBreak previous = true then []
      else c :: uncommented (q.after c) c r := by
  rw [uncommented, beforeComment]
  by_cases hsingle : c = '\x27'
  · subst hsingle
    cases q <;> rfl
  · by_cases hdouble : c = '\x22'
    · subst hdouble
      cases q <;> rfl
    · rw [Quoting.after_of_not_quote q c hsingle hdouble]
      cases q <;> simp [uncommented, hsingle, hdouble]

/-- Outside quotes nothing is taken for a comment in a text without number signs and quotes. -/
theorem uncommented_append_of_plain {s : List Char}
    (h : ∀ c ∈ s, c ≠ '#' ∧ c ≠ '\x27' ∧ c ≠ '\x22') (previous : Char) (rest : List Char) :
    ∃ q, uncommented .bare previous (s ++ rest) = s ++ uncommented .bare q rest := by
  induction s generalizing previous with
  | nil => exact ⟨previous, rfl⟩
  | cons c s ih =>
    obtain ⟨⟨hcomment, hsingle, hdouble⟩, hs⟩ := List.forall_mem_cons.mp h
    obtain ⟨q, hq⟩ := ih hs c
    refine ⟨q, ?_⟩
    rw [List.cons_append, uncommented_cons, if_neg fun hstart => hcomment hstart.1,
      Quoting.after_of_not_quote _ _ hsingle hdouble, hq, List.cons_append]

/-- Nor is anything within double quotes, up to the one that closes them. -/
theorem uncommented_double {s : List Char} (h : '\x22' ∉ s) (previous : Char) (rest : List Char) :
    uncommented .double previous (s ++ '\x22' :: rest) =
      s ++ '\x22' :: uncommented .bare '\x22' rest := by
  induction s generalizing previous with
  | nil => rfl
  | cons c s ih =>
    rw [List.mem_cons, not_or] at h
    have hafter : Quoting.double.after c = .double := by rw [Quoting.after, if_neg (Ne.symm h.1)]
    rw [List.cons_append, uncommented_cons, if_neg (by simp), hafter, ih h.2, List.cons_append]

/-- A part of a text is what the automaton reads before a comment exactly if the automaton stands
outside quotes behind it and at no earlier place where a comment could start. -/
theorem uncommented_eq_iff (q : Quoting) (previous : Char) {body code : List Char}
    (hcut : code = body ∨ ∃ v, body = code ++ '#' :: v ∧ endsInBreak previous code = true) :
    uncommented q previous body = code ↔ (code = body ∨ q.through code = .bare) ∧
      ∀ u v, code = u ++ '#' :: v → endsInBreak previous u = true → q.through u ≠ .bare := by
  induction code generalizing q previous body with
  | nil =>
    have hnone : ∀ u v, [] = u ++ '#' :: v → endsInBreak previous u = true →
        q.through u ≠ .bare := fun u v h => absurd h (by simp)
    rw [and_iff_left hnone]
    rcases hcut with rfl | ⟨v, rfl, hbreak⟩
    · exact iff_of_true rfl (.inl rfl)
    · have hprevious : isBreak previous = true := hbreak
      rw [List.nil_append, uncommented_cons]
      cases q <;> simp [hprevious, Quoting.through]
  | cons c code ih =>
    obtain ⟨rest, rfl, hrest⟩ : ∃ rest, body = c :: rest ∧
        (code = rest ∨ ∃ v, rest = code ++ '#' :: v ∧ endsInBreak c code = true) := by
      rcases hcut with rfl | ⟨v, rfl, hbreak⟩
      · exact ⟨code, rfl, .inl rfl⟩
      · exact ⟨code ++ '#' :: v, rfl, .inr ⟨v, rfl, endsInBreak_cons previous c code ▸ hbreak⟩⟩
    -- the first character may be a number sign itself; all others are those of the rest
    have hfirst : (∀ u v, c :: code = u ++ '#' :: v → endsInBreak previous u = true →
        q.through u ≠ .bare) ↔ ¬(c = '#' ∧ q = .bare ∧ isBreak previous = true) ∧
          ∀ u v, code = u ++ '#' :: v → endsInBreak c u = true → (q.after c).through u ≠ .bare := by
      constructor
      · intro h
        constructor
        · rintro ⟨hc, hq, hbreak⟩
          exact h [] code (by rw [hc, List.nil_append]) hbreak hq
        · intro u v hu hbreak
          exact h (c :: u) v (by rw [hu, List.cons_append])
            ((endsInBreak_cons previous c u).trans hbreak)
      · rintro ⟨hstart, hrest⟩ (_ | ⟨d, u⟩) v hu hbreak
        · exact fun hq => hstart ⟨(List.cons.inj hu).1, hq, hbreak⟩
        · obtain ⟨rfl, htail⟩ := List.cons.inj hu
          exact hrest u v htail ((endsInBreak_cons previous c u).symm.trans hbreak)
    rw [uncommented_cons, hfirst, List.cons_inj_right, Quoting.through_cons]
    split
    · next h => exact iff_of_false (by simp) fun hboth => hboth.2.1 h
    · next h => rw [List.cons_inj_right, ih (q.after c) c hrest, and_iff_right h]

/-! ## The reading of the scan -/

namespace LineScan

/-- What the scan reads of a line before it stops at a comment. -/
def code (s : LineScan) : List Char → List Char
  | [] => []
  | c :: next => if (s.step c next).comment then [] else c :: code (s.step c next) next

/-- The scan has not stopped, and unless it reads a delimiter it knows the character before the next
one that it will look at. -/
structure Tracks (s : LineScan) (read next : List Char) : Prop where
  comment : s.comment = false
  escaped : s.escaped = true → next = []
  previous : s.escaped = false → s.delimiter = none →
    s.previous = (read ++ next.take s.skip).getLast?.getD ' '

namespace Tracks

variable {s : LineScan} {read next : List Char} {c : Char}

theorem of_start (quoting : Quoting) (parens : Nat) (heredocs : List Delimiter)
    (line : List Char) : (start quoting parens heredocs).Tracks [] line where
  comment := rfl
  escaped h := by cases h
  previous _ _ := rfl

/-- While a delimiter is read the character before is not looked at. -/
theorem of_delimiter (hcomment : s.comment = false) (hescaped : s.escaped = false)
    (hdelimiter : s.delimiter ≠ none) : s.Tracks read next where
  comment := hcomment
  escaped h := by rw [hescaped] at h; cases h
  previous _ h := absurd h hdelimiter

/-- The scan knows the last of the characters that it has read or passes over. -/
theorem of_getLast? (hcomment : s.comment = false) (hescaped : s.escaped = false)
    (hprevious : (read ++ next.take s.skip).getLast? = some s.previous) : s.Tracks read next where
  comment := hcomment
  escaped h := by rw [hescaped] at h; cases h
  previous _ _ := by rw [hprevious, Option.getD_some]

theorem past (hskip : s.skip = 0) (hcomment : s.comment = false) (hescaped : s.escaped = false) :
    (s.past c).Tracks (read ++ [c]) next := by
  refine of_getLast? hcomment hescaped ?_
  rw [show (s.past c).skip = 0 from hskip, List.take_zero, List.append_nil, List.getLast?_concat]
  rfl

theorem escape (hcomment : s.comment = false) (hescaped : s.escaped = false) :
    (s.escape next).Tracks (read ++ [c]) next := by
  cases next with
  | nil => exact ⟨hcomment, fun _ => rfl, fun h => by cases h⟩
  | cons e next =>
    refine of_getLast? hcomment hescaped ?_
    exact List.getLast?_concat

theorem stepBare (hskip : s.skip = 0) (hcomment : s.comment = false)
    (hescaped : s.escaped = false) (h : (s.stepBare c next).comment = false) :
    (s.stepBare c next).Tracks (read ++ [c]) next := by
  rw [LineScan.stepBare] at h ⊢
  split
  · exact escape hcomment hescaped
  · repeat' split
    · exact past hskip hcomment hescaped
    · exact past hskip hcomment hescaped
    · simp_all
    · exact past hskip hcomment hescaped
    · exact past hskip hcomment hescaped
    · next hopen hthird =>
      -- the scan knows the last of the three signs that hand over a string
      obtain ⟨next, rfl⟩ := List.head?_eq_some_iff.mp hopen.2
      obtain ⟨next, rfl⟩ := List.head?_eq_some_iff.mp hthird
      refine of_getLast? hcomment hescaped ?_
      exact List.getLast?_append_cons _ '<' ['<']
    · exact of_delimiter hcomment hescaped (by simp)
    · exact past hskip hcomment hescaped

theorem stepQuoted (hskip : s.skip = 0) (hcomment : s.comment = false)
    (hescaped : s.escaped = false) (h : (s.stepQuoted c next).comment = false) :
    (s.stepQuoted c next).Tracks (read ++ [c]) next := by
  rw [LineScan.stepQuoted] at h ⊢
  split
  · next hbare =>
    rw [hbare] at h
    exact stepBare hskip hcomment hescaped h
  · split
    · exact past hskip hcomment hescaped
    · exact past hskip hcomment hescaped
  · split
    · exact escape hcomment hescaped
    · split
      · exact past hskip hcomment hescaped
      · exact past hskip hcomment hescaped

theorem stepWord (hskip : s.skip = 0) (hcomment : s.comment = false)
    (hescaped : s.escaped = false) {stripTabs : Bool} {word : List Char}
    (h : (s.stepWord stripTabs word c next).comment = false) :
    (s.stepWord stripTabs word c next).Tracks (read ++ [c]) next := by
  rw [LineScan.stepWord] at h ⊢
  split
  · exact of_delimiter hcomment hescaped (by simp)
  · next hquote =>
    rw [if_neg hquote] at h
    split
    · next hends =>
      rw [if_pos hends] at h
      exact stepBare hskip hcomment hescaped h
    · exact of_delimiter hcomment hescaped (by simp)

theorem stepBlanks (hskip : s.skip = 0) (hcomment : s.comment = false)
    (hescaped : s.escaped = false) {stripTabs : Bool}
    (h : (s.stepBlanks stripTabs c next).comment = false) :
    (s.stepBlanks stripTabs c next).Tracks (read ++ [c]) next := by
  rw [LineScan.stepBlanks] at h ⊢
  split
  · exact of_delimiter hcomment hescaped (by simp)
  · next hblank =>
    rw [if_neg hblank] at h
    exact stepWord hskip hcomment hescaped h

theorem step (hs : s.Tracks read (c :: next)) (h : (s.step c next).comment = false) :
    (s.step c next).Tracks (read ++ [c]) next := by
  have hcomment := hs.comment
  have hescaped : s.escaped = false := Bool.eq_false_iff.mpr fun he => by cases hs.escaped he
  have hruns : ¬(s.comment || s.escaped) = true := by simp [hcomment, hescaped]
  rw [LineScan.step, if_neg hruns] at h ⊢
  split
  · next k hk =>
    -- what is passed over was known when the scan began to
    refine ⟨hcomment, fun he => (by rw [hescaped] at he; cases he), fun _ hd => ?_⟩
    rw [hs.previous hescaped hd, hk, List.take_succ_cons, List.append_assoc,
      List.singleton_append]
  · next hskip =>
    rw [hskip] at h
    split
    · next hd =>
      rw [hd] at h
      exact stepQuoted hskip hcomment hescaped h
    · next hd =>
      rw [hd] at h
      split
      · exact of_delimiter hcomment hescaped (by simp)
      · next hdash =>
        simp only [if_neg hdash] at h
        exact stepBlanks hskip hcomment hescaped h
    · next hd =>
      rw [hd] at h
      exact stepBlanks hskip hcomment hescaped h
    · next hd =>
      rw [hd] at h
      exact stepWord hskip hcomment hescaped h

end Tracks

/-- Outside quotes the scan stops at a number sign behind a blank or a semicolon. -/
theorem eq_of_stepBare_comment {s : LineScan} {c : Char} {next : List Char}
    (hs : s.comment = false) (h : (s.stepBare c next).comment = true) :
    c = '#' ∧ isBreak s.previous = true := by
  rw [stepBare] at h
  split at h
  · cases next <;> simp_all [escape]
  · repeat' split at h
    all_goals first
      | next hsign => exact ⟨hsign.1, by simpa [isBreak] using hsign.2⟩
      | simp_all [past]

theorem stepQuoted_comment {s : LineScan} {c : Char} {next : List Char}
    (hs : s.comment = false) (h : (s.stepQuoted c next).comment = true) :
    c = '#' ∧ isBreak s.previous = true := by
  rw [stepQuoted] at h
  split at h
  · exact eq_of_stepBare_comment hs h
  · split at h <;> simp_all [past]
  · split at h
    · cases next <;> simp_all [escape]
    · split at h <;> simp_all [past]

/-- No delimiter is followed by a comment at once. -/
theorem stepWord_comment {s : LineScan} (hs : s.comment = false) (stripTabs : Bool)
    (word : List Char) (c : Char) (next : List Char) :
    (s.stepWord stripTabs word c next).comment = false := by
  rw [stepWord]
  split
  · exact hs
  · split
    · next hends =>
      have hexpect : (s.expect stripTabs word).comment = false := hs
      rw [Bool.eq_false_iff]
      intro h
      obtain ⟨rfl, -⟩ := eq_of_stepBare_comment hexpect h
      exact absurd hends (by decide)
    · exact hs

theorem stepBlanks_comment {s : LineScan} (hs : s.comment = false) (stripTabs : Bool) (c : Char)
    (next : List Char) : (s.stepBlanks stripTabs c next).comment = false := by
  rw [stepBlanks]
  split
  · exact hs
  · exact stepWord_comment hs stripTabs [] c next

/-- Where the scan stops it knows the character before. -/
theorem Tracks.of_step_comment {s : LineScan} {read next : List Char} {c : Char}
    (hs : s.Tracks read (c :: next)) (h : (s.step c next).comment = true) :
    c = '#' ∧ endsInBreak ' ' read = true := by
  have hcomment := hs.comment
  have hescaped : s.escaped = false := Bool.eq_false_iff.mpr fun he => by cases hs.escaped he
  have hruns : ¬(s.comment || s.escaped) = true := by simp [hcomment, hescaped]
  -- of the modes of the scan only that of plain text comes upon a comment
  rw [LineScan.step, if_neg hruns] at h
  split at h
  · rw [hcomment] at h
    cases h
  · next hskip =>
    split at h
    · next hd =>
      have hprevious := hs.previous hescaped hd
      rw [hskip, List.take_zero, List.append_nil] at hprevious
      rw [endsInBreak, ← hprevious]
      exact stepQuoted_comment hcomment h
    · split at h
      · rw [hcomment] at h
        cases h
      · rw [stepBlanks_comment hcomment] at h
        cases h
    · rw [stepBlanks_comment hcomment] at h
      cases h
    · rw [stepWord_comment hcomment] at h
      cases h

/-- What the scan leaves of a line is a comment, if anything. -/
theorem Tracks.code_cut {s : LineScan} {read line : List Char} (hs : s.Tracks read line) :
    s.code line = line ∨ ∃ v, line = s.code line ++ '#' :: v ∧
      endsInBreak ' ' (read ++ s.code line) = true := by
  induction line generalizing s read with
  | nil => exact .inl rfl
  | cons c next ih =>
    rw [code]
    split
    · next h =>
      obtain ⟨rfl, hbreak⟩ := hs.of_step_comment h
      exact .inr ⟨next, rfl, by rwa [List.append_nil]⟩
    · next h =>
      rcases ih (hs.step (Bool.not_eq_true _ ▸ h)) with heq | ⟨v, hv, hbreak⟩
      · exact .inl (by rw [heq])
      · refine .inr ⟨v, by rw [List.cons_append, ← hv], ?_⟩
        rwa [List.append_assoc] at hbreak

/-- On a line without escapes and here-documents the scan reads what the automaton reads from the
same quotes. -/
theorem code_eq_uncommented {s : LineScan} (hs : s.IsFree) {line : List Char}
    (hescape : '\\' ∉ line) (hdoc : ¬['<', '<'] <:+: line) :
    s.code line = uncommented s.quoting s.previous line := by
  induction line generalizing s with
  | nil => rfl
  | cons c next ih =>
    have hc : c ≠ '\\' := fun h => hescape (h ▸ List.mem_cons_self)
    have hopen : ¬(c = '<' ∧ next.head? = some '<') := by
      rintro ⟨rfl, hn⟩
      obtain ⟨next, rfl⟩ := List.head?_eq_some_iff.mp hn
      exact hdoc ⟨[], next, rfl⟩
    have hstep := s.step_of_isFree hs hc hopen
    rw [code, uncommented_cons]
    split at hstep
    · next h => rw [if_pos hstep, if_pos h]
    · next h =>
      obtain ⟨hfree, hquoting, -, hprevious⟩ := hstep
      have hrest := ih hfree (fun hmem => hescape (List.mem_cons_of_mem c hmem))
        fun hin => hdoc (hin.trans (List.suffix_cons c next).isInfix)
      rw [if_neg (by simp [hfree.comment]), if_neg h, hrest, hquoting, hprevious]

end LineScan

/-! ## Where the two agree -/

/-- The automaton finds the comment of a line where the scan finds it: it stands outside quotes
there, and at no number sign before it that a comment could start at. -/
structure IsSeen (body code : List Char) : Prop where
  start : code = body ∨ Quoting.through .bare code = .bare
  earlier : ∀ u v, code = u ++ '#' :: v → endsInBreak ' ' u = true →
    Quoting.through .bare u ≠ .bare

/-- When the two readings of a line agree, whatever state it is met in. -/
theorem stripComment_eq_code_iff (quoting : Quoting) (parens : Nat) (heredocs : List Delimiter)
    (body : List Char) :
    stripComment body = (LineScan.start quoting parens heredocs).code body ↔
      IsSeen body ((LineScan.start quoting parens heredocs).code body) := by
  have hcut := (LineScan.Tracks.of_start quoting parens heredocs body).code_cut
  rw [List.nil_append] at hcut
  rw [stripComment_eq, uncommented_eq_iff .bare ' ' hcut]
  exact ⟨fun h => ⟨h.1, h.2⟩, fun h => ⟨h.start, h.earlier⟩⟩

/-- They agree on a line without escapes and here-documents that begins outside quotes. -/
theorem isSeen_of_bare (parens : Nat) (heredocs : List Delimiter) {body : List Char}
    (hescape : '\\' ∉ body) (hdoc : ¬['<', '<'] <:+: body) :
    IsSeen body ((LineScan.start .bare parens heredocs).code body) := by
  rw [← stripComment_eq_code_iff, stripComment_eq,
    LineScan.code_eq_uncommented (LineScan.isFree_start .bare parens heredocs) hescape hdoc]
  rfl

end StepTrace.Posix

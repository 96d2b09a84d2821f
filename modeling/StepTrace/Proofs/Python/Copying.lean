import StepTrace.Proofs.Python.Scan

/-!
# The text of a logical line reads like its source

The text of a logical line is its source without comments and without blank continuation lines. Read
as source itself, it takes the reader through the same open constructs to the same end:
`Copies` follows the reader through a text of which every character is kept, and
`copies_of_completes` finds such a course for the text of every logical line that was read. What is
left out lies between two characters of the text, so the two readings may look at different
characters ahead; `Sees` says how far they differ.
-/

set_option autoImplicit false

namespace StepTrace.Python

variable {l l₁ l' f : OpenLine} {line : Nat} {c : Char} {s next after : List Char}

namespace OpenLine

/-- Whether a line feed outside strings would drop the physical line. -/
def Droppable (l : OpenLine) : Prop :=
  l.earlier ≠ [] ∧ l.inString = false ∧ Text.allBlank l.current = true

/-- The line without the physical line that is being read, and outside comments. -/
def dropped (l : OpenLine) : OpenLine := { l with current := [], comment := false }

/-- What holds of a line throughout: inside a string there is no comment, and the physical line is
not blank. -/
structure Sound (l : OpenLine) : Prop where
  proper : Proper l.frames
  comment : l.inCode = false → l.comment = false
  solid : l.inCode = false → ¬l.Droppable

end OpenLine

theorem remarking_false (h : l.comment = false) : l.remarking false = l := by
  rw [OpenLine.remarking, ← h]

theorem OpenLine.Sound.start (line column : Nat) : (OpenLine.start line column).Sound :=
  ⟨.nil, fun _ => rfl, fun _ h => h.1 rfl⟩

theorem not_droppable_push (h : Text.isBlank c = false) : ¬(l.push c).Droppable := by
  intro hd
  have hall : Text.allBlank (c :: l.current) = true := hd.2.2
  rw [Text.allBlank_cons, h] at hall
  cases hall

/-! ## Steps that keep their characters -/

/-- A step outside comments that keeps its character and those that it takes along. -/
structure Keeps (l : OpenLine) (line : Nat) (c : Char) (next : List Char) (l₁ : OpenLine) :
    Prop where
  skip : l.skip = 0
  goes : ¬l.Ends c
  grows : Grows l line c next l₁
  comment : l₁.comment = false
  text : l₁.behind = (next.take l₁.skip).reverse ++ c :: l.behind

/-- How far a step depends on what follows. -/
structure Looks (l : OpenLine) (c : Char) (next : List Char) (l₁ : OpenLine) : Prop where
  /-- A quote takes along nothing or two more quotes. -/
  quote : c = '\x27' ∨ c = '\x22' → l₁.skip = 0 ∨ l₁.skip = 2
  /-- A backslash that takes nothing along is kept as any other character. -/
  escape : c = '\\' → l₁.skip = 0 →
    l₁ = l.push c ∧ l.inCode = true ∧ next.head? ≠ some '\n'
  /-- No line feed drops a physical line that holds a sign. -/
  solid : Text.isBlank c = false → l₁.skip = 0 → ¬l₁.Droppable
  /-- A physical line that a line feed would drop is empty, or was such before a blank. -/
  droppable : l₁.Droppable → l₁.inCode = true ∧
    (l₁.current = [] ∨ Text.isBlank c = true ∧ c ≠ '\n' ∧ l₁ = l.push c)

/-- All that can happen to a line at a character that does not end it. -/
inductive Fate (l : OpenLine) (line : Nat) (c : Char) (next : List Char) : OpenLine → Prop
  | taken (k : Nat) : l.skip = k + 1 → Fate l line c next (l.passing k)
  /-- The character belongs to a comment. -/
  | silent : l.skip = 0 → c ≠ '\n' → c = '#' ∨ l.comment = true → l.inCode = true →
      Fate l line c next (l.remarking true)
  /-- The character ends a blank continuation line. -/
  | blank : l.skip = 0 → c = '\n' → l.Droppable → l.inCode = true → Fate l line c next l.dropped
  /-- The source ends in a string, behind a backslash. -/
  | lone (l₁ : OpenLine) : next = [] → l₁.inCode = false → Fate l line c next l₁
  | kept (l₁ : OpenLine) : (l.comment = true → c = '\n') →
      Keeps (l.remarking false) line c next l₁ → Looks (l.remarking false) c next l₁ →
      Fate l line c next l₁

theorem not_droppable_of_inString (h : l.inString = true) : ¬l.Droppable :=
  fun hd => absurd (h.symm.trans hd.2.1) (by simp)

theorem continueLine_of_droppable (h : l.Droppable) :
    (l.remarking false).continueLine = l.dropped := by
  have hdrop : (l.remarking false).continueLine =
      { l with current := [], inString := false, comment := false } := if_pos h
  rw [hdrop, OpenLine.dropped, ← h.2.1]

theorem continueLine_of_not_droppable (h : ¬l.Droppable) :
    l.continueLine = l.breakLine false :=
  if_neg h

theorem inCode_of_string {quote : Char} {triple format : Bool} {opened : Nat} {outer : List Frame}
    (h : l.frames = .string quote triple format opened :: outer) : l.inCode = false := by
  rw [OpenLine.inCode, h]
  rfl

theorem take_head {d : Char} (h : next.head? = some d) : next.take 1 = [d] := by
  obtain ⟨rest, rfl⟩ := List.head?_eq_some_iff.mp h
  rfl

theorem Looks.of_solid (hquote : c = '\x27' ∨ c = '\x22' → l₁.skip = 0 ∨ l₁.skip = 2)
    (hescape : c = '\\' → l₁.skip ≠ 0) (hsolid : ¬l₁.Droppable) : Looks l c next l₁ where
  quote := hquote
  escape := fun hc h => absurd h (hescape hc)
  solid := fun _ _ => hsolid
  droppable := fun h => absurd h hsolid

/-- A step inside a string keeps its characters. -/
theorem fate_of_stringStep {quote : Char} {triple format : Bool} {opened : Nat}
    {outer : List Frame} (hl : l.Sound) (h0 : l.skip = 0)
    (hf : l.frames = .string quote triple format opened :: outer)
    (h : StringStep l quote triple format c next l₁) : Fate l line c next l₁ := by
  have hcode := inCode_of_string hf
  have hcomment := hl.comment hcode
  have hsame := remarking_false hcomment
  -- in a string nothing is left out, so it is enough to show these of each step
  have hkept : l₁.comment = false → l₁.behind = (next.take l₁.skip).reverse ++ c :: l.behind →
      (c = '\x27' ∨ c = '\x22' → l₁.skip = 0 ∨ l₁.skip = 2) → (c = '\\' → l₁.skip ≠ 0) →
      ¬l₁.Droppable → Fate l line c next l₁ := by
    intro hremark htext hquotes hescape hsolid
    have hgrows : Grows l line c next l₁ := .string quote triple format opened outer l₁ h0 hf h
    have hgoes : ¬l.Ends c := fun hends => absurd (hf.symm.trans hends.2.1) (by simp)
    refine .kept l₁ (fun h => absurd (hcomment.symm.trans h) (by simp)) ?_
      (.of_solid hquotes hescape hsolid)
    rw [hsame]
    exact ⟨h0, hgoes, hgrows, hremark, htext⟩
  have hquote : c = quote → Text.isBlank c = false := fun hc => hc ▸ hl.proper.isBlank_quote hf
  -- a physical line with a string in it is not blank, nor becomes so
  have hpush : ∀ d, ¬(l.push d).Droppable := by
    intro d hd
    have hall : Text.allBlank (d :: l.current) = true := hd.2.2
    rw [Text.allBlank_cons, Bool.and_eq_true] at hall
    exact hl.solid hcode ⟨hd.1, hd.2.1, hall.2⟩
  cases h with
  | loneEscape hc hnext => exact .lone _ hnext hcode
  | escapedBreak hc hnext =>
    refine hkept hcomment ?_ ?_ (by simp) (not_droppable_of_inString rfl)
    · simp [take_head hnext]
    · rintro (h | h) <;> rw [hc] at h <;> cases h
  | escape e hc hnext he =>
    refine hkept hcomment ?_ ?_ (by simp) ?_
    · simp [take_head hnext]
    · rintro (h | h) <;> rw [hc] at h <;> cases h
    · show ¬((l.push c).push e).Droppable
      intro hd
      have hall : Text.allBlank (e :: c :: l.current) = true := hd.2.2
      rw [Text.allBlank_cons, Bool.and_eq_true] at hall
      exact hpush c ⟨hd.1, hd.2.1, hall.2⟩
  | broken hc ht =>
    refine hkept hcomment ?_ (fun _ => .inl h0) ?_ (not_droppable_of_inString rfl)
    · simp [h0, hc]
    · exact fun h => absurd (hc.symm.trans h) (by decide)
  | closed hc h1 h2 ht =>
    exact hkept hcomment (by simp [h0]) (fun _ => .inl h0) (fun h => absurd h h1) (hpush c)
  | closedTriple hc h1 h2 ht hnext =>
    refine hkept hcomment ?_ (fun _ => .inr rfl) (fun h => absurd h h1) ?_
    · simp [hnext]
    · show ¬(((l.push c).push c).push c).Droppable
      exact not_droppable_push (hquote hc)
  | inner hc h1 h2 ht hnext =>
    exact hkept hcomment (by simp [h0]) (fun _ => .inl h0) (fun h => absurd h h1) (hpush c)
  | doubled hc h1 hfmt hnext =>
    subst hc
    refine hkept hcomment ?_ ?_ (fun h => absurd h (by decide)) ?_
    · simp [take_head hnext]
    · rintro (h | h) <;> cases h
    · show ¬((l.push '\x7b').push '\x7b').Droppable
      exact not_droppable_push (by decide)
  | field hc h1 hfmt hnext =>
    subst hc
    exact hkept hcomment (by simp [h0]) (fun _ => .inl h0) (fun h => absurd h (by decide))
      (hpush _)
  | plain h1 h2 h3 h4 =>
    exact hkept hcomment (by simp [h0]) (fun _ => .inl h0) (fun h => absurd h h1) (hpush c)

/-- A step in code keeps its characters, or leaves out a comment or a blank line. -/
theorem fate_of_codeStep (h0 : l.skip = 0) (hcode : l.inCode = true) (hgoes : ¬l.Ends c)
    (hcomment : l.comment = true → c = '\n')
    (h : CodeStep (l.remarking false) line c next l₁) : Fate l line c next l₁ := by
  have hkept : l₁.comment = false → l₁.behind = (next.take l₁.skip).reverse ++ c :: l.behind →
      Looks (l.remarking false) c next l₁ → Fate l line c next l₁ := by
    intro hremark htext hlooks
    have hgrows : Grows (l.remarking false) line c next l₁ :=
      .code l₁ h0 hcode (fun h => absurd h (by simp [OpenLine.remarking])) h
    exact .kept l₁ hcomment ⟨h0, hgoes, hgrows, hremark, htext⟩ hlooks
  -- a sign that is none of the characters that look ahead
  have hsign : l₁.skip = 0 → c ≠ '\\' → ¬l₁.Droppable → Looks (l.remarking false) c next l₁ :=
    fun hskip hc hsolid => .of_solid (fun _ => .inl hskip) (fun h => absurd h hc) hsolid
  cases h with
  | remark hc hf => exact .silent h0 (by rw [hc]; decide) (.inl hc) hcode
  | joined hc hnext =>
    refine hkept rfl (by simp [take_head hnext]) ⟨?_, ?_, ?_, fun _ => ⟨hcode, .inl rfl⟩⟩
    · rintro (h | h) <;> rw [hc] at h <;> cases h
    · exact fun _ h => absurd h (by simp)
    · exact fun _ h => absurd h (by simp)
  | broken hc =>
    by_cases hd : l.Droppable
    · rw [continueLine_of_droppable hd]
      exact .blank h0 hc hd hcode
    · rw [continueLine_of_not_droppable (l := l.remarking false) hd] at hkept ⊢
      refine hkept rfl (by simp [h0, hc]) ⟨fun _ => .inl h0, ?_, ?_, fun _ => ⟨hcode, .inl rfl⟩⟩
      · exact fun h => absurd (hc.symm.trans h) (by decide)
      · exact fun h => absurd h (by rw [hc]; decide)
  | opened hc =>
    refine hkept rfl (by simp [h0]) (hsign h0 ?_ (not_droppable_push ?_))
    · rcases hc with rfl | rfl | rfl <;> decide
    · rcases hc with rfl | rfl | rfl <;> decide
  | closed frames hc hclose =>
    refine hkept rfl (by simp [h0]) (hsign h0 ?_ (not_droppable_push ?_))
    · rcases hc with rfl | rfl | rfl <;> decide
    · rcases hc with rfl | rfl | rfl <;> decide
  | quote hc hnext =>
    refine hkept rfl (by simp [h0]) (hsign h0 ?_ (not_droppable_push ?_))
    · rcases hc with rfl | rfl <;> decide
    · rcases hc with rfl | rfl <;> decide
  | quoteTriple hc hnext =>
    refine hkept rfl (by simp [hnext]) (.of_solid (fun _ => .inr rfl) (fun _ => by simp) ?_)
    · have hblank : Text.isBlank c = false := by rcases hc with rfl | rfl <;> decide
      exact not_droppable_push (l := (((l.remarking false).enter _).push c).push c) hblank
  | colon hc hf hnext =>
    refine hkept rfl (by simp [h0]) (hsign h0 ?_ (not_droppable_push ?_)) <;> rw [hc] <;> decide
  | semicolon hc hf =>
    refine hkept rfl (by simp [h0]) (hsign h0 ?_ (not_droppable_push ?_)) <;> rw [hc] <;> decide
  | plain h1 h2 h3 h4 h5 h6 h7 h8 =>
    refine hkept rfl (by simp [h0]) ⟨fun _ => .inl h0,
      fun hc _ => ⟨rfl, hcode, fun hnext => h2 ⟨hc, hnext⟩⟩,
      fun hc _ => not_droppable_push hc, fun hd => ⟨hcode, .inr ⟨?_, h3, rfl⟩⟩⟩
    by_contra hc
    exact not_droppable_push (Bool.eq_false_iff.mpr hc) hd

theorem Grows.fate (h : Grows l line c next l₁) (hl : l.Sound) (hgoes : ¬l.Ends c) :
    Fate l line c next l₁ := by
  cases h with
  | taken k hk => exact .taken k hk
  | string quote triple format opened outer _ h0 hf h => exact fate_of_stringStep hl h0 hf h
  | comment h0 hcode hcomment hc =>
    have hsilent : Fate l line c next (l.remarking true) :=
      .silent h0 hc (.inr hcomment) hcode
    rwa [OpenLine.remarking, ← hcomment] at hsilent
  | code _ h0 hcode hcomment h => exact fate_of_codeStep h0 hcode hgoes hcomment h

/-- A line stays sound. -/
theorem Fate.sound (h : Fate l line c next l₁) (hl : l.Sound) (hproper : Proper l₁.frames)
    (hend : next = [] → l₁.inCode = true) : l₁.Sound := by
  cases h with
  | taken k hk => exact ⟨hproper, hl.comment, hl.solid⟩
  | silent h0 hc hor hcode =>
    exact ⟨hproper, fun h => absurd (hcode.symm.trans h) (by simp),
      fun h => absurd (hcode.symm.trans h) (by simp)⟩
  | blank h0 hc hd hcode =>
    exact ⟨hproper, fun h => absurd (hcode.symm.trans h) (by simp),
      fun h => absurd (hcode.symm.trans h) (by simp)⟩
  | lone _ hnil hcode => exact absurd ((hend hnil).symm.trans hcode) (by simp)
  | kept _ _ hkeeps hlooks =>
    exact ⟨hproper, fun _ => hkeeps.comment,
      fun h hd => absurd ((hlooks.droppable hd).1.symm.trans h) (by simp)⟩

/-! ## Courses -/

/-- A line grows by a text of which every character is kept. -/
inductive Copies (after : List Char) : OpenLine → List Char → OpenLine → Prop
  | nil (l : OpenLine) : Copies after l [] l
  | taken {l l' : OpenLine} {c : Char} {s : List Char} (k : Nat) : l.skip = k + 1 →
      Copies after (l.passing k) s l' → Copies after l (c :: s) l'
  | kept {l l₁ l' : OpenLine} {c : Char} {s : List Char} (line : Nat) :
      Keeps l line c (s ++ after) l₁ → Copies after l₁ s l' → Copies after l (c :: s) l'

/-- A line is read to its end. -/
inductive Completes : Nat → OpenLine → List Char → OpenLine → Prop
  | stop (line : Nat) (l : OpenLine) : l.skip = 0 → l.frames = [] → Completes line l [] l
  | ends (line : Nat) {l : OpenLine} {c : Char} (next : List Char) : l.Ends c →
      Completes line l (c :: next) l
  | grows {line : Nat} {l l₁ f : OpenLine} {c : Char} {next : List Char} : ¬l.Ends c →
      Grows l line c next l₁ → Completes (lineAfter line c) l₁ next f →
      Completes line l (c :: next) f

/-- How what follows a line in its source goes with what follows it in its text. -/
structure Sees (l : OpenLine) (source text : List Char) : Prop where
  taken : text.take l.skip = source.take l.skip
  ahead : l.skip = 0 → l.comment = false → ¬l.Droppable → text.head? = source.head? ∨
    (source.head? = some '#' ∨ source.head? = some '\n') ∧ (text = [] ∨ text.head? = some '\n')
  quotes : l.skip = 0 → l.comment = false → ¬l.Droppable → ∀ d, d = '\x27' ∨ d = '\x22' →
    (source.take 2 = [d, d] ↔ text.take 2 = [d, d])
  remark : l.skip = 0 → l.comment = true → ¬l.Droppable → text = [] ∨ text.head? = some '\n'

variable {r v : List Char} {m : OpenLine}

theorem head_of_take {k : Nat} (hk : k ≠ 0) (h : v.take k = r.take k) : v.head? = r.head? := by
  obtain ⟨k, rfl⟩ := Nat.exists_eq_succ_of_ne_zero hk
  cases v <;> cases r <;> simp_all

/-- The next characters are the same ones, as far as a sign is concerned. -/
theorem Sees.head_iff {d : Char} (h : Sees l₁ r v) (hcomment : l₁.comment = false)
    (hsolid : l₁.skip = 0 → ¬l₁.Droppable) (hd : d ≠ '#') (hd' : d ≠ '\n') :
    r.head? = some d ↔ v.head? = some d := by
  -- where the texts differ one goes on with a comment or a line feed, and the other with none
  by_cases hskip : l₁.skip = 0
  · rcases h.ahead hskip hcomment (hsolid hskip) with heq | ⟨hr, hv⟩
    · rw [heq]
    · refine iff_of_false (fun h => ?_) (fun h => ?_)
      · rcases hr with hr | hr
        · exact hd (Option.some.inj (h.symm.trans hr))
        · exact hd' (Option.some.inj (h.symm.trans hr))
      · rcases hv with hv | hv
        · rw [hv] at h
          cases h
        · exact hd' (Option.some.inj (h.symm.trans hv))
  · rw [head_of_take hskip h.taken]

theorem take_two_iff {d : Char} : (c :: r).take 2 = [d, d] ↔ c = d ∧ r.head? = some d := by
  cases r <;> simp

/-- A character that takes nothing along, but for a backslash, is read alike in the source and in
the text. -/
theorem Looks.agree (hlooks : Looks m c r l₁) (hcomment : l₁.comment = false)
    (hsees : Sees l₁ r v) (hc : c = '\\' → l₁.skip ≠ 0) : Agree c r v where
  escaped := fun h => (head_of_take (hc h) hsees.taken).symm
  quotes := by
    intro hq
    have hblank : Text.isBlank c = false := by rcases hq with rfl | rfl <;> decide
    rcases hlooks.quote hq with h | h
    · exact hsees.quotes h hcomment (hlooks.solid hblank h) c hq
    · rw [← h, hsees.taken]
  brace := by
    rintro rfl
    exact hsees.head_iff hcomment (hlooks.solid (by decide)) (by decide) (by decide)
  equals := by
    rintro rfl
    exact hsees.head_iff hcomment (hlooks.solid (by decide)) (by decide) (by decide)

theorem Keeps.congr (h : Keeps m line c r l₁) (hm : Proper m.frames) (ha : Agree c r v)
    (htake : v.take l₁.skip = r.take l₁.skip) : Keeps m line c v l₁ :=
  ⟨h.skip, h.goes, h.grows.congr hm ha, h.comment, htake ▸ h.text⟩

/-! ## The text of a line -/

theorem keeps_backslash (h0 : m.skip = 0) (hcode : m.inCode = true) (hcomment : m.comment = false)
    (hnext : r.head? ≠ some '\n') : Keeps m line '\\' r (m.push '\\') := by
  have hsame := remarking_false hcomment
  have hstep : CodeStep (m.remarking false) line '\\' r (m.push '\\') := by
    rw [hsame]
    exact .plain (by simp) (fun h => hnext h.2) (by decide) (by decide) (by decide) (by decide)
      (by simp) (by simp)
  exact ⟨h0, fun h => absurd h.2.2 (by decide),
    .code _ h0 hcode (fun h => absurd (hcomment.symm.trans h) (by simp)) hstep, hcomment,
    by simp [h0]⟩

theorem keeps_joined (h0 : m.skip = 0) (hcode : m.inCode = true) (hcomment : m.comment = false)
    (hnext : r.head? = some '\n') :
    Keeps m line '\\' r (((m.push '\\').breakLine false).passing 1) := by
  have hstep : CodeStep (m.remarking false) line '\\' r
      ((((m.remarking false).push '\\').breakLine false).passing 1) := .joined rfl hnext
  have hsame := remarking_false hcomment
  rw [hsame] at hstep
  exact ⟨h0, fun h => absurd h.2.2 (by decide),
    .code _ h0 hcode (fun h => absurd (hcomment.symm.trans h) (by simp)) (hsame.symm ▸ hstep),
    hcomment, by simp [take_head hnext]⟩

theorem Keeps.breaks (h : Keeps l line '\n' next l₁) (hcode : l.inCode = true) :
    l₁ = (l.remarking false).breakLine false ∧ ¬l.Droppable := by
  cases h.grows with
  | taken k hk => exact absurd (h.skip.symm.trans hk) (by simp)
  | string _ _ _ _ _ _ _ hf => exact absurd ((inCode_of_string hf).symm.trans hcode) (by simp)
  | comment _ _ _ hne => exact absurd rfl hne
  | code _ _ _ _ hstep =>
    cases hstep with
    | remark hc => cases hc
    | joined hc => cases hc
    | broken =>
      -- a step that drops the physical line does not keep its character
      by_cases hd : l.Droppable
      · have htext := congrArg List.length h.text
        rw [continueLine_of_droppable hd] at htext
        simp [OpenLine.dropped, OpenLine.behind] at htext
        omega
      · exact ⟨continueLine_of_not_droppable (l := l.remarking false) hd, hd⟩
    | opened hc => rcases hc with hc | hc | hc <;> cases hc
    | closed _ hc => rcases hc with hc | hc | hc <;> cases hc
    | quote hc => rcases hc with hc | hc <;> cases hc
    | quoteTriple hc => rcases hc with hc | hc <;> cases hc
    | colon hc => cases hc
    | semicolon hc => cases hc
    | plain _ _ hc => exact absurd rfl hc

/-- A step that keeps its character in the source is a step in the text. -/
theorem Copies.cons_of_sees (hcopies : Copies [] l₁ v l') (hm : Proper m.frames)
    (h : Keeps m line c r l₁) (hlooks : Looks m c r l₁) (hsees : Sees l₁ r v)
    (hcomment : m.comment = false) : Copies [] m (c :: v) l' := by
  by_cases hplain : c = '\\' ∧ l₁.skip = 0
  · obtain ⟨rfl, hskip⟩ := hplain
    obtain ⟨rfl, hcode, hnext⟩ := hlooks.escape rfl hskip
    by_cases hv : v.head? = some '\n'
    · -- a comment stood between the backslash and the line feed: in the text they join the lines
      obtain ⟨v, rfl⟩ := List.head?_eq_some_iff.mp hv
      cases hcopies with
      | taken k hk => exact absurd (h.skip.symm.trans hk) (by simp)
      | @kept _ l₂ _ _ _ line' hkeeps hrest =>
        have hbreak : l₂ = (m.push '\\').breakLine false := by
          have hsame := remarking_false hcomment
          rw [(hkeeps.breaks hcode).1, ← hsame]
          rfl
        refine .kept line (keeps_joined h.skip hcode hcomment rfl) (.taken 0 rfl ?_)
        have hpassed : (((m.push '\\').breakLine false).passing 1).passing 0 = l₂ := by
          rw [hbreak, OpenLine.passing, OpenLine.passing, ← h.skip]
          rfl
        rwa [hpassed]
    · refine .kept line (keeps_backslash h.skip hcode hcomment ?_) hcopies
      rwa [List.append_nil]
  · refine .kept line (h.congr hm ?_ ?_) hcopies
    · rw [List.append_nil]
      exact hlooks.agree h.comment hsees fun hc hskip => hplain ⟨hc, hskip⟩
    · rw [List.append_nil]
      exact hsees.taken

/-- What follows a step that keeps its character. -/
theorem Looks.sees (hlooks : Looks (l.remarking false) c r l₁) (h0 : l.skip = 0)
    (hcomment : l.comment = true → c = '\n') (hcomment' : l₁.comment = false)
    (hsees : Sees l₁ r v) : Sees l (c :: r) (c :: v) where
  taken := by rw [h0, List.take_zero, List.take_zero]
  ahead := fun _ _ _ => .inl rfl
  quotes := by
    intro _ _ _ d hd
    rw [take_two_iff, take_two_iff]
    refine and_congr_right ?_
    rintro rfl
    have hblank : Text.isBlank c = false := by rcases hd with rfl | rfl <;> decide
    refine hsees.head_iff hcomment' (hlooks.solid hblank) ?_ ?_
    · rcases hd with rfl | rfl <;> decide
    · rcases hd with rfl | rfl <;> decide
  remark := fun _ h _ => .inr (congrArg some (hcomment h))

/-- Nothing is asked of what follows a physical line that is left out. -/
theorem Sees.of_droppable (h0 : l.skip = 0) (hd : l.Droppable) : Sees l r v where
  taken := by rw [h0, List.take_zero, List.take_zero]
  ahead := fun _ _ h => absurd hd h
  quotes := fun _ _ h => absurd hd h
  remark := fun _ _ h => absurd hd h

/-- A comment is followed in the text by a line feed, if by anything. -/
theorem Sees.of_remarking (h : Sees (l.remarking true) r v) (h0 : l.skip = 0)
    (hor : c = '#' ∨ l.comment = true) : Sees l (c :: r) v where
  taken := by rw [h0, List.take_zero, List.take_zero]
  ahead := by
    intro _ hcomment hd
    have hsign : c = '#' := hor.resolve_right (by rw [hcomment]; simp)
    exact .inr ⟨.inl (congrArg some hsign), h.remark h0 rfl hd⟩
  quotes := by
    intro _ hcomment hd d hquote
    have hsign : c = '#' := hor.resolve_right (by rw [hcomment]; simp)
    rw [take_two_iff, hsign]
    refine iff_of_false (fun h' => ?_) (fun h' => ?_)
    · rcases hquote with rfl | rfl <;> cases h'.1
    · rcases h.remark h0 rfl hd with hv | hv
      · rw [hv] at h'
        cases h'
      · obtain ⟨v, rfl⟩ := List.head?_eq_some_iff.mp hv
        rw [take_two_iff] at h'
        rcases hquote with rfl | rfl <;> cases h'.1
  remark := fun _ _ hd => h.remark h0 rfl hd

/-- The rest of a line that is read to its end has a text that takes the line to the same end,
without the comment or the blank physical line that it may stand in. -/
theorem copies_of_completes (h : Completes line l r f) (hl : l.Sound) :
    ∃ v m, (m = l.remarking false ∨ l.Droppable ∧ m = l.dropped) ∧
      Copies [] m v (f.remarking false) ∧ Sees l r v := by
  -- backwards over the course: the text of the rest is known before the character is placed
  induction h with
  | stop line l h0 =>
    refine ⟨[], _, .inl rfl, .nil _, ⟨rfl, fun _ _ _ => .inl rfl, ?_, fun _ _ _ => .inl rfl⟩⟩
    exact fun _ _ _ _ _ => Iff.rfl
  | @ends line l c next hends =>
    obtain ⟨h0, -, rfl⟩ := hends
    refine ⟨[], _, .inl rfl, .nil _, ⟨?_, fun _ _ _ => .inr ⟨.inr rfl, .inl rfl⟩, ?_,
      fun _ _ _ => .inl rfl⟩⟩
    · rw [h0, List.take_zero, List.take_zero]
    · rintro - - - d hd
      rw [take_two_iff]
      refine iff_of_false (fun h => ?_) (by simp)
      rcases hd with rfl | rfl <;> cases h.1
  | @grows line l l₁ f c next hgoes hgrow hrest ih =>
    have hfate := hgrow.fate hl hgoes
    have hend : next = [] → l₁.inCode = true := by
      rintro rfl
      cases hrest with
      | stop _ _ _ hframes => rw [OpenLine.inCode, hframes]; rfl
    obtain ⟨v, m, hm, hcopies, hsees⟩ := ih (hfate.sound hl (hgrow.proper hl.proper) hend)
    cases hfate with
    | taken k hk =>
      have hskip : ∀ h : l.skip = 0, False := fun h => absurd (h.symm.trans hk) (by simp)
      have hsees' : Sees l (c :: next) (c :: v) := by
        refine ⟨?_, fun h => (hskip h).elim, fun h => (hskip h).elim, fun h => (hskip h).elim⟩
        have htaken : v.take k = next.take k := hsees.taken
        rw [hk, List.take_succ_cons, List.take_succ_cons, htaken]
      rcases hm with rfl | ⟨hd, rfl⟩
      · exact ⟨c :: v, _, .inl rfl, .taken k hk hcopies, hsees'⟩
      · exact ⟨c :: v, _, .inr ⟨hd, rfl⟩, .taken k hk hcopies, hsees'⟩
    | silent h0 hc hor hcode =>
      exact ⟨v, m, hm, hcopies, hsees.of_remarking h0 hor⟩
    | blank h0 hc hd hcode =>
      rcases hm with rfl | ⟨-, rfl⟩
      · exact ⟨v, _, .inr ⟨hd, rfl⟩, hcopies, .of_droppable h0 hd⟩
      · exact ⟨v, _, .inr ⟨hd, rfl⟩, hcopies, .of_droppable h0 hd⟩
    | lone _ hnil hcode => exact absurd ((hend hnil).symm.trans hcode) (by simp)
    | kept _ hcomment hkeeps hlooks =>
      have hcons : Copies [] l₁ v (f.remarking false) → ∃ v m,
          (m = l.remarking false ∨ l.Droppable ∧ m = l.dropped) ∧
            Copies [] m v (f.remarking false) ∧ Sees l (c :: next) v := by
        intro hcopies
        exact ⟨c :: v, _, .inl rfl,
          hcopies.cons_of_sees (m := l.remarking false) hl.proper hkeeps hlooks hsees rfl,
          hlooks.sees hkeeps.skip hcomment hkeeps.comment hsees⟩
      have hsame := remarking_false hkeeps.comment
      rcases hm with rfl | ⟨hd, rfl⟩
      · exact hcons (hsame ▸ hcopies)
      · -- the physical line is left out later: only a line feed before it is kept
        rcases (hlooks.droppable hd).2 with hempty | ⟨hblank, hc, rfl⟩
        · refine hcons ?_
          have hdropped : l₁.dropped = l₁ := by
            rw [OpenLine.dropped, ← hempty, ← hkeeps.comment]
          exact hdropped ▸ hcopies
        · -- a blank at the start of a physical line that is left out
          have hall : Text.allBlank (c :: l.current) = true := hd.2.2
          rw [Text.allBlank_cons, Bool.and_eq_true] at hall
          have hdrop : l.Droppable := ⟨hd.1, hd.2.1, hall.2⟩
          exact ⟨v, _, .inr ⟨hdrop, rfl⟩, hcopies, .of_droppable hkeeps.skip hdrop⟩

/-! ## Courses of texts -/

theorem Copies.split {t : List Char} (h : Copies after l (s ++ t) l') :
    ∃ m, Copies (t ++ after) l s m ∧ Copies after m t l' := by
  induction s generalizing l with
  | nil => exact ⟨l, .nil l, h⟩
  | cons c s ih =>
    rw [List.cons_append] at h
    cases h with
    | taken k hk h =>
      obtain ⟨m, hs, ht⟩ := ih h
      exact ⟨m, .taken k hk hs, ht⟩
    | kept line hkeeps h =>
      obtain ⟨m, hs, ht⟩ := ih h
      rw [List.append_assoc] at hkeeps
      exact ⟨m, .kept line hkeeps hs, ht⟩

theorem Copies.append {t : List Char} (h : Copies (t ++ after) l s m) (ht : Copies after m t l') :
    Copies after l (s ++ t) l' := by
  induction h with
  | nil => exact ht
  | taken k hk _ ih => exact .taken k hk (ih ht)
  | kept line hkeeps _ ih =>
    rw [← List.append_assoc] at hkeeps
    exact .kept line hkeeps (ih ht)

theorem Copies.proper (h : Copies after l s l') (hl : Proper l.frames) : Proper l'.frames := by
  induction h with
  | nil => exact hl
  | taken k hk _ ih => exact ih hl
  | kept line hkeeps _ ih => exact ih (hkeeps.grows.proper hl)

/-- The text that a line has gathered, apart from what it has taken along. -/
theorem Copies.text {b : List Char} (h : Copies after l s l')
    (hl : l.behind = ((s ++ after).take l.skip).reverse ++ b) :
    l'.behind = (after.take l'.skip).reverse ++ (s.reverse ++ b) := by
  induction h generalizing b with
  | nil => exact hl
  | @taken l l' c s k hk _ ih =>
    rw [List.reverse_cons, List.append_assoc, List.singleton_append]
    refine ih ?_
    rw [OpenLine.behind_passing, hl, hk]
    simp
  | @kept l l₁ l' c s line hkeeps _ ih =>
    rw [List.reverse_cons, List.append_assoc, List.singleton_append]
    refine ih ?_
    rw [hkeeps.text, hl, hkeeps.skip]
    simp

theorem Copies.text_of_skip (h : Copies after l s l') (h0 : l.skip = 0) (h0' : l'.skip = 0) :
    l'.behind = s.reverse ++ l.behind := by
  have htext := h.text (b := l.behind) (by rw [h0]; rfl)
  rwa [h0', List.take_zero, List.reverse_nil, List.nil_append] at htext

/-- A blank opens and closes nothing, and is no colon or semicolon. -/
theorem Grows.blank (h : Grows l line c next l₁) (hl : Proper l.frames)
    (hc : Text.isBlank c = true) :
    l₁.frames = l.frames ∧ l₁.colons = l.colons ∧ l₁.semicolons = l.semicolons := by
  -- none of the signs that open, close or part anything is a blank
  have hnot : ∀ d, Text.isBlank d = false → c ≠ d := by
    rintro d hd rfl
    exact absurd (hc.symm.trans hd) (by simp)
  cases h with
  | taken k hk => exact ⟨rfl, rfl, rfl⟩
  | string quote triple format opened _ _ _ hf h =>
    have hquote : Text.isBlank quote = false := by
      rcases hl.2 quote triple format opened (by simp [hf]) with rfl | rfl <;> decide
    cases h with
    | closed h => exact absurd h (hnot _ hquote)
    | closedTriple h => exact absurd h (hnot _ hquote)
    | field h => exact absurd h (hnot _ (by decide))
    | _ => exact ⟨rfl, rfl, rfl⟩
  | comment => exact ⟨rfl, rfl, rfl⟩
  | code _ _ _ _ h =>
    cases h with
    | broken =>
      unfold OpenLine.continueLine
      split_ifs <;> exact ⟨rfl, rfl, rfl⟩
    | opened h =>
      rcases h with h | h | h <;> exact absurd h (hnot _ (by decide))
    | closed _ h =>
      rcases h with h | h | h <;> exact absurd h (hnot _ (by decide))
    | quote h => rcases h with h | h <;> exact absurd h (hnot _ (by decide))
    | quoteTriple h => rcases h with h | h <;> exact absurd h (hnot _ (by decide))
    | colon h => exact absurd h (hnot _ (by decide))
    | semicolon h => exact absurd h (hnot _ (by decide))
    | _ => exact ⟨rfl, rfl, rfl⟩

theorem Copies.blank (h : Copies after l s l') (hl : Proper l.frames)
    (hs : Text.allBlank s = true) :
    l'.frames = l.frames ∧ l'.colons = l.colons ∧ l'.semicolons = l.semicolons := by
  induction h with
  | nil => exact ⟨rfl, rfl, rfl⟩
  | @taken l l' c s k hk _ ih =>
    rw [Text.allBlank_cons, Bool.and_eq_true] at hs
    exact ih hl hs.2
  | @kept l l₁ l' c s line hkeeps _ ih =>
    rw [Text.allBlank_cons, Bool.and_eq_true] at hs
    obtain ⟨hframes, hcolons, hsemicolons⟩ := hkeeps.grows.blank hl hs.1
    obtain ⟨hframes', hcolons', hsemicolons'⟩ := ih (hkeeps.grows.proper hl) hs.2
    exact ⟨hframes'.trans hframes, hcolons'.trans hcolons, hsemicolons'.trans hsemicolons⟩

/-! ## Logical lines of a source -/

/-- How the text of a logical line is read: all of it is kept, and the line ends behind some
blanks. -/
structure Course (t : LogicalLine) (blanks : List Char) (f : OpenLine) : Prop where
  copies : Copies blanks (.start t.line t.indent) t.text f
  blanks : Text.allBlank blanks = true
  frames : f.frames = []
  colons : f.colons = t.colons.reverse
  semicolons : f.semicolons = t.semicolons.reverse
  opens : ∀ c ∈ t.text.head?, Opens c
  solid : ∀ c ∈ t.text.getLast?, Text.isBlank c = false

/-- Whether a logical line is what its text says. -/
def Faithful (t : LogicalLine) : Prop := ∃ blanks f, Course t blanks f

theorem Completes.place (h : Completes line l r f) : f.line = l.line ∧ f.indent = l.indent := by
  induction h with
  | stop => exact ⟨rfl, rfl⟩
  | ends => exact ⟨rfl, rfl⟩
  | grows _ hgrow _ ih => exact ⟨ih.1.trans hgrow.place.1, ih.2.trans hgrow.place.2⟩

theorem Completes.whole (h : Completes line l r f) : f.skip = 0 ∧ f.frames = [] := by
  induction h with
  | stop _ _ h0 hframes => exact ⟨h0, hframes⟩
  | ends _ _ hends => exact ⟨hends.1, hends.2.1⟩
  | grows _ _ _ ih => exact ih

/-- A line that was read to its end is what its text says. -/
theorem faithful_finish {column : Nat} (hc : Opens c)
    (h : Completes line (.start line column) (c :: s) f) : Faithful f.finish := by
  obtain ⟨v, m, hm, hcopies, hsees⟩ := copies_of_completes h (.start line column)
  have hfresh : ¬(OpenLine.start line column).Droppable := fun hd => hd.1 rfl
  have hstart : m = .start line column := hm.resolve_right fun h => hfresh h.1
  subst hstart
  obtain ⟨hskip, hframes⟩ := h.whole
  have hbehind : f.behind = v.reverse := by
    have htext := hcopies.text_of_skip rfl hskip
    rwa [show (OpenLine.start line column).behind = [] from rfl, List.append_nil] at htext
  have htrim : f.finish.text = Text.trimEnd v := by
    rw [OpenLine.finish, hbehind, List.reverse_reverse]
  -- the text is cut where its trailing blanks begin
  obtain ⟨b, hb, hv⟩ := Text.exists_trimEnd_append v
  rw [← hv] at hcopies
  obtain ⟨g, htext, hblank⟩ := hcopies.split
  obtain ⟨hframes', hcolons, hsemicolons⟩ := hblank.blank (htext.proper .nil) hb
  rw [List.append_nil] at htext
  have hplace : OpenLine.start f.finish.line f.finish.indent = .start line column := by
    have hplace := h.place
    rw [show f.finish.line = line from hplace.1, show f.finish.indent = column from hplace.2]
  refine ⟨b, g, ?_, hb, hframes'.symm.trans hframes, ?_, ?_, ?_, ?_⟩
  · rw [hplace, htrim]
    exact htext
  · rw [← hcolons]
    exact (List.reverse_reverse _).symm
  · rw [← hsemicolons]
    exact (List.reverse_reverse _).symm
  · intro d hd
    rw [htrim] at hd
    have hhead : v.head? = some c := by
      rcases hsees.ahead rfl rfl hfresh with h | ⟨h | h, -⟩
      · exact h
      · exact absurd (Option.some.inj h) hc.2.2.2.2
      · exact absurd (Option.some.inj h) hc.2.2.2.1
    have hhead' : v.head? = some d := by
      obtain ⟨w, hw⟩ := List.head?_eq_some_iff.mp hd
      rw [← hv, hw]
      rfl
    rw [hhead] at hhead'
    exact Option.some.inj hhead' ▸ hc
  · intro d hd
    rw [htrim] at hd
    exact Text.not_isBlank_of_getLast?_trimEnd hd

/-- A line in which the reader stands is read to its end, and the lines behind it from the next row
on. -/
theorem completes_of_lex {lines : List LogicalLine} (h : lex line (.inside l) s = .ok lines)
    (hskip : l.skip ≤ s.length) (hl : Proper l.frames) :
    ∃ f more, Completes line l s f ∧ lines = f.finish :: more ∧
      (more = [] ∨ ∃ row s', s = row ++ '\n' :: s' ∧
        lex (line + Text.breaks (row ++ ['\n'])) (.margin 0) s' = .ok more) := by
  induction s generalizing line l with
  | nil =>
    simp only [lex, Mode.finish] at h
    split at h
    · cases h
    · next hnone =>
      cases h
      have hclosed := eq_nil_of_proper hl (eq_field_of_closed hnone)
      exact ⟨l, [], .stop line l (Nat.le_zero.mp hskip) hclosed, rfl, .inl rfl⟩
  | cons c s ih =>
    obtain ⟨hends, more, rfl, hmore⟩ | ⟨hends, l₁, hgrow, hnext⟩ := lex_inside_cons h
    · obtain rfl := hends.2.2
      exact ⟨l, more, .ends line s hends, rfl, .inr ⟨[], s, rfl, hmore⟩⟩
    · obtain ⟨f, more, hcompletes, hlines, hrest⟩ :=
        ih hnext (gained_of_grows hgrow hskip).2 (hgrow.proper hl)
      refine ⟨f, more, .grows hends hgrow hcompletes, hlines, hrest.imp_right ?_⟩
      rintro ⟨row, s', rfl, hlex⟩
      rw [lineAfter_add_breaks] at hlex
      exact ⟨c :: row, s', rfl, hlex⟩

/-- A logical line is read from some place of a source on: its row begins there, but for an
indentation. -/
structure ReadFrom (line : Nat) (source : List Char) (t : LogicalLine)
    (above blanks rest : List Char) : Prop where
  whole : source = above ++ (blanks ++ rest)
  ended : ∀ c ∈ above.getLast?, c = '\n'
  indented : ∀ c ∈ blanks, isIndentation c = true
  number : t.line = line + Text.breaks above
  reading : ∃ column c s f, rest = c :: s ∧ Opens c ∧
    Completes t.line (.start t.line column) (c :: s) f ∧ t = f.finish

theorem ReadFrom.below {t : LogicalLine} {source p above blanks rest : List Char}
    (h : ReadFrom (line + Text.breaks p) source t above blanks rest)
    (hp : ∀ c ∈ (p ++ above).getLast?, c = '\n') :
    ReadFrom line (p ++ source) t (p ++ above) blanks rest where
  whole := by rw [h.whole, List.append_assoc]
  ended := hp
  indented := h.indented
  number := by
    have hcount : Text.breaks (p ++ above) = Text.breaks p + Text.breaks above :=
      List.count_append
    rw [h.number, hcount, Nat.add_assoc]
  reading := h.reading

/-- A character that is passed over stands above the row of a line or in its indentation. -/
theorem ReadFrom.idles {t : LogicalLine} {mode mode' : Mode} {above blanks rest : List Char}
    (hidles : Idles mode c mode') (h : ReadFrom (lineAfter line c) s t above blanks rest)
    (hremark : mode' = .remark → above ≠ []) :
    ∃ above blanks, ReadFrom line (c :: s) t above blanks rest ∧ (mode = .remark → above ≠ []) := by
  have hline : lineAfter line c = line + Text.breaks [c] := by
    rw [← lineAfter_add_breaks]
    rfl
  rw [hline] at h
  by_cases habove : above ≠ [] ∨ c = '\n'
  · -- the row of the line begins further down
    refine ⟨_, _, h.below ?_, fun _ => List.cons_ne_nil c above⟩
    cases above with
    | nil =>
      rintro _ ⟨⟩
      exact habove.resolve_left fun hne => hne rfl
    | cons d above =>
      intro e he
      exact h.ended e (by rwa [List.singleton_append, List.getLast?_cons_cons] at he)
  · rw [not_or, not_not] at habove
    obtain ⟨rfl, hc⟩ := habove
    cases hidles with
    | newline => exact absurd rfl hc
    | indentation _ _ hblank =>
      refine ⟨[], c :: blanks, ⟨?_, by simp, ?_, ?_, h.reading⟩, by simp⟩
      · rw [h.whole]
        rfl
      · exact List.forall_mem_cons.mpr ⟨hblank, h.indented⟩
      · rw [h.number, ← hline, lineAfter, if_neg hc]
    | comment => exact absurd rfl (hremark rfl)
    | remark => exact absurd rfl (hremark rfl)

theorem readFrom_of_lex {n : Nat} {mode : Mode} {lines : List LogicalLine} (hn : s.length < n)
    (h : lex line mode s = .ok lines) (hmode : mode.Idle) :
    ∀ t ∈ lines, ∃ above blanks rest, ReadFrom line s t above blanks rest ∧
      (mode = .remark → above ≠ []) := by
  -- on the length of the source, since a logical line takes more than one character of it
  induction n generalizing line mode s lines with
  | zero => omega
  | succ n ih =>
    cases s with
    | nil =>
      cases mode with
      | inside => exact hmode.elim
      | _ =>
        cases h
        exact fun t ht => absurd ht (by simp)
    | cons c s =>
      rw [List.length_cons] at hn
      by_cases hopens : ∃ column, mode = .margin column ∧ Opens c
      · obtain ⟨column, rfl, hc⟩ := hopens
        rw [lex_opens line column hc] at h
        obtain ⟨f, more, hcompletes, rfl, hrest⟩ := completes_of_lex h (Nat.zero_le _) .nil
        intro t ht
        rcases List.mem_cons.mp ht with rfl | ht
        · have hline : f.finish.line = line := hcompletes.place.1
          refine ⟨[], [], c :: s, ⟨rfl, by simp, by simp, hline, column, c, s, f, rfl, hc, ?_, rfl⟩,
            by simp⟩
          rwa [hline]
        · rcases hrest with rfl | ⟨row, s', hs, hlex⟩
          · cases ht
          · have hlen := congrArg List.length hs
            rw [List.length_append, List.length_cons, List.length_cons] at hlen
            obtain ⟨above, blanks, rest, hread, -⟩ := ih (by omega) hlex trivial t ht
            refine ⟨row ++ ['\n'] ++ above, blanks, rest, ?_, by simp⟩
            rw [hs, ← List.singleton_append, ← List.append_assoc]
            refine hread.below ?_
            cases above with
            | nil =>
              rw [List.append_nil, List.getLast?_concat]
              rintro _ ⟨⟩
              rfl
            | cons d above =>
              intro e he
              exact hread.ended e (by rwa [List.getLast?_append_cons] at he)
      · obtain ⟨mode', hidles, hstep⟩ := step_idle c hmode fun column hm hc =>
          hopens ⟨column, hm, hc⟩
        rw [lex_passes (hstep line s)] at h
        intro t ht
        obtain ⟨above, blanks, rest, hread, hremark⟩ := ih (by omega) h hidles.idle t ht
        obtain ⟨above', blanks', hread', hremark'⟩ := hread.idles hidles hremark
        exact ⟨above', blanks', rest, hread', hremark'⟩

/-- Every logical line of a source is read from some place of it on. -/
theorem readFrom_of_mem_tokenize {source : List Char} {lines : List LogicalLine}
    (h : tokenize source = .ok lines) :
    ∀ t ∈ lines, ∃ above blanks rest, ReadFrom 1 (Text.unifyBreaks source) t above blanks rest := by
  intro t ht
  obtain ⟨above, blanks, rest, hread, -⟩ :=
    readFrom_of_lex (Nat.lt_succ_self _) h trivial t ht
  exact ⟨above, blanks, rest, hread⟩

/-- Every logical line of a source is what its text says. -/
theorem faithful_of_mem_tokenize {source : List Char} {lines : List LogicalLine}
    (h : tokenize source = .ok lines) : ∀ t ∈ lines, Faithful t := by
  intro t ht
  obtain ⟨above, blanks, rest, hread⟩ := readFrom_of_mem_tokenize h t ht
  obtain ⟨column, c, s, f, -, hc, hcompletes, rfl⟩ := hread.reading
  exact faithful_finish hc hcompletes

end StepTrace.Python

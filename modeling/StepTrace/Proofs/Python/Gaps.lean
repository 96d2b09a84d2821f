import StepTrace.Proofs.Python.Passages
import StepTrace.Proofs.Python.Provenance

/-!
# Blank lines in the texts of logical lines

A text has a gap where nothing but blanks stands between two of its line feeds. The reader drops
blank continuation lines, so a gap comes into the text of a logical line only where a string goes on
over the line feed that ends a blank line (`Lexes.gapless`). That does not happen in a source in
which no string goes on over a line feed (`gapless_of_quiet`), and not in a source without gaps
either (`gapless_of_gapless`): comments that are left out make no line of a string blank.
-/

set_option autoImplicit false

namespace StepTrace.Python

/-! ## Texts without gaps -/

/-- Whether no line between two line feeds of a text is blank. -/
def Gapless (s : List Char) : Prop :=
  ∀ b, Text.allBlank b = true → ¬('\n' :: (b ++ ['\n'])) <:+: s

/-- Whether nothing but blanks stands before the first line feed of a text. -/
def OpensBlank (s : List Char) : Prop := ∃ b, Text.allBlank b = true ∧ b ++ ['\n'] <+: s

variable {s t : List Char} {c : Char}

theorem Gapless.of_infix (h : Gapless s) (ht : t <:+: s) : Gapless t :=
  fun b hb hin => h b hb (hin.trans ht)

theorem Gapless.reverse (h : Gapless s) : Gapless s.reverse := by
  intro b hb hin
  have hback := List.reverse_infix.mpr hin
  rw [List.reverse_reverse] at hback
  refine h b.reverse (by rwa [Text.allBlank_reverse]) ?_
  simpa using hback

theorem gapless_of_not_mem (h : '\n' ∉ s) : Gapless s :=
  fun _ _ hin => h (hin.subset List.mem_cons_self)

theorem Gapless.cons (h : Gapless s) (hc : c ≠ '\n') : Gapless (c :: s) := by
  intro b hb hin
  rcases List.infix_cons_iff.mp hin with hprefix | hin
  · exact hc (List.cons_prefix_cons.mp hprefix).1.symm
  · exact h b hb hin

theorem Gapless.cons_newline (h : Gapless s) (hs : ¬OpensBlank s) : Gapless ('\n' :: s) := by
  intro b hb hin
  rcases List.infix_cons_iff.mp hin with hprefix | hin
  · exact hs ⟨b, hb, (List.cons_prefix_cons.mp hprefix).2⟩
  · exact h b hb hin

theorem Gapless.not_opensBlank (h : Gapless ('\n' :: s)) : ¬OpensBlank s := by
  rintro ⟨b, hb, hprefix⟩
  exact h b hb (List.cons_prefix_cons.mpr ⟨rfl, hprefix⟩).isInfix

theorem opensBlank_cons (hc : Text.isBlank c = true) (h : OpensBlank s) : OpensBlank (c :: s) := by
  obtain ⟨b, hb, hprefix⟩ := h
  refine ⟨c :: b, ?_, List.cons_prefix_cons.mpr ⟨rfl, hprefix⟩⟩
  rwa [Text.allBlank_cons, hc, Bool.true_and]

theorem opensBlank_newline (s : List Char) : OpensBlank ('\n' :: s) :=
  ⟨[], rfl, List.prefix_append ['\n'] s⟩

/-- Before its first line feed a text has the line that it begins with. -/
theorem allBlank_of_opensBlank_append (hs : '\n' ∉ s) (h : OpensBlank (s ++ t)) :
    Text.allBlank s = true ∧ t ≠ [] := by
  obtain ⟨b, hb, r, hr⟩ := h
  rw [List.append_assoc] at hr
  rcases List.append_eq_append_iff.mp hr with ⟨x, hx, hrest⟩ | ⟨x, hx, hrest⟩
  · cases x with
    | nil =>
      rw [List.append_nil] at hx
      exact ⟨hx ▸ hb, by rintro rfl; cases hrest⟩
    | cons d x =>
      rw [List.singleton_append, List.cons_append, List.cons.injEq] at hrest
      rw [hx, ← hrest.1] at hs
      exact absurd (by simp) hs
  · refine ⟨?_, by rw [hrest]; simp⟩
    rw [hx, Text.allBlank_append, Bool.and_eq_true] at hb
    exact hb.1

theorem opensBlank_of_unifyBreaks (h : OpensBlank (Text.unifyBreaks s)) : OpensBlank s := by
  induction s with
  | nil => exact h
  | cons c s ih =>
    rw [Text.unifyBreaks] at h
    split at h
    · next hreturn => exact opensBlank_cons (by rw [hreturn.1]; decide) (ih h)
    · obtain ⟨b, hb, hprefix⟩ := h
      cases b with
      | nil =>
        rw [List.nil_append, List.cons_prefix_cons] at hprefix
        rw [← hprefix.1]
        exact opensBlank_newline s
      | cons d b =>
        rw [Text.allBlank_cons, Bool.and_eq_true] at hb
        rw [List.cons_append, List.cons_prefix_cons] at hprefix
        obtain ⟨rfl, hrest⟩ := hprefix
        exact opensBlank_cons hb.1 (ih ⟨b, hb.2, hrest⟩)

/-- A carriage return is blank, so unifying line breaks makes no gaps. -/
theorem Gapless.unifyBreaks (h : Gapless s) : Gapless (Text.unifyBreaks s) := by
  induction s with
  | nil => exact h
  | cons c s ih =>
    have hrest := ih (h.of_infix (List.suffix_cons c s).isInfix)
    rw [Text.unifyBreaks]
    split
    · exact hrest
    · by_cases hc : c = '\n'
      · subst hc
        exact hrest.cons_newline fun hblank => h.not_opensBlank (opensBlank_of_unifyBreaks hblank)
      · exact hrest.cons hc

/-! ## Gaps on the way -/

/-- Whether a string goes on over a line feed. -/
def Passage.spans (p : Passage) : Bool :=
  match p.before with
  | .inside l => p.char == '\n' && !l.inCode
  | _ => false

/-- Whether a string goes on over a line feed that ends a blank line of the text. -/
def Passage.spansBlank (p : Passage) : Bool :=
  p.spans && match p.before with
  | .inside l => l.skip == 0 && !l.earlier.isEmpty && Text.allBlank l.current
  | _ => false

/-- Whether no string of a source goes on over a line feed. -/
def quiet (source : List Char) : Bool := (passagesOf source).all fun p => !p.spans

/-- A line whose text so far has no gaps. -/
structure OpenLine.Tight (l : OpenLine) : Prop where
  gapless : Gapless l.behind
  parted : l.Parted
  unbroken : '\n' ∉ l.current
  /-- The reader has passed a sign where it has left the string that the physical line began in. -/
  left : l.inString = true → l.inCode = true → Text.allBlank l.current = false

variable {l l₁ : OpenLine} {line : Nat} {next : List Char} {m : Mode} {lines : List LogicalLine}

namespace OpenLine.Tight

theorem start (line column : Nat) : (OpenLine.start line column).Tight :=
  ⟨gapless_of_not_mem (by simp [OpenLine.start, OpenLine.behind]),
    fun _ h => absurd h (by simp [OpenLine.start]), by simp [OpenLine.start], fun h => by cases h⟩

theorem push (h : l.Tight) (hc : c ≠ '\n') : (l.push c).Tight where
  gapless := h.gapless.cons hc
  parted := h.parted
  unbroken := by
    intro hmem
    rcases List.mem_cons.mp hmem with heq | hmem
    · exact hc heq.symm
    · exact h.unbroken hmem
  left := by
    intro hstring hcode
    rw [OpenLine.push, Text.allBlank_cons, h.left hstring hcode, Bool.and_false]

theorem breakLine (h : l.Tight) (inString : Bool)
    (hblank : l.earlier ≠ [] → Text.allBlank l.current = false)
    (hcode : inString = true → l.inCode = false) : (l.breakLine inString).Tight where
  gapless := h.gapless.cons_newline fun hopens => by
    obtain ⟨hcurrent, hearlier⟩ := allBlank_of_opensBlank_append h.unbroken hopens
    rw [hblank hearlier] at hcurrent
    cases hcurrent
  parted := l.parted_breakLine inString
  unbroken := by simp [OpenLine.breakLine]
  left := fun hstring hleft => absurd ((hcode hstring).symm.trans hleft) (by simp)

/-- What is open matters only for a line that began in a string. -/
theorem congr (h : l.Tight) (hcurrent : l₁.current = l.current) (hearlier : l₁.earlier = l.earlier)
    (hleft : l₁.inString = true → l₁.inCode = true → Text.allBlank l₁.current = false) :
    l₁.Tight := by
  refine ⟨?_, ?_, hcurrent ▸ h.unbroken, hleft⟩
  · rw [OpenLine.behind, hcurrent, hearlier]
    exact h.gapless
  · rw [OpenLine.Parted, hearlier]
    exact h.parted

end OpenLine.Tight

theorem allBlank_cons_of_sign (hc : Text.isBlank c = false) (s : List Char) :
    Text.allBlank (c :: s) = false := by
  rw [Text.allBlank_cons, hc, Bool.false_and]

/-- A character in a string makes no gap, but for a line feed behind a blank line. -/
theorem StringStep.tight {quote : Char} {triple format : Bool}
    (h : StringStep l quote triple format c next l₁) (hl : l.Tight) (hcode : l.inCode = false)
    (hquote : Text.isBlank quote = false)
    (hgap : c = '\n' → l.earlier ≠ [] → Text.allBlank l.current = false) : l₁.Tight := by
  -- what ends a string or opens a field in it is a sign, so the line is not blank then
  have hbackslash : Text.isBlank '\\' = false := by decide
  have hbrace : Text.isBlank '\x7b' = false := by decide
  have hsign : c = quote → ∀ s, Text.allBlank (c :: s) = false :=
    fun hc => allBlank_cons_of_sign (hc ▸ hquote)
  cases h with
  | loneEscape hc => exact hl.push (by rw [hc]; decide)
  | escapedBreak hc =>
    have hbroken := (hl.push (c := c) (by rw [hc]; decide)).breakLine true
      (fun _ => allBlank_cons_of_sign (hc ▸ hbackslash) _) fun _ => hcode
    exact hbroken.congr rfl rfl hbroken.left
  | escape e hc _ he =>
    have hpushed := (hl.push (c := c) (by rw [hc]; decide)).push he
    exact hpushed.congr rfl rfl hpushed.left
  | broken hc => exact hl.breakLine true (hgap hc) fun _ => hcode
  | closed hc _ hbreak => exact (hl.push hbreak).congr rfl rfl fun _ _ => hsign hc _
  | closedTriple hc _ hbreak =>
    exact (((hl.push hbreak).push hbreak).push hbreak).congr rfl rfl fun _ _ => hsign hc _
  | inner _ _ hbreak => exact hl.push hbreak
  | doubled hc =>
    have hbreak : c ≠ '\n' := by rw [hc]; decide
    exact ((hl.push hbreak).push hbreak).congr rfl rfl fun _ _ =>
      allBlank_cons_of_sign (hc ▸ hbrace) _
  | field hc =>
    exact (hl.push (by rw [hc]; decide)).congr rfl rfl fun _ _ =>
      allBlank_cons_of_sign (hc ▸ hbrace) _
  | plain _ hbreak => exact hl.push hbreak

/-- A character in code makes no gap: a blank continuation line is dropped. -/
theorem CodeStep.tight (h : CodeStep l line c next l₁) (hl : l.Tight) (hcode : l.inCode = true) :
    l₁.Tight := by
  have hbackslash : Text.isBlank '\\' = false := by decide
  -- a sign that is no line feed may open and close what it will
  have hsign : ∀ f : OpenLine, Text.isBlank c = false → f.current = c :: l.current →
      f.earlier = l.earlier → f.Tight := by
    intro f hc hcurrent hearlier
    refine (hl.push (c := c) ?_).congr hcurrent hearlier fun _ _ => ?_
    · rintro rfl
      cases hc
    · rw [hcurrent]
      exact allBlank_cons_of_sign hc _
  cases h with
  | remark => exact hl.congr rfl rfl hl.left
  | joined hc =>
    have hbroken := (hl.push (c := c) (by rw [hc]; decide)).breakLine false
      (fun _ => allBlank_cons_of_sign (hc ▸ hbackslash) _) fun h => by cases h
    exact hbroken.congr rfl rfl hbroken.left
  | broken =>
    rw [OpenLine.continueLine]
    split
    · refine ⟨hl.gapless.of_infix (List.suffix_append l.current l.earlier).isInfix, hl.parted,
        by simp, fun h => by cases h⟩
    · next hkept =>
      refine hl.breakLine false (fun hearlier => ?_) fun h => by cases h
      cases hstring : l.inString with
      | true => exact hl.left hstring hcode
      | false => exact Bool.eq_false_iff.mpr fun hblank => hkept ⟨hearlier, hstring, hblank⟩
  | opened hc => exact hsign _ (by rcases hc with rfl | rfl | rfl <;> decide) rfl rfl
  | closed _ hc => exact hsign _ (by rcases hc with rfl | rfl | rfl <;> decide) rfl rfl
  | quote hc => exact hsign _ (by rcases hc with rfl | rfl <;> decide) rfl rfl
  | quoteTriple hc =>
    have hblank : Text.isBlank c = false := by rcases hc with rfl | rfl <;> decide
    have hbreak : c ≠ '\n' := by rcases hc with rfl | rfl <;> decide
    exact (((hl.push hbreak).push hbreak).push hbreak).congr rfl rfl fun _ _ =>
      allBlank_cons_of_sign hblank _
  | colon hc => exact hsign _ (by rw [hc]; decide) rfl rfl
  | semicolon hc => exact hsign _ (by rw [hc]; decide) rfl rfl
  | plain _ _ hbreak => exact hl.push hbreak

theorem Grows.tight (h : Grows l line c next l₁) (hl : l.Tight) (hproper : Proper l.frames)
    (hgap : Passage.spansBlank ⟨.inside l, c, .inside l₁⟩ = false) : l₁.Tight := by
  cases h with
  | taken => exact hl.congr rfl rfl hl.left
  | string quote triple format opened outer _ h0 hf h =>
    have hcode := inCode_of_string hf
    refine h.tight hl hcode (hproper.isBlank_quote hf) fun hc hearlier => ?_
    rw [Passage.spansBlank, Passage.spans] at hgap
    simpa [hc, hcode, h0, hearlier] using hgap
  | comment => exact hl
  | code _ _ hcode _ h => exact h.tight (hl.congr rfl rfl hl.left) hcode

/-- What holds of the reader where it has made no gap. -/
def Mode.Tight (m : Mode) : Prop :=
  match m with
  | .inside l => l.Sound ∧ l.Tight
  | _ => True

theorem Mode.Idle.tight (h : m.Idle) : m.Tight := by
  cases m with
  | inside => exact h.elim
  | _ => trivial

theorem OpenLine.Tight.finish (h : l.Tight) : Gapless l.finish.text :=
  h.gapless.reverse.of_infix (Text.trimEnd_isPrefix l.behind.reverse).isInfix

theorem spansBlank_of_idle (h : m.Idle) (c : Char) (m' : Mode) :
    Passage.spansBlank ⟨m, c, m'⟩ = false := by
  cases m with
  | inside => exact h.elim
  | _ => rfl

theorem spansBlank_of_ends (h : l.Ends c) (m' : Mode) :
    Passage.spansBlank ⟨.inside l, c, m'⟩ = false := by
  have hcode : l.inCode = true := by
    rw [OpenLine.inCode, h.2.1]
    rfl
  rw [Passage.spansBlank, Passage.spans]
  simp [hcode]

/-- Where a logical line begins, no string goes on. -/
theorem spansBlank_of_opens {column : Nat} (hc : Opens c)
    (h : ∀ p ∈ passages line (.margin column) (c :: next), p.spansBlank = false) :
    ∀ p ∈ passages line (.inside (.start line column)) (c :: next), p.spansBlank = false := by
  rw [passages_opens hc] at h
  rw [passages] at h ⊢
  split at h
  · exact List.forall_mem_nil _
  · refine List.forall_mem_cons.mpr ⟨?_, (List.forall_mem_cons.mp h).2⟩
    simp [Passage.spansBlank, Passage.spans, OpenLine.start]

/-- The texts of the lines have no gaps if no string goes on behind a blank line. -/
theorem Lexes.gapless (h : Lexes line m s lines) (hm : m.Tight)
    (hp : ∀ p ∈ passages line m s, p.spansBlank = false) : ∀ t ∈ lines, Gapless t.text := by
  induction h with
  | stop => exact List.forall_mem_nil _
  | last => exact List.forall_mem_singleton.mpr hm.2.finish
  | idle _ hidle hstep _ ih =>
    rw [passages_cons hstep] at hp
    exact ih hidle.tight (List.forall_mem_cons.mp hp).2
  | opens hc _ ih => exact ih ⟨.start _ _, .start _ _⟩ (spansBlank_of_opens hc hp)
  | ends hends _ ih =>
    rw [passages_ends hends] at hp
    exact List.forall_mem_cons.mpr ⟨hm.2.finish, ih trivial (List.forall_mem_cons.mp hp).2⟩
  | grows hgoes hgrow hrest ih =>
    rw [passages_grows hgoes hgrow] at hp
    obtain ⟨hgap, hp⟩ := List.forall_mem_cons.mp hp
    obtain ⟨-, hsound, -⟩ := hrest.fate hgoes hgrow hm.1
    exact ih ⟨hsound, hgrow.tight hm.2 hm.1.proper hgap⟩ hp

/-- Where no string goes on over a line feed, the texts have no gaps. -/
theorem gapless_of_quiet {source : List Char} (h : tokenize source = .ok lines)
    (hquiet : quiet source = true) : ∀ t ∈ lines, Gapless t.text := by
  refine (lexes_of_tokenize h).gapless trivial fun p hp => ?_
  have hspans : p.spans = false := by simpa using List.all_eq_true.mp hquiet p hp
  rw [Passage.spansBlank, hspans, Bool.false_and]

/-! ## Sources without gaps -/

/-- In a string that the physical line began in, only blanks have been passed, and more than blanks
stand before the next line feed. -/
def OpenLine.Awaits (l : OpenLine) (s : List Char) : Prop :=
  l.inString = true → l.inCode = false → Text.allBlank l.current = true →
    ¬OpensBlank (s.drop l.skip)

theorem OpenLine.Awaits.of_sign (h : Text.allBlank l.current = false) (s : List Char) :
    l.Awaits s :=
  fun _ _ hblank => absurd (h.symm.trans hblank) (by simp)

theorem OpenLine.Awaits.of_inCode (h : l.inCode = true) (s : List Char) : l.Awaits s :=
  fun _ hcode => absurd (h.symm.trans hcode) (by simp)

theorem OpenLine.Awaits.of_outside (h : l.inString = false) (s : List Char) : l.Awaits s :=
  fun hstring => absurd (h.symm.trans hstring) (by simp)

theorem StringStep.awaits {quote : Char} {triple format : Bool}
    (h : StringStep l quote triple format c next l₁) (hl : l.Awaits (c :: next)) (h0 : l.skip = 0)
    (hcode : l.inCode = false) (hquote : Text.isBlank quote = false) (hs : Gapless (c :: next)) :
    l₁.Awaits next := by
  have hbackslash : Text.isBlank '\\' = false := by decide
  have hbrace : Text.isBlank '\x7b' = false := by decide
  cases h with
  | loneEscape hc => exact .of_sign (allBlank_cons_of_sign (hc ▸ hbackslash) _) _
  | escapedBreak _ hnext =>
    -- what is taken along is the line feed
    obtain ⟨rest, rfl⟩ := List.head?_eq_some_iff.mp hnext
    exact fun _ _ _ => (hs.of_infix (List.suffix_cons c _).isInfix).not_opensBlank
  | escape e hc =>
    have hsign : Text.allBlank (c :: l.current) = false :=
      allBlank_cons_of_sign (hc ▸ hbackslash) l.current
    have hboth : Text.allBlank (e :: c :: l.current) = false := by
      rw [Text.allBlank_cons, hsign, Bool.and_false]
    exact .of_sign hboth _
  | broken hc =>
    subst hc
    intro _ _ _
    rw [OpenLine.skip_breakLine, h0]
    exact hs.not_opensBlank
  | closed hc => exact .of_sign (allBlank_cons_of_sign (hc ▸ hquote) _) _
  | closedTriple hc => exact .of_sign (allBlank_cons_of_sign (hc ▸ hquote) _) _
  | inner hc => exact .of_sign (allBlank_cons_of_sign (hc ▸ hquote) _) _
  | doubled hc => exact .of_sign (allBlank_cons_of_sign (hc ▸ hbrace) _) _
  | field hc => exact .of_sign (allBlank_cons_of_sign (hc ▸ hbrace) _) _
  | plain =>
    intro hstring _ hblank hopens
    have hall : Text.isBlank c = true ∧ Text.allBlank l.current = true := by
      rwa [OpenLine.push, Text.allBlank_cons, Bool.and_eq_true] at hblank
    rw [OpenLine.skip_push, h0, List.drop_zero] at hopens
    refine hl hstring hcode hall.2 ?_
    rw [h0, List.drop_zero]
    exact opensBlank_cons hall.1 hopens

theorem CodeStep.awaits (h : CodeStep l line c next l₁) (hcode : l.inCode = true) :
    l₁.Awaits next := by
  cases h with
  | remark => exact .of_inCode hcode _
  | joined => exact .of_outside rfl _
  | broken =>
    refine .of_outside ?_ _
    rw [OpenLine.continueLine]
    split <;> rfl
  | opened => exact .of_inCode rfl _
  | closed _ hc =>
    refine .of_sign (allBlank_cons_of_sign ?_ _) _
    rcases hc with rfl | rfl | rfl <;> decide
  | quote hc => exact .of_sign (allBlank_cons_of_sign (by rcases hc with rfl | rfl <;> decide) _) _
  | quoteTriple hc =>
    exact .of_sign (allBlank_cons_of_sign (by rcases hc with rfl | rfl <;> decide) _) _
  | colon => exact .of_inCode (l := l.noteColon.push c) hcode _
  | semicolon => exact .of_inCode (l := l.noteSemicolon.push c) hcode _
  | plain => exact .of_inCode (l := l.push c) hcode _

theorem Grows.awaits (h : Grows l line c next l₁) (hl : l.Awaits (c :: next))
    (hproper : Proper l.frames) (hs : Gapless (c :: next)) : l₁.Awaits next := by
  cases h with
  | taken k hk =>
    intro hstring hcode hblank
    have hawaits := hl hstring hcode hblank
    rwa [hk] at hawaits
  | string quote triple format opened outer _ h0 hf h =>
    exact h.awaits hl h0 (inCode_of_string hf) (hproper.isBlank_quote hf) hs
  | comment _ hcode => exact .of_inCode hcode _
  | code _ _ hcode _ h => exact h.awaits hcode

/-- What holds of the reader in a source without gaps. -/
def Mode.Awaits (m : Mode) (s : List Char) : Prop :=
  match m with
  | .inside l => l.Sound ∧ l.Awaits s
  | _ => True

theorem Mode.Idle.awaits (h : m.Idle) (s : List Char) : m.Awaits s := by
  cases m with
  | inside => exact h.elim
  | _ => trivial

/-- In a source without gaps a string goes on behind no blank line. -/
theorem OpenLine.Awaits.spansBlank (h : l.Awaits (c :: next)) (hl : l.Sound) (m' : Mode) :
    Passage.spansBlank ⟨.inside l, c, m'⟩ = false := by
  refine Bool.eq_false_iff.mpr fun hspans => ?_
  simp only [Passage.spansBlank, Passage.spans, Bool.and_eq_true, beq_iff_eq, Bool.not_eq_true',
    List.isEmpty_eq_false_iff] at hspans
  obtain ⟨⟨rfl, hcode⟩, ⟨h0, hearlier⟩, hblank⟩ := hspans
  have hstring : l.inString = true := by
    by_contra hnot
    exact hl.solid hcode ⟨hearlier, Bool.not_eq_true _ |>.mp hnot, hblank⟩
  have hopens := h hstring hcode hblank
  rw [h0, List.drop_zero] at hopens
  exact hopens (opensBlank_newline next)

theorem Lexes.spansBlank (h : Lexes line m s lines) (hm : m.Awaits s) (hs : Gapless s) :
    ∀ p ∈ passages line m s, p.spansBlank = false := by
  induction h with
  | stop => exact List.forall_mem_nil _
  | last => exact List.forall_mem_nil _
  | @idle line m m' c next lines hidle hidle' hstep _ ih =>
    rw [passages_cons hstep]
    have hrest := ih (hidle'.awaits next) (hs.of_infix (List.suffix_cons c next).isInfix)
    exact List.forall_mem_cons.mpr ⟨spansBlank_of_idle hidle c m', hrest⟩
  | @opens line column c next lines hc _ ih =>
    -- the character that opens the line is read again as its first, from within the line
    have hrest := ih ⟨.start line column, .of_outside rfl _⟩ hs
    rw [passages_opens hc]
    cases hps : passages line (.inside (.start line column)) (c :: next) with
    | nil => exact fun p hp => absurd hp (by simp)
    | cons q qs =>
      rw [hps] at hrest
      exact List.forall_mem_cons.mpr ⟨rfl, (List.forall_mem_cons.mp hrest).2⟩
  | @ends line l c next lines hends _ ih =>
    rw [passages_ends hends]
    have hrest := ih trivial (hs.of_infix (List.suffix_cons c next).isInfix)
    exact List.forall_mem_cons.mpr ⟨spansBlank_of_ends hends _, hrest⟩
  | @grows line l l₁ c next lines hgoes hgrow hlexes ih =>
    obtain ⟨-, hsound, -⟩ := hlexes.fate hgoes hgrow hm.1
    have hrest := ih ⟨hsound, hgrow.awaits hm.2 hm.1.proper hs⟩
      (hs.of_infix (List.suffix_cons c next).isInfix)
    rw [passages_grows hgoes hgrow]
    exact List.forall_mem_cons.mpr ⟨hm.2.spansBlank hm.1 _, hrest⟩

/-- Without gaps in the source there are none in the texts. -/
theorem gapless_of_gapless {source : List Char} (h : tokenize source = .ok lines)
    (hs : Gapless source) : ∀ t ∈ lines, Gapless t.text := by
  have hlexes := lexes_of_tokenize h
  exact hlexes.gapless trivial (hlexes.spansBlank trivial hs.unifyBreaks)

end StepTrace.Python

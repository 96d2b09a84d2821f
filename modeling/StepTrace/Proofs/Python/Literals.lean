import Mathlib.Data.List.Forall2
import StepTrace.Proofs.Python.Passages
import StepTrace.Proofs.Python.Retaining

/-!
# String literals in the texts of logical lines

`literals` are the outermost string literals of a source: what the reader passes from an opening
quote until the string that it opens is closed. The texts of the logical lines carry them all, in
their order (`literals_carried`): each as what the reader does not leave out of it, up to blanks,
and without change exactly if nothing of it is left out. Nothing is left out of a literal without a
brace or on a single line. In the replacement field of a literal that spans lines the reader reads
code, though, and there it drops blank lines, and comments in brackets, as it does elsewhere
(`literals_blank_line_lost`).
-/

set_option autoImplicit false

namespace StepTrace.Python

variable {l l₁ : OpenLine} {line : Nat} {c : Char} {s next : List Char}

/-! ## Literals on the way -/

/-- Whether a string is open. -/
def OpenLine.quoted (l : OpenLine) : Bool := l.frames.any Frame.isString

/-- Whether a string is open where the reader stands. -/
def Mode.quoted : Mode → Bool
  | .inside l => l.quoted
  | _ => false

instance (l : OpenLine) : Decidable l.Droppable := by
  unfold OpenLine.Droppable
  infer_instance

/-- Whether a character inside a logical line is left out of its text: it belongs to a comment or
ends a blank continuation line. -/
def Passage.leftOut (p : Passage) : Bool :=
  match p.before, p.after with
  | .inside l, .inside l₁ =>
    l₁.comment || (p.char == '\n' && l.skip == 0 && decide l.Droppable)
  | _, _ => false

/-- A string literal of a source. -/
structure Literal where
  /-- All that is passed from the opening quote to the closing one. -/
  text : List Char
  /-- What is not left out of it. -/
  kept : List Char
  deriving DecidableEq, Repr

/-- A literal with one more character. -/
def Literal.extend (x : Literal) (p : Passage) : Literal :=
  ⟨x.text ++ [p.char], if p.leftOut then x.kept else x.kept ++ [p.char]⟩

/-- The outermost literals on the way, one of which may have begun before. A literal ends where no
string is open any more and all of its closing quotes are passed. -/
def literalsOn : Option Literal → List Passage → List Literal
  | _, [] => []
  | none, p :: ps => literalsOn (if p.after.quoted then some ⟨[p.char], [p.char]⟩ else none) ps
  | some x, p :: ps =>
    if p.after.quoted || p.after.ahead != 0 then literalsOn (some (x.extend p)) ps
    else x.extend p :: literalsOn none ps

/-- The outermost string literals of a source, its line breaks unified. -/
def literals (source : List Char) : List Literal := literalsOn none (passagesOf source)

/-! ## Texts that stand in another -/

/-- Texts stand in another, each behind the one before. -/
inductive StandIn : List (List Char) → List Char → Prop
  | nil (s : List Char) : StandIn [] s
  | cons (gap x : List Char) {xs : List (List Char)} {rest : List Char} : StandIn xs rest →
      StandIn (x :: xs) (gap ++ x ++ rest)

theorem StandIn.append {xs : List (List Char)} (h : StandIn xs s) (t : List Char) :
    StandIn xs (s ++ t) := by
  induction h with
  | nil s => exact .nil _
  | cons gap x _ ih =>
    rw [List.append_assoc]
    exact .cons gap x ih

theorem StandIn.concat {xs : List (List Char)} (h : StandIn xs s) (x : List Char) :
    StandIn (xs ++ [x]) (s ++ x) := by
  induction h with
  | nil s =>
    have hone := StandIn.cons s x (.nil [])
    rwa [List.append_nil] at hone
  | cons gap y _ ih =>
    rw [List.append_assoc]
    exact .cons gap y ih

/-- How a stretch of text stands for a literal: it is what is not left out of the literal, where
blanks may be missing, and the literal itself exactly if nothing is left out. -/
structure Literal.CarriedAs (x : Literal) (stretch : List Char) : Prop where
  sublist : stretch.Sublist x.kept
  signs : signs stretch = signs x.kept
  eq_iff : stretch = x.text ↔ x.kept = x.text
  /-- Something is left out only in a replacement field that spans lines. -/
  spans : x.kept ≠ x.text → '\x7b' ∈ x.text ∧ '\n' ∈ x.text

/-- Whether a text carries literals, each behind the one before. -/
def Carries (s : List Char) (xs : List Literal) : Prop :=
  ∃ stretches, List.Forall₂ Literal.CarriedAs xs stretches ∧ StandIn stretches s

variable {xs : List Literal} {x : Literal} {stretch : List Char}

theorem Carries.nil (s : List Char) : Carries s [] := ⟨[], .nil, .nil s⟩

theorem Carries.append (h : Carries s xs) (t : List Char) : Carries (s ++ t) xs := by
  obtain ⟨stretches, hcarried, hstand⟩ := h
  exact ⟨stretches, hcarried, hstand.append t⟩

theorem Carries.concat (h : Carries s xs) (hx : x.CarriedAs stretch) :
    Carries (s ++ stretch) (xs ++ [x]) := by
  obtain ⟨stretches, hcarried, hstand⟩ := h
  exact ⟨stretches ++ [stretch], List.rel_append hcarried (.cons hx .nil), hstand.concat stretch⟩

/-- Blanks that are taken off a text do not reach beyond a sign in it. -/
theorem exists_of_blanks_append {blanks left gap base : List Char}
    (h : blanks ++ left = gap ++ base) (hblanks : Text.allBlank blanks = true)
    (hbase : ∀ c ∈ base.head?, Text.isBlank c = false) :
    ∃ gap', gap = blanks ++ gap' ∧ left = gap' ++ base := by
  rcases List.append_eq_append_iff.mp h with ⟨gap', hgap, hleft⟩ | ⟨more, hmore, hcut⟩
  · exact ⟨gap', hgap, hleft⟩
  · cases more with
    | nil =>
      rw [List.append_nil] at hmore
      rw [List.nil_append] at hcut
      exact ⟨[], by rw [hmore, List.append_nil], by rw [hcut, List.nil_append]⟩
    | cons d more =>
      have hd : Text.isBlank d = false := hbase d (by rw [hcut]; rfl)
      have hblank := List.all_eq_true.mp hblanks d (by rw [hmore]; simp)
      rw [hd] at hblank
      cases hblank

/-! ## What a character does to the text -/

/-- A string is opened and closed by signs only, and so are the quotes taken along. -/
theorem Grows.quoted (h : Grows l line c next l₁) (hl : Proper l.frames) :
    l₁.quoted = l.quoted ∨
      Text.isBlank c = false ∧ ∀ d ∈ next.take l₁.skip, Text.isBlank d = false := by
  -- the quotes behind a first one are the same sign
  have hsame : Text.isBlank c = false → ∀ k, (∀ d ∈ next.take k, d = c) →
      Text.isBlank c = false ∧ ∀ d ∈ next.take k, Text.isBlank d = false :=
    fun hc k hk => ⟨hc, fun d hd => by rw [hk d hd, hc]⟩
  have hpair : next.take 2 = [c, c] → ∀ d ∈ next.take 2, d = c := by
    intro h d hd
    rw [h] at hd
    simpa using hd
  cases h with
  | taken => exact .inl rfl
  | string quote triple format opened outer _ h0 hf h =>
    have hquote : c = quote → Text.isBlank c = false := fun hc => hc ▸ hl.isBlank_quote hf
    cases h with
    | closed hc => exact .inr (hsame (hquote hc) _ (by simp [h0]))
    | closedTriple hc _ _ _ hnext => exact .inr (hsame (hquote hc) 2 (hpair hnext))
    | _ => exact .inl rfl
  | comment => exact .inl rfl
  | code _ h0 hcode _ h =>
    cases h with
    | broken => exact .inl (congrArg (List.any · Frame.isString) (frames_continueLine _))
    | closed frames hc hclose =>
      -- no string is closed by a bracket
      have htop : l.frames.tail.any Frame.isString = l.frames.any Frame.isString := by
        cases hf : l.frames with
        | nil => rfl
        | cons f outer =>
          rw [OpenLine.inCode, hf] at hcode
          rw [List.tail_cons, List.any_cons]
          cases f with
          | string => cases hcode
          | _ => rfl
      refine .inl ?_
      rw [OpenLine.quoted, OpenLine.frames_push, OpenLine.frames_reframed,
        frames_closeBracket hclose]
      exact htop
    | quote hc => exact .inr (hsame (by rcases hc with rfl | rfl <;> decide) _ (by simp [h0]))
    | quoteTriple hc hnext =>
      exact .inr (hsame (by rcases hc with rfl | rfl <;> decide) 2 (hpair hnext))
    | _ => exact .inl rfl

/-- A line has passed `text`, the last character first, and has taken along what it passes over
next. -/
structure Gathered (l : OpenLine) (s text : List Char) : Prop where
  behind : l.behind = (s.take l.skip).reverse ++ text
  ahead : l.skip ≤ s.length
  comment : l.skip ≠ 0 → l.comment = false

/-- A character is added to the text or left out; with a character that is left out blanks may
go. -/
theorem Gathered.grows {text : List Char} (ht : Gathered l (c :: next) text)
    (hgrow : Grows l line c next l₁) (hfate : Fate l line c next l₁) (hl : l.Sound)
    (hend : next = [] → l₁.inCode = true) :
    (Passage.leftOut ⟨.inside l, c, .inside l₁⟩ = false ∧ Gathered l₁ next (c :: text) ∧
        (l.comment = true → c = '\n')) ∨
      (Passage.leftOut ⟨.inside l, c, .inside l₁⟩ = true ∧ l.skip = 0 ∧ l.inCode = true ∧
        l₁.frames = l.frames ∧ (l₁.comment = true ∨ c = '\n') ∧
        ∃ blanks left, Text.allBlank blanks = true ∧ blanks ++ left = text ∧
          Gathered l₁ next left) := by
  have hahead := (gained_of_grows hgrow ht.ahead).2
  -- where nothing is taken along, the line has just what it has passed
  have hpassed : l.skip = 0 → l.behind = text := by
    intro h0
    rw [ht.behind, h0, List.take_zero, List.reverse_nil, List.nil_append]
  cases hfate with
  | taken k hk =>
    have hoff : l.comment = false := ht.comment (by simp [hk])
    refine .inl ⟨?_, ⟨?_, hahead, fun _ => hoff⟩, fun h => absurd (hoff.symm.trans h) (by simp)⟩
    · simp [Passage.leftOut, OpenLine.passing, hoff, hk]
    · rw [OpenLine.behind_passing, ht.behind, hk]
      simp
  | silent h0 hc hor hcode =>
    exact .inr ⟨rfl, h0, hcode, rfl, .inl rfl, [], l.behind, rfl, hpassed h0,
      ⟨by simp [h0], hahead, fun h => absurd h0 h⟩⟩
  | blank h0 hc hd hcode =>
    refine .inr ⟨?_, h0, hcode, rfl, .inr hc, l.current, l.earlier, hd.2.2, hpassed h0,
      ⟨?_, hahead, fun _ => rfl⟩⟩
    · simp [Passage.leftOut, hc, h0, hd]
    · simp [OpenLine.dropped, OpenLine.behind, h0]
  | lone _ hnil hcode => exact absurd ((hend hnil).symm.trans hcode) (by simp)
  | kept _ hremark hkeeps hlooks =>
    have h0 : l.skip = 0 := hkeeps.skip
    refine .inl ⟨?_, ⟨?_, hahead, fun _ => hkeeps.comment⟩, hremark⟩
    · -- a line feed that is kept ends no blank line
      have hsolid : c = '\n' → ¬l.Droppable := by
        rintro rfl
        cases hcode : l.inCode with
        | false => exact hl.solid hcode
        | true => exact (hkeeps.breaks (l := l.remarking false) hcode).2
      simp only [Passage.leftOut, hkeeps.comment, h0, Bool.false_or]
      by_cases hc : c = '\n'
      · simp [hsolid hc]
      · simp [hc]
    · rw [← hpassed h0]
      exact hkeeps.text

/-- In a string with no other around it, a character leaves it, enters a field, or stays in it. -/
theorem Grows.innermost (h : Grows l line c next l₁) (hcode : l.inCode = false)
    (houter : l.frames.tail.any Frame.isString = false) :
    l₁.quoted = false ∨ c = '\x7b' ∨
      l₁.inCode = false ∧ l₁.frames.tail.any Frame.isString = false := by
  cases h with
  | taken => exact .inr (.inr ⟨hcode, houter⟩)
  | string _ _ _ _ _ _ _ _ h =>
    cases h with
    | closed => exact .inl houter
    | closedTriple => exact .inl houter
    | field hc => exact .inr (.inl hc)
    | _ => exact .inr (.inr ⟨hcode, houter⟩)
  | comment _ h => exact absurd (h.symm.trans hcode) (by simp)
  | code _ _ h => exact absurd (h.symm.trans hcode) (by simp)

/-- A string that is opened in code outside strings has no other around it. -/
theorem Grows.outermost (h : Grows l line c next l₁) (hl : l.quoted = false)
    (hl₁ : l₁.quoted = true) : l₁.inCode = false ∧ l₁.frames.tail.any Frame.isString = false := by
  -- a string was opened, so the step has not left the constructs as they were or closed one
  have hsame : l₁.frames = l.frames → False := by
    intro hframes
    rw [OpenLine.quoted, hframes] at hl₁
    exact absurd (hl.symm.trans hl₁) (by simp)
  have hless : l₁.frames = l.frames.tail → False := by
    intro hframes
    rw [OpenLine.quoted, hframes] at hl₁
    obtain ⟨f, hf, hstring⟩ := List.any_eq_true.mp hl₁
    exact absurd hstring (List.any_eq_false.mp hl f (List.mem_of_mem_tail hf))
  cases h with
  | taken => exact (hsame rfl).elim
  | string _ _ _ _ _ _ _ hf h =>
    rw [OpenLine.quoted, hf] at hl
    cases hl
  | comment => exact (hsame rfl).elim
  | code _ _ _ _ h =>
    cases h with
    | broken => exact (hsame (frames_continueLine _)).elim
    | opened =>
      rw [OpenLine.quoted] at hl hl₁
      exact absurd (hl.symm.trans hl₁) (by simp)
    | closed frames _ hclose => exact (hless (frames_closeBracket hclose)).elim
    | quote => exact ⟨rfl, hl⟩
    | quoteTriple => exact ⟨rfl, hl⟩
    | _ => exact (hsame rfl).elim

/-! ## Literals of a line -/

/-- A text, the last character first, between literals that it carries: no more of it than blanks
may go before a literal is reached. -/
def Between (xs : List Literal) (text : List Char) : Prop :=
  ∃ gap base, text = gap ++ base ∧ Carries base.reverse xs ∧
    ∀ c ∈ base.head?, Text.isBlank c = false

/-- A text, the last character first, in a literal behind others that it carries. -/
structure InLiteral (xs : List Literal) (x : Literal) (text : List Char) : Prop where
  part : x.kept.Sublist x.text
  reached : ∃ quote body rest base, text = body.reverse ++ quote :: base ∧
    x.kept = quote :: rest ∧ body.Sublist rest ∧ signs body = signs rest ∧
    (quote :: body = x.text ↔ x.kept = x.text) ∧ Text.isBlank quote = false ∧
    Carries base.reverse xs

variable {text : List Char} {p : Passage}

theorem Between.carries (h : Between xs text) : Carries text.reverse xs := by
  obtain ⟨gap, base, rfl, hbase, -⟩ := h
  rw [List.reverse_append]
  exact hbase.append gap.reverse

theorem Between.add (h : Between xs text) (c : Char) : Between xs (c :: text) := by
  obtain ⟨gap, base, rfl, hrest⟩ := h
  exact ⟨c :: gap, base, rfl, hrest⟩

theorem Between.drop {blanks left : List Char} (h : Between xs text)
    (hblanks : Text.allBlank blanks = true) (hleft : blanks ++ left = text) : Between xs left := by
  obtain ⟨gap, base, rfl, hbase, hsign⟩ := h
  obtain ⟨gap', -, rfl⟩ := exists_of_blanks_append hleft hblanks hsign
  exact ⟨gap', base, rfl, hbase, hsign⟩

theorem Between.open (h : Between xs text) (hc : Text.isBlank c = false) :
    InLiteral xs ⟨[c], [c]⟩ (c :: text) :=
  ⟨.refl _, c, [], [], text, rfl, rfl, .refl _, rfl, .rfl, hc, h.carries⟩

theorem Literal.extend_kept (x : Literal) (hp : p.leftOut = false) :
    x.extend p = ⟨x.text ++ [p.char], x.kept ++ [p.char]⟩ := by
  rw [Literal.extend, hp]
  rfl

theorem Literal.extend_leftOut (x : Literal) (hp : p.leftOut = true) :
    x.extend p = ⟨x.text ++ [p.char], x.kept⟩ := by
  rw [Literal.extend, hp]
  rfl

theorem InLiteral.add (h : InLiteral xs x text) (hp : p.leftOut = false) :
    InLiteral xs (x.extend p) (p.char :: text) := by
  obtain ⟨hpart, quote, body, rest, base, rfl, hx, hsub, hsigns, heq, hquote, hbase⟩ := h
  rw [x.extend_kept hp]
  refine ⟨hpart.append_right _, quote, body ++ [p.char], rest ++ [p.char], base, by simp, ?_,
    hsub.append_right _, ?_, ?_, hquote, hbase⟩
  · rw [hx, List.cons_append]
  · rw [signs_append, signs_append, hsigns]
  · rw [← List.cons_append, List.append_left_inj, List.append_left_inj]
    exact heq

theorem InLiteral.drop {blanks left : List Char} (h : InLiteral xs x text) (hp : p.leftOut = true)
    (hblanks : Text.allBlank blanks = true) (hleft : blanks ++ left = text) :
    InLiteral xs (x.extend p) left := by
  obtain ⟨hpart, quote, body, rest, base, rfl, hx, hsub, hsigns, -, hquote, hbase⟩ := h
  obtain ⟨gap, hbody, rfl⟩ := exists_of_blanks_append hleft hblanks (by simpa using hquote)
  rw [x.extend_leftOut hp]
  have hbody : body = gap.reverse ++ blanks.reverse := by
    rw [← List.reverse_append, ← hbody, List.reverse_reverse]
  have hless : gap.reverse.Sublist rest := by
    rw [hbody] at hsub
    exact (List.sublist_append_left _ _).trans hsub
  have hsame : signs gap.reverse = signs rest := by
    have hnone : signs blanks.reverse = [] :=
      signs_of_allBlank (by rwa [Text.allBlank_reverse])
    rw [← hsigns, hbody, signs_append, hnone, List.append_nil]
  -- what is left out is missing
  have hshort : ∀ s : List Char, s.Sublist x.text → s ≠ x.text ++ [p.char] := by
    intro s hs heq
    have hlen := hs.length_le
    rw [heq, List.length_append, List.length_singleton] at hlen
    omega
  have hwithin : (quote :: gap.reverse).Sublist x.text := by
    rw [hx] at hpart
    exact (hless.cons_cons quote).trans hpart
  exact ⟨hpart.trans (List.sublist_append_left _ _), quote, gap.reverse, rest, base,
    by rw [List.reverse_reverse], hx, hless, hsame,
    iff_of_false (hshort _ hwithin) (hshort _ hpart), hquote, hbase⟩

theorem InLiteral.close (h : InLiteral xs x (c :: text)) (hc : Text.isBlank c = false)
    (hspans : x.kept ≠ x.text → '\x7b' ∈ x.text ∧ '\n' ∈ x.text) :
    Between (xs ++ [x]) (c :: text) := by
  obtain ⟨-, quote, body, rest, base, htext, hx, hsub, hsigns, heq, -, hbase⟩ := h
  refine ⟨[], c :: text, rfl, ?_, by simpa using hc⟩
  have hstretch : (c :: text).reverse = base.reverse ++ quote :: body := by
    rw [htext]
    simp
  rw [hstretch]
  refine hbase.concat ⟨?_, ?_, heq, hspans⟩
  · rw [hx]
    exact hsub.cons_cons quote
  · rw [hx, ← List.singleton_append, signs_append, hsigns, ← signs_append, List.singleton_append]

theorem Between.finish {blanks : List Char} (h : Between xs text)
    (hblanks : Text.allBlank blanks = true) (hs : s ++ blanks = text.reverse) : Carries s xs := by
  have hleft : blanks.reverse ++ s.reverse = text := by
    rw [← List.reverse_append, hs, List.reverse_reverse]
  have hrest := h.drop (by rwa [Text.allBlank_reverse]) hleft
  rw [← List.reverse_reverse s]
  exact hrest.carries

/-! ## The way through a line -/

/-- A literal that is being read. -/
structure Pending (l : OpenLine) (s : List Char) (x : Literal) : Prop where
  /-- Its string is open, or its closing quotes are passed. -/
  stays : l.quoted = true ∨ l.skip ≠ 0
  closing : l.quoted = false → ∀ d ∈ s.take l.skip, Text.isBlank d = false
  /-- The reader is in another construct within it only behind a brace. -/
  brace : l.quoted = true →
    (l.inCode = false ∧ l.frames.tail.any Frame.isString = false) ∨ '\x7b' ∈ x.text
  spans : x.kept ≠ x.text → '\x7b' ∈ x.text ∧ ('\n' ∈ x.text ∨ l.comment = true)

/-- How far the literals of a line have been read: it carries some, and it may be in one more. -/
inductive Progress (l : OpenLine) (s : List Char) (xs : List Literal) : Option Literal → Prop
  | between (text : List Char) : Gathered l s text → l.quoted = false → Between xs text →
      Progress l s xs none
  | within (text : List Char) (x : Literal) : Gathered l s text → Pending l s x →
      InLiteral xs x text → Progress l s xs (some x)

theorem mem_extend {d : Char} (h : d ∈ x.text) : d ∈ (x.extend p).text :=
  List.mem_append_left _ h

theorem char_mem_extend (x : Literal) (p : Passage) : p.char ∈ (x.extend p).text :=
  List.mem_append_right _ (List.mem_singleton_self _)

/-- A character that is left out in a literal is one of a field. -/
theorem Pending.drop (h : Pending l (c :: next) x) (h0 : l.skip = 0) (hcode : l.inCode = true)
    (hframes : l₁.frames = l.frames) (hleft : l₁.comment = true ∨ c = '\n') :
    l₁.quoted = true ∧ Pending l₁ next (x.extend ⟨.inside l, c, .inside l₁⟩) := by
  have hquoted : l.quoted = true := h.stays.resolve_right fun hne => hne h0
  have hquoted₁ : l₁.quoted = true := by rwa [OpenLine.quoted, hframes]
  have hbrace : '\x7b' ∈ x.text :=
    (h.brace hquoted).resolve_left fun h => absurd (hcode.symm.trans h.1) (by simp)
  refine ⟨hquoted₁, .inl hquoted₁, fun h => absurd (hquoted₁.symm.trans h) (by simp),
    fun _ => .inr (mem_extend hbrace), fun _ => ⟨mem_extend hbrace, ?_⟩⟩
  rcases hleft with hcomment | rfl
  · exact .inr hcomment
  · exact .inl (char_mem_extend _ _)

/-- What is asked of a literal when the last of it is passed. -/
theorem Pending.spans_extend (h : Pending l (c :: next) x) (hcomment : l.comment = true → c = '\n')
    (hleft : Passage.leftOut ⟨.inside l, c, .inside l₁⟩ = false)
    (hlost : (x.extend ⟨.inside l, c, .inside l₁⟩).kept ≠
      (x.extend ⟨.inside l, c, .inside l₁⟩).text) :
    '\x7b' ∈ (x.extend ⟨.inside l, c, .inside l₁⟩).text ∧
      '\n' ∈ (x.extend ⟨.inside l, c, .inside l₁⟩).text := by
  have hx : x.kept ≠ x.text := by
    intro heq
    rw [x.extend_kept hleft, heq] at hlost
    exact hlost rfl
  obtain ⟨hbrace, hbreak⟩ := h.spans hx
  refine ⟨mem_extend hbrace, ?_⟩
  rcases hbreak with hbreak | hon
  · exact mem_extend hbreak
  · obtain rfl := hcomment hon
    exact char_mem_extend _ _

/-- The last character of a literal, and what is passed over before it, are signs. -/
theorem Pending.signs (h : Pending l (c :: next) x) (hgrow : Grows l line c next l₁)
    (hl : Proper l.frames) (hquoted : l₁.quoted = false) :
    Text.isBlank c = false ∧ ∀ d ∈ next.take l₁.skip, Text.isBlank d = false := by
  rcases hgrow.quoted hl with heq | hsigns
  · have hclosing := h.closing (heq.symm.trans hquoted)
    have hskip : l.skip ≠ 0 := h.stays.resolve_left (by rw [← heq, hquoted]; simp)
    cases hgrow with
    | taken k hk =>
      rw [hk, List.take_succ_cons] at hclosing
      exact ⟨hclosing c (.head _), fun d hd => hclosing d (.tail _ hd)⟩
    | string _ _ _ _ _ _ h0 => exact absurd h0 hskip
    | comment h0 => exact absurd h0 hskip
    | code _ h0 => exact absurd h0 hskip
  · exact hsigns

theorem Pending.brace_grows (h : Pending l (c :: next) x) (hgrow : Grows l line c next l₁)
    (hquoted₁ : l₁.quoted = true) :
    (l₁.inCode = false ∧ l₁.frames.tail.any Frame.isString = false) ∨
      '\x7b' ∈ (x.extend ⟨.inside l, c, .inside l₁⟩).text := by
  have hquoted : l.quoted = true := by
    rcases h.stays with hquoted | hskip
    · exact hquoted
    · cases hgrow with
      | taken => exact hquoted₁
      | string _ _ _ _ _ _ h0 => exact absurd h0 hskip
      | comment h0 => exact absurd h0 hskip
      | code _ h0 => exact absurd h0 hskip
  rcases h.brace hquoted with ⟨hcode, houter⟩ | hbrace
  · rcases hgrow.innermost hcode houter with hclosed | rfl | hstays
    · exact absurd (hclosed.symm.trans hquoted₁) (by simp)
    · exact .inr (char_mem_extend _ _)
    · exact .inl hstays
  · exact .inr (mem_extend hbrace)

/-- A character takes the reader on through the literals of a line. -/
theorem Progress.grows {reading : Option Literal} (h : Progress l (c :: next) xs reading)
    (hgrow : Grows l line c next l₁) (hfate : Fate l line c next l₁) (hl : l.Sound)
    (hend : next = [] → l₁.inCode = true) :
    ∃ group reading', Progress l₁ next (xs ++ group) reading' ∧ ∀ ps,
      literalsOn reading (⟨.inside l, c, .inside l₁⟩ :: ps) = group ++ literalsOn reading' ps := by
  cases h with
  | between text ht hquoted hbetween =>
    refine ⟨[], if l₁.quoted then some ⟨[c], [c]⟩ else none, ?_, fun ps => rfl⟩
    rw [List.append_nil]
    cases hquoted₁ : l₁.quoted with
    | false =>
      rcases ht.grows hgrow hfate hl hend with ⟨-, ht₁, -⟩ | ⟨-, -, -, -, -, b, left, hb, hbl, ht₁⟩
      · exact .between (c :: text) ht₁ hquoted₁ (hbetween.add c)
      · exact .between left ht₁ hquoted₁ (hbetween.drop hb hbl)
    | true =>
      -- a literal begins
      have hsign : Text.isBlank c = false := by
        rcases hgrow.quoted hl.proper with heq | hsigns
        · rw [hquoted, hquoted₁] at heq
          cases heq
        · exact hsigns.1
      rcases ht.grows hgrow hfate hl hend with ⟨-, ht₁, -⟩ | ⟨-, -, -, hframes, -⟩
      · exact .within (c :: text) _ ht₁ ⟨.inl hquoted₁,
          fun h => absurd (hquoted₁.symm.trans h) (by simp),
          fun _ => .inl (hgrow.outermost hquoted hquoted₁), fun h => absurd rfl h⟩
          (hbetween.open hsign)
      · rw [OpenLine.quoted, hframes] at hquoted₁
        exact absurd (hquoted.symm.trans hquoted₁) (by simp)
  | within text x ht hpending hin =>
    rcases ht.grows hgrow hfate hl hend with
      ⟨hkept, ht₁, hcomment⟩ | ⟨hleft, h0, hcode, hframes, hor, b, left, hb, hbl, ht₁⟩
    · have hin₁ := hin.add hkept
      by_cases hgoes : l₁.quoted = true ∨ l₁.skip ≠ 0
      · refine ⟨[], some (x.extend ⟨.inside l, c, .inside l₁⟩), ?_, fun ps => ?_⟩
        · rw [List.append_nil]
          refine .within (c :: text) _ ht₁ ⟨hgoes, fun hquoted₁ => ?_, fun hquoted₁ => ?_,
            fun hlost => ?_⟩ hin₁
          · exact (hpending.signs hgrow hl.proper hquoted₁).2
          · exact hpending.brace_grows hgrow hquoted₁
          · have hspans := hpending.spans_extend hcomment hkept hlost
            exact ⟨hspans.1, .inl hspans.2⟩
        · rw [literalsOn, if_pos (by simpa [Mode.quoted, Mode.ahead] using hgoes)]
          rfl
      · -- the literal ends
        have hquoted₁ : l₁.quoted = false := by simpa using fun h => hgoes (.inl h)
        refine ⟨[x.extend ⟨.inside l, c, .inside l₁⟩], none, ?_, fun ps => ?_⟩
        · exact .between (c :: text) ht₁ hquoted₁
            (hin₁.close (hpending.signs hgrow hl.proper hquoted₁).1
              (hpending.spans_extend hcomment hkept))
        · rw [literalsOn, if_neg (by simpa [Mode.quoted, Mode.ahead] using hgoes)]
          rfl
    · obtain ⟨hquoted₁, hpending₁⟩ := hpending.drop h0 hcode hframes hor
      refine ⟨[], some (x.extend ⟨.inside l, c, .inside l₁⟩), ?_, fun ps => ?_⟩
      · rw [List.append_nil]
        exact .within left _ ht₁ hpending₁ (hin.drop hleft hb hbl)
      · rw [literalsOn, if_pos (by simp [Mode.quoted, hquoted₁])]
        rfl

/-! ## The way through a source -/

/-- What is known of the literals where the reader stands. -/
def Mode.Holds (m : Mode) (s : List Char) (xs : List Literal) (reading : Option Literal) : Prop :=
  match m with
  | .inside l => l.Sound ∧ Progress l s xs reading
  | _ => xs = [] ∧ reading = none

theorem Mode.Idle.holds {m : Mode} (h : m.Idle) (s : List Char) : m.Holds s [] none := by
  cases m with
  | inside => exact h.elim
  | _ => exact ⟨rfl, rfl⟩

theorem Mode.Idle.eq_of_holds {m : Mode} {reading : Option Literal} (h : m.Idle)
    (hm : m.Holds s xs reading) : xs = [] ∧ reading = none := by
  cases m with
  | inside => exact h.elim
  | _ => exact hm

theorem Progress.start (line column : Nat) (s : List Char) :
    Progress (.start line column) s [] none :=
  .between [] ⟨rfl, Nat.zero_le _, fun h => absurd rfl h⟩ rfl ⟨[], [], rfl, .nil _, by simp⟩

theorem Progress.ahead {reading : Option Literal} (h : Progress l s xs reading) :
    l.skip ≤ s.length := by
  cases h with
  | between _ ht => exact ht.ahead
  | within _ _ ht => exact ht.ahead

/-- Where no construct is open a line carries the literals that were read. -/
theorem Progress.finish {reading : Option Literal} (h : Progress l s xs reading) (h0 : l.skip = 0)
    (hframes : l.frames = []) : reading = none ∧ Carries l.finish.text xs := by
  have hquoted : l.quoted = false := by
    rw [OpenLine.quoted, hframes]
    rfl
  cases h with
  | between text ht _ hbetween =>
    refine ⟨rfl, ?_⟩
    obtain ⟨blanks, hblanks, htrim⟩ := Text.exists_trimEnd_append l.behind.reverse
    have hbehind : l.behind = text := by
      rw [ht.behind, h0, List.take_zero, List.reverse_nil, List.nil_append]
    rw [← hbehind] at hbetween
    exact hbetween.finish hblanks htrim
  | within text x ht hpending =>
    rcases hpending.stays with hopen | hskip
    · exact absurd (hquoted.symm.trans hopen) (by simp)
    · exact absurd h0 hskip

theorem literalsOn_modifyHead (m : Mode) (ps : List Passage) :
    literalsOn none (ps.modifyHead fun p => { p with before := m }) = literalsOn none ps := by
  cases ps <;> rfl

theorem Lexes.carries {m : Mode} {lines : List LogicalLine} {reading : Option Literal}
    (h : Lexes line m s lines) (hm : m.Holds s xs reading) :
    ∃ groups, groups.flatten = xs ++ literalsOn reading (passages line m s) ∧
      List.Forall₂ (fun t g => Carries t.text g) lines groups := by
  induction h generalizing xs reading with
  | stop line hidle =>
    obtain ⟨rfl, rfl⟩ := hidle.eq_of_holds hm
    exact ⟨[], rfl, .nil⟩
  | @last line l hclosed =>
    have hframes := eq_nil_of_proper hm.1.proper (eq_field_of_closed hclosed)
    obtain ⟨rfl, hcarries⟩ := hm.2.finish (Nat.le_zero.mp hm.2.ahead) hframes
    exact ⟨[xs], rfl, .cons hcarries .nil⟩
  | @idle line m m' c next lines hidle hidle' hstep _ ih =>
    obtain ⟨rfl, rfl⟩ := hidle.eq_of_holds hm
    obtain ⟨groups, hgroups, hlines⟩ := ih (hidle'.holds next)
    have hquoted : m'.quoted = false := by cases m' <;> first | rfl | exact hidle'.elim
    refine ⟨groups, ?_, hlines⟩
    rw [hgroups, passages_cons hstep, literalsOn, hquoted]
    rfl
  | opens hc _ ih =>
    obtain ⟨rfl, rfl⟩ := hm
    obtain ⟨groups, hgroups, hlines⟩ := ih ⟨.start _ _, .start _ _ _⟩
    refine ⟨groups, ?_, hlines⟩
    rw [hgroups, passages_opens hc, literalsOn_modifyHead]
  | @ends line l c next lines hends _ ih =>
    -- no literal is open at the end of a line, so the line carries all that were read on it
    obtain ⟨rfl, hcarries⟩ := hm.2.finish hends.1 hends.2.1
    obtain ⟨groups, hgroups, hlines⟩ := ih ⟨rfl, rfl⟩
    refine ⟨xs :: groups, ?_, .cons hcarries hlines⟩
    rw [List.flatten_cons, hgroups, passages_ends hends]
    rfl
  | @grows line l l₁ c next lines hgoes hgrow hrest ih =>
    obtain ⟨hfate, hsound, hend⟩ := hrest.fate hgoes hgrow hm.1
    obtain ⟨group, reading', hprogress, hon⟩ := hm.2.grows hgrow hfate hm.1 hend
    obtain ⟨groups, hgroups, hlines⟩ := ih ⟨hsound, hprogress⟩
    refine ⟨groups, ?_, hlines⟩
    rw [hgroups, passages_grows hgoes hgrow, hon, List.append_assoc]

/-- The texts of the logical lines carry the string literals of a source, each literal in one text
and all in their order. -/
theorem literals_carried {source : List Char} {lines : List LogicalLine}
    (h : tokenize source = .ok lines) :
    ∃ groups, groups.flatten = literals source ∧
      List.Forall₂ (fun t g => Carries t.text g) lines groups :=
  (lexes_of_tokenize h).carries ⟨rfl, rfl⟩

/-- A source with literals in brackets, over several lines and in a field, and with a literal that
something is left out of. -/
def quotedSource : List Char :=
  ("d(\x27# a\x27,\n\n  # b\n  \x22\x22\x22c\n\n# d\x22\x22\x22)\n" ++
    "f\x22\x22\x22\x7be:%H\n\n\x7d\x22\x22\x22 + f\x27\x7bg[\x22h\x22]:#>9\x7d\x27  # i\n").toList

theorem literals_carried_quotedSource : ∃ lines, tokenize quotedSource = .ok lines ∧
    ((literals quotedSource).map fun x => x.kept == x.text) = [true, true, false, true] ∧
    ∃ groups, groups.flatten = literals quotedSource ∧
      List.Forall₂ (fun t g => Carries t.text g) lines groups := by
  have hread : (tokenize quotedSource).isOk = true := by decide +kernel
  cases h : tokenize quotedSource with
  | error e =>
    rw [h] at hread
    cases hread
  | ok lines => exact ⟨lines, rfl, by decide +kernel, literals_carried h⟩

theorem StandIn.isInfix {xs : List (List Char)} (h : StandIn xs s) : ∀ x ∈ xs, x <:+: s := by
  induction h with
  | nil => exact fun x hx => absurd hx (by simp)
  | cons gap y _ ih =>
    intro x hx
    rcases List.mem_cons.mp hx with rfl | hx
    · exact ⟨gap, _, rfl⟩
    · exact (ih x hx).trans (List.suffix_append _ _).isInfix

/-- A blank line between the two halves of a time format is part of the string, but it is dropped:
it stands in a replacement field. -/
theorem literals_blank_line_lost :
    ¬∀ source lines, '\r' ∉ source → tokenize source = .ok lines →
      ∃ groups : List (List (List Char)), groups.flatten = (literals source).map Literal.text ∧
        List.Forall₂ (fun t g => StandIn g t.text) lines groups := by
  intro h
  have hread : tokenize "f\x22\x22\x22\x7bt:%H\n\n%M\x7d\x22\x22\x22".toList =
      .ok [⟨1, 0, "f\x22\x22\x22\x7bt:%H\n%M\x7d\x22\x22\x22".toList, [], []⟩] := by
    decide +kernel
  obtain ⟨groups, hgroups, hlines⟩ := h _ _ (by decide) hread
  have hliterals : (literals "f\x22\x22\x22\x7bt:%H\n\n%M\x7d\x22\x22\x22".toList).map
      Literal.text = ["\x22\x22\x22\x7bt:%H\n\n%M\x7d\x22\x22\x22".toList] := by
    decide +kernel
  cases hlines with
  | @cons _ g _ gs hg hgs =>
    cases hgs
    rw [hliterals, List.flatten_cons, List.flatten_nil, List.append_nil] at hgroups
    subst hgroups
    have hwithin := (Text.contains_iff_infix _ _).mpr (hg.isInfix _ (.head _))
    exact absurd hwithin (by decide +kernel)

end StepTrace.Python

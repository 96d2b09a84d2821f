import StepTrace.Proofs.Python.Slices
import Mathlib.Data.List.Infix

/-!
# Headers and simple statements of logical lines

What reading statements cuts out of a logical line is a logical line itself: the header up to its
colon (`Course.headerText`), the simple statements between semicolons (`Course.simpleText`), a
decorator, and the header of an `elif` clause with the keyword of an `if` statement. All cuts come
from one, at the first top-level colon or semicolon of a text (`Copies.firstSign`). The text of a
simple statement or a decorator must not end in a backslash for that, and no text may hold a line
break of two characters.
-/

set_option autoImplicit false

namespace StepTrace.Python

variable {l l₁ l' f : OpenLine} {line : Nat} {c d : Char} {s u next after blanks x : List Char}

/-! ## Colons and semicolons -/

/-- The offsets of the top-level semicolons or colons of a line, the last first. -/
def OpenLine.signs (l : OpenLine) (d : Char) : List Nat :=
  if d = ';' then l.semicolons else l.colons

/-- A step past a top-level colon or semicolon. -/
structure Notes (d : Char) (l : OpenLine) (line : Nat) (next : List Char) (l₁ : OpenLine) :
    Prop where
  keeps : Keeps l line d next l₁
  frames : l.frames = []
  equals : d = ':' → next.head? ≠ some '='
  signs : l₁.signs d = l.offset :: l.signs d
  fresh : Fresh l₁

/-- A step notes a top-level sign, or none. -/
theorem Keeps.notes (h : Keeps l line c next l₁) (hd : d = ':' ∨ d = ';') :
    l₁.signs d = l.signs d ∨ c = d ∧ Notes d l line next l₁ := by
  have hmark : ∀ {b : List Char}, ∀ e ∈ (d :: b).head?, Text.isWordChar e = false := by
    intro b e he
    cases he
    rcases hd with rfl | rfl <;> decide
  cases h.grows with
  | taken k hk => exact .inl rfl
  | string _ _ _ _ _ _ _ _ hstep => cases hstep <;> exact .inl rfl
  | comment => exact .inl rfl
  | code _ _ _ _ hstep =>
    cases hstep with
    | broken =>
      rw [OpenLine.continueLine]
      split_ifs <;> exact .inl rfl
    | colon hc hf hnext =>
      subst hc
      rcases hd with rfl | rfl
      · exact .inr ⟨rfl, h, hf, fun _ => hnext, rfl, ⟨⟨h.skip, hf, rfl⟩, hmark⟩⟩
      · exact .inl rfl
    | semicolon hc hf =>
      subst hc
      rcases hd with rfl | rfl
      · exact .inl rfl
      · exact .inr ⟨rfl, h, hf, fun h => absurd h (by decide), rfl, ⟨⟨h.skip, hf, rfl⟩, hmark⟩⟩
    | _ => exact .inl rfl

theorem Keeps.offset_lt (h : Keeps l line c next l₁) : l.offset < l₁.offset := by
  have hpos := c.utf8Size_pos
  rw [OpenLine.offset, OpenLine.offset, h.text, Text.byteSize_append, Text.byteSize]
  omega

/-- The signs that a text has stand in it. -/
theorem Copies.signs (h : Copies after l s l') (hd : d = ':' ∨ d = ';') :
    l.offset ≤ l'.offset ∧ ∃ ks, l'.signs d = ks ++ l.signs d ∧
      ∀ k ∈ ks, l.offset ≤ k ∧ k < l'.offset := by
  induction h with
  | nil => exact ⟨Nat.le_refl _, [], rfl, fun k hk => absurd hk (by simp)⟩
  | taken k hk _ ih => exact ih
  | @kept l l₁ l' c s line hkeeps _ ih =>
    obtain ⟨hle, ks, hks, hin⟩ := ih
    have hlt := hkeeps.offset_lt
    refine ⟨by omega, ?_⟩
    rcases hkeeps.notes hd with hsame | ⟨-, hnotes⟩
    · refine ⟨ks, hks.trans (congrArg (ks ++ ·) hsame), fun k hk => ?_⟩
      have := hin k hk
      omega
    · refine ⟨ks ++ [l.offset], ?_, fun k hk => ?_⟩
      · rw [hks, hnotes.signs, List.append_assoc]
        rfl
      · rcases List.mem_append.mp hk with hk | hk
        · have := hin k hk
          omega
        · rw [List.mem_singleton.mp hk]
          omega

/-- A text with top-level signs is cut at the first of them. -/
theorem Copies.firstSign {k : Nat} {ks : List Nat} (h : Copies after l s l')
    (hd : d = ':' ∨ d = ';') (hks : l'.signs d = ks ++ k :: l.signs d) :
    ∃ u v l₁ l₂ line, s = u ++ d :: v ∧ Copies (d :: (v ++ after)) l u l₁ ∧
      l₁.signs d = l.signs d ∧ Notes d l₁ line (v ++ after) l₂ ∧ k = l₁.offset ∧
      l'.signs d = ks ++ l₂.signs d ∧ Copies after l₂ v l' := by
  induction h with
  | nil =>
    have hlen := congrArg List.length hks
    rw [List.length_append, List.length_cons] at hlen
    omega
  | taken k' hk _ ih =>
    obtain ⟨u, v, l₁, l₂, line, rfl, hu, hrest⟩ := ih hks
    exact ⟨_ :: u, v, l₁, l₂, line, rfl, .taken k' hk hu, hrest⟩
  | @kept l l₂ l' c s line hkeeps hcopies ih =>
    rcases hkeeps.notes hd with hsame | ⟨rfl, hnotes⟩
    · obtain ⟨u, v, l₁, l₃, line', rfl, hu, hsigns, hrest⟩ := ih (hsame ▸ hks)
      refine ⟨c :: u, v, l₁, l₃, line', rfl, .kept line ?_ hu, hsigns.trans hsame, hrest⟩
      rwa [List.append_assoc] at hkeeps
    · -- the sign is the first one, as the signs behind it are noted later
      obtain ⟨-, ks', hks', -⟩ := hcopies.signs hd
      have hsplit : ks ++ [k] = ks' ++ [l.offset] := by
        rw [hks, hnotes.signs] at hks'
        refine (List.append_left_inj (l.signs c)).mp ?_
        rw [List.append_assoc, List.append_assoc]
        exact hks'
      obtain ⟨rfl, hk⟩ := List.append_inj' hsplit rfl
      refine ⟨[], s, l, l₂, line, rfl, .nil l, rfl, hnotes, (List.cons.inj hk).1, hks', hcopies⟩

/-! ## Simple statements -/

/-- The stretches of a text between some offsets, from an offset on. -/
def stretchesOf (text : List Char) (start : Nat) (ks : List Nat) : List (List Char) :=
  let ends := ks ++ [Text.byteSize text]
  ((start :: ends.map (· + 1)).zip ends).map fun p => Text.sliceBytes p.1 p.2 text

theorem stretchesOf_nil (text : List Char) (start : Nat) :
    stretchesOf text start [] = [Text.sliceBytes start (Text.byteSize text) text] := rfl

theorem stretchesOf_cons (text : List Char) (start k : Nat) (ks : List Nat) :
    stretchesOf text start (k :: ks) =
      Text.sliceBytes start k text :: stretchesOf text (k + 1) ks := rfl

theorem stretches_eq (t : LogicalLine) (start : Nat) :
    t.stretches start = stretchesOf t.text start (t.semicolons.filter fun o => start ≤ o) := rfl

theorem stretches_zero (t : LogicalLine) :
    t.stretches 0 = stretchesOf t.text 0 t.semicolons := by
  rw [stretches_eq, List.filter_eq_self.mpr fun o _ => decide_eq_true (Nat.zero_le o)]

/-- A part of the text of a line in which no top-level semicolon stands. -/
structure Stretch (x after : List Char) (l f : OpenLine) : Prop where
  fresh : Fresh l
  copies : Copies after l x f
  frames : f.frames = []
  semicolons : f.semicolons = l.semicolons
  after : ∀ d ∈ after.head?, d = ';' ∨ Text.isBlank d = true

theorem offset_of_behind (h : l.behind = u.reverse) : l.offset = Text.byteSize u := by
  have hreverse : ∀ u : List Char, Text.byteSize u.reverse = Text.byteSize u := by
    intro u
    induction u with
    | nil => rfl
    | cons c u ih =>
      rw [List.reverse_cons, Text.byteSize_append, ih, Text.byteSize, Text.byteSize, Text.byteSize]
      omega
  rw [OpenLine.offset, h, hreverse]

/-- A text cut at the first of its semicolons, at an offset: the stretch before it, and the rest, which
a reader takes up afresh. -/
structure FirstCut (blanks u s : List Char) (l f : OpenLine) (k : Nat) (ks : List Nat)
    (w v : List Char) (l₁ l₂ : OpenLine) : Prop where
  text : s = w ++ ';' :: v
  first : Stretch w (';' :: (v ++ blanks)) l l₁
  offset : k = Text.byteSize (u ++ w)
  fresh : Fresh l₂
  behind : l₂.behind = (u ++ w ++ [';']).reverse
  copies : Copies blanks l₂ v f
  rest : f.semicolons = ks.reverse ++ l₂.semicolons

theorem Copies.firstCut {k : Nat} {ks : List Nat} (h : Copies blanks l s f) (hl : Fresh l)
    (hbehind : l.behind = u.reverse) (hks : f.semicolons = (k :: ks).reverse ++ l.semicolons) :
    ∃ w v l₁ l₂, FirstCut blanks u s l f k ks w v l₁ l₂ := by
  have hsigns : f.signs ';' = ks.reverse ++ k :: l.signs ';' := by
    rw [List.reverse_cons, List.append_assoc] at hks
    exact hks
  obtain ⟨w, v, l₁, l₂, line, htext, hw, hsame, hnotes, hk, hrest, hv⟩ :=
    h.firstSign (.inr rfl) hsigns
  have hbehind₁ : l₁.behind = (u ++ w).reverse := by
    rw [hw.text_of_skip hl.skip hnotes.keeps.skip, hbehind, List.reverse_append]
  have hbehind₂ : l₂.behind = (u ++ w ++ [';']).reverse := by
    rw [hnotes.keeps.text, hnotes.fresh.skip, hbehind₁]
    simp
  have hsemi : ∀ d ∈ (';' :: (v ++ blanks)).head?, d = ';' ∨ Text.isBlank d = true := by
    rintro _ ⟨⟩
    exact .inl rfl
  exact ⟨w, v, l₁, l₂, htext, ⟨hl, hw, hnotes.frames, hsame, hsemi⟩,
    hk.trans (offset_of_behind hbehind₁), hnotes.fresh, hbehind₂, hv, hrest⟩

section FirstCut

variable {k : Nat} {ks : List Nat} {w v : List Char}

theorem FirstCut.offset_succ (h : FirstCut blanks u s l f k ks w v l₁ l') :
    k + 1 = Text.byteSize (u ++ w ++ [';']) := by
  rw [h.offset, Text.byteSize_append _ [';']]
  rfl

/-- The stretches of a text are the first one and those of the rest. -/
theorem FirstCut.stretchesOf (h : FirstCut blanks u s l f k ks w v l₁ l') :
    stretchesOf (u ++ s) (Text.byteSize u) (k :: ks) =
      w :: Python.stretchesOf (u ++ w ++ [';'] ++ v) (Text.byteSize (u ++ w ++ [';'])) ks := by
  have htext : u ++ (w ++ ';' :: v) = u ++ w ++ [';'] ++ v := by simp
  rw [stretchesOf_cons, h.offset_succ, h.text, htext, h.offset, List.append_assoc (u ++ w),
    Text.sliceBytes_byteSize]

end FirstCut

/-- Cut at its semicolons a text falls into stretches. -/
theorem forall_stretchesOf {ks : List Nat} (h : Copies blanks l s f) (hl : Fresh l)
    (hbehind : l.behind = u.reverse) (hf : f.frames = []) (hblanks : Text.allBlank blanks = true)
    (hks : f.semicolons = ks.reverse ++ l.semicolons) :
    ∀ x ∈ stretchesOf (u ++ s) (Text.byteSize u) ks, ∃ after l₁ f₁, Stretch x after l₁ f₁ := by
  induction ks generalizing l s u with
  | nil =>
    intro x hx
    have hslice := Text.sliceBytes_byteSize u s []
    rw [List.append_nil] at hslice
    rw [stretchesOf_nil, hslice, List.mem_singleton] at hx
    subst hx
    refine ⟨blanks, l, f, hl, h, hf, hks, fun d hd => .inr ?_⟩
    exact List.all_eq_true.mp hblanks d (List.mem_of_mem_head? hd)
  | cons k ks ih =>
    -- the first stretch ends at the first semicolon, and the rest falls into the others
    obtain ⟨w, v, l₁, l₂, hcut⟩ := h.firstCut hl hbehind hks
    intro x hx
    rw [hcut.stretchesOf, List.mem_cons] at hx
    rcases hx with rfl | hx
    · exact ⟨_, l, l₁, hcut.first⟩
    · exact ih hcut.copies hcut.fresh hcut.behind hcut.rest x hx

/-- The text of a statement that lasts: it does not end in a backslash and holds no line break of
two characters. -/
structure Lasting (x : List Char) : Prop where
  noBackslash : x.getLast? ≠ some '\\'
  noReturn : ¬['\r', '\n'] <:+: x

instance (x : List Char) : Decidable (Lasting x) :=
  decidable_of_iff (x.getLast? ≠ some '\\' ∧ ¬['\r', '\n'] <:+: x)
    ⟨fun h => ⟨h.1, h.2⟩, fun h => ⟨h.noBackslash, h.noReturn⟩⟩

theorem Inert.of_blank (h : ∀ d ∈ after.head?, d = ';' ∨ Text.isBlank d = true) :
    Inert after := by
  intro d hd
  rcases h d hd with rfl | hblank
  · decide
  · refine ⟨?_, ?_, ?_, ?_⟩ <;> rintro rfl <;> exact absurd hblank (by decide)

/-- The first sign of a text at which no name stands begins a logical line. -/
theorem Copies.opens (h : Copies after l (c :: s) f) (hl : Bare l)
    (hc : Text.isBlank c = false) : Opens c := by
  refine ⟨?_, ?_, ?_, ?_, ?_⟩
  · rintro rfl; cases hc
  · rintro rfl; cases hc
  · rintro rfl; cases hc
  · rintro rfl; cases hc
  · -- a number sign would begin a comment, which no text keeps
    rintro rfl
    cases h with
    | taken k hk => exact absurd (hl.skip.symm.trans hk) (by simp)
    | kept _ hkeeps =>
      cases hkeeps.codeStep hl with
      | remark => exact absurd hkeeps.comment (by simp [OpenLine.remarking])
      | plain h => exact h ⟨rfl, by rw [hl.frames]; simp⟩
      | closed _ h => rcases h with h | h | h <;> cases h
      | opened h => rcases h with h | h | h <;> cases h
      | quote h => rcases h with h | h <;> cases h
      | quoteTriple h => rcases h with h | h <;> cases h
      | joined h => cases h
      | broken h => cases h
      | colon h => cases h
      | semicolon h => cases h

/-- A stretch without the blanks at its ends is a row, in which no semicolon stands. -/
theorem Stretch.rowText (h : Stretch x after l f) (hne : Text.trim x ≠ [])
    (hx : Lasting (Text.trim x)) :
    RowText (Text.trim x) ∧ (alone (Text.trim x)).semicolons = [] := by
  obtain ⟨b, hb, hstart⟩ := Text.exists_append_trimStart x
  obtain ⟨b', hb', hend⟩ := Text.exists_trimEnd_append (Text.trimStart x)
  have hcopies := h.copies
  change Text.trim x ++ b' = Text.trimStart x at hend
  rw [← hstart, ← hend] at hcopies
  -- blanks, the statement, and blanks again: only the statement moves anything
  obtain ⟨l₁, hleading, hcopies⟩ := hcopies.split
  obtain ⟨f₁, hmiddle, htrailing⟩ := hcopies.split
  have hfresh := hleading.fresh h.fresh hb
  obtain ⟨-, -, hsemicolons⟩ := hleading.blank h.fresh.proper hb
  obtain ⟨hframes, -, hsemicolons'⟩ := htrailing.blank (hmiddle.proper hfresh.proper) hb'
  obtain ⟨c, s, hcons⟩ := List.exists_cons_of_ne_nil hne
  have hblank : Text.isBlank c = false := Text.not_isBlank_of_head?_trim (by rw [hcons]; rfl)
  have hinert : Inert (b' ++ after) := by
    refine .of_blank fun d hd => ?_
    cases b' with
    | nil => exact h.after d hd
    | cons e b' =>
      rw [Text.allBlank_cons, Bool.and_eq_true] at hb'
      cases hd
      exact .inr hb'.1
  obtain ⟨hrow, -, hsigns⟩ := rowText_of_copies hmiddle hfresh (hframes.symm.trans h.frames) hinert
    ⟨c, s, hcons, (hcons ▸ hmiddle).opens hfresh.toBare hblank⟩
    (fun d hd => Text.not_isBlank_of_getLast?_trimEnd hd) hx.noBackslash hx.noReturn
  refine ⟨hrow, ?_⟩
  rw [← hsemicolons', h.semicolons, hsemicolons] at hsigns
  have hnil := List.append_cancel_right ((List.nil_append l.semicolons).trans hsigns)
  simpa using hnil.symm

variable {t t' : LogicalLine} {colon pos : Nat} {v : List Char}

theorem Fresh.start (line column : Nat) : Fresh (.start line column) :=
  ⟨.start line column, fun _ hc => absurd hc (by simp [OpenLine.start, OpenLine.behind])⟩

theorem byteSize_colon (u : List Char) : Text.byteSize (u ++ [':']) = Text.byteSize u + 1 :=
  Text.byteSize_append u [':']

/-- How the header of a line is read. -/
structure Heading (t : LogicalLine) (blanks : List Char) (f : OpenLine) (u v : List Char)
    (l₁ l₂ : OpenLine) : Prop where
  text : t.text = u ++ ':' :: v
  before : Copies (':' :: (v ++ blanks)) (.start t.line t.indent) u l₁
  notes : ∃ line, Notes ':' l₁ line (v ++ blanks) l₂
  behind : l₂.behind = (u ++ [':']).reverse
  colons : l₂.colons = [Text.byteSize u]
  rest : Copies blanks l₂ v f

/-- A line with a top-level colon has a header. -/
theorem Course.heading (ht : Course t blanks f) (hcolon : t.headerColon? = some colon) :
    ∃ u v l₁ l₂, Heading t blanks f u v l₁ l₂ ∧ colon = Text.byteSize u := by
  obtain ⟨more, hmore⟩ := List.head?_eq_some_iff.mp hcolon
  have hsigns : f.signs ':' =
      more.reverse ++ colon :: (OpenLine.start t.line t.indent).signs ':' := by
    show f.colons = _
    rw [ht.colons, hmore, List.reverse_cons]
    rfl
  obtain ⟨u, v, l₁, l₂, line, htext, hu, hsame, hnotes, hk, -, hv⟩ :=
    ht.copies.firstSign (.inl rfl) hsigns
  have hbehind : l₁.behind = u.reverse := by
    rw [hu.text_of_skip rfl hnotes.keeps.skip]
    exact List.append_nil _
  have hoffset := offset_of_behind hbehind
  refine ⟨u, v, l₁, l₂, ⟨htext, hu, ⟨line, hnotes⟩, ?_, ?_, hv⟩, hk.trans hoffset⟩
  · rw [hnotes.keeps.text, hnotes.fresh.skip, hbehind]
    simp
  · have hcolons : l₂.colons = l₁.offset :: l₁.colons := hnotes.signs
    rw [hcolons, hoffset, show l₁.colons = [] from hsame]

/-- The semicolons of the header stand before those of the statements behind it. -/
theorem Heading.semicolons {l₁ l₂ : OpenLine} (h : Heading t blanks f u v l₁ l₂)
    (ht : Course t blanks f) :
    f.semicolons = (t.semicolons.filter fun o => Text.byteSize u + 1 ≤ o).reverse ++
      l₂.semicolons := by
  obtain ⟨line, hnotes⟩ := h.notes
  obtain ⟨-, ks, hks, hin⟩ := h.rest.signs (d := ';') (.inr rfl)
  obtain ⟨-, ks', hks', hin'⟩ := h.before.signs (d := ';') (.inr rfl)
  have hf : f.semicolons = ks ++ l₂.semicolons := hks
  have hl : l₁.semicolons = ks' ++ [] := hks'
  have hsame : l₂.semicolons = l₁.semicolons :=
    (hnotes.keeps.notes (d := ';') (.inr rfl)).resolve_right fun h => absurd h.1 (by decide)
  have hoffset : l₂.offset = Text.byteSize u + 1 :=
    (offset_of_behind h.behind).trans (byteSize_colon u)
  have hlt := hnotes.keeps.offset_lt
  have hsplit : t.semicolons = ks'.reverse ++ ks.reverse := by
    rw [← List.reverse_append, ← List.reverse_eq_iff, ← ht.semicolons, hf, hsame, hl,
      List.append_nil]
  -- `ks'` are the semicolons before the colon, and `ks` those behind it
  have hfilter : t.semicolons.filter (fun o => Text.byteSize u + 1 ≤ o) = ks.reverse := by
    rw [hsplit, List.filter_append, List.filter_eq_nil_iff.mpr, List.filter_eq_self.mpr,
      List.nil_append]
    · intro o ho
      have := hin o (List.mem_reverse.mp ho)
      simp only [decide_eq_true_eq]
      omega
    · intro o ho
      have := hin' o (List.mem_reverse.mp ho)
      simp only [decide_eq_true_eq]
      omega
  rw [hfilter, List.reverse_reverse]
  exact hf

/-- The simple statements of a line are cut out of stretches of it. -/
theorem Course.stretch_of_mem_pieces (ht : Course t blanks f)
    (hpos : pos = 0 ∨ ∃ colon, t.headerColon? = some colon ∧ pos = colon + 1)
    (hx : x ∈ t.pieces pos) :
    ∃ s after l₁ f₁, Stretch s after l₁ f₁ ∧ x = Text.trim s ∧ x ≠ [] := by
  obtain ⟨hmem, hne⟩ := List.mem_filter.mp hx
  obtain ⟨s, hs, rfl⟩ := List.mem_map.mp hmem
  have hne' : Text.trim s ≠ [] := by
    intro hnil
    rw [hnil] at hne
    cases hne
  suffices hstretch : ∃ after l₁ f₁, Stretch s after l₁ f₁ by
    obtain ⟨after, l₁, f₁, h⟩ := hstretch
    exact ⟨s, after, l₁, f₁, h, rfl, hne'⟩
  rcases hpos with rfl | ⟨colon, hcolon, rfl⟩
  · rw [stretches_zero] at hs
    exact forall_stretchesOf (u := []) ht.copies (.start _ _) rfl ht.frames ht.blanks
      (by rw [ht.semicolons]; exact (List.append_nil _).symm) s hs
  · obtain ⟨u, v, l₁, l₂, hheading, rfl⟩ := ht.heading hcolon
    obtain ⟨line, hnotes⟩ := hheading.notes
    rw [stretches_eq, hheading.text, ← byteSize_colon, ← List.singleton_append,
      ← List.append_assoc] at hs
    refine forall_stretchesOf hheading.rest hnotes.fresh hheading.behind ht.frames ht.blanks ?_ s hs
    rw [byteSize_colon]
    exact hheading.semicolons ht

/-- A simple statement of a line is a line of its own. -/
theorem Course.simpleText (ht : Course t blanks f)
    (hpos : pos = 0 ∨ ∃ colon, t.headerColon? = some colon ∧ pos = colon + 1)
    (hmem : x ∈ t.pieces pos) (hx : Lasting x) (hkind : (alone x).kind = .simple) :
    SimpleText x := by
  obtain ⟨s, after, l₁, f₁, hstretch, rfl, hne⟩ := ht.stretch_of_mem_pieces hpos hmem
  obtain ⟨hrow, hsemicolons⟩ := hstretch.rowText hne hx
  exact ⟨hrow, hsemicolons, hkind, fun c hc => Text.not_isBlank_of_head?_trim hc⟩

/-! ## Headers -/

theorem through_of_text (h : t.text = u ++ ':' :: v) :
    t.through (Text.byteSize u) = u ++ [':'] := by
  have hsplit : t.text = u ++ [':'] ++ v := by
    rw [h, List.append_assoc]
    rfl
  rw [LogicalLine.through, hsplit, ← byteSize_colon, Text.takeBytes_byteSize]

theorem Heading.through {l₁ l₂ : OpenLine} (h : Heading t blanks f u v l₁ l₂) :
    t.through (Text.byteSize u) = u ++ [':'] :=
  through_of_text h.text

/-- A header is read alike whatever follows its colon. -/
theorem Heading.copies {l₁ l₂ : OpenLine} (h : Heading t blanks f u v l₁ l₂) :
    Copies [] (.start t.line t.indent) (u ++ [':']) l₂ := by
  obtain ⟨line, hnotes⟩ := h.notes
  have hinert : ∀ after : List Char, Inert (':' :: after) := by
    intro after d hd
    cases hd
    decide
  have hbefore : Copies ([':'] ++ []) (.start t.line t.indent) u l₁ :=
    h.before.congr .nil hnotes.keeps.skip (fun _ => rfl) (hinert _) (hinert _)
  -- the colon looked ahead for an equals sign and saw none, and there is none at the end either
  have hstep : Keeps l₁ line ':' [] l₂ := by
    refine hnotes.keeps.congr (by rw [hnotes.frames]; exact .nil) ⟨?_, ?_, ?_, ?_⟩ ?_
    · exact fun h => absurd h (by decide)
    · exact fun h => absurd h (by decide)
    · exact fun h => absurd h (by decide)
    · exact fun _ => iff_of_false (hnotes.equals rfl) (by simp)
    · rw [hnotes.fresh.skip, List.take_zero, List.take_zero]
  exact hbefore.append (.kept line hstep (.nil l₂))

/-- A header is a line of its own, the colon its only one. -/
theorem Heading.rowText {l₁ l₂ : OpenLine} (h : Heading t blanks f u v l₁ l₂)
    (hopens : ∀ c ∈ t.text.head?, Opens c) (hreturn : ¬['\r', '\n'] <:+: u ++ [':']) :
    RowText (u ++ [':']) ∧ (alone (u ++ [':'])).colons = [Text.byteSize u] := by
  obtain ⟨line, hnotes⟩ := h.notes
  have hfirst : ∃ c s, u ++ [':'] = c :: s ∧ Opens c := by
    cases u with
    | nil => exact ⟨':', [], rfl, by decide⟩
    | cons c u => exact ⟨c, u ++ [':'], rfl, hopens c (by rw [h.text]; rfl)⟩
  have hlast : ∀ c ∈ (u ++ [':']).getLast?, Text.isBlank c = false ∧ c ≠ '\\' := by
    intro c hc
    rw [List.getLast?_concat] at hc
    cases hc
    exact ⟨by decide, by decide⟩
  obtain ⟨hrow, hcolons, -⟩ := rowText_of_copies h.copies (.start _ _) hnotes.fresh.frames
    .nil hfirst (fun c hc => (hlast c hc).1)
    (fun hc => (hlast _ hc).2 rfl) hreturn
  refine ⟨hrow, ?_⟩
  have hzero : (OpenLine.start t.line t.indent).offset = 0 := rfl
  have hnil : (OpenLine.start t.line t.indent).colons = [] := rfl
  have hid : ∀ ks : List Nat, ks.map (· + 0) = ks := fun ks => List.map_id ks
  rw [h.colons, hzero, hnil, List.append_nil, hid, eq_comm, List.reverse_eq_iff] at hcolons
  exact hcolons

theorem leadingWord_append_of_stop (u : List Char) (hc : Text.isWordChar c = false) :
    Text.leadingWord (u ++ c :: v) = Text.leadingWord u := by
  induction u with
  | nil =>
    rw [Text.leadingWord, List.nil_append, List.takeWhile_cons, hc]
    rfl
  | cons d u ih =>
    rw [Text.leadingWord, Text.leadingWord, List.cons_append, List.takeWhile_cons,
      List.takeWhile_cons]
    split
    · exact congrArg (d :: ·) ih
    · rfl

theorem exists_eq_append_of_leadingWord {w : List Char} (h : Text.leadingWord u = w) :
    ∃ v, u = w ++ v ∧ ∀ c ∈ v.head?, Text.isWordChar c = false := by
  refine ⟨u.dropWhile Text.isWordChar, ?_, fun c hc => ?_⟩
  · rw [← h]
    exact List.takeWhile_append_dropWhile.symm
  · have hnot := List.head?_dropWhile_not Text.isWordChar u
    rw [hc] at hnot
    simpa using hnot

theorem trimStart_append_of_stop (u : List Char) (hc : Text.isBlank c = false) :
    Text.trimStart (u ++ c :: v) = Text.trimStart u ++ c :: v := by
  induction u with
  | nil =>
    rw [Text.trimStart, List.nil_append, List.dropWhile_cons, hc]
    rfl
  | cons d u ih =>
    rw [Text.trimStart, Text.trimStart, List.cons_append, List.dropWhile_cons,
      List.dropWhile_cons]
    split
    · exact ih
    · rfl

theorem ite_eq_of_ne {p : Prop} [Decidable p] {kind kind₁ kind₂ : LineKind}
    (h : kind₁ ≠ .simple → kind₂ = kind₁) (hne : (if p then kind else kind₁) ≠ .simple) :
    (if p then kind else kind₂) = if p then kind else kind₁ := by
  by_cases hp : p
  · rw [if_pos hp, if_pos hp]
  · rw [if_neg hp] at hne
    rw [if_neg hp, if_neg hp, h hne]

/-- Whether a line is what another one is up to its first colon. -/
structure IsHeader (t t' : LogicalLine) (u v : List Char) : Prop where
  whole : t.text = u ++ ':' :: v
  text : t'.text = u ++ [':']
  colon : t.headerColon? = some (Text.byteSize u)
  colon' : t'.headerColon? = some (Text.byteSize u)

namespace IsHeader

variable (h : IsHeader t t' u v)

include h

theorem firstWord : t'.firstWord = t.firstWord := by
  rw [LogicalLine.firstWord, LogicalLine.firstWord, h.whole, h.text,
    leadingWord_append_of_stop u (by decide), leadingWord_append_of_stop u (by decide)]

theorem opensSoftBlock {word : List Char} {inline : Bool} (inline' : Bool)
    (hopens : opensSoftBlock t word inline = true) :
    StepTrace.Python.opensSoftBlock t' word inline' = true := by
  have hsubject : ∀ w : List Char, Text.sliceBytes (Text.byteSize word) (Text.byteSize u) (u ++ w) =
      Text.dropBytes (Text.byteSize word) u := by
    intro w
    rw [Text.sliceBytes, Text.takeBytes_byteSize]
  rw [StepTrace.Python.opensSoftBlock, h.colon, h.whole] at hopens
  rw [StepTrace.Python.opensSoftBlock, h.colon', h.text]
  dsimp only at hopens ⊢
  rw [hsubject] at hopens ⊢
  rw [Bool.and_eq_true, Bool.and_eq_true] at hopens ⊢
  refine ⟨⟨?_, hopens.1.2⟩, hopens.2⟩
  rw [← byteSize_colon, beq_self_eq_true, Bool.or_true]

theorem kindOfWord {word : List Char} (hkind : kindOfWord t word ≠ .simple) :
    StepTrace.Python.kindOfWord t' word = StepTrace.Python.kindOfWord t word := by
  cases hsoft : StepTrace.Python.opensSoftBlock t word false with
  | true =>
    unfold StepTrace.Python.kindOfWord
    rw [hsoft, h.opensSoftBlock false hsoft]
  | false =>
    have hnot : ∀ w : List Char,
        ¬(word = w ∧ StepTrace.Python.opensSoftBlock t word false = true) := by
      rintro w ⟨-, hsoft'⟩
      exact absurd (hsoft.symm.trans hsoft') (by simp)
    unfold StepTrace.Python.kindOfWord at hkind ⊢
    rw [if_neg (hnot _), if_neg (hnot _)] at hkind ⊢
    -- the keywords before `match` and `case` are told by the word alone
    exact ite_eq_of_ne (ite_eq_of_ne (ite_eq_of_ne (ite_eq_of_ne (ite_eq_of_ne (ite_eq_of_ne
      (ite_eq_of_ne (ite_eq_of_ne (ite_eq_of_ne fun h => absurd rfl h)))))))) hkind

/-- A header begins what its line begins. -/
theorem kind (hkind : t.kind ≠ .simple) : t'.kind = t.kind := by
  have hhead : t'.text.head? = t.text.head? := by
    rw [h.whole, h.text]
    cases u <;> rfl
  rw [LogicalLine.kind] at hkind
  rw [LogicalLine.kind, LogicalLine.kind, hhead]
  split
  · rfl
  · next hsign =>
    rw [if_neg hsign] at hkind
    dsimp only at hkind ⊢
    rw [h.firstWord]
    split
    · next hasync =>
      have hle : t.firstWord.length ≤ u.length := by
        rw [LogicalLine.firstWord, h.whole, leadingWord_append_of_stop u (by decide)]
        exact (List.takeWhile_prefix _).length_le
      rw [h.whole, h.text, List.drop_append_of_le_length hle, List.drop_append_of_le_length hle,
        trimStart_append_of_stop _ (by decide), trimStart_append_of_stop _ (by decide),
        leadingWord_append_of_stop _ (by decide), leadingWord_append_of_stop _ (by decide)]
    · next hasync =>
      rw [if_neg hasync] at hkind
      exact h.kindOfWord hkind

theorem isCase (hcase : t.isCase = true) : t'.isCase = true := by
  rw [LogicalLine.isCase, Bool.and_eq_true] at hcase ⊢
  rw [h.firstWord]
  exact ⟨hcase.1, h.opensSoftBlock true hcase.2⟩

end IsHeader

/-- The header of a line stands by itself. -/
theorem Course.header (ht : Course t blanks f) (hcolon : t.headerColon? = some colon)
    (hreturn : ¬['\r', '\n'] <:+: t.through colon) :
    RowText (t.through colon) ∧
      (alone (t.through colon)).headerColon? = some (Text.byteSize (t.through colon) - 1) ∧
      ∃ u v, IsHeader t (alone (t.through colon)) u v := by
  obtain ⟨u, v, l₁, l₂, hheading, rfl⟩ := ht.heading hcolon
  rw [hheading.through] at hreturn ⊢
  obtain ⟨hrow, hcolons⟩ := hheading.rowText ht.opens hreturn
  have hhead : (alone (u ++ [':'])).headerColon? = some (Text.byteSize u) := by
    rw [LogicalLine.headerColon?, hcolons]
    rfl
  refine ⟨hrow, ?_, u, v, hheading.text, hrow.oneLine.text, hcolon, hhead⟩
  rw [hhead, byteSize_colon, Nat.add_sub_cancel]

theorem Course.headerText {kind : LineKind} (ht : Course t blanks f) (hkind : t.kind = kind)
    (hne : kind ≠ .simple) (hcolon : t.headerColon? = some colon)
    (hreturn : ¬['\r', '\n'] <:+: t.through colon) :
    HeaderText (OfKind kind) (t.through colon) := by
  obtain ⟨hrow, hlast, u, v, hheader⟩ := ht.header hcolon hreturn
  exact ⟨hrow, (hheader.kind (hkind ▸ hne)).trans hkind, hlast⟩

theorem Course.headerText_case (ht : Course t blanks f) (hcase : t.isCase = true)
    (hcolon : t.headerColon? = some colon) (hreturn : ¬['\r', '\n'] <:+: t.through colon) :
    HeaderText OfCase (t.through colon) := by
  obtain ⟨hrow, hlast, u, v, hheader⟩ := ht.header hcolon hreturn
  exact ⟨hrow, hheader.isCase hcase, hlast⟩

/-! ## Decorators and `elif` clauses -/

theorem ite_ne {p : Prop} [Decidable p] {kind kind₁ kind₂ : LineKind} (h₁ : kind₁ ≠ kind)
    (h₂ : kind₂ ≠ kind) : (if p then kind₁ else kind₂) ≠ kind := by
  split
  · exact h₁
  · exact h₂

theorem kindOfAsync_ne {kind : LineKind} (word : List Char)
    (h : kind = .decorator ∨ kind = .elifClause) : kindOfAsync word ≠ kind := by
  unfold kindOfAsync
  rcases h with rfl | rfl
  · exact ite_ne (by decide) (ite_ne (by decide) (ite_ne (by decide) (by decide)))
  · exact ite_ne (by decide) (ite_ne (by decide) (ite_ne (by decide) (by decide)))

theorem kindOfWord_ne_decorator (t : LogicalLine) (word : List Char) :
    kindOfWord t word ≠ .decorator := by
  unfold kindOfWord
  exact ite_ne (by decide) (ite_ne (by decide) (ite_ne (by decide) (ite_ne (by decide)
    (ite_ne (by decide) (ite_ne (by decide) (ite_ne (by decide) (ite_ne (by decide)
    (ite_ne (by decide) (ite_ne (by decide) (ite_ne (by decide) (by decide)))))))))))

theorem kindOfWord_ne_elif (t : LogicalLine) {word : List Char} (h : word ≠ "elif".toList) :
    kindOfWord t word ≠ .elifClause := by
  unfold kindOfWord
  rw [if_neg h]
  exact ite_ne (by decide) (ite_ne (by decide) (ite_ne (by decide)
    (ite_ne (by decide) (ite_ne (by decide) (ite_ne (by decide) (ite_ne (by decide)
    (ite_ne (by decide) (ite_ne (by decide) (ite_ne (by decide) (by decide))))))))))

theorem head?_of_kind_decorator (h : t.kind = .decorator) : t.text.head? = some '@' := by
  by_contra hsign
  rw [LogicalLine.kind, if_neg hsign] at h
  dsimp only at h
  split at h
  · exact kindOfAsync_ne _ (.inl rfl) h
  · exact kindOfWord_ne_decorator t _ h

theorem firstWord_of_kind_elif (h : t.kind = .elifClause) : t.firstWord = "elif".toList := by
  by_contra hword
  rw [LogicalLine.kind] at h
  split at h
  · cases h
  · dsimp only at h
    split at h
    · exact kindOfAsync_ne _ (.inr rfl) h
    · exact kindOfWord_ne_elif t hword h

/-- A decorator is a line of its own. -/
theorem Course.decoratorText (ht : Course t blanks f) (hkind : t.kind = .decorator)
    (hx : Lasting t.text) : DecoratorText t.text := by
  have hsign := head?_of_kind_decorator hkind
  obtain ⟨s, hs⟩ := List.head?_eq_some_iff.mp hsign
  have hinert : Inert blanks :=
    .of_blank fun d hd => .inr (List.all_eq_true.mp ht.blanks d (List.mem_of_mem_head? hd))
  exact ⟨(rowText_of_copies ht.copies (.start _ _) ht.frames hinert
    ⟨'@', s, hs, ht.opens '@' hsign⟩ ht.solid hx.noBackslash hx.noReturn).1, hsign⟩

/-- Behind `elif` strings are formatted as behind `if`: neither keyword is a string mark, nor is a
name that goes on with it. -/
theorem sameMarks_elif {base base' : OpenLine} (h : base.behind = "file".toList)
    (h' : base'.behind = "fi".toList) : SameMarks base base' := by
  intro d
  rw [h, h']
  -- a name that goes on through the keyword is too long for a mark
  by_cases hd : d.all Text.isWordChar = true
  · have htake : ∀ w : List Char, (d ++ w).takeWhile Text.isWordChar =
        d ++ w.takeWhile Text.isWordChar := fun w =>
      List.takeWhile_append_of_pos (List.all_eq_true.mp hd)
    have hword : "file".toList.takeWhile Text.isWordChar = "file".toList ∧
        "fi".toList.takeWhile Text.isWordChar = "fi".toList := by
      decide +kernel
    rw [formatMark, formatMark, htake, htake, hword.1, hword.2]
    cases d with
    | nil => decide +kernel
    | cons c d =>
      have hlong : ¬(c :: d ++ "file".toList).length ≤ 2 := by simp
      have hlong' : ¬(c :: d ++ "fi".toList).length ≤ 2 := by simp
      simp only [hlong, hlong', decide_false, Bool.false_and]
  · have htake : ∀ w : List Char,
        (d ++ w).takeWhile Text.isWordChar = d.takeWhile Text.isWordChar := by
      intro w
      rw [List.takeWhile_append, if_neg]
      intro hlen
      refine hd (List.all_eq_true.mpr fun c hc => ?_)
      have heq := (List.takeWhile_prefix Text.isWordChar (l := d)).eq_of_length hlen
      rw [← heq] at hc
      exact List.all_eq_true.mp List.all_takeWhile c hc
    rw [formatMark, formatMark, htake, htake]

theorem kind_if {x : List Char} (ht : t.text = "if".toList ++ x)
    (hx : ∀ c ∈ x.head?, Text.isWordChar c = false) : t.kind = .branch := by
  have hword : t.firstWord = "if".toList := by
    have hstop : x.takeWhile Text.isWordChar = [] := by
      cases x with
      | nil => rfl
      | cons c x =>
        rw [List.takeWhile_cons, hx c rfl]
        rfl
    rw [LogicalLine.firstWord, Text.leadingWord, ht,
      List.takeWhile_append_of_pos (List.all_eq_true.mp (by decide +kernel)), hstop,
      List.append_nil]
  have hsign : t.text.head? ≠ some '@' := by
    rw [ht]
    exact fun h => absurd (Option.some.inj h) (by decide)
  rw [LogicalLine.kind, if_neg hsign]
  dsimp only
  rw [hword, if_neg (by decide), kindOfWord, if_pos rfl]

/-- Behind the keyword of an `if` statement the header of an `elif` clause is one of an `if`
statement. -/
theorem Course.headerText_elif (ht : Course t blanks f) (hkind : t.kind = .elifClause)
    (hcolon : t.headerColon? = some colon)
    (hreturn : ¬['\r', '\n'] <:+: "if".toList ++ (t.through colon).drop "elif".toList.length) :
    HeaderText (OfKind .branch) ("if".toList ++ (t.through colon).drop "elif".toList.length) := by
  obtain ⟨u, v, l₁, l₂, hheading, rfl⟩ := ht.heading hcolon
  obtain ⟨line, hnotes⟩ := hheading.notes
  have hword := firstWord_of_kind_elif hkind
  rw [LogicalLine.firstWord, hheading.text, leadingWord_append_of_stop u (by decide)] at hword
  obtain ⟨w, rfl, hw⟩ := exists_eq_append_of_leadingWord hword
  have hdrop : ("elif".toList ++ w ++ [':']).drop "elif".toList.length = w ++ [':'] := by
    rw [List.append_assoc, List.drop_left]
  rw [hheading.through, hdrop] at hreturn ⊢
  -- the two keywords take the reader to like places
  have hcopies := hheading.copies
  rw [List.append_assoc] at hcopies
  obtain ⟨e, helif, hrest⟩ := hcopies.split
  have hplain : (∀ c ∈ "elif".toList, Plain c) ∧ ∀ c ∈ "if".toList, Plain c :=
    ⟨List.forall_iff_forall_mem.mp (by decide), List.forall_iff_forall_mem.mp (by decide)⟩
  obtain ⟨e', helif', hbare, hbehind, -, hcolons, -⟩ :=
    copies_plain [] (.start t.line t.indent) hplain.1
  obtain ⟨g, hif, hbare', hbehind', hearlier, hcolons', -⟩ :=
    copies_plain (w ++ [':'] ++ []) (.start t.line t.indent) hplain.2
  obtain rfl := helif.eq_of_plain helif' (.start _ _) hplain.1
  obtain ⟨m, hshifted, hm⟩ := hrest.shifted (Shifted.refl hbare hbare' hearlier)
    (sameMarks_elif hbehind hbehind')
  have hsemi : Text.isBlank ':' = false ∧ (':' : Char) ≠ '\\' := by decide
  obtain ⟨hone, hsigns, -⟩ := oneLine_of_copies (hif.append hshifted)
    ⟨hm.skip.trans hnotes.fresh.skip, hm.frames.trans hnotes.fresh.frames⟩
    ⟨'i', 'f' :: (w ++ [':']), rfl, by decide⟩
    (fun c hc => by
      rw [← List.append_assoc, List.getLast?_concat] at hc
      cases hc
      exact hsemi.1) hreturn
  refine ⟨⟨hone, ?_⟩, kind_if hone.text ?_, ?_⟩
  · rw [← List.append_assoc, List.getLast?_concat]
    exact fun h => hsemi.2 (Option.some.inj h)
  · cases w with
    | nil =>
      intro c hc
      cases hc
      decide
    | cons d w => exact hw
  · have hoffset : e.offset = 4 := offset_of_behind (u := "elif".toList) hbehind
    have hoffset' : g.offset = 2 := offset_of_behind (u := "if".toList) hbehind'
    have hsize : Text.byteSize ("elif".toList ++ w) = Text.byteSize w + e.offset := by
      rw [hoffset, Text.byteSize_append, Nat.add_comm]
      rfl
    have hcolon : m.colons = [Text.byteSize w + g.offset] :=
      hm.colons_singleton hcolons hcolons' (by rw [hheading.colons, hsize])
    have hend : Text.byteSize ("if".toList ++ (w ++ [':'])) - 1 = Text.byteSize w + 2 := by
      rw [← List.append_assoc, byteSize_colon, Text.byteSize_append, Nat.add_sub_cancel,
        Nat.add_comm]
      rfl
    rw [LogicalLine.headerColon?, hsigns, hcolon, hoffset', hend]
    rfl

end StepTrace.Python

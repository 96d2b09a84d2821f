import StepTrace.Proofs.Python.Copying
import StepTrace.Proofs.Python.WellFormed

/-!
# Slices of logical lines

A stretch of the text of a logical line between two places where no construct is open is a logical
line by itself. Read from its start on it grows as it did in the whole text, but that offsets count
from another place: `Shifted` relates the two lines, `Copies.shifted` follows them through a text.
`rowText_of_copies` draws the conclusion for stretches that do not end in a backslash.
-/

set_option autoImplicit false

namespace StepTrace.Python

variable {l l₁ l' m m' base base' : OpenLine} {line : Nat} {c : Char}
  {s t next after after' : List Char}

/-! ## What follows a text -/

theorem Copies.skip_le (h : Copies after l s l') : l.skip ≤ s.length + l'.skip := by
  induction h with
  | nil => exact Nat.le_add_left _ _
  | taken k hk _ ih =>
    rw [OpenLine.skip_passing] at ih
    rw [hk, List.length_cons]
    omega
  | kept _ hkeeps => rw [hkeeps.skip]; exact Nat.zero_le _

theorem Copies.skip_le_after (h : Copies after l s l') (hl : l.skip ≤ (s ++ after).length) :
    l'.skip ≤ after.length := by
  induction h with
  | nil => exact hl
  | taken k hk _ ih =>
    refine ih ?_
    rw [hk, List.cons_append, List.length_cons] at hl
    exact Nat.le_of_succ_le_succ hl
  | kept _ hkeeps _ ih => exact ih (hkeeps.grows.size hkeeps.skip).2

/-- What follows a text that takes nothing of it along does not matter. -/
theorem Copies.congr (h : Copies after l s l') (hl : Proper l.frames) (hskip : l'.skip = 0)
    (hlast : s.getLast? = some '\\' → after.head? = after'.head?) (ha : Inert after)
    (ha' : Inert after') : Copies after' l s l' := by
  induction h with
  | nil => exact .nil _
  | @taken l l' c s k hk _ ih =>
    refine .taken k hk (ih hl hskip fun h => hlast ?_)
    rw [List.getLast?_cons, h]
    rfl
  | @kept l l₁ l' c s line hkeeps hrest ih =>
    refine .kept line (hkeeps.congr hl ?_ ?_) (ih (hkeeps.grows.proper hl) hskip fun h => hlast ?_)
    · refine .of_inert (fun hs hc => hlast ?_) ha ha'
      rw [hs, hc]
      rfl
    · have hlen := hrest.skip_le
      rw [hskip, Nat.add_zero] at hlen
      rw [List.take_append_of_le_length hlen, List.take_append_of_le_length hlen]
    · rw [List.getLast?_cons, h]
      rfl

/-- Outside all constructs only a backslash and quotes take along what follows them. -/
def Poised (l : OpenLine) : Prop :=
  l.skip ≠ 0 → l.frames = [] → l.skip = 1 ∧ (∃ b, l.behind = '\n' :: '\\' :: b) ∨
    ∀ d ∈ l.behind.take l.skip, d = '\x27' ∨ d = '\x22'

theorem Poised.of_skip (h : l.skip = 0) : Poised l := fun hne => absurd h hne

theorem Poised.of_frames (h : l.frames ≠ []) : Poised l := fun _ hnil => absurd hnil h

theorem Poised.passing {k : Nat} (h : Poised l) (hk : l.skip = k + 1) : Poised (l.passing k) := by
  intro hne hframes
  rw [OpenLine.skip_passing] at hne ⊢
  rcases h (by rw [hk]; exact Nat.succ_ne_zero k) hframes with ⟨hone, -⟩ | hquotes
  · omega
  · refine .inr fun d hd => hquotes d ?_
    rw [hk]
    exact (List.take_subset_take_left _ (Nat.le_succ k)) hd

theorem Keeps.poised (h : Keeps l line c next l₁) (hl : Proper l.frames) : Poised l₁ := by
  have h0 := h.skip
  cases h.grows with
  | taken k hk => exact absurd (h0.symm.trans hk) (by simp)
  | string quote triple format opened outer _ _ hf hstep =>
    have hopen : l.frames ≠ [] := by rw [hf]; simp
    cases hstep with
    | closed => exact .of_skip h0
    | closedTriple hc =>
      have hquote := hl.2 quote triple format opened (by simp [hf])
      refine fun _ _ => .inr fun d hd => ?_
      have hd' : d = c := by simpa using hd
      rw [hd', hc]
      exact hquote
    | field => exact .of_skip h0
    | _ => exact .of_frames hopen
  | comment => exact .of_skip h0
  | code _ _ _ _ hstep =>
    cases hstep with
    | joined hc => exact fun _ _ => .inl ⟨rfl, l.behind, by rw [hc]; rfl⟩
    | broken => exact .of_skip ((skip_continueLine _).trans h0)
    | quoteTriple => exact .of_frames (by simp)
    | _ => exact .of_skip h0

theorem Copies.poised (h : Copies after l s l') (hl : Proper l.frames) (hpoised : Poised l) :
    Poised l' := by
  induction h with
  | nil => exact hpoised
  | taken k hk _ ih => exact ih hl (hpoised.passing hk)
  | kept _ hkeeps _ ih => exact ih (hkeeps.grows.proper hl) (hkeeps.poised hl)

/-- A text that leaves no construct open takes nothing along that an inert text begins with, unless
it ends in a backslash. -/
theorem Copies.skip_eq_zero (h : Copies after l s l') (hl : Proper l.frames) (h0 : l.skip = 0)
    (hframes : l'.frames = []) (hlast : s.getLast? ≠ some '\\') (ha : Inert after) :
    l'.skip = 0 := by
  by_contra hne
  -- what is taken along is a line feed behind a backslash, or quotes
  have hpoised := h.poised hl (.of_skip h0) hne hframes
  have hlen := h.skip_le_after (by rw [h0]; exact Nat.zero_le _)
  have htext := h.text (b := l.behind) (by rw [h0]; rfl)
  cases after with
  | nil => exact hne (Nat.le_zero.mp hlen)
  | cons d after =>
    have hd := ha d rfl
    rcases hpoised with ⟨hone, b, hb⟩ | hquotes
    · rw [htext, hone] at hb
      cases hs : s.getLast? with
      | none =>
        rw [List.getLast?_eq_none_iff] at hs
        subst hs
        cases h
        exact hne h0
      | some e =>
        obtain ⟨u, rfl⟩ := List.getLast?_eq_some_iff.mp hs
        simp at hb
        rw [hs, hb.2.1] at hlast
        exact hlast rfl
    · have hmem : d ∈ l'.behind.take l'.skip := by
        obtain ⟨k, hk⟩ := Nat.exists_eq_succ_of_ne_zero hne
        have htake : l'.behind.take l'.skip = ((d :: after).take l'.skip).reverse := by
          rw [htext]
          exact List.take_left' (by rw [List.length_reverse, List.length_take_of_le hlen])
        rw [htake, hk]
        simp
      rcases hquotes d hmem with h | h
      · exact hd.1 h
      · exact hd.2.1 h

/-! ## The start of a stretch -/

/-- Characters that are read alike wherever they stand outside all constructs. -/
def Plain (c : Char) : Prop :=
  c ≠ '#' ∧ c ≠ '\\' ∧ c ≠ '\n' ∧ ¬(c = '(' ∨ c = '[' ∨ c = '\x7b') ∧
    ¬(c = ')' ∨ c = ']' ∨ c = '\x7d') ∧ ¬(c = '\x27' ∨ c = '\x22') ∧ c ≠ ':' ∧ c ≠ ';'

instance (c : Char) : Decidable (Plain c) := by
  unfold Plain
  infer_instance

/-- A line outside all constructs and comments. -/
structure Bare (l : OpenLine) : Prop where
  skip : l.skip = 0
  frames : l.frames = []
  comment : l.comment = false

theorem Bare.start (line column : Nat) : Bare (.start line column) := ⟨rfl, rfl, rfl⟩

theorem Bare.push (h : Bare l) (c : Char) : Bare (l.push c) := ⟨h.skip, h.frames, h.comment⟩

theorem Bare.inCode (h : Bare l) : l.inCode = true := by
  rw [OpenLine.inCode, h.frames]
  rfl

theorem Bare.remarking (h : Bare l) : l.remarking false = l := remarking_false h.comment

theorem Bare.proper (h : Bare l) : Proper l.frames := by
  rw [h.frames]
  exact .nil

theorem Keeps.codeStep (h : Keeps l line c next l₁) (hl : Bare l) : CodeStep l line c next l₁ := by
  cases h.grows with
  | taken k hk => exact absurd (hl.skip.symm.trans hk) (by simp)
  | string _ _ _ _ _ _ _ hf => exact absurd (hl.frames.symm.trans hf) (by simp)
  | comment _ _ hc => exact absurd (hl.comment.symm.trans hc) (by simp)
  | code _ _ _ _ hstep => rwa [hl.remarking] at hstep

theorem Keeps.of_codeStep (hl : Bare l) (hgoes : c ≠ '\n') (h : CodeStep l line c next l₁)
    (hcomment : l₁.comment = false)
    (htext : l₁.behind = (next.take l₁.skip).reverse ++ c :: l.behind) : Keeps l line c next l₁ :=
  ⟨hl.skip, fun hends => hgoes hends.2.2,
    .code l₁ hl.skip hl.inCode (fun h => absurd (hl.comment.symm.trans h) (by simp))
      (hl.remarking.symm ▸ h), hcomment, htext⟩

theorem keeps_plain (hl : Bare l) (hc : Plain c) : Keeps l line c next (l.push c) := by
  obtain ⟨h1, h2, h3, h4, h5, h6, h7, h8⟩ := hc
  refine .of_codeStep hl h3 (.plain (fun h => h1 h.1) (fun h => h2 h.1) h3 h4 h5 h6
    (fun h => h7 h.1) fun h => h8 h.1) hl.comment ?_
  rw [OpenLine.skip_push, hl.skip]
  rfl

theorem Keeps.eq_push (h : Keeps l line c next l₁) (hl : Bare l) (hc : Plain c) :
    l₁ = l.push c := by
  obtain ⟨h1, h2, h3, h4, h5, h6, h7, h8⟩ := hc
  cases h.codeStep hl with
  | remark hc => exact absurd hc h1
  | joined hc => exact absurd hc h2
  | broken hc => exact absurd hc h3
  | opened hc => exact absurd hc h4
  | closed _ hc => exact absurd hc h5
  | quote hc => exact absurd hc h6
  | quoteTriple hc => exact absurd hc h6
  | colon hc => exact absurd hc h7
  | semicolon hc => exact absurd hc h8
  | plain => rfl

theorem copies_plain (after : List Char) (hl : Bare l) (hs : ∀ c ∈ s, Plain c) :
    ∃ l', Copies after l s l' ∧ Bare l' ∧ l'.behind = s.reverse ++ l.behind ∧
      l'.earlier = l.earlier ∧ l'.colons = l.colons ∧ l'.semicolons = l.semicolons := by
  induction s generalizing l with
  | nil => exact ⟨l, .nil l, hl, rfl, rfl, rfl, rfl⟩
  | cons c s ih =>
    obtain ⟨l', hcopies, hbare, hbehind, hrest⟩ :=
      ih (hl.push c) fun d hd => hs d (List.mem_cons_of_mem c hd)
    refine ⟨l', .kept 0 (keeps_plain hl (hs c List.mem_cons_self)) hcopies, hbare, ?_, hrest⟩
    rw [hbehind, OpenLine.behind_push, List.reverse_cons, List.append_assoc]
    rfl

theorem Copies.eq_of_plain (h : Copies after l s l') (h' : Copies after' l s m') (hl : Bare l)
    (hs : ∀ c ∈ s, Plain c) : l' = m' := by
  induction s generalizing l with
  | nil =>
    cases h
    cases h'
    rfl
  | cons c s ih =>
    have hc := hs c List.mem_cons_self
    cases h with
    | taken k hk => exact absurd (hl.skip.symm.trans hk) (by simp)
    | kept _ hkeeps hrest =>
      cases h' with
      | taken k hk => exact absurd (hl.skip.symm.trans hk) (by simp)
      | kept _ hkeeps' hrest' =>
        rw [hkeeps.eq_push hl hc] at hrest
        rw [hkeeps'.eq_push hl hc] at hrest'
        exact ih hrest hrest' (hl.push c) fun d hd => hs d (List.mem_cons_of_mem c hd)

/-- A place where no word goes on: no name stands behind a bare line. -/
structure Fresh (l : OpenLine) : Prop extends Bare l where
  mark : ∀ c ∈ l.behind.head?, Text.isWordChar c = false

theorem isWordChar_of_isBlank (h : Text.isBlank c = true) : Text.isWordChar c = false := by
  have hcodes : ∀ n ∈ [0x09, 0x0A, 0x0B, 0x0C, 0x0D, 0x20, 0x85, 0xA0, 0x1680, 0x2000, 0x2001,
      0x2002, 0x2003, 0x2004, 0x2005, 0x2006, 0x2007, 0x2008, 0x2009, 0x200A, 0x2028, 0x2029,
      0x202F, 0x205F, 0x3000], Text.isWordChar (Char.ofNat n) = false := by
    decide +kernel
  rw [← Char.ofNat_toNat c]
  refine hcodes _ ?_
  simp only [Text.isBlank, Bool.or_eq_true, Bool.and_eq_true, decide_eq_true_eq, beq_iff_eq] at h
  simp only [List.mem_cons, List.not_mem_nil, or_false]
  omega

/-- Blanks take a line from one such place to another. -/
theorem Copies.fresh (h : Copies after l s l') (hl : Fresh l) (hs : Text.allBlank s = true) :
    Fresh l' := by
  induction h with
  | nil => exact hl
  | taken k hk => exact absurd (hl.skip.symm.trans hk) (by simp)
  | @kept l l₁ l' c s line hkeeps _ ih =>
    rw [Text.allBlank_cons, Bool.and_eq_true] at hs
    -- a line feed would end the line; no other blank has a meaning
    have hplain : Plain c := by
      have hne : c ≠ '\n' := fun hc => hkeeps.goes ⟨hl.skip, hl.frames, hc⟩
      have hnot : ∀ d, Text.isBlank d = false → c ≠ d := by
        rintro d hd rfl
        exact absurd (hs.1.symm.trans hd) (by simp)
      refine ⟨hnot _ (by decide), hnot _ (by decide), hne, ?_, ?_, ?_, hnot _ (by decide),
        hnot _ (by decide)⟩
      · rintro (h | h | h) <;> exact hnot _ (by decide) h
      · rintro (h | h | h) <;> exact hnot _ (by decide) h
      · rintro (h | h) <;> exact hnot _ (by decide) h
    have hpush := hkeeps.eq_push hl.toBare hplain
    subst hpush
    refine ih ⟨hl.toBare.push c, fun d hd => ?_⟩ hs.2
    cases hd
    exact isWordChar_of_isBlank hs.1

/-! ## Lines that began elsewhere -/

/-- Whether a string opened behind a text is formatted. -/
def formatMark (behind : List Char) : Bool :=
  let mark := behind.takeWhile Text.isWordChar
  mark.length ≤ 2 && mark.all (fun c => "rbuft".toList.contains c.toLower) &&
    mark.any fun c => "ft".toList.contains c.toLower

/-- Whether strings are formatted alike behind two lines, whatever else stands between. -/
def SameMarks (base base' : OpenLine) : Prop :=
  ∀ d, formatMark (d ++ base.behind) = formatMark (d ++ base'.behind)

/-- Two lines that went alike since two others. -/
structure Shifted (base base' l m : OpenLine) : Prop where
  skip : m.skip = l.skip
  comment : m.comment = l.comment
  frames : m.frames = l.frames
  text : ∃ d, l.behind = d ++ base.behind ∧ m.behind = d ++ base'.behind
  colons : ∃ ks : List Nat, l.colons = ks.map (· + base.offset) ++ base.colons ∧
    m.colons = ks.map (· + base'.offset) ++ base'.colons
  semicolons : ∃ ks : List Nat, l.semicolons = ks.map (· + base.offset) ++ base.semicolons ∧
    m.semicolons = ks.map (· + base'.offset) ++ base'.semicolons
  /-- Once the second line has a finished physical line, the two are in the same one. -/
  physical : m.earlier ≠ [] → l.earlier ≠ [] ∧ m.current = l.current ∧ m.inString = l.inString

namespace Shifted

theorem refl (hbase : Bare base) (hbase' : Bare base') (h : base'.earlier = []) :
    Shifted base base' base base' where
  skip := hbase'.skip.trans hbase.skip.symm
  comment := hbase'.comment.trans hbase.comment.symm
  frames := hbase'.frames.trans hbase.frames.symm
  text := ⟨[], rfl, rfl⟩
  colons := ⟨[], rfl, rfl⟩
  semicolons := ⟨[], rfl, rfl⟩
  physical := fun hne => absurd h hne

theorem push (h : Shifted base base' l m) (c : Char) :
    Shifted base base' (l.push c) (m.push c) where
  skip := h.skip
  comment := h.comment
  frames := h.frames
  text := by
    obtain ⟨d, hl, hm⟩ := h.text
    exact ⟨c :: d, congrArg (c :: ·) hl, congrArg (c :: ·) hm⟩
  colons := h.colons
  semicolons := h.semicolons
  physical := by
    intro hne
    obtain ⟨hearlier, hcurrent, hinString⟩ := h.physical hne
    exact ⟨hearlier, congrArg (c :: ·) hcurrent, hinString⟩

theorem breakLine (h : Shifted base base' l m) (b : Bool) :
    Shifted base base' (l.breakLine b) (m.breakLine b) where
  skip := h.skip
  comment := h.comment
  frames := h.frames
  text := by
    obtain ⟨d, hl, hm⟩ := h.text
    exact ⟨'\n' :: d, congrArg ('\n' :: ·) hl, congrArg ('\n' :: ·) hm⟩
  colons := h.colons
  semicolons := h.semicolons
  physical := fun _ => ⟨by simp [OpenLine.breakLine], rfl, rfl⟩

theorem passing (h : Shifted base base' l m) (k : Nat) :
    Shifted base base' (l.passing k) (m.passing k) :=
  { h with skip := rfl }

theorem remarking (h : Shifted base base' l m) (b : Bool) :
    Shifted base base' (l.remarking b) (m.remarking b) :=
  { h with comment := rfl }

theorem reframed (h : Shifted base base' l m) (frames : List Frame) :
    Shifted base base' (l.reframed frames) (m.reframed frames) :=
  { h with frames := rfl }

theorem enter (h : Shifted base base' l m) (f : Frame) :
    Shifted base base' (l.enter f) (m.enter f) :=
  { h with frames := congrArg (f :: ·) h.frames }

theorem leave (h : Shifted base base' l m) : Shifted base base' l.leave m.leave :=
  { h with frames := congrArg List.tail h.frames }

theorem offsets (h : Shifted base base' l m) :
    ∃ k, l.offset = k + base.offset ∧ m.offset = k + base'.offset := by
  obtain ⟨d, hl, hm⟩ := h.text
  refine ⟨Text.byteSize d, ?_, ?_⟩
  · rw [OpenLine.offset, hl, Text.byteSize_append]
    rfl
  · rw [OpenLine.offset, hm, Text.byteSize_append]
    rfl

theorem noteColon (h : Shifted base base' l m) :
    Shifted base base' l.noteColon m.noteColon :=
  { h with
    colons := by
      obtain ⟨k, hl, hm⟩ := h.offsets
      obtain ⟨ks, hls, hms⟩ := h.colons
      refine ⟨k :: ks, ?_, ?_⟩
      · rw [OpenLine.noteColon, hl, hls, List.map_cons, List.cons_append]
      · rw [OpenLine.noteColon, hm, hms, List.map_cons, List.cons_append] }

theorem noteSemicolon (h : Shifted base base' l m) :
    Shifted base base' l.noteSemicolon m.noteSemicolon :=
  { h with
    semicolons := by
      obtain ⟨k, hl, hm⟩ := h.offsets
      obtain ⟨ks, hls, hms⟩ := h.semicolons
      refine ⟨k :: ks, ?_, ?_⟩
      · rw [OpenLine.noteSemicolon, hl, hls, List.map_cons, List.cons_append]
      · rw [OpenLine.noteSemicolon, hm, hms, List.map_cons, List.cons_append] }

/-- The only colon stands as far behind the one place as behind the other. -/
theorem colons_singleton {k : Nat} (h : Shifted base base' l m) (hbase : base.colons = [])
    (hbase' : base'.colons = []) (hl : l.colons = [k + base.offset]) :
    m.colons = [k + base'.offset] := by
  obtain ⟨ks, hls, hms⟩ := h.colons
  rw [hl, hbase, List.append_nil] at hls
  obtain ⟨j, rfl⟩ : ∃ j, ks = [j] := by
    have hlen := congrArg List.length hls
    rw [List.length_map] at hlen
    exact List.length_eq_one_iff.mp hlen.symm
  have hj : k + base.offset = j + base.offset := (List.cons.inj hls).1
  rw [hms, hbase', List.append_nil, Nat.add_right_cancel hj]
  rfl

theorem opensFormat (h : Shifted base base' l m) (hmarks : SameMarks base base') :
    m.opensFormat = l.opensFormat := by
  obtain ⟨d, hl, hm⟩ := h.text
  have heq : ∀ l : OpenLine, l.opensFormat = formatMark l.behind := fun _ => rfl
  rw [heq, heq, hl, hm, hmarks d]

theorem not_droppable (h : Shifted base base' l m) (hl : ¬l.Droppable) : ¬m.Droppable := by
  rintro ⟨hearlier, hinString, hblank⟩
  obtain ⟨hearlier', hcurrent, hinString'⟩ := h.physical hearlier
  exact hl ⟨hearlier', hinString'.symm.trans hinString, hcurrent ▸ hblank⟩

theorem stringStep {quote : Char} {triple format : Bool} (h : Shifted base base' l m)
    (hstep : StringStep l quote triple format c next l₁) :
    ∃ m₁, StringStep m quote triple format c next m₁ ∧ Shifted base base' l₁ m₁ := by
  cases hstep with
  | loneEscape hc hnext => exact ⟨_, .loneEscape hc hnext, h.push c⟩
  | escapedBreak hc hnext =>
    exact ⟨_, .escapedBreak hc hnext, ((h.push c).breakLine true).passing 1⟩
  | escape e hc hnext he => exact ⟨_, .escape e hc hnext he, ((h.push c).push e).passing 1⟩
  | broken hc ht => exact ⟨_, .broken hc ht, h.breakLine true⟩
  | closed hc h1 h2 ht => exact ⟨_, .closed hc h1 h2 ht, (h.push c).leave⟩
  | closedTriple hc h1 h2 ht hnext =>
    exact ⟨_, .closedTriple hc h1 h2 ht hnext, (((h.push c).push c).push c).leave.passing 2⟩
  | inner hc h1 h2 ht hnext => exact ⟨_, .inner hc h1 h2 ht hnext, h.push c⟩
  | doubled hc h1 hf hnext => exact ⟨_, .doubled hc h1 hf hnext, ((h.push c).push c).passing 1⟩
  | field hc h1 hf hnext => exact ⟨_, .field hc h1 hf hnext, (h.push c).enter .field⟩
  | plain h1 h2 h3 h4 => exact ⟨_, .plain h1 h2 h3 h4, h.push c⟩

theorem codeStep (h : Shifted base base' l m) (hmarks : SameMarks base base')
    (hkept : c = '\n' → ¬l.Droppable) (hstep : CodeStep l line c next l₁) :
    ∃ m₁, CodeStep m line c next m₁ ∧ Shifted base base' l₁ m₁ := by
  -- Both lines have the same constructs open, so they agree on the step. Only a continuation line
  -- that could be dropped, and a string whose prefix decides its kind, look further behind.
  have hnil : l.frames = [] → m.frames = [] := fun hf => h.frames.trans hf
  cases hstep with
  | remark hc hf => exact ⟨_, .remark hc (h.frames ▸ hf), h.remarking true⟩
  | joined hc hnext => exact ⟨_, .joined hc hnext, ((h.push c).breakLine false).passing 1⟩
  | broken hc =>
    refine ⟨_, .broken hc, ?_⟩
    rw [continueLine_of_not_droppable (hkept hc),
      continueLine_of_not_droppable (h.not_droppable (hkept hc))]
    exact h.breakLine false
  | opened hc => exact ⟨_, .opened hc, (h.enter _).push c⟩
  | closed frames hc hclose =>
    exact ⟨_, .closed frames hc (h.frames ▸ hclose), (h.reframed frames).push c⟩
  | quote hc hnext =>
    refine ⟨_, .quote hc hnext, ?_⟩
    rw [h.opensFormat hmarks]
    exact (h.enter _).push c
  | quoteTriple hc hnext =>
    refine ⟨_, .quoteTriple hc hnext, ?_⟩
    rw [h.opensFormat hmarks]
    exact ((((h.enter _).push c).push c).push c).passing 2
  | colon hc hf hnext => exact ⟨_, .colon hc (hnil hf) hnext, h.noteColon.push c⟩
  | semicolon hc hf => exact ⟨_, .semicolon hc (hnil hf), h.noteSemicolon.push c⟩
  | plain h1 h2 h3 h4 h5 h6 h7 h8 =>
    rw [← h.frames] at h1 h7 h8
    exact ⟨_, .plain h1 h2 h3 h4 h5 h6 h7 h8, h.push c⟩

end Shifted

/-- A step that keeps its characters can be taken by a line that began elsewhere. -/
theorem Keeps.shifted (h : Keeps l line c next l₁) (hm : Shifted base base' l m)
    (hmarks : SameMarks base base') :
    ∃ m₁, Keeps m line c next m₁ ∧ Shifted base base' l₁ m₁ := by
  have hcode : m.inCode = l.inCode := by rw [OpenLine.inCode, OpenLine.inCode, hm.frames]
  -- the step is the same one, since nothing that it looks at differs
  have hgrows : ∃ m₁, Grows m line c next m₁ ∧ Shifted base base' l₁ m₁ := by
    cases h.grows with
    | taken k hk => exact absurd (h.skip.symm.trans hk) (by simp)
    | string quote triple format opened outer _ h0 hf hstep =>
      obtain ⟨m₁, hstep', hm₁⟩ := hm.stringStep hstep
      exact ⟨m₁, .string quote triple format opened outer m₁ (hm.skip.trans h0)
        (hm.frames.trans hf) hstep', hm₁⟩
    | comment h0 hin hcomment hc =>
      exact ⟨m, .comment (hm.skip.trans h0) (hcode.trans hin) (hm.comment.trans hcomment) hc, hm⟩
    | code _ h0 hin hcomment hstep =>
      have hkept : c = '\n' → ¬(l.remarking false).Droppable := by
        rintro rfl
        exact (h.breaks hin).2
      obtain ⟨m₁, hstep', hm₁⟩ := (hm.remarking false).codeStep hmarks hkept hstep
      exact ⟨m₁, .code m₁ (hm.skip.trans h0) (hcode.trans hin)
        (fun h => hcomment (hm.comment.symm.trans h)) hstep', hm₁⟩
  obtain ⟨m₁, hgrow, hm₁⟩ := hgrows
  refine ⟨m₁, ⟨hm.skip.trans h.skip, ?_, hgrow, hm₁.comment.trans h.comment, ?_⟩, hm₁⟩
  · rintro ⟨-, hframes, hc⟩
    exact h.goes ⟨h.skip, hm.frames.symm.trans hframes, hc⟩
  · obtain ⟨d, hl, hd⟩ := hm.text
    obtain ⟨d₁, hl₁, hd₁⟩ := hm₁.text
    have htext := h.text
    rw [hl, hl₁, ← List.cons_append, ← List.append_assoc] at htext
    rw [hd, hd₁, hm₁.skip, List.append_cancel_right htext, List.append_assoc, List.cons_append]

theorem Copies.shifted (h : Copies after l s l') (hm : Shifted base base' l m)
    (hmarks : SameMarks base base') :
    ∃ m', Copies after m s m' ∧ Shifted base base' l' m' := by
  induction h generalizing m with
  | nil => exact ⟨m, .nil m, hm⟩
  | taken k hk _ ih =>
    obtain ⟨m', hcopies, hm'⟩ := ih (hm.passing k)
    exact ⟨m', .taken k (hm.skip.trans hk) hcopies, hm'⟩
  | kept line hkeeps _ ih =>
    obtain ⟨m₁, hkeeps', hm₁⟩ := hkeeps.shifted hm hmarks
    obtain ⟨m', hcopies, hm'⟩ := ih hm₁
    exact ⟨m', .kept line hkeeps' hcopies, hm'⟩

/-- No name stands at the place, or the start of a text: a string mark is looked for no further. -/
theorem Fresh.sameMarks (h : Fresh base) (h' : base'.behind = []) : SameMarks base base' := by
  -- looking back, a name stops at the place at the latest
  have hstop : ∀ d, (d ++ base.behind).takeWhile Text.isWordChar = d.takeWhile Text.isWordChar := by
    intro d
    induction d with
    | nil =>
      cases hb : base.behind with
      | nil => rfl
      | cons c b =>
        rw [List.nil_append, List.takeWhile_cons, h.mark c (by rw [hb]; rfl)]
        rfl
    | cons c d ih => rw [List.cons_append, List.takeWhile_cons, List.takeWhile_cons, ih]
  intro d
  rw [formatMark, formatMark, hstop, h', List.append_nil]

/-! ## Stretches as texts of their own -/

theorem Copies.scans (h : Copies after l s l') (line : Nat) (hm : m.unplaced = l.unplaced) :
    ∃ m', Scans after line m s m' ∧ m'.unplaced = l'.unplaced := by
  induction h generalizing m line with
  | nil => exact ⟨m, .nil _ _, hm⟩
  | @taken l l' c s k hk _ ih =>
    have hsame : m.unplaced.skip = l.unplaced.skip := congrArg OpenLine.skip hm
    have hskip : m.skip = k + 1 := hsame.trans hk
    obtain ⟨m', hscan, hm'⟩ := ih (lineAfter line c) (m := m.passing k)
      (congrArg (OpenLine.passing · k) hm)
    refine ⟨m', .cons (fun hends => ?_) (.taken k hskip) hscan, hm'⟩
    exact absurd (hends.1.symm.trans hskip) (by simp)
  | @kept l l₁ l' c s line' hkeeps _ ih =>
    obtain ⟨m₁, hgrow, hm₁⟩ := hkeeps.grows.elsewhere hm line
    obtain ⟨m', hscan, hm'⟩ := ih (lineAfter line c) hm₁
    refine ⟨m', .cons (fun hends => hkeeps.goes ?_) hgrow hscan, hm'⟩
    have hframes : m.unplaced.frames = l.unplaced.frames := congrArg OpenLine.frames hm
    refine ⟨hkeeps.skip, ?_, hends.2.2⟩
    rw [← frames_unplaced_eq_nil, ← hframes, frames_unplaced_eq_nil]
    exact hends.2.1

/-- A text that takes the reader from the start of a line to a place where nothing is open is a
logical line by itself. -/
theorem oneLine_of_copies {x : List Char} {f : OpenLine} {column : Nat}
    (h : Copies [] (.start line column) x f) (hf : f.skip = 0 ∧ f.frames = [])
    (hopens : ∃ c s, x = c :: s ∧ Opens c) (hlast : ∀ c ∈ x.getLast?, Text.isBlank c = false)
    (hbreaks : ¬['\r', '\n'] <:+: x) :
    OneLine x (alone x) ∧ (alone x).colons = f.colons.reverse ∧
      (alone x).semicolons = f.semicolons.reverse := by
  obtain ⟨f', hscan, hsame⟩ := h.scans 1 (m := .start 1 0) rfl
  obtain ⟨c, s, rfl, hc⟩ := hopens
  have hframes : f'.unplaced.frames = f.unplaced.frames := congrArg OpenLine.frames hsame
  have hbehind : f'.unplaced.behind = f.unplaced.behind := congrArg OpenLine.behind hsame
  have hcolons : f'.unplaced.colons = f.unplaced.colons := congrArg OpenLine.colons hsame
  have hsemicolons : f'.unplaced.semicolons = f.unplaced.semicolons :=
    congrArg OpenLine.semicolons hsame
  have hone : OneLine (c :: s) f'.finish := by
    refine .of_scans hc ((Text.unifyBreaks_eq_self_iff _).mpr hbreaks) hscan ?_ ?_
    · rw [← frames_unplaced_eq_nil, hframes, frames_unplaced_eq_nil]
      exact hf.2
    · rw [show f'.behind = f.behind from hbehind, h.text_of_skip rfl hf.1]
      simp only [OpenLine.start, OpenLine.behind, List.append_nil, List.reverse_reverse]
      exact Text.trimEnd_eq_self hlast
  rw [hone.eq_alone]
  exact ⟨hone, congrArg List.reverse hcolons, congrArg List.reverse hsemicolons⟩

/-- A stretch between two places where nothing is open is a row. -/
theorem rowText_of_copies {x : List Char} {f : OpenLine} (h : Copies after l x f) (hl : Fresh l)
    (hf : f.frames = []) (ha : Inert after) (hopens : ∃ c s, x = c :: s ∧ Opens c)
    (hlast : ∀ c ∈ x.getLast?, Text.isBlank c = false) (hslash : x.getLast? ≠ some '\\')
    (hbreaks : ¬['\r', '\n'] <:+: x) :
    RowText x ∧ f.colons = ((alone x).colons.reverse).map (· + l.offset) ++ l.colons ∧
      f.semicolons = ((alone x).semicolons.reverse).map (· + l.offset) ++ l.semicolons := by
  have hskip := h.skip_eq_zero hl.proper hl.skip hf hslash ha
  -- without what follows it, then from the start of a line on
  have halone : Copies [] l x f := h.congr hl.proper hskip (fun h => absurd h hslash) ha .nil
  obtain ⟨f', hcopies, hshift⟩ :=
    halone.shifted (Shifted.refl hl.toBare (.start 1 0) rfl) (hl.sameMarks rfl)
  obtain ⟨hone, hcolons, hsemicolons⟩ := oneLine_of_copies hcopies
    ⟨hshift.skip.trans hskip, hshift.frames.trans hf⟩ hopens hlast hbreaks
  have hzero : ∀ ks : List Nat, ks.map (· + (OpenLine.start 1 0).offset) ++ [] = ks := by
    intro ks
    rw [List.append_nil]
    exact List.map_id ks
  refine ⟨⟨hone, hslash⟩, ?_, ?_⟩
  · obtain ⟨ks, hl, hm⟩ := hshift.colons
    rw [hl, hcolons, hm, List.reverse_reverse]
    exact congrArg (fun ks : List Nat => ks.map (· + _) ++ _) (hzero ks).symm
  · obtain ⟨ks, hl, hm⟩ := hshift.semicolons
    rw [hl, hsemicolons, hm, List.reverse_reverse]
    exact congrArg (fun ks : List Nat => ks.map (· + _) ++ _) (hzero ks).symm

end StepTrace.Python

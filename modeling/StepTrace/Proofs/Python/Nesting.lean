import StepTrace.Proofs.Python.Slices

/-!
# Brackets and strings that close

`Whole` is the grammar of code in which every bracket and every string is closed, `Quoted` that of
what stands in a string, told without the reader. A text that the reader gets through from the start
of a line to a place where nothing is open is such code (`Copies.whole`). `Closes` is what holds on
the way: the rest of the text closes what is open, the innermost first.
-/

set_option autoImplicit false

namespace StepTrace.Python

/-- Whether a character opens or closes brackets or strings. -/
def isDelimiter (c : Char) : Bool := "()[]\x7b\x7d\x27\x22".toList.contains c

/-- The quotes that a string opens and closes with. -/
def quotesOf (quote : Char) (triple : Bool) : List Char :=
  if triple then [quote, quote, quote] else [quote]

mutual

/-- Code in which every bracket and string is closed, behind some text, the last character first. A
number sign begins no comment right in a replacement field. -/
inductive Whole : Bool → List Char → List Char → Prop
  | nil {field : Bool} {behind : List Char} : Whole field behind []
  | sign {field : Bool} {behind s : List Char} {c : Char} : isDelimiter c = false →
      (c = '#' → field = true) → Whole field (c :: behind) s → Whole field behind (c :: s)
  | group {field : Bool} {behind inside s : List Char} {opener : Char} :
      opener = '(' ∨ opener = '[' ∨ opener = '\x7b' → Whole false (opener :: behind) inside →
      Whole field (closerOf opener :: (inside.reverse ++ opener :: behind)) s →
      Whole field behind (opener :: (inside ++ closerOf opener :: s))
  | string {field triple : Bool} {behind body s : List Char} {quote : Char} :
      quote = '\x27' ∨ quote = '\x22' →
      (triple = false → (body ++ quote :: s).take 2 ≠ [quote, quote]) →
      Quoted quote triple (formatMark behind) (quotesOf quote triple ++ behind) body →
      Whole field (quotesOf quote triple ++ (body.reverse ++ (quotesOf quote triple ++ behind))) s →
      Whole field behind (quotesOf quote triple ++ (body ++ (quotesOf quote triple ++ s)))

/-- What stands in a string up to its closing quotes. In a formatted string replacement fields
are code. -/
inductive Quoted : Char → Bool → Bool → List Char → List Char → Prop
  | nil {quote : Char} {triple format : Bool} {behind : List Char} :
      Quoted quote triple format behind []
  | escape {quote c : Char} {triple format : Bool} {behind s : List Char} :
      Quoted quote triple format (c :: '\\' :: behind) s →
      Quoted quote triple format behind ('\\' :: c :: s)
  | char {quote c : Char} {triple format : Bool} {behind s : List Char} : c ≠ '\\' → c ≠ quote →
      (c = '\n' → triple = true) → (c = '\x7b' → format = false) →
      Quoted quote triple format (c :: behind) s → Quoted quote triple format behind (c :: s)
  | quote {quote : Char} {triple format : Bool} {behind s : List Char} : triple = true →
      (s ++ quotesOf quote triple).take 2 ≠ [quote, quote] →
      Quoted quote triple format (quote :: behind) s →
      Quoted quote triple format behind (quote :: s)
  | doubled {quote : Char} {triple format : Bool} {behind s : List Char} : format = true →
      Quoted quote triple format ('\x7b' :: '\x7b' :: behind) s →
      Quoted quote triple format behind ('\x7b' :: '\x7b' :: s)
  | field {quote : Char} {triple format : Bool} {behind inside s : List Char} : format = true →
      inside.head? ≠ some '\x7b' → Whole true ('\x7b' :: behind) inside →
      Quoted quote triple format ('\x7d' :: (inside.reverse ++ '\x7b' :: behind)) s →
      Quoted quote triple format behind ('\x7b' :: (inside ++ '\x7d' :: s))

end

/-! ## What is open -/

/-- What closes a construct. -/
def Frame.closer : Frame → List Char
  | .bracket opener _ => [closerOf opener]
  | .string quote triple _ _ => quotesOf quote triple
  | .field => ['\x7d']

theorem closer_ne_nil (f : Frame) : f.closer ≠ [] := by
  cases f with
  | string quote triple format line => cases triple <;> exact List.cons_ne_nil _ _
  | _ => exact List.cons_ne_nil _ _

/-- What may stand where some constructs are open. -/
def Contains : List Frame → List Char → List Char → Prop
  | [] => Whole false
  | .bracket _ _ :: _ => Whole false
  | .string quote triple format _ :: _ => Quoted quote triple format
  | .field :: _ => Whole true

/-- A text closes the constructs that are open, the innermost first, and all that it opens itself.
-/
def Closes : List Frame → List Char → List Char → Prop
  | [], behind, s => Whole false behind s
  | f :: outer, behind, s => ∃ inside rest, s = inside ++ (f.closer ++ rest) ∧
      Contains (f :: outer) behind inside ∧
      Closes outer (f.closer.reverse ++ (inside.reverse ++ behind)) rest

/-- What closes the innermost construct. -/
def closing (frames : List Frame) : List Char := (frames.head?.map Frame.closer).getD []

variable {l l₁ l' : OpenLine} {line : Nat} {c : Char} {s t x behind next after : List Char}
  {frames outer : List Frame} {f : Frame}

/-- A part before the rest of a text goes to what stands in the innermost construct. -/
theorem Closes.prepend (h : Closes frames (x.reverse ++ behind) s)
    (hx : ∀ s', s' ++ closing frames <+: s → Contains frames (x.reverse ++ behind) s' →
      Contains frames behind (x ++ s')) : Closes frames behind (x ++ s) := by
  cases frames with
  | nil => exact hx s (by rw [closing]; simp) h
  | cons f outer =>
    obtain ⟨inside, rest, rfl, hinside, hrest⟩ := h
    refine ⟨x ++ inside, rest, by rw [List.append_assoc], hx inside ?_ hinside, ?_⟩
    · exact ⟨rest, by rw [← List.append_assoc]; rfl⟩
    · rwa [List.reverse_append, List.append_assoc]

/-- A construct that opens, and what stands in it, go to what stands in the one around it. -/
theorem Closes.enclose (h : Closes (f :: frames) (x.reverse ++ behind) s)
    (hx : ∀ inside s', inside ++ (f.closer ++ s') ++ closing frames <+: s →
      Contains (f :: frames) (x.reverse ++ behind) inside →
      Contains frames (f.closer.reverse ++ (inside.reverse ++ (x.reverse ++ behind))) s' →
      Contains frames behind (x ++ (inside ++ (f.closer ++ s')))) :
    Closes frames behind (x ++ s) := by
  obtain ⟨inside, rest, rfl, hinside, hrest⟩ := h
  -- up to its end the construct is one more part of what is around it
  have hbehind : f.closer.reverse ++ (inside.reverse ++ (x.reverse ++ behind)) =
      (x ++ (inside ++ f.closer)).reverse ++ behind := by simp
  have hassoc : ∀ s', x ++ (inside ++ (f.closer ++ s')) = x ++ (inside ++ f.closer) ++ s' := by
    simp
  rw [hbehind] at hrest
  rw [hassoc]
  refine hrest.prepend fun s' hs' hcontains => ?_
  rw [← hbehind] at hcontains
  rw [← hassoc]
  refine hx inside s' ?_ hinside hcontains
  rw [List.append_assoc, List.append_assoc]
  exact (List.prefix_append_right_inj inside).mpr ((List.prefix_append_right_inj _).mpr hs')

/-- Where the innermost construct is closed, those around it go on. -/
theorem Closes.close (hnil : Contains (f :: outer) behind [])
    (h : Closes outer (f.closer.reverse ++ behind) s) :
    Closes (f :: outer) behind (f.closer ++ s) :=
  ⟨[], s, rfl, hnil, h⟩

/-- Whether the innermost construct is a replacement field. -/
def inField (frames : List Frame) : Bool := frames.head? == some .field

theorem contains_of_inCode (h : l.inCode = true) :
    Contains l.frames = Whole (inField l.frames) := by
  rcases hframes : l.frames with _ | ⟨_ | _ | _, outer⟩
  · rfl
  · rfl
  · simp [OpenLine.inCode, hframes, Frame.isString] at h
  · rfl

theorem take_two_of_isPrefix {d : Char} (h : s <+: t) (hs : s.take 2 = [d, d]) :
    t.take 2 = [d, d] := by
  obtain ⟨rest, rfl⟩ := h
  have hlen := congrArg List.length hs
  rw [List.length_take] at hlen
  rw [List.take_append_of_le_length (by simp at hlen; omega), hs]

/-! ## Steps -/

/-- A step in a string, before a text that closes what is open behind it. -/
theorem closes_of_stringStep {quote : Char} {triple format : Bool} {opened : Nat}
    (hf : l.frames = .string quote triple format opened :: outer)
    (hquote : quote = '\x27' ∨ quote = '\x22') (h0 : l.skip = 0)
    (hstep : StringStep l quote triple format c (t ++ (s ++ after)) l₁)
    (hskip : l₁.skip = t.length) (h : Closes l₁.frames ((c :: t).reverse ++ behind) s) :
    Closes l.frames behind (c :: t ++ s) := by
  have htaken : (t ++ (s ++ after)).take l₁.skip = t := by rw [hskip, List.take_left]
  have hinner : l₁.frames = l.frames → (∀ s', s' ++ quotesOf quote triple <+: s →
      Quoted quote triple format ((c :: t).reverse ++ behind) s' →
      Quoted quote triple format behind (c :: t ++ s')) → Closes l.frames behind (c :: t ++ s) := by
    intro hframes hx
    rw [hframes] at h
    refine h.prepend ?_
    rw [hf]
    exact hx
  -- the quotes of a string are read alike forwards and backwards
  have hclosed : c :: t = quotesOf quote triple → l₁.frames = outer →
      Closes l.frames behind (c :: t ++ s) := by
    intro htext hframes
    rw [htext, hframes] at h
    rw [htext, hf]
    exact Closes.close .nil h
  cases hstep with
  | loneEscape hc hnext =>
    -- nothing is left that could close the string
    obtain ⟨rfl, hrest⟩ := List.append_eq_nil_iff.mp hnext
    obtain ⟨rfl, -⟩ := List.append_eq_nil_iff.mp hrest
    rw [OpenLine.frames_push, hf] at h
    obtain ⟨inside, rest, htext, -⟩ := h
    obtain ⟨-, hrest⟩ := List.append_eq_nil_iff.mp htext.symm
    exact absurd (List.append_eq_nil_iff.mp hrest).1 (closer_ne_nil _)
  | escapedBreak hc hnext =>
    obtain rfl : t = ['\n'] := htaken.symm.trans (take_head hnext)
    subst hc
    exact hinner rfl fun s' _ => .escape
  | escape e hc hnext he =>
    obtain rfl : t = [e] := htaken.symm.trans (take_head hnext)
    subst hc
    exact hinner rfl fun s' _ => .escape
  | broken hc ht =>
    rw [OpenLine.skip_breakLine, h0, List.take_zero] at htaken
    subst htaken hc
    refine hinner rfl fun s' _ => .char (by decide) ?_ (fun _ => ht) (fun h => absurd h (by decide))
    rcases hquote with rfl | rfl <;> decide
  | closed hc h1 h2 ht =>
    rw [OpenLine.skip_leave, OpenLine.skip_push, h0, List.take_zero] at htaken
    subst htaken hc ht
    exact hclosed rfl (congrArg List.tail hf)
  | closedTriple hc h1 h2 ht hnext =>
    obtain rfl : t = [c, c] := htaken.symm.trans hnext
    subst hc ht
    exact hclosed rfl (congrArg List.tail hf)
  | inner hc h1 h2 ht hnext =>
    rw [OpenLine.skip_push, h0, List.take_zero] at htaken
    subst htaken hc
    refine hinner rfl fun s' hs' => .quote ht fun htwo => hnext ?_
    exact take_two_of_isPrefix (hs'.trans (List.prefix_append s after)) htwo
  | doubled hc h1 hfmt hnext =>
    obtain rfl : t = ['\x7b'] := htaken.symm.trans (take_head hnext)
    subst hc
    exact hinner rfl fun s' _ => .doubled hfmt
  | field hc h1 hfmt hnext =>
    rw [OpenLine.skip_enter, OpenLine.skip_push, h0, List.take_zero] at htaken
    subst htaken hc
    rw [OpenLine.frames_enter, OpenLine.frames_push] at h
    refine h.enclose ?_
    rw [hf]
    intro inside s' hs' hinside
    refine .field hfmt (fun hhead => hnext ?_) hinside
    obtain ⟨inside, rfl⟩ := List.head?_eq_some_iff.mp hhead
    obtain ⟨rest, rfl⟩ := hs'
    rfl
  | plain h1 h2 h3 h4 =>
    rw [OpenLine.skip_push, h0, List.take_zero] at htaken
    subst htaken
    refine hinner rfl fun s' _ => .char h1 h3 (fun h => absurd h h2) fun hc => ?_
    exact Bool.eq_false_iff.mpr fun hfmt => h4 ⟨hc, hfmt⟩

theorem isDelimiter_eq_false (hopener : ¬(c = '(' ∨ c = '[' ∨ c = '\x7b'))
    (hcloser : ¬(c = ')' ∨ c = ']' ∨ c = '\x7d')) (hquote : ¬(c = '\x27' ∨ c = '\x22')) :
    isDelimiter c = false := by
  rw [isDelimiter, Bool.eq_false_iff, ne_eq, List.contains_iff_mem]
  simp only [String.reduceToList, List.mem_cons, List.not_mem_nil, or_false]
  tauto

/-- A step in code, before a text that closes what is open behind it. -/
theorem closes_of_codeStep (hcode : l.inCode = true) (h0 : l.skip = 0)
    (hbehind : l.behind = behind) (hstep : CodeStep l line c (t ++ (s ++ after)) l₁)
    (hcomment : l₁.comment = false) (hskip : l₁.skip = t.length)
    (h : Closes l₁.frames ((c :: t).reverse ++ behind) s) :
    Closes l.frames behind (c :: t ++ s) := by
  have htaken : (t ++ (s ++ after)).take l₁.skip = t := by rw [hskip, List.take_left]
  have hcontains := contains_of_inCode hcode
  -- a character that opens and closes nothing goes to what is around it
  have hsign : l₁.frames = l.frames → t = [] → isDelimiter c = false →
      (c = '#' → inField l.frames = true) → Closes l.frames behind (c :: t ++ s) := by
    intro hframes ht hc hremark
    rw [hframes] at h
    subst ht
    refine h.prepend ?_
    rw [hcontains]
    exact fun s' _ => .sign hc hremark
  cases hstep with
  | remark hc hf => cases hcomment
  | joined hc hnext =>
    obtain rfl : t = ['\n'] := htaken.symm.trans (take_head hnext)
    subst hc
    have hjoined : Closes l.frames ((['\\', '\n'] : List Char).reverse ++ behind) s := h
    refine hjoined.prepend ?_
    rw [hcontains]
    exact fun s' _ hs' => .sign (by decide) (by simp) (.sign (by decide) (by simp) hs')
  | broken hc =>
    rw [skip_continueLine, h0, List.take_zero] at htaken
    subst hc
    exact hsign (frames_continueLine l) htaken.symm (by decide) (by simp)
  | opened hc =>
    rw [OpenLine.skip_push, OpenLine.skip_enter, h0, List.take_zero] at htaken
    subst htaken
    rw [OpenLine.frames_push, OpenLine.frames_enter] at h
    refine h.enclose ?_
    rw [hcontains]
    exact fun inside s' _ hinside => .group hc hinside
  | closed frames hc hclose =>
    rw [OpenLine.skip_push, OpenLine.skip_reframed, h0, List.take_zero] at htaken
    subst htaken
    rw [OpenLine.frames_push, OpenLine.frames_reframed] at h
    rcases closed_of_closeBracket hclose with ⟨opener, opened, hf, rfl⟩ | ⟨hf, rfl⟩ <;> rw [hf]
    · exact Closes.close .nil h
    · exact Closes.close .nil h
  | quote hc hnext =>
    rw [OpenLine.skip_push, OpenLine.skip_enter, h0, List.take_zero] at htaken
    subst htaken
    rw [OpenLine.frames_push, OpenLine.frames_enter] at h
    refine h.enclose ?_
    rw [hcontains]
    intro body s' hs' hbody hrest
    show Whole _ behind (quotesOf c false ++ (body ++ (quotesOf c false ++ s')))
    -- two more quotes would have made it a triple one, and the rest of the line is still there
    refine .string hc (fun _ htwo => hnext ?_) (hbehind ▸ hbody) hrest
    refine take_two_of_isPrefix ?_ htwo
    exact ((List.prefix_append _ _).trans hs').trans (List.prefix_append s after)
  | quoteTriple hc hnext =>
    obtain rfl : t = [c, c] := htaken.symm.trans hnext
    rw [OpenLine.frames_passing, OpenLine.frames_push, OpenLine.frames_push, OpenLine.frames_push,
      OpenLine.frames_enter] at h
    refine h.enclose ?_
    rw [hcontains]
    intro body s' hs' hbody hrest
    show Whole _ behind (quotesOf c true ++ (body ++ (quotesOf c true ++ s')))
    exact .string hc (fun h => by cases h) (hbehind ▸ hbody) hrest
  | colon hc hf hnext =>
    rw [OpenLine.skip_push, OpenLine.skip_noteColon, h0, List.take_zero] at htaken
    subst hc
    exact hsign rfl htaken.symm (by decide) (by simp)
  | semicolon hc hf =>
    rw [OpenLine.skip_push, OpenLine.skip_noteSemicolon, h0, List.take_zero] at htaken
    subst hc
    exact hsign rfl htaken.symm (by decide) (by simp)
  | plain h1 h2 h3 h4 h5 h6 h7 h8 =>
    rw [OpenLine.skip_push, h0, List.take_zero] at htaken
    refine hsign rfl htaken.symm (isDelimiter_eq_false h4 h5 h6) fun hc => ?_
    -- a number sign that begins no comment stands right in a field
    by_contra hfield
    exact h1 ⟨hc, fun hf => hfield (by rw [inField, hf]; rfl)⟩

/-- A step that keeps its characters, before a text that closes what is open behind it. -/
theorem Keeps.closes (h : Keeps l line c (t ++ (s ++ after)) l₁) (hl : Proper l.frames)
    (hskip : l₁.skip = t.length) (hcloses : Closes l₁.frames l₁.behind s) :
    Closes l.frames l.behind (c :: t ++ s) := by
  have hbehind : l₁.behind = (c :: t).reverse ++ l.behind := by
    rw [h.text, hskip, List.take_left, List.reverse_cons, List.append_assoc]
    rfl
  rw [hbehind] at hcloses
  cases h.grows with
  | taken k hk => exact absurd (h.skip.symm.trans hk) (by simp)
  | string quote triple format opened outer _ h0 hf hstep =>
    have hquote := hl.2 quote triple format opened (by simp [hf])
    exact closes_of_stringStep hf hquote h0 hstep hskip hcloses
  | comment _ _ hcomment => exact absurd (h.comment.symm.trans hcomment) (by simp)
  | code _ h0 hcode _ hstep =>
    exact closes_of_codeStep (l := l.remarking false) hcode h0 rfl hstep h.comment hskip hcloses

/-- A text that the reader gets through to a place where nothing is open closes what was open. -/
theorem Copies.closes (h : Copies after l s l') (hl : Proper l.frames) (hskip : l'.skip = 0)
    (hframes : l'.frames = []) : Closes l.frames l.behind (s.drop l.skip) := by
  -- backwards over the course, since what a step opens is closed only behind it
  induction h with
  | nil l =>
    rw [hframes, List.drop_nil]
    exact .nil
  | @taken l l' c s k hk _ ih =>
    rw [hk, List.drop_succ_cons]
    exact ih hl hskip hframes
  | @kept l l₁ l' c s line hkeeps hrest ih =>
    have hlen : l₁.skip ≤ s.length := by
      have hle := hrest.skip_le
      rwa [hskip, Nat.add_zero] at hle
    have hsplit : s.take l₁.skip ++ s.drop l₁.skip = s := List.take_append_drop _ _
    have hcloses := ih (hkeeps.grows.proper hl) hskip hframes
    rw [← hsplit, List.append_assoc] at hkeeps
    have hstep := hkeeps.closes hl (List.length_take_of_le hlen).symm hcloses
    rw [List.cons_append, hsplit] at hstep
    rwa [hkeeps.skip, List.drop_zero]

/-- What the reader gets through from the start of a line to a place where nothing is open is code
in which every bracket and string is closed. -/
theorem Copies.whole {column : Nat} (h : Copies after (.start line column) s l')
    (hskip : l'.skip = 0) (hframes : l'.frames = []) : Whole false [] s :=
  h.closes .nil hskip hframes

end StepTrace.Python

import StepTrace.Proofs.Posix.Comments
import StepTrace.Proofs.Posix.Markers
import StepTrace.Proofs.Posix.Passages

/-!
# Headers of functions

A shell takes a function's header in several spellings, with the keyword or without, with
parentheses or without, with any blanks between (`FunctionHeader`). The body may begin on the next
line of code. The scan knows that it has to follow only by the two parentheses at the end of the
header, so a marker is kept out between header and body exactly if the two stand together
(`marker_before_body_iff`); behind the other spellings one is put (`marker_in_function`).
-/

set_option autoImplicit false

namespace StepTrace.Posix

/-! ## Text with a pair of parentheses -/

namespace LineScan

/-- A pair of parentheses in text without signs is passed at any depth. -/
theorem run_of_pair {before inner after : List Char} (hbefore : ∀ c ∈ before, c ∉ bareSigns)
    (hinner : ∀ c ∈ inner, c ∉ bareSigns) (hafter : ∀ c ∈ after, c ∉ bareSigns) (parens : Nat)
    (heredocs : List Delimiter) :
    ∃ q, (start .bare parens heredocs).run (before ++ '(' :: (inner ++ ')' :: after)) =
      (start .bare parens heredocs).past q := by
  obtain ⟨p, hp⟩ := run_of_plain hbefore parens heredocs ('(' :: (inner ++ ')' :: after)) ' '
  obtain ⟨q, hq⟩ := run_of_plain hinner (parens + 1) heredocs (')' :: after) '('
  obtain ⟨r, hr⟩ := run_of_plain hafter parens heredocs [] ')'
  have hopen : ((start .bare parens heredocs).past p).step '(' (inner ++ ')' :: after) =
      (start .bare (parens + 1) heredocs).past '(' := by
    simp [step, stepQuoted, stepBare, start, past]
  have hclose : ((start .bare (parens + 1) heredocs).past q).step ')' after =
      (start .bare parens heredocs).past ')' := by
    simp [step, stepQuoted, stepBare, start, past]
  refine ⟨r, ?_⟩
  calc (start .bare parens heredocs).run (before ++ '(' :: (inner ++ ')' :: after))
      = ((start .bare parens heredocs).past p).run ('(' :: (inner ++ ')' :: after)) := hp
    _ = ((start .bare (parens + 1) heredocs).past '(').run (inner ++ ')' :: after) := by
        rw [run, hopen]
    _ = ((start .bare (parens + 1) heredocs).past q).run (')' :: after) := hq
    _ = ((start .bare parens heredocs).past ')').run (after ++ []) := by
        rw [run, hclose, List.append_nil]
    _ = (start .bare parens heredocs).past r := hr

end LineScan

/-! ## The spellings of a header -/

/-- The signs that are no part of a name. -/
def nameSigns : List Char :=
  ['\\', '\x27', '\x22', '#', '(', ')', '<', '>', ';', '|', '&', '$', '\x60']

/-- A word that names a function. -/
structure IsName (name : List Char) : Prop where
  ne_nil : name ≠ []
  letters : name.all (fun c => !Text.isBlank c && !nameSigns.contains c) = true

namespace IsName

variable {name : List Char} {c : Char}

theorem letter (h : IsName name) (hc : c ∈ name) : Text.isBlank c = false ∧ c ∉ nameSigns := by
  simpa using List.all_eq_true.mp h.letters c hc

end IsName

/-- A line that consists of the header of a function. -/
structure FunctionHeader where
  indent : List Char
  /-- The blanks behind the keyword, if the header begins with it. -/
  keyword : Option (List Char)
  name : List Char
  /-- The blanks before and between the parentheses, if the header has them. -/
  parens : Option (List Char × List Char)
  trail : List Char
  indent_blank : Text.allBlank indent = true
  keyword_blank : ∀ gap ∈ keyword, gap ≠ [] ∧ Text.allBlank gap = true
  isName : IsName name
  parens_blank : ∀ p ∈ parens, Text.allBlank p.1 = true ∧ Text.allBlank p.2 = true
  trail_blank : Text.allBlank trail = true
  /-- A name alone is a command. -/
  isHeader : keyword.isSome = true ∨ parens.isSome = true

/-- A line whose first parenthesis opens, behind other text, is no arm. -/
theorem isCaseArm_of_opening {c : Char} {r : List Char} (hc : Text.isBlank c = false)
    (hplain : ∀ d ∈ c :: r, d ≠ '(' ∧ d ≠ ')') (s : List Char) :
    isCaseArm (c :: (r ++ '(' :: s)) = false := by
  obtain ⟨hfirst, hrest⟩ := List.forall_mem_cons.mp hplain
  have hstop : (r ++ '(' :: s).dropWhile (fun d => d != '(' && d != ')') = '(' :: s := by
    rw [List.dropWhile_append_of_pos fun d hd => by simp [hrest d hd]]
    rfl
  have htrim : Text.trimStart (c :: (r ++ '(' :: s)) = c :: (r ++ '(' :: s) :=
    List.dropWhile_cons_of_neg (by simp [hc])
  have hbegins : beginsPattern (c :: (r ++ '(' :: s)) = false := by
    rw [beginsPattern, htrim]
    · simp [hstop]
    · exact fun _ heq => hfirst.1 (List.cons.inj heq).1
  rw [isCaseArm, hbegins, Bool.false_and]

namespace FunctionHeader

variable (h : FunctionHeader)

/-- What stands before the name. -/
def lead : List Char :=
  match h.keyword with
  | none => []
  | some gap => "function".toList ++ gap

/-- The header up to its name. -/
def beginning : List Char := h.lead ++ h.name

/-- The parentheses of the header. -/
def ending : List Char :=
  match h.parens with
  | none => []
  | some (gap, inner) => gap ++ '(' :: (inner ++ [')'])

/-- The line. -/
def text : List Char := h.indent ++ (h.beginning ++ h.ending) ++ h.trail

/-- Whether the header ends in parentheses with nothing between them. -/
def isTight : Bool :=
  match h.parens with
  | some (_, []) => true
  | _ => false

/-- Up to its name the header has blanks, the letters of the keyword and those of the name. -/
theorem mem_beginning {c : Char} (hc : c ∈ h.beginning) :
    Text.isBlank c = true ∨ c ∈ "function".toList ∨ c ∈ h.name := by
  rcases List.mem_append.mp hc with hc | hc
  · rw [lead] at hc
    split at hc
    · cases hc
    · next gap hgap =>
      rcases List.mem_append.mp hc with hc | hc
      · exact .inr (.inl hc)
      · exact .inl (List.all_eq_true.mp (h.keyword_blank gap hgap).2 c hc)
  · exact .inr (.inr hc)

theorem mem_ending {c : Char} (hc : c ∈ h.ending) :
    Text.isBlank c = true ∨ c = '(' ∨ c = ')' := by
  rw [ending] at hc
  split at hc
  · cases hc
  · next gap inner hparens =>
    obtain ⟨hgap, hinner⟩ := h.parens_blank (gap, inner) hparens
    simp only [List.mem_append, List.mem_cons, List.not_mem_nil, or_false] at hc
    rcases hc with hc | hc | hc | hc
    · exact .inl (List.all_eq_true.mp hgap c hc)
    · exact .inr (.inl hc)
    · exact .inl (List.all_eq_true.mp hinner c hc)
    · exact .inr (.inr hc)

/-- A sign is neither blank nor a letter of the keyword. -/
theorem of_mem_nameSigns {c : Char} (hc : c ∈ nameSigns) :
    Text.isBlank c = false ∧ c ∉ "function".toList := by
  have hall : nameSigns.all
      (fun d => !Text.isBlank d && !"function".toList.contains d) = true := by decide
  simpa using List.all_eq_true.mp hall c hc

/-- No sign stands in a header up to its name. -/
theorem not_mem_beginning {c : Char} (hc : c ∈ nameSigns) : c ∉ h.beginning := by
  obtain ⟨hblank, hkeyword⟩ := of_mem_nameSigns hc
  intro hmem
  rcases h.mem_beginning hmem with hmem | hmem | hmem
  · rw [hblank] at hmem
    cases hmem
  · exact hkeyword hmem
  · exact (h.isName.letter hmem).2 hc

theorem not_mem_of_allBlank {s : List Char} (hs : Text.allBlank s = true) {c : Char}
    (hc : c ∈ nameSigns) : c ∉ s := by
  obtain ⟨hblank, -⟩ := of_mem_nameSigns hc
  intro hmem
  rw [List.all_eq_true.mp hs c hmem] at hblank
  cases hblank

/-- But for the parentheses no sign stands in a header. -/
theorem not_mem_text {c : Char} (hc : c ∈ nameSigns) (hopen : c ≠ '(') (hclose : c ≠ ')') :
    c ∉ h.text := by
  intro hmem
  simp only [text, List.mem_append] at hmem
  rcases hmem with (hmem | hmem | hmem) | hmem
  · exact not_mem_of_allBlank h.indent_blank hc hmem
  · exact h.not_mem_beginning hc hmem
  · rcases h.mem_ending hmem with hblank | rfl | rfl
    · rw [(of_mem_nameSigns hc).1] at hblank
      cases hblank
    · exact hopen rfl
    · exact hclose rfl
  · exact not_mem_of_allBlank h.trail_blank hc hmem

/-- A header begins with a character that is no blank. -/
theorem beginning_eq_cons : ∃ c r, h.beginning = c :: r ∧ Text.isBlank c = false := by
  obtain ⟨c, r, hname⟩ := List.exists_cons_of_ne_nil h.isName.ne_nil
  have hc := (h.isName.letter (hname ▸ List.mem_cons_self)).1
  rw [beginning, lead, hname]
  split
  · exact ⟨c, r, rfl, hc⟩
  · next gap _ => exact ⟨'f', _, rfl, by decide⟩

/-- Nor does it end with one. -/
theorem exists_concat : ∃ u c, h.beginning ++ h.ending = u ++ [c] ∧ Text.isBlank c = false := by
  rw [ending]
  split
  · have hname := List.dropLast_concat_getLast h.isName.ne_nil
    have hlast := (h.isName.letter (List.getLast_mem h.isName.ne_nil)).1
    refine ⟨h.lead ++ h.name.dropLast, h.name.getLast h.isName.ne_nil, ?_, hlast⟩
    rw [List.append_nil, beginning, List.append_assoc, hname]
  · next gap inner _ =>
    exact ⟨h.beginning ++ (gap ++ '(' :: inner), ')', by simp, by decide⟩

/-- What is trimmed off the end of a header are the blanks there. -/
theorem trimEnd_text (before : List Char) :
    Text.trimEnd (before ++ (h.beginning ++ h.ending) ++ h.trail) =
      before ++ (h.beginning ++ h.ending) := by
  obtain ⟨u, c, heq, hc⟩ := h.exists_concat
  have htrail : Text.trimEnd h.trail = [] := (Text.trimEnd_eq_nil_iff _).mpr h.trail_blank
  rw [heq, ← List.append_assoc, List.append_assoc (before ++ u), List.singleton_append,
    Text.trimEnd_append_cons hc, htrail]

theorem trim_text : Text.trim h.text = h.beginning ++ h.ending := by
  obtain ⟨c, r, hbegins, hc⟩ := h.beginning_eq_cons
  have hstart : Text.trimStart h.text = [] ++ (h.beginning ++ h.ending) ++ h.trail := by
    rw [text, List.append_assoc, Text.trimStart, List.dropWhile_append_of_pos fun d hd =>
      List.all_eq_true.mp h.indent_blank d hd, hbegins]
    exact List.dropWhile_cons_of_neg (by simp [hc])
  rw [Text.trim, hstart, trimEnd_text, List.nil_append]

/-- A header has no comment at its end. -/
theorem stripComment_text : stripComment h.text = h.text := by
  have hnone : '#' ∉ h.text := h.not_mem_text (by decide) (by decide) (by decide)
  rw [stripComment_eq, uncommented_eq_iff .bare ' ' (.inl rfl)]
  refine ⟨.inl rfl, fun u v hcut => absurd ?_ hnone⟩
  rw [hcut]
  exact List.mem_append_right u List.mem_cons_self

/-- A header ends in the two parentheses exactly if they stand together. -/
theorem pair_suffix_text : "()".toList <:+ Text.trimEnd h.text ↔ h.isTight = true := by
  rw [text, trimEnd_text, isTight, ending]
  cases hp : h.parens with
  | none =>
    refine iff_of_false (fun hmark => ?_) (by simp)
    have hmem := hmark.subset (List.mem_cons_of_mem '(' List.mem_cons_self)
    rw [List.append_nil] at hmem
    rcases List.mem_append.mp hmem with hmem | hmem
    · exact not_mem_of_allBlank h.indent_blank (by decide) hmem
    · exact h.not_mem_beginning (by decide) hmem
  | some p =>
    obtain ⟨gap, inner⟩ := p
    rcases List.eq_nil_or_concat inner with rfl | ⟨inner, d, rfl⟩
    · exact iff_of_true ⟨h.indent ++ (h.beginning ++ gap), by simp⟩ rfl
    · -- before the closing parenthesis stands a blank
      have hblank := (h.parens_blank _ hp).2
      have hd : Text.isBlank d = true := List.all_eq_true.mp hblank d (by simp)
      refine iff_of_false (fun hmark => ?_) (by cases inner <;> simp)
      obtain ⟨t, ht⟩ := hmark
      have hcut : h.indent ++ (h.beginning ++ (gap ++ '(' :: (inner.concat d ++ [')']))) =
          h.indent ++ (h.beginning ++ (gap ++ '(' :: inner)) ++ [d, ')'] := by simp
      have hsigns := List.append_inj_right' (ht.trans hcut) rfl
      obtain ⟨rfl, -⟩ := List.cons.inj hsigns
      exact absurd hd (by decide)

/-- A header is taken to ask for more exactly if its parentheses stand together: of the marks that
ask for more no other has its signs in a header. -/
theorem asksForMore_text : asksForMore h.text = h.isTight := by
  have hsuffix : ∀ mark : List Char, (∃ c ∈ mark, c ∈ nameSigns ∧ c ≠ '(' ∧ c ≠ ')') →
      mark.isSuffixOf (Text.trimEnd h.text) = false := by
    rintro mark ⟨c, hc, hsign, hopen, hclose⟩
    rw [Bool.eq_false_iff, ne_eq, List.isSuffixOf_iff_suffix]
    exact fun hmark => h.not_mem_text hsign hopen hclose
      ((Text.trimEnd_isPrefix _).subset (hmark.subset hc))
  have hpair : "()".toList.isSuffixOf (Text.trimEnd h.text) = h.isTight := by
    rw [Bool.eq_iff_iff, List.isSuffixOf_iff_suffix, h.pair_suffix_text]
  rw [asksForMore, hpair, hsuffix "|".toList ⟨'|', by decide⟩, hsuffix "&&".toList ⟨'&', by decide⟩,
    hsuffix "$()".toList ⟨'$', by decide⟩]
  simp

/-- A header is no arm of a `case` block: its first parenthesis opens. -/
theorem isCaseArm_text : isCaseArm (Text.trim h.text) = false := by
  rw [trim_text, ending]
  cases hp : h.parens with
  | none =>
    rw [List.append_nil]
    exact isCaseArm_of_not_mem (h.not_mem_beginning (by decide))
  | some p =>
    obtain ⟨gap, inner⟩ := p
    obtain ⟨c, r, hbegins, hc⟩ := h.beginning_eq_cons
    have hgap := (h.parens_blank _ hp).1
    have hplain : ∀ d ∈ c :: (r ++ gap), d ≠ '(' ∧ d ≠ ')' := by
      intro d hd
      rw [← List.cons_append, ← hbegins, List.mem_append] at hd
      constructor <;> rintro rfl
      · exact hd.elim (h.not_mem_beginning (by decide)) (not_mem_of_allBlank hgap (by decide))
      · exact hd.elim (h.not_mem_beginning (by decide)) (not_mem_of_allBlank hgap (by decide))
    have hwhole : h.beginning ++ (gap ++ '(' :: (inner ++ [')'])) =
        c :: ((r ++ gap) ++ '(' :: (inner ++ [')'])) := by simp [hbegins]
    exact hwhole ▸ isCaseArm_of_opening hc hplain _

theorem isIdle_text : isIdle (Text.trim h.text) = false := by
  obtain ⟨c, r, hbegins, -⟩ := h.beginning_eq_cons
  have hc : c ≠ '#' := by
    rintro rfl
    exact h.not_mem_beginning (c := '#') (by decide) (hbegins ▸ List.mem_cons_self)
  rw [trim_text, hbegins]
  simpa [isIdle] using hc

/-- The scan passes a header without a change to what is open. -/
theorem run_text (parens : Nat) (heredocs : List Delimiter) :
    ∃ q, (LineScan.start .bare parens heredocs).run h.text =
      (LineScan.start .bare parens heredocs).past q := by
  have hblanks : ∀ {s : List Char}, Text.allBlank s = true → ∀ c ∈ s, c ∉ LineScan.bareSigns :=
    fun hs c hc => LineScan.not_mem_bareSigns_of_isBlank (List.all_eq_true.mp hs c hc)
  have hsigns : LineScan.bareSigns ⊆ nameSigns := by decide
  have hbeginning : ∀ c ∈ h.indent ++ h.beginning, c ∉ LineScan.bareSigns :=
    List.forall_mem_append.mpr ⟨hblanks h.indent_blank,
      fun c hc hsign => h.not_mem_beginning (hsigns hsign) hc⟩
  have htrail := hblanks h.trail_blank
  cases hp : h.parens with
  | none =>
    have htext : h.text = h.indent ++ h.beginning ++ h.trail ++ [] := by
      simp [text, ending, hp]
    rw [htext]
    exact LineScan.run_of_plain (List.forall_mem_append.mpr ⟨hbeginning, htrail⟩) parens heredocs
      [] ' '
  | some p =>
    obtain ⟨gap, inner⟩ := p
    obtain ⟨hgap, hinner⟩ := h.parens_blank _ hp
    have htext : h.text = h.indent ++ h.beginning ++ gap ++ '(' :: (inner ++ ')' :: h.trail) := by
      simp [text, ending, hp]
    rw [htext]
    exact LineScan.run_of_pair (List.forall_mem_append.mpr ⟨hbeginning, hblanks hgap⟩)
      (hblanks hinner) htrail parens heredocs

end FunctionHeader

/-! ## Between a header and its body -/

namespace ScriptState

variable {s : ScriptState}

/-- A header outside quotes opens nothing. It is taken to go on if its parentheses stand together.
-/
theorem consume_header (hs : s.IsSound) (hquoting : s.quoting = .bare) (hin : s.inHeredoc = false)
    (h : FunctionHeader) :
    ∃ cases, s.consume h.text = { s with cases := cases, continued := h.isTight } := by
  obtain ⟨q, hrun⟩ := h.run_text s.parens s.heredocs
  rw [consume_of_past hs hquoting hin h.isIdle_text h.isCaseArm_text hrun, h.stripComment_text,
    h.asksForMore_text]
  exact ⟨_, rfl⟩

/-- Blank lines and comments outside quotes and here-documents are passed over. -/
theorem isSilent_of_isIdle (hquoting : s.quoting = .bare) (hin : s.inHeredoc = false)
    {idle : List (List Char)} (hidle : ∀ line ∈ idle, isIdle (Text.trim line) = true) :
    s.IsSilent idle ∧ idle.foldl consume s = s := by
  refine IsSilent.of_consume fun line hline => ⟨startsCommand_of_isIdle (hidle line hline), ?_⟩
  rw [consume, hin, hquoting, hidle line hline]
  rfl

/-- A line that begins with a brace begins a command unless it is an arm of a `case` block. -/
theorem mayBegin_of_brace {cases : Nat} {trimmed : List Char} (h : ['\x7b'] <+: trimmed) :
    mayBegin cases trimmed = true ↔ (0 < cases → isCaseArm trimmed = false) := by
  obtain ⟨r, rfl⟩ := h
  have hclauses : clauseWords.all (fun w => w.head? != some '\x7b') = true := by decide
  have hfirst : firstWord (['\x7b'] ++ r) = '\x7b' :: firstWord r :=
    List.takeWhile_cons_of_pos (by decide)
  have hword : clauseWords.contains (firstWord (['\x7b'] ++ r)) = false := by
    rw [Bool.eq_false_iff, ne_eq, List.contains_iff_mem, hfirst]
    exact fun hmem => absurd (List.all_eq_true.mp hclauses _ hmem) (by simp)
  have hidle : isIdle (['\x7b'] ++ r) = false := rfl
  have hend : ";;".toList.isPrefixOf (['\x7b'] ++ r) = false := rfl
  rw [mayBegin, hidle, hword, hend]
  cases isCaseArm (['\x7b'] ++ r) <;> simp

end ScriptState

/-- Where a header of a function stands outside quotes, here-documents and parentheses, and the next
line of code begins with the brace that opens the body: a marker is put before that line exactly if
the header does not end in parentheses that stand together, save that within a `case` block the line
may pass for an arm. Nothing else is put between the two. -/
theorem marker_before_body_iff (h : FunctionHeader) {code opener : List Char}
    {before idle rest : List (List Char)}
    (hcode : Text.splitLines code = before ++ h.text :: (idle ++ opener :: rest))
    (hquoting : (before.foldl ScriptState.consume .start).quoting = .bare)
    (hin : (before.foldl ScriptState.consume .start).inHeredoc = false)
    (hparens : (before.foldl ScriptState.consume .start).parens = 0)
    (hidle : ∀ line ∈ idle, isIdle (Text.trim line) = true)
    (hopener : ['\x7b'] <+: Text.trim opener) :
    (isMarked (before ++ h.text :: idle) opener = true ↔ h.isTight = false ∧
      (0 < ((before ++ [h.text]).foldl ScriptState.consume .start).cases →
        isCaseArm (Text.trim opener) = false)) ∧
    ∃ below, instrument code = Text.joinLines (markLines .start 1 (before ++ [h.text]) ++ idle ++
      (if isMarked (before ++ h.text :: idle) opener then
        [indentation opener ++ echo (Marker.ofLine (before.length + idle.length + 2))] else []) ++
      opener :: below) := by
  have hsound := ScriptState.isSound_start.foldl before
  have hheader : (before ++ [h.text]).foldl ScriptState.consume .start =
      (before.foldl ScriptState.consume .start).consume h.text := List.foldl_concat ..
  -- a header changes the scan in this only: it counts as continued if its parentheses are tight
  obtain ⟨cases, hstate⟩ := ScriptState.consume_header hsound hquoting hin h
  rw [hstate] at hheader
  generalize hbehind : (before ++ [h.text]).foldl ScriptState.consume .start = t at hheader
  have hready : t.IsReady ↔ h.isTight = false := by
    rw [hheader]
    exact ⟨fun hready => hready.continued, fun hloose => ⟨hin, hquoting, hloose, hparens⟩⟩
  obtain ⟨hsilent, hfold⟩ : t.IsSilent idle ∧ idle.foldl ScriptState.consume t = t :=
    ScriptState.isSilent_of_isIdle (hheader ▸ hquoting) (hheader ▸ hin) hidle
  have hlines : before ++ h.text :: idle = (before ++ [h.text]) ++ idle := List.append_cons ..
  constructor
  · rw [isMarked, hlines, List.foldl_append, hbehind, hfold, ScriptState.startsCommand_iff, hready,
      ScriptState.mayBegin_of_brace hopener]
  · have hcut : Text.splitLines code = (before ++ h.text :: idle) ++ opener :: rest := by
      rw [hcode]
      simp
    have hmarked : markLines .start 1 (before ++ h.text :: idle) =
        markLines .start 1 (before ++ [h.text]) ++ idle := by
      rw [hlines, markLines_append, hbehind, hsilent.markLines]
    have hnumber : (before ++ h.text :: idle).length + 1 = before.length + idle.length + 2 := by
      simp only [List.length_append, List.length_cons]
      omega
    rw [instrument_cut code _ opener rest hcut, hmarked, hnumber]
    exact ⟨_, rfl⟩

/-- A name, blanks and parentheses that stand together. -/
def tightHeader : FunctionHeader where
  indent := ['\t']
  keyword := none
  name := "greet".toList
  parens := some ([' '], [])
  trail := [' ']
  indent_blank := by decide
  keyword_blank := by decide
  isName := ⟨by decide, by decide⟩
  parens_blank := by decide
  trail_blank := by decide
  isHeader := .inr rfl

/-- In an arm of a `case` block, with a comment and a blank line before the body. -/
theorem marker_before_body_iff_tightHeader :
    (["case x in", "a)"].map String.toList).foldl ScriptState.consume .start =
      ⟨.bare, [], false, 0, 1, false⟩ ∧
    isMarked (["case x in", "a)", "\tgreet () ", "# body", ""].map String.toList)
      "\x7b echo hi; \x7d".toList = false ∧
    ∃ below, instrument
      "case x in\na)\n\tgreet () \n# body\n\n\x7b echo hi; \x7d\n;;\nesac".toList =
        Text.joinLines (markLines .start 1 (["case x in", "a)", "\tgreet () "].map String.toList) ++
          ["# body", ""].map String.toList ++ [] ++ "\x7b echo hi; \x7d".toList :: below) := by
  have hstate : (["case x in", "a)"].map String.toList).foldl ScriptState.consume .start =
      ⟨.bare, [], false, 0, 1, false⟩ := by decide +kernel
  have hcode : Text.splitLines
      "case x in\na)\n\tgreet () \n# body\n\n\x7b echo hi; \x7d\n;;\nesac".toList =
        ["case x in", "a)"].map String.toList ++ tightHeader.text ::
          (["# body", ""].map String.toList ++ "\x7b echo hi; \x7d".toList ::
            [";;", "esac"].map String.toList) := by
    decide +kernel
  obtain ⟨hiff, below, htext⟩ := marker_before_body_iff tightHeader hcode (hstate ▸ rfl)
    (hstate ▸ rfl) (hstate ▸ rfl) (by decide) (by decide)
  have hunmarked := Bool.eq_false_iff.mpr fun hmarked => Bool.noConfusion (hiff.mp hmarked).1
  rw [hunmarked] at htext
  exact ⟨hstate, hunmarked, below, htext⟩

/-- Blanks between the parentheses. -/
def looseHeader : FunctionHeader where
  indent := []
  keyword := none
  name := "greet".toList
  parens := some ([' '], [' '])
  trail := []
  indent_blank := rfl
  keyword_blank := by decide
  isName := ⟨by decide, by decide⟩
  parens_blank := by decide
  trail_blank := rfl
  isHeader := .inr rfl

/-- The keyword and no parentheses. -/
def bareHeader : FunctionHeader where
  indent := []
  keyword := some [' ']
  name := "greet".toList
  parens := none
  trail := []
  indent_blank := rfl
  keyword_blank := by decide
  isName := ⟨by decide, by decide⟩
  parens_blank := by decide
  trail_blank := rfl
  isHeader := .inl rfl

/-- Behind these two headers a marker is put before the brace that opens the body. -/
theorem marker_in_function :
    looseHeader.text = "greet ( )".toList ∧ isMarked [looseHeader.text] ['\x7b'] = true ∧
    bareHeader.text = "function greet".toList ∧ isMarked [bareHeader.text] ['\x7b'] = true ∧
    instrument "greet ( )\n\x7b\n  echo hi\n\x7d".toList =
      ("echo \x22##active_line1##\x22\ngreet ( )\necho \x22##active_line2##\x22\n\x7b\n" ++
        "  echo \x22##active_line3##\x22\n  echo hi\n\x7d").toList := by
  refine ⟨rfl, ?_, rfl, ?_, ?_⟩ <;> decide +kernel

end StepTrace.Posix

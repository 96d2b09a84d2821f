import Mathlib.Data.List.Induction
import StepTrace.Proofs.Posix.Arithmetic
import StepTrace.Proofs.Posix.Comments
import StepTrace.Proofs.Posix.HereDocuments

/-!
# Markers before simple commands

A line of words, strings and arithmetic expansions (`SimpleLine`) opens nothing in a shell, so each
such line of a script can have its marker. The scan takes a left shift in an expansion for a
here-document (`SimpleLine.opens`). `marks_every_command_iff` says when no marker is missing:
exactly if behind a line with such a shift nothing follows but blank lines.
-/

set_option autoImplicit false

namespace StepTrace.Posix

/-! ## The first word and the end of a line -/

/-- Blanks at the end are no part of the first word. -/
theorem firstWord_trimEnd (s : List Char) : firstWord (Text.trimEnd s) = firstWord s := by
  obtain ⟨b, hb, hs⟩ := Text.exists_trimEnd_append s
  have hnone : b.takeWhile (fun c => !isBreak c) = [] := by
    cases b with
    | nil => rfl
    | cons c b =>
      rw [Text.allBlank_cons, Bool.and_eq_true] at hb
      exact List.takeWhile_cons_of_neg (by simp [isBreak, hb.1])
  -- the word ends in front of the blanks, at the latest where they begin
  conv_rhs => rw [← hs]
  rw [firstWord, firstWord, List.takeWhile_append, hnone, List.append_nil]
  split
  · next hall => exact (List.takeWhile_prefix _).eq_of_length hall
  · rfl

/-- A text asks for no other if it ends in none of the signs of an operator, and in a parenthesis
only behind another one that closes. -/
theorem asksForMore_of_trimEnd {code r : List Char} {c : Char}
    (htrim : Text.trimEnd code = r ++ [c]) (hpipe : c ≠ '|') (hand : c ≠ '&')
    (hparen : c = ')' → r.getLast? = some ')') : asksForMore code = false := by
  have hlast : ∀ (mark : List Char) (d : Char), (mark ++ [d]).isSuffixOf (r ++ [c]) = true →
      mark <:+ r ∧ d = c := by
    intro mark d h
    rw [List.isSuffixOf_iff_suffix] at h
    obtain ⟨t, ht⟩ := h
    rw [← List.append_assoc] at ht
    obtain ⟨hr, hc⟩ := List.append_inj' ht rfl
    exact ⟨⟨t, hr⟩, List.singleton_inj.mp hc⟩
  rw [asksForMore, htrim, Bool.or_eq_false_iff, Bool.or_eq_false_iff, Bool.and_eq_false_iff]
  refine ⟨⟨Bool.eq_false_iff.mpr fun h => ?_, Bool.eq_false_iff.mpr fun h => ?_⟩,
    .inl (Bool.eq_false_iff.mpr fun h => ?_)⟩
  · exact hpipe (hlast [] '|' h).2.symm
  · exact hand (hlast ['&'] '&' h).2.symm
  · obtain ⟨⟨t, ht⟩, hc⟩ := hlast ['('] ')' h
    have hboth := hparen hc.symm
    rw [← ht, List.getLast?_concat] at hboth
    exact absurd hboth (by decide)

/-! ## Simple commands -/

/-- The signs of a plain word. -/
def isWordSign (c : Char) : Bool := c.isAlphanum || "_./=-".toList.contains c

theorem isBlank_of_isWordSign {c : Char} (h : isWordSign c = true) : Text.isBlank c = false := by
  rw [isWordSign, Bool.or_eq_true] at h
  rcases h with h | h
  · exact Text.isBlank_of_isAlphanum h
  · have hsigns : "_./=-".toList.all (fun d => !Text.isBlank d) = true := by decide
    simpa using List.all_eq_true.mp hsigns c (List.contains_iff_mem.mp h)

/-- A sign that means something to the shell is no sign of a plain word. -/
theorem ne_of_isWordSign {c : Char} (h : isWordSign c = true) :
    ∀ d ∈ "\\\x27\x22#$()<;|&".toList, c ≠ d := by
  have hsigns : "\\\x27\x22#$()<;|&".toList.all (fun d => !isWordSign d) = true := by decide
  rintro d hd rfl
  have hnot := List.all_eq_true.mp hsigns c hd
  rw [h] at hnot
  cases hnot

/-- A part of a simple command. -/
inductive Part where
  | blank (c : Char)
  | sign (c : Char)
  /-- A text within double quotes. -/
  | quoted (text : List Char)
  | arithmetic (e : List Char)

namespace Part

/-- What stands on the line. -/
def text : Part → List Char
  | blank c => [c]
  | sign c => [c]
  | quoted text => '\x22' :: (text ++ ['\x22'])
  | arithmetic e => expansion e

/-- What a part may be made of: a string holds no sign that means something within its quotes. -/
def IsSound : Part → Prop
  | blank c => Text.isBlank c = true
  | sign c => isWordSign c = true
  | quoted text => ∀ c ∈ text, c ≠ '\\' ∧ c ≠ '\x22' ∧ c ≠ '$'
  | arithmetic e => IsArithmetic e

/-- Whether it parts words. -/
def isBlank : Part → Bool
  | blank _ => true
  | _ => false

/-- Whether the scan takes a shift in it for a here-document. -/
def opens : Part → Bool
  | arithmetic e => opensDocument e
  | _ => false

theorem isSound_signs {s : List Char} (h : s.all isWordSign = true) :
    ∀ p ∈ s.map sign, p.IsSound :=
  List.forall_mem_map.mpr fun c hc => List.all_eq_true.mp h c hc

theorem isSound_quoted {s : List Char} (h : s.all (fun c => c ∉ ['\\', '\x22', '$']) = true) :
    (quoted s).IsSound := by
  intro c hc
  simpa using List.all_eq_true.mp h c hc

/-- Parts as they stand on a line. -/
def texts (parts : List Part) : List Char := parts.flatMap text

theorem texts_cons (p : Part) (parts : List Part) : texts (p :: parts) = p.text ++ texts parts :=
  List.flatMap_cons

theorem texts_append (parts parts' : List Part) :
    texts (parts ++ parts') = texts parts ++ texts parts' := List.flatMap_append

/-- The first word of some parts. -/
def firstWord (parts : List Part) : List Char :=
  texts ((parts.dropWhile isBlank).takeWhile fun p => !p.isBlank)

variable {p : Part} {parts : List Part}

/-! ### What the scan makes of a part -/

theorem reads_quoted {s : List Char} (h : ∀ c ∈ s, c ≠ '\\' ∧ c ≠ '\x22' ∧ c ≠ '$')
    (rest : List Char) : LineScan.Reads (text (quoted s)) rest false id := by
  refine .of_run fun parens heredocs p => ⟨'\x22', ?_⟩
  obtain ⟨q, hq⟩ := LineScan.run_of_past
    (fun c hc => LineScan.step_past_of_double ⟨(h c hc).2.1, (h c hc).1⟩ parens heredocs)
    ('\x22' :: rest) '\x22'
  rw [text, List.cons_append, List.append_assoc]
  exact hq

theorem reads (h : p.IsSound) (rest : List Char) : LineScan.Reads p.text rest p.opens id := by
  cases p with
  | blank c =>
    refine .of_plain fun d hd => ?_
    rw [List.mem_singleton.mp hd]
    exact LineScan.not_mem_bareSigns_of_isBlank h
  | sign c =>
    refine .of_plain fun d hd hmem => ?_
    have hsigns : LineScan.bareSigns ⊆ "\\\x27\x22#$()<;|&".toList := by decide
    exact ne_of_isWordSign h d (hsigns hmem) (List.mem_singleton.mp hd).symm
  | quoted s => exact reads_quoted h rest
  | arithmetic e => exact LineScan.reads_expansion h rest

theorem reads_texts (h : ∀ p ∈ parts, p.IsSound) (rest : List Char) :
    LineScan.Reads (texts parts) rest (parts.any opens) id := by
  induction parts with
  | nil => exact .nil
  | cons p parts ih =>
    obtain ⟨hp, hparts⟩ := List.forall_mem_cons.mp h
    exact ((reads hp (texts parts ++ rest)).append (ih hparts)).congr rfl fun _ _ => rfl

/-! ### How a part begins and ends -/

/-- A part that is no blank begins with a sign that starts no comment and ends no command. -/
theorem exists_cons_of_sound (h : p.IsSound) (hblank : p.isBlank = false) :
    ∃ c r, p.text = c :: r ∧ Text.isBlank c = false ∧ c ≠ '#' ∧ c ≠ ';' := by
  cases p with
  | blank c => cases hblank
  | sign c =>
    exact ⟨c, [], rfl, isBlank_of_isWordSign h, ne_of_isWordSign h '#' (by decide),
      ne_of_isWordSign h ';' (by decide)⟩
  | quoted s => exact ⟨'\x22', _, rfl, by decide, by decide, by decide⟩
  | arithmetic e => exact ⟨'$', _, rfl, by decide, by decide, by decide⟩

/-- It ends in a sign that does not ask for the next line; an expansion ends in two parentheses. -/
theorem exists_concat_of_sound (h : p.IsSound) (hblank : p.isBlank = false) :
    ∃ r c, p.text = r ++ [c] ∧ Text.isBlank c = false ∧ c ≠ '|' ∧ c ≠ '&' ∧
      (c = ')' → r.getLast? = some ')') := by
  cases p with
  | blank c => cases hblank
  | sign c =>
    exact ⟨[], c, rfl, isBlank_of_isWordSign h, ne_of_isWordSign h '|' (by decide),
      ne_of_isWordSign h '&' (by decide), fun hc => absurd hc (ne_of_isWordSign h ')' (by decide))⟩
  | quoted s =>
    exact ⟨'\x22' :: s, '\x22', rfl, by decide, by decide, by decide,
      fun hc => absurd hc (by decide)⟩
  | arithmetic e =>
    refine ⟨'$' :: '(' :: '(' :: e ++ [')'], ')', ?_, by decide, by decide, by decide, fun _ => ?_⟩
    · simp [text, expansion]
    · exact List.getLast?_concat

theorem allBlank_text (h : p.IsSound) : Text.allBlank p.text = p.isBlank := by
  cases hblank : p.isBlank with
  | true =>
    cases p with
    | blank c =>
      rw [text, Text.allBlank_cons, show Text.isBlank c = true from h]
      rfl
    | sign | quoted | arithmetic => cases hblank
  | false =>
    obtain ⟨c, r, htext, hc, -⟩ := exists_cons_of_sound h hblank
    rw [htext, Text.allBlank_cons, hc, Bool.false_and]

theorem allBlank_texts (h : ∀ p ∈ parts, p.IsSound) :
    Text.allBlank (texts parts) = parts.all isBlank := by
  induction parts with
  | nil => rfl
  | cons p parts ih =>
    obtain ⟨hp, hparts⟩ := List.forall_mem_cons.mp h
    rw [texts_cons, Text.allBlank_append, allBlank_text hp, ih hparts, List.all_cons]

/-- Blanks before the first word are trimmed off. -/
theorem trimStart_texts (h : ∀ p ∈ parts, p.IsSound) :
    Text.trimStart (texts parts) = texts (parts.dropWhile isBlank) := by
  induction parts with
  | nil => rfl
  | cons p parts ih =>
    obtain ⟨hp, hparts⟩ := List.forall_mem_cons.mp h
    cases hblank : p.isBlank with
    | true =>
      have htext := allBlank_text hp
      rw [hblank] at htext
      rw [texts_cons, Text.trimStart,
        List.dropWhile_append_of_pos fun c hc => List.all_eq_true.mp htext c hc,
        List.dropWhile_cons_of_pos hblank]
      exact ih hparts
    | false =>
      obtain ⟨c, r, htext, hc, -⟩ := exists_cons_of_sound hp hblank
      rw [List.dropWhile_cons_of_neg (by simp [hblank]), texts_cons, htext, List.cons_append,
        Text.trimStart, List.dropWhile_cons_of_neg (by simp [hc])]

/-- The first word by the scan is that of the parts, unless it begins in a string or an expansion.
-/
theorem firstWord_texts (h : ∀ p ∈ parts, p.IsSound)
    (hword : ∀ c ∈ Posix.firstWord (texts parts), c ≠ '\x22' ∧ c ≠ '$') :
    Posix.firstWord (texts parts) = texts (parts.takeWhile fun p => !p.isBlank) := by
  induction parts with
  | nil => rfl
  | cons p parts ih =>
    obtain ⟨hp, hparts⟩ := List.forall_mem_cons.mp h
    cases p with
    | blank c =>
      have hbreak : isBreak c = true := by rw [isBreak, show Text.isBlank c = true from hp]; rfl
      rw [texts_cons, text, List.singleton_append, Posix.firstWord,
        List.takeWhile_cons_of_neg (by simp [hbreak])]
      rfl
    | sign c =>
      have hbreak : isBreak c = false := by
        rw [isBreak, isBlank_of_isWordSign hp, Bool.false_or, beq_eq_false_iff_ne]
        exact ne_of_isWordSign hp ';' (by decide)
      have hcons : Posix.firstWord (texts (sign c :: parts)) =
          c :: Posix.firstWord (texts parts) := by
        rw [texts_cons, text, List.singleton_append, Posix.firstWord,
          List.takeWhile_cons_of_pos (by simp [hbreak])]
        rfl
      rw [hcons] at hword ⊢
      rw [ih hparts (List.forall_mem_cons.mp hword).2]
      rfl
    -- these would begin within the word
    | quoted s => exact absurd rfl (hword '\x22' List.mem_cons_self).1
    | arithmetic e => exact absurd rfl (hword '$' List.mem_cons_self).2

/-! ### The line without its comment, and whether it goes on -/

theorem uncommented_text (h : p.IsSound) (previous : Char) (rest : List Char) :
    ∃ q, uncommented .bare previous (p.text ++ rest) = p.text ++ uncommented .bare q rest := by
  cases p with
  | blank c =>
    refine uncommented_append_of_plain (fun d hd => ?_) previous rest
    rw [List.mem_singleton.mp hd]
    refine ⟨?_, ?_, ?_⟩ <;> rintro rfl <;> exact absurd h (by unfold IsSound; decide)
  | sign c =>
    refine uncommented_append_of_plain (fun d hd => ?_) previous rest
    rw [List.mem_singleton.mp hd]
    exact ⟨ne_of_isWordSign h '#' (by decide), ne_of_isWordSign h '\x27' (by decide),
      ne_of_isWordSign h '\x22' (by decide)⟩
  | quoted s =>
    -- the only part that may hold a number sign, and it is in the quotes
    refine ⟨'\x22', ?_⟩
    have hs : '\x22' ∉ s := fun hmem => (h '\x22' hmem).2.1 rfl
    rw [text, List.cons_append, List.append_assoc, uncommented_cons, if_neg (by simp),
      show Quoting.bare.after '\x22' = .double from rfl, List.singleton_append,
      uncommented_double hs, List.cons_append, List.append_assoc, List.singleton_append]
  | arithmetic e =>
    refine uncommented_append_of_plain (fun d hd => ?_) previous rest
    have hsign : IsExpressionChar d ∨ d = '$' := by
      simp only [text, expansion, List.mem_cons, List.mem_append, List.not_mem_nil, or_false] at hd
      rcases hd with rfl | rfl | rfl | hd | rfl | rfl
      · exact .inr rfl
      · exact .inl (.inr (.inl rfl))
      · exact .inl (.inr (.inl rfl))
      · exact .inl (IsArithmetic.isExpressionChar h d hd)
      · exact .inl (.inr (.inr rfl))
      · exact .inl (.inr (.inr rfl))
    rcases hsign with hsign | rfl
    · exact ⟨hsign.ne.2.2.2, hsign.ne.2.1, hsign.ne.2.2.1⟩
    · decide

/-- No comment is found on a line of parts. -/
theorem stripComment_texts (h : ∀ p ∈ parts, p.IsSound) :
    stripComment (texts parts) = texts parts := by
  have hall : ∀ previous, uncommented .bare previous (texts parts) = texts parts := by
    induction parts with
    | nil => exact fun _ => rfl
    | cons p parts ih =>
      intro previous
      obtain ⟨hp, hparts⟩ := List.forall_mem_cons.mp h
      obtain ⟨q, hq⟩ := uncommented_text hp previous (texts parts)
      rw [texts_cons, hq, ih hparts]
  exact hall ' '

/-- A line of parts does not ask for the next one. -/
theorem asksForMore_texts (h : ∀ p ∈ parts, p.IsSound) : asksForMore (texts parts) = false := by
  -- the last part that is no blank decides, so the induction is from the end
  induction parts using List.reverseRecOn with
  | nil => rfl
  | append_singleton parts p ih =>
    obtain ⟨hparts, hp⟩ := List.forall_mem_append.mp h
    rw [List.forall_mem_singleton] at hp
    have htexts : texts (parts ++ [p]) = texts parts ++ p.text := by
      rw [texts_append, texts_cons, show texts [] = [] from rfl, List.append_nil]
    cases hblank : p.isBlank with
    | true =>
      have htrim := Text.trimEnd_append_of_allBlank ((allBlank_text hp).trans hblank) (texts parts)
      rw [asksForMore, htexts, htrim]
      exact ih hparts
    | false =>
      obtain ⟨r, c, htext, hc, hpipe, hand, hparen⟩ := exists_concat_of_sound hp hblank
      refine asksForMore_of_trimEnd (r := texts parts ++ r) ?_ hpipe hand fun hclose => ?_
      · rw [htexts, htext, ← List.append_assoc]
        exact Text.trimEnd_append_cons hc _ []
      · rw [List.getLast?_append, hparen hclose]
        rfl

end Part

/-- A line that is blank or a simple command, and does not begin with a word of the grammar. -/
structure SimpleLine where
  parts : List Part
  sound : ∀ p ∈ parts, p.IsSound
  begins : Part.firstWord parts ∉ "case".toList :: clauseWords

namespace SimpleLine

variable (line : SimpleLine)

/-- The line as it stands in a script. -/
def text : List Char := Part.texts line.parts

/-- Whether the scan takes a shift on it for a here-document. -/
def opens : Bool := line.parts.any Part.opens

theorem opens_of_no_shift (h : ∀ e, .arithmetic e ∈ line.parts → ¬['<', '<'] <:+: e) :
    line.opens = false := by
  refine List.any_eq_false.mpr fun p hp => ?_
  cases p with
  | arithmetic e => simp [Part.opens, opensDocument_of_no_shift (h e hp)]
  | blank | sign | quoted => simp [Part.opens]

/-- The scan agrees about the word that the line does not begin with. -/
theorem firstWord_trim_not_mem :
    firstWord (Text.trim line.text) ∉ "case".toList :: clauseWords := by
  have hsigns : ("case".toList :: clauseWords).all
      (fun word => word.all fun c => c != '\x22' && c != '$') = true := by decide
  have hsound : ∀ p ∈ line.parts.dropWhile Part.isBlank, p.IsSound := fun p hp =>
    line.sound p ((List.dropWhile_suffix _).subset hp)
  have hstart : firstWord (Text.trim line.text) =
      firstWord (Part.texts (line.parts.dropWhile Part.isBlank)) := by
    rw [Text.trim, firstWord_trimEnd, text, Part.trimStart_texts line.sound]
  intro hmem
  rw [hstart] at hmem
  have hfree := List.all_eq_true.mp hsigns _ hmem
  rw [Part.firstWord_texts hsound fun c hc => by simpa using List.all_eq_true.mp hfree c hc] at hmem
  exact line.begins hmem

/-- A line that is not blank begins with a sign that starts no comment and ends no command. -/
theorem exists_trim_eq (h : Text.allBlank line.text = false) :
    ∃ c r, Text.trim line.text = c :: r ∧ c ≠ '#' ∧ c ≠ ';' := by
  cases hparts : line.parts.dropWhile Part.isBlank with
  | nil =>
    have htrim : Text.trimStart line.text = [] := by
      rw [text, Part.trimStart_texts line.sound, hparts]
      rfl
    rw [(Text.trimStart_eq_nil_iff _).mp htrim] at h
    cases h
  | cons p parts =>
    have hp : p ∈ line.parts := (List.dropWhile_suffix _).subset (hparts ▸ List.mem_cons_self)
    have hblank : p.isBlank = false := by
      have hnot := List.head?_dropWhile_not Part.isBlank line.parts
      rw [hparts] at hnot
      simpa using hnot
    obtain ⟨c, r, htext, hc, hcomment, hend⟩ := Part.exists_cons_of_sound (line.sound p hp) hblank
    refine ⟨c, Text.trimEnd (r ++ Part.texts parts), ?_, hcomment, hend⟩
    rw [Text.trim, text, Part.trimStart_texts line.sound, hparts, Part.texts_cons, htext]
    exact Text.trimEnd_append_cons hc [] _

/-- A command begins on a line that is not blank. -/
theorem mayBegin_trim (h : Text.allBlank line.text = false) :
    ScriptState.mayBegin 0 (Text.trim line.text) = true := by
  obtain ⟨c, r, htrim, hcomment, hend⟩ := line.exists_trim_eq h
  have hidle : isIdle (Text.trim line.text) = false := by
    rw [htrim]
    simp [isIdle, hcomment]
  have hword : clauseWords.contains (firstWord (Text.trim line.text)) = false := by
    rw [← Bool.not_eq_true, List.contains_iff_mem]
    exact fun hmem => line.firstWord_trim_not_mem (List.mem_cons_of_mem _ hmem)
  have hends : ";;".toList.isPrefixOf (Text.trim line.text) = false := by
    rw [htrim]
    simp [List.isPrefixOf, Ne.symm hend]
  rw [ScriptState.mayBegin, hidle, hword, hends]
  rfl

theorem startsCommand_start : ScriptState.start.startsCommand line.text =
    !Text.allBlank line.text := by
  cases h : Text.allBlank line.text with
  | true =>
    exact ScriptState.startsCommand_of_isIdle (ScriptState.isIdle_of_allBlank h)
  | false =>
    rw [Bool.not_false, ScriptState.startsCommand_iff]
    exact ⟨⟨rfl, rfl, rfl, rfl⟩, line.mayBegin_trim h⟩

theorem opens_of_allBlank (h : Text.allBlank line.text = true) : line.opens = false := by
  rw [text, Part.allBlank_texts line.sound] at h
  refine List.any_eq_false.mpr fun p hp => ?_
  have hblank := List.all_eq_true.mp h p hp
  cases p with
  | blank c => simp [Part.opens]
  | sign | quoted | arithmetic => cases hblank

/-- What a line does to a script in which nothing is open. -/
theorem exists_consume_start (h : Text.allBlank line.text = false) :
    ∃ parens documents, ScriptState.start.consume line.text =
        { ScriptState.start with parens := parens, heredocs := documents,
                                 inHeredoc := !documents.isEmpty } ∧
      (documents = [] ↔ line.opens = false) ∧ (line.opens = false → parens = 0) := by
  obtain ⟨parens, documents, q, hrun, hdocuments, hparens⟩ :=
    Part.reads_texts line.sound [] 0 [] ' '
  refine ⟨parens, documents, ?_, hdocuments, hparens⟩
  have hidle := ScriptState.isIdle_of_mayBegin (line.mayBegin_trim h)
  have hcase : (firstWord (Text.trim line.text) == "case".toList) = false := by
    rw [beq_eq_false_iff_ne]
    intro heq
    exact line.firstWord_trim_not_mem (heq ▸ List.mem_cons_self)
  -- outside `case` blocks no pattern is passed over: the whole line is scanned
  have hscanned : ScriptState.start.scanned line.text = line.text := by
    rw [ScriptState.scanned, ScriptState.readsArm, hcase]
    rfl
  have hscan : ScriptState.start.scan line.text = LineScan.inCode parens documents q := by
    rw [ScriptState.scan, hscanned, text, ← List.append_nil (Part.texts line.parts)]
    exact hrun
  have hpass : ScriptState.start.consume line.text = ScriptState.start.passCode line.text := by
    rw [ScriptState.consume, hidle]
    rfl
  rw [hpass, ScriptState.passCode_eq, hscan, hscanned, hcase, text,
    Part.stripComment_texts line.sound, Part.asksForMore_texts line.sound]
  simp [ScriptState.start, LineScan.inCode, LineScan.start, LineScan.past]

/-- A line without such a shift leaves nothing open. -/
theorem consume_start (h : line.opens = false) :
    ScriptState.start.consume line.text = ScriptState.start := by
  cases hblank : Text.allBlank line.text with
  | true =>
    rw [ScriptState.consume, ScriptState.isIdle_of_allBlank hblank]
    rfl
  | false =>
    obtain ⟨parens, documents, hconsume, hdocuments, hparens⟩ := line.exists_consume_start hblank
    rw [hconsume, hdocuments.mpr h, hparens h]
    rfl

/-- Behind one with such a shift the scan stands in a here-document. -/
theorem inHeredoc_consume_start (h : line.opens = true) :
    (ScriptState.start.consume line.text).inHeredoc = true := by
  have hblank : Text.allBlank line.text = false := by
    refine Bool.eq_false_iff.mpr fun hblank => ?_
    rw [line.opens_of_allBlank hblank] at h
    cases h
  obtain ⟨parens, documents, hconsume, hdocuments, -⟩ := line.exists_consume_start hblank
  rw [hconsume]
  cases documents with
  | nil => rw [hdocuments.mp rfl] at h; cases h
  | cons d ds => rfl

end SimpleLine

/-! ## Scripts -/

/-- Lines with a marker before each that is not blank, the first line with a number. -/
def markEach (number : Nat) : List (List Char) → List (List Char)
  | [] => []
  | line :: rest =>
    let after := line :: markEach (number + 1) rest
    if Text.allBlank line then after
    else (indentation line ++ echo (Marker.ofLine number)) :: after

namespace ScriptState

/-- On each of some lines that is not blank a command begins, if they are met in a state. -/
def MarksEach (s : ScriptState) : List (List Char) → Prop
  | [] => True
  | line :: rest =>
    (Text.allBlank line = false → s.startsCommand line = true) ∧ MarksEach (s.consume line) rest

variable {s : ScriptState} {lines : List (List Char)}

theorem marksEach_iff : s.MarksEach lines ↔ ∀ before line rest, lines = before ++ line :: rest →
    Text.allBlank line = false → (before.foldl consume s).startsCommand line = true := by
  induction lines generalizing s with
  | nil => exact iff_of_true trivial fun before line rest h => absurd h (by simp)
  | cons l lines ih =>
    rw [MarksEach, ih]
    constructor
    · rintro ⟨hfirst, hrest⟩ (_ | ⟨m, before⟩) line rest hcut
      · obtain ⟨rfl, -⟩ := List.cons.inj hcut
        exact hfirst
      · obtain ⟨rfl, htail⟩ := List.cons.inj hcut
        exact hrest before line rest htail
    · intro h
      refine ⟨h [] l lines rfl, fun before line rest hcut => h (l :: before) line rest ?_⟩
      rw [hcut, List.cons_append]

theorem MarksEach.markLines (h : s.MarksEach lines) (number : Nat) :
    Posix.markLines s number lines = markEach number lines := by
  induction lines generalizing s number with
  | nil => rfl
  | cons line lines ih =>
    rw [Posix.markLines, markEach, ih h.2]
    cases hblank : Text.allBlank line with
    | true => rw [startsCommand_of_isIdle (isIdle_of_allBlank hblank)]; rfl
    | false => rw [h.1 hblank]; rfl

/-- In a here-document blank lines mean nothing, for the word that ends it is not blank. -/
theorem consume_of_allBlank (hs : s.IsSound) (h : s.inHeredoc = true) {line : List Char}
    (hblank : Text.allBlank line = true) : s.consume line = s := by
  cases hd : s.heredocs with
  | nil =>
    rw [hs.inHeredoc_eq_false hd] at h
    cases h
  | cons d ds =>
    have hends : d.isEndedBy line = false := by
      refine Bool.eq_false_iff.mpr fun hends => ?_
      -- the line would hold the first character of the word
      obtain ⟨hne, hword⟩ := hs.words d (hd ▸ List.mem_cons_self)
      obtain ⟨c, r, hc⟩ := List.exists_cons_of_ne_nil hne
      rw [Delimiter.isEndedBy, beq_iff_eq, hc] at hends
      have hmem : c ∈ line := by
        have hcandidate : c ∈ if d.stripTabs then line.dropWhile (· == '\t') else line :=
          hends ▸ List.mem_cons_self
        split at hcandidate
        · exact (List.dropWhile_suffix _).subset hcandidate
        · exact hcandidate
      have hnot := hword c (hc ▸ List.mem_cons_self)
      rw [List.all_eq_true.mp hblank c hmem] at hnot
      cases hnot
    rw [consume_of_inHeredoc h hd, hends, if_neg Bool.false_ne_true]

/-- In a here-document the next line that is not blank goes without its marker. -/
theorem marksEach_iff_of_inHeredoc (hs : s.IsSound) (h : s.inHeredoc = true) :
    s.MarksEach lines ↔ ∀ line ∈ lines, Text.allBlank line = true := by
  induction lines with
  | nil => exact iff_of_true trivial (by simp)
  | cons line lines ih =>
    rw [List.forall_mem_cons, MarksEach]
    cases hblank : Text.allBlank line with
    | true => rw [consume_of_allBlank hs h hblank, ih]; simp
    | false =>
      rw [startsCommand_of_inHeredoc h]
      simp

/-- From the start of a script simple commands are met with nothing open, up to the first shift that
is taken for a here-document. -/
theorem marksEach_texts_iff (lines : List SimpleLine) :
    start.MarksEach (lines.map SimpleLine.text) ↔
      lines.Pairwise fun line later => line.opens = true → Text.allBlank later.text = true := by
  induction lines with
  | nil => exact iff_of_true trivial .nil
  | cons line lines ih =>
    have hfirst : Text.allBlank line.text = false → start.startsCommand line.text = true :=
      fun hblank => by rw [line.startsCommand_start, hblank]; rfl
    rw [List.map_cons, MarksEach, and_iff_right hfirst, List.pairwise_cons]
    cases hopens : line.opens with
    | false =>
      -- the rest is met with nothing open, as if it began the script
      rw [line.consume_start hopens, ih]
      simp
    | true =>
      rw [marksEach_iff_of_inHeredoc (isSound_start.consume line.text)
        (line.inHeredoc_consume_start hopens), List.forall_mem_map]
      constructor
      · intro hblank
        exact ⟨fun later hlater _ => hblank later hlater,
          List.pairwise_of_forall_mem_list fun _ _ later hlater _ => hblank later hlater⟩
      · exact fun h later hlater => h.1 later hlater rfl

end ScriptState

/-- In a script of simple commands no line that is not blank goes without its marker exactly if none
stands behind an expansion with a shift that the scan takes for a here-document. The script is then
the one with a marker before each of them. -/
theorem marks_every_command_iff {code : List Char} {lines : List SimpleLine}
    (hcode : Text.splitLines code = lines.map SimpleLine.text) :
    ((∀ before line rest, Text.splitLines code = before ++ line :: rest →
        Text.allBlank line = false → isMarked before line = true) ↔
      lines.Pairwise fun line later => line.opens = true → Text.allBlank later.text = true) ∧
    ((lines.Pairwise fun line later => line.opens = true → Text.allBlank later.text = true) →
      instrument code = Text.joinLines (markEach 1 (Text.splitLines code))) := by
  have hmarks := ScriptState.marksEach_texts_iff lines
  rw [← hcode] at hmarks
  refine ⟨?_, fun h => ?_⟩
  · rw [← hmarks, ScriptState.marksEach_iff]
    rfl
  · rw [instrument, (hmarks.mpr h).markLines 1]

/-- So each such line has its marker in a script without left shifts. -/
theorem instrument_of_no_shift {code : List Char} {lines : List SimpleLine}
    (hcode : Text.splitLines code = lines.map SimpleLine.text)
    (h : ∀ line ∈ lines, ∀ e, .arithmetic e ∈ line.parts → ¬['<', '<'] <:+: e) :
    instrument code = Text.joinLines (markEach 1 (Text.splitLines code)) := by
  have hmarks : ScriptState.start.MarksEach (lines.map SimpleLine.text) := by
    rw [ScriptState.marksEach_texts_iff]
    refine List.pairwise_of_forall_mem_list fun line hline _ _ hopens => ?_
    rw [line.opens_of_no_shift (h line hline)] at hopens
    cases hopens
  rw [instrument, hcode, hmarks.markLines 1]

/-- A line that prints one part. -/
def SimpleLine.printing (p : Part) (h : p.IsSound) : SimpleLine where
  parts := "echo".toList.map .sign ++ [.blank ' ', p]
  sound := by
    refine List.forall_mem_append.mpr ⟨Part.isSound_signs rfl, ?_⟩
    exact List.forall_mem_cons.mpr ⟨show Text.isBlank ' ' = true by decide,
      List.forall_mem_singleton.mpr h⟩
  begins := by
    have hword : Part.firstWord ("echo".toList.map .sign ++ [.blank ' ', p]) = "echo".toList := rfl
    rw [hword]
    decide

/-- The line `n=$((2*(a+1)))`. -/
def sumLine : SimpleLine where
  parts := "n=".toList.map .sign ++ [.arithmetic "2*(a+1)".toList]
  sound := by
    have hgroup : IsArithmetic "(a+1)".toList := .group (.of_signs (e := "a+1".toList) rfl) .nil
    have hsum : IsArithmetic "2*(a+1)".toList := .sign (by decide) (.sign (by decide) hgroup)
    exact List.forall_mem_append.mpr ⟨Part.isSound_signs rfl, List.forall_mem_singleton.mpr hsum⟩
  begins := by decide

/-- A line that prints `a # << b`. -/
def noteLine : SimpleLine :=
  .printing (.quoted "a # << b".toList) (Part.isSound_quoted (by decide))

/-- A line that prints a shifted number. -/
def shiftLine : SimpleLine := .printing (.arithmetic "1 << 4".toList) (.of_signs rfl)

/-- A line without text. -/
def emptyLine : SimpleLine := ⟨[], by simp, by decide⟩

/-- At the end of a script the shift does no harm. -/
theorem marks_every_command_iff_closingShift :
    let code := "n=$((2*(a+1)))\n\necho \x22a # << b\x22\necho $((1 << 4))\n".toList
    let lines := [sumLine, emptyLine, noteLine, shiftLine, emptyLine]
    Text.splitLines code = lines.map SimpleLine.text ∧
    (lines.Pairwise fun line later => line.opens = true → Text.allBlank later.text = true) ∧
    (∀ before line rest, Text.splitLines code = before ++ line :: rest →
      Text.allBlank line = false → isMarked before line = true) ∧
    instrument code = Text.joinLines (markEach 1 (Text.splitLines code)) := by
  intro code lines
  have hcode : Text.splitLines code = lines.map SimpleLine.text := by decide +kernel
  have hlines : lines.Pairwise fun line later =>
      line.opens = true → Text.allBlank later.text = true := by decide +kernel
  obtain ⟨hmarks, hinstrument⟩ := marks_every_command_iff hcode
  exact ⟨hcode, hlines, hmarks.mpr hlines, hinstrument hlines⟩

/-- Anywhere else the shift costs the line behind it its marker. -/
theorem marker_missing_behind_shift :
    let code := "echo $((1 << 4))\necho \x22a # << b\x22".toList
    Text.splitLines code = [shiftLine, noteLine].map SimpleLine.text ∧
    Text.allBlank noteLine.text = false ∧ isMarked [shiftLine.text] noteLine.text = false ∧
    instrument code =
      "echo \x22##active_line1##\x22\necho $((1 << 4))\necho \x22a # << b\x22".toList := by
  decide +kernel

end StepTrace.Posix

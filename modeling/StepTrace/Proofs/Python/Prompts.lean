import Mathlib.Data.List.Basic
import Mathlib.Data.Option.Basic
import StepTrace.Adapter

/-!
# Prompts before a line

A line of the error stream may begin with prompts. They are taken off one after the other until the
line begins with none (`Strips`), so what is taken are prompts, the blanks before each and one space
behind it, and nothing of what was printed after them (`stripPrompts_takes_prompts`). Only the
error stream of Python is read in this way.
-/

set_option autoImplicit false

namespace StepTrace.Python

/-- The prompts of an interactive interpreter. -/
def prompts : List (List Char) := [">>>".toList, "...".toList]

/-- A text without the space that it begins with. -/
def dropSpace : List Char → List Char
  | [] => []
  | c :: r => if c = ' ' then r else c :: r

/-- What prompts at the start of a line leave of it: there may be blanks before a prompt, a blank
or the end of the line is behind it, and if that is a space, it goes with the prompt. -/
inductive Prompted : List Char → List Char → Prop
  | refl (s : List Char) : Prompted s s
  | prompt {blanks p after rest : List Char} : Text.allBlank blanks = true → p ∈ prompts →
      (∀ c ∈ after.head?, Text.isBlank c = true) → Prompted (dropSpace after) rest →
      Prompted (blanks ++ (p ++ after)) rest

/-! ## One prompt -/

/-- Prompts hold neither blanks nor number signs. -/
theorem sign_of_mem_prompts {p : List Char} (hp : p ∈ prompts) :
    p ≠ [] ∧ ∀ c ∈ p, Text.isBlank c = false ∧ c ≠ '#' := by
  have hall : prompts.all (fun p => !p.isEmpty && p.all fun c => !Text.isBlank c && c != '#') =
      true := by decide
  simpa using List.all_eq_true.mp hall p hp

/-- One space at most goes. -/
theorem exists_append_dropSpace (s : List Char) :
    ∃ space, space ++ dropSpace s = s ∧ '#' ∉ space := by
  cases s with
  | nil => exact ⟨[], rfl, List.not_mem_nil⟩
  | cons c r =>
    rw [dropSpace]
    split
    · next hc => exact ⟨[c], rfl, by simp [hc]⟩
    · exact ⟨[], rfl, List.not_mem_nil⟩

/-- A text begins with a prompt that a blank or the end of the text follows. -/
theorem dropPrompt?_eq_some_iff {s rest : List Char} :
    dropPrompt? s = some rest ↔ ∃ p ∈ prompts, ∃ after, s = p ++ after ∧
      (∀ c ∈ after.head?, Text.isBlank c = true) ∧ rest = dropSpace after := by
  have hbegins : ∀ after, (Text.dropLeading? ">>>".toList s <|>
      Text.dropLeading? "...".toList s) = some after ↔ ∃ p ∈ prompts, s = p ++ after := by
    intro after
    have hpoints : s = "...".toList ++ after → Text.dropLeading? ">>>".toList s = none := by
      rintro rfl
      rfl
    simp only [Option.orElse_eq_some, Text.dropLeading?_eq_some_iff, prompts, List.mem_cons,
      List.not_mem_nil, or_false, exists_eq_or_imp, exists_eq_left]
    exact or_congr_right (and_iff_right_of_imp hpoints)
  rw [dropPrompt?]
  cases hafter : (Text.dropLeading? ">>>".toList s <|> Text.dropLeading? "...".toList s) with
  | none =>
    refine iff_of_false (by simp) ?_
    rintro ⟨p, hp, after, hs, -⟩
    rw [(hbegins after).mpr ⟨p, hp, hs⟩] at hafter
    cases hafter
  | some after =>
    obtain ⟨p, hp, hs⟩ := (hbegins after).mp hafter
    -- only one text can be left behind a prompt
    have hunique : ∀ q ∈ prompts, ∀ other, s = q ++ other → other = after := by
      intro q hq other hother
      have hsame := (hbegins other).mpr ⟨q, hq, hother⟩
      rw [hafter] at hsame
      exact (Option.some.inj hsame).symm
    constructor
    · intro hrest
      refine ⟨p, hp, after, hs, ?_⟩
      cases after with
      | nil => exact ⟨by simp, (Option.some.inj hrest).symm⟩
      | cons c r =>
        dsimp only at hrest
        split at hrest
        · next hblank =>
          exact ⟨fun d hd => Option.some.inj hd ▸ hblank, (Option.some.inj hrest).symm⟩
        · cases hrest
    · rintro ⟨q, hq, other, hother, hblank, rfl⟩
      obtain rfl := hunique q hq other hother
      cases other with
      | nil => rfl
      | cons c r => exact if_pos (hblank c rfl)

/-- A prompt makes a text shorter. -/
theorem length_of_dropPrompt? {s rest : List Char}
    (h : dropPrompt? (Text.trimStart s) = some rest) : rest.length < s.length := by
  obtain ⟨p, hp, after, hs, -, rfl⟩ := dropPrompt?_eq_some_iff.mp h
  have hprompt : 0 < p.length := List.length_pos_of_ne_nil (sign_of_mem_prompts hp).1
  obtain ⟨space, hspace, -⟩ := exists_append_dropSpace after
  have htrim := (Text.trimStart_suffix s).length_le
  rw [hs, ← hspace, List.length_append, List.length_append] at htrim
  omega

/-! ## All prompts -/

/-- Prompts are taken off a text until it begins with none. -/
inductive Strips : List Char → List Char × Bool → Prop
  | clear {s : List Char} : dropPrompt? (Text.trimStart s) = none → Strips s (s, false)
  | prompt {s rest : List Char} {out : List Char × Bool} :
      dropPrompt? (Text.trimStart s) = some rest → Strips rest out → Strips s (out.1, true)

theorem strips_stripPromptsUpTo {fuel : Nat} {s : List Char} (h : s.length ≤ fuel) :
    Strips s (stripPromptsUpTo fuel s) := by
  induction fuel generalizing s with
  | zero =>
    rw [List.eq_nil_of_length_eq_zero (Nat.le_zero.mp h)]
    exact .clear rfl
  | succ fuel ih =>
    rw [stripPromptsUpTo]
    cases hrest : dropPrompt? (Text.trimStart s) with
    | none => exact .clear hrest
    | some rest =>
      have hshorter := length_of_dropPrompt? hrest
      exact .prompt hrest (ih (by omega))

/-- A text is as long as the prompts that it can hold are many. -/
theorem strips_stripPrompts (s : List Char) : Strips s (stripPrompts s) :=
  strips_stripPromptsUpTo (Nat.le_refl _)

namespace Strips

variable {s : List Char} {out : List Char × Bool}

theorem unique (h : Strips s out) {out' : List Char × Bool} (h' : Strips s out') : out = out' := by
  induction h generalizing out' with
  | clear hnone =>
    cases h' with
    | clear => rfl
    | prompt hsome => rw [hnone] at hsome; cases hsome
  | prompt hsome _ ih =>
    cases h' with
    | clear hnone => rw [hsome] at hnone; cases hnone
    | prompt hsome' hrest' =>
      rw [hsome] at hsome'
      obtain rfl := Option.some.inj hsome'
      rw [ih hrest']

/-- What is left begins with no prompt. -/
theorem clear_rest (h : Strips s out) : Strips out.1 (out.1, false) := by
  induction h with
  | clear hnone => exact .clear hnone
  | prompt _ _ ih => exact ih

theorem eq_of_clear (h : Strips s out) (hclear : out.2 = false) : out.1 = s := by
  cases h with
  | clear => rfl
  | prompt => cases hclear

theorem prompted (h : Strips s out) : Prompted s out.1 := by
  induction h with
  | clear => exact .refl _
  | @prompt s rest out hsome _ ih =>
    obtain ⟨p, hp, after, htrim, hblank, rfl⟩ := dropPrompt?_eq_some_iff.mp hsome
    obtain ⟨blanks, hblanks, hs⟩ := Text.exists_append_trimStart s
    rw [← hs, htrim]
    exact .prompt hblanks hp hblank ih

end Strips

theorem stripPrompts_eq {s : List Char} {out : List Char × Bool} (h : Strips s out) :
    stripPrompts s = out :=
  (strips_stripPrompts s).unique h

/-- What goes with prompts holds no number sign. -/
theorem Prompted.exists_append {s rest : List Char} (h : Prompted s rest) :
    ∃ echo, echo ++ rest = s ∧ '#' ∉ echo := by
  induction h with
  | refl s => exact ⟨[], rfl, List.not_mem_nil⟩
  | @prompt blanks p after rest hblanks hp _ _ ih =>
    obtain ⟨echo, hecho, hsign⟩ := ih
    obtain ⟨space, hspace, hspaceSign⟩ := exists_append_dropSpace after
    have hblankSign : '#' ∉ blanks := fun hmem =>
      absurd (List.all_eq_true.mp hblanks '#' hmem) (by decide)
    have hpromptSign : '#' ∉ p := fun hmem => ((sign_of_mem_prompts hp).2 '#' hmem).2 rfl
    refine ⟨blanks ++ (p ++ (space ++ echo)), ?_, ?_⟩
    · rw [← hspace, ← hecho]
      simp only [List.append_assoc]
    · simp only [List.mem_append, not_or]
      exact ⟨hblankSign, hpromptSign, hspaceSign, hsign⟩

theorem stripPrompts_suffix (s : List Char) : (stripPrompts s).1 <:+ s := by
  obtain ⟨echo, hecho, -⟩ := (strips_stripPrompts s).prompted.exists_append
  exact ⟨echo, hecho⟩

/-- What stands from a number sign on is not touched by prompts before it. -/
theorem stripPrompts_append_sign (before after : List Char) :
    ∃ kept, kept <:+ before ∧ (stripPrompts (before ++ '#' :: after)).1 = kept ++ '#' :: after := by
  obtain ⟨echo, hecho, hsign⟩ :=
    (strips_stripPrompts (before ++ '#' :: after)).prompted.exists_append
  rcases List.append_eq_append_iff.mp hecho with ⟨x, hx, hrest⟩ | ⟨x, hx, hrest⟩
  · exact ⟨x, ⟨echo, hx.symm⟩, hrest⟩
  · -- the sign would have gone with the prompts
    cases x with
    | nil => exact ⟨[], List.nil_suffix, hrest.symm⟩
    | cons c x =>
      obtain ⟨rfl, -⟩ := List.cons.inj hrest
      exact absurd (hx ▸ List.mem_append_right before List.mem_cons_self) hsign

/-! ## Prompts and nothing else -/

/-- A prompt before a space goes with it. -/
theorem stripPrompts_prompt {p : List Char} (hp : p ∈ prompts) (s : List Char) :
    stripPrompts (p ++ ' ' :: s) = ((stripPrompts s).1, true) := by
  have htrim : Text.trimStart (p ++ ' ' :: s) = p ++ ' ' :: s := by
    obtain ⟨hne, hblank⟩ := sign_of_mem_prompts hp
    obtain ⟨c, r, rfl⟩ := List.exists_cons_of_ne_nil hne
    exact List.dropWhile_cons_of_neg (by simp [hblank c List.mem_cons_self])
  refine stripPrompts_eq (.prompt ?_ (strips_stripPrompts s))
  rw [htrim, dropPrompt?_eq_some_iff]
  exact ⟨p, hp, ' ' :: s, rfl, fun c hc => Option.some.inj hc ▸ rfl, rfl⟩

/-- Prompts before a text that begins with none, each with a space behind it, are what goes. -/
theorem stripPrompts_intercalate {ps : List (List Char)} {t : List Char}
    (hps : ∀ p ∈ ps, p ∈ prompts) (ht : stripPrompts t = (t, false)) :
    stripPrompts ([' '].intercalate (ps ++ [t])) = (t, !ps.isEmpty) := by
  induction ps with
  | nil => simpa using ht
  | cons p ps ih =>
    obtain ⟨hp, hrest⟩ := List.forall_mem_cons.mp hps
    have hjoin : [' '].intercalate (p :: ps ++ [t]) =
        p ++ ' ' :: [' '].intercalate (ps ++ [t]) := by
      rw [List.cons_append, List.intercalate_cons_of_ne_nil (by simp), List.append_assoc,
        List.singleton_append]
    rw [hjoin, stripPrompts_prompt hp, ih hrest]
    rfl

/-- Taking prompts off a line takes prompts and nothing else. Of prompts with single spaces behind
them before a text that begins with none the text is left, its blanks included. Of any line what
prompts leave of it is left: its end, which begins with no prompt, and the line itself if there was
none. So of the lines without a marker Python's output is what was printed; a line of its errors
means nothing exactly if prompts were taken off it and only blanks are left, and else it is what was
printed behind the prompts. -/
theorem stripPrompts_takes_prompts :
    (∀ t, stripPrompts t = (t, false) → ∀ ps, ps ≠ [] → (∀ p ∈ ps, p ∈ prompts) →
      stripPrompts ([' '].intercalate (ps ++ [t])) = (t, true)) ∧
    (∀ line, Prompted line (stripPrompts line).1 ∧ (stripPrompts line).1 <:+ line ∧
      stripPrompts (stripPrompts line).1 = ((stripPrompts line).1, false) ∧
      ((stripPrompts line).2 = false → (stripPrompts line).1 = line)) ∧
    ∀ launch line, ¬Marker.opening <:+: line → ¬Marker.ending <:+: line →
      (Adapter.python launch).classifyOutput line .stdout = .outputText (String.ofList line) ∧
      (Adapter.python launch).classifyOutput line .stderr =
        if (stripPrompts line).2 = true ∧ Text.allBlank (stripPrompts line).1 = true then .discard
        else .outputText (String.ofList (stripPrompts line).1) := by
  refine ⟨fun t ht ps hne hps => ?_, fun line => ?_, fun launch line hopening hending => ?_⟩
  · rw [stripPrompts_intercalate hps ht]
    simpa using hne
  · have h := strips_stripPrompts line
    exact ⟨h.prompted, stripPrompts_suffix line, stripPrompts_eq h.clear_rest, h.eq_of_clear⟩
  · -- what is left of the line holds no marker either
    have hsuffix := stripPrompts_suffix line
    have hprinted : ∀ {l : List Char}, l <:+ line →
        Marker.classify l = .outputText (String.ofList l) := by
      intro l hl
      rw [Marker.classify_of_no_opening fun h => hopening (h.trans hl.isInfix), if_neg]
      rw [Marker.isEnd_iff]
      exact fun h => hending (h.trans hl.isInfix)
    refine ⟨hprinted List.suffix_rfl, ?_⟩
    change classifyPrompted line = _
    rw [classifyPrompted]
    simp only [Bool.and_eq_true, hprinted hsuffix]

/-- Two prompts before an indented line of a report. -/
theorem stripPrompts_takes_prompts_indented :
    stripPrompts "   raise".toList = ("   raise".toList, false) ∧
    stripPrompts ">>> ...    raise".toList = ("   raise".toList, true) ∧
    (Adapter.python ⟨"python3", []⟩).classifyOutput ">>> ...    raise".toList .stderr =
      .outputText "   raise" := by
  obtain ⟨htaken, -, hclassified⟩ := stripPrompts_takes_prompts
  have hclear : stripPrompts "   raise".toList = ("   raise".toList, false) := by decide +kernel
  have hline : stripPrompts ">>> ...    raise".toList = ("   raise".toList, true) :=
    htaken _ hclear [">>>".toList, "...".toList] (by decide) (by decide)
  obtain ⟨-, herrors⟩ := hclassified ⟨"python3", []⟩ ">>> ...    raise".toList
    (by decide +kernel) (by decide +kernel)
  rw [hline] at herrors
  exact ⟨hclear, hline, herrors⟩

end StepTrace.Python

import Mathlib.Data.List.Forall2
import StepTrace.Proofs.Posix.Passages
import StepTrace.Proofs.Posix.State

/-!
# Here-documents of a script

While a here-document is open the scan looks at nothing but whether a line is the word that ends it
(`consume_of_inHeredoc`). So the bodies of the pending here-documents may hold any lines but these
words: no marker is put into them, the scan comes out behind the last word as it went in, with the
queue of words worked off, and other bodies of the same lengths leave every marker of the script in
its place (`heredoc_bodies_opaque`).
-/

set_option autoImplicit false

namespace StepTrace.Posix

/-- Whether a line is the word that ends a here-document, tabs before it passed over or not. -/
def Delimiter.isEndedBy (d : Delimiter) (line : List Char) : Bool :=
  (if d.stripTabs then line.dropWhile (· == '\t') else line) == d.word

/-- Bodies for here-documents: each of them holds no line that ends its own. -/
def AreBodies : List Delimiter → List (List (List Char)) → Prop :=
  List.Forall₂ fun d body => ∀ line ∈ body, d.isEndedBy line = false

/-- Here-documents, each body with the word that ends it behind it. -/
def documents : List Delimiter → List (List (List Char)) → List (List Char)
  | d :: ds, body :: bodies => body ++ d.word :: documents ds bodies
  | _, _ => []

/-- A word ends its here-document also where tabs are passed over: it begins with none. -/
theorem Delimiter.isEndedBy_word {d : Delimiter} (h : IsWord d.word) :
    d.isEndedBy d.word = true := by
  have htabs : d.word.dropWhile (· == '\t') = d.word := by
    cases hw : d.word with
    | nil => rfl
    | cons c r =>
      have hblank : Text.isBlank c = false := h.2 c (hw ▸ List.mem_cons_self)
      refine List.dropWhile_cons_of_neg fun hc => ?_
      rw [eq_of_beq hc] at hblank
      cases hblank
  rw [Delimiter.isEndedBy, htabs, ite_self, beq_self_eq_true]

theorem length_documents (ds : List Delimiter) {bodies bodies' : List (List (List Char))}
    (hsize : bodies.map List.length = bodies'.map List.length) :
    (documents ds bodies).length = (documents ds bodies').length := by
  induction ds generalizing bodies bodies' with
  | nil => rfl
  | cons d ds ih =>
    rcases bodies with _ | ⟨body, bodies⟩ <;> rcases bodies' with _ | ⟨body', bodies'⟩
    · rfl
    · cases hsize
    · cases hsize
    · rw [List.map_cons, List.map_cons] at hsize
      obtain ⟨hbody, hbodies⟩ := List.cons.inj hsize
      simp only [documents, List.length_append, List.length_cons, hbody, ih hbodies]

namespace ScriptState

variable {s : ScriptState} {d : Delimiter} {ds : List Delimiter}

theorem startsCommand_of_inHeredoc (h : s.inHeredoc = true) (line : List Char) :
    s.startsCommand line = false := by
  rw [startsCommand, h]
  rfl

/-- In a here-document only the word that ends it means anything. -/
theorem consume_of_inHeredoc (h : s.inHeredoc = true) (hd : s.heredocs = d :: ds)
    (line : List Char) : s.consume line =
      if d.isEndedBy line then { s with heredocs := ds, inHeredoc := !ds.isEmpty } else s := by
  rw [consume, if_pos h, passHeredoc, hd]
  simp only [Delimiter.isEndedBy, beq_iff_eq]

/-- The body of a here-document is passed over. -/
theorem isSilent_body (h : s.inHeredoc = true) (hd : s.heredocs = d :: ds)
    {body : List (List Char)} (hbody : ∀ line ∈ body, d.isEndedBy line = false) :
    s.IsSilent body ∧ body.foldl consume s = s := by
  refine IsSilent.of_consume fun line hline => ⟨startsCommand_of_inHeredoc h line, ?_⟩
  rw [consume_of_inHeredoc h hd, hbody line hline, if_neg Bool.false_ne_true]

/-- All that is pending is passed over, and nothing is pending behind it. -/
theorem isSilent_documents (hs : s.IsSound) (h : s.inHeredoc = true)
    {bodies : List (List (List Char))} (hbodies : AreBodies s.heredocs bodies) :
    s.IsSilent (documents s.heredocs bodies) ∧
      (documents s.heredocs bodies).foldl consume s =
        { s with heredocs := [], inHeredoc := false } := by
  have hbare : s.quoting = .bare := by
    have hboth := hs.inHeredoc
    rw [h, eq_comm, Bool.and_eq_true, beq_iff_eq] at hboth
    exact hboth.1
  have hne : s.heredocs ≠ [] := by
    intro hnone
    rw [hs.inHeredoc_eq_false hnone] at h
    cases h
  generalize hds : s.heredocs = ds at hbodies hne
  -- one here-document after the other: the word that ends one begins the next
  induction hbodies generalizing s with
  | nil => exact absurd rfl hne
  | @cons d body ds bodies hbody hrest ih =>
    obtain ⟨hsilent, hfold⟩ := isSilent_body h hds hbody
    have hword : s.consume d.word = { s with heredocs := ds, inHeredoc := !ds.isEmpty } := by
      rw [consume_of_inHeredoc h hds,
        Delimiter.isEndedBy_word (hs.words d (hds ▸ List.mem_cons_self)), if_pos rfl]
    have hnext := hword ▸ hs.consume d.word
    have hend : s.startsCommand d.word = false := startsCommand_of_inHeredoc h _
    rw [documents, List.foldl_append, hfold, List.foldl_cons, hword]
    by_cases hlast : ds = []
    · subst hlast
      refine ⟨hsilent.append ?_, rfl⟩
      rw [hfold]
      exact ⟨hend, trivial⟩
    · have hopen : (!ds.isEmpty) = true := by simpa using hlast
      obtain ⟨hsilents, hfolds⟩ := ih hnext hopen hbare rfl hlast
      refine ⟨hsilent.append ?_, hfolds⟩
      rw [hfold]
      exact ⟨hend, hword.symm ▸ hsilents⟩

end ScriptState

/-- What the bodies of here-documents hold is nothing to the scan. Whatever lines stand where some
are pending, if none of them is the word that is waited for: no marker is put before one of them or
before a word, and behind the last word the scan is where it was, but for the words that are worked
off. With bodies of the same lengths in their place, all markers of the script stay in theirs. -/
theorem heredoc_bodies_opaque {s : ScriptState} {before rest : List (List Char)}
    {bodies bodies' : List (List (List Char))} {code code' : List Char}
    (hs : before.foldl ScriptState.consume .start = s) (hopen : s.inHeredoc = true)
    (hbodies : AreBodies s.heredocs bodies) (hbodies' : AreBodies s.heredocs bodies')
    (hsize : bodies.map List.length = bodies'.map List.length)
    (hcode : Text.splitLines code = before ++ documents s.heredocs bodies ++ rest)
    (hcode' : Text.splitLines code' = before ++ documents s.heredocs bodies' ++ rest) :
    (∀ above line below, documents s.heredocs bodies = above ++ line :: below →
      isMarked (before ++ above) line = false) ∧
    (before ++ documents s.heredocs bodies).foldl ScriptState.consume .start =
      { s with heredocs := [], inHeredoc := false } ∧
    markedNumbers .start 1 (Text.splitLines code) =
      markedNumbers .start 1 (Text.splitLines code') ∧
    ∃ above below,
      instrument code = Text.joinLines (above ++ documents s.heredocs bodies ++ below) ∧
      instrument code' = Text.joinLines (above ++ documents s.heredocs bodies' ++ below) := by
  have hsound : s.IsSound := hs ▸ ScriptState.isSound_start.foldl before
  obtain ⟨hsilent, hfold⟩ := ScriptState.isSilent_documents hsound hopen hbodies
  obtain ⟨hsilent', hfold'⟩ := ScriptState.isSilent_documents hsound hopen hbodies'
  have hlength := length_documents s.heredocs hsize
  -- The documents are silent and leave the same state, so their lengths are all that can matter.
  refine ⟨fun above line below hcut => ?_, ?_, ?_, markLines .start 1 before,
    markLines { s with heredocs := [], inHeredoc := false }
      (1 + before.length + (documents s.heredocs bodies).length) rest, ?_, ?_⟩
  · rw [isMarked, List.foldl_append, hs]
    exact hsilent.startsCommand hcut
  · rw [List.foldl_append, hs, hfold]
  · rw [hcode, hcode']
    simp only [List.append_assoc, markedNumbers_append, hs, hfold, hfold', hsilent.markedNumbers,
      hsilent'.markedNumbers, hlength]
  · rw [instrument_of_isSilent hcode (hs ▸ hsilent), List.foldl_append, hs, hfold]
  · rw [instrument_of_isSilent hcode' (hs ▸ hsilent'), List.foldl_append, hs, hfold', hlength]

/-- A line that opens two here-documents at the left of a pipe. -/
def pipedLine : List Char := "cat <<-A - <<'B' |".toList

/-- Bodies for them, with a quote, a substitution, a further here-document and the other's word. -/
def noisyBodies : List (List (List Char)) :=
  [["it's $(", "B"].map String.toList, ["A", "cat <<C", "\tB"].map String.toList]

/-- Bodies of the same lengths. -/
def plainBodies : List (List (List Char)) :=
  [["x", "y"].map String.toList, ["z", "", "# z"].map String.toList]

/-- A script with the two here-documents and what follows the pipe. -/
def pipedScript (bodies : List (List (List Char))) : List (List Char) :=
  [pipedLine] ++ documents [⟨['A'], true⟩, ⟨['B'], false⟩] bodies ++
    ["wc", "ls"].map String.toList

/-- Behind the two here-documents the line that opened them still goes on. -/
theorem heredoc_bodies_opaque_pipedLine :
    ∃ s, [pipedLine].foldl ScriptState.consume .start = s ∧ s.inHeredoc = true ∧
      AreBodies s.heredocs noisyBodies ∧ AreBodies s.heredocs plainBodies ∧
      (∀ above line below, documents s.heredocs noisyBodies = above ++ line :: below →
        isMarked ([pipedLine] ++ above) line = false) ∧
      ([pipedLine] ++ documents s.heredocs noisyBodies).foldl ScriptState.consume .start =
        ⟨.bare, [], false, 0, 0, true⟩ ∧
      ∃ above below,
        instrument (Text.joinLines (pipedScript noisyBodies)) =
          Text.joinLines (above ++ documents s.heredocs noisyBodies ++ below) ∧
        instrument (Text.joinLines (pipedScript plainBodies)) =
          Text.joinLines (above ++ documents s.heredocs plainBodies ++ below) := by
  have hs : [pipedLine].foldl ScriptState.consume .start =
      ⟨.bare, [⟨['A'], true⟩, ⟨['B'], false⟩], true, 0, 0, true⟩ := by decide +kernel
  have hnoisy : AreBodies [⟨['A'], true⟩, ⟨['B'], false⟩] noisyBodies :=
    .cons (by decide) (.cons (by decide) .nil)
  have hplain : AreBodies [⟨['A'], true⟩, ⟨['B'], false⟩] plainBodies :=
    .cons (by decide) (.cons (by decide) .nil)
  have hcode : Text.splitLines (Text.joinLines (pipedScript noisyBodies)) =
      pipedScript noisyBodies := by decide +kernel
  have hcode' : Text.splitLines (Text.joinLines (pipedScript plainBodies)) =
      pipedScript plainBodies := by decide +kernel
  obtain ⟨hunmarked, hfold, -, htexts⟩ :=
    heredoc_bodies_opaque hs rfl hnoisy hplain (by decide) hcode hcode'
  exact ⟨_, hs, rfl, hnoisy, hplain, hunmarked, hfold, htexts⟩

end StepTrace.Posix

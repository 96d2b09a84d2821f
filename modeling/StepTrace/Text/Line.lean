import StepTrace.Text.Pieces

/-!
# Lines of a text

Two readings of a text as lines. `splitLines` cuts at every line feed and loses nothing: `joinLines`
puts the pieces back (`joinLines_splitLines`). `lines` is the reading for output: a final line feed
ends the last line instead of opening an empty one, and a carriage return before a line feed goes
with it.
-/

set_option autoImplicit false

namespace StepTrace.Text

/-- The pieces of a text between its line feeds; one more than it has line feeds. -/
def splitLines (s : List Char) : List (List Char) := pieces (· == '\n') s

/-- Lines put together with a line feed between each two. -/
def joinLines : List (List Char) → List Char
  | [] => []
  | [l] => l
  | l :: m :: ls => l ++ '\n' :: joinLines (m :: ls)

/-- A line without one carriage return at its end. -/
def dropReturn (l : List Char) : List Char :=
  if l.getLast? = some '\r' then l.dropLast else l

/-- The lines of an output text: those that a line feed ends, each without a carriage return
before it, then what is left after the last line feed if anything is. -/
def lines (s : List Char) : List (List Char) :=
  let pieces := splitLines s
  let ended := pieces.dropLast.map dropReturn
  match pieces.getLast? with
  | none => ended
  | some [] => ended
  | some last => ended ++ [last]

/-- Line breaks of two characters read as one: each carriage return before a line feed is dropped.
-/
def unifyBreaks : List Char → List Char
  | [] => []
  | c :: r =>
    if c = '\r' ∧ r.head? = some '\n' then unifyBreaks r else c :: unifyBreaks r

/-- How many line feeds a text has. -/
def breaks (s : List Char) : Nat := s.count '\n'

theorem unifyBreaks_sublist (s : List Char) : (unifyBreaks s).Sublist s := by
  induction s with
  | nil => exact List.Sublist.refl _
  | cons c s ih =>
    rw [unifyBreaks]
    split
    · exact ih.cons c
    · exact ih.cons_cons c

/-- Unifying line breaks leaves their number. -/
theorem breaks_unifyBreaks (s : List Char) : breaks (unifyBreaks s) = breaks s := by
  induction s with
  | nil => rfl
  | cons c s ih =>
    rw [breaks, breaks] at ih
    rw [unifyBreaks]
    split
    · next h =>
      rw [breaks, breaks, ih, h.1, List.count_cons_of_ne (by decide)]
    · rw [breaks, breaks, List.count_cons, List.count_cons, ih]

/-- The last character is no carriage return before a line feed. -/
theorem getLast?_unifyBreaks (s : List Char) : (unifyBreaks s).getLast? = s.getLast? := by
  induction s with
  | nil => rfl
  | cons c s ih =>
    rw [unifyBreaks]
    split
    · next h =>
      obtain ⟨s, rfl⟩ := List.head?_eq_some_iff.mp h.2
      rw [ih, List.getLast?_cons_cons]
    · rw [List.getLast?_cons, List.getLast?_cons, ih]

/-- A text without line feeds that stands where line breaks are unified stands there before. -/
theorem isPrefix_of_isPrefix_unifyBreaks {w s : List Char} (hw : '\n' ∉ w)
    (h : w <+: unifyBreaks s) : w <+: s := by
  induction s generalizing w with
  | nil => exact h
  | cons c s ih =>
    cases w with
    | nil => exact List.nil_prefix
    | cons d w =>
      rw [unifyBreaks] at h
      split at h
      · next hbreak =>
        obtain ⟨r, rfl⟩ := List.head?_eq_some_iff.mp hbreak.2
        rw [unifyBreaks, if_neg (by simp)] at h
        exact absurd (List.cons_prefix_cons.mp h).1 fun hd => hw (hd ▸ List.mem_cons_self)
      · obtain ⟨rfl, htail⟩ := List.cons_prefix_cons.mp h
        have hw' : '\n' ∉ w := fun hmem => hw (List.mem_cons_of_mem _ hmem)
        exact List.cons_prefix_cons.mpr ⟨rfl, ih hw' htail⟩

/-- A sign that stands where line breaks are unified stands there before. -/
theorem exists_of_unifyBreaks_eq_append {s u v : List Char} {c : Char} (hc : c ≠ '\n')
    (h : unifyBreaks s = u ++ c :: v) : ∃ u' v', s = u' ++ c :: v' ∧ unifyBreaks u' = u := by
  induction s generalizing u with
  | nil => exact absurd (congrArg List.length h) (by simp [unifyBreaks])
  | cons d s ih =>
    rw [unifyBreaks] at h
    split at h
    · next hbreak =>
      obtain ⟨u', v', rfl, rfl⟩ := ih h
      refine ⟨d :: u', v', rfl, ?_⟩
      -- the line feed behind the return is no sign, so it stands before the sign
      cases u' with
      | nil => exact absurd (Option.some.inj hbreak.2) hc
      | cons e u' => rw [unifyBreaks, if_pos ⟨hbreak.1, hbreak.2⟩]
    · next hkeep =>
      rcases u with _ | ⟨e, u⟩
      · obtain ⟨rfl, -⟩ := List.cons.inj h
        exact ⟨[], s, rfl, rfl⟩
      · obtain ⟨rfl, hs⟩ := List.cons.inj h
        obtain ⟨u', v', rfl, rfl⟩ := ih hs
        refine ⟨d :: u', v', rfl, ?_⟩
        rw [unifyBreaks, if_neg]
        rintro ⟨rfl, hhead⟩
        obtain ⟨u', rfl⟩ := List.head?_eq_some_iff.mp hhead
        exact hkeep ⟨rfl, rfl⟩

theorem isInfix_of_isInfix_unifyBreaks {w s : List Char} (hw : '\n' ∉ w)
    (h : w <:+: unifyBreaks s) : w <:+: s := by
  induction s with
  | nil => exact h
  | cons c s ih =>
    rw [unifyBreaks] at h
    split at h
    · exact (ih h).trans (List.suffix_cons c s).isInfix
    · next hkeep =>
      rcases List.infix_cons_iff.mp h with h | h
      · refine (isPrefix_of_isPrefix_unifyBreaks hw ?_).isInfix
        rw [unifyBreaks, if_neg hkeep]
        exact h
      · exact (ih h).trans (List.suffix_cons c s).isInfix

/-- Line breaks of two characters are what there is to be unified. -/
theorem unifyBreaks_eq_self_iff (s : List Char) : unifyBreaks s = s ↔ ¬['\r', '\n'] <:+: s := by
  induction s with
  | nil => simp [unifyBreaks]
  | cons c s ih =>
    have hstart : ['\r', '\n'] <+: c :: s ↔ c = '\r' ∧ s.head? = some '\n' := by
      cases s <;> simp [List.cons_prefix_cons, eq_comm]
    rw [unifyBreaks, List.infix_cons_iff, hstart, not_or, ← ih]
    split
    · next h =>
      refine iff_of_false (fun heq => ?_) fun hboth => hboth.1 h
      have hlen := (unifyBreaks_sublist s).length_le
      rw [heq, List.length_cons] at hlen
      omega
    · next h => simp [h]

/-- Line breaks are unified line by line: the carriage return before a line feed goes. -/
theorem unifyBreaks_append_break (s rest : List Char) :
    unifyBreaks (s ++ '\n' :: rest) = unifyBreaks (dropReturn s) ++ '\n' :: unifyBreaks rest := by
  induction s with
  | nil => rw [List.nil_append, unifyBreaks, if_neg (by simp)]; rfl
  | cons c s ih =>
    cases s with
    | nil =>
      by_cases hc : c = '\r'
      · subst hc
        rw [List.cons_append, unifyBreaks, if_pos ⟨rfl, rfl⟩, ih]
        rfl
      · have hkeep : dropReturn [c] = [c] := if_neg (by simpa using hc)
        rw [hkeep, List.cons_append, unifyBreaks, if_neg fun h => hc h.1, ih, unifyBreaks,
          if_neg fun h => hc h.1]
        rfl
    | cons d s =>
      have hdrop : dropReturn (c :: d :: s) = c :: dropReturn (d :: s) := by
        simp only [dropReturn, List.getLast?_cons_cons]
        split <;> rfl
      -- where the return is dropped, the character before it sees no line feed either way
      have hhead : (dropReturn (d :: s)).head? = some '\n' ↔ d = '\n' := by
        rw [dropReturn]
        split
        · next hlast =>
          cases s with
          | nil => simp_all
          | cons e s => simp
        · simp
      rw [hdrop, List.cons_append, unifyBreaks, ih, unifyBreaks]
      simp only [hhead, List.cons_append, List.head?_cons, Option.some_inj]
      split <;> rfl

/-- Line breaks in lines that are put together are unified line by line. -/
theorem unifyBreaks_append_newline (s rest : List Char) (h : unifyBreaks s = s)
    (hlast : s.getLast? ≠ some '\r') :
    unifyBreaks (s ++ '\n' :: rest) = s ++ '\n' :: unifyBreaks rest := by
  rw [unifyBreaks_append_break, dropReturn, if_neg hlast, h]

theorem splitLines_ne_nil (s : List Char) : splitLines s ≠ [] := pieces_ne_nil _ s

theorem joinLines_cons (l : List Char) (ls : List (List Char)) (h : ls ≠ []) :
    joinLines (l :: ls) = l ++ '\n' :: joinLines ls := by
  cases ls with
  | nil => exact absurd rfl h
  | cons m ms => rfl

theorem joinLines_cons_cons (c : Char) (l : List Char) (ls : List (List Char)) :
    joinLines ((c :: l) :: ls) = c :: joinLines (l :: ls) := by
  cases ls <;> rfl

/-- Lines put together, cut before one of them. -/
theorem joinLines_append_cons (before : List (List Char)) (l : List Char)
    (rest : List (List Char)) :
    joinLines (before ++ l :: rest) = before.flatMap (· ++ ['\n']) ++ joinLines (l :: rest) := by
  induction before with
  | nil => rfl
  | cons m before ih =>
    rw [List.cons_append, joinLines_cons _ _ (by simp), ih, List.flatMap_cons]
    simp

/-- Cutting a text into lines loses nothing. -/
theorem joinLines_splitLines (s : List Char) : joinLines (splitLines s) = s := by
  induction s with
  | nil => rfl
  | cons c r ih =>
    rw [splitLines] at ih ⊢
    rw [pieces]
    split
    · next h => rw [joinLines_cons _ _ (pieces_ne_nil _ r), ih, eq_of_beq h]; rfl
    · split
      · next h => exact absurd h (pieces_ne_nil _ r)
      · next h => rw [joinLines_cons_cons, ← h, ih]

theorem length_splitLines (s : List Char) : (splitLines s).length = breaks s + 1 :=
  length_pieces _ s

theorem splitLines_append_newline (s t : List Char) :
    splitLines (s ++ '\n' :: t) = splitLines s ++ splitLines t :=
  pieces_append_cons _ s t rfl

theorem splitLines_of_not_mem {s : List Char} (h : '\n' ∉ s) : splitLines s = [s] := by
  refine pieces_of_not_separates _ s fun c hc => ?_
  rw [beq_eq_false_iff_ne]
  rintro rfl
  exact h hc

/-- Texts put together are cut where each of them would be. -/
theorem splitLines_joinLines (ls : List (List Char)) (h : ls ≠ []) :
    splitLines (joinLines ls) = ls.flatMap splitLines := by
  induction ls with
  | nil => exact absurd rfl h
  | cons l ls ih =>
    by_cases hls : ls = []
    · rw [hls, joinLines, List.flatMap_singleton]
    · rw [joinLines_cons l ls hls, splitLines_append_newline, ih hls, List.flatMap_cons]

/-- Lines without line feeds are there again. -/
theorem splitLines_joinLines_of_not_mem {ls : List (List Char)} (hne : ls ≠ [])
    (h : ∀ l ∈ ls, '\n' ∉ l) : splitLines (joinLines ls) = ls := by
  induction ls with
  | nil => exact absurd rfl hne
  | cons l ls ih =>
    obtain ⟨hl, hrest⟩ := List.forall_mem_cons.mp h
    by_cases hls : ls = []
    · rw [hls, joinLines, splitLines_of_not_mem hl]
    · rw [joinLines_cons l ls hls, splitLines_append_newline, splitLines_of_not_mem hl,
        ih hls hrest, List.singleton_append]

theorem joinLines_append (ls ms : List (List Char)) (hls : ls ≠ []) (hms : ms ≠ []) :
    joinLines (ls ++ ms) = joinLines ls ++ '\n' :: joinLines ms := by
  induction ls with
  | nil => exact absurd rfl hls
  | cons l ls ih =>
    by_cases h : ls = []
    · rw [h, List.singleton_append, joinLines_cons l ms hms, joinLines]
    · rw [List.cons_append, joinLines_cons l _ (by simp [h]), ih h, joinLines_cons l ls h,
        List.append_assoc, List.cons_append]

/-- Texts are put together like the lines of them. -/
theorem joinLines_flatMap_splitLines (ls : List (List Char)) :
    joinLines (ls.flatMap splitLines) = joinLines ls := by
  induction ls with
  | nil => rfl
  | cons l ls ih =>
    by_cases h : ls = []
    · rw [h, List.flatMap_singleton, joinLines_splitLines, joinLines]
    · have hne : ls.flatMap splitLines ≠ [] := by
        obtain ⟨m, ms, rfl⟩ := List.exists_cons_of_ne_nil h
        rw [List.flatMap_cons]
        exact List.append_ne_nil_of_left_ne_nil (splitLines_ne_nil m) _
      rw [List.flatMap_cons, joinLines_append _ _ (splitLines_ne_nil l) hne, ih,
        joinLines_splitLines, joinLines_cons l ls h]

theorem infix_of_mem_splitLines {s l : List Char} (h : l ∈ splitLines s) : l <:+: s :=
  infix_of_mem_pieces _ s h

theorem newline_not_mem_of_mem_splitLines {s l : List Char} (h : l ∈ splitLines s) : '\n' ∉ l :=
  fun hmem => absurd (not_separates_of_mem_pieces _ s h '\n' hmem) (by decide)

theorem dropReturn_isPrefix (l : List Char) : dropReturn l <+: l := by
  rw [dropReturn]
  split
  · exact List.dropLast_prefix l
  · exact List.prefix_rfl

/-- A line of output is what one between line feeds begins with. -/
theorem exists_of_mem_lines {s l : List Char} (h : l ∈ lines s) : ∃ m ∈ splitLines s, l <+: m := by
  have hended : l ∈ (splitLines s).dropLast.map dropReturn → ∃ m ∈ splitLines s, l <+: m := by
    intro hl
    obtain ⟨m, hm, rfl⟩ := List.mem_map.mp hl
    exact ⟨m, (List.dropLast_sublist _).subset hm, dropReturn_isPrefix m⟩
  rw [lines] at h
  cases hlast : (splitLines s).getLast? with
  | none => exact hended (by simpa [hlast] using h)
  | some last =>
    rw [hlast] at h
    cases last with
    | nil => exact hended h
    | cons c r =>
      rcases List.mem_append.mp h with h | h
      · exact hended h
      · exact ⟨l, List.mem_singleton.mp h ▸ List.mem_of_getLast? hlast, List.prefix_rfl⟩

theorem newline_not_mem_of_mem_lines {s l : List Char} (h : l ∈ lines s) : '\n' ∉ l := by
  obtain ⟨m, hm, hbegins⟩ := exists_of_mem_lines h
  exact fun hmem => newline_not_mem_of_mem_splitLines hm (hbegins.subset hmem)

theorem dropReturn_of_not_mem {l : List Char} (h : '\r' ∉ l) : dropReturn l = l := by
  rw [dropReturn, if_neg]
  exact fun hlast => h (List.mem_of_getLast? hlast)

theorem splitLines_ended (ls : List (List Char)) (h : ∀ l ∈ ls, '\n' ∉ l) :
    splitLines (ls.flatMap (· ++ ['\n'])) = ls ++ [[]] := by
  induction ls with
  | nil => rfl
  | cons l ls ih =>
    rw [List.flatMap_cons, List.append_assoc, List.singleton_append, splitLines_append_newline,
      splitLines_of_not_mem (h l (by simp)), ih fun m hm => h m (by simp [hm])]
    rfl

/-- A text whose lines are each ended by a line feed has these lines. -/
theorem lines_ended (ls : List (List Char)) (h : ∀ l ∈ ls, '\n' ∉ l ∧ '\r' ∉ l) :
    lines (ls.flatMap (· ++ ['\n'])) = ls := by
  rw [lines, splitLines_ended ls fun l hl => (h l hl).1, List.dropLast_concat,
    List.getLast?_concat, List.map_congr_left fun l hl => dropReturn_of_not_mem (h l hl).2,
    List.map_id']

/-- The two readings of a text as lines are one where no carriage return stands and no line feed
ends the text. -/
theorem lines_eq_splitLines {s : List Char} (hreturn : '\r' ∉ s)
    (hlast : (splitLines s).getLast? ≠ some []) : lines s = splitLines s := by
  have hdrop : ∀ l ∈ splitLines s, dropReturn l = l := fun l hl =>
    dropReturn_of_not_mem fun hr => hreturn ((infix_of_mem_splitLines hl).subset hr)
  have hended : (splitLines s).dropLast.map dropReturn = (splitLines s).dropLast := by
    rw [List.map_congr_left fun l hl => hdrop l ((List.dropLast_sublist _).subset hl), List.map_id']
  rw [lines, hended]
  cases hl : (splitLines s).getLast? with
  | none => exact absurd (List.getLast?_eq_none_iff.mp hl) (splitLines_ne_nil s)
  | some last =>
    cases last with
    | nil => exact absurd hl hlast
    | cons c last =>
      obtain ⟨before, heq⟩ := List.getLast?_eq_some_iff.mp hl
      rw [heq, List.dropLast_concat]

end StepTrace.Text

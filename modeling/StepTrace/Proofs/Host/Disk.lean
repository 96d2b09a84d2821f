import Mathlib.Data.List.Basic
import StepTrace.Host.Disk

/-!
# What is written to a disk

No operation of a disk that saves a file takes a directory away (`Keeps`), so a path leads after it
where it led before. A file that has been written is found under the same path and holds what was
written (`read?_write?`).
-/

set_option autoImplicit false

namespace StepTrace.Host.Disk

/-- Every directory of a disk is one of another disk. -/
def Keeps (d d' : Disk) : Prop :=
  ∀ place, d.isDirectoryAt place = true → d'.isDirectoryAt place = true

variable {d d' d'' : Disk} {place other way : List String} {names : List String}
  {directory : List String} {path : String} {bytes : List Char} {entry : Entry}

theorem Keeps.refl (d : Disk) : Keeps d d := fun _ h => h

theorem Keeps.trans (h : Keeps d d') (h' : Keeps d' d'') : Keeps d d'' :=
  fun place hplace => h' place (h place hplace)

theorem isDirectoryAt_iff : d.isDirectoryAt place = true ↔ d.at? place = some .directory :=
  beq_iff_eq

theorem at?_of_ne (h : place ≠ []) :
    d.at? place = (d.entries.find? fun e => e.1 == place).map Prod.snd := by
  rw [at?, if_neg (by simpa using h)]

/-- What stands on a disk after something is put at a place other than the root. -/
theorem at?_put (hplace : place ≠ []) (entry : Entry) (other : List String) :
    (d.put place entry).at? other = if other = place then some entry else d.at? other := by
  by_cases hroot : other = []
  · subst hroot
    rw [if_neg fun h => hplace h.symm]
    rfl
  rw [at?_of_ne hroot, at?_of_ne hroot, put]
  cases hfound : d.at? place with
  | none =>
    rw [at?_of_ne hplace, Option.map_eq_none_iff] at hfound
    rw [if_neg (by simp), List.find?_append]
    by_cases hother : other = place
    · simp [hother, hfound]
    · simp [hother, Ne.symm hother]
  | some old =>
    -- the entry is changed where it stands, so every place keeps its turn in the search
    have hname : ∀ e : List String × Entry,
        (if e.1 == place then (place, entry) else e).1 = e.1 := by
      intro e
      split
      · next h => exact (eq_of_beq h).symm
      · rfl
    rw [if_pos (by simp), List.find?_map]
    simp only [Function.comp_def, hname]
    by_cases hother : other = place
    · rw [at?_of_ne hplace] at hfound
      obtain ⟨e, he, rfl⟩ := Option.map_eq_some_iff.mp hfound
      have hplace : e.1 = place := by simpa using List.find?_some he
      simp [hother, he, hplace]
    · rw [if_neg hother]
      cases he : d.entries.find? fun e => e.1 == other with
      | none => rfl
      | some e =>
        have hne : e.1 = other := by simpa using List.find?_some he
        simp [hne, hother]

/-- Nothing but a directory may be put where a directory stands. -/
theorem keeps_put (hplace : place ≠ [])
    (h : entry = .directory ∨ d.at? place ≠ some .directory) : Keeps d (d.put place entry) := by
  intro other hother
  rw [isDirectoryAt_iff] at hother ⊢
  rw [at?_put hplace]
  split
  · next heq =>
    rcases h with rfl | h
    · rfl
    · exact absurd (heq ▸ hother) h
  · exact hother

/-- Making directories takes none away. -/
theorem keeps_makeWay (h : d.makeWay place names = some d') : Keeps d d' := by
  induction names generalizing d place with
  | nil =>
    rw [makeWay] at h
    split at h
    · cases h
      exact .refl _
    · cases h
  | cons name names ih =>
    rw [makeWay] at h
    split at h
    · cases h
    · dsimp only at h
      generalize hnext : (if name = ".." then place.dropLast else place ++ [name]) = next at h
      split at h
      · next hnone =>
        have hne : next ≠ [] := by
          rintro rfl
          cases hnone
        exact (keeps_put hne (.inl rfl)).trans (ih h)
      · exact ih h

theorem keeps_makeDirectories (h : d.makeDirectories directory path = some d') : Keeps d d' := by
  rw [makeDirectories] at h
  split at h
  · cases h
  · exact keeps_makeWay h

/-- A path leads where it led. -/
theorem Keeps.follow (h : Keeps d d') (hfollow : d.follow place names = some way) :
    d'.follow place names = some way := by
  induction names generalizing place with
  | nil => exact hfollow
  | cons name names ih =>
    rw [Disk.follow] at hfollow ⊢
    split at hfollow
    · next hdirectory =>
      rw [if_pos (h place hdirectory)]
      exact ih hfollow
    · cases hfollow

theorem Keeps.locate (h : Keeps d d') (hlocate : d.locate directory path = some place) :
    d'.locate directory path = some place := by
  rw [Disk.locate] at hlocate ⊢
  split at hlocate
  · cases hlocate
  · next hpath =>
    rw [if_neg hpath]
    exact h.follow hlocate

/-- Something stands under a path if it stands at its place; at the end of a path that can only mean
a directory there is nothing else. -/
theorem find?_eq_some_iff : d.find? directory path = some entry ↔
    ∃ place, d.locate directory path = some place ∧ d.at? place = some entry ∧
      (Path.endsInSlash path = true → entry = .directory) := by
  rw [find?]
  cases hlocate : d.locate directory path with
  | none => simp
  | some place =>
    cases hat : d.at? place with
    | none => simp [hat]
    | some other =>
      simp only [Option.bind_eq_bind, Option.bind_some, hat, Option.some.injEq, exists_eq_left']
      split
      next hrefused =>
        rw [Bool.and_eq_true, bne_iff_ne] at hrefused
        refine iff_of_false nofun ?_
        rintro ⟨rfl, hdirectory⟩
        exact hrefused.2 (hdirectory hrefused.1)
      next haccepted =>
        rw [Bool.and_eq_true, bne_iff_ne, not_and_not_right] at haccepted
        refine ⟨?_, fun h => congrArg some h.1⟩
        rintro ⟨⟩
        exact ⟨rfl, haccepted⟩

/-- The directories under paths stay. -/
theorem Keeps.isDirectory (h : Keeps d d') (hdirectory : d.isDirectory directory path = true) :
    d'.isDirectory directory path = true := by
  rw [Disk.isDirectory, beq_iff_eq, find?_eq_some_iff] at hdirectory ⊢
  obtain ⟨place, hlocate, hat, -⟩ := hdirectory
  refine ⟨place, h.locate hlocate, ?_, fun _ => rfl⟩
  exact isDirectoryAt_iff.mp (h place (isDirectoryAt_iff.mpr hat))

/-- Writing puts a file at the place of a path that may mean a file, where no directory stands. -/
theorem write?_eq_some (h : d.write? directory path bytes = some d') :
    ∃ place executable, d.locate directory path = some place ∧ Path.endsInSlash path = false ∧
      d.at? place ≠ some .directory ∧ d' = d.put place (.file (.data bytes) executable) := by
  rw [write?] at h
  cases hlocate : d.locate directory path with
  | none =>
    rw [hlocate] at h
    cases h
  | some place =>
    rw [hlocate] at h
    simp only [Option.bind_eq_bind, Option.bind_some] at h
    simp at h
    obtain ⟨⟨hslash, -⟩, h⟩ := h
    split at h
    · cases h
    · next content executable hat =>
      cases h
      exact ⟨place, executable, rfl, hslash, by rw [hat]; simp, rfl⟩
    · next hat =>
      cases h
      exact ⟨place, false, rfl, hslash, by rw [hat]; simp, rfl⟩

/-- A file that has been written is there and holds what was written. -/
theorem read?_write? (h : d.write? directory path bytes = some d') :
    d'.isFile directory path = true ∧ d'.read? directory path = some bytes ∧ Keeps d d' := by
  obtain ⟨place, executable, hlocate, hslash, hat, rfl⟩ := write?_eq_some h
  have hne : place ≠ [] := by
    rintro rfl
    exact hat rfl
  have hkeeps : Keeps d (d.put place (.file (.data bytes) executable)) := keeps_put hne (.inr hat)
  have hfound : (d.put place (.file (.data bytes) executable)).find? directory path =
      some (.file (.data bytes) executable) := by
    refine find?_eq_some_iff.mpr ⟨place, hkeeps.locate hlocate, ?_, ?_⟩
    · rw [at?_put hne, if_pos rfl]
    · rw [hslash]
      rintro ⟨⟩
  exact ⟨by rw [isFile, hfound], by rw [read?, hfound], hkeeps⟩

end StepTrace.Host.Disk

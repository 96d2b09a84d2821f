/-!
# Environments

An environment gives values to names. Its entries are kept in the order of the names and no name
occurs twice, so two environments with the same values are equal (`ext_get?`). `merge` lets the
second environment win.
-/

set_option autoImplicit false

namespace StepTrace

/-- Entries in the strict order of their names. -/
def Ordered (entries : List (String × String)) : Prop := entries.Pairwise fun a b => a.1 < b.1

/-- A finite map from names to values. -/
structure Environment where
  entries : List (String × String)
  ordered : Ordered entries

namespace Environment

/-- The entries after a name is given a value. -/
def insertEntry (name value : String) : List (String × String) → List (String × String)
  | [] => [(name, value)]
  | e :: rest =>
    if name < e.1 then (name, value) :: e :: rest
    else if name = e.1 then (name, value) :: rest
    else e :: insertEntry name value rest

theorem mem_insertEntry {name value : String} {a : String × String}
    {entries : List (String × String)} (h : a ∈ insertEntry name value entries) :
    a = (name, value) ∨ a ∈ entries := by
  induction entries with
  | nil => simpa [insertEntry] using h
  | cons e rest ih =>
    rw [insertEntry] at h
    split at h
    · simpa using h
    · split at h
      · rcases List.mem_cons.1 h with h | h
        · exact .inl h
        · exact .inr (List.mem_cons_of_mem e h)
      · rcases List.mem_cons.1 h with h | h
        · exact .inr (h ▸ List.mem_cons_self)
        · rcases ih h with h | h
          · exact .inl h
          · exact .inr (List.mem_cons_of_mem e h)

theorem lt_of_not_lt_of_ne {a b : String} (h : ¬a < b) (hne : a ≠ b) : b < a := by
  rw [← String.not_le]
  exact fun hab => hne (String.le_antisymm hab (String.not_lt.1 h))

theorem ordered_insertEntry (name value : String) {entries : List (String × String)}
    (h : Ordered entries) : Ordered (insertEntry name value entries) := by
  induction entries with
  | nil => exact List.pairwise_singleton _ _
  | cons e rest ih =>
    obtain ⟨he, hrest⟩ := List.pairwise_cons.1 h
    rw [Ordered, insertEntry]
    split
    · next hlt =>
      refine List.pairwise_cons.2 ⟨fun a ha => ?_, h⟩
      rcases List.mem_cons.1 ha with ha | ha
      · exact ha ▸ hlt
      · exact String.lt_trans hlt (he a ha)
    · next hlt =>
      split
      · next heq => exact List.pairwise_cons.2 ⟨fun a ha => heq ▸ he a ha, hrest⟩
      · next hne =>
        refine List.pairwise_cons.2 ⟨fun a ha => ?_, ih hrest⟩
        rcases mem_insertEntry ha with ha | ha
        · exact ha ▸ lt_of_not_lt_of_ne hlt hne
        · exact he a ha

/-- The environment without names. -/
def empty : Environment := ⟨[], List.Pairwise.nil⟩

instance : Inhabited Environment := ⟨empty⟩

instance : DecidableEq Environment := fun a b =>
  if h : a.entries = b.entries then isTrue (by cases a; cases b; cases h; rfl)
  else isFalse fun hab => h (hab ▸ rfl)

/-- The environment after a name is given a value. -/
def insert (env : Environment) (name value : String) : Environment :=
  ⟨insertEntry name value env.entries, ordered_insertEntry name value env.ordered⟩

/-- The value of a name among entries. -/
def findEntry (name : String) : List (String × String) → Option String
  | [] => none
  | e :: rest => if e.1 = name then some e.2 else findEntry name rest

/-- The value of a name. -/
def get? (env : Environment) (name : String) : Option String := findEntry name env.entries

/-- The environment without a name. -/
def erase (env : Environment) (name : String) : Environment :=
  ⟨env.entries.filter fun e => e.1 != name, List.Pairwise.filter _ env.ordered⟩

/-- The environment of a list of entries, of which a later one wins. -/
def ofList (entries : List (String × String)) : Environment :=
  entries.foldl (fun env e => env.insert e.1 e.2) empty

/-- Two environments in one; the second wins. -/
def merge (base overlay : Environment) : Environment :=
  overlay.entries.foldl (fun env e => env.insert e.1 e.2) base

theorem findEntry_insertEntry (name value other : String) (entries : List (String × String)) :
    findEntry other (insertEntry name value entries) =
      if name = other then some value else findEntry other entries := by
  induction entries with
  | nil => rfl
  | cons e rest ih =>
    rw [insertEntry]
    split
    · rfl
    · split
      · next heq =>
        by_cases h : name = other
        · simp [findEntry, h]
        · have h' : ¬e.1 = other := fun he => h (heq.trans he)
          simp [findEntry, h, h']
      · next hne =>
        by_cases he : e.1 = other
        · have h : ¬name = other := fun h => hne (h.trans he.symm)
          simp [findEntry, he, h]
        · simp [findEntry, he, ih]

/-- A name has the value it was last given. -/
theorem get?_insert (env : Environment) (name value other : String) :
    (env.insert name value).get? other = if name = other then some value else env.get? other :=
  findEntry_insertEntry name value other env.entries

theorem findEntry_eq_none {name : String} {entries : List (String × String)}
    (h : ∀ e ∈ entries, name < e.1) : findEntry name entries = none := by
  induction entries with
  | nil => rfl
  | cons e rest ih =>
    have hne : ¬e.1 = name := fun he => String.lt_irrefl name (he ▸ h e List.mem_cons_self)
    simp [findEntry, hne, ih fun a ha => h a (List.mem_cons_of_mem e ha)]

theorem entries_ext {a b : List (String × String)} (ha : Ordered a) (hb : Ordered b)
    (h : ∀ name, findEntry name a = findEntry name b) : a = b := by
  induction a generalizing b with
  | nil =>
    cases b with
    | nil => rfl
    | cons f _ => simpa [findEntry] using h f.1
  | cons e rest ih =>
    cases b with
    | nil => simpa [findEntry] using h e.1
    | cons f tail =>
      obtain ⟨he, hrest⟩ := List.pairwise_cons.1 ha
      obtain ⟨hf, htail⟩ := List.pairwise_cons.1 hb
      have hname : e.1 = f.1 := by
        by_cases hlt : e.1 < f.1
        · have hnone : findEntry e.1 (f :: tail) = none := findEntry_eq_none fun a ha => by
            rcases List.mem_cons.1 ha with ha | ha
            · exact ha ▸ hlt
            · exact String.lt_trans hlt (hf a ha)
          rw [← h e.1] at hnone
          simp [findEntry] at hnone
        · by_cases hne : e.1 = f.1
          · exact hne
          · have hlt' := lt_of_not_lt_of_ne hlt hne
            have hnone : findEntry f.1 (e :: rest) = none := findEntry_eq_none fun a ha => by
              rcases List.mem_cons.1 ha with ha | ha
              · exact ha ▸ hlt'
              · exact String.lt_trans hlt' (he a ha)
            rw [h f.1] at hnone
            simp [findEntry] at hnone
      have hvalue : e.2 = f.2 := by
        have := h e.1
        simpa [findEntry, hname] using this
      have htails : rest = tail := ih hrest htail fun name => by
        by_cases hn : e.1 = name
        · rw [findEntry_eq_none fun a ha => hn ▸ he a ha,
            findEntry_eq_none fun a ha => hn ▸ hname ▸ hf a ha]
        · have hn' : ¬f.1 = name := hname ▸ hn
          simpa [findEntry, hn, hn'] using h name
      rw [htails, show e = f from Prod.ext hname hvalue]

/-- Environments with the same values are equal. -/
theorem ext_get? {a b : Environment} (h : ∀ name, a.get? name = b.get? name) : a = b := by
  have := entries_ext a.ordered b.ordered h
  cases a
  cases b
  cases this
  rfl

theorem get?_foldl_insert (name : String) {entries : List (String × String)} (h : Ordered entries)
    (env : Environment) :
    (entries.foldl (fun env e => env.insert e.1 e.2) env).get? name =
      (findEntry name entries).or (env.get? name) := by
  induction entries generalizing env with
  | nil => rfl
  | cons e rest ih =>
    obtain ⟨he, hrest⟩ := List.pairwise_cons.1 h
    rw [List.foldl_cons, ih hrest, get?_insert, findEntry]
    by_cases hname : e.1 = name
    · rw [if_pos hname, if_pos hname, findEntry_eq_none fun a ha => hname ▸ he a ha]
      rfl
    · rw [if_neg hname, if_neg hname]

/-- A name has the value that the second environment gives it, or else that of the first. -/
theorem get?_merge (base overlay : Environment) (name : String) :
    (base.merge overlay).get? name = (overlay.get? name).or (base.get? name) :=
  get?_foldl_insert name overlay.ordered base

theorem merge_empty (env : Environment) : empty.merge env = env :=
  ext_get? fun name => (get?_merge empty env name).trans (Option.or_none)

/-- The entries of an environment make it up again. -/
theorem ofList_entries (env : Environment) : ofList env.entries = env := merge_empty env

end Environment

end StepTrace

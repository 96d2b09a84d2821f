import StepTrace.Proofs.Toml.Values

/-!
# Tables survive TOML

A table with a header, and the table within it, read back as what their lines write
(`leads_titled`, `leads_titled_within`). A reader goes from place to place (`Leads`); the table
that the last header opened is the last one of its table, so what a line changes there is changed at
the end (`walk_last`).
-/

set_option autoImplicit false

namespace StepTrace.Toml

variable {name : String} {before members : Members} {header : List String} {t rest r : List Char}

/-! ## Tables -/

/-- The names of the members of a table. -/
def names (members : Members) : List String := members.map Prod.fst

theorem ne_of_mem (h : name ∉ names members) {m : String × Node} (hm : m ∈ members) :
    (m.1 == name) = false :=
  beq_eq_false_iff_ne.mpr fun heq => h (heq ▸ List.mem_map_of_mem hm)

theorem find?_eq_none (h : name ∉ names members) : members.find? (fun m => m.1 == name) = none :=
  List.find?_eq_none.mpr fun m hm => by simp [ne_of_mem h hm]

theorem find?_last (h : name ∉ names before) (node : Node) :
    find? name (before ++ [(name, node)]) = some node := by
  simp [find?, List.find?_append, find?_eq_none h]

theorem replace_last (h : name ∉ names before) (node node' : Node) :
    replace name node' (before ++ [(name, node)]) = before ++ [(name, node')] := by
  have hbefore : before.map (fun m => if m.1 == name then (name, node') else m) = before :=
    (List.map_congr_left fun m hm => by simp [ne_of_mem h hm]).trans (List.map_id before)
  rw [replace, List.map_append, hbefore]
  simp

theorem add_new (h : name ∉ names members) (node : Node) :
    add name node members = some (members ++ [(name, node)]) := by
  simp [add, find?, find?_eq_none h]

/-- A header leads into the last table, and what changes there changes at the end. -/
theorem walk_last (h : name ∉ names before) (change : Members → Option Members)
    (path : List String) (implied dotted : Bool) :
    walk false change (name :: path) (before ++ [(name, .table implied dotted members)]) =
      (walk false change path members).map fun inner =>
        before ++ [(name, .table implied dotted inner)] := by
  rw [walk, find?_last h]
  cases hinner : walk false change path members <;> simp [hinner, replace_last h]

/-! ## Places -/

/-- A place in a document: the last header, what has been read, and what follows. -/
structure Place where
  header : List String
  members : Members
  rest : List Char

/-- Reading on from one place is reading on from another. -/
def Leads (p q : Place) : Prop :=
  ∀ fuel, p.rest.length < fuel → ∃ left, q.rest.length < left ∧
    readLines fuel p.header p.members p.rest = readLines left q.header q.members q.rest

theorem Leads.refl (p : Place) : Leads p p := fun fuel hfuel => ⟨fuel, hfuel, rfl⟩

theorem Leads.trans {p q r : Place} (hpq : Leads p q) (hqr : Leads q r) : Leads p r := by
  intro fuel hfuel
  obtain ⟨left, hleft, hread⟩ := hpq fuel hfuel
  obtain ⟨left', hleft', hread'⟩ := hqr left hleft
  exact ⟨left', hleft', hread.trans hread'⟩

/-- A place that leads to the end of the document has been read there. -/
theorem Leads.readLines {p : Place} (h : Leads p ⟨header, members, []⟩) {fuel : Nat}
    (hfuel : p.rest.length < fuel) :
    readLines fuel p.header p.members p.rest = some members := by
  obtain ⟨left, hleft, hread⟩ := h fuel hfuel
  obtain ⟨k, rfl⟩ : ∃ k, left = k + 1 := ⟨left - 1, by simp at hleft; omega⟩
  rw [hread, Toml.readLines]
  rfl

theorem leads_blank (header : List String) (members : Members) (r : List Char) :
    Leads ⟨header, members, '\n' :: r⟩ ⟨header, members, r⟩ := by
  intro fuel hfuel
  obtain ⟨k, rfl⟩ : ∃ k, fuel = k + 1 := ⟨fuel - 1, by dsimp only at hfuel; omega⟩
  refine ⟨k, by simpa using hfuel, ?_⟩
  rw [readLines]
  rfl

/-! ## Names -/

/-- A name begins with a quote or with a character of a name without quotes. -/
theorem begins_of_readNamePart {p : String × List Char} (h : readNamePart t = some p) :
    ∃ c r, t = c :: r ∧ (isBare c = true ∨ c = '\x22' ∨ c = '\x27') := by
  rw [readNamePart.eq_def] at h
  split at h
  next => exact ⟨_, _, rfl, .inr (.inl rfl)⟩
  next => exact ⟨_, _, rfl, .inr (.inr rfl)⟩
  next =>
    cases t with
    | nil => cases h
    | cons c r =>
      by_cases hc : isBare c = true
      · exact ⟨c, r, rfl, .inl hc⟩
      · rw [List.span_eq_takeWhile_dropWhile, List.takeWhile_cons_of_neg hc] at h
        cases h

theorem skipBlanks_of_ne {c : Char} (hspace : c ≠ ' ') (htab : c ≠ '\t') :
    skipBlanks (c :: r) = c :: r := by
  rw [skipBlanks, List.dropWhile_cons_of_neg (by simp [hspace, htab])]

/-- No sign that ends a name, or that begins another line, begins a name. -/
theorem begins_quoteName (name : String) : ∃ c r, quoteName name.toList = c :: r ∧
    c ∉ [' ', '\t', '[', '\n', '\r', '#'] := by
  have hread : readNamePart (quoteName name.toList ++ []) = some (name, []) :=
    readNamePart_quoteName name (by simp)
  rw [List.append_nil] at hread
  obtain ⟨c, r, hname, hc⟩ := begins_of_readNamePart hread
  refine ⟨c, r, hname, ?_⟩
  rcases hc with hc | rfl | rfl
  · intro hmem
    simp only [List.mem_cons, List.not_mem_nil, or_false] at hmem
    rcases hmem with rfl | rfl | rfl | rfl | rfl | rfl <;> exact absurd hc (by decide)
  · decide
  · decide

theorem skipBlanks_quoteName (name : String) (r : List Char) :
    skipBlanks (quoteName name.toList ++ r) = quoteName name.toList ++ r := by
  obtain ⟨c, s, hname, hc⟩ := begins_quoteName name
  rw [hname, List.cons_append]
  exact skipBlanks_of_ne (by rintro rfl; exact hc (by decide)) (by rintro rfl; exact hc (by decide))

/-- The last part of a name, before a sign that no name goes on with. -/
theorem readParts_last (left : Nat) (name : String) (hbare : ∀ c ∈ rest.head?, isBare c = false)
    (hdot : (skipBlanks rest).head? ≠ some '.') :
    readParts (left + 1) (quoteName name.toList ++ rest) = some (([], name), skipBlanks rest) := by
  rw [readParts, skipBlanks_quoteName, readNamePart_quoteName name hbare]
  simp only [Option.bind_eq_bind, Option.bind_some]
  split
  next heq => exact absurd (congrArg List.head? heq) hdot
  next => rfl

/-- A part of a name with more behind it. -/
theorem readParts_dot (left : Nat) (name : String) (r : List Char) :
    readParts (left + 1) (quoteName name.toList ++ '.' :: r) =
      (readParts left r).bind fun p => some ((name :: p.1.1, p.1.2), p.2) := by
  have hdot : skipBlanks ('.' :: r) = '.' :: r := skipBlanks_of_ne (by decide) (by decide)
  rw [readParts, skipBlanks_quoteName, readNamePart_quoteName name (by simp; decide)]
  simp only [Option.bind_eq_bind, Option.bind_some, hdot]
  rfl

/-! ## Lines -/

/-- A line of a table. -/
structure Field where
  name : String
  text : List Char
  value : Json
  writes : Writes text value

namespace Field

def line (f : Field) : List Char := assignment f.name f.text

def member (f : Field) : String × Node := (f.name, .leaf f.value)

end Field

theorem skipBlanks_writes {value : Json} (h : Writes t value) (r : List Char) :
    skipBlanks (' ' :: (t ++ '\n' :: r)) = t ++ '\n' :: r := by
  rw [skipBlanks, List.dropWhile_cons_of_pos (by decide), ← skipBlanks]
  cases t with
  | nil => exact skipBlanks_of_ne (by decide) (by decide)
  | cons c s =>
    obtain ⟨hspace, htab⟩ := h.noBlank c rfl
    exact skipBlanks_of_ne hspace htab

theorem line_append (f : Field) (r : List Char) : f.line ++ r =
    quoteName f.name.toList ++ ' ' :: '=' :: ' ' :: (f.text ++ '\n' :: r) := by
  simp [Field.line, assignment]

theorem readName_line (f : Field) (r : List Char) :
    readName (f.line ++ r) = some (([], f.name), '=' :: ' ' :: (f.text ++ '\n' :: r)) := by
  have hequals : skipBlanks (' ' :: '=' :: ' ' :: (f.text ++ '\n' :: r)) =
      '=' :: ' ' :: (f.text ++ '\n' :: r) := rfl
  rw [readName, maxParts, line_append, readParts_last 79 f.name (by simp; decide)
    (by rw [hequals]; simp), hequals]

/-- A line gives a name of the last table its value. -/
theorem leads_line (f : Field) {members' : Members}
    (h : within header (add f.name (.leaf f.value)) members = some members') (r : List Char) :
    Leads ⟨header, members, f.line ++ r⟩ ⟨header, members', r⟩ := by
  intro fuel hfuel
  have hlength : f.text.length + r.length < (f.line ++ r).length := by
    simp [line_append]
    omega
  obtain ⟨k, rfl⟩ : ∃ k, fuel = k + 1 := ⟨fuel - 1, by dsimp only at hfuel; omega⟩
  refine ⟨k, by dsimp only at hfuel ⊢; omega, ?_⟩
  have hread := f.writes.reads (k + 1) r (by dsimp only at hfuel; omega)
  obtain ⟨c, s, hname, hc⟩ := begins_quoteName f.name
  have hline : f.line ++ r = c :: (s ++ ' ' :: '=' :: ' ' :: (f.text ++ '\n' :: r)) := by
    rw [line_append, hname]
    rfl
  have hnamed := readName_line f r
  have hskip : skipBlanks (f.line ++ r) = f.line ++ r := by
    rw [line_append, skipBlanks_quoteName]
  -- a name begins neither a header nor an empty line
  dsimp only
  rw [readLines, hskip]
  rw [hline] at hnamed ⊢
  split
  next heq => cases heq
  next heq =>
    rw [(List.cons.inj heq).1] at hc
    exact absurd (by decide) hc
  next heq =>
    rw [(List.cons.inj heq).1] at hc
    exact absurd (by decide) hc
  next c' s' _ _ heq =>
    obtain ⟨rfl, rfl⟩ := List.cons.inj heq
    have hsign : ¬(c = '\n' ∨ c = '\r' ∨ c = '#') := by
      rintro (rfl | rfl | rfl) <;> exact hc (by decide)
    have hassign : within header (assign [] f.name f.value) members = some members' := h
    rw [if_neg hsign]
    simp only [hnamed, Option.bind_eq_bind, Option.bind_some, skipBlanks_writes f.writes, hread]
    rw [hassign]
    rfl

/-- Lines give the names of the last table their values; `plug` is what stands around that table. -/
theorem leads_lines {plug : Members → Members}
    (hplug : ∀ change ms, within header change (plug ms) = (change ms).map plug)
    (fields : List Field) (ms : Members)
    (hnames : (names ms ++ fields.map Field.name).Nodup) (r : List Char) :
    Leads ⟨header, plug ms, (fields.map Field.line).flatten ++ r⟩
      ⟨header, plug (ms ++ fields.map Field.member), r⟩ := by
  -- each line adds a member behind those of the lines before it
  induction fields generalizing ms with
  | nil =>
    simpa using Leads.refl ⟨header, plug ms, r⟩
  | cons f fields ih =>
    have hnew : f.name ∉ names ms := fun hmem =>
      (List.nodup_append.mp hnames).2.2 _ hmem _ List.mem_cons_self rfl
    have hline : within header (add f.name (.leaf f.value)) (plug ms) =
        some (plug (ms ++ [f.member])) := by
      rw [hplug, add_new hnew]
      rfl
    have hrest : (names (ms ++ [f.member]) ++ fields.map Field.name).Nodup := by
      simpa [names, Field.member] using hnames
    rw [List.map_cons, List.flatten_cons, List.append_assoc]
    refine (leads_line f hline _).trans ?_
    simpa using ih (ms ++ [f.member]) hrest

/-! ## Tables with headers -/

/-- A header opens the table that it names. -/
theorem leads_header {path : List String} {members' : Members} (hbegins : t.head? ≠ some '[')
    (hread : readHeader [']'] t = some ((path, name), r)) (hlength : r.length < t.length)
    (hopen : openTable path name members = some members') :
    Leads ⟨header, members, '[' :: t⟩ ⟨path ++ [name], members', r⟩ := by
  intro fuel hfuel
  dsimp only [List.length_cons] at hfuel ⊢
  obtain ⟨k, rfl⟩ : ∃ k, fuel = k + 1 := ⟨fuel - 1, by omega⟩
  refine ⟨k, by omega, ?_⟩
  have hskip : skipBlanks ('[' :: t) = '[' :: t := skipBlanks_of_ne (by decide) (by decide)
  rw [readLines, hskip]
  split
  next heq => cases heq
  next heq =>
    cases heq
    exact absurd rfl hbegins
  next heq =>
    cases heq
    simp [hread, hopen]
  next _ hne heq => exact (hne (List.cons.inj heq).1.symm).elim

/-- The members of a table with these lines. -/
def table (fields : List Field) : Node := .table false false (fields.map Field.member)

/-- A name that stands without quotes in a header. -/
def IsPlain (name : String) : Prop := quoteName name.toList = name.toList

instance (name : String) : Decidable (IsPlain name) :=
  inferInstanceAs (Decidable (quoteName name.toList = name.toList))

theorem skipBlanks_bracket (r : List Char) : skipBlanks (']' :: r) = ']' :: r :=
  skipBlanks_of_ne (by decide) (by decide)

theorem readParts_header (left : Nat) (h : IsPlain name) (r : List Char) :
    readParts (left + 1) (name.toList ++ ']' :: r) = some (([], name), ']' :: r) := by
  rw [← h, readParts_last left name (by simp; decide) (by simp [skipBlanks_bracket]),
    skipBlanks_bracket]

theorem readHeader_plain (h : IsPlain name) (r : List Char) :
    readHeader [']'] (name.toList ++ ']' :: '\n' :: r) = some (([], name), r) := by
  rw [readHeader, readName, maxParts, readParts_header 79 h]
  rfl

theorem readHeader_dotted {outer : String} (houter : IsPlain outer) (h : IsPlain name)
    (r : List Char) :
    readHeader [']'] (outer.toList ++ '.' :: (name.toList ++ ']' :: '\n' :: r)) =
      some (([outer], name), r) := by
  rw [readHeader, readName, maxParts, ← houter, readParts_dot 79, readParts_header 78 h]
  rfl

theorem IsPlain.head? (h : IsPlain name) (r : List Char) : (name.toList ++ r).head? ≠ some '[' := by
  obtain ⟨c, s, hname, hc⟩ := begins_quoteName name
  rw [← h, hname]
  rintro ⟨⟩
  exact hc (by decide)

/-- A table with a header becomes the last member of the document. -/
theorem leads_titled (h : IsPlain name) (hnew : name ∉ names members) (fields : List Field)
    (hnames : (fields.map Field.name).Nodup) (header : List String) (r : List Char) :
    Leads ⟨header, members, titled name (fields.map Field.line) ++ r⟩
      ⟨[name], members ++ [(name, table fields)], r⟩ := by
  have htext : titled name (fields.map Field.line) ++ r =
      '[' :: (name.toList ++ ']' :: '\n' :: ((fields.map Field.line).flatten ++ r)) := by
    simp [titled]
  have hopen : openTable [] name members = some (members ++ [(name, .table false false [])]) := by
    simp [openTable, walk, openHere, find?, find?_eq_none hnew]
  rw [htext]
  refine (leads_header (h.head? _) (readHeader_plain h _) (by simp; omega) hopen).trans ?_
  exact leads_lines (fun change ms => walk_last hnew change [] false false) fields [] hnames r

/-- A table with the header of a table within the last one becomes the last member there. -/
theorem leads_titled_within (title outer name : String) (houter : IsPlain outer)
    (h : IsPlain name) (htitle : title.toList = outer.toList ++ '.' :: name.toList)
    (hlast : outer ∉ names before) (hnew : name ∉ names members) (fields : List Field)
    (hnames : (fields.map Field.name).Nodup) (header : List String) (r : List Char) :
    Leads
      ⟨header, before ++ [(outer, .table false false members)],
        titled title (fields.map Field.line) ++ r⟩
      ⟨[outer, name], before ++ [(outer, .table false false (members ++ [(name, table fields)]))],
        r⟩ := by
  have htext : titled title (fields.map Field.line) ++ r = '[' :: (outer.toList ++ '.' ::
      (name.toList ++ ']' :: '\n' :: ((fields.map Field.line).flatten ++ r))) := by
    simp [titled, htitle]
  have hopen : openTable [outer] name (before ++ [(outer, .table false false members)]) = some
      (before ++ [(outer, .table false false (members ++ [(name, .table false false [])]))]) := by
    rw [openTable, walk_last hlast]
    simp [walk, openHere, find?, find?_eq_none hnew]
  rw [htext]
  refine (leads_header (houter.head? _) (readHeader_dotted houter h _) (by simp; omega)
    hopen).trans ?_
  -- a field is put into the inner table, which is the last member of the last table
  have hplug (change : Members → Option Members) (ms : Members) :
      within [outer, name] change (before ++ [(outer, .table false false (members ++
        [(name, .table false false ms)]))]) = (change ms).map fun ms =>
          before ++ [(outer, .table false false (members ++ [(name, .table false false ms)]))] := by
    rw [within, walk_last hlast, walk_last hnew, Option.map_map]
    rfl
  exact leads_lines hplug fields [] hnames r

theorem membersToJson_eq_map (members : Members) :
    membersToJson members = members.map fun m => (m.1, m.2.toJson) := by
  induction members with
  | nil => rfl
  | cons m members ih => rw [membersToJson, ih, List.map_cons]

/-- The data of a table. -/
theorem toJson_table (fields : List Field) :
    (table fields).toJson = .object (fields.map fun f => (f.name, f.value)) := by
  rw [table, Node.toJson, membersToJson_eq_map, List.map_map]
  rfl

end StepTrace.Toml

/-!
# Positions in a text

Positions count the bytes of the text's UTF-8 form. `takeBytes` and `dropBytes` cut a text at such a
position, `cutAt` at the first place where another text stands in it. `joinAt_cutAt` says that a cut
loses only that text.
-/

set_option autoImplicit false

namespace StepTrace.Text

/-- The number of bytes of a text's UTF-8 form. -/
def byteSize : List Char → Nat
  | [] => 0
  | c :: r => c.utf8Size + byteSize r

/-- The longest leading part of a text that has at most `n` bytes. -/
def takeBytes : Nat → List Char → List Char
  | _, [] => []
  | n, c :: r => if c.utf8Size ≤ n then c :: takeBytes (n - c.utf8Size) r else []

/-- What `takeBytes` leaves. -/
def dropBytes : Nat → List Char → List Char
  | _, [] => []
  | n, c :: r => if c.utf8Size ≤ n then dropBytes (n - c.utf8Size) r else c :: r

/-- The part of a text between two positions. -/
def sliceBytes (start stop : Nat) (s : List Char) : List Char :=
  dropBytes start (takeBytes stop s)

/-- What stands before and after the first place where `mark` stands in a text. -/
def cutAt (mark : List Char) : List Char → Option (List Char × List Char)
  | [] => if mark = [] then some ([], []) else none
  | c :: r =>
    if mark.isPrefixOf (c :: r) then some ([], (c :: r).drop mark.length)
    else (cutAt mark r).map fun p => (c :: p.1, p.2)

/-- Whether `mark` stands somewhere in a text. -/
def contains (mark s : List Char) : Bool := (cutAt mark s).isSome

/-- A text after `mark`, if it begins with it. -/
def dropLeading? (mark s : List Char) : Option (List Char) :=
  if mark.isPrefixOf s then some (s.drop mark.length) else none

theorem byteSize_append (s t : List Char) : byteSize (s ++ t) = byteSize s + byteSize t := by
  induction s with
  | nil => simp [byteSize]
  | cons c r ih => simp [byteSize, ih, Nat.add_assoc]

theorem takeBytes_append_dropBytes (n : Nat) (s : List Char) :
    takeBytes n s ++ dropBytes n s = s := by
  induction s generalizing n with
  | nil => rfl
  | cons c r ih =>
    by_cases h : c.utf8Size ≤ n
    · simp [takeBytes, dropBytes, h, ih]
    · simp [takeBytes, dropBytes, h]

theorem byteSize_takeBytes_le (n : Nat) (s : List Char) : byteSize (takeBytes n s) ≤ n := by
  induction s generalizing n with
  | nil => simp [takeBytes, byteSize]
  | cons c r ih =>
    by_cases h : c.utf8Size ≤ n
    · have := ih (n - c.utf8Size)
      simp only [takeBytes, h, if_true, byteSize]
      omega
    · simp [takeBytes, h, byteSize]

theorem takeBytes_of_byteSize_le (n : Nat) (s : List Char) (h : byteSize s ≤ n) :
    takeBytes n s = s := by
  induction s generalizing n with
  | nil => rfl
  | cons c r ih =>
    rw [byteSize] at h
    rw [takeBytes, if_pos (by omega), ih _ (by omega)]

theorem dropBytes_of_byteSize_le (n : Nat) (s : List Char) (h : byteSize s ≤ n) :
    dropBytes n s = [] := by
  induction s generalizing n with
  | nil => rfl
  | cons c r ih =>
    rw [byteSize] at h
    rw [dropBytes, if_pos (by omega), ih _ (by omega)]

theorem dropBytes_zero (s : List Char) : dropBytes 0 s = s := by
  cases s with
  | nil => rfl
  | cons c r =>
    have hpos := c.utf8Size_pos
    rw [dropBytes, if_neg (by omega)]

theorem takeBytes_byteSize (s t : List Char) : takeBytes (byteSize s) (s ++ t) = s := by
  induction s with
  | nil =>
    cases t with
    | nil => rfl
    | cons c t =>
      have hpos := c.utf8Size_pos
      rw [List.nil_append, byteSize, takeBytes, if_neg (by omega)]
  | cons c s ih =>
    rw [List.cons_append, byteSize, takeBytes, if_pos (by omega), Nat.add_sub_cancel_left, ih]

theorem dropBytes_byteSize (s t : List Char) : dropBytes (byteSize s) (s ++ t) = t := by
  induction s with
  | nil => exact dropBytes_zero t
  | cons c s ih =>
    rw [List.cons_append, byteSize, dropBytes, if_pos (by omega), Nat.add_sub_cancel_left, ih]

/-- A part of a text stands between the sizes of what is before it and of what is through it. -/
theorem sliceBytes_byteSize (before s after : List Char) :
    sliceBytes (byteSize before) (byteSize (before ++ s)) (before ++ s ++ after) = s := by
  rw [sliceBytes, takeBytes_byteSize, dropBytes_byteSize]

/-- A cut loses only the text that it cuts at. -/
theorem joinAt_cutAt (mark s before after : List Char) (h : cutAt mark s = some (before, after)) :
    before ++ mark ++ after = s := by
  induction s generalizing before after with
  | nil =>
    rw [cutAt] at h
    split at h
    · next hm => cases h; simp [hm]
    · cases h
  | cons c r ih =>
    rw [cutAt] at h
    split at h
    · next hm =>
      cases h
      obtain ⟨t, ht⟩ := List.isPrefixOf_iff_prefix.1 hm
      rw [← ht]
      simp
    · cases hr : cutAt mark r with
      | none => simp [hr] at h
      | some p =>
        simp only [hr, Option.map_some, Option.some.injEq, Prod.mk.injEq] at h
        obtain ⟨rfl, rfl⟩ := h
        simpa using ih p.1 p.2 hr

/-- A text is cut where another stands and stood at no place before, not even in part. -/
theorem cutAt_eq_some_iff {mark s before after : List Char} (hmark : mark ≠ []) :
    cutAt mark s = some (before, after) ↔
      s = before ++ (mark ++ after) ∧ ¬mark <:+: before ++ mark.dropLast := by
  have hlength : mark.length = mark.dropLast.length + 1 := by
    rw [List.length_dropLast, Nat.sub_add_cancel (List.length_pos_iff.mpr hmark)]
  -- the other text does not fit into what stands before its last character and begins later
  have hfits : ∀ {c b}, mark <+: c :: (b ++ (mark ++ after)) ↔
      mark <+: c :: (b ++ mark.dropLast) := by
    intro c b
    have hpart : c :: (b ++ mark.dropLast) <+: c :: (b ++ (mark ++ after)) :=
      (List.prefix_append_right_inj (c :: b)).mpr
        ((List.dropLast_prefix mark).trans (List.prefix_append mark after))
    refine ⟨fun h => List.prefix_of_prefix_length_le h hpart ?_, fun h => h.trans hpart⟩
    rw [List.length_cons, List.length_append]
    omega
  induction s generalizing before with
  | nil =>
    rw [cutAt, if_neg hmark]
    refine iff_of_false (by simp) fun h => hmark ?_
    have hnil := List.append_eq_nil_iff.mp h.1.symm
    exact (List.append_eq_nil_iff.mp hnil.2).1
  | cons c s ih =>
    rw [cutAt]
    split
    · next hstands =>
      obtain ⟨rest, hrest⟩ := List.isPrefixOf_iff_prefix.mp hstands
      rw [← hrest, List.drop_left, Option.some_inj, Prod.mk.injEq]
      constructor
      · rintro ⟨rfl, rfl⟩
        refine ⟨rfl, fun hin => ?_⟩
        have hle := hin.length_le
        rw [List.nil_append] at hle
        omega
      · rintro ⟨heq, hfirst⟩
        cases before with
        | nil => exact ⟨rfl, List.append_cancel_left heq⟩
        | cons d before =>
          have hprefix : mark <+: d :: (before ++ (mark ++ after)) := ⟨rest, heq⟩
          exact absurd (hfits.mp hprefix).isInfix hfirst
    · next hstands =>
      rw [List.isPrefixOf_iff_prefix] at hstands
      cases before with
      | nil =>
        refine iff_of_false (fun h => ?_) fun h => hstands ⟨after, h.1.symm⟩
        cases hs : cutAt mark s <;> simp [hs] at h
      | cons d before =>
        have hmap : (cutAt mark s).map (fun p => (c :: p.1, p.2)) = some (d :: before, after) ↔
            c = d ∧ cutAt mark s = some (before, after) := by
          cases cutAt mark s with
          | none => simp
          | some p => simp [Prod.ext_iff, and_assoc]
        rw [hmap, List.cons_append, List.cons_append, List.infix_cons_iff, not_or, ← hfits,
          List.cons.injEq]
        refine (and_congr_right fun _ => ih).trans ?_
        constructor
        · rintro ⟨rfl, rfl, hfirst⟩
          exact ⟨⟨rfl, rfl⟩, hstands, hfirst⟩
        · rintro ⟨⟨rfl, rfl⟩, -, hfirst⟩
          exact ⟨rfl, rfl, hfirst⟩

/-- A text is cut where another first stands, as it does after characters that it does not begin
with. -/
theorem cutAt_append {mark before : List Char} (after : List Char) (hmark : mark ≠ [])
    (hbefore : ∀ c ∈ mark.head?, c ∉ before) :
    cutAt mark (before ++ (mark ++ after)) = some (before, after) := by
  obtain ⟨d, mark, rfl⟩ := List.exists_cons_of_ne_nil hmark
  induction before with
  | nil =>
    have hprefix : (d :: mark).isPrefixOf (d :: mark ++ after) = true := by
      rw [List.isPrefixOf_iff_prefix]
      exact List.prefix_append _ _
    rw [List.nil_append, List.cons_append, cutAt, ← List.cons_append, if_pos hprefix,
      List.drop_left]
  | cons c before ih =>
    have hne : ¬(d :: mark).isPrefixOf (c :: (before ++ (d :: mark ++ after))) = true := by
      rw [List.isPrefixOf_iff_prefix, List.cons_prefix_cons]
      exact fun h => hbefore d rfl (h.1 ▸ List.mem_cons_self)
    rw [List.cons_append, cutAt, if_neg hne,
      ih fun e he hmem => hbefore e he (List.mem_cons_of_mem c hmem)]
    rfl

theorem dropLeading?_eq_some_iff {mark s rest : List Char} :
    dropLeading? mark s = some rest ↔ s = mark ++ rest := by
  rw [dropLeading?]
  split
  · next h =>
    obtain ⟨t, rfl⟩ := List.isPrefixOf_iff_prefix.mp h
    rw [List.drop_left, Option.some_inj, List.append_cancel_left_eq]
  · next h =>
    refine iff_of_false (by simp) ?_
    rintro rfl
    exact h (List.isPrefixOf_iff_prefix.mpr (List.prefix_append mark rest))

/-- A text can be cut exactly where the other one stands in it. -/
theorem contains_iff_infix (mark s : List Char) : contains mark s = true ↔ mark <:+: s := by
  induction s with
  | nil =>
    rw [contains, cutAt, List.infix_nil]
    split <;> simp_all
  | cons c r ih =>
    rw [contains, cutAt, List.infix_cons_iff, ← ih, contains]
    split
    · next h => simp [List.isPrefixOf_iff_prefix.mp h]
    · next h =>
      rw [List.isPrefixOf_iff_prefix] at h
      simp [h]

end StepTrace.Text

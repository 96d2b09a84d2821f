/-!
# Pieces of a list

`pieces` cuts a list at every element that separates. The pieces are one more than the separating
elements (`length_pieces`), and none of them holds such an element (`not_separates_of_mem_pieces`).
-/

set_option autoImplicit false

namespace StepTrace.Text

/-- The pieces of a list between the elements that separate. -/
def pieces {α : Type} (separates : α → Bool) : List α → List (List α)
  | [] => [[]]
  | a :: r =>
    if separates a then [] :: pieces separates r
    else match pieces separates r with
      | [] => [[a]]
      | p :: ps => (a :: p) :: ps

theorem pieces_ne_nil {α : Type} (separates : α → Bool) (s : List α) : pieces separates s ≠ [] := by
  cases s with
  | nil => simp [pieces]
  | cons a r =>
    rw [pieces]
    split
    · simp
    · split <;> simp

theorem length_pieces {α : Type} (separates : α → Bool) (s : List α) :
    (pieces separates s).length = s.countP separates + 1 := by
  induction s with
  | nil => rfl
  | cons a r ih =>
    rw [pieces]
    split
    · next h => simp [h, ih]
    · next h =>
      split
      · next hr => exact absurd hr (pieces_ne_nil separates r)
      · next hr =>
        rw [hr] at ih
        simpa [List.countP_cons, h] using ih

/-- A separating element parts the pieces before it from those behind it. -/
theorem pieces_append_cons {α : Type} (separates : α → Bool) (s t : List α) {a : α}
    (ha : separates a = true) :
    pieces separates (s ++ a :: t) = pieces separates s ++ pieces separates t := by
  induction s with
  | nil => simp [pieces, ha]
  | cons b s ih =>
    rw [List.cons_append, pieces, ih, pieces]
    split
    · rfl
    · cases hs : pieces separates s with
      | nil => exact absurd hs (pieces_ne_nil separates s)
      | cons p ps => rfl

/-- A list without separating elements is one piece. -/
theorem pieces_of_not_separates {α : Type} (separates : α → Bool) (s : List α)
    (h : ∀ a ∈ s, separates a = false) : pieces separates s = [s] := by
  induction s with
  | nil => rfl
  | cons a s ih =>
    rw [pieces, h a List.mem_cons_self, ih fun b hb => h b (List.mem_cons_of_mem a hb)]
    rfl

/-- The first piece is what a list begins with. -/
theorem head_pieces_isPrefix {α : Type} (separates : α → Bool) (s : List α) {p : List α}
    (hp : p ∈ (pieces separates s).head?) : p <+: s := by
  induction s generalizing p with
  | nil =>
    cases hp
    exact List.nil_prefix
  | cons a r ih =>
    rw [pieces] at hp
    split at hp
    · cases hp
      exact List.nil_prefix
    · split at hp
      · next hr => exact absurd hr (pieces_ne_nil separates r)
      · next q qs hr =>
        cases hp
        exact List.cons_prefix_cons.mpr ⟨rfl, ih (by rw [hr]; rfl)⟩

theorem infix_of_mem_pieces {α : Type} (separates : α → Bool) (s : List α) {p : List α}
    (hp : p ∈ pieces separates s) : p <:+: s := by
  induction s generalizing p with
  | nil => simp_all [pieces]
  | cons a r ih =>
    rw [pieces] at hp
    split at hp
    · rcases List.mem_cons.1 hp with rfl | hp
      · exact List.nil_infix
      · exact List.infix_cons (ih hp)
    · split at hp
      · next hr => exact absurd hr (pieces_ne_nil separates r)
      · next q qs hr =>
        rcases List.mem_cons.1 hp with rfl | hp
        · have hq := head_pieces_isPrefix separates r (p := q) (by rw [hr]; rfl)
          exact (List.cons_prefix_cons.mpr ⟨rfl, hq⟩).isInfix
        · exact List.infix_cons (ih (hr ▸ List.mem_cons_of_mem q hp))

theorem not_separates_of_mem_pieces {α : Type} (separates : α → Bool) (s : List α) {p : List α}
    (hp : p ∈ pieces separates s) : ∀ a ∈ p, separates a = false := by
  induction s generalizing p with
  | nil => simp_all [pieces]
  | cons b r ih =>
    rw [pieces] at hp
    split at hp
    · rcases List.mem_cons.1 hp with rfl | hp
      · simp
      · exact ih hp
    · next hb =>
      split at hp
      · next hr => exact absurd hr (pieces_ne_nil separates r)
      · next q qs hr =>
        rw [hr] at ih
        rcases List.mem_cons.1 hp with rfl | hp
        · intro a ha
          rcases List.mem_cons.1 ha with rfl | ha
          · simpa using hb
          · exact ih List.mem_cons_self a ha
        · exact ih (List.mem_cons_of_mem q hp)

end StepTrace.Text

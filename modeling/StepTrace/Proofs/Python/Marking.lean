import Mathlib.Logic.Function.Iterate
import StepTrace.Python.Stmt.Marking

/-!
# What marking adds

A program holds statement lists at every depth: itself and the bodies of its statements. After
marking, each statement in each of them stands directly behind a marker with its line
(`eachAnnounced_markAll`, `eachAnnounced_of_mem_listsInAll`). The markers are all that was added:
without those that stand directly before a statement the program is what it was
(`unmarkAll_markAll`), and there is one for each statement that is counted (`markersAll_markAll`).
`marks_every_statement` puts this together, for marking any number of times.
-/

set_option autoImplicit false

namespace StepTrace.Python.Stmt

/-! ## Lists and markers in a tree -/

mutual

/-- The statement lists in a statement: its bodies, each followed by the lists in it. -/
def listsIn : Stmt → List (List Stmt)
  | simple _ _ => []
  | marker _ => []
  | branch _ _ body orelse => (body :: listsInAll body) ++ (orelse :: listsInAll orelse)
  | loop _ _ body orelse => (body :: listsInAll body) ++ (orelse :: listsInAll orelse)
  | attempt _ body handlers orelse final =>
    (body :: listsInAll body) ++ listsInClauses handlers ++ (orelse :: listsInAll orelse) ++
      (final :: listsInAll final)
  | scope _ _ body => body :: listsInAll body
  | define _ _ _ body => body :: listsInAll body
  | choose _ _ cases => listsInClauses cases

/-- The statement lists in the statements of a list. -/
def listsInAll : List Stmt → List (List Stmt)
  | [] => []
  | s :: rest => listsIn s ++ listsInAll rest

/-- The bodies of clauses, each followed by the lists in it. -/
def listsInClauses : List Clause → List (List Stmt)
  | [] => []
  | .mk _ _ body :: rest => (body :: listsInAll body) ++ listsInClauses rest

end

mutual

/-- The number of markers in a statement. -/
def markers : Stmt → Nat
  | simple _ _ => 0
  | marker _ => 1
  | branch _ _ body orelse => markersAll body + markersAll orelse
  | loop _ _ body orelse => markersAll body + markersAll orelse
  | attempt _ body handlers orelse final =>
    markersAll body + markersClauses handlers + markersAll orelse + markersAll final
  | scope _ _ body => markersAll body
  | define _ _ _ body => markersAll body
  | choose _ _ cases => markersClauses cases

/-- The number of markers in a list of statements. -/
def markersAll : List Stmt → Nat
  | [] => 0
  | s :: rest => markers s + markersAll rest

/-- The number of markers in the bodies of clauses. -/
def markersClauses : List Clause → Nat
  | [] => 0
  | .mk _ _ body :: rest => markersAll body + markersClauses rest

end

/-- Whether a list begins with a statement that is no marker. -/
def startsUnmarked (ss : List Stmt) : Bool := ss.head?.any fun s => !s.isMarker

mutual

/-- A statement without the markers directly before the statements in its bodies. -/
def unmarked : Stmt → Stmt
  | simple line text => simple line text
  | marker line => marker line
  | branch line header body orelse => branch line header (unmarkAll body) (unmarkAll orelse)
  | loop line header body orelse => loop line header (unmarkAll body) (unmarkAll orelse)
  | attempt line body handlers orelse final =>
    attempt line (unmarkAll body) (unmarkClauses handlers) (unmarkAll orelse) (unmarkAll final)
  | scope line header body => scope line header (unmarkAll body)
  | define line decorators header body => define line decorators header (unmarkAll body)
  | choose line header cases => choose line header (unmarkClauses cases)

/-- A list of statements without the markers directly before its statements, nor such in bodies. A
marker before another or at the end of the list stays. -/
def unmarkAll : List Stmt → List Stmt
  | [] => []
  | s :: rest =>
    if s.isMarker && startsUnmarked rest then unmarkAll rest else unmarked s :: unmarkAll rest

/-- Clauses without the markers directly before the statements in their bodies. -/
def unmarkClauses : List Clause → List Clause
  | [] => []
  | .mk line header body :: rest => .mk line header (unmarkAll body) :: unmarkClauses rest

end

/-- Whether each statement of a list that is no marker stands directly behind a marker with its
line. -/
def EachAnnounced (ss : List Stmt) : Prop :=
  ∀ before s after, ss = before ++ s :: after → s.isMarker = false →
    before.getLast? = some (marker s.line)

variable {s : Stmt} {ss rest : List Stmt}

/-! ## Marked statements -/

@[simp] theorem isMarker_marked (s : Stmt) : s.marked.isMarker = s.isMarker := by
  cases s <;> rfl

@[simp] theorem line_marked (s : Stmt) : s.marked.line = s.line := by
  cases s <;> rfl

theorem exists_eq_marker (h : s.isMarker = true) : ∃ line, s = marker line := by
  cases s with
  | marker line => exact ⟨line, rfl⟩
  | _ => cases h

theorem markAll_cons_of_marker (h : s.isMarker = true) :
    markAll (s :: rest) = s :: markAll rest := by
  rw [markAll, if_pos h]

theorem markAll_cons_of_not_marker (h : s.isMarker = false) :
    markAll (s :: rest) = marker s.line :: s.marked :: markAll rest := by
  rw [markAll, if_neg (by rw [h]; simp)]

/-- A marked list begins with a marker, if with anything. -/
theorem startsUnmarked_markAll (ss : List Stmt) : startsUnmarked (markAll ss) = false := by
  cases ss with
  | nil => rfl
  | cons s rest =>
    cases h : s.isMarker with
    | true =>
      rw [markAll_cons_of_marker h, startsUnmarked, List.head?_cons, Option.any_some, h]
      rfl
    | false => rw [markAll_cons_of_not_marker h]; rfl

/-! ## Every statement is announced -/

theorem eachAnnounced_nil : EachAnnounced [] := fun before _ _ h =>
  absurd h.symm (List.append_ne_nil_of_right_ne_nil before (List.cons_ne_nil _ _))

/-- What stands behind a list that begins with no statement of its own is announced as before. -/
theorem EachAnnounced.cons_marker (h : EachAnnounced rest) (hs : s.isMarker = true) :
    EachAnnounced (s :: rest) := by
  intro before u after heq hu
  cases before with
  | nil =>
    obtain ⟨rfl, -⟩ := List.cons.inj heq
    exact absurd (hs.symm.trans hu) (by simp)
  | cons d before =>
    obtain ⟨rfl, hrest⟩ := List.cons.inj heq
    have hlast := h before u after hrest hu
    rw [List.getLast?_cons, hlast]
    rfl

theorem EachAnnounced.cons_announced (h : EachAnnounced rest) :
    EachAnnounced (marker s.line :: s :: rest) := by
  intro before u after heq hu
  rcases before with _ | ⟨d, _ | ⟨e, before⟩⟩
  · obtain ⟨rfl, -⟩ := List.cons.inj heq
    cases hu
  · obtain ⟨rfl, hrest⟩ := List.cons.inj heq
    obtain ⟨rfl, -⟩ := List.cons.inj hrest
    rfl
  · obtain ⟨rfl, hpair⟩ := List.cons.inj heq
    obtain ⟨rfl, hrest⟩ := List.cons.inj hpair
    have hlast := h before u after hrest hu
    rw [List.getLast?_cons_cons, List.getLast?_cons, hlast]
    rfl

theorem eachAnnounced_markAll (ss : List Stmt) : EachAnnounced (markAll ss) := by
  induction ss with
  | nil => exact eachAnnounced_nil
  | cons s rest ih =>
    cases h : s.isMarker with
    | true =>
      rw [markAll_cons_of_marker h]
      exact ih.cons_marker h
    | false =>
      rw [markAll_cons_of_not_marker h, ← line_marked s]
      exact ih.cons_announced

/-- Lists of which each is announced if those after one are and the one is marked. -/
theorem forall_cons_markAll {lists : List (List Stmt)} (ss : List Stmt)
    (h : ∀ ss ∈ lists, EachAnnounced ss) : ∀ ss' ∈ markAll ss :: lists, EachAnnounced ss' :=
  List.forall_mem_cons.mpr ⟨eachAnnounced_markAll ss, h⟩

mutual

theorem eachAnnounced_of_mem_listsIn : (s : Stmt) → ∀ ss ∈ listsIn s.marked, EachAnnounced ss
  | simple _ _ => fun _ h => absurd h List.not_mem_nil
  | marker _ => fun _ h => absurd h List.not_mem_nil
  | branch _ _ body orelse => List.forall_mem_append.mpr
    ⟨forall_cons_markAll body (eachAnnounced_of_mem_listsInAll body),
      forall_cons_markAll orelse (eachAnnounced_of_mem_listsInAll orelse)⟩
  | loop _ _ body orelse => List.forall_mem_append.mpr
    ⟨forall_cons_markAll body (eachAnnounced_of_mem_listsInAll body),
      forall_cons_markAll orelse (eachAnnounced_of_mem_listsInAll orelse)⟩
  | attempt _ body handlers orelse final => List.forall_mem_append.mpr
    ⟨List.forall_mem_append.mpr ⟨List.forall_mem_append.mpr
        ⟨forall_cons_markAll body (eachAnnounced_of_mem_listsInAll body),
          eachAnnounced_of_mem_listsInClauses handlers⟩,
        forall_cons_markAll orelse (eachAnnounced_of_mem_listsInAll orelse)⟩,
      forall_cons_markAll final (eachAnnounced_of_mem_listsInAll final)⟩
  | scope _ _ body => forall_cons_markAll body (eachAnnounced_of_mem_listsInAll body)
  | define _ _ _ body => forall_cons_markAll body (eachAnnounced_of_mem_listsInAll body)
  | choose _ _ cases => eachAnnounced_of_mem_listsInClauses cases

theorem eachAnnounced_of_mem_listsInAll : (ss : List Stmt) →
    ∀ ss' ∈ listsInAll (markAll ss), EachAnnounced ss'
  | [] => fun _ h => absurd h List.not_mem_nil
  | s :: rest => by
    have hs := eachAnnounced_of_mem_listsIn s
    have hrest := eachAnnounced_of_mem_listsInAll rest
    cases h : s.isMarker with
    | true =>
      obtain ⟨line, rfl⟩ := exists_eq_marker h
      rw [markAll_cons_of_marker h]
      exact hrest
    | false =>
      rw [markAll_cons_of_not_marker h]
      show ∀ ss' ∈ listsIn s.marked ++ listsInAll (markAll rest), EachAnnounced ss'
      exact List.forall_mem_append.mpr ⟨hs, hrest⟩

theorem eachAnnounced_of_mem_listsInClauses : (clauses : List Clause) →
    ∀ ss ∈ listsInClauses (markClauses clauses), EachAnnounced ss
  | [] => fun _ h => absurd h List.not_mem_nil
  | .mk _ _ body :: rest => List.forall_mem_append.mpr
    ⟨forall_cons_markAll body (eachAnnounced_of_mem_listsInAll body),
      eachAnnounced_of_mem_listsInClauses rest⟩

end

/-! ## Nothing else changes -/

mutual

theorem unmarked_marked : (s : Stmt) → unmarked (marked s) = s
  | simple _ _ => rfl
  | marker _ => rfl
  | branch _ _ body orelse => by
    rw [marked, unmarked, unmarkAll_markAll body, unmarkAll_markAll orelse]
  | loop _ _ body orelse => by
    rw [marked, unmarked, unmarkAll_markAll body, unmarkAll_markAll orelse]
  | attempt _ body handlers orelse final => by
    rw [marked, unmarked, unmarkAll_markAll body, unmarkClauses_markClauses handlers,
      unmarkAll_markAll orelse, unmarkAll_markAll final]
  | scope _ _ body => by rw [marked, unmarked, unmarkAll_markAll body]
  | define _ _ _ body => by rw [marked, unmarked, unmarkAll_markAll body]
  | choose _ _ cases => by rw [marked, unmarked, unmarkClauses_markClauses cases]

/-- Without the markers directly before its statements a marked program is what it was. -/
theorem unmarkAll_markAll : (ss : List Stmt) → unmarkAll (markAll ss) = ss
  | [] => rfl
  | s :: rest => by
    have hs := unmarked_marked s
    have hrest := unmarkAll_markAll rest
    cases h : s.isMarker with
    | true =>
      -- a marker of the program itself stands before another marker, or last
      obtain ⟨line, rfl⟩ := exists_eq_marker h
      rw [markAll_cons_of_marker h, unmarkAll, startsUnmarked_markAll, Bool.and_false,
        if_neg (by simp), hrest]
      rfl
    | false =>
      have hdirect : ((marker s.line).isMarker && startsUnmarked (s.marked :: markAll rest)) =
          true := by
        rw [startsUnmarked, List.head?_cons, Option.any_some, isMarker_marked, h]
        rfl
      rw [markAll_cons_of_not_marker h, unmarkAll, if_pos hdirect, unmarkAll, isMarker_marked, h,
        Bool.false_and, if_neg (by simp), hs, hrest]

theorem unmarkClauses_markClauses : (clauses : List Clause) →
    unmarkClauses (markClauses clauses) = clauses
  | [] => rfl
  | .mk _ _ body :: rest => by
    rw [markClauses, unmarkClauses, unmarkAll_markAll body, unmarkClauses_markClauses rest]

end

mutual

theorem count_marked : (s : Stmt) → s.marked.count = s.count
  | simple _ _ => rfl
  | marker _ => rfl
  | branch _ _ body orelse => by
    rw [marked, count, count, countAll_markAll body, countAll_markAll orelse]
  | loop _ _ body orelse => by
    rw [marked, count, count, countAll_markAll body, countAll_markAll orelse]
  | attempt _ body handlers orelse final => by
    rw [marked, count, count, countAll_markAll body, countClauses_markClauses handlers,
      countAll_markAll orelse, countAll_markAll final]
  | scope _ _ body => by rw [marked, count, count, countAll_markAll body]
  | define _ _ _ body => by rw [marked, count, count, countAll_markAll body]
  | choose _ _ cases => by rw [marked, count, count, countClauses_markClauses cases]

/-- Markers are not counted as statements. -/
theorem countAll_markAll : (ss : List Stmt) → countAll (markAll ss) = countAll ss
  | [] => rfl
  | s :: rest => by
    have hs := count_marked s
    have hrest := countAll_markAll rest
    cases h : s.isMarker with
    | true => rw [markAll_cons_of_marker h, countAll, countAll, hrest]
    | false =>
      rw [markAll_cons_of_not_marker h, countAll, countAll, countAll, hs, hrest, count,
        Nat.zero_add]

theorem countClauses_markClauses : (clauses : List Clause) →
    countClauses (markClauses clauses) = countClauses clauses
  | [] => rfl
  | .mk _ _ body :: rest => by
    rw [markClauses, countClauses, countClauses, countAll_markAll body,
      countClauses_markClauses rest]

end

mutual

/-- The statements in the bodies of a statement gain a marker each; its own comes before it. -/
theorem markers_marked : (s : Stmt) →
    s.marked.markers + (if s.isMarker then 0 else 1) = s.markers + s.count
  | simple _ _ => rfl
  | marker _ => rfl
  | branch _ _ body orelse => by
    have hbody := markersAll_markAll body
    have horelse := markersAll_markAll orelse
    simp only [marked, markers, count, isMarker, Bool.false_eq_true, if_false]
    omega
  | loop _ _ body orelse => by
    have hbody := markersAll_markAll body
    have horelse := markersAll_markAll orelse
    simp only [marked, markers, count, isMarker, Bool.false_eq_true, if_false]
    omega
  | attempt _ body handlers orelse final => by
    have hbody := markersAll_markAll body
    have hhandlers := markersClauses_markClauses handlers
    have horelse := markersAll_markAll orelse
    have hfinal := markersAll_markAll final
    simp only [marked, markers, count, isMarker, Bool.false_eq_true, if_false]
    omega
  | scope _ _ body => by
    have hbody := markersAll_markAll body
    simp only [marked, markers, count, isMarker, Bool.false_eq_true, if_false]
    omega
  | define _ _ _ body => by
    have hbody := markersAll_markAll body
    simp only [marked, markers, count, isMarker, Bool.false_eq_true, if_false]
    omega
  | choose _ _ cases => by
    have hcases := markersClauses_markClauses cases
    simp only [marked, markers, count, isMarker, Bool.false_eq_true, if_false]
    omega

/-- Marking adds a marker for each statement. -/
theorem markersAll_markAll : (ss : List Stmt) →
    markersAll (markAll ss) = markersAll ss + countAll ss
  | [] => rfl
  | s :: rest => by
    have hs := markers_marked s
    have hrest := markersAll_markAll rest
    cases h : s.isMarker with
    | true =>
      obtain ⟨line, rfl⟩ := exists_eq_marker h
      rw [markAll_cons_of_marker h, markersAll, markersAll, countAll, hrest, count]
      omega
    | false =>
      rw [h, if_neg (by simp)] at hs
      rw [markAll_cons_of_not_marker h, markersAll, markersAll, markersAll, countAll, hrest,
        markers]
      omega

theorem markersClauses_markClauses : (clauses : List Clause) →
    markersClauses (markClauses clauses) = markersClauses clauses + countClauses clauses
  | [] => rfl
  | .mk _ _ body :: rest => by
    rw [markClauses, markersClauses, markersClauses, countClauses, markersAll_markAll body,
      markersClauses_markClauses rest]
    omega

end

/-! ## Marking any number of times -/

theorem countAll_iterate_markAll (k : Nat) (ss : List Stmt) :
    countAll (markAll^[k] ss) = countAll ss := by
  induction k with
  | zero => rfl
  | succ k ih => rw [Function.iterate_succ_apply', countAll_markAll, ih]

theorem markersAll_iterate_markAll (k : Nat) (ss : List Stmt) :
    markersAll (markAll^[k] ss) = markersAll ss + k * countAll ss := by
  induction k with
  | zero => rw [Function.iterate_zero, id_eq, Nat.zero_mul, Nat.add_zero]
  | succ k ih =>
    rw [Function.iterate_succ_apply', markersAll_markAll, ih, countAll_iterate_markAll,
      Nat.succ_mul, Nat.add_assoc]

/-- In a marked program each statement of each statement list, at any depth and markers apart,
stands directly behind a marker with its line. Without these markers the program is what it was, it
counts as many statements, and each time it is marked it gains a marker for each of them. -/
theorem marks_every_statement (program : List Stmt) :
    (∀ ss ∈ markAll program :: listsInAll (markAll program), EachAnnounced ss) ∧
      unmarkAll (markAll program) = program ∧
      countAll (markAll program) = countAll program ∧
      markersAll (markAll program) = markersAll program + countAll program ∧
      ∀ k, markersAll (markAll^[k] program) = markersAll program + k * countAll program :=
  ⟨forall_cons_markAll program (eachAnnounced_of_mem_listsInAll program),
    unmarkAll_markAll program, countAll_markAll program, markersAll_markAll program,
    fun k => markersAll_iterate_markAll k program⟩

end StepTrace.Python.Stmt

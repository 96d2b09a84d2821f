import StepTrace.Adapter
import StepTrace.Proofs.Python.Reading
import StepTrace.Proofs.Python.RoundTrip

/-!
# Prepared programs

Preparing a program reads it, marks it, writes it, reads what was written and writes it again inside
a `try` statement. Marking keeps a program well-formed, and so does reading back, hence nothing is
lost on the way: `preparedAs_of_durable` says that what an interpreter is fed is read as the marked
program inside the `try` statement.
-/

set_option autoImplicit false

namespace StepTrace.Python

namespace Stmt

/-! ## Programs up to line numbers -/

mutual

theorem rebuilt_rebuilt (f g : Nat → Stmt) : (s : Stmt) →
    rebuilt f (rebuilt g s) = rebuilt (fun n => rebuilt f (g n)) s
  | simple _ _ => rfl
  | marker _ => rfl
  | branch _ _ body orelse => by
    rw [rebuilt, rebuilt, rebuilt, rebuiltAll_rebuiltAll f g body, rebuiltAll_rebuiltAll f g orelse]
  | loop _ _ body orelse => by
    rw [rebuilt, rebuilt, rebuilt, rebuiltAll_rebuiltAll f g body, rebuiltAll_rebuiltAll f g orelse]
  | attempt _ body handlers orelse final => by
    rw [rebuilt, rebuilt, rebuilt, rebuiltAll_rebuiltAll f g body,
      rebuiltClauses_rebuiltClauses f g handlers, rebuiltAll_rebuiltAll f g orelse,
      rebuiltAll_rebuiltAll f g final]
  | scope _ _ body => by rw [rebuilt, rebuilt, rebuilt, rebuiltAll_rebuiltAll f g body]
  | define _ _ _ body => by rw [rebuilt, rebuilt, rebuilt, rebuiltAll_rebuiltAll f g body]
  | choose _ _ cases => by
    rw [rebuilt, rebuilt, rebuilt, rebuiltClauses_rebuiltClauses f g cases]

theorem rebuiltAll_rebuiltAll (f g : Nat → Stmt) : (ss : List Stmt) →
    rebuiltAll f (rebuiltAll g ss) = rebuiltAll (fun n => rebuilt f (g n)) ss
  | [] => rfl
  | s :: rest => by
    rw [rebuiltAll, rebuiltAll, rebuiltAll, rebuilt_rebuilt f g s, rebuiltAll_rebuiltAll f g rest]

theorem rebuiltClauses_rebuiltClauses (f g : Nat → Stmt) : (clauses : List Clause) →
    rebuiltClauses f (rebuiltClauses g clauses) =
      rebuiltClauses (fun n => rebuilt f (g n)) clauses
  | [] => rfl
  | .mk _ _ body :: rest => by
    rw [rebuiltClauses, rebuiltClauses, rebuiltClauses, rebuiltAll_rebuiltAll f g body,
      rebuiltClauses_rebuiltClauses f g rest]

end

/-- Reading a program back changes nothing about how it is spelled. -/
theorem spelled_of_unnumbered {program program' : List Stmt}
    (h : unnumbered program' = spelled program) : spelled program' = spelled program := by
  have hplain : ∀ ss, spelled (unnumbered ss) = spelled ss :=
    fun ss => rebuiltAll_rebuiltAll asSimple marker ss
  have htwice : ∀ ss, spelled (spelled ss) = spelled ss :=
    fun ss => rebuiltAll_rebuiltAll asSimple asSimple ss
  rw [← hplain program', h, htwice]

/-! ## Well-formed programs stay so -/

theorem rebuiltAll_ne_nil (mark : Nat → Stmt) (ss : List Stmt) :
    rebuiltAll mark ss ≠ [] ↔ ss ≠ [] := by
  cases ss with
  | nil => exact Iff.rfl
  | cons s ss => exact iff_of_true (List.cons_ne_nil _ _) (List.cons_ne_nil _ _)

theorem rebuiltClauses_ne_nil (mark : Nat → Stmt) (clauses : List Clause) :
    rebuiltClauses mark clauses ≠ [] ↔ clauses ≠ [] := by
  cases clauses with
  | nil => exact Iff.rfl
  | cons c clauses =>
    obtain ⟨line, header, body⟩ := c
    exact iff_of_true (List.cons_ne_nil _ _) (List.cons_ne_nil _ _)

mutual

theorem wellFormed_rebuilt {mark : Nat → Stmt} (hmark : ∀ n, WellFormed (mark n)) :
    (s : Stmt) → (WellFormed (rebuilt mark s) ↔ WellFormed s)
  | simple _ _ => Iff.rfl
  | marker n => iff_of_true (hmark n) trivial
  | branch _ _ body orelse => by
    rw [rebuilt, WellFormed, WellFormed, rebuiltAll_ne_nil, allWellFormed_rebuiltAll hmark body,
      allWellFormed_rebuiltAll hmark orelse]
  | loop _ _ body orelse => by
    rw [rebuilt, WellFormed, WellFormed, rebuiltAll_ne_nil, allWellFormed_rebuiltAll hmark body,
      allWellFormed_rebuiltAll hmark orelse]
  | attempt _ body handlers orelse final => by
    rw [rebuilt, WellFormed, WellFormed, rebuiltAll_ne_nil, rebuiltClauses_ne_nil,
      rebuiltAll_ne_nil, allWellFormed_rebuiltAll hmark body,
      clausesWellFormed_rebuiltClauses hmark handlers, allWellFormed_rebuiltAll hmark orelse,
      allWellFormed_rebuiltAll hmark final]
  | scope _ _ body => by
    rw [rebuilt, WellFormed, WellFormed, rebuiltAll_ne_nil, allWellFormed_rebuiltAll hmark body]
  | define _ _ _ body => by
    rw [rebuilt, WellFormed, WellFormed, rebuiltAll_ne_nil, allWellFormed_rebuiltAll hmark body]
  | choose _ _ cases => by
    rw [rebuilt, WellFormed, WellFormed, rebuiltClauses_ne_nil,
      clausesWellFormed_rebuiltClauses hmark cases]

theorem allWellFormed_rebuiltAll {mark : Nat → Stmt} (hmark : ∀ n, WellFormed (mark n)) :
    (ss : List Stmt) →
    (AllWellFormed (rebuiltAll mark ss) ↔ AllWellFormed ss)
  | [] => Iff.rfl
  | s :: rest => by
    rw [rebuiltAll, AllWellFormed, AllWellFormed, wellFormed_rebuilt hmark s,
      allWellFormed_rebuiltAll hmark rest]

theorem clausesWellFormed_rebuiltClauses {mark : Nat → Stmt} (hmark : ∀ n, WellFormed (mark n))
    {sort : LogicalLine → Prop} : (clauses : List Clause) →
    (ClausesWellFormed sort (rebuiltClauses mark clauses) ↔ ClausesWellFormed sort clauses)
  | [] => Iff.rfl
  | .mk _ _ body :: rest => by
    rw [rebuiltClauses, ClausesWellFormed, ClausesWellFormed, rebuiltAll_ne_nil,
      allWellFormed_rebuiltAll hmark body, clausesWellFormed_rebuiltClauses hmark rest]

end

/-- A program that was read back is well-formed. -/
theorem allWellFormed_of_unnumbered {program program' : List Stmt}
    (h : unnumbered program' = spelled program) (hwell : AllWellFormed program) :
    AllWellFormed program' := by
  have hsimple : ∀ n, WellFormed (asSimple n) := fun n => simpleText_markerText n
  have hmarker : ∀ n, WellFormed (marker n) := fun _ => trivial
  -- the program and what was read back meet in their spelling
  have hspelled : AllWellFormed (spelled program) :=
    (allWellFormed_rebuiltAll hsimple program).mpr hwell
  rw [← h] at hspelled
  exact (allWellFormed_rebuiltAll hmarker program').mp hspelled

theorem markAll_ne_nil {ss : List Stmt} (h : ss ≠ []) : markAll ss ≠ [] := by
  cases ss with
  | nil => exact absurd rfl h
  | cons s ss =>
    rw [markAll]
    split <;> exact List.cons_ne_nil _ _

theorem markClauses_ne_nil {clauses : List Clause} (h : clauses ≠ []) :
    markClauses clauses ≠ [] := by
  cases clauses with
  | nil => exact absurd rfl h
  | cons c clauses =>
    obtain ⟨line, header, body⟩ := c
    exact List.cons_ne_nil _ _

mutual

theorem wellFormed_marked : (s : Stmt) → WellFormed s → WellFormed (marked s)
  | simple _ _, hs => hs
  | marker _, _ => trivial
  | branch _ _ body orelse, ⟨hheader, hne, hbody, horelse⟩ =>
    ⟨hheader, markAll_ne_nil hne, allWellFormed_markAll body hbody,
      allWellFormed_markAll orelse horelse⟩
  | loop _ _ body orelse, ⟨hheader, hne, hbody, horelse⟩ =>
    ⟨hheader, markAll_ne_nil hne, allWellFormed_markAll body hbody,
      allWellFormed_markAll orelse horelse⟩
  | attempt _ body handlers orelse final,
      ⟨hne, hhandled, hbody, hhandlers, horelse, hfinal⟩ =>
    ⟨markAll_ne_nil hne, hhandled.imp markClauses_ne_nil markAll_ne_nil,
      allWellFormed_markAll body hbody, clausesWellFormed_markClauses handlers hhandlers,
      allWellFormed_markAll orelse horelse, allWellFormed_markAll final hfinal⟩
  | scope _ _ body, ⟨hheader, hne, hbody⟩ =>
    ⟨hheader, markAll_ne_nil hne, allWellFormed_markAll body hbody⟩
  | define _ _ _ body, ⟨hdecorators, hheader, hne, hbody⟩ =>
    ⟨hdecorators, hheader, markAll_ne_nil hne, allWellFormed_markAll body hbody⟩
  | choose _ _ cases, ⟨hheader, hne, hcases⟩ =>
    ⟨hheader, markClauses_ne_nil hne, clausesWellFormed_markClauses cases hcases⟩

theorem allWellFormed_markAll : (ss : List Stmt) → AllWellFormed ss → AllWellFormed (markAll ss)
  | [], _ => trivial
  | s :: rest, ⟨hs, hrest⟩ => by
    rw [markAll]
    split
    · exact ⟨hs, allWellFormed_markAll rest hrest⟩
    · exact ⟨trivial, wellFormed_marked s hs, allWellFormed_markAll rest hrest⟩

theorem clausesWellFormed_markClauses {sort : LogicalLine → Prop} : (clauses : List Clause) →
    ClausesWellFormed sort clauses → ClausesWellFormed sort (markClauses clauses)
  | [], _ => trivial
  | .mk _ _ body :: rest, ⟨hheader, hne, hbody, hrest⟩ =>
    ⟨hheader, markAll_ne_nil hne, allWellFormed_markAll body hbody,
      clausesWellFormed_markClauses rest hrest⟩

end

/-- Inside the `try` statement that reports its exceptions a program is well-formed. -/
theorem allWellFormed_guarded {program : List Stmt} (h : AllWellFormed program) :
    AllWellFormed [guarded program] := by
  have himport : SimpleText "import traceback".toList := by decide +kernel
  have hprint : SimpleText "traceback.print_exc()".toList := by decide +kernel
  have hexcept : HeaderText (OfKind .exceptClause) "except Exception:".toList := by decide +kernel
  refine ⟨⟨List.cons_ne_nil _ _, .inl (List.cons_ne_nil _ _), ⟨himport, h⟩, ?_, trivial, trivial⟩,
    trivial⟩
  exact ⟨hexcept, List.cons_ne_nil _ _, ⟨hprint, trivial⟩, trivial⟩

theorem spelled_guarded {program program' : List Stmt} (h : spelled program' = spelled program) :
    spelled [guarded program'] = spelled [guarded program] := by
  have hguarded : ∀ ss, spelled [guarded ss] =
      [attempt 0 (simple 0 "import traceback".toList :: spelled ss)
        [.mk 0 "except Exception:".toList [simple 0 "traceback.print_exc()".toList]] [] []] :=
    fun _ => rfl
  rw [hguarded, hguarded, h]

end Stmt

open Stmt

/-! ## Preparing a program -/

variable {launch : LaunchCommand} {source : List Char} {program program' : List Stmt}

/-- A guarded program ends in the call that prints the traceback. -/
theorem getLast?_render_guarded (program : List Stmt) :
    (render [guarded program]).getLast? = some ')' := by
  obtain ⟨rows, hrows⟩ : ∃ rows, writtenAll 0 [guarded program] =
      rows ++ [indented 1 "traceback.print_exc()".toList] := by
    refine ⟨indented 0 "try:".toList ::
      writtenAll 1 (simple 1 "import traceback".toList :: program) ++
        [indented 0 "except Exception:".toList], ?_⟩
    rw [guarded, writtenAll, written]
    simp [writtenAll, written, writtenClauses]
  rw [render, hrows, Text.joinLines_append_cons, List.getLast?_append_of_ne_nil]
  · decide +kernel
  · decide +kernel

theorem instrument_eq (hread : parse source = .ok program) :
    (Adapter.python launch).instrument source = .ok (render (markAll program)) := by
  show ((parse source).map _).mapError _ = _
  rw [hread]
  rfl

/-- A program is prepared by reading, marking and writing it, and once more inside the `try`
statement. -/
theorem preprocess_eq (hread : parse source = .ok program)
    (hmarked : parse (render (markAll program)) = .ok program') :
    (Adapter.python launch).preprocess .accepted source =
      .ok (render [guarded program'] ++ '\n' :: '\n' :: (Adapter.python launch).endStatement) := by
  have hwrap : (Adapter.python launch).wrapErrors (render (markAll program)) =
      .ok (render [guarded program']) := by
    show ((parse (render (markAll program))).map _).mapError _ = _
    rw [hmarked]
    rfl
  -- no line feed ends the text, so closing it drops nothing
  have hlast : (render [guarded program']).getLast? ≠ some '\n' := by
    rw [getLast?_render_guarded]
    decide
  rw [Adapter.preprocess, Adapter.judge]
  dsimp only [bind, Except.bind]
  rw [instrument_eq hread]
  dsimp only
  rw [hwrap]
  dsimp only
  rw [Adapter.closed, Adapter.dropFinalBreaks_eq_self hlast]
  rfl

/-- Nothing is prepared if what was written cannot be read. -/
theorem preprocess_refused {e : SyntaxError} (hread : parse source = .ok program)
    (hmarked : parse (render (markAll program)) = .error e) :
    (Adapter.python launch).preprocess .accepted source = .error (Adapter.syntaxFailure e) := by
  rw [Adapter.preprocess, Adapter.judge]
  dsimp only [bind, Except.bind]
  rw [instrument_eq hread]
  dsimp only
  rw [show (Adapter.python launch).wrapErrors (render (markAll program)) =
    ((parse (render (markAll program))).map _).mapError _ from rfl, hmarked]
  rfl

/-- Whether what an interpreter is fed for a source is a program inside the `try` statement that
reports its exceptions, up to line numbers and with its markers as simple statements. -/
def PreparedAs (launch : LaunchCommand) (source : List Char) (program : List Stmt) : Prop :=
  ∃ w s, (Adapter.python launch).preprocess .accepted source =
      .ok (w ++ '\n' :: '\n' :: (Adapter.python launch).endStatement) ∧
    parse w = .ok [s] ∧ unnumbered [s] = spelled [guarded program]

theorem eq_singleton_of_unnumbered {s : Stmt} (h : unnumbered program = spelled [s]) :
    ∃ s', program = [s'] := by
  cases program with
  | nil => cases h
  | cons s' rest =>
    cases rest with
    | nil => exact ⟨s', rfl⟩
    | cons s'' rest => exact absurd (List.cons.inj h).2 (List.cons_ne_nil _ _)

end StepTrace.Python

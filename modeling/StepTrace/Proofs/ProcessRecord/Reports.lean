import Mathlib.Data.List.Induction
import StepTrace.ProcessRecord

/-!
# Records of reported processes

Starts and ends of a process may be reported in any order and any number of times. A record is
coherent if only a process that has ended shows an end, an exit code and a lifetime. It is so after
any reports but one kind: a start that comes last and behind an end
(`ProcessRecord.coherent_ofReports_iff`). Such a record says that the process is running and still
shows the end before, because a start is written over the fields of a start only. What holds after
all reports is kept by each of them (`ProcessRecord.Steady.note`).
-/

set_option autoImplicit false

namespace StepTrace.ProcessRecord

/-! ## Reports -/

/-- What is reported of a process. -/
inductive Report where
  | started (now : Moment) (pid : Nat)
  | ended (now : Moment) (exitCode : Option Int)
  deriving DecidableEq, Repr

/-- Whether a report is that of an end. -/
def Report.isEnd : Report → Bool
  | .started _ _ => false
  | .ended _ _ => true

/-- The record after a report. -/
def note (r : ProcessRecord) : Report → ProcessRecord
  | .started now pid => r.markStarted now pid
  | .ended now exitCode => r.markTerminated now exitCode

/-- The record of a process of which some things were reported. -/
def ofReports (command : String) (args : List String) (reports : List Report) : ProcessRecord :=
  reports.foldl note (create command args)

/-- The last report is that of a start, and an end was reported before. -/
def Restarted (reports : List Report) : Prop :=
  ∃ before now pid, reports = before ++ [.started now pid] ∧ before.any Report.isEnd = true

/-! ## What a record shows -/

/-- A record in which an end, an exit code and a lifetime go with the state of a process that has
ended, and an identifier with a start. -/
structure Coherent (r : ProcessRecord) : Prop where
  ended : r.ended.isSome = true ↔ r.state = .terminated
  exitCode : r.exitCode.isSome = true → r.state = .terminated
  pid : r.pid.isSome = true ↔ r.started.isSome = true
  lifetime : r.lifetime.isSome = true ↔ r.started.isSome = true ∧ r.state = .terminated

/-- A lifetime is shown for a start and an end, whatever the state. -/
theorem isSome_lifetime (r : ProcessRecord) :
    r.lifetime.isSome = true ↔ r.started.isSome = true ∧ r.ended.isSome = true := by
  rw [lifetime]
  cases r.started <;> cases r.ended <;> simp

/-- What every report keeps: an identifier goes with a start, an exit code with an end, and every
state with the reports that lead to it. -/
structure Steady (r : ProcessRecord) : Prop where
  pid : r.pid.isSome = true ↔ r.started.isSome = true
  exitCode : r.exitCode.isSome = true → r.ended.isSome = true
  created : r.ended.isSome = true → r.state ≠ .created
  started : r.state = .running → r.started.isSome = true
  ended : r.state = .terminated → r.ended.isSome = true

/-- A steady record is coherent exactly if it shows an end in no other state. -/
theorem Steady.coherent_iff {r : ProcessRecord} (h : r.Steady) :
    r.Coherent ↔ (r.ended.isSome = true → r.state = .terminated) := by
  constructor
  · exact fun hr => hr.ended.mp
  · intro hstate
    have hended : r.ended.isSome = true ↔ r.state = .terminated := ⟨hstate, h.ended⟩
    exact
      { ended := hended
        exitCode := fun hcode => hstate (h.exitCode hcode)
        pid := h.pid
        lifetime := by rw [isSome_lifetime, hended] }

theorem steady_create (command : String) (args : List String) : (create command args).Steady where
  pid := Iff.rfl
  exitCode h := h
  created h := by cases h
  started h := by cases h
  ended h := by cases h

theorem Steady.note {r : ProcessRecord} (h : r.Steady) (report : Report) :
    (r.note report).Steady := by
  cases report with
  | started now pid =>
    exact
      { pid := ⟨fun _ => rfl, fun _ => rfl⟩
        exitCode := h.exitCode
        created := fun _ hstate => by cases hstate
        started := fun _ => rfl
        ended := fun hstate => by cases hstate }
  | ended now exitCode =>
    rw [ProcessRecord.note, markTerminated]
    split
    · exact h
    · exact
        { pid := h.pid
          exitCode := fun _ => rfl
          created := fun _ hstate => by cases hstate
          started := fun hstate => by cases hstate
          ended := fun _ => rfl }

theorem steady_ofReports (command : String) (args : List String) (reports : List Report) :
    (ofReports command args reports).Steady :=
  List.foldlRecOn reports note (steady_create command args) fun _ h report _ => h.note report

/-! ## After all reports -/

theorem isSome_ended_note (r : ProcessRecord) (report : Report) (h : r.Steady) :
    (r.note report).ended.isSome = (r.ended.isSome || report.isEnd) := by
  cases report with
  | started now pid => exact (Bool.or_false _).symm
  | ended now exitCode =>
    rw [note, markTerminated]
    split
    next hterminated =>
      have hended := h.ended (of_decide_eq_true hterminated)
      rw [hended]
      rfl
    next => exact (Bool.or_true _).symm

theorem ofReports_append (command : String) (args : List String) (before : List Report)
    (report : Report) :
    ofReports command args (before ++ [report]) = (ofReports command args before).note report := by
  rw [ofReports, List.foldl_append]
  rfl

/-- An end is shown once it was reported, and for good. -/
theorem isSome_ended_ofReports (command : String) (args : List String) (reports : List Report) :
    (ofReports command args reports).ended.isSome = reports.any Report.isEnd := by
  induction reports using List.reverseRecOn with
  | nil => rfl
  | append_singleton before report ih =>
    rw [ofReports_append, isSome_ended_note _ _ (steady_ofReports command args before), ih,
      List.any_append]
    simp

/-- The last report decides the state. -/
theorem state_note (r : ProcessRecord) (report : Report) :
    (r.note report).state = if report.isEnd then .terminated else .running := by
  cases report with
  | started now pid => rfl
  | ended now exitCode => exact of_decide_eq_true (isTerminated_markTerminated r now exitCode)

theorem state_ofReports_append (command : String) (args : List String) (before : List Report)
    (report : Report) :
    (ofReports command args (before ++ [report])).state =
      if report.isEnd then .terminated else .running := by
  rw [ofReports_append, state_note]

/-- A start that follows an end is told by the record: the process is running, and an end is
shown. -/
theorem restarted_iff (command : String) (args : List String) (reports : List Report) :
    Restarted reports ↔
      (ofReports command args reports).state = .running ∧
        (ofReports command args reports).ended.isSome = true := by
  cases reports using List.reverseRecOn with
  | nil => simp [Restarted, ofReports, create]
  | append_singleton before report =>
    rw [state_ofReports_append, isSome_ended_ofReports, List.any_append]
    cases report with
    | started now pid => simp [Restarted, Report.isEnd]
    | ended now exitCode => simp [Restarted, Report.isEnd]

/-- A record is coherent after all reports but a start that follows an end. Exactly behind such a
start it says that the process is running and shows a lifetime. An identifier goes with a start
after any reports. -/
theorem coherent_ofReports_iff (command : String) (args : List String) (reports : List Report) :
    ((ofReports command args reports).Coherent ↔ ¬Restarted reports) ∧
      (Restarted reports ↔ (ofReports command args reports).isRunning = true ∧
        (ofReports command args reports).lifetime.isSome = true) ∧
      ((ofReports command args reports).pid.isSome = true ↔
        (ofReports command args reports).started.isSome = true) := by
  have hsteady := steady_ofReports command args reports
  have hrestarted := restarted_iff command args reports
  generalize ofReports command args reports = r at hsteady hrestarted
  have hrunning : r.isRunning = true ↔ r.state = .running := beq_iff_eq
  refine ⟨?_, ?_, hsteady.pid⟩
  · rw [hsteady.coherent_iff, hrestarted, not_and']
    refine forall_congr' fun hended => ?_
    have hcreated := hsteady.created hended
    cases hstate : r.state with
    | created => exact absurd hstate hcreated
    | running => simp
    | terminated => simp
  · rw [hrestarted, hrunning, isSome_lifetime]
    exact and_congr_right fun hstate => ⟨fun hended => ⟨hsteady.started hstate, hended⟩, And.right⟩

/-- Behind a second start a record says that the process is running, and shows how the first one
ended. -/
theorem not_coherent_restarted :
    ofReports "bash" [] [.started ⟨0, 0, 0⟩ 1, .ended ⟨0, 1, 0⟩ (some 3), .started ⟨0, 2, 0⟩ 2] =
        ⟨some 2, .running, some ⟨0, 2, 0⟩, some ⟨0, 1, 0⟩, some 3, "bash", []⟩ ∧
      ¬(ofReports "bash" []
        [.started ⟨0, 0, 0⟩ 1, .ended ⟨0, 1, 0⟩ (some 3), .started ⟨0, 2, 0⟩ 2]).Coherent := by
  refine ⟨rfl, fun h => ?_⟩
  cases h.exitCode rfl

end StepTrace.ProcessRecord

import StepTrace.Host

/-!
# The preferred interpreter

A language is served by the first of several attempts that succeeds: each interpreter that may serve
it is looked for by each of its commands (`Platform.attempts`). `Platform.adapterFor_preferred` says
which adapter that gives, and that without any the failure names the commands that were tried. For a
PowerShell that a shell would have replaced it names those of the shell only
(`Platform.reported_eq_iff`).
-/

set_option autoImplicit false

namespace StepTrace

/-! ## Attempts -/

/-- A command, with the interpreter that it would start. -/
structure Attempt where
  dialect : Dialect
  launch : LaunchSettings
  command : String

namespace Attempt

/-- The adapter of an attempt for a language, once its command is known to mean a program. -/
def adapter (t : Attempt) (l : Language) (program : String) : Adapter :=
  ⟨t.dialect, l, program, t.launch.argsOr t.dialect.usualArgs⟩

/-- The attempts at one interpreter. -/
def all (dialect : Dialect) (launch : LaunchSettings) (candidates : List String) : List Attempt :=
  (launch.commands candidates).map fun command => ⟨dialect, launch, command⟩

theorem map_command_all (dialect : Dialect) (launch : LaunchSettings) (candidates : List String) :
    (all dialect launch candidates).map command = launch.commands candidates := by
  simp [all, Function.comp_def]

end Attempt

namespace Platform

variable {p : Platform} {l : Language} {s : Settings} {ts : List Attempt}

/-- The attempts at a shell. -/
def shellAttempts (p : Platform) (s : Settings) : List Attempt :=
  Attempt.all .posix s.shell (p.family.candidates .shell)

/-- The attempts at a language, the preferred one first. -/
def attempts (p : Platform) (s : Settings) : Language → List Attempt
  | .python => Attempt.all .python s.python (p.family.candidates .python)
  | .powershell =>
    Attempt.all .powershell s.powershell (p.family.candidates .powershell) ++
      if p.family.replacesPowerShell then p.shellAttempts s else []
  | .shell => p.shellAttempts s

/-- The commands that a failure names: those of the interpreter that was looked for last. -/
def reported (p : Platform) (s : Settings) : Language → List String
  | .python => s.python.commands (p.family.candidates .python)
  | .powershell =>
    if p.family.replacesPowerShell then s.shell.commands (p.family.candidates .shell)
    else s.powershell.commands (p.family.candidates .powershell)
  | .shell => s.shell.commands (p.family.candidates .shell)

/-- They are all that were tried, but for a PowerShell that a shell would have replaced: that it was
tried too goes unsaid. -/
theorem reported_eq_iff : p.reported s l = (p.attempts s l).map Attempt.command ↔
    ¬(l = .powershell ∧ p.family.replacesPowerShell = true) := by
  cases l with
  | python => simp [reported, attempts, Attempt.map_command_all]
  | shell => simp [reported, attempts, shellAttempts, Attempt.map_command_all]
  | powershell =>
    have hsome : s.powershell.commands (p.family.candidates .powershell) ≠ [] := by
      rw [LaunchSettings.commands]
      cases s.powershell.executable with
      | some executable => simp
      | none => cases p.family <;> simp [Family.candidates]
    cases hreplaces : p.family.replacesPowerShell with
    | true => simp [reported, attempts, shellAttempts, Attempt.map_command_all, hreplaces, hsome]
    | false => simp [reported, attempts, Attempt.map_command_all, hreplaces]

/-! ## The first that succeeds -/

/-- The first attempt that finds a program, as an adapter. -/
def first? (p : Platform) (l : Language) (ts : List Attempt) : Option Adapter :=
  ts.findSome? fun t => (p.find? t.command).map (t.adapter l)

theorem first?_append (ts us : List Attempt) :
    p.first? l (ts ++ us) = (p.first? l ts).or (p.first? l us) := List.findSome?_append

/-- The first attempt at one interpreter finds the program that it resolves to. -/
theorem first?_all (dialect : Dialect) (launch : LaunchSettings) (candidates : List String) :
    p.first? l (Attempt.all dialect launch candidates) =
      ((launch.commands candidates).findSome? p.find?).map fun program =>
        ⟨dialect, l, program, launch.argsOr dialect.usualArgs⟩ := by
  rw [first?, Attempt.all, List.findSome?_map, List.map_findSome?]
  rfl

/-- What an adapter is got for, or the failure where no attempt succeeds. -/
def outcome (l : Language) (tried : List String) : Option Adapter → Except Failure Adapter
  | some a => .ok a
  | none => .error (.interpreterNotFound l.id tried)

/-- An interpreter of one kind is got by the first attempt at it. -/
theorem map_resolve (dialect : Dialect) (launch : LaunchSettings) (candidates : List String) :
    (p.resolve l launch candidates).map (fun program =>
        ⟨dialect, l, program, launch.argsOr dialect.usualArgs⟩) =
      outcome l (launch.commands candidates)
        (p.first? l (Attempt.all dialect launch candidates)) := by
  rw [first?_all, resolve]
  cases (launch.commands candidates).findSome? p.find? <;> rfl

theorem shellFor_eq : p.shellFor l s =
    outcome l (s.shell.commands (p.family.candidates .shell)) (p.first? l (p.shellAttempts s)) :=
  map_resolve .posix s.shell (p.family.candidates .shell)

/-- An adapter is got by the first attempt that succeeds. -/
theorem adapterFor_eq :
    p.adapterFor l s = outcome l (p.reported s l) (p.first? l (p.attempts s l)) := by
  cases l with
  | python => exact map_resolve .python s.python (p.family.candidates .python)
  | shell => exact shellFor_eq
  | powershell =>
    rw [adapterFor, attempts, first?_append, first?_all, resolve, shellFor_eq]
    cases (s.powershell.commands (p.family.candidates .powershell)).findSome? p.find? with
    | some program => rfl
    | none =>
      cases hreplaces : p.family.replacesPowerShell with
      | true => simp [reported, hreplaces]
      | false => simp [reported, hreplaces, first?, outcome]

/-- An adapter is that of the first attempt that finds a program. -/
def Prefers (p : Platform) (l : Language) (ts : List Attempt) (a : Adapter) : Prop :=
  ∃ before t after program, ts = before ++ t :: after ∧
    (∀ t' ∈ before, p.find? t'.command = none) ∧
    p.find? t.command = some program ∧ a = t.adapter l program

theorem first?_eq_some_iff {a : Adapter} : p.first? l ts = some a ↔ p.Prefers l ts a := by
  rw [first?, List.findSome?_eq_some_iff]
  simp only [Option.map_eq_some_iff, Option.map_eq_none_iff]
  constructor
  · rintro ⟨before, t, after, hts, ⟨program, hprogram, rfl⟩, hbefore⟩
    exact ⟨before, t, after, program, hts, hbefore, hprogram, rfl⟩
  · rintro ⟨before, t, after, program, hts, hbefore, hprogram, rfl⟩
    exact ⟨before, t, after, hts, ⟨program, hprogram, rfl⟩, hbefore⟩

theorem first?_eq_none_iff :
    p.first? l ts = none ↔ ∀ t ∈ ts, p.find? t.command = none := by
  simp [first?, List.findSome?_eq_none_iff]

end Platform

/-! ## Programs on a machine -/

namespace Host

/-- A command means a program: a path means itself, and a name the file of that name in the first
directory of the search path that has one; either only if it may be executed. -/
inductive Finds (h : Host) (command : String) : String → Prop
  | path (hslash : command.contains '/' = true)
      (hexecutable : h.disk.isExecutable h.directory command = true) : Finds h command command
  | name {before after : List String} {d : String} (hslash : command.contains '/' = false)
      (hname : command ≠ "")
      (hdirectories : h.searchDirectories.map h.expandTilde = before ++ d :: after)
      (hbefore : ∀ d' ∈ before, h.disk.isExecutable h.directory (Path.join d' command) = false)
      (hexecutable : h.disk.isExecutable h.directory (Path.join d command) = true) :
      Finds h command (Path.join d command)

/-- The first directory that has a file of some name, as the path of that file. -/
theorem find?_join_eq_some_iff {h : Host} {directories : List String} {command program : String} :
    (directories.map fun d => Path.join d command).find? (h.disk.isExecutable h.directory) =
        some program ↔
      ∃ before d after, directories = before ++ d :: after ∧
        (∀ d' ∈ before, h.disk.isExecutable h.directory (Path.join d' command) = false) ∧
        h.disk.isExecutable h.directory program = true ∧ program = Path.join d command := by
  rw [List.find?_eq_some_iff_append]
  constructor
  · rintro ⟨hexecutable, paths, others, hpaths, hbefore⟩
    obtain ⟨before, rest, rfl, rfl, hrest⟩ := List.map_eq_append_iff.mp hpaths
    obtain ⟨d, after, rfl, rfl, -⟩ := List.map_eq_cons_iff.mp hrest
    exact ⟨before, d, after, rfl,
      fun d' hd' => by simpa using hbefore _ (List.mem_map_of_mem hd'), hexecutable, rfl⟩
  · rintro ⟨before, d, after, rfl, hbefore, hexecutable, rfl⟩
    refine ⟨hexecutable, _, _, by rw [List.map_append, List.map_cons], ?_⟩
    intro path hpath
    obtain ⟨d', hd', rfl⟩ := List.mem_map.mp hpath
    rw [hbefore d' hd']
    rfl

theorem findCommand?_eq_some_iff {h : Host} {command program : String} :
    h.findCommand? command = some program ↔ h.Finds command program := by
  rw [findCommand?, findIn?]
  by_cases hslash : command.contains '/' = true
  · rw [if_pos hslash]
    constructor
    · intro hfound
      obtain ⟨hexecutable, hsame⟩ := Option.ite_none_right_eq_some.mp hfound
      cases hsame
      exact .path hslash hexecutable
    · rintro (⟨-, hexecutable⟩ | ⟨hname, -, -, -, -⟩)
      · exact if_pos hexecutable
      · exact absurd hslash (by simp [hname])
  · rw [if_neg hslash]
    constructor
    · intro hfound
      obtain ⟨hname, hfound⟩ := Option.ite_none_left_eq_some.mp hfound
      obtain ⟨before, d, after, hdirectories, hbefore, hexecutable, rfl⟩ :=
        find?_join_eq_some_iff.mp hfound
      exact .name (Bool.eq_false_iff.mpr hslash) (fun h => hname (String.isEmpty_iff.mpr h))
        hdirectories hbefore hexecutable
    · rintro (⟨hpath, -⟩ | ⟨-, hname, hdirectories, hbefore, hexecutable⟩)
      · exact absurd hpath hslash
      · rw [if_neg fun h => hname (String.isEmpty_iff.mp h)]
        exact find?_join_eq_some_iff.mpr ⟨_, _, _, hdirectories, hbefore, hexecutable, rfl⟩

end Host

/-- A language gets the adapter of the first attempt that finds a program, and none only if no
attempt does. The failure then names the commands that were tried, but for a PowerShell that a shell
would have replaced it leaves out the commands of that PowerShell. On a Unix machine commands mean
programs as its files and its search path have it. -/
theorem Platform.adapterFor_preferred (p : Platform) (s : Settings) (l : Language) :
    (∀ a, p.adapterFor l s = .ok a ↔ p.Prefers l (p.attempts s l) a) ∧
      (∀ f, p.adapterFor l s = .error f ↔
        (∀ t ∈ p.attempts s l, p.find? t.command = none) ∧
          f = .interpreterNotFound l.id (p.reported s l)) ∧
      (p.reported s l = (p.attempts s l).map Attempt.command ↔
        ¬(l = .powershell ∧ p.family.replacesPowerShell = true)) ∧
      ∀ (h : Host) (command program : String),
        h.platform.find? command = some program ↔ h.Finds command program := by
  refine ⟨fun a => ?_, fun f => ?_, reported_eq_iff, fun h command program =>
    Host.findCommand?_eq_some_iff⟩
  · rw [adapterFor_eq, ← first?_eq_some_iff]
    cases p.first? l (p.attempts s l) <;> simp [outcome]
  · rw [adapterFor_eq, ← first?_eq_none_iff]
    cases p.first? l (p.attempts s l) <;> simp [outcome, eq_comm]

/-- A machine without files. -/
def Host.programless : Host := ⟨⟨[]⟩, [], .empty⟩

/-- No command means a program on it. -/
theorem Host.findCommand?_programless (command : String) :
    programless.findCommand? command = none := by
  have hentry : ∀ place entry, programless.disk.at? place = some entry → entry = .directory := by
    intro place entry hentry
    rw [Disk.at?] at hentry
    split at hentry <;> cases hentry
    rfl
  have hexecutable : ∀ path,
      programless.disk.isExecutable programless.directory path = false := by
    intro path
    rw [Disk.isExecutable]
    split
    next hfile =>
      obtain ⟨place, -, hplace⟩ := Option.bind_eq_some_iff.mp hfile
      obtain ⟨entry, hat, hshown⟩ := Option.bind_eq_some_iff.mp hplace
      cases hentry place entry hat
      simp at hshown
    next => rfl
  rw [findCommand?, findIn?]
  simp [hexecutable]

/-- On a machine without programs the failure of PowerShell does not name its own command, which was
tried before those of the shell. -/
theorem Host.adapterFor_omits_pwsh :
    (programless.platform.attempts .default .powershell).map Attempt.command =
        ["pwsh", "bash", "sh"] ∧
      (∀ t ∈ programless.platform.attempts .default .powershell,
        programless.findCommand? t.command = none) ∧
      programless.adapterFor .powershell .default =
        .error (.interpreterNotFound "powershell" ["bash", "sh"]) ∧
      programless.adapterFor .powershell .default ≠
        .error (.interpreterNotFound "powershell" ["pwsh", "bash", "sh"]) := by
  have hnone : ∀ t ∈ programless.platform.attempts .default .powershell,
      programless.findCommand? t.command = none :=
    fun t _ => findCommand?_programless t.command
  have hfailed : programless.adapterFor .powershell .default =
      .error (.interpreterNotFound "powershell" ["bash", "sh"]) := by
    rw [adapterFor, Platform.adapterFor_eq, Platform.first?_eq_none_iff.mpr hnone]
    rfl
  refine ⟨rfl, hnone, hfailed, ?_⟩
  rw [hfailed]
  simp

end StepTrace

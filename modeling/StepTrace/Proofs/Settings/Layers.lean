import StepTrace.Proofs.Settings.Data

/-!
# Layers of settings

Settings may come in layers, each laid over those below it. How the layers are grouped makes no
difference (`Settings.merge_assoc`), nor does it whether a layer is laid once or twice
(`Settings.merge_self`); `Settings.merge_laws` says both, and what a layer makes of the usual
settings. Every field follows one of four rules, and each rule has these laws for itself: what is
chosen hides what is not, what is not blank hides what lies below, each name of an environment has
its uppermost value, and numbers and truth values are those of the uppermost layer.
-/

set_option autoImplicit false

namespace StepTrace

/-! ## Rules for one field -/

/-- Of three values the uppermost that is not blank shows, whichever two are laid together
first. -/
theorem shown_assoc {α : Type} (blank : α → Bool) (a b c : α) :
    (if blank c then (if blank b then a else b) else c) =
      if blank (if blank c then b else c) then a else (if blank c then b else c) := by
  cases hc : blank c with
  | true => rfl
  | false => simp [hc]

/-- A choice shows unless another is laid over it. -/
theorem chosen_eq_or {α : Type} (a b : Option α) : (b <|> a) = b.or a := by
  rw [Option.orElse_eq_orElse, Option.orElse_eq_or]

namespace Environment

theorem merge_assoc (a b c : Environment) : (a.merge b).merge c = a.merge (b.merge c) :=
  ext_get? fun name => by simp only [get?_merge, Option.or_assoc]

theorem merge_self (a : Environment) : a.merge a = a :=
  ext_get? fun name => by rw [get?_merge, Option.or_self]

end Environment

/-! ## Sections -/

namespace LaunchSettings

theorem merge_assoc (a b c : LaunchSettings) : (a.merge b).merge c = a.merge (b.merge c) := by
  have hargs := shown_assoc List.isEmpty a.args b.args c.args
  simp only [merge, mk.injEq, chosen_eq_or, Option.or_assoc, true_and]
  exact hargs

theorem merge_self (a : LaunchSettings) : a.merge a = a := by
  simp only [merge, chosen_eq_or, Option.or_self, ite_self]

end LaunchSettings

namespace SessionSettings

theorem merge_assoc (a b c : SessionSettings) : (a.merge b).merge c = a.merge (b.merge c) := by
  have hlanguages := shown_assoc List.isEmpty a.eagerLanguages b.eagerLanguages c.eagerLanguages
  simp only [merge, mk.injEq, chosen_eq_or, Option.or_assoc, Environment.merge_assoc, true_and,
    and_true]
  exact hlanguages

theorem merge_self (a : SessionSettings) : a.merge a = a := by
  simp only [merge, chosen_eq_or, Option.or_self, ite_self, Environment.merge_self]

/-- The settings with the numbers and the truth value of others. -/
def numbered (a b : SessionSettings) : SessionSettings :=
  { a with
    drainGrace := b.drainGrace
    transcriptLimit := b.transcriptLimit
    inheritEnv := b.inheritEnv }

end SessionSettings

/-! ## All settings -/

namespace Settings

/-- Layers may be laid together in any grouping. -/
theorem merge_assoc (a b c : Settings) : (a.merge b).merge c = a.merge (b.merge c) := by
  have hlevel :=
    shown_assoc (fun level : String => Text.allBlank level.toList) a.logLevel b.logLevel c.logLevel
  simp only [merge, mk.injEq, LaunchSettings.merge_assoc, SessionSettings.merge_assoc, true_and]
  exact hlevel

/-- A layer laid over itself changes nothing. -/
theorem merge_self (a : Settings) : a.merge a = a := by
  simp only [merge, LaunchSettings.merge_self, SessionSettings.merge_self, ite_self]

/-- Below a layer that chooses nothing, settings show but for numbers and truth values. -/
theorem merge_of_nothing (a : Settings) :
    a.merge { default with logLevel := "" } =
      { a with session := a.session.numbered .default } := rfl

/-- Layers may be grouped in any way and repeated. Over the usual settings a layer shows as it is,
but that a blank level of logging is replaced, and all that a layer does not choose shows what lies
below. Equal settings have equal environments, which is to say that every name has the same value
in both (`Environment.ext_get?`). -/
theorem merge_laws :
    (∀ a b c : Settings, (a.merge b).merge c = a.merge (b.merge c)) ∧
      (∀ a : Settings, a.merge a = a) ∧
      (∀ c : Settings, default.merge c =
        { c with
          logLevel := if Text.allBlank c.logLevel.toList then default.logLevel else c.logLevel }) ∧
      ∀ a : Settings, a.merge { default with logLevel := "" } =
        { a with session := a.session.numbered .default } :=
  ⟨merge_assoc, merge_self, merge_default, merge_of_nothing⟩

end Settings

end StepTrace

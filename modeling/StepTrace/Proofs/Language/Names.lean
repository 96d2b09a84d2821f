import StepTrace.Language
import StepTrace.Proofs.Text.Case

/-!
# Names of languages

A name leads to a language in two ways: its lower-case form is looked up in a table, and it is
compared with the names in the catalogue up to the case of ASCII letters. Both ways lead to the same
language, or to none (`Language.lookup?_eq_ofName?`), because every name in the catalogue is plain:
no text beyond ASCII is lowered to it.
-/

set_option autoImplicit false

namespace StepTrace.Language

variable {l : Language} {name : String}

/-- The catalogue holds plain names in lower case. -/
theorem isPlain_of_mem {known : String} (h : known ∈ l.id :: l.aliases) :
    Text.IsPlain known.toList ∧ known.toList.map Char.toLower = known.toList := by
  have hall : ∀ l : Language, ∀ known ∈ l.id :: l.aliases,
      Text.IsPlain known.toList ∧ known.toList.map Char.toLower = known.toList := by
    intro l
    cases l <;> decide
  exact hall l known h

/-- The table holds the names in the catalogue. -/
theorem ofLowerName?_eq_some_iff : ofLowerName? name = some l ↔ name ∈ l.id :: l.aliases := by
  rw [ofLowerName?]
  split
  next h => cases l <;> rcases h with rfl | rfl | rfl <;> decide
  next hpython =>
    split
    next h => cases l <;> rcases h with rfl | rfl | rfl <;> decide
    next hpowershell =>
      split
      next h => cases l <;> rcases h with rfl | rfl | rfl | rfl <;> decide
      next hshell =>
        cases l with
        | python => simpa [id, aliases] using hpython
        | powershell => simpa [id, aliases] using hpowershell
        | shell => simpa [id, aliases] using hshell

/-- A name is one of a language in the catalogue exactly if it stands for that language in the
table. -/
theorem isNamed_iff : l.isNamed name = true ↔ ofName? name = some l := by
  rw [ofName?, ofLowerName?_eq_some_iff, isNamed, List.any_eq_true]
  have hsame : ∀ known ∈ l.id :: l.aliases,
      (Text.sameName known.toList (Text.trim name.toList) = true ↔
        String.ofList (Text.lower (Text.trim name.toList)) = known) := by
    intro known hknown
    obtain ⟨hplain, hlower⟩ := isPlain_of_mem hknown
    rw [Text.sameName, beq_iff_eq, hlower, eq_comm, ← Text.lower_eq_iff hplain,
      ← String.toList_inj, String.toList_ofList]
  constructor
  · rintro ⟨known, hknown, hname⟩
    exact (hsame known hknown).mp hname ▸ hknown
  · intro hknown
    exact ⟨_, hknown, (hsame _ hknown).mpr rfl⟩

/-- The catalogue and the table lead from a name to the same language. -/
theorem lookup?_eq_ofName? (name : String) : lookup? name = ofName? name := by
  rw [lookup?]
  cases hname : ofName? name with
  | none =>
    refine List.find?_eq_none.mpr fun l _ hnamed => ?_
    rw [isNamed_iff, hname] at hnamed
    cases hnamed
  | some l =>
    have hnamed : ∀ l' : Language, l'.isNamed name = decide (l' = l) := by
      intro l'
      rw [Bool.eq_iff_iff, isNamed_iff, hname, Option.some.injEq, decide_eq_true_iff, eq_comm]
    simp only [hnamed]
    cases l <;> rfl

/-- The catalogue passes over blanks of every script, as the table does, and the Kelvin sign is a k
to neither. -/
example : lookup? "\u3000PwSh\u2003" = some .powershell ∧ ofName? "\u212A" = none := by
  decide +kernel

end StepTrace.Language

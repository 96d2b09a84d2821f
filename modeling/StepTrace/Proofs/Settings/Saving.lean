import StepTrace.Proofs.Settings.Formats
import StepTrace.Proofs.Settings.Validity
import StepTrace.Proofs.Text.Utf8

/-!
# Settings survive saving

What is saved under a path is read again from there, whatever the extension of the path
(`loadFrom_saveTo`). Loading lays the settings over the usual ones, and there a blank level of
logging chooses nothing and becomes the usual one.
-/

set_option autoImplicit false

namespace StepTrace.SettingsFile

variable {h h' : Host} {path : String} {s : Settings}

/-- Saving leaves the settings in the file and every directory where it was. -/
theorem saveTo_eq_ok (hfits : s.session.Fits) (hsave : saveTo h path s = .ok h') :
    h'.directory = h.directory ∧ Host.Disk.Keeps h.disk h'.disk ∧
      h'.disk.isFile h'.directory path = true ∧ read? h' path = some s := by
  rw [saveTo] at hsave
  split at hsave
  next disk hdisk =>
    cases hsave
    obtain ⟨d, hdirectories, hwrite⟩ := Option.bind_eq_some_iff.mp hdisk
    obtain ⟨hfile, hbytes, hkeeps⟩ := Host.Disk.read?_write? hwrite
    refine ⟨rfl, (Host.Disk.keeps_makeDirectories hdirectories).trans hkeeps, hfile, ?_⟩
    have htext : Text.decode? (((Text.encode (s.write (.ofPath path))).map fun b =>
        Char.ofNat b.toNat).map fun c => UInt8.ofNat c.toNat) = some (s.write (.ofPath path)) :=
      Host.Bytes.text?_ofText _
    rw [read?, hbytes]
    simp only [Option.bind_eq_bind, Option.bind_some, htext, Settings.parse?_write _ s hfits]
  next => cases hsave

/-- Settings in a file are loaded laid over the usual ones, if they are valid. -/
theorem loadFrom_eq (hfile : h.disk.isFile h.directory path = true)
    (hread : read? h path = some s) :
    loadFrom h path = (s.validate h).map fun _ => s.leveled := by
  have hfind : find? h [path] = some (path, s) := by simp [find?, hfile, hread]
  rw [loadFrom, load, hfind]
  simp [checked, usualOptions, Settings.merge_default, Settings.validate_leveled]

/-- Valid settings that are saved are loaded again, with the usual level of logging in place of a
blank one; so a level that is not blank is loaded again too. -/
theorem loadFrom_saveTo (hlimit : s.session.transcriptLimit < Text.wordBound)
    (hvalid : s.validate h = .ok ()) (hsave : saveTo h path s = .ok h') :
    loadFrom h' path = .ok s.leveled ∧
      (Text.allBlank s.logLevel.toList = false → loadFrom h' path = .ok s) := by
  rw [Settings.validate_eq_ok_iff] at hvalid
  obtain ⟨hdirectory, hkeeps, hfile, hread⟩ := saveTo_eq_ok (hvalid.fits hlimit) hsave
  have hload : loadFrom h' path = .ok s.leveled := by
    rw [loadFrom_eq hfile hread, Settings.validate_eq_ok_iff.mpr (hvalid.keeps hdirectory hkeeps)]
    rfl
  exact ⟨hload, fun hlevel => by rw [hload, Settings.leveled_eq_self hlevel]⟩

/-- What can be written can be saved. -/
theorem exists_saveTo {d : Host.Disk}
    (hdirectories : h.disk.makeDirectories h.directory (parent path) = some d)
    (hwrite : ∀ bytes, ∃ d', d.write? h.directory path bytes = some d') (s : Settings) :
    ∃ h', saveTo h path s = .ok h' := by
  obtain ⟨d', hd'⟩ := hwrite ((Text.encode (s.write (.ofPath path))).map fun b =>
    Char.ofNat b.toNat)
  refine ⟨{ h with disk := d' }, ?_⟩
  rw [saveTo, hdirectories, Option.bind_some, hd']

/-- A machine with nothing on its disk. -/
def bareHost : Host := ⟨⟨[]⟩, [], .empty⟩

theorem locate_bareHost : bareHost.disk.locate [] "settings.toml" = some ["settings.toml"] := by
  rw [Host.Disk.locate, show "settings.toml".contains '\x00' = false by simp]
  rfl

theorem saveTo_bareHost (s : Settings) : ∃ h', saveTo bareHost "settings.toml" s = .ok h' := by
  have hparent : parent "settings.toml" = "" := by decide
  have hslash : Host.Path.endsInSlash "settings.toml" = false := by decide
  refine exists_saveTo (d := bareHost.disk) ?_ (fun bytes => ?_) s
  · rw [hparent, Host.Disk.makeDirectories, show "".contains '\x00' = false by simp]
    rfl
  · change ∃ d', bareHost.disk.write? [] "settings.toml" bytes = some d'
    rw [Host.Disk.write?, locate_bareHost]
    simp only [hslash]
    exact ⟨_, rfl⟩

/-- Settings with every option chosen. -/
def chosenSettings : Settings where
  python := ⟨some "/usr/bin/python3", ["-i", "-X", "utf8"]⟩
  powershell := ⟨none, ["-NoProfile"]⟩
  shell := ⟨some "sh", []⟩
  session := ⟨40, 4096, ["python", "shell"], some "/", .ofList [("A B", "'x'"), ("PATH", "C:\\")],
    false⟩
  logLevel := "info"

theorem valid_chosenSettings : chosenSettings.Valid bareHost where
  grace := by decide
  limit := by decide
  languages := by decide
  python := by decide
  powershell := by decide
  shell := by decide
  directory := by
    rintro _ ⟨⟩
    have hlocate : bareHost.disk.locate [] "/" = some [] := by
      rw [Host.Disk.locate, show "/".contains '\x00' = false by simp]
      rfl
    exact beq_iff_eq.mpr (Host.Disk.find?_eq_some_iff.mpr ⟨[], hlocate, rfl, fun _ => rfl⟩)

theorem loadFrom_saveTo_chosenSettings : chosenSettings.validate bareHost = .ok () ∧
    ∃ h', saveTo bareHost "settings.toml" chosenSettings = .ok h' ∧
      loadFrom h' "settings.toml" = .ok chosenSettings := by
  have hvalid := Settings.validate_eq_ok_iff.mpr valid_chosenSettings
  obtain ⟨h', hsave⟩ := saveTo_bareHost chosenSettings
  exact ⟨hvalid, h', hsave, (loadFrom_saveTo (by decide) hvalid hsave).2 (by decide)⟩

/-- Settings with a blank level of logging, and nothing else chosen. -/
def unleveledSettings : Settings := { Settings.default with logLevel := "" }

/-- A blank level of logging is saved, but what is loaded has the usual one. -/
theorem loadFrom_saveTo_ne : unleveledSettings.validate bareHost = .ok () ∧
    ∃ h', saveTo bareHost "settings.toml" unleveledSettings = .ok h' ∧
      loadFrom h' "settings.toml" = .ok Settings.default ∧
      Settings.default ≠ unleveledSettings := by
  obtain ⟨h', hsave⟩ := saveTo_bareHost unleveledSettings
  refine ⟨rfl, h', hsave, ?_, by decide⟩
  have hvalid : unleveledSettings.Valid bareHost := Settings.validate_eq_ok_iff.mp rfl
  obtain ⟨hdirectory, hkeeps, hfile, hread⟩ := saveTo_eq_ok (hvalid.fits (by decide)) hsave
  rw [loadFrom_eq hfile hread, Settings.validate_eq_ok_iff.mpr (hvalid.keeps hdirectory hkeeps)]
  rfl

end StepTrace.SettingsFile

import DrillPost.Proofs.Files.Ancestors
import DrillPost.Proofs.Settings.Saving
import Mathlib.Control.Monad.Basic

/-!
# What saving leaves alone

Before anything is changed the settings are looked at, then the name of the file, and then there has
to be a text, which there is unless the configured directory is no text
(`Configuration.savedText_eq`, `Configuration.toText_eq_error_iff`). After that directories above the
file are made, and whatever fails then, files are as they were (`Configuration.saveOn_keeps`). Only a
disk that stops inside the text leaves a part of it, in a new file or in place of what an old one
held (`Configuration.saveOn_cuts_on_full_disk`).
-/

namespace DrillPost

namespace Configuration

variable {c : Configuration}

/-- A configuration can be written in either format unless its directory is no text. -/
theorem toText_eq_error_iff (format : FileFormat) :
    (∃ e, c.toText format = .error e) ↔ ∃ directory ∈ c.output.directory, directory.text? = none := by
  obtain ⟨program, ⟨_ | directory⟩⟩ := c
  · cases format <;> simp [toText, toJson, toToml?, toTree?, OutputSettings.toTree?]
  · cases htext : directory.text? <;> cases format <;>
      simp [toText, toJson, toToml?, toTree?, OutputSettings.toTree?, htext]

/-- The checks come in this order, and each of them stops the saving before anything changes. -/
theorem savedText_eq (c : Configuration) (path : Path) :
    (∀ fault, c.program.fault? = some fault → c.savedText path = .error (.invalid fault)) ∧
    (c.program.fault? = none →
      (∀ e, FileFormat.ofPath path = .error e →
        e = .unsupportedFormat path ∧ c.savedText path = .error e) ∧
      ∀ format, FileFormat.ofPath path = .ok format → c.savedText path = c.toText format) := by
  refine ⟨?_, ?_⟩
  · intro fault hfault
    rw [savedText, validate, hfault]
  · intro hnone
    have hvalid := validate_eq_ok_iff.2 hnone
    refine ⟨?_, ?_⟩
    · intro e he
      refine ⟨?_, by rw [savedText, hvalid, he]⟩
      unfold FileFormat.ofPath at he
      split at he <;> cases he
      rfl
    · intro format hformat
      rw [savedText, hvalid, hformat]

/-- Where saving fails, only directories have been made, unless the disk stopped inside the content.
It fails where the disk does, or where the path leads to no place for a file. Where it succeeds, the
file has been written. -/
def Keeps (disk : SavingDisk) (host : Host) (path : Path) (content : Bytes)
    (files made : FileSystem) (o : Outcome SettingsError Unit) : Prop :=
  match o.result with
  | .ok () => ∃ target, FileSystem.WrittenAt host path content files made o.files target
  | .error e =>
    (∃ cause, e = .directory cause ∧ o.files = made ∧
      (disk.directoryFault? = none → ∃ parent, path.parent? = some parent ∧
        made.isDirectoryAt host parent = false)) ∨
    (∃ cause, e = .save path cause ∧ o.files = made ∧
      (disk.openFault? = none → ∀ directory name, made.Leads host path directory name →
        made.isDirectory (name :: directory) = true)) ∨
    ∃ room cause target, disk.writeFault? = some (room, cause) ∧ room < content.length ∧
      e = .save path cause ∧
      FileSystem.WrittenAt host path (content.take room) files made o.files target

theorem Writes.keeps {disk : SavingDisk} {host : Host} {path : Path} {content : Bytes}
    {files made : FileSystem} {o : Outcome SettingsError Unit}
    (h : Writes disk host path content made o)
    (honly : FileSystem.OnlyNewAbove host path files made) :
    Keeps disk host path content files made o := by
  cases h with
  | noDirectory hfault => exact .inl ⟨_, rfl, rfl, hfault⟩
  | noFile hfault => exact .inr (.inl ⟨_, rfl, rfl, hfault⟩)
  | part hfault hroom hwrite =>
    obtain ⟨target, htarget⟩ := honly.writeFile hwrite
    exact .inr (.inr ⟨_, _, target, hfault, hroom, rfl, htarget⟩)
  | whole hwrite => exact honly.writeFile hwrite

/-- Faults of the settings, a name that says no format, and a directory that is no text show in this
order, and then nothing has changed at all. Otherwise directories above the path are made, and where
saving fails then, nothing else has changed: a file that was there holds what it held, unless the
disk stopped inside the text. Where saving succeeds, the file holds the text in the format that it is
loaded in, and all else is as it was. -/
theorem saveOn_keeps (disk : SavingDisk) (c : Configuration) (files : FileSystem) (host : Host)
    (path : Path) :
    let o := c.saveOn disk files host path
    (∀ fault, c.program.fault? = some fault → o = .fail files (.invalid fault) []) ∧
    (c.program.fault? = none →
      (∀ e, FileFormat.ofPath path = .error e →
        e = .unsupportedFormat path ∧ o = .fail files e []) ∧
      ∀ format, FileFormat.ofPath path = .ok format →
        (∀ directory ∈ c.output.directory, directory.text? = none →
          ∃ e, c.toText format = .error e ∧ o = .fail files e []) ∧
        ((∀ directory ∈ c.output.directory, directory.text? ≠ none) →
          ∃ text made, c.toText format = .ok text ∧
            FileSystem.OnlyNewAbove host path files made ∧
            Keeps disk host path (utf8 text) files made o ∧
            (o.result = .ok () → ∀ read, load o.files host path = .ok read ↔
              ofText format text = .ok read ∧ read.validate = .ok ()))) := by
  intro o
  obtain ⟨hinvalid, hchecks⟩ := c.savedText_eq path
  have hspec := saveOn_spec disk c files host path
  refine ⟨?_, ?_⟩
  · intro fault hfault
    rw [hinvalid fault hfault] at hspec
    exact hspec
  intro hnone
  obtain ⟨hunsupported, hformats⟩ := hchecks hnone
  refine ⟨?_, ?_⟩
  · intro e he
    obtain ⟨rfl, hsaved⟩ := hunsupported e he
    rw [hsaved] at hspec
    exact ⟨rfl, hspec⟩
  intro format hformat
  rw [hformats format hformat] at hspec
  refine ⟨?_, ?_⟩
  · intro directory hdirectory htext
    obtain ⟨e, he⟩ := (toText_eq_error_iff format).2 ⟨directory, hdirectory, htext⟩
    rw [he] at hspec
    exact ⟨e, he, hspec⟩
  · intro hdirectory
    cases htext : c.toText format with
    | error e =>
      obtain ⟨directory, hmem, hnot⟩ := (toText_eq_error_iff format).1 ⟨e, htext⟩
      exact absurd hnot (hdirectory directory hmem)
    | ok text =>
      rw [htext] at hspec
      obtain ⟨made, hmakes, hwrites⟩ := hspec
      have honly := hmakes.onlyNewAbove
      refine ⟨text, made, rfl, honly, hwrites.keeps honly, ?_⟩
      intro hresult
      obtain ⟨-, format', text', hformat', htext', hload⟩ := load_save hresult
      rw [hformat] at hformat'
      cases hformat'
      rw [htext] at htext'
      cases htext'
      exact hload

/-- The directory of a file is made, and then there is no place for a file at a path that ends in a
slash. The directory holds nothing that was not made with it. -/
theorem saveOn_keeps_trailing_slash :
    let path := Path.ofText "new/c.json/"
    let host : Host := ⟨[], 0o022, none, none, none⟩
    let files := FileSystem.empty
    let c := Configuration.standard
    let o := c.save files host path
    o.result = .error (.save path .isADirectory) ∧
      FileSystem.IsNewAbove host path files o.files [utf8 "new"] ∧
      (∀ place, o.files.lookup? place = files.lookup? place ∨
        FileSystem.IsNewAbove host path files o.files place) ∧
      ∀ name, o.files.lookup? [name, utf8 "new"] = none ∨
        FileSystem.IsNewAbove host path files o.files [name, utf8 "new"] := by
  intro path host files c o
  have hresult : o.result = .error (.save path .isADirectory) := by decide +kernel
  have hnew : o.files.lookup? [utf8 "new"] ≠ files.lookup? [utf8 "new"] := by decide +kernel
  have hformat : FileFormat.ofPath path = .ok .json := by decide +kernel
  have hfit : c.program.fault? = none := by decide +kernel
  have hdirectory : ∀ directory ∈ c.output.directory, directory.text? ≠ none := nofun
  have hrooted : files.IsRooted := fun name directory h => absurd rfl h
  refine ⟨hresult, ?_⟩
  -- From here on the file is not to be saved again.
  clear_value path host files c
  obtain ⟨-, hchecks⟩ := saveOn_keeps .sound c files host path
  obtain ⟨-, hformats⟩ := hchecks hfit
  obtain ⟨-, hsaves⟩ := hformats .json hformat
  obtain ⟨text, made, -, honly, hkeeps, -⟩ := hsaves hdirectory
  change Keeps .sound host path (utf8 text) files made o at hkeeps
  rw [Keeps, hresult] at hkeeps
  have hfiles : o.files = made := by
    obtain ⟨cause, -, hfiles, -⟩ | ⟨cause, -, hfiles, -⟩ | ⟨room, cause, target, hfault, -⟩ := hkeeps
    · exact hfiles
    · exact hfiles
    · -- A disk that never fails does not stop inside the text.
      cases hfault
  rw [hfiles] at hnew ⊢
  have habove := (honly.lookup?_eq_or [utf8 "new"]).resolve_left hnew
  exact ⟨habove, honly.lookup?_eq_or, honly.lookup?_inside hrooted _ habove⟩

/-- A disk that is full inside the text leaves a file cut, be it one that was there or a new one, and
a new directory holds another that was made with it. -/
theorem saveOn_cuts_on_full_disk :
    let host : Host := ⟨[], 0o022, none, none, none⟩
    let place := [utf8 "c.json"]
    let held := FileSystem.empty.insert place (.file 0o600 (utf8 "old"))
    let full : SavingDisk := ⟨none, none, some (2, .noSpace)⟩
    let c := Configuration.standard
    let cut := c.saveOn full held host (.ofText "c.json")
    let fresh := c.saveOn full .empty host (.ofText "c.json")
    let deep := c.save .empty host (.ofText "a/b/c.json/")
    (cut.result = .error (.save (.ofText "c.json") .noSpace) ∧
      cut.files.lookup? place = some (.file 0o600 (utf8 "\x7b\n"))) ∧
    (fresh.result = .error (.save (.ofText "c.json") .noSpace) ∧
      fresh.files.lookup? place = some (.file 0o644 (utf8 "\x7b\n"))) ∧
    deep.result = .error (.save (.ofText "a/b/c.json/") .isADirectory) ∧
      deep.files.lookup? [utf8 "a"] = some (.directory 0o755) ∧
      deep.files.lookup? [utf8 "b", utf8 "a"] = some (.directory 0o755) := by
  decide +kernel

end Configuration

end DrillPost

import DrillPost.Proofs.Files.Ancestors
import DrillPost.Settings.File

/-!
# Saved configurations

A configuration that is saved is written in the format that the extension of its path says; all else
that changes are directories above it, which are made also when the file cannot be written, and a
disk may take a part of the file only (`Configuration.Writes`, `Configuration.saveOn_spec`). What is
loaded from the path afterwards is what is read from the written text (`Configuration.load_save`).
The file ends in a dot and its extension, so it is never the file of a program
(`FileFormat.not_isSuffix`).
-/

namespace DrillPost

/-! ### Extensions -/

theorem splitExtension_eq_some {name before after : Bytes}
    (h : splitExtension name = (before, some after)) :
    name = before ++ dot :: after ∧ dot ∉ after := by
  unfold splitExtension at h
  dsimp only at h
  split at h
  · cases h
  next hbefore =>
  obtain ⟨rfl, hafter⟩ := Prod.mk.inj h
  cases hafter
  have hsplit : name.reverse.takeWhile (· ≠ dot) ++ name.reverse.dropWhile (· ≠ dot) =
    name.reverse := List.takeWhile_append_dropWhile
  constructor
  · cases hrest : name.reverse.dropWhile (· ≠ dot) with
    | nil =>
      rw [hrest] at hbefore
      exact absurd rfl hbefore
    | cons b rest =>
      -- The first byte that is left in the reversed name is the dot.
      have hb : b = dot := by
        have hhead := List.head?_dropWhile_not (fun b => decide (b ≠ dot)) name.reverse
        rw [hrest, List.head?_cons] at hhead
        simpa using hhead
      rw [hrest, hb] at hsplit
      have hname := congrArg List.reverse hsplit
      rw [List.reverse_append, List.reverse_cons, List.reverse_reverse] at hname
      rw [List.tail_cons]
      exact hname.symm.trans (List.append_assoc _ _ _)
  · intro hdot
    have hne := List.all_takeWhile (p := fun b => decide (b ≠ dot)) (l := name.reverse)
    rw [List.all_eq_true] at hne
    exact absurd rfl (of_decide_eq_true (hne dot (List.mem_reverse.1 hdot)))

/-- What follows the last dot of a name is one thing. -/
theorem eq_of_isSuffix {name a b : Bytes} (ha : dot :: a <:+ name) (hb : dot :: b <:+ name)
    (hda : dot ∉ a) (hdb : dot ∉ b) : a = b := by
  have hcases : ∀ {a b : Bytes}, dot :: a <:+ dot :: b → dot ∉ b → a = b := by
    intro a b hsuffix hdot
    rcases List.suffix_cons_iff.1 hsuffix with heq | hinner
    · exact (List.cons.inj heq).2
    · exact absurd (hinner.subset List.mem_cons_self) hdot
  rcases List.suffix_or_suffix_of_suffix ha hb with h | h
  · exact hcases h hdb
  · exact (hcases h hda).symm

namespace FileFormat

/-- The extension of a format, in small letters. -/
def letters : FileFormat → List Char
  | .json => ['j', 's', 'o', 'n']
  | .toml => ['t', 'o', 'm', 'l']

theorem ofPath_eq_ok_iff {path : Path} {format : FileFormat} :
    ofPath path = .ok format ↔
      ∃ bytes text, path.extension? = some bytes ∧ ofUtf8? bytes = some text ∧
        text.toList.map Char.toLower = format.letters := by
  have hname : ∀ {letters : List Char},
      (path.extension?.bind ofUtf8?).map (fun name => name.toList.map Char.toLower) = some letters ↔
        ∃ bytes text, path.extension? = some bytes ∧ ofUtf8? bytes = some text ∧
          text.toList.map Char.toLower = letters := by
    intro letters
    rw [Option.map_eq_some_iff]
    constructor
    · rintro ⟨text, hbind, hletters⟩
      obtain ⟨bytes, hbytes, htext⟩ := Option.bind_eq_some_iff.1 hbind
      exact ⟨bytes, text, hbytes, htext, hletters⟩
    · rintro ⟨bytes, text, hbytes, htext, hletters⟩
      exact ⟨text, Option.bind_eq_some_iff.2 ⟨bytes, hbytes, htext⟩, hletters⟩
  rw [← hname]
  unfold ofPath
  split
  · next hjson =>
    rw [hjson, Except.ok.injEq, Option.some_inj]
    cases format <;> simp [letters]
  · next htoml =>
    rw [htoml, Except.ok.injEq, Option.some_inj]
    cases format <;> simp [letters]
  · next hjson htoml =>
    refine ⟨nofun, fun h => ?_⟩
    cases format with
    | json => exact absurd h hjson
    | toml => exact absurd h htoml

theorem ofPath_of_extension {path : Path} {format : FileFormat} {extension : String}
    (hextension : path.extension? = some (utf8 extension))
    (hletters : extension.toList.map Char.toLower = format.letters) : ofPath path = .ok format :=
  ofPath_eq_ok_iff.2 ⟨_, extension, hextension, ofUtf8?_utf8 extension, hletters⟩

/-- Where a configuration is saved, the name ends in no other extension. -/
theorem not_isSuffix {path : Path} {format : FileFormat} {fs : FileSystem} {host : Host}
    {directory : Location} {name : Bytes} (h : ofPath path = .ok format)
    (hleads : fs.Leads host path directory name) (other : String) (hdot : dot ∉ utf8 other)
    (hother : other.toList.map Char.toLower ≠ format.letters) :
    ¬ dot :: utf8 other <:+ name := by
  obtain ⟨bytes, text, hbytes, htext, hletters⟩ := ofPath_eq_ok_iff.1 h
  obtain ⟨file, hfile, hextension⟩ := Option.bind_eq_some_iff.1 hbytes
  intro hsuffix
  rw [hleads.eq_fileName? hfile] at hsuffix
  obtain ⟨hsplit, hno⟩ := splitExtension_eq_some (Prod.ext rfl hextension)
  have heq := eq_of_isSuffix hsuffix ⟨_, hsplit.symm⟩ hdot hno
  rw [← heq, ofUtf8?_utf8] at htext
  exact hother (Option.some.inj htext ▸ hletters)

end FileFormat

/-- The settings whose directory is a text, or is left out. -/
theorem OutputSettings.exists_eq_ofText {output : OutputSettings}
    (h : ∀ directory ∈ output.directory, ∃ s, directory = .ofText s) :
    ∃ directory : Option String, output = ⟨directory.map Path.ofText⟩ := by
  obtain ⟨_ | directory⟩ := output
  · exact ⟨none, rfl⟩
  · obtain ⟨s, rfl⟩ := h directory rfl
    exact ⟨some s, rfl⟩

namespace Configuration

variable {disk : SavingDisk} {c : Configuration} {files : FileSystem} {host : Host} {path : Path}

/-! ### Loading -/

theorem load_eq_ok_iff : load files host path = .ok c ↔
    ∃ format text, FileFormat.ofPath path = .ok format ∧ files.readText host path = .ok text ∧
      ofText format text = .ok c ∧ c.validate = .ok () := by
  unfold load
  constructor
  · intro h
    split at h
    · cases h
    next format hformat =>
    split at h
    · cases h
    next text htext =>
    split at h
    · cases h
    next read hread =>
    split at h
    · cases h
    next hvalid =>
    cases h
    exact ⟨format, text, hformat, htext, hread, hvalid⟩
  · rintro ⟨format, text, hformat, htext, hread, hvalid⟩
    rw [hformat]
    dsimp only
    rw [htext]
    dsimp only
    rw [hread]
    dsimp only
    rw [hvalid]

/-! ### Saving -/

theorem validate_eq_ok_iff : c.validate = .ok () ↔ c.program.fault? = none := by
  unfold validate
  cases c.program.fault? with
  | none => exact ⟨fun _ => rfl, fun _ => rfl⟩
  | some fault => exact ⟨nofun, nofun⟩

theorem savedText_eq_ok {text : String} (h : c.savedText path = .ok text) :
    c.validate = .ok () ∧
      ∃ format, FileFormat.ofPath path = .ok format ∧ c.toText format = .ok text := by
  unfold savedText at h
  cases hvalid : c.validate with
  | error fault =>
    rw [hvalid] at h
    cases h
  | ok value =>
    rw [hvalid] at h
    cases hformat : FileFormat.ofPath path with
    | error fault =>
      rw [hformat] at h
      cases h
    | ok format =>
      rw [hformat] at h
      exact ⟨rfl, format, rfl, h⟩

/-- The directories that are made are above the path. -/
theorem makes_makeParents (disk : SavingDisk) (files : FileSystem) (host : Host) (path : Path) :
    FileSystem.Makes host (·.IsAbove path) files (makeParents disk files host path).1 := by
  have hclosed : ∀ q r : Path, q.IsAbove path → q.parent? = some r → r.IsAbove path :=
    fun q r hq hr => (Path.IsAbove.of_parent? hr).trans hq
  unfold makeParents
  split
  · exact .refl
  next parent hparent =>
  obtain ⟨hparent, -⟩ := Option.filter_eq_some_iff.1 hparent
  have hparent := Path.IsAbove.of_parent? hparent
  cases disk.directoryFault? with
  | none => exact FileSystem.makes_createDirectories files host hparent hclosed
  | some fault =>
    obtain ⟨levels, cause⟩ := fault
    dsimp only
    cases habove : parent.aboveParent? levels with
    | none => exact .refl
    | some above =>
      have habove : above.IsAbove path := Path.IsAbove.trans ⟨levels, habove⟩ hparent
      exact FileSystem.makes_createDirectories files host habove hclosed

/-- Where not all directories could be made, there is none for the file. -/
theorem exists_parent_of_makeParents {made : FileSystem} {cause : IoError}
    (h : makeParents disk files host path = (made, some cause))
    (hfault : disk.directoryFault? = none) :
    ∃ parent, path.parent? = some parent ∧ made.isDirectoryAt host parent = false := by
  unfold makeParents at h
  split at h
  · cases h
  next parent hparent =>
  obtain ⟨hparent, -⟩ := Option.filter_eq_some_iff.1 hparent
  rw [hfault] at h
  exact ⟨parent, hparent, (FileSystem.isDirectoryAt_createDirectories files host parent h).2⟩

/-- What can come of saving content under a path, when directories have been made. -/
inductive Writes (disk : SavingDisk) (host : Host) (path : Path) (content : Bytes)
    (made : FileSystem) : Outcome SettingsError Unit → Prop
  /-- Not all directories could be made. -/
  | noDirectory {cause : IoError}
      (hfault : disk.directoryFault? = none → ∃ parent, path.parent? = some parent ∧
        made.isDirectoryAt host parent = false) :
    Writes disk host path content made (.fail made (.directory cause) [])
  /-- The file could not be opened. -/
  | noFile {cause : IoError}
      (hfault : disk.openFault? = none → ∀ directory name, made.Leads host path directory name →
        made.isDirectory (name :: directory) = true) :
    Writes disk host path content made (.fail made (.save path cause) [])
  /-- The disk took a part of the content. -/
  | part {files : FileSystem} {room : Nat} {cause : IoError}
      (hfault : disk.writeFault? = some (room, cause)) (hroom : room < content.length)
      (hwrite : made.writeFile host path (content.take room) = .ok files) :
    Writes disk host path content made (.fail files (.save path cause) [])
  /-- The disk took all. -/
  | whole {files : FileSystem} (hwrite : made.writeFile host path content = .ok files) :
    Writes disk host path content made (.ok files () [])

theorem writes_writeText (disk : SavingDisk) (made : FileSystem) (host : Host) (path : Path)
    (text : String) :
    Writes disk host path (utf8 text) made
      (match writeText disk made host path text with
        | (files, some cause) => .fail files (.save path cause) []
        | (files, none) => .ok files () []) := by
  have hplace : ∀ {content : Bytes} {cause : IoError},
      made.writeFile host path content = .error cause → ∀ directory name,
        made.Leads host path directory name → made.isDirectory (name :: directory) = true := by
    intro content cause hwrite directory name hleads
    cases hfile : made.isDirectory (name :: directory) with
    | true => rfl
    | false =>
      rw [hleads.writeFile_eq hfile] at hwrite
      cases hwrite
  unfold writeText
  dsimp only
  cases hopen : disk.openFault? with
  | some cause => exact .noFile fun hnone => nomatch hopen.symm.trans hnone
  | none =>
    cases hfault : disk.writeFault?.filter fun fault => fault.1 < (utf8 text).length with
    | none =>
      dsimp only [Option.elim_none]
      cases hwrite : made.writeFile host path (utf8 text) with
      | error cause => exact .noFile fun _ => hplace hwrite
      | ok written => exact .whole hwrite
    | some fault =>
      obtain ⟨hfault, hroom⟩ := Option.filter_eq_some_iff.1 hfault
      dsimp only [Option.elim_some]
      cases hwrite : made.writeFile host path ((utf8 text).take fault.1) with
      | error cause => exact .noFile fun _ => hplace hwrite
      | ok written => exact .part hfault (of_decide_eq_true hroom) hwrite

/-- Where there is no text to save, nothing is changed. Where there is one, directories above the
path are made, and then the file is written, or a part of it, or nothing else is changed. -/
theorem saveOn_spec (disk : SavingDisk) (c : Configuration) (files : FileSystem) (host : Host)
    (path : Path) :
    match c.savedText path with
    | .error e => c.saveOn disk files host path = .fail files e []
    | .ok text => ∃ made, FileSystem.Makes host (·.IsAbove path) files made ∧
        Writes disk host path (utf8 text) made (c.saveOn disk files host path) := by
  unfold saveOn
  cases c.savedText path with
  | error e => rfl
  | ok text =>
    have hmakes := makes_makeParents disk files host path
    dsimp only
    cases hmake : makeParents disk files host path with
    | mk made fault? =>
      rw [hmake] at hmakes
      refine ⟨made, hmakes, ?_⟩
      cases fault? with
      | some cause => exact .noDirectory (exists_parent_of_makeParents hmake)
      | none => exact writes_writeText disk made host path text

/-- After a configuration was saved, what is loaded is what is read from its text, if that is fit
for use. -/
theorem load_save (h : (c.saveOn disk files host path).result = .ok ()) :
    c.validate = .ok () ∧
      ∃ format text, FileFormat.ofPath path = .ok format ∧ c.toText format = .ok text ∧
        ∀ read, load (c.saveOn disk files host path).files host path = .ok read ↔
          ofText format text = .ok read ∧ read.validate = .ok () := by
  have hspec := saveOn_spec disk c files host path
  cases hsaved : c.savedText path with
  | error e =>
    rw [hsaved] at hspec
    rw [hspec] at h
    cases h
  | ok text =>
    obtain ⟨hvalid, format, hformat, htext⟩ := savedText_eq_ok hsaved
    rw [hsaved] at hspec
    obtain ⟨made, -, hwrites⟩ := hspec
    generalize c.saveOn disk files host path = o at h hwrites ⊢
    cases hwrites with
    | noDirectory => cases h
    | noFile => cases h
    | part => cases h
    | @whole written hwrite =>
      have hreadText : written.readText host path = .ok text := by
        rw [FileSystem.readText, FileSystem.readFile_writeFile hwrite]
        dsimp only
        rw [ofUtf8?_utf8]
      refine ⟨hvalid, format, text, hformat, htext, ?_⟩
      intro read
      show load written host path = .ok read ↔ _
      rw [load_eq_ok_iff]
      constructor
      · rintro ⟨format', text', hformat', htext', hread⟩
        rw [hformat] at hformat'
        rw [hreadText] at htext'
        cases hformat'
        cases htext'
        exact hread
      · intro hread
        exact ⟨format, text, hformat, hreadText, hread⟩

end Configuration

end DrillPost

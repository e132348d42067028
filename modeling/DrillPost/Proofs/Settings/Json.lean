import DrillPost.Proofs.Job.Validation
import DrillPost.Proofs.Json.Pretty
import DrillPost.Proofs.Settings.Saving

/-!
# What of settings survives in JSON

A configuration whose directory is a text is written as an object that says all of it, and the
object is read (`Configuration.toOption_ofJson`). Only the real numbers may come back as others:
each is what is read where it was printed. So a configuration that is saved in JSON is loaded as it
was if and only if both of its numbers are read back (`Configuration.load_save_json`).
-/

namespace DrillPost

open Json

/-! ### Program settings -/

namespace ProgramSettings

/-- The settings with the numbers that are read where they were printed, if these are in range. -/
def reread? (s : ProgramSettings) : Option ProgramSettings :=
  (Json.reread? s.safeHeight).bind fun height =>
    (Json.reread? s.drillDepth).map fun depth => ⟨s.spindlePower, height, depth⟩

theorem reread?_eq_some_iff {s t : ProgramSettings} : s.reread? = some t ↔
    s.spindlePower = t.spindlePower ∧ Json.reread? s.safeHeight = some t.safeHeight ∧
      Json.reread? s.drillDepth = some t.drillDepth := by
  rw [reread?, Option.bind_eq_some_iff]
  constructor
  · rintro ⟨height, hheight, hmap⟩
    obtain ⟨depth, hdepth, rfl⟩ := Option.map_eq_some_iff.1 hmap
    exact ⟨rfl, hheight, hdepth⟩
  · rintro ⟨hpower, hheight, hdepth⟩
    refine ⟨t.safeHeight, hheight, ?_⟩
    rw [hdepth, hpower]
    rfl

theorem field_spindlePower (height depth : Option Binary64) :
    field ⟨none, height, depth⟩ "spindle_power" =
      .ok (readWord32.map fun power => ⟨some power, height, depth⟩) := by
  rw [field, if_pos rfl]
  rfl

theorem field_safeHeight (power : Option UInt32) (depth : Option Binary64) :
    field ⟨power, none, depth⟩ "safe_height" =
      .ok (readReal.map fun height => ⟨power, some height, depth⟩) := by
  rw [field, if_neg (by decide), if_pos rfl]
  rfl

theorem field_drillDepth (power : Option UInt32) (height : Option Binary64) :
    field ⟨power, height, none⟩ "drill_depth" =
      .ok (readReal.map fun depth => ⟨power, height, some depth⟩) := by
  rw [field, if_neg (by decide), if_neg (by decide), if_pos rfl]
  rfl

theorem givesMembers_drillDepth (level : Nat) {x : Binary64} (hx : x.isFinite = true)
    (fields : Overrides) (hfields : fields.drillDepth = none) :
    GivesMembers field level fields [("drill_depth", .real x)]
      ((Json.reread? x).map fun depth => { fields with drillDepth := some depth }) := by
  obtain ⟨power, height, _⟩ := fields
  obtain rfl := hfields
  have hread := givesMembers_cons (field_drillDepth power height)
    ((givesTree_readReal hx (level + 1)).map _) fun fields _ => givesMembers_nil field level fields
  rwa [Option.bind_fun_some] at hread

theorem givesMembers_safeHeight (level : Nat) {x y : Binary64} (hx : x.isFinite = true)
    (hy : y.isFinite = true) (power : Option UInt32) :
    GivesMembers field level ⟨power, none, none⟩
      [("safe_height", .real x), ("drill_depth", .real y)]
      ((Json.reread? x).bind fun height =>
        (Json.reread? y).map fun depth => ⟨power, some height, some depth⟩) := by
  have hread := givesMembers_cons (field_safeHeight power none)
    ((givesTree_readReal hx (level + 1)).map _) fun fields heq =>
      givesMembers_drillDepth level hy fields (by
        obtain ⟨height, -, rfl⟩ := Option.map_eq_some_iff.1 heq
        rfl)
  rwa [Option.bind_map] at hread

/-- What is read of program settings is the same spindle power, and the numbers that are read where
theirs were printed. -/
theorem givesTree_read {s : ProgramSettings} (h : s.fault? = none) (level : Nat) :
    GivesTree read level s.toTree s.reread? := by
  obtain ⟨hdepth, -, hheight⟩ := s.fault?_eq_none_iff.1 h
  let fields : Overrides := ⟨some s.spindlePower, none, none⟩
  have hnumbers : ∀ next, some fields = some next → GivesMembers field level next
      [("safe_height", .real s.safeHeight), ("drill_depth", .real s.drillDepth)]
      ((Json.reread? s.safeHeight).bind fun height =>
        (Json.reread? s.drillDepth).map fun depth =>
          ⟨some s.spindlePower, some height, some depth⟩) := by
    intro next heq
    obtain rfl := Option.some.inj heq
    exact givesMembers_safeHeight level hheight hdepth (some s.spindlePower)
  have hread := givesObject_cons (field_spindlePower none none)
    ((givesTree_readWord32 s.spindlePower (level + 1)).map _) hnumbers
  have hfields := hread.map standard.override
  have hsettings : ((some fields).bind fun _ => (Json.reread? s.safeHeight).bind fun height =>
      (Json.reread? s.drillDepth).map fun depth =>
        Overrides.mk (some s.spindlePower) (some height) (some depth)).map standard.override =
      s.reread? := by
    rw [reread?, Option.bind_some]
    cases Json.reread? s.safeHeight with
    | none => rfl
    | some height =>
      cases Json.reread? s.drillDepth with
      | none => rfl
      | some depth => rfl
  exact Json.givesTree_read (hsettings ▸ hfields)

end ProgramSettings

/-! ### Output settings -/

namespace OutputSettings

theorem field_directory : field none "directory" = .ok (readDirectory.map some) := by
  rw [field, if_pos rfl]
  rfl

/-- A directory that is a text is read as it was, and so is one that is left out. -/
theorem exists_givesTree_read (directory : Option String) (level : Nat) :
    ∃ tree, toTree? ⟨directory.map Path.ofText⟩ = some tree ∧
      GivesTree read level tree (some ⟨directory.map Path.ofText⟩) := by
  cases directory with
  | none =>
    exact ⟨.map [], rfl, givesTree_read ((givesObject_nil field level none).map _)⟩
  | some s =>
    have htree : toTree? ⟨some (Path.ofText s)⟩ = some (.map [("directory", .text s)]) := by
      show (ofUtf8? (utf8 s)).map _ = _
      rw [ofUtf8?_utf8]
      rfl
    have hdirectory := ((givesTree_readText? "path string" s (level + 1)).map
      fun text => text.map Path.ofText).map some
    have hread := givesObject_cons field_directory hdirectory
      fun state _ => givesMembers_nil field level state
    exact ⟨_, htree, givesTree_read (hread.map _)⟩

end OutputSettings

/-! ### Configurations -/

namespace Configuration

theorem field_encoder (output : Option OutputSettings) :
    field ⟨none, output⟩ "encoder" =
      .ok (ProgramSettings.read.map fun program => ⟨some program, output⟩) := by
  rw [field, if_pos rfl]
  rfl

theorem field_output (program : Option ProgramSettings) :
    field ⟨program, none⟩ "output" =
      .ok (OutputSettings.read.map fun output => ⟨program, some output⟩) := by
  rw [field, if_neg (by decide), if_pos rfl]
  rfl

/-- What is read of a configuration is the same directory, and what is read of the program
settings. -/
theorem exists_givesTree_read {program : ProgramSettings} (h : program.fault? = none)
    (directory : Option String) (level : Nat) :
    ∃ tree, toTree? ⟨program, ⟨directory.map Path.ofText⟩⟩ = some tree ∧
      GivesTree read level tree
        (program.reread?.map fun settings => ⟨settings, ⟨directory.map Path.ofText⟩⟩) := by
  obtain ⟨outputTree, htree, houtput⟩ :=
    OutputSettings.exists_givesTree_read directory (level + 1)
  have hrest : ∀ fields : Fields, fields.output = none →
      GivesMembers field level fields [("output", outputTree)]
        (some ⟨fields.program, some ⟨directory.map Path.ofText⟩⟩) := by
    rintro ⟨settings, output⟩ rfl
    exact givesMembers_cons (field_output settings) (houtput.map _)
      fun state _ => givesMembers_nil field level state
  have hread := givesObject_cons (field_encoder none)
    ((ProgramSettings.givesTree_read h (level + 1)).map _) fun fields heq => hrest fields (by
      obtain ⟨settings, -, rfl⟩ := Option.map_eq_some_iff.1 heq
      rfl)
  have hfields := hread.map fun f : Fields =>
    (⟨f.program.getD .standard, f.output.getD .standard⟩ : Configuration)
  refine ⟨.map [("encoder", program.toTree), ("output", outputTree)], ?_, givesTree_read ?_⟩
  · show (OutputSettings.toTree? ⟨directory.map Path.ofText⟩).map _ = _
    rw [htree]
    rfl
  · cases hsettings : program.reread? with
    | none =>
      rw [hsettings] at hfields
      exact hfields
    | some settings =>
      rw [hsettings] at hfields
      exact hfields

theorem toOption_ofJson {tree : Tree} {value? : Option Configuration}
    (h : GivesTree read 1 tree value?) : (ofJson (pretty tree)).toOption = value? := by
  have hread := h [] [] (List.forall_mem_nil _) nofun
  have htext : (pretty tree).toList = writePretty 1 tree := String.toList_ofList
  rw [List.nil_append, List.append_nil, ← htext] at hread
  rw [ofJson, readText]
  cases value? with
  | none =>
    obtain ⟨e, he⟩ := hread
    rw [he]
    rfl
  | some value =>
    obtain ⟨shorter, hread⟩ := hread.eq_ok
    rw [hread]
    rfl

/-- What is loaded after a configuration was saved in JSON has the same directory, and what is read
of the program settings. -/
theorem load_save_json_iff {disk : SavingDisk} {c : Configuration} {files : FileSystem}
    {host : Host} {path : Path} {extension : String}
    (hdirectory : ∀ directory ∈ c.output.directory, ∃ s, directory = .ofText s)
    (hextension : path.extension? = some (utf8 extension))
    (hletters : extension.toList.map Char.toLower = ['j', 's', 'o', 'n'])
    (hsaved : (c.saveOn disk files host path).result = .ok ()) (read : Configuration) :
    load (c.saveOn disk files host path).files host path = .ok read ↔
      c.program.reread? = some read.program ∧ c.output = read.output ∧ read.validate = .ok () := by
  obtain ⟨hvalid, format, text, hformat, htext, hload⟩ := load_save hsaved
  have hjson : FileFormat.ofPath path = .ok .json :=
    FileFormat.ofPath_of_extension hextension hletters
  obtain rfl : .json = format := Except.ok.inj (hjson.symm.trans hformat)
  obtain ⟨program, output⟩ := c
  obtain ⟨s, rfl⟩ := OutputSettings.exists_eq_ofText hdirectory
  obtain ⟨tree, htree, hgives⟩ := exists_givesTree_read (validate_eq_ok_iff.1 hvalid) s 1
  obtain rfl : pretty tree = text := by
    rw [toText, toJson, htree] at htext
    exact Except.ok.inj htext
  have hread : ofText .json (pretty tree) = .ok read ↔
      (ofJson (pretty tree)).toOption = some read := by
    rw [ofText]
    cases ofJson (pretty tree) with
    | error e => exact ⟨nofun, nofun⟩
    | ok c =>
      exact ⟨fun h => congrArg some (Except.ok.inj h), fun h => congrArg _ (Option.some.inj h)⟩
  rw [hload read, hread, toOption_ofJson hgives, Option.map_eq_some_iff]
  constructor
  · rintro ⟨⟨settings, hsettings, rfl⟩, hvalidRead⟩
    exact ⟨hsettings, rfl, hvalidRead⟩
  · rintro ⟨hsettings, houtput, hvalidRead⟩
    obtain ⟨settings, output⟩ := read
    obtain rfl := houtput
    exact ⟨⟨settings, hsettings, rfl⟩, hvalidRead⟩

/-- A configuration that was saved in JSON is loaded as it was if and only if both of its numbers
are read back where they were printed, and they are if they are short. What else is in it always
survives. -/
theorem load_save_json {disk : SavingDisk} {c : Configuration} {files : FileSystem}
    {host : Host} {path : Path} {extension : String}
    (hdirectory : ∀ directory ∈ c.output.directory, ∃ s, directory = .ofText s)
    (hextension : path.extension? = some (utf8 extension))
    (hletters : extension.toList.map Char.toLower = ['j', 's', 'o', 'n'])
    (hsaved : (c.saveOn disk files host path).result = .ok ()) :
    (load (c.saveOn disk files host path).files host path = .ok c ↔
      reread? c.program.safeHeight = some c.program.safeHeight ∧
        reread? c.program.drillDepth = some c.program.drillDepth) ∧
    (IsShort c.program.safeHeight → IsShort c.program.drillDepth →
      load (c.saveOn disk files host path).files host path = .ok c) ∧
    ∀ read, load (c.saveOn disk files host path).files host path = .ok read →
      read.program.spindlePower = c.program.spindlePower ∧ read.output = c.output := by
  have hvalid := (load_save hsaved).1
  have hloaded := load_save_json_iff hdirectory hextension hletters hsaved
  have hkept : load (c.saveOn disk files host path).files host path = .ok c ↔
      reread? c.program.safeHeight = some c.program.safeHeight ∧
        reread? c.program.drillDepth = some c.program.drillDepth := by
    rw [hloaded c, ProgramSettings.reread?_eq_some_iff]
    exact ⟨fun h => h.1.2, fun h => ⟨⟨rfl, h⟩, rfl, hvalid⟩⟩
  refine ⟨hkept, fun hheight hdepth => hkept.2 ⟨hheight.reread?_eq, hdepth.reread?_eq⟩, ?_⟩
  intro read hread
  obtain ⟨hprogram, houtput, -⟩ := (hloaded read).1 hread
  exact ⟨(ProgramSettings.reread?_eq_some_iff.1 hprogram).1.symm, houtput.symm⟩

/-- Short numbers survive, and so do all characters of a directory. -/
theorem load_save_json_short :
    let host : Host := ⟨[], 0o022, none, none, none⟩
    let program : ProgramSettings := ⟨12000, Decimal.toBinary64 false ⟨125, -1⟩,
      Decimal.toBinary64 false ⟨18, -1⟩⟩
    let c : Configuration := ⟨program, ⟨some (.ofText "a\"b\\c\n\x01")⟩⟩
    let saved := c.save .empty host (.ofText "drill/c.JSON")
    saved.result = .ok () ∧ load saved.files host (.ofText "drill/c.JSON") = .ok c := by
  intro host program c saved
  have hsaved : saved.result = .ok () := by decide +kernel
  have hdirectory : ∀ directory ∈ c.output.directory, ∃ s, directory = .ofText s :=
    fun directory hmem => ⟨_, (Option.some.inj hmem).symm⟩
  have hextension : (Path.ofText "drill/c.JSON").extension? = some (utf8 "JSON") := by
    decide +kernel
  have hshort : IsShort c.program.safeHeight ∧ IsShort c.program.drillDepth := by decide +kernel
  -- From here on nothing is to be computed again.
  clear_value c
  have hloaded := (load_save_json hdirectory hextension (by decide) hsaved).2.1
  exact ⟨hsaved, hloaded hshort.1 hshort.2⟩

/-- Seventeen digits do not fit the significand of a value: a height of `27.939999999999998` is
loaded as `27.94`, so the configuration is another one. -/
theorem load_save_json_ne :
    let host : Host := ⟨[], 0o022, none, none, none⟩
    let height := Decimal.toBinary64 false ⟨27939999999999998, -15⟩
    let loaded := Decimal.toBinary64 false ⟨2794, -2⟩
    let depth := Binary64.ofNat 2
    let c : Configuration := ⟨⟨100, height, depth⟩, .standard⟩
    let other : Configuration := ⟨⟨100, loaded, depth⟩, .standard⟩
    let saved := c.save .empty host (.ofText "c.json")
    c.validate = .ok () ∧ saved.result = .ok () ∧
      load saved.files host (.ofText "c.json") = .ok other ∧ other ≠ c := by
  intro host height loaded depth c other saved
  have hvalid : c.validate = .ok () := by decide +kernel
  have hsaved : saved.result = .ok () := by decide +kernel
  have hheight : reread? height = some loaded := by decide +kernel
  have hdepth : reread? depth = some depth := by decide +kernel
  have hne : other ≠ c := by decide +kernel
  have hother : other.validate = .ok () := by decide +kernel
  have hextension : (Path.ofText "c.json").extension? = some (utf8 "json") := by decide +kernel
  have hdirectory : ∀ directory ∈ c.output.directory, ∃ s, directory = .ofText s := by
    rintro directory ⟨⟩
  -- From here on the numbers are not to be computed again.
  clear_value height loaded depth
  have hprogram : c.program.reread? = some other.program :=
    ProgramSettings.reread?_eq_some_iff.2 ⟨rfl, hheight, hdepth⟩
  have hload := load_save_json_iff hdirectory hextension (by decide) hsaved other
  exact ⟨hvalid, hsaved, hload.2 ⟨hprogram, rfl, hother⟩, hne⟩

end Configuration

end DrillPost

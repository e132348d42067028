import DrillPost.Proofs.Job.Validation
import DrillPost.Proofs.Settings.Saving
import DrillPost.Proofs.Text.Utf8
import DrillPost.Proofs.Toml.Document

/-!
# Settings survive in TOML

A configuration that is fit for use, and whose directory is a text, is written as a document of two
blocks (`tomlLines_eq`), and the document is read as just that configuration
(`Configuration.ofToml_toToml?`). So a configuration that is saved in TOML is loaded as it was
(`Configuration.load_save_toml`).
-/

namespace DrillPost

open Toml

/-! ### Records -/

section Record

variable {σ α : Type} {record : Record σ α} {state next : σ} {value : α}

theorem addMembers_cons {member : σ → String → Node → Except Fault σ} {m : Key × Node}
    (h : member state m.1.name m.2 = .ok next) (members : Members) :
    addMembers member state (m :: members) = addMembers member next members := by
  obtain ⟨key, n⟩ := m
  rw [addMembers, h]

theorem Record.read_table {origin : Origin} {span : Option Span} {members : Members}
    (hadd : addMembers record.member record.start members = .ok state)
    (hfinish : record.finish state = .ok value) :
    record.read (.table origin span members) = .ok value := by
  rw [Record.read]
  dsimp only [Node.items?, Node.members?]
  rw [hadd]
  dsimp only
  rw [hfinish]

end Record

/-! ### Program settings -/

namespace ProgramSettings

variable {s : ProgramSettings}

/-- The lines of program settings. -/
def assignments (s : ProgramSettings) : List Assignment :=
  [⟨"spindle_power", Nat.toDigits 10 s.spindlePower.toNat, .int s.spindlePower.toNat⟩,
    ⟨"safe_height", (s.safeHeight.write Toml.layout).toList, .real s.safeHeight⟩,
    ⟨"drill_depth", (s.drillDepth.write Toml.layout).toList, .real s.drillDepth⟩]

def block (s : ProgramSettings) : Block := ⟨"encoder", s.assignments⟩

theorem isRead_block (h : s.fault? = none) : s.block.IsRead := by
  obtain ⟨hdepth, -, hheight⟩ := s.fault?_eq_none_iff.1 h
  have hpower : s.spindlePower.toNat < 0x8000000000000000 :=
    Nat.lt_trans s.spindlePower.toNat_lt (by decide)
  refine ⟨(by decide : IsBareKey "encoder"), ?_,
    (by decide : ["spindle_power", "safe_height", "drill_depth"].Nodup)⟩
  rintro e (_ | ⟨_, _ | ⟨_, _ | ⟨_, hnil⟩⟩⟩)
  · exact Assignment.isRead_whole (by decide) hpower
  · exact Assignment.isRead_real (by decide) hheight
  · exact Assignment.isRead_real (by decide) hdepth
  · cases hnil

theorem word32_toNat (place : Span) (n : UInt32) :
    (Node.scalar place (.int n.toNat)).word32 = .ok n := by
  have hrange : 0 ≤ (n.toNat : Int) ∧ (n.toNat : Int) < UInt32.size :=
    ⟨Int.natCast_nonneg _, Int.ofNat_lt.2 n.toNat_lt⟩
  rw [Node.word32, if_pos hrange, Int.toNat_natCast, Nat.toUInt32_eq, UInt32.ofNat_toNat]

theorem member_spindlePower (s : ProgramSettings) (n : Node) :
    tomlRecord.member s "spindle_power" n = n.word32.map fun x => { s with spindlePower := x } := by
  unfold tomlRecord
  dsimp only
  rw [if_pos rfl]

theorem member_safeHeight (s : ProgramSettings) (n : Node) :
    tomlRecord.member s "safe_height" n = n.real.map fun x => { s with safeHeight := x } := by
  unfold tomlRecord
  dsimp only
  rw [if_neg (by decide), if_pos rfl]

theorem member_drillDepth (s : ProgramSettings) (n : Node) :
    tomlRecord.member s "drill_depth" n = n.real.map fun x => { s with drillDepth := x } := by
  unfold tomlRecord
  dsimp only
  rw [if_neg (by decide), if_neg (by decide), if_pos rfl]

/-- The table that the block of program settings describes means just these. -/
theorem read_of_isMember {m : Key × Node} (h : s.block.IsMember m) :
    tomlRecord.read m.2 = .ok s := by
  obtain ⟨-, span, members, hnode, hmembers⟩ := h
  obtain ⟨power, _, ⟨hpower, _, hpowerNode⟩, hrest, rfl⟩ :=
    List.forall₂_cons_left_iff.1 hmembers
  obtain ⟨height, _, ⟨hheight, _, hheightNode⟩, hlast, rfl⟩ :=
    List.forall₂_cons_left_iff.1 hrest
  obtain ⟨depth, _, ⟨hdepth, _, hdepthNode⟩, hnil, rfl⟩ :=
    List.forall₂_cons_left_iff.1 hlast
  obtain rfl := List.forall₂_nil_left_iff.1 hnil
  rw [hnode]
  refine Record.read_table ?_ rfl
  -- The members say everything, so it does not matter what holds before the first.
  generalize tomlRecord.start = t
  have hpowerAdds : tomlRecord.member t power.1.name power.2 =
      .ok { t with spindlePower := s.spindlePower } := by
    rw [hpower, hpowerNode, member_spindlePower, word32_toNat]
    rfl
  have hheightAdds : tomlRecord.member { t with spindlePower := s.spindlePower }
      height.1.name height.2 =
        .ok { t with spindlePower := s.spindlePower, safeHeight := s.safeHeight } := by
    rw [hheight, hheightNode, member_safeHeight]
    rfl
  have hdepthAdds : tomlRecord.member
      { t with spindlePower := s.spindlePower, safeHeight := s.safeHeight }
      depth.1.name depth.2 = .ok s := by
    rw [hdepth, hdepthNode, member_drillDepth]
    rfl
  rw [addMembers_cons hpowerAdds, addMembers_cons hheightAdds, addMembers_cons hdepthAdds]
  rfl

end ProgramSettings

/-! ### Output settings -/

namespace OutputSettings

variable {directory : Option String}

/-- The lines of output settings with a directory that is a text. -/
def assignments (directory : Option String) : List Assignment :=
  match directory with
  | none => []
  | some s => [⟨"directory", writeText s.toList, .text s⟩]

def block (directory : Option String) : Block := ⟨"output", assignments directory⟩

theorem isRead_block (directory : Option String) : (block directory).IsRead := by
  cases directory with
  | none => exact ⟨(by decide : IsBareKey "output"), nofun, List.nodup_nil⟩
  | some s =>
    refine ⟨(by decide : IsBareKey "output"), ?_, List.nodup_singleton _⟩
    intro e he
    obtain rfl := List.mem_singleton.1 he
    exact Assignment.isRead_text (by decide) s

/-- The table that the block of output settings describes means just these. -/
theorem read_of_isMember {m : Key × Node} (h : (block directory).IsMember m) :
    tomlRecord.read m.2 = .ok ⟨directory.map Path.ofText⟩ := by
  obtain ⟨-, span, members, hnode, hmembers⟩ := h
  rw [hnode]
  refine Record.read_table ?_ rfl
  cases directory with
  | none =>
    obtain rfl := List.forall₂_nil_left_iff.1 hmembers
    rfl
  | some s =>
    obtain ⟨d, _, ⟨hd, _, hdNode⟩, hnil, rfl⟩ := List.forall₂_cons_left_iff.1 hmembers
    obtain rfl := List.forall₂_nil_left_iff.1 hnil
    have hadds : tomlRecord.member standard d.1.name d.2 = .ok ⟨some (Path.ofText s)⟩ := by
      rw [hd, hdNode]
      rfl
    exact addMembers_cons hadds []

end OutputSettings

/-! ### Configurations -/

/-- A configuration is written as two blocks. -/
theorem tomlLines_eq (program : ProgramSettings) (directory : Option String) :
    tomlLines program directory = documentText [program.block, OutputSettings.block directory] := by
  have hencoder : "[encoder]\n".toList = '[' :: ("encoder".toList ++ [']', '\n']) := by decide
  have houtput : "\n[output]\n".toList = '\n' :: '[' :: ("output".toList ++ [']', '\n']) := by
    decide
  have hprogram : program.toTomlLines = program.assignments.flatMap Assignment.line := by
    rw [ProgramSettings.toTomlLines, ProgramSettings.assignments, List.flatMap_cons,
      List.flatMap_cons, List.flatMap_cons, List.flatMap_nil, List.append_nil, List.append_assoc]
    rfl
  have hdirectory : directoryLines directory =
      (OutputSettings.assignments directory).flatMap Assignment.line := by
    cases directory with
    | none => rfl
    | some s =>
      rw [OutputSettings.assignments, List.flatMap_cons, List.flatMap_nil, List.append_nil]
      rfl
  unfold tomlLines
  rw [hencoder, houtput, hprogram, hdirectory, documentText, documentText, Block.text,
    Block.text]
  · simp only [ProgramSettings.block, OutputSettings.block, List.cons_append, List.append_assoc]
  · exact List.cons_ne_nil _ _

namespace Configuration

theorem toToml?_eq (program : ProgramSettings) (directory : Option String) :
    toToml? ⟨program, ⟨directory.map Path.ofText⟩⟩ =
      some (String.ofList (tomlLines program directory)) := by
  cases directory with
  | none => rfl
  | some s =>
    show (ofUtf8? (utf8 s)).map _ = _
    rw [ofUtf8?_utf8]
    rfl

/-- What is written is read as it was. -/
theorem ofToml_tomlLines {program : ProgramSettings} (h : program.fault? = none)
    (directory : Option String) :
    ofToml (String.ofList (tomlLines program directory)) =
      .ok ⟨program, ⟨directory.map Path.ofText⟩⟩ := by
  have hread : ∀ b ∈ [program.block, OutputSettings.block directory], b.IsRead := by
    rintro b (_ | ⟨_, _ | ⟨_, hnil⟩⟩)
    · exact ProgramSettings.isRead_block h
    · exact OutputSettings.isRead_block directory
    · cases hnil
  have hnodup : ([program.block, OutputSettings.block directory].map Block.name).Nodup := by
    show ["encoder", "output"].Nodup
    decide
  obtain ⟨span, tables, htext, htables⟩ := ofText?_documentText hread hnodup
  obtain ⟨encoder, _, hencoder, hlast, rfl⟩ := List.forall₂_cons_left_iff.1 htables
  obtain ⟨output, _, houtput, hnil, rfl⟩ := List.forall₂_cons_left_iff.1 hlast
  obtain rfl := List.forall₂_nil_left_iff.1 hnil
  have hencoderAdds : tomlRecord.member standard encoder.1.name encoder.2 =
      .ok { standard with program } := by
    rw [hencoder.1]
    show (ProgramSettings.tomlRecord.read encoder.2).map _ = _
    rw [ProgramSettings.read_of_isMember hencoder]
    rfl
  have houtputAdds : tomlRecord.member { standard with program } output.1.name output.2 =
      .ok ⟨program, ⟨directory.map Path.ofText⟩⟩ := by
    rw [houtput.1]
    show (OutputSettings.tomlRecord.read output.2).map _ = _
    rw [OutputSettings.read_of_isMember houtput]
    rfl
  have hrecord : tomlRecord.read (.table .header (some span) [encoder, output]) =
      .ok ⟨program, ⟨directory.map Path.ofText⟩⟩ := by
    refine Record.read_table ?_ rfl
    show addMembers tomlRecord.member standard _ = _
    rw [addMembers_cons hencoderAdds, addMembers_cons houtputAdds]
    rfl
  rw [ofToml, readText, tomlLines_eq, htext]
  dsimp only
  rw [hrecord]

/-- A configuration that is written has a directory that is a text, or none. -/
theorem exists_eq_ofText_of_toToml? {c : Configuration} {text : String}
    (h : c.toToml? = some text) : ∀ directory ∈ c.output.directory, ∃ s, directory = .ofText s := by
  intro directory hdirectory
  unfold toToml? at h
  rw [show c.output.directory = some directory from hdirectory] at h
  obtain ⟨s, hs, -⟩ := Option.map_eq_some_iff.1 h
  refine ⟨s, ?_⟩
  rw [Path.ofText, utf8_of_ofUtf8? hs]

/-- What is read from the text of a configuration that is fit for use is the configuration. -/
theorem ofToml_of_toToml? {c : Configuration} {text : String} (hvalid : c.validate = .ok ())
    (h : c.toToml? = some text) : ofToml text = .ok c := by
  have hdirectory := exists_eq_ofText_of_toToml? h
  obtain ⟨program, output⟩ := c
  obtain ⟨s, rfl⟩ := OutputSettings.exists_eq_ofText hdirectory
  rw [toToml?_eq] at h
  cases h
  exact ofToml_tomlLines (validate_eq_ok_iff.1 hvalid) s

/-- A configuration that is fit for use and whose directory is a text survives in TOML: in the text
that it is written as, and in every file that it is saved in. -/
theorem load_save_toml {c : Configuration} (hvalid : c.validate = .ok ())
    (hdirectory : ∀ directory ∈ c.output.directory, ∃ s, directory = .ofText s) :
    (∃ text, c.toToml? = some text ∧ ofToml text = .ok c) ∧
      ∀ (disk : SavingDisk) (files : FileSystem) (host : Host) (path : Path) (extension : String),
        path.extension? = some (utf8 extension) →
        extension.toList.map Char.toLower = ['t', 'o', 'm', 'l'] →
        (c.saveOn disk files host path).result = .ok () →
        load (c.saveOn disk files host path).files host path = .ok c := by
  obtain ⟨text, hwrite, hread⟩ : ∃ text, c.toToml? = some text ∧ ofToml text = .ok c := by
    obtain ⟨program, output⟩ := c
    obtain ⟨s, rfl⟩ := OutputSettings.exists_eq_ofText hdirectory
    exact ⟨_, toToml?_eq program s, ofToml_tomlLines (validate_eq_ok_iff.1 hvalid) s⟩
  refine ⟨⟨text, hwrite, hread⟩, ?_⟩
  intro disk files host path extension hextension hletters hsaved
  obtain ⟨-, format, saved, hformat, hsavedText, hload⟩ := load_save hsaved
  have htoml : FileFormat.ofPath path = .ok .toml :=
    FileFormat.ofPath_of_extension hextension hletters
  obtain rfl : .toml = format := Except.ok.inj (htoml.symm.trans hformat)
  obtain rfl : text = saved := by
    rw [toText, hwrite] at hsavedText
    exact Except.ok.inj hsavedText
  refine (hload c).2 ⟨?_, hvalid⟩
  rw [ofText, hread]

/-- A height of minus zero, the least depth, and a directory with everything that has to be escaped.
-/
theorem load_save_toml_escapes :
    let host : Host := ⟨[], 0o022, none, none, none⟩
    let program : ProgramSettings :=
      ⟨4294967295, .finite true .zero, .finite false ⟨1, 0, by decide, by decide, .inr rfl⟩⟩
    let c : Configuration := ⟨program, ⟨some (.ofText "a\"b\\c\n'''d\"\"\"\x01")⟩⟩
    let saved := c.save .empty host (.ofText "drill/c.TOML")
    c.validate = .ok () ∧ saved.result = .ok () ∧
      load saved.files host (.ofText "drill/c.TOML") = .ok c := by
  intro host program c saved
  have hvalid : c.validate = .ok () := by decide +kernel
  have hsaved : saved.result = .ok () := by decide +kernel
  have hdirectory : ∀ directory ∈ c.output.directory, ∃ s, directory = .ofText s :=
    fun directory hmem => ⟨_, (Option.some.inj hmem).symm⟩
  have hextension : (Path.ofText "drill/c.TOML").extension? = some (utf8 "TOML") := by
    decide +kernel
  exact ⟨hvalid, hsaved, (load_save_toml hvalid hdirectory).2 .sound .empty host _ "TOML"
    hextension (by decide) hsaved⟩

end Configuration

end DrillPost

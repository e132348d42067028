import DrillPost.Proofs.Json.Parts
import DrillPost.Proofs.Toml.Parts
import DrillPost.Settings.File

/-!
# What a file states

The values of settings can be found in a text by their names, or by their positions where a list
stands for a record (`Configuration.stated?`). A configuration that is read from the text consists
of the values that are found and, where there are none, of standard values
(`Configuration.exists_stated_of_ofText`).

A `Medium` says what the nodes of a document mean, so what is stated is said once for both formats.
That the formats are read so is one case for each setting: a member adds to what was read what it
adds to what is stated.
-/

namespace DrillPost

/-! ### Stated values -/

/-- The values that a file states; what it leaves out is not among them. -/
structure Stated where
  program : Overrides
  directory : Option Path
deriving DecidableEq

/-- The configuration of a file: each value is the stated one, or else the standard one. -/
def Stated.configuration (s : Stated) : Configuration :=
  ⟨ProgramSettings.standard.override s.program, ⟨s.directory⟩⟩

theorem ProgramSettings.override_none (s : ProgramSettings) : s.override .none = s := rfl

/-- Parts that are left out have their standard values. -/
theorem Stated.configuration_mk (program : Option Overrides) (directory : Option (Option Path)) :
    Stated.configuration ⟨program.getD .none, directory.join⟩ =
      ⟨(program.map ProgramSettings.standard.override).getD .standard,
        (directory.map OutputSettings.mk).getD .standard⟩ := by
  have hprogram : ProgramSettings.standard.override (program.getD .none) =
      (program.map ProgramSettings.standard.override).getD .standard := by
    cases program with
    | none => exact ProgramSettings.override_none _
    | some overrides => rfl
  rw [Stated.configuration, hprogram]
  cases directory <;> rfl

/-- What the nodes of a document mean, whatever they are written in. -/
structure Medium (ν : Type) where
  parts? : ν → Option (Parts ν)
  word32? : ν → Option UInt32
  real? : ν → Option Binary64
  /-- A path, or a word for none. -/
  path? : ν → Option (Option Path)

namespace Medium

variable {ν : Type} (m : Medium ν)

/-- The program settings that parts state. -/
def overrides? (parts : Parts ν) : Option Overrides := do
  let power ← parts.read? m.word32? "spindle_power" 0
  let height ← parts.read? m.real? "safe_height" 1
  let depth ← parts.read? m.real? "drill_depth" 2
  return ⟨power, height, depth⟩

/-- The directory that parts state. -/
def directory? (parts : Parts ν) : Option (Option Path) :=
  (parts.read? m.path? "directory" 0).map Option.join

/-- The program settings that a node states. -/
def program? (n : ν) : Option Overrides := (m.parts? n).bind m.overrides?

/-- The directory that a node states. -/
def output? (n : ν) : Option (Option Path) := (m.parts? n).bind m.directory?

def partsStated? (parts : Parts ν) : Option Stated := do
  let program ← parts.read? m.program? "encoder" 0
  let directory ← parts.read? m.output? "output" 1
  return ⟨program.getD .none, directory.join⟩

/-- The values that a document states. -/
def stated? (n : ν) : Option Stated := (m.parts? n).bind m.partsStated?

theorem overrides?_eq_some_iff {parts : Parts ν} {o : Overrides} : m.overrides? parts = some o ↔
    parts.read? m.word32? "spindle_power" 0 = some o.spindlePower ∧
      parts.read? m.real? "safe_height" 1 = some o.safeHeight ∧
        parts.read? m.real? "drill_depth" 2 = some o.drillDepth := by
  simp only [overrides?, bind, Option.bind_eq_some_iff, pure, Option.some.injEq]
  constructor
  · rintro ⟨power, hpower, height, hheight, depth, hdepth, rfl⟩
    exact ⟨hpower, hheight, hdepth⟩
  · rintro ⟨hpower, hheight, hdepth⟩
    exact ⟨_, hpower, _, hheight, _, hdepth, rfl⟩

theorem partsStated?_eq_some_iff {parts : Parts ν} {s : Stated} : m.partsStated? parts = some s ↔
    ∃ program directory, parts.read? m.program? "encoder" 0 = some program ∧
      parts.read? m.output? "output" 1 = some directory ∧
        s = ⟨program.getD .none, directory.join⟩ := by
  simp only [partsStated?, bind, Option.bind_eq_some_iff, pure, Option.some.injEq]
  constructor
  · rintro ⟨program, hprogram, directory, hdirectory, rfl⟩
    exact ⟨program, directory, hprogram, hdirectory, rfl⟩
  · rintro ⟨program, directory, hprogram, hdirectory, rfl⟩
    exact ⟨program, hprogram, directory, hdirectory, rfl⟩

/-- If every path is a text, so is a directory that is stated. -/
theorem directory_of_stated?
    (hpath : ∀ n directory, m.path? n = some (some directory) → ∃ s, directory = .ofText s)
    {n : ν} {s : Stated} (h : m.stated? n = some s) :
    ∀ directory ∈ s.directory, ∃ t, directory = .ofText t := by
  obtain ⟨parts, -, hparts⟩ := Option.bind_eq_some_iff.1 h
  obtain ⟨program, output, -, houtput, rfl⟩ := m.partsStated?_eq_some_iff.1 hparts
  intro directory hdirectory
  obtain rfl : output = some (some directory) := Option.join_eq_some_iff.1 hdirectory
  obtain ⟨node, hnode⟩ := Parts.exists_of_read? houtput
  obtain ⟨parts, -, hparts⟩ := Option.bind_eq_some_iff.1 hnode
  obtain ⟨path, hread, hjoin⟩ := Option.map_eq_some_iff.1 hparts
  obtain rfl : path = some (some directory) := Option.join_eq_some_iff.1 hjoin
  obtain ⟨node, hnode⟩ := Parts.exists_of_read? hread
  exact hpath node directory hnode

section Members

variable {m} {members : List (String × ν)} {o : Overrides} {n : ν}

theorem overrides?_nil : m.overrides? (.ofMembers []) = some .none := rfl

theorem overrides?_spindlePower {x : UInt32} (h : m.overrides? (.ofMembers members) = some o)
    (hn : m.word32? n = some x) :
    m.overrides? (.ofMembers (("spindle_power", n) :: members)) =
      some { o with spindlePower := some x } := by
  rw [overrides?_eq_some_iff] at h ⊢
  refine ⟨Parts.read?_cons_self hn _ _, ?_, ?_⟩
  · rw [Parts.read?_cons_of_ne (by decide)]
    exact h.2.1
  · rw [Parts.read?_cons_of_ne (by decide)]
    exact h.2.2

theorem overrides?_safeHeight {x : Binary64} (h : m.overrides? (.ofMembers members) = some o)
    (hn : m.real? n = some x) :
    m.overrides? (.ofMembers (("safe_height", n) :: members)) =
      some { o with safeHeight := some x } := by
  rw [overrides?_eq_some_iff] at h ⊢
  refine ⟨?_, Parts.read?_cons_self hn _ _, ?_⟩
  · rw [Parts.read?_cons_of_ne (by decide)]
    exact h.1
  · rw [Parts.read?_cons_of_ne (by decide)]
    exact h.2.2

theorem overrides?_drillDepth {x : Binary64} (h : m.overrides? (.ofMembers members) = some o)
    (hn : m.real? n = some x) :
    m.overrides? (.ofMembers (("drill_depth", n) :: members)) =
      some { o with drillDepth := some x } := by
  rw [overrides?_eq_some_iff] at h ⊢
  refine ⟨?_, ?_, Parts.read?_cons_self hn _ _⟩
  · rw [Parts.read?_cons_of_ne (by decide)]
    exact h.1
  · rw [Parts.read?_cons_of_ne (by decide)]
    exact h.2.1

theorem overrides?_other {name : String} (hpower : name ≠ "spindle_power")
    (hheight : name ≠ "safe_height") (hdepth : name ≠ "drill_depth") :
    m.overrides? (.ofMembers ((name, n) :: members)) = m.overrides? (.ofMembers members) := by
  unfold overrides?
  rw [Parts.read?_cons_of_ne hpower.symm, Parts.read?_cons_of_ne hheight.symm,
    Parts.read?_cons_of_ne hdepth.symm]

/-- The members state these parts of a configuration. -/
structure States (m : Medium ν) (members : List (String × ν)) (program : Option Overrides)
    (directory : Option (Option Path)) : Prop where
  program : (Parts.ofMembers members).read? m.program? "encoder" 0 = some program
  directory : (Parts.ofMembers members).read? m.output? "output" 1 = some directory

namespace States

variable {program : Option Overrides} {directory : Option (Option Path)}

theorem nil : m.States [] .none .none :=
  ⟨Parts.read?_ofMembers_nil _ _, Parts.read?_ofMembers_nil _ _⟩

theorem encoder (h : m.States members program directory) (hn : m.program? n = some o) :
    m.States (("encoder", n) :: members) (some o) directory :=
  ⟨Parts.read?_cons_self hn _ _, (Parts.read?_cons_of_ne (by decide) _).trans h.directory⟩

theorem output {path : Option Path} (h : m.States members program directory)
    (hn : m.output? n = some path) :
    m.States (("output", n) :: members) program (some path) :=
  ⟨(Parts.read?_cons_of_ne (by decide) _).trans h.program, Parts.read?_cons_self hn _ _⟩

theorem other {name : String} (h : m.States members program directory) (hencoder : name ≠ "encoder")
    (houtput : name ≠ "output") : m.States ((name, n) :: members) program directory :=
  ⟨(Parts.read?_cons_of_ne hencoder.symm _).trans h.program,
    (Parts.read?_cons_of_ne houtput.symm _).trans h.directory⟩

/-- The configuration of what members state. -/
theorem configuration_eq (h : m.States members program directory) :
    (m.partsStated? (.ofMembers members)).map Stated.configuration =
      some ⟨(program.map ProgramSettings.standard.override).getD .standard,
        (directory.map OutputSettings.mk).getD .standard⟩ := by
  rw [m.partsStated?_eq_some_iff.2 ⟨_, _, h.program, h.directory, rfl⟩, Option.map_some,
    Stated.configuration_mk]

end States

end Members

end Medium

def Json.medium : Medium (List Char) where
  parts? := parts?
  word32? := value? readWord32
  real? := value? readReal
  path? := value? OutputSettings.readDirectory

def Toml.medium : Medium Toml.Node where
  parts? := Node.parts?
  word32? n := n.word32.toOption
  real? n := n.real.toOption
  path? n := (OutputSettings.directoryOf n).toOption

/-- The values that a text states. -/
def Configuration.stated? (format : FileFormat) (text : String) : Option Stated :=
  match format with
  | .json => Json.medium.stated? text.toList
  | .toml => (Toml.ofText? text).bind Toml.medium.stated?

/-! ### Objects and lists -/

section Json

open Json

namespace ProgramSettings

/-- Program settings in the list form are the standard ones with those items over them that are
there. -/
theorem exists_items {s rest : List Char} {settings : ProgramSettings}
    (h : Reads (ProgramSettings.readItems s) settings rest) :
    ∃ items, Reads (Json.readItems here true s) items rest ∧
      (Json.medium.overrides? (.ofItems items)).map standard.override = some settings := by
  unfold ProgramSettings.readItems at h
  split at h
  · exact (not_reads_error h).elim
  · next power t hpower =>
    split at h
    · exact (not_reads_error h).elim
    · next height u hheight =>
      split at h
      · exact (not_reads_error h).elim
      · next depth hdepth =>
        obtain ⟨hclose, rfl⟩ := readItems_of_close h
        obtain ⟨third, hthird, -, hthirdIs⟩ := readItems_of_itemOr means_readReal hdepth hclose
        obtain ⟨second, hsecond, rfl, hsecondIs⟩ :=
          readItems_of_itemOr means_readReal hheight hthird
        obtain ⟨first, hfirst, rfl, hfirstIs⟩ :=
          readItems_of_itemOr means_readWord32 hpower hsecond
        obtain ⟨power?, hpower?, rfl⟩ := hfirstIs "spindle_power"
        obtain ⟨height?, hheight?, rfl⟩ := hsecondIs "safe_height"
        obtain ⟨depth?, hdepth?, hdepthIs⟩ := hthirdIs "drill_depth"
        rw [Parts.read?_ofItems_tail] at hheight?
        rw [Parts.read?_ofItems_tail, Parts.read?_ofItems_tail] at hdepth?
        have hoverrides : Json.medium.overrides? (.ofItems first) =
            some ⟨power?, height?, depth?⟩ :=
          Json.medium.overrides?_eq_some_iff.2 ⟨hpower?, hheight?, hdepth?⟩
        refine ⟨first, hfirst, ?_⟩
        rw [hoverrides, Option.map_some, ProgramSettings.override, ← hdepthIs]
        rfl

/-- A member adds to the settings that were read what it adds to those that are stated. -/
theorem overrides?_of_field {fields next : Overrides} {members : List (String × List Char)}
    {name : String} {read : Reader Overrides} {s rest : List Char}
    (h : Json.medium.overrides? (.ofMembers members) = some fields)
    (hread : field fields name = .ok read) (hnext : Reads (read s) next rest) :
    Reads (skipValue s) () rest ∧
      Json.medium.overrides? (.ofMembers ((name, s) :: members)) = some next := by
  unfold field at hread
  split_ifs at hread with hpower hheight hdepth
  · obtain ⟨hskip, x, hx, rfl⟩ := reads_of_setOnce means_readWord32 hread hnext
    obtain rfl := hpower
    exact ⟨hskip, Medium.overrides?_spindlePower h hx⟩
  · obtain ⟨hskip, x, hx, rfl⟩ := reads_of_setOnce means_readReal hread hnext
    obtain rfl := hheight
    exact ⟨hskip, Medium.overrides?_safeHeight h hx⟩
  · obtain ⟨hskip, x, hx, rfl⟩ := reads_of_setOnce means_readReal hread hnext
    obtain rfl := hdepth
    exact ⟨hskip, Medium.overrides?_drillDepth h hx⟩
  · obtain ⟨hskip, rfl⟩ := reads_of_ignoreField hread hnext
    exact ⟨hskip, (Medium.overrides?_other hpower hheight hdepth).trans h⟩

theorem means_read : Means ProgramSettings.read fun s =>
    (Json.medium.program? s).map standard.override := by
  refine Record.means (fun s rest value h => exists_items h) fun s rest value h => ?_
  obtain ⟨fields, hfields, rfl⟩ := reads_map.1 h
  obtain ⟨noted, hnoted, hagrees⟩ := exists_reads_noteMember
    (R := fun fields members => Json.medium.overrides? (.ofMembers members) = some fields)
    (fun _ _ _ _ _ _ _ => overrides?_of_field) Medium.overrides?_nil hfields
  refine ⟨noted, hnoted, ?_⟩
  rw [hagrees]
  rfl

end ProgramSettings

namespace OutputSettings

theorem means_readDirectory : Means readDirectory Json.medium.path? := by
  refine means_value? fun h => ?_
  obtain ⟨text, htext, -⟩ := reads_map.1 h
  exact reads_skipValue_of_readText? htext

theorem read?_of_field {directory next : Option (Option Path)}
    {members : List (String × List Char)} {name : String} {read : Reader (Option (Option Path))}
    {s rest : List Char}
    (h : (Parts.ofMembers members).read? Json.medium.path? "directory" 0 = some directory)
    (hread : field directory name = .ok read) (hnext : Reads (read s) next rest) :
    Reads (skipValue s) () rest ∧
      (Parts.ofMembers ((name, s) :: members)).read? Json.medium.path? "directory" 0 =
        some next := by
  unfold field at hread
  split_ifs at hread with hname
  · obtain ⟨hskip, x, hx, rfl⟩ := reads_of_setOnce means_readDirectory hread hnext
    obtain rfl := hname
    exact ⟨hskip, Parts.read?_cons_self hx _ _⟩
  · obtain ⟨hskip, rfl⟩ := reads_of_ignoreField hread hnext
    exact ⟨hskip, (Parts.read?_cons_of_ne (Ne.symm hname) _).trans h⟩

theorem means_read : Means OutputSettings.read fun s =>
    (Json.medium.output? s).map OutputSettings.mk := by
  refine Record.means (fun s rest value h => ?_) fun s rest value h => ?_
  · unfold record OutputSettings.readItems at h
    dsimp only at h
    split at h
    · exact (not_reads_error h).elim
    · next directory t hdirectory =>
      obtain ⟨hclose, rfl⟩ := readItems_of_close h
      obtain ⟨items, hitems, -, hdirectoryIs⟩ :=
        readItems_of_itemOr means_readDirectory hdirectory hclose
      obtain ⟨stated, hstated, rfl⟩ := hdirectoryIs "directory"
      refine ⟨items, hitems, ?_⟩
      rw [Medium.directory?, hstated]
      cases stated <;> rfl
  · obtain ⟨directory, hdirectory, rfl⟩ := reads_map.1 h
    obtain ⟨noted, hnoted, hagrees⟩ := exists_reads_noteMember
      (R := fun d members =>
        (Parts.ofMembers members).read? Json.medium.path? "directory" 0 = some d)
      (fun _ _ _ _ _ _ _ => read?_of_field) (Parts.read?_ofMembers_nil _ _) hdirectory
    refine ⟨noted, hnoted, ?_⟩
    rw [Medium.directory?, hagrees]
    cases directory <;> rfl

end OutputSettings

namespace Configuration

/-- What was read of a configuration is what members state. -/
def Fields.IsStated (fields : Fields) (members : List (String × List Char)) : Prop :=
  ∃ program directory, Json.medium.States members program directory ∧
    fields = ⟨program.map ProgramSettings.standard.override, directory.map OutputSettings.mk⟩

theorem isStated_of_field {fields next : Fields} {members : List (String × List Char)}
    {name : String} {read : Reader Fields} {s rest : List Char} (h : fields.IsStated members)
    (hread : field fields name = .ok read) (hnext : Reads (read s) next rest) :
    Reads (skipValue s) () rest ∧ next.IsStated ((name, s) :: members) := by
  obtain ⟨program, directory, hstates, rfl⟩ := h
  unfold field at hread
  split_ifs at hread with hencoder houtput
  · obtain ⟨hskip, x, hx, rfl⟩ := reads_of_setOnce ProgramSettings.means_read hread hnext
    obtain ⟨overrides, hoverrides, rfl⟩ := Option.map_eq_some_iff.1 hx
    obtain rfl := hencoder
    exact ⟨hskip, some overrides, directory, hstates.encoder hoverrides, rfl⟩
  · obtain ⟨hskip, x, hx, rfl⟩ := reads_of_setOnce OutputSettings.means_read hread hnext
    obtain ⟨path, hpath, rfl⟩ := Option.map_eq_some_iff.1 hx
    obtain rfl := houtput
    exact ⟨hskip, program, some path, hstates.output hpath, rfl⟩
  · obtain ⟨hskip, rfl⟩ := reads_of_ignoreField hread hnext
    exact ⟨hskip, program, directory, hstates.other hencoder houtput, rfl⟩

theorem means_read : Means Configuration.read fun s =>
    (Json.medium.stated? s).map Stated.configuration := by
  refine Record.means (fun s rest value h => ?_) fun s rest value h => ?_
  · unfold record Configuration.readItems at h
    dsimp only at h
    split at h
    · exact (not_reads_error h).elim
    · next program t hprogram =>
      split at h
      · exact (not_reads_error h).elim
      · next output houtput =>
        obtain ⟨hclose, rfl⟩ := readItems_of_close h
        obtain ⟨second, hsecond, -, hsecondIs⟩ :=
          readItems_of_itemOr OutputSettings.means_read houtput hclose
        obtain ⟨first, hfirst, rfl, hfirstIs⟩ :=
          readItems_of_itemOr ProgramSettings.means_read hprogram hsecond
        obtain ⟨_, hfirstRead, rfl⟩ := hfirstIs "encoder"
        obtain ⟨_, hsecondRead, houtputIs⟩ := hsecondIs "output"
        rw [Parts.read?_ofItems_tail] at hsecondRead
        obtain ⟨overrides, hencoder, rfl⟩ := Parts.read?_map hfirstRead
        obtain ⟨directory, hdirectory, rfl⟩ := Parts.read?_map hsecondRead
        refine ⟨first, hfirst, ?_⟩
        rw [Json.medium.partsStated?_eq_some_iff.2 ⟨_, _, hencoder, hdirectory, rfl⟩,
          Option.map_some, Stated.configuration_mk, ← houtputIs]
        rfl
  · obtain ⟨fields, hfields, rfl⟩ := reads_map.1 h
    obtain ⟨noted, hnoted, program, directory, hstates, rfl⟩ :=
      exists_reads_noteMember (R := Fields.IsStated) (fun _ _ _ _ _ _ _ => isStated_of_field)
        ⟨none, none, .nil, rfl⟩ hfields
    exact ⟨noted, hnoted, hstates.configuration_eq⟩

end Configuration

end Json

/-! ### Tables and lists -/

section Toml

open Toml

theorem means_word32 : Toml.Means Node.word32 Toml.medium.word32? := means_toOption _

theorem means_real : Toml.Means Node.real Toml.medium.real? := means_toOption _

namespace ProgramSettings

/-- The settings are the standard ones with what members state over them. -/
def IsStated (s : ProgramSettings) (members : List (String × Node)) : Prop :=
  ∃ o, Toml.medium.overrides? (.ofMembers members) = some o ∧ s = standard.override o

theorem isStated_of_member {s next : ProgramSettings} {members : List (String × Node)}
    {name : String} {n : Node} (h : s.IsStated members)
    (hnext : tomlRecord.member s name n = .ok next) : next.IsStated ((name, n) :: members) := by
  obtain ⟨o, ho, rfl⟩ := h
  unfold tomlRecord at hnext
  dsimp only at hnext
  split_ifs at hnext with hpower hheight hdepth
  · obtain ⟨x, hx, rfl⟩ := means_word32.of_map hnext
    obtain rfl := hpower
    exact ⟨_, Medium.overrides?_spindlePower ho hx, rfl⟩
  · obtain ⟨x, hx, rfl⟩ := means_real.of_map hnext
    obtain rfl := hheight
    exact ⟨_, Medium.overrides?_safeHeight ho hx, rfl⟩
  · obtain ⟨x, hx, rfl⟩ := means_real.of_map hnext
    obtain rfl := hdepth
    exact ⟨_, Medium.overrides?_drillDepth ho hx, rfl⟩
  · cases hnext
    exact ⟨o, (Medium.overrides?_other hpower hheight hdepth).trans ho, rfl⟩

theorem means_tomlRecord : Toml.Means tomlRecord.read fun n =>
    (Toml.medium.program? n).map standard.override := by
  refine Toml.Record.means (fun items value h => ?_) fun members state value hstate h => ?_
  · unfold tomlRecord at h
    dsimp only at h
    split at h
    · cases h
    · next power hpower =>
      split at h
      · cases h
      · next height hheight =>
        obtain ⟨depth, hdepth, rfl⟩ := exists_of_map_eq_ok h
        obtain ⟨power?, hpower?, rfl⟩ := read?_of_itemOr means_word32 hpower "spindle_power"
        obtain ⟨height?, hheight?, rfl⟩ := read?_of_itemOr means_real hheight "safe_height"
        obtain ⟨depth?, hdepth?, rfl⟩ := read?_of_itemOr means_real hdepth "drill_depth"
        rw [(Toml.medium.overrides?_eq_some_iff (o := ⟨power?, height?, depth?⟩)).2
          ⟨hpower?, hheight?, hdepth?⟩]
        rfl
  · cases h
    have hstart : tomlRecord.start.IsStated [] :=
      ⟨.none, Medium.overrides?_nil, (override_none standard).symm⟩
    obtain ⟨o, ho, rfl⟩ := of_addMembers (fun _ _ _ _ _ => isStated_of_member) hstart hstate
    rw [List.append_nil] at ho
    rw [ho]
    rfl

end ProgramSettings

namespace OutputSettings

theorem means_directoryOf : Toml.Means directoryOf Toml.medium.path? := means_toOption _

/-- The directory is the one that members state. -/
def IsStated (s : OutputSettings) (members : List (String × Node)) : Prop :=
  ∃ d, (Parts.ofMembers members).read? Toml.medium.path? "directory" 0 = some d ∧ s = ⟨d.join⟩

theorem isStated_of_member {s next : OutputSettings} {members : List (String × Node)}
    {name : String} {n : Node} (h : s.IsStated members)
    (hnext : tomlRecord.member s name n = .ok next) : next.IsStated ((name, n) :: members) := by
  obtain ⟨d, hd, rfl⟩ := h
  unfold tomlRecord at hnext
  dsimp only at hnext
  split_ifs at hnext with hname
  · obtain ⟨x, hx, rfl⟩ := means_directoryOf.of_map hnext
    obtain rfl := hname
    exact ⟨some x, Parts.read?_cons_self hx _ _, rfl⟩
  · cases hnext
    exact ⟨d, (Parts.read?_cons_of_ne (Ne.symm hname) _).trans hd, rfl⟩

theorem means_tomlRecord : Toml.Means tomlRecord.read fun n =>
    (Toml.medium.output? n).map OutputSettings.mk := by
  refine Toml.Record.means (fun items value h => ?_) fun members state value hstate h => ?_
  · obtain ⟨directory, hdirectory, rfl⟩ := exists_of_map_eq_ok h
    obtain ⟨d, hd, rfl⟩ := read?_of_itemOr means_directoryOf hdirectory "directory"
    rw [Medium.directory?, hd]
    cases d <;> rfl
  · cases h
    have hstart : tomlRecord.start.IsStated [] := ⟨none, Parts.read?_ofMembers_nil _ _, rfl⟩
    obtain ⟨d, hd, rfl⟩ := of_addMembers (fun _ _ _ _ _ => isStated_of_member) hstart hstate
    rw [List.append_nil] at hd
    rw [Medium.directory?, hd]
    rfl

end OutputSettings

namespace Configuration

/-- The configuration consists of what members state, and of standard values. -/
def IsStated (c : Configuration) (members : List (String × Node)) : Prop :=
  ∃ program directory, Toml.medium.States members program directory ∧
    c = ⟨(program.map ProgramSettings.standard.override).getD .standard,
      (directory.map OutputSettings.mk).getD .standard⟩

theorem isStated_of_member {c next : Configuration} {members : List (String × Node)}
    {name : String} {n : Node} (h : c.IsStated members)
    (hnext : tomlRecord.member c name n = .ok next) : next.IsStated ((name, n) :: members) := by
  obtain ⟨program, directory, hstates, rfl⟩ := h
  unfold tomlRecord at hnext
  dsimp only at hnext
  split_ifs at hnext with hencoder houtput
  · obtain ⟨x, hx, rfl⟩ := ProgramSettings.means_tomlRecord.of_map hnext
    obtain ⟨overrides, hoverrides, rfl⟩ := Option.map_eq_some_iff.1 hx
    obtain rfl := hencoder
    exact ⟨some overrides, directory, hstates.encoder hoverrides, rfl⟩
  · obtain ⟨x, hx, rfl⟩ := OutputSettings.means_tomlRecord.of_map hnext
    obtain ⟨path, hpath, rfl⟩ := Option.map_eq_some_iff.1 hx
    obtain rfl := houtput
    exact ⟨program, some path, hstates.output hpath, rfl⟩
  · cases hnext
    exact ⟨program, directory, hstates.other hencoder houtput, rfl⟩

theorem means_tomlRecord : Toml.Means tomlRecord.read fun n =>
    (Toml.medium.stated? n).map Stated.configuration := by
  refine Toml.Record.means (fun items value h => ?_) fun members state value hstate h => ?_
  · unfold tomlRecord at h
    dsimp only at h
    split at h
    · cases h
    · next program hprogram =>
      obtain ⟨output, houtput, rfl⟩ := exists_of_map_eq_ok h
      obtain ⟨_, hencoder, rfl⟩ :=
        read?_of_itemOr ProgramSettings.means_tomlRecord hprogram "encoder"
      obtain ⟨_, hdirectory, rfl⟩ :=
        read?_of_itemOr OutputSettings.means_tomlRecord houtput "output"
      obtain ⟨overrides, hoverrides, rfl⟩ := Parts.read?_map hencoder
      obtain ⟨path, hpath, rfl⟩ := Parts.read?_map hdirectory
      rw [Toml.medium.partsStated?_eq_some_iff.2 ⟨_, _, hoverrides, hpath, rfl⟩, Option.map_some,
        Stated.configuration_mk]
  · cases h
    have hstart : tomlRecord.start.IsStated [] := ⟨none, none, .nil, rfl⟩
    obtain ⟨program, directory, hstates, rfl⟩ :=
      of_addMembers (fun _ _ _ _ _ => isStated_of_member) hstart hstate
    rw [List.append_nil] at hstates
    exact hstates.configuration_eq

end Configuration

end Toml

/-! ### Texts -/

namespace Configuration

/-- A configuration is made of what its text states and of standard values. -/
theorem exists_stated_of_ofText {format : FileFormat} {text : String} {c : Configuration}
    (h : ofText format text = .ok c) :
    ∃ s, stated? format text = some s ∧ c = s.configuration := by
  suffices hstated : (stated? format text).map Stated.configuration = some c by
    obtain ⟨s, hs, rfl⟩ := Option.map_eq_some_iff.1 hstated
    exact ⟨s, hs, rfl⟩
  unfold ofText at h
  cases format with
  | json =>
    dsimp only at h
    split at h
    · next read hread =>
      cases h
      exact Json.Means.of_readText means_read hread
    · cases h
  | toml =>
    dsimp only at h
    split at h
    · next read hread =>
      cases h
      show ((Toml.ofText? text).bind _).map _ = _
      rw [Option.map_bind]
      exact Toml.Means.of_readText means_tomlRecord hread
    · cases h

/-- A list of one item states the first of the program settings only. -/
example : stated? .toml "encoder = [80]" = some ⟨⟨some 80, none, none⟩, none⟩ := by decide +kernel

/-- A directory that a text states is a text. -/
theorem directory_of_stated? {format : FileFormat} {text : String} {s : Stated}
    (h : stated? format text = some s) :
    ∀ directory ∈ s.directory, ∃ t, directory = .ofText t := by
  cases format with
  | json =>
    refine Json.medium.directory_of_stated? (fun n directory hpath => ?_) h
    obtain ⟨rest, hread⟩ := Json.exists_reads_of_value? hpath
    obtain ⟨text, -, htext⟩ := Json.reads_map.1 hread
    obtain ⟨t, -, rfl⟩ := Option.map_eq_some_iff.1 htext
    exact ⟨t, rfl⟩
  | toml =>
    obtain ⟨n, -, hn⟩ := Option.bind_eq_some_iff.1 h
    refine Toml.medium.directory_of_stated? (fun n directory hpath => ?_) hn
    have hread : OutputSettings.directoryOf n = .ok (some directory) := by
      change (OutputSettings.directoryOf n).toOption = _ at hpath
      cases hresult : OutputSettings.directoryOf n with
      | error f =>
        rw [hresult] at hpath
        cases hpath
      | ok path =>
        rw [hresult] at hpath
        cases hpath
        rfl
    obtain ⟨t, -, ht⟩ := exists_of_map_eq_ok hread
    exact ⟨t, Option.some.inj ht⟩

end Configuration

end DrillPost

import DrillPost.Proofs.Json.Accepting
import DrillPost.Proofs.Json.Reader
import DrillPost.Proofs.Settings.Stated

/-!
# What states values is a configuration

A text that is read as a configuration states the values of it, as `Configuration.stated?` finds
them. Here is the other direction: a text that states values is read, and as the configuration of
these values (`Configuration.ofText_eq_ok`). All that is asked of the text is that its records are
regular: none has a field twice, or more items than fields.

Only that nothing is refused has to be shown, because what has been read is known to be what is
stated.
-/

namespace DrillPost

/-! ### Regular records -/

def ProgramSettings.fieldNames : List String := ["spindle_power", "safe_height", "drill_depth"]

def OutputSettings.fieldNames : List String := ["directory"]

def Configuration.fieldNames : List String := ["encoder", "output"]

/-- No field comes twice in a table; of a list the items that are too many do not matter. -/
def Toml.IsRecord (fields : List String) (n : Toml.Node) : Prop :=
  ∀ members ∈ n.members?, Parts.Distinct fields (members.map Toml.named).reverse

instance (fields : List String) (n : Toml.Node) : Decidable (Toml.IsRecord fields n) :=
  inferInstanceAs (Decidable (∀ _ ∈ _, _))

/-- What nodes mean, and which of them are records of given fields. -/
structure Form (ν : Type) extends Medium ν where
  IsRecord : List String → ν → Prop

def Json.form : Form (List Char) := ⟨Json.medium, Json.IsRecord⟩

def Toml.form : Form Toml.Node := ⟨Toml.medium, Toml.IsRecord⟩

/-- The node of a configuration and its parts are records of their fields. -/
structure Form.IsRegular {ν : Type} (f : Form ν) (n : ν) : Prop where
  root : f.IsRecord Configuration.fieldNames n
  encoder : ∀ parts ∈ f.parts? n, ∀ part ∈ parts "encoder" 0,
    f.IsRecord ProgramSettings.fieldNames part
  output : ∀ parts ∈ f.parts? n, ∀ part ∈ parts "output" 1,
    f.IsRecord OutputSettings.fieldNames part

/-- The text is one value with nothing but blanks behind it, and its records are regular. -/
def FileFormat.IsRegular (format : FileFormat) (text : String) : Prop :=
  match format with
  | .json => Json.form.IsRegular text.toList ∧
      ∃ rest, Reads (Json.skipValue text.toList) () rest ∧ Json.skipBlank rest = []
  | .toml => ∀ n ∈ Toml.ofText? text, Toml.form.IsRegular n

/-! ### Objects and lists -/

section Json

open Json

theorem forall_mem_getElem?_tail {ν : Type} {items : List ν} {p : ν → Prop} {position : Nat}
    (h : ∀ n ∈ items[position + 1]?, p n) : ∀ n ∈ items.tail[position]?, p n := by
  rwa [List.getElem?_tail]

section Parts

variable {α : Type} {read : Reader α} {name : String} {position : Nat} {value : Option α}
  {t : List Char}

/-- An item that says something is taken. -/
theorem Json.takes_item {items : List (List Char)} (ht : t ∈ items[position]?)
    (h : (Parts.ofItems items).read? (value? read) name position = some value) : Takes read t := by
  obtain ⟨x, hx⟩ := Parts.exists_of_read?_ofItems ht h
  exact takes_of_value? hx

/-- A member that says something is taken. -/
theorem Json.takes_member {names : List String} {members : List (String × List Char)}
    (hdistinct : Parts.Distinct names members) (hname : name ∈ names) (hmem : (name, t) ∈ members)
    (h : (Parts.ofMembers members).read? (value? read) name position = some value) :
    Takes read t := by
  obtain ⟨x, hx⟩ := hdistinct.exists_of_read? hname hmem h
  exact takes_of_value? hx

end Parts

namespace ProgramSettings

theorem takes_readItems {items : List (List Char)} {s rest : List Char} (hlength : items.length ≤ 3)
    (h : Reads (Json.readItems here true s) items rest)
    (hpower : ∀ t ∈ items[0]?, Takes readWord32 t) (hheight : ∀ t ∈ items[1]?, Takes readReal t)
    (hdepth : ∀ t ∈ items[2]?, Takes readReal t) : Takes ProgramSettings.readItems s := by
  obtain ⟨power, hpower, hsecond⟩ :=
    exists_itemOr standard.spindlePower means_readWord32 0 h hpower
  obtain ⟨height, hheight, hthird⟩ :=
    exists_itemOr standard.safeHeight means_readReal 1 hsecond
      (forall_mem_getElem?_tail hheight)
  obtain ⟨depth, hdepth, hend⟩ :=
    exists_itemOr standard.drillDepth means_readReal 2 hthird
      (forall_mem_getElem?_tail (forall_mem_getElem?_tail hdepth))
  have hnil : items.tail.tail.tail = [] := by
    rw [← List.length_eq_zero_iff, List.length_tail, List.length_tail, List.length_tail]
    omega
  rw [hnil] at hend
  unfold Takes ProgramSettings.readItems
  rw [hpower]
  dsimp only
  rw [hheight]
  dsimp only
  rw [hdepth]
  exact Part.takes_close _ hend

/-- What has to be known of a member of program settings. -/
structure IsTaken (m : String × List Char) : Prop where
  spindlePower : m.1 = "spindle_power" → Takes readWord32 m.2
  safeHeight : m.1 = "safe_height" → Takes readReal m.2
  drillDepth : m.1 = "drill_depth" → Takes readReal m.2

theorem takes_field (fields : Overrides) (members : List (String × List Char)) (name : String)
    (s : List Char) (h : Json.medium.overrides? (.ofMembers members) = some fields)
    (hdistinct : Parts.Distinct fieldNames ((name, s) :: members)) (hm : IsTaken (name, s))
    (hskip : Takes skipValue s) : ∃ read, field fields name = .ok read ∧ Takes read s := by
  obtain ⟨hpower, hheight, hdepth⟩ := Json.medium.overrides?_eq_some_iff.1 h
  unfold field
  split_ifs with hname hname hname
  · have hfresh := hdistinct.read?_eq_none (by rw [hname]; decide) Json.medium.word32? 0
    rw [hname, hpower] at hfresh
    exact takes_setOnce (Option.some.inj hfresh) (hm.spindlePower hname)
  · have hfresh := hdistinct.read?_eq_none (by rw [hname]; decide) Json.medium.real? 1
    rw [hname, hheight] at hfresh
    exact takes_setOnce (Option.some.inj hfresh) (hm.safeHeight hname)
  · have hfresh := hdistinct.read?_eq_none (by rw [hname]; decide) Json.medium.real? 2
    rw [hname, hdepth] at hfresh
    exact takes_setOnce (Option.some.inj hfresh) (hm.drillDepth hname)
  · exact takes_ignoreField hskip

theorem takes_read {s : List Char} {o : Overrides} (hrecord : Json.IsRecord fieldNames s)
    (h : Json.medium.program? s = some o) : Takes ProgramSettings.read s := by
  obtain ⟨parts, hparts, ho⟩ := Option.bind_eq_some_iff.1 h
  obtain ⟨hpower, hheight, hdepth⟩ := Json.medium.overrides?_eq_some_iff.1 ho
  refine Record.takes hrecord hparts ?_ ?_
  · rintro items r rest hlength rfl hread
    exact takes_readItems hlength hread (fun t ht => takes_item ht hpower)
      (fun t ht => takes_item ht hheight) fun t ht => takes_item ht hdepth
  · rintro members r rest hdistinct rfl hread
    refine (takes_of_noteMember
      (R := fun fields members => Json.medium.overrides? (.ofMembers members) = some fields)
      (fun _ _ _ _ _ _ _ => overrides?_of_field) takes_field Medium.overrides?_nil hdistinct
      (Q := IsTaken) ?_ hread).map _
    rintro ⟨name, t⟩ hmem
    refine ⟨?_, ?_, ?_⟩ <;> rintro rfl
    · exact takes_member hdistinct (by decide) hmem hpower
    · exact takes_member hdistinct (by decide) hmem hheight
    · exact takes_member hdistinct (by decide) hmem hdepth

end ProgramSettings

namespace OutputSettings

theorem takes_read {s : List Char} {directory : Option Path}
    (hrecord : Json.IsRecord fieldNames s) (h : Json.medium.output? s = some directory) :
    Takes OutputSettings.read s := by
  obtain ⟨parts, hparts, hdirectory⟩ := Option.bind_eq_some_iff.1 h
  obtain ⟨stated, hstated, -⟩ := Option.map_eq_some_iff.1 hdirectory
  refine Record.takes hrecord hparts ?_ ?_
  · rintro items r rest hlength rfl hread
    obtain ⟨part, hpart, hend⟩ :=
      exists_itemOr standard.directory means_readDirectory 0 hread
        fun t ht => takes_item ht hstated
    have hnil : items.tail = [] := by
      rw [← List.length_eq_zero_iff, List.length_tail]
      exact Nat.sub_eq_zero_of_le hlength
    rw [hnil] at hend
    unfold Takes record OutputSettings.readItems
    dsimp only
    rw [hpart]
    let settings : Part OutputSettings r := (⟨part.1⟩, part.2)
    exact Part.takes_close settings hend
  · rintro members r rest hdistinct rfl hread
    refine (takes_of_noteMember
      (R := fun d members =>
        (Parts.ofMembers members).read? Json.medium.path? "directory" 0 = some d)
      (fun _ _ _ _ _ _ _ => read?_of_field) (fun fields members name t hfields hdistinct hm hskip =>
        ?_) (Parts.read?_ofMembers_nil _ _) hdistinct
      (Q := fun m => m.1 = "directory" → Takes readDirectory m.2) ?_ hread).map _
    · unfold field
      split_ifs with hname
      · have hfresh := hdistinct.read?_eq_none (by rw [hname]; decide) Json.medium.path? 0
        rw [hname, hfields] at hfresh
        exact takes_setOnce (Option.some.inj hfresh) (hm hname)
      · exact takes_ignoreField hskip
    · rintro ⟨name, t⟩ hmem rfl
      exact takes_member hdistinct (by decide) hmem hstated

end OutputSettings

namespace Configuration

theorem takes_readItems {items : List (List Char)} {s rest : List Char} (hlength : items.length ≤ 2)
    (h : Reads (Json.readItems here true s) items rest)
    (hprogram : ∀ t ∈ items[0]?, Takes ProgramSettings.read t)
    (houtput : ∀ t ∈ items[1]?, Takes OutputSettings.read t) :
    Takes Configuration.readItems s := by
  obtain ⟨program, hprogram, hsecond⟩ :=
    exists_itemOr .standard ProgramSettings.means_read 0 h hprogram
  obtain ⟨output, houtput, hend⟩ :=
    exists_itemOr .standard OutputSettings.means_read 1 hsecond
      (forall_mem_getElem?_tail houtput)
  have hnil : items.tail.tail = [] := by
    rw [← List.length_eq_zero_iff, List.length_tail, List.length_tail]
    omega
  rw [hnil] at hend
  unfold Takes Configuration.readItems
  rw [hprogram]
  dsimp only
  rw [houtput]
  exact Part.takes_close (output.after program.2 (Configuration.mk program.1)) hend

/-- What has to be known of a member of a configuration. -/
structure IsTaken (m : String × List Char) : Prop where
  program : m.1 = "encoder" → Takes ProgramSettings.read m.2
  output : m.1 = "output" → Takes OutputSettings.read m.2

theorem takes_field (fields : Fields) (members : List (String × List Char)) (name : String)
    (s : List Char) (h : fields.IsStated members)
    (hdistinct : Parts.Distinct fieldNames ((name, s) :: members)) (hm : IsTaken (name, s))
    (hskip : Takes skipValue s) : ∃ read, field fields name = .ok read ∧ Takes read s := by
  obtain ⟨program, directory, hstates, rfl⟩ := h
  unfold field
  split_ifs with hname hname
  · have hfresh := hdistinct.read?_eq_none (by rw [hname]; decide) Json.medium.program? 0
    rw [hname, hstates.program] at hfresh
    obtain rfl := Option.some.inj hfresh
    exact takes_setOnce rfl (hm.program hname)
  · have hfresh := hdistinct.read?_eq_none (by rw [hname]; decide) Json.medium.output? 1
    rw [hname, hstates.directory] at hfresh
    obtain rfl := Option.some.inj hfresh
    exact takes_setOnce rfl (hm.output hname)
  · exact takes_ignoreField hskip

theorem takes_read {s : List Char} {stated : Stated} (hregular : Json.form.IsRegular s)
    (h : Json.medium.stated? s = some stated) : Takes Configuration.read s := by
  obtain ⟨parts, hparts, hstated⟩ := Option.bind_eq_some_iff.1 h
  obtain ⟨program, directory, hprogram, hdirectory, -⟩ :=
    Json.medium.partsStated?_eq_some_iff.1 hstated
  refine Record.takes hregular.root hparts ?_ ?_
  · rintro items r rest hlength rfl hread
    refine takes_readItems hlength hread (fun t ht => ?_) fun t ht => ?_
    · obtain ⟨o, ho⟩ := Parts.exists_of_read?_ofItems ht hprogram
      exact ProgramSettings.takes_read (hregular.encoder _ hparts _ ht) ho
    · obtain ⟨d, hd⟩ := Parts.exists_of_read?_ofItems ht hdirectory
      exact OutputSettings.takes_read (hregular.output _ hparts _ ht) hd
  · rintro members r rest hdistinct rfl hread
    refine (takes_of_noteMember (R := Fields.IsStated) (fun _ _ _ _ _ _ _ => isStated_of_field)
      takes_field ⟨none, none, .nil, rfl⟩ hdistinct (Q := IsTaken) ?_ hread).map _
    rintro ⟨name, t⟩ hmem
    refine ⟨?_, ?_⟩ <;> rintro rfl
    · obtain ⟨o, ho⟩ := hdistinct.exists_of_read? (by decide) hmem hprogram
      have hpart := hdistinct.lookup_eq_some (by decide) hmem
      exact ProgramSettings.takes_read (hregular.encoder _ hparts _ hpart) ho
    · obtain ⟨d, hd⟩ := hdistinct.exists_of_read? (by decide) hmem hdirectory
      have hpart := hdistinct.lookup_eq_some (by decide) hmem
      exact OutputSettings.takes_read (hregular.output _ hparts _ hpart) hd

end Configuration

end Json

/-! ### Tables and lists -/

section Toml

open Toml

/-- Whether a meaning accepts a node. -/
def Toml.Accepts {α : Type} (meaning : Meaning α) (n : Node) : Prop := ∃ x, meaning n = .ok x

theorem Toml.accepts_of_toOption {α : Type} {meaning : Meaning α} {n : Node} {x : α}
    (h : (meaning n).toOption = some x) : Accepts meaning n := by
  cases hn : meaning n with
  | error f =>
    rw [hn] at h
    cases h
  | ok y => exact ⟨y, hn⟩

theorem Toml.Accepts.map {α β : Type} {meaning : Meaning α} {n : Node} (h : Accepts meaning n)
    (f : α → β) : ∃ x, (meaning n).map f = .ok x := by
  obtain ⟨x, hx⟩ := h
  exact ⟨f x, by rw [hx]; rfl⟩

section Parts

variable {α : Type} {meaning : Meaning α} {name : String} {position : Nat} {value : Option α}
  {n : Node}

/-- An item that says something is accepted. -/
theorem Toml.accepts_item {items : List Node} (hn : n ∈ items[position]?)
    (h : (Parts.ofItems items).read? (fun n => (meaning n).toOption) name position = some value) :
    Accepts meaning n := by
  obtain ⟨x, hx⟩ := Parts.exists_of_read?_ofItems hn h
  exact accepts_of_toOption hx

/-- A member that says something is accepted. -/
theorem Toml.accepts_member {names : List String} {members : List (String × Node)}
    (hdistinct : Parts.Distinct names members) (hname : name ∈ names) (hmem : (name, n) ∈ members)
    (h : (Parts.ofMembers members).read? (fun n => (meaning n).toOption) name position =
      some value) : Accepts meaning n := by
  obtain ⟨x, hx⟩ := hdistinct.exists_of_read? hname hmem h
  exact accepts_of_toOption hx

end Parts

theorem Toml.exists_itemOr {α : Type} (missing : α) (item : Meaning α) {position : Nat}
    {items : List Node} (h : ∀ n ∈ items[position]?, Accepts item n) :
    ∃ x, itemOr missing item position items = .ok x := by
  unfold itemOr
  cases hitem : items[position]? with
  | none => exact ⟨missing, rfl⟩
  | some n => exact h n hitem

/-- Members are not refused, if none of them is. -/
theorem Toml.exists_addMembers {σ : Type} (member : σ → String → Node → Except Fault σ)
    {members : Members} (h : ∀ m ∈ members, ∀ state, ∃ next, member state m.1.name m.2 = .ok next)
    (state : σ) : ∃ last, addMembers member state members = .ok last := by
  induction members generalizing state with
  | nil => exact ⟨state, rfl⟩
  | cons m members ih =>
    obtain ⟨key, n⟩ := m
    obtain ⟨hm, hmembers⟩ := List.forall_mem_cons.1 h
    obtain ⟨next, hnext⟩ := hm state
    obtain ⟨last, hlast⟩ := ih hmembers next
    refine ⟨last, ?_⟩
    rw [addMembers, hnext]
    exact hlast

/-- A record is accepted if its list or its table is. -/
theorem Toml.Record.accepts {σ α : Type} {record : Record σ α} {fields : List String} {n : Node}
    {p : Parts Node} (hrecord : IsRecord fields n) (hp : n.parts? = some p)
    (hlist : ∀ items, p = .ofItems items → ∃ x, record.ofItems items = .ok x)
    (hmember : ∀ members, Parts.Distinct fields members → p = .ofMembers members →
      ∀ m ∈ members, ∀ state, ∃ next, record.member state m.1 m.2 = .ok next)
    (hfinish : ∀ state, ∃ x, record.finish state = .ok x) : Accepts record.read n := by
  unfold Accepts Record.read
  unfold Node.parts? at hp
  cases hitems : n.items? with
  | some items =>
    rw [hitems] at hp
    obtain ⟨x, hx⟩ := hlist items (Option.some.inj hp).symm
    dsimp only
    rw [hx]
    exact ⟨x, rfl⟩
  | none =>
    rw [hitems] at hp
    obtain ⟨members, hmembers, rfl⟩ := Option.map_eq_some_iff.1 hp
    have hmember : ∀ m ∈ members, ∀ state, ∃ next, record.member state m.1.name m.2 = .ok next :=
      fun m hm => hmember _ (hrecord members hmembers) rfl (named m)
        (List.mem_reverse.2 (List.mem_map_of_mem hm))
    obtain ⟨last, hlast⟩ := exists_addMembers record.member hmember record.start
    obtain ⟨x, hx⟩ := hfinish last
    rw [hmembers]
    dsimp only
    rw [hlast]
    dsimp only
    rw [hx]
    exact ⟨x, rfl⟩

theorem ProgramSettings.accepts_tomlRecord {n : Node} {o : Overrides}
    (hrecord : Toml.IsRecord fieldNames n) (h : Toml.medium.program? n = some o) :
    Accepts tomlRecord.read n := by
  obtain ⟨parts, hparts, ho⟩ := Option.bind_eq_some_iff.1 h
  obtain ⟨hpower, hheight, hdepth⟩ := Toml.medium.overrides?_eq_some_iff.1 ho
  refine Toml.Record.accepts hrecord hparts ?_ ?_ fun state => ⟨state, rfl⟩
  · rintro items rfl
    obtain ⟨power, hpower⟩ := Toml.exists_itemOr standard.spindlePower Node.word32
      fun t ht => accepts_item ht hpower
    obtain ⟨height, hheight⟩ := Toml.exists_itemOr standard.safeHeight Node.real
      fun t ht => accepts_item ht hheight
    obtain ⟨depth, hdepth⟩ := Toml.exists_itemOr standard.drillDepth Node.real
      fun t ht => accepts_item ht hdepth
    unfold tomlRecord
    dsimp only
    rw [hpower]
    dsimp only
    rw [hheight]
    dsimp only
    rw [hdepth]
    exact ⟨_, rfl⟩
  · rintro members hdistinct rfl ⟨name, t⟩ hmem state
    unfold tomlRecord
    dsimp only
    split_ifs with hname hname hname
    · obtain rfl := hname
      exact (accepts_member hdistinct (by decide) hmem hpower).map _
    · obtain rfl := hname
      exact (accepts_member hdistinct (by decide) hmem hheight).map _
    · obtain rfl := hname
      exact (accepts_member hdistinct (by decide) hmem hdepth).map _
    · exact ⟨state, rfl⟩

theorem OutputSettings.accepts_tomlRecord {n : Node} {directory : Option Path}
    (hrecord : Toml.IsRecord fieldNames n) (h : Toml.medium.output? n = some directory) :
    Accepts tomlRecord.read n := by
  obtain ⟨parts, hparts, hdirectory⟩ := Option.bind_eq_some_iff.1 h
  obtain ⟨stated, hstated, -⟩ := Option.map_eq_some_iff.1 hdirectory
  refine Toml.Record.accepts hrecord hparts ?_ ?_ fun state => ⟨state, rfl⟩
  · rintro items rfl
    obtain ⟨path, hpath⟩ := Toml.exists_itemOr standard.directory directoryOf
      fun t ht => accepts_item ht hstated
    unfold tomlRecord
    dsimp only
    rw [hpath]
    exact ⟨_, rfl⟩
  · rintro members hdistinct rfl ⟨name, t⟩ hmem state
    unfold tomlRecord
    dsimp only
    split_ifs with hname
    · obtain rfl := hname
      exact (accepts_member hdistinct (by decide) hmem hstated).map _
    · exact ⟨state, rfl⟩

theorem Configuration.accepts_tomlRecord {n : Node} {stated : Stated}
    (hregular : Toml.form.IsRegular n) (h : Toml.medium.stated? n = some stated) :
    Accepts tomlRecord.read n := by
  obtain ⟨parts, hparts, hstated⟩ := Option.bind_eq_some_iff.1 h
  obtain ⟨program, directory, hprogram, hdirectory, -⟩ :=
    Toml.medium.partsStated?_eq_some_iff.1 hstated
  refine Toml.Record.accepts hregular.root hparts ?_ ?_ fun state => ⟨state, rfl⟩
  · rintro items rfl
    obtain ⟨program, hprogram⟩ := Toml.exists_itemOr .standard ProgramSettings.tomlRecord.read
      fun t ht => by
        obtain ⟨o, ho⟩ := Parts.exists_of_read?_ofItems ht hprogram
        exact ProgramSettings.accepts_tomlRecord (hregular.encoder _ hparts _ ht) ho
    obtain ⟨output, houtput⟩ := Toml.exists_itemOr .standard OutputSettings.tomlRecord.read
      fun t ht => by
        obtain ⟨d, hd⟩ := Parts.exists_of_read?_ofItems ht hdirectory
        exact OutputSettings.accepts_tomlRecord (hregular.output _ hparts _ ht) hd
    unfold tomlRecord
    dsimp only
    rw [hprogram]
    dsimp only
    rw [houtput]
    exact ⟨_, rfl⟩
  · rintro members hdistinct rfl ⟨name, t⟩ hmem state
    unfold tomlRecord
    dsimp only
    split_ifs with hname hname
    · obtain rfl := hname
      obtain ⟨o, ho⟩ := hdistinct.exists_of_read? (by decide) hmem hprogram
      have hpart := hdistinct.lookup_eq_some (by decide) hmem
      exact (ProgramSettings.accepts_tomlRecord (hregular.encoder _ hparts _ hpart) ho).map _
    · obtain rfl := hname
      obtain ⟨d, hd⟩ := hdistinct.exists_of_read? (by decide) hmem hdirectory
      have hpart := hdistinct.lookup_eq_some (by decide) hmem
      exact (OutputSettings.accepts_tomlRecord (hregular.output _ hparts _ hpart) hd).map _
    · exact ⟨state, rfl⟩

end Toml

/-! ### Texts -/

namespace Configuration

variable {format : FileFormat} {text : String} {stated : Stated}

theorem exists_ofText (hregular : format.IsRegular text) (h : stated? format text = some stated) :
    ∃ c, ofText format text = .ok c := by
  cases format with
  | json =>
    obtain ⟨hregular, rest, hskip, hblank⟩ := hregular
    obtain ⟨c, hread⟩ := (takes_read hregular h).reads means_read hskip
    refine ⟨c, ?_⟩
    rw [ofText, ofJson, Json.readText_eq_ok hread hblank]
  | toml =>
    obtain ⟨n, hn, hstated⟩ := Option.bind_eq_some_iff.1 h
    obtain ⟨c, hread⟩ := accepts_tomlRecord (hregular n hn) hstated
    refine ⟨c, ?_⟩
    rw [ofText, ofToml, Toml.readText, hn]
    dsimp only
    rw [hread]

/-- A regular text that states values is read as the configuration of these values. -/
theorem ofText_eq_ok (hregular : format.IsRegular text) (h : stated? format text = some stated) :
    ofText format text = .ok stated.configuration := by
  obtain ⟨c, hc⟩ := exists_ofText hregular h
  obtain ⟨s, hs, rfl⟩ := exists_stated_of_ofText hc
  rw [h] at hs
  cases hs
  exact hc

end Configuration

end DrillPost

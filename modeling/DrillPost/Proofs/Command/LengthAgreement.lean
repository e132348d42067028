import DrillPost.Command.Report
import DrillPost.Proofs.Command.LengthArgument
import DrillPost.Proofs.Command.Precedence
import DrillPost.Proofs.Gcode.Showing
import DrillPost.Proofs.Settings.LengthTexts

/-!
# A length means the same wherever it is given

A length can be given in a file of either format or in an argument, and each of the three has a
reader of its own. A short number is read by each of them as a value of its literal, and values of
one literal are equal. So the settings in effect are equal (`LengthSetting.equal_set`) and have the
same programs (`Gcode.program_eq_of_equal`), unless a depth lies below zero: then every call fails
before it does anything (`LengthSetting.calls_agree`).

What one call makes of the length is `LengthSetting.IsGiven.exists_value`.
-/

namespace DrillPost

variable {setting : LengthSetting} {l : Json.Literal} {negative : Bool} {number : List Char}
  {s t others : ProgramSettings} {y z : Binary64}

/-! ### Equal settings -/

/-- The settings are equal as numbers, whatever the sign of a zero. -/
structure ProgramSettings.Equal (s t : ProgramSettings) : Prop where
  spindlePower : s.spindlePower = t.spindlePower
  safeHeight : s.safeHeight.equal t.safeHeight = true
  drillDepth : s.drillDepth.equal t.drillDepth = true

/-- Equal settings have the same programs. -/
theorem Gcode.program_eq_of_equal (h : s.Equal t) (hs : s.fault? = none)
    (ht : t.fault? = none) (job : ToolJob) : program s job = program t job := by
  have hfault : fault? s job = fault? t job := by rw [fault?, fault?, hs, ht]
  rw [program, program, hfault]
  cases hboth : fault? t job with
  | some fault => rfl
  | none =>
    have hjob := (fault?_eq_none_iff.1 hboth).2
    have hshow := ShowSame.of_holes_eq h.spindlePower h.safeHeight h.drillDepth
      (job.fault?_eq_none_iff.1 hjob).2
    exact congrArg Except.ok (document_eq_of_showSame hs ht hjob hjob hshow)

/-! ### Values that are fit for use -/

namespace LengthSetting

/-- A depth below zero is refused. -/
def Refuses (setting : LengthSetting) (negative : Bool) (l : Json.Literal) : Prop :=
  setting = .drillDepth ∧ negative = true ∧ l.decimal.coefficient ≠ 0

instance (setting : LengthSetting) (negative : Bool) (l : Json.Literal) :
    Decidable (setting.Refuses negative l) :=
  inferInstanceAs (Decidable (_ ∧ _))

theorem set_set (x y : Binary64) (s : ProgramSettings) :
    setting.set y (setting.set x s) = setting.set y s := by
  cases setting <;> rfl

theorem set_eq_of_set_eq {x : Binary64} (h : setting.set x s = setting.set x t) (y : Binary64) :
    setting.set y s = setting.set y t := by
  rw [← set_set x y s, h, set_set]

/-- With equal lengths settings are equal. -/
theorem equal_set (hs : (setting.set .zero s).fault? = none) (h : y.equal z = true) :
    (setting.set y s).Equal (setting.set z s) := by
  obtain ⟨hdepth, -, hheight⟩ := ProgramSettings.fault?_eq_none_iff _ |>.1 hs
  cases setting with
  | safeHeight => exact ⟨rfl, h, Gcode.equal_of_scalar_eq hdepth hdepth rfl⟩
  | drillDepth => exact ⟨rfl, Gcode.equal_of_scalar_eq hheight hheight rfl, h⟩

theorem fault?_set_of_refuses (hshort : l.IsShort) (hy : l.IsValue negative y)
    (h : setting.Refuses negative l) (s : ProgramSettings) :
    (setting.set y s).fault? = some (.invalidDrillDepth y) := by
  obtain ⟨rfl, hbelow⟩ := h
  have hless := (hy.less_zero_iff hshort).2 hbelow
  have hdepth : (set y s .drillDepth).hasDepth = false := by
    show (y.isFinite && !Binary64.less y .zero) = false
    rw [hless, Bool.not_true, Bool.and_false]
  rw [ProgramSettings.fault?, hdepth, if_neg Bool.false_ne_true]
  rfl

theorem fault?_set_of_not_refuses (hshort : l.IsShort) (hy : l.IsValue negative y)
    (h : ¬ setting.Refuses negative l) (hs : (setting.set .zero s).fault? = none) :
    (setting.set y s).fault? = none := by
  obtain ⟨hdepth, habove, hheight⟩ := ProgramSettings.fault?_eq_none_iff _ |>.1 hs
  rw [ProgramSettings.fault?_eq_none_iff]
  cases setting with
  | safeHeight => exact ⟨hdepth, habove, hy.isFinite⟩
  | drillDepth =>
    refine ⟨hy.isFinite, Bool.eq_false_iff.2 fun hless => h ⟨rfl, ?_⟩, hheight⟩
    exact (hy.less_zero_iff hshort).1 hless

end LengthSetting

/-! ### Calls -/

/-- What a call of the program depends on, but for the log and the disk. -/
structure Call where
  arguments : List String
  host : Host
  files : FileSystem

/-- The configuration that is in effect in a call. -/
def Call.HasInEffect (call : Call) (c : Configuration) : Prop :=
  ∃ options, Options.ofArguments call.arguments = .ok options ∧
    (options.configuration call.host call.files).result = .ok c

/-- A call fails because of a fault in the settings. It prints nothing, and leaves all files as they
are; so it does where a directive stops it before. -/
def Call.IsRefused (call : Call) (fault : SettingsFault) : Prop :=
  ∃ options, Options.ofArguments call.arguments = .ok options ∧ ∀ disks,
    (options.run disks call.host call.files).outcome.result = .error (.settings (.invalid fault)) ∧
      ∀ directives, ∃ exitCode stderr,
        DrillPost.call disks call.host directives call.arguments call.files =
          (⟨exitCode, "", stderr⟩, call.files) ∧
        (exitCode = 1 ∨ Filter.ofText? directives = none)

theorem Call.isRefused_of_configuration {call : Call} {options : Options} {fault : SettingsFault}
    (harguments : Options.ofArguments call.arguments = .ok options)
    (h : (options.configuration call.host call.files).result = .error (.invalid fault)) :
    call.IsRefused fault := by
  refine ⟨options, harguments, fun disks => ?_⟩
  obtain ⟨hresult, hprinted, hfiles⟩ := Options.run_of_configuration_error h
  refine ⟨hresult, fun directives => ?_⟩
  unfold DrillPost.call
  rw [harguments]
  dsimp only
  cases hfilter : Filter.ofText? directives with
  | none => exact ⟨_, _, rfl, .inr rfl⟩
  | some filter =>
    dsimp only
    rw [hfiles, Run.report, hresult]
    dsimp only
    rw [hprinted]
    exact ⟨_, _, rfl, .inl rfl⟩

theorem Configuration.validate_eq_error {c : Configuration} {fault : SettingsFault}
    (h : c.program.fault? = some fault) : c.validate = .error (.invalid fault) := by
  rw [validate, h]

namespace LengthSetting

/-- A call gives a length as a number, in its configuration file or in an argument, and nothing else
is wrong with its settings. Were the length zero, then the settings in effect would be the others
with the length zero. -/
inductive IsGiven (setting : LengthSetting) (number : List Char) (others : ProgramSettings) :
    Call → Prop
  | file {arguments : List String} {host : Host} {files : FileSystem} {options : Options}
      {path : Path} {format : FileFormat} {place : Location} {content : Bytes} {text : String}
      {stated : Stated} (harguments : Options.ofArguments arguments = .ok options)
      (hnot : setting.given options.overrides = none)
      (hsource : options.TakesFrom host files (some path))
      (hformat : FileFormat.ofPath path = .ok format)
      (hfile : files.HasFile host path place content) (htext : ofUtf8? content = some text)
      (hgives : format.Gives setting number stated text)
      (hvalid : (setting.set .zero stated.configuration.program).fault? = none)
      (hothers : setting.set .zero (stated.configuration.program.override options.overrides) =
        setting.set .zero others) :
      IsGiven setting number others ⟨arguments, host, files⟩
  | argument {before after : List String} {host : Host} {files : FileSystem} {options : Options}
      {loaded : Configuration} {stated : Stated} (hbefore : "--" ∉ before)
      (harguments : Options.ofArguments (before ++ setting.argument ['0'] :: after) = .ok options)
      (hstarts : options.StartsFrom host files loaded stated) (hvalid : loaded.validate = .ok ())
      (hothers : loaded.program.override options.overrides = setting.set .zero others) :
      IsGiven setting number others ⟨before ++ setting.argument number :: after, host, files⟩

theorem exists_readLength (h : l.IsShortNumber negative number) :
    ∃ y, l.IsValue negative y ∧ readLength (String.ofList number) = .ok y := by
  obtain ⟨text, hspelled, rfl⟩ := h.exists_text
  refine ⟨_, h.isValue_toBinary64 negative, ?_⟩
  rw [readLength, Binary64.ofText_signText hspelled.ofText?_eq]
  rfl

theorem override_set_of_given {o : Overrides} (h : setting.given o = none) (y : Binary64)
    (s : ProgramSettings) : (setting.set y s).override o = setting.set y (s.override o) := by
  cases setting with
  | safeHeight =>
    have hheight : o.safeHeight = none := h
    simp only [set, ProgramSettings.override, hheight, Option.getD_none]
  | drillDepth =>
    have hdepth : o.drillDepth = none := h
    simp only [set, ProgramSettings.override, hdepth, Option.getD_none]

/-- Options start from what other options for the same file start from. -/
theorem startsFrom_withLength (setting : LengthSetting) {options : Options} {host : Host}
    {files : FileSystem} {loaded : Configuration} {stated : Stated}
    (h : options.StartsFrom host files loaded stated) (y : Binary64) :
    (options.withLength setting y).StartsFrom host files loaded stated := by
  have htakes : ∀ source, options.TakesFrom host files source →
      (options.withLength setting y).TakesFrom host files source := by
    intro source hsource
    rw [Options.takesFrom_iff] at hsource ⊢
    exact hsource
  cases h with
  | file hsource hformat hfile htext hloaded hstated =>
    exact .file (htakes _ hsource) hformat hfile htext hloaded hstated
  | standard hsource => exact .standard (htakes _ hsource)

/-- Where a run starts from fit values, the settings in effect are those that are left. -/
theorem exists_hasInEffect {call : Call} {options : Options} {loaded : Configuration}
    {stated : Stated} (harguments : Options.ofArguments call.arguments = .ok options)
    (hstarts : options.StartsFrom call.host call.files loaded stated)
    (hvalid : loaded.validate = .ok ()) (hs : (loaded.override options.overrides).program = s)
    (hfit : s.fault? = none) : ∃ c, call.HasInEffect c ∧ c.program = s := by
  have hvalidAgain : (loaded.override options.overrides).validate = .ok () := by
    rw [Configuration.validate_eq_ok_iff, hs, hfit]
  obtain ⟨c, hresolves, hc⟩ := hstarts.exists_configuration hvalid hvalidAgain
  refine ⟨c, ⟨options, harguments, hc⟩, ?_⟩
  rw [Options.resolves_iff.1 hresolves, ← hstarts.eq_configuration, hs]

/-- A length that is given is in effect as a value of its literal, or it is refused. -/
theorem IsGiven.exists_value {call : Call} (h : setting.IsGiven number others call)
    (hnumber : l.IsShortNumber negative number)
    (hfit : (setting.set .zero others).fault? = none) :
    ∃ y, l.IsValue negative y ∧
      (setting.Refuses negative l → call.IsRefused (.invalidDrillDepth y)) ∧
        (¬ setting.Refuses negative l →
          ∃ c, call.HasInEffect c ∧ c.program = setting.set y others) := by
  have hshort := hnumber.toIsShort
  cases h with
  | @file arguments host files options path format place content text stated harguments hnot
      hsource hformat hfile htext hgives hvalid hothers =>
    obtain ⟨y, stated', hy, rfl, hstated, hloaded⟩ := hgives.exists_ofText hnumber
    have hstarts := Options.StartsFrom.file hsource hformat hfile htext hloaded hstated
    generalize hc : Stated.configuration _ = loaded at hloaded hstarts
    have hprogram : loaded.program = setting.set y stated.configuration.program := by
      rw [← hc]
      exact override_give y .standard stated.program
    have heffective : (loaded.override options.overrides).program = setting.set y others := by
      show loaded.program.override options.overrides = _
      rw [hprogram, override_set_of_given hnot]
      exact set_eq_of_set_eq hothers y
    refine ⟨y, hy, fun hrefuses => ?_, fun hrefuses => ?_⟩
    · have hfault : loaded.program.fault? = some (.invalidDrillDepth y) := by
        rw [hprogram]
        exact fault?_set_of_refuses hshort hy hrefuses _
      exact Call.isRefused_of_configuration harguments (Options.configuration_of_not_valid hstarts
        (Configuration.validate_eq_error hfault))
    · have hvalidLoaded : loaded.validate = .ok () := by
        rw [Configuration.validate_eq_ok_iff, hprogram]
        exact fault?_set_of_not_refuses hshort hy hrefuses hvalid
      exact exists_hasInEffect harguments hstarts hvalidLoaded heffective
        (fault?_set_of_not_refuses hshort hy hrefuses hfit)
  | @argument before after host files options loaded stated hbefore harguments hstarts hvalid
      hothers =>
    have hzero : readLength (String.ofList ['0']) = .ok .zero := by decide +kernel
    obtain ⟨y, hy, hread⟩ := exists_readLength hnumber
    have hgiven := Options.ofArguments_argument hbefore hzero hread harguments
    have hstartsGiven := startsFrom_withLength setting hstarts y
    have heffective : (loaded.override (options.withLength setting y).overrides).program =
        setting.set y others := by
      show loaded.program.override (setting.give y options.overrides) = _
      rw [override_give, hothers, set_set]
    refine ⟨y, hy, fun hrefuses => ?_, fun hrefuses => ?_⟩
    · have hfault : (loaded.override (options.withLength setting y).overrides).program.fault? =
          some (.invalidDrillDepth y) := by
        rw [heffective]
        exact fault?_set_of_refuses hshort hy hrefuses _
      exact Call.isRefused_of_configuration hgiven
        (Options.configuration_of_not_valid_override hstartsGiven hvalid
          (Configuration.validate_eq_error hfault))
    · exact exists_hasInEffect hgiven hstartsGiven hvalid heffective
        (fault?_set_of_not_refuses hshort hy hrefuses hfit)

/-- A length means the same wherever it is given: in a file of either format, of which there are
some whatever the number is, or in an argument. A depth below zero is refused, before anything is
printed or put in place. Any other length is in effect, with equal settings however it is given, and
so with the same programs. -/
theorem calls_agree (hnumber : l.IsShortNumber negative number) (setting : LengthSetting)
    (hfit : (setting.set .zero others).fault? = none) :
    (∀ format : FileFormat,
      format.Gives setting number ⟨.none, none⟩ (format.lengthText setting number)) ∧
    (setting.Refuses negative l → ∀ call, setting.IsGiven number others call →
      ∃ y, l.IsValue negative y ∧ call.IsRefused (.invalidDrillDepth y)) ∧
    (¬ setting.Refuses negative l → ∀ call call', setting.IsGiven number others call →
      setting.IsGiven number others call' →
        ∃ c c', call.HasInEffect c ∧ call'.HasInEffect c' ∧ c.program.Equal c'.program ∧
          ∀ job, Gcode.program c.program job = Gcode.program c'.program job) := by
  refine ⟨fun format => format.gives_lengthText hnumber setting, fun hrefuses call hcall => ?_,
    fun hrefuses call call' hcall hcall' => ?_⟩
  · obtain ⟨y, hy, hrefused, -⟩ := hcall.exists_value hnumber hfit
    exact ⟨y, hy, hrefused hrefuses⟩
  · obtain ⟨y, hy, -, heffective⟩ := hcall.exists_value hnumber hfit
    obtain ⟨y', hy', -, heffective'⟩ := hcall'.exists_value hnumber hfit
    obtain ⟨c, hc, hprogram⟩ := heffective hrefuses
    obtain ⟨c', hc', hprogram'⟩ := heffective' hrefuses
    have hequal : (setting.set y others).Equal (setting.set y' others) :=
      equal_set hfit (hy.equal hy')
    have hfault := fault?_set_of_not_refuses hnumber.toIsShort hy hrefuses hfit
    have hfault' := fault?_set_of_not_refuses hnumber.toIsShort hy' hrefuses hfit
    refine ⟨c, c', hc, hc', ?_⟩
    rw [hprogram, hprogram']
    exact ⟨hequal, Gcode.program_eq_of_equal hequal hfault hfault'⟩

/-- A quarter of a millimetre with an exponent, in files of both formats and in an argument. -/
theorem calls_agree_quarter :
    let number := ['2', '.', '5', '0', 'e', '-', '1']
    let host : Host := ⟨[], 0o022, none, none, none⟩
    let content := fun format => utf8 (FileFormat.lengthText .safeHeight number format)
    let files := (FileSystem.empty.insert [utf8 "c.json"] (.file 0o644 (content .json))).insert
      [utf8 "c.toml"] (.file 0o644 (content .toml))
    let json : Call := ⟨["--config=c.json", "job.json"], host, files⟩
    let toml : Call := ⟨["--config=c.toml", "job.json"], host, files⟩
    let argument : Call := ⟨["--safe-height=2.50e-1", "job.json"], host, files⟩
    (∃ c c', json.HasInEffect c ∧ toml.HasInEffect c' ∧ c.program.Equal c'.program) ∧
      ∃ c c', json.HasInEffect c ∧ argument.HasInEffect c' ∧ c.program.Equal c'.program := by
  intro number host content files json toml argument
  let literal : Json.Literal := ⟨['2'], ['5', '0'], some ⟨true, ['1']⟩⟩
  have hspelled : literal.IsSpelled number :=
    ⟨⟨nofun, by decide, by decide, by decide, by decide⟩, _, .signed (.inl rfl) ⟨true, ['1']⟩, rfl⟩
  have hnumber : literal.IsShortNumber false number :=
    hspelled.isShortNumber (by decide) (by decide) false
  have hfit : (set .zero .standard .safeHeight).fault? = none := by decide +kernel
  obtain ⟨hgives, -, hagree⟩ := calls_agree hnumber .safeHeight hfit
  have hrefuses : ¬ LengthSetting.safeHeight.Refuses false literal := by decide
  have hothers : set .zero ((ProgramSettings.standard.override .none).override .none) .safeHeight =
      set .zero .standard .safeHeight := by decide +kernel
  have hfile : ∀ (format : FileFormat) (path : String) (arguments : List String),
      Options.ofArguments arguments = .ok
        { Options.none with input := some (.ofText "job.json"), config := some (.ofText path) } →
      FileFormat.ofPath (.ofText path) = .ok format →
      files.HasFile host (.ofText path) [utf8 path] (content format) →
      LengthSetting.safeHeight.IsGiven number .standard ⟨arguments, host, files⟩ :=
    fun format path arguments harguments hformat hfile =>
      .file harguments rfl (.given rfl) hformat hfile (ofUtf8?_utf8 _) (hgives format)
        (by decide +kernel) hothers
  have hjson : LengthSetting.safeHeight.IsGiven number .standard json :=
    hfile .json "c.json" _ (by decide +kernel) (by decide +kernel)
      ⟨by decide +kernel, 0o644, by decide +kernel⟩
  have htoml : LengthSetting.safeHeight.IsGiven number .standard toml :=
    hfile .toml "c.toml" _ (by decide +kernel) (by decide +kernel)
      ⟨by decide +kernel, 0o644, by decide +kernel⟩
  have hargument : LengthSetting.safeHeight.IsGiven number .standard argument := by
    let options : Options :=
      { Options.none with
        input := some (.ofText "job.json")
        overrides := ⟨none, some .zero, none⟩ }
    have hstarts : options.StartsFrom host files .standard ⟨.none, none⟩ :=
      .standard (Options.takesFrom_iff.2 (by decide +kernel))
    have harguments : Options.ofArguments
        ([] ++ LengthSetting.safeHeight.argument ['0'] :: ["job.json"]) = .ok options := by
      decide +kernel
    exact .argument List.not_mem_nil harguments hstarts Configuration.validate_standard rfl
  obtain ⟨c, c', hc, hc', hequal, -⟩ := hagree hrefuses json toml hjson htoml
  obtain ⟨d, d', hd, hd', hequal', -⟩ := hagree hrefuses json argument hjson hargument
  exact ⟨⟨c, c', hc, hc', hequal⟩, d, d', hd, hd', hequal'⟩

end LengthSetting

end DrillPost

import DrillPost.Proofs.Command.Insertion
import DrillPost.Proofs.Command.LengthAgreement
import DrillPost.Proofs.Decimal.Layout
import DrillPost.Proofs.Gcode.HeightWords

/-!
# A length comes through unchanged

The word that a program has for a length can be given as the length on the command line, in one
argument or in two (`Progress.gives_argument`, `Progress.gives_arguments`). In two it may begin with
a minus sign, as letters of switches do; a text of digits and perhaps a point is known for a number
all the same (`Progress.isNumeral_plainText`). The length is then in effect, and the programs have
the same word for it (`LengthSetting.word_in_effect`).
-/

namespace DrillPost

open Gcode

variable {setting : LengthSetting} {y : Binary64}

/-! ### Words as arguments -/

theorem readLength_scalar {v : Binary64} (hv : v.isFinite = true) :
    readLength (scalar v) = .ok v.unsignedZero := by
  rw [readLength, ofText_scalar hv]

/-- The word of a finite value is a plain numeral with or without a minus sign. -/
theorem Gcode.exists_toList_scalar {v : Binary64} (hv : v.isFinite = true) :
    ∃ (negative : Bool) (n : Numeral), n.IsPlain ∧
      (scalar v).toList = signText negative ++ n.plainText := by
  cases v with
  | nan => cases hv
  | infinite s => cases hv
  | finite s x => exact ⟨_, _, isPlain_wordNumeral x, toList_scalar s x⟩

namespace Progress

variable {p q : Progress} {word : String}

theorem isNumeral_plainText {n : Numeral} (h : n.IsPlain) : isNumeral n.plainText = true := by
  have hletter : ∀ c ∈ n.plainText, decide (c ≠ 'e') = true := by
    intro c hc
    rcases Numeral.mem_plainText h hc with hdigit | rfl
    · exact decide_eq_true fun heq => absurd (heq ▸ hdigit) (by decide)
    · decide
  have hpoint : ∀ c ∈ n.whole, decide (c ≠ '.') = true :=
    fun c hc => decide_eq_true fun heq => absurd (heq ▸ h.whole_digits c hc) (by decide)
  obtain ⟨c, r, hcons, hc⟩ := exists_plainText_eq_cons h
  have hhead : n.plainText.head? ≠ some '.' := by
    rw [hcons]
    rintro ⟨⟩
    exact absurd hc (by decide)
  have hparts : n.plainText.takeWhile (· ≠ '.') = n.whole ∧
      (n.plainText.dropWhile (· ≠ '.')).tail = n.fraction := by
    unfold Numeral.plainText
    split
    · next hnil =>
      rw [List.takeWhile_eq_self_iff.2 hpoint, List.dropWhile_eq_nil_iff.2 hpoint, hnil]
      exact ⟨rfl, rfl⟩
    · rw [List.takeWhile_append_of_pos hpoint, List.dropWhile_append_of_pos hpoint]
      exact ⟨List.append_nil _, rfl⟩
  unfold isNumeral
  dsimp only
  rw [List.takeWhile_eq_self_iff.2 hletter, List.dropWhile_eq_nil_iff.2 hletter, hparts.1, hparts.2]
  have hwhole := List.all_eq_true.2 h.whole_digits
  have hfraction := List.all_eq_true.2 h.fraction_digits
  simp [hhead, hwhole, hfraction]

/-- A number that is waited for is taken for the value, even if it has a minus sign. -/
theorem read_number {o : ValuedOption} (hno : p.noMoreOptions = false)
    (hwaiting : p.waiting? = some o) (hnegative : o.allowsNegative = true) {negative : Bool}
    {n : Numeral} (hn : n.IsPlain) (hword : word.toList = signText negative ++ n.plainText) :
    p.read word = .ok { p with pending := some (.valued o (some word)) } := by
  have hplain : p.readPlain word = .ok { p with pending := some (.valued o (some word)) } := by
    rw [readPlain, hwaiting, hno]
  obtain ⟨c, r, hcons, hc⟩ := exists_plainText_eq_cons hn
  have hdash : c ≠ '-' := fun heq => absurd (heq ▸ hc) (by decide)
  rw [hcons] at hword
  cases negative with
  | false => rw [read_of_ne_dash hno hword hdash, hplain]
  | true =>
    have htakes : p.takesNegative (c :: r) = true := by
      rw [takesNegative, hwaiting, ← hcons, isNumeral_plainText hn, Bool.and_true]
      exact hnegative
    rw [read_of_dash hno hword hdash, if_pos htakes, hplain]

/-- A length in one argument. -/
theorem gives_argument {value : List Char} (h : readLength (String.ofList value) = .ok y) :
    Gives [setting.argument value] (.length setting y) := by
  intro p q hno hsettle hlacks
  have hassign := ValuedOption.assign_option (hlacks _ rfl) h
  have hread : p.read (setting.argument value) = .ok (q.plus (.length setting y)) := by
    rw [read_argument hno, readValued, hsettle]
    dsimp only
    rw [hassign]
    rfl
  have hpending : q.pending = none := pending_of_settle hsettle
  refine ⟨_, ?_, settle_of_pending hpending⟩
  rw [readAll, hread]
  rfl

/-- The argument that says which length comes next. -/
theorem read_name (hno : p.noMoreOptions = false) (hsettle : p.settle = .ok q) :
    p.read ("--" ++ setting.option.longName) =
      .ok { q with pending := some (.valued setting.option none) } := by
  have hread : p.read ("--" ++ setting.option.longName) =
      p.readLong setting.option.longName.toList := by
    rw [read, hno, String.toList_append]
    cases setting <;> rfl
  have hlong : p.readLong setting.option.longName.toList = p.readValued setting.option none := by
    cases setting <;> rfl
  rw [hread, hlong, readValued, hsettle]

/-- A length in two arguments. -/
theorem gives_arguments {v : Binary64} (hv : v.isFinite = true) :
    Gives ["--" ++ setting.option.longName, scalar v] (.length setting v.unsignedZero) := by
  intro p q hno hsettle hlacks
  obtain ⟨negative, n, hn, hword⟩ := exists_toList_scalar hv
  have hnegative : setting.option.allowsNegative = true := by cases setting <;> rfl
  have hassign := ValuedOption.assign_option (hlacks _ rfl) (readLength_scalar hv)
  have hnumber := read_number
    (p := { q with pending := some (.valued setting.option none) })
    ((noMoreOptions_settle hsettle).trans hno) rfl hnegative hn hword
  refine ⟨{ q with pending := some (.valued setting.option (some (scalar v))) }, ?_, ?_⟩
  · rw [readAll, read_name hno hsettle]
    dsimp only
    rw [readAll, hnumber]
    rfl
  · rw [settle]
    dsimp only
    rw [hassign]
    have hpending : q.pending = none := pending_of_settle hsettle
    rw [plus, hpending]
    rfl

end Progress

/-! ### Printed programs -/

/-- Jobs are those whose programs a run prints of the job that it loads: all of them, or those before
the first that has a fault. -/
def Options.Prints (options : Options) (disks : Disks) (host : Host) (files : FileSystem)
    (s : ProgramSettings) (jobs : List ToolJob) : Prop :=
  ∀ input drill, options.input = some input →
    (DrillJob.load files host input).result = .ok drill → options.toStdout = true →
    ∃ rest, drill.byDiameter = jobs ++ rest ∧
      match (options.run disks host files).outcome.result with
      | .ok _ => rest = []
      | .error error => ∃ job ∈ rest.head?, ∃ fault, fault? s job = some fault ∧
          error = .program fault

/-- A run that does not fail prints the programs of all jobs. -/
theorem Options.Prints.eq_byDiameter {options : Options} {disks : Disks} {host : Host}
    {files : FileSystem} {s : ProgramSettings} {jobs : List ToolJob}
    (h : options.Prints disks host files s jobs) (hstdout : options.toStdout = true) {input : Path}
    {drill : DrillJob} (hinput : options.input = some input)
    (hload : (DrillJob.load files host input).result = .ok drill) {paths : List Path}
    (hrun : (options.run disks host files).outcome.result.toOption = some paths) :
    drill.byDiameter = jobs := by
  obtain ⟨rest, hrest, hend⟩ := h input drill hinput hload hstdout
  cases hresult : (options.run disks host files).outcome.result with
  | error error =>
    rw [hresult] at hrun
    cases hrun
  | ok value =>
    rw [hresult] at hend
    rw [hrest, show rest = [] from hend, List.append_nil]

/-- What is printed with a configuration in effect is the text of some programs of the job that is
loaded. -/
theorem Options.exists_printed_eq {options : Options} {host : Host} {files : FileSystem}
    {c : Configuration} (h : (options.configuration host files).result = .ok c)
    (hprint : options.printConfig = false) (disks : Disks) :
    ∃ jobs : List ToolJob, options.Prints disks host files c.program jobs ∧
      (∀ job ∈ jobs, fault? c.program job = .none) ∧
      (options.run disks host files).printed = String.join (jobs.map (document c.program)) := by
  obtain ⟨hresult, -, hprinted⟩ := run_of_configuration disks h
  rw [hprinted]
  unfold Prints
  rw [hresult, runWith_eq hprint]
  cases hinput : options.input with
  | none => exact ⟨[], by rintro _ _ ⟨⟩, List.forall_mem_nil _, rfl⟩
  | some input =>
    dsimp only
    cases hload : (DrillJob.load files host input).result with
    | error error =>
      refine ⟨[], ?_, List.forall_mem_nil _, rfl⟩
      rintro input' drill ⟨⟩ hdrill
      rw [hload] at hdrill
      cases hdrill
    | ok drill =>
      dsimp only
      cases hstdout : options.toStdout with
      | false => exact ⟨[], by rintro _ _ _ _ ⟨⟩, List.forall_mem_nil _, rfl⟩
      | true =>
        -- Here alone programs are printed, those of the jobs before the first fault.
        obtain ⟨done, rest, hjobs, hdone, htext, hend⟩ :=
          printJobs_spec c.program drill.byDiameter
        refine ⟨done, ?_, hdone, (runToStdout_printed c drill files).trans htext⟩
        rintro input' drill' ⟨⟩ hdrill -
        rw [hload] at hdrill
        cases hdrill
        refine ⟨rest, hjobs, ?_⟩
        rw [if_pos rfl]
        dsimp only [Run.afterEvents, Outcome.afterEvents]
        rw [runToStdout_result]
        cases hprinting : (printJobs c.program drill.byDiameter).result with
        | ok value =>
          rw [hprinting] at hend
          exact hend
        | error fault =>
          rw [hprinting] at hend
          obtain ⟨job, hjob, hfault⟩ := hend
          exact ⟨job, hjob, fault, hfault, rfl⟩

namespace LengthSetting

/-! ### Lengths in effect -/

def value (s : ProgramSettings) : LengthSetting → Binary64
  | safeHeight => s.safeHeight
  | drillDepth => s.drillDepth

theorem value_set (y : Binary64) (s : ProgramSettings) : setting.value (setting.set y s) = y := by
  cases setting <;> rfl

theorem given_give (y : Binary64) (o : Overrides) : setting.given (setting.give y o) = some y := by
  cases setting <;> rfl

theorem less_of_equal {x y z : Binary64} (h : x.equal y = true) : x.less z = y.less z := by
  cases x <;> cases y <;> cases z <;> simp_all [Binary64.equal, Binary64.less]

/-- A depth below zero is a fault of the settings, whatever else is wrong with them. -/
theorem fault?_of_depth_below {s : ProgramSettings} (h : Binary64.less s.drillDepth .zero = true) :
    s.fault? = some (.invalidDrillDepth s.drillDepth) := by
  have hdepth : s.hasDepth = false := by
    rw [ProgramSettings.hasDepth, h, Bool.not_true, Bool.and_false]
  rw [ProgramSettings.fault?, hdepth, if_neg Bool.false_ne_true]

/-- The word of a finite value, given for a length between any arguments, is read as the value,
whether it comes in the argument of its option or after it. The length is then in effect, and if
that is fit for use, the word is in all programs wherever the length is, and so it is in those of the
loaded job that are printed. A depth below zero is refused as such. -/
theorem word_in_effect {v : Binary64} (hv : v.isFinite = true) (setting : LengthSetting) :
    let y := v.unsignedZero
    y.equal v = true ∧
    ∀ given ∈ [[setting.argument (scalar v).toList], ["--" ++ setting.option.longName, scalar v]],
    ∀ before after options, IsBetween before →
      Options.ofArguments (before ++ after) = .ok options → options.has setting.option = false →
    ∃ options', Options.ofArguments (before ++ given ++ after) = .ok options' ∧
      options' = options.withLength setting y ∧ setting.given options'.overrides = some y ∧
      ∀ host files loaded, options.IsLoaded host files loaded →
        let c := loaded.override options'.overrides
        setting.value c.program = y ∧ scalar (setting.value c.program) = scalar v ∧
        (c.validate = .ok () →
          (options'.configuration host files).result = .ok c ∧
          (∀ job text, program c.program job = .ok text →
            heightWords text = jobHeightWords c.program job) ∧
          ∀ disks, options'.printConfig = false → ∃ jobs : List ToolJob,
            options'.Prints disks host files c.program jobs ∧
            (options'.run disks host files).printed = String.join (jobs.map (document c.program)) ∧
            heightWords (options'.run disks host files).printed =
              jobs.flatMap (jobHeightWords c.program)) ∧
        (setting = .drillDepth → Binary64.less v .zero = true →
          Call.IsRefused ⟨before ++ given ++ after, host, files⟩ (.invalidDrillDepth y)) := by
  intro y
  have hequal : y.equal v = true := Binary64.equal_unsignedZero hv
  refine ⟨hequal, fun given hgiven before after options hbefore hparse hhas => ?_⟩
  have hgives : Progress.Gives given (.length setting y) := by
    rcases List.mem_cons.1 hgiven with rfl | hgiven
    · apply Progress.gives_argument
      rw [String.ofList_toList]
      exact readLength_scalar hv
    · rw [List.mem_singleton.1 hgiven]
      exact Progress.gives_arguments hv
  have hlacks : options.Lacks (.length setting y) := by
    rintro o ⟨⟩
    exact hhas
  have harguments := Options.ofArguments_insert hbefore hgives hparse hlacks
  refine ⟨options.withLength setting y, harguments, rfl, given_give _ _, ?_⟩
  intro host files loaded hloaded c
  have hprogram : c.program = setting.set y (loaded.program.override options.overrides) :=
    override_give _ _ _
  have hvalue : setting.value c.program = y := by rw [hprogram, value_set]
  have hsame : (options.withLength setting y).IsLoaded host files loaded := hloaded
  refine ⟨hvalue, ?_, fun hvalid => ?_, fun hdepth hbelow => ?_⟩
  · rw [hvalue]
    exact scalar_eq_of_equal (v.isFinite_unsignedZero.trans hv) hv hequal
  · have hresult := Options.configuration_eq_ok_iff.2 ⟨loaded, hsame, rfl, hvalid⟩
    refine ⟨hresult, fun job text => heightWords_of_program, fun disks hprint => ?_⟩
    obtain ⟨jobs, hprints, hjobs, hprinted⟩ := Options.exists_printed_eq hresult hprint disks
    exact ⟨jobs, hprints, hprinted, by rw [hprinted, heightWords_join hjobs]⟩
  · subst hdepth
    obtain ⟨stated, hstarts, hvalid⟩ := Options.isLoaded_iff.1 hsame
    have hfault : c.program.fault? = some (.invalidDrillDepth y) := by
      have hdepth : c.program.drillDepth = y := hvalue
      rw [← hdepth]
      refine fault?_of_depth_below ?_
      rw [hdepth, less_of_equal hequal, hbelow]
    exact Call.isRefused_of_configuration harguments
      (Options.configuration_of_not_valid_override hstarts hvalid
        (Configuration.validate_eq_error hfault))

/-- Minus two and a half as the height is in the program, and as the depth it is refused. -/
theorem word_in_effect_negative :
    let v : Binary64 :=
      .finite true ⟨0x14000000000000, 1023, by decide, by decide, .inl (by decide)⟩
    let host : Host := ⟨[], 0o022, none, none, none⟩
    let files := FileSystem.empty.insert [utf8 "job"] (.file 0o644 (utf8 "[[0.8, [[[[0.1, 3]]]]]]"))
    let c : Configuration := ⟨⟨100, v, .ofNat 2⟩, ⟨none⟩⟩
    v.isFinite = true ∧ scalar v = "-2.5" ∧
    (∃ options, Options.ofArguments ["job", "--safe-height", "-2.5", "--stdout"] = .ok options ∧
      (options.configuration host files).result = .ok c ∧
      ∃ drill, (DrillJob.load files host (.ofText "job")).result = .ok drill ∧
        heightWords (options.run .sound host files).printed =
          drill.byDiameter.flatMap (jobHeightWords c.program) ∧
        drill.byDiameter.flatMap (jobHeightWords c.program) =
          ["Z-2", "Z-2.5", "Z-2.5"].map String.toList) ∧
    Call.IsRefused ⟨["job", "--drill-depth=-2.5", "--stdout"], host, files⟩
      (.invalidDrillDepth v) := by
  intro v host files c
  let options : Options := { Options.none with input := some (.ofText "job"), toStdout := true }
  have hword : scalar v = "-2.5" := by decide +kernel
  have hbetween : IsBetween ["job"] := ⟨by decide, _, rfl, by decide +kernel⟩
  have hparse : Options.ofArguments (["job"] ++ ["--stdout"]) = .ok options := by decide +kernel
  have hloaded : options.IsLoaded host files .standard := by
    have hsource : Configuration.source? files host options.config = none := by decide +kernel
    unfold Options.IsLoaded
    rw [hsource]
  refine ⟨rfl, hword, ?_, ?_⟩
  · obtain ⟨-, hall⟩ := word_in_effect (v := v) rfl .safeHeight
    obtain ⟨options', harguments, rfl, -, heffect⟩ := hall ["--safe-height", scalar v]
      (List.mem_cons_of_mem _ List.mem_cons_self) ["job"] ["--stdout"] options hbetween hparse rfl
    obtain ⟨-, -, hfit, -⟩ := heffect host files .standard hloaded
    obtain ⟨hresult, -, hprinted⟩ := hfit (by decide +kernel)
    obtain ⟨jobs, hprints, -, hwords⟩ := hprinted .sound rfl
    have hc : Configuration.standard.override
        (options.withLength safeHeight v.unsignedZero).overrides = c := by decide +kernel
    have hrun : ((options.withLength safeHeight v.unsignedZero).run .sound host
        files).outcome.result.toOption = some [] := by decide +kernel
    have hjob : (DrillJob.load files host (.ofText "job")).result.toOption.map
        (fun drill => drill.byDiameter.flatMap (jobHeightWords c.program)) =
          some (["Z-2", "Z-2.5", "Z-2.5"].map String.toList) := by decide +kernel
    rw [hword] at harguments
    rw [hc] at hresult hwords
    refine ⟨_, harguments, hresult, ?_⟩
    cases hload : (DrillJob.load files host (.ofText "job")).result with
    | error error =>
      rw [hload] at hjob
      cases hjob
    | ok drill =>
      have hjobs : drill.byDiameter = jobs := hprints.eq_byDiameter rfl rfl hload hrun
      rw [hload] at hjob
      rw [← hjobs] at hwords
      exact ⟨drill, rfl, hwords, Option.some.inj hjob⟩
  · obtain ⟨-, hall⟩ := word_in_effect (v := v) rfl .drillDepth
    obtain ⟨options', -, -, -, heffect⟩ := hall [drillDepth.argument (scalar v).toList]
      List.mem_cons_self ["job"] ["--stdout"] options hbetween hparse rfl
    obtain ⟨-, -, -, hrefused⟩ := heffect host files .standard hloaded
    have hargument : drillDepth.argument (scalar v).toList = "--drill-depth=-2.5" := by
      decide +kernel
    have hbelow : Binary64.less v .zero = true := by decide +kernel
    rw [hargument] at hrefused
    exact hrefused rfl hbelow

end LengthSetting

end DrillPost

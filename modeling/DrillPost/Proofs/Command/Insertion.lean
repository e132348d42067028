import DrillPost.Proofs.Command.LengthArgument

/-!
# One option more

An option can be put between other arguments wherever none of them waits for a value and two dashes
have not come yet (`IsBetween`). The command line then asks for the same and for what the option
adds, unless it asks for that option already (`Options.ofArguments_insert`).

Two facts make up the proof. What is pending when the option comes is looked at earlier than without
it, which makes no difference to the arguments that follow (`Progress.conclude_settle`). And these
are read alike whether there is something more or not (`Progress.Passes`).
-/

namespace DrillPost

/-! ### Additions -/

/-- What an option adds to what is asked for. -/
inductive Addition where
  | output (path : Path)
  | config (path : Path)
  | spindlePower (power : UInt32)
  | length (setting : LengthSetting) (x : Binary64)
  | detail

/-- The option that can be given only once. -/
def Addition.option? : Addition → Option ValuedOption
  | .output _ => some .output
  | .config _ => some .config
  | .spindlePower _ => some .spindlePower
  | .length setting _ => some setting.option
  | .detail => none

namespace Options

def plus (options : Options) : Addition → Options
  | .output path => { options with output := some path }
  | .config path => { options with config := some path }
  | .spindlePower power =>
    { options with overrides := { options.overrides with spindlePower := some power } }
  | .length setting x => options.withLength setting x
  | .detail => { options with verbosity := min maxVerbosity (options.verbosity + 1) }

/-- There is room for what an option adds. -/
def Lacks (options : Options) (a : Addition) : Prop := ∀ o ∈ a.option?, options.has o = false

variable {a b : Addition} {options : Options}

theorem has_plus (options : Options) (a : Addition) (o : ValuedOption) :
    (options.plus a).has o = (options.has o || a.option? == some o) := by
  cases a with
  | output | config | spindlePower => cases o <;> simp [plus, has, Addition.option?]
  | length setting x =>
    cases setting <;> cases o <;>
      simp [plus, has, Addition.option?, withLength, LengthSetting.give, LengthSetting.option]
  | detail => exact (Bool.or_false _).symm

@[simp]
theorem input_plus (options : Options) (a : Addition) : (options.plus a).input = options.input := by
  cases a <;> rfl

@[simp]
theorem toStdout_plus (options : Options) (a : Addition) :
    (options.plus a).toStdout = options.toStdout := by
  cases a <;> rfl

@[simp]
theorem printConfig_plus (options : Options) (a : Addition) :
    (options.plus a).printConfig = options.printConfig := by
  cases a <;> rfl

/-- The job is named independently of the options, and so are the switches thrown. -/
theorem plus_input (options : Options) (a : Addition) (path : Path) :
    ({ options with input := some path } : Options).plus a =
      { options.plus a with input := some path } := by
  cases a with
  | length setting x => cases setting <;> rfl
  | _ => rfl

theorem plus_toStdout (options : Options) (a : Addition) :
    ({ options with toStdout := true } : Options).plus a =
      { options.plus a with toStdout := true } := by
  cases a with
  | length setting x => cases setting <;> rfl
  | _ => rfl

theorem plus_printConfig (options : Options) (a : Addition) :
    ({ options with printConfig := true } : Options).plus a =
      { options.plus a with printConfig := true } := by
  cases a with
  | length setting x => cases setting <;> rfl
  | _ => rfl

/-- In which order two options are given makes no difference. -/
theorem plus_plus (h : ∀ o ∈ a.option?, b.option? ≠ some o) :
    (options.plus a).plus b = (options.plus b).plus a := by
  cases a with
  | detail => cases b <;> rfl
  | output | config | spindlePower =>
    have hne := h _ rfl
    cases b with
    | length setting x => cases setting <;> rfl
    | _ => first | rfl | exact absurd rfl hne
  | length setting x =>
    have hne := h _ rfl
    cases b with
    | length setting' y => cases setting <;> cases setting' <;> first | exact absurd rfl hne | rfl
    | _ => cases setting <;> rfl

end Options

namespace ValuedOption

variable {o : ValuedOption} {s : String} {options next : Options} {a : Addition}

/-- What an option adds with a value. -/
def addition (o : ValuedOption) (s : String) : Except UsageError Addition :=
  match o with
  | .output => (readPath o.label s).map .output
  | .config => (readPath o.label s).map .config
  | .spindlePower => (o.checked s (readPower s)).map .spindlePower
  | .safeHeight => (o.checked s (readLength s)).map (.length .safeHeight)
  | .drillDepth => (o.checked s (readLength s)).map (.length .drillDepth)

theorem option?_of_addition (h : o.addition s = .ok a) : a.option? = some o := by
  unfold addition at h
  cases o <;>
  · obtain ⟨value, -, rfl⟩ := exists_of_map_eq_ok h
    rfl

theorem assign_eq (o : ValuedOption) (s : String) (options : Options) :
    o.assign s options =
      if options.has o then .error (.repeated o.label) else (o.addition s).map options.plus := by
  unfold assign
  cases o with
  | output | config =>
    dsimp only [addition]
    generalize readPath _ s = path
    cases path <;> rfl
  | spindlePower =>
    dsimp only [addition]
    generalize checked _ s _ = power
    cases power <;> rfl
  | safeHeight | drillDepth =>
    dsimp only [addition]
    generalize checked _ s _ = length
    cases length <;> rfl

theorem assign_eq_ok_iff :
    o.assign s options = .ok next ↔
      options.has o = false ∧ ∃ a, o.addition s = .ok a ∧ next = options.plus a := by
  rw [assign_eq]
  cases options.has o with
  | true => simp
  | false =>
    cases o.addition s with
    | error e => simp [Except.map]
    | ok a => simp [Except.map, eq_comm]

/-- Options that differ are given independently of each other. -/
theorem assign_plus (h : o.assign s options = .ok next) (hlacks : next.Lacks a) :
    options.Lacks a ∧ o.assign s (options.plus a) = .ok (next.plus a) := by
  obtain ⟨hhas, b, hb, rfl⟩ := assign_eq_ok_iff.1 h
  have hoption := option?_of_addition hb
  have hlacks : ∀ other ∈ a.option?, options.has other = false ∧ b.option? ≠ some other := by
    intro other hother
    have hnot := hlacks other hother
    rwa [Options.has_plus, Bool.or_eq_false_iff, beq_eq_false_iff_ne] at hnot
  have hdiffers : a.option? ≠ some o := fun heq => (hlacks o heq).2 hoption
  refine ⟨fun other hother => (hlacks other hother).1, assign_eq_ok_iff.2 ⟨?_, b, hb, ?_⟩⟩
  · rw [Options.has_plus, hhas, Bool.false_or, beq_eq_false_iff_ne]
    exact hdiffers
  · exact (Options.plus_plus fun other hother => (hlacks other hother).2).symm

theorem input_of_assign (h : o.assign s options = .ok next) : next.input = options.input := by
  obtain ⟨-, a, -, rfl⟩ := assign_eq_ok_iff.1 h
  cases a <;> rfl

end ValuedOption

namespace Progress

variable {ε : Type} {p q r : Progress} {a : Addition} {options : Options}

/-! ### Looking at what is pending early -/

theorem settle_cases (h : p.settle = .ok q) :
    (p.pending = none ∧ q = p) ∨
    (∃ o s options, p.pending = some (.valued o (some s)) ∧ o.assign s p.options = .ok options ∧
      q = { p with options, pending := none }) ∨
    ∃ s path, p.pending = some (.input s) ∧ readPath inputLabel s = .ok path ∧
      q = { p with options := { p.options with input := some path }, pending := none } := by
  unfold settle at h
  split at h
  · next hnone => exact .inl ⟨hnone, (Except.ok.inj h).symm⟩
  · cases h
  · next o s hpending =>
    obtain ⟨options, hassign, rfl⟩ := exists_of_map_eq_ok h
    exact .inr (.inl ⟨o, s, options, hpending, hassign, rfl⟩)
  · next s hpending =>
    obtain ⟨path, hpath, rfl⟩ := exists_of_map_eq_ok h
    exact .inr (.inr ⟨s, path, hpending, hpath, rfl⟩)

theorem settle_of_pending (h : p.pending = none) : p.settle = .ok p := by rw [settle, h]

theorem pending_of_settle (h : p.settle = .ok q) : q.pending = none := by
  rcases settle_cases h with ⟨hnone, rfl⟩ | ⟨o, s, options, -, -, rfl⟩ | ⟨s, path, -, -, rfl⟩
  · exact hnone
  · rfl
  · rfl

theorem settle_settle (h : p.settle = .ok q) : q.settle = .ok q :=
  settle_of_pending (pending_of_settle h)

theorem waiting?_of_settle (h : p.settle = .ok q) : p.waiting? = none := by
  unfold waiting?
  rcases settle_cases h with ⟨hnone, -⟩ | ⟨o, s, options, hpending, -⟩ | ⟨s, path, hpending, -⟩
  · rw [hnone]
  · rw [hpending]
  · rw [hpending]

theorem hasInput_of_settle (h : p.settle = .ok q) : q.hasInput = p.hasInput := by
  unfold hasInput
  rcases settle_cases h with ⟨-, rfl⟩ | ⟨o, s, options, hpending, hassign, rfl⟩ |
    ⟨s, path, hpending, -, rfl⟩
  · rfl
  · rw [hpending, ValuedOption.input_of_assign hassign]
  · rw [hpending]
    exact (Bool.or_true _).symm

theorem settle_noMoreOptions (p : Progress) (b : Bool) :
    ({ p with noMoreOptions := b } : Progress).settle =
      p.settle.map fun q => { q with noMoreOptions := b } := by
  obtain ⟨options, pending, noMoreOptions⟩ := p
  match pending with
  | none => rfl
  | some (.valued o none) => rfl
  | some (.valued o (some s)) =>
    simp only [settle]
    cases o.assign s options <;> rfl
  | some (.input s) =>
    simp only [settle]
    cases readPath inputLabel s <;> rfl

/-- What the arguments from some point on make of what has been read before them. -/
def conclude (p : Progress) (arguments : List String) : Except Notice Options :=
  match p.readAll arguments with
  | .error e => .error e
  | .ok q => q.finish

theorem conclude_cons (p : Progress) (s : String) (rest : List String) :
    p.conclude (s :: rest) =
      match p.read s with
      | .error e => .error e
      | .ok q => q.conclude rest := by
  rw [conclude, readAll]
  cases p.read s <;> rfl

theorem conclude_append {first : List String} (h : p.readAll first = .ok q) (rest : List String) :
    p.conclude (first ++ rest) = q.conclude rest := by
  rw [conclude, readAll_append, h]
  rfl

/-- Two dashes leave what is pending as it is. -/
theorem read_dashes (h : p.noMoreOptions = false) :
    p.read "--" = .ok { p with noMoreOptions := true } := by
  rw [read, h]
  rfl

theorem eq_dashes {s : String} (h : ¬ (p.noMoreOptions = true ∨ s ≠ "--")) :
    p.noMoreOptions = false ∧ s = "--" :=
  ⟨Bool.eq_false_iff.2 fun hno => h (.inl hno), not_not.1 fun hs => h (.inr hs)⟩

section Settled

variable (h : p.settle = .ok q)
include h

theorem throwSwitch_settle (s : Switch) (isLong : Bool) :
    p.throwSwitch s isLong = q.throwSwitch s isLong := by
  rw [throwSwitch, throwSwitch, h, settle_settle h]

theorem readValued_settle (o : ValuedOption) (attached : Option (List Char)) :
    p.readValued o attached = q.readValued o attached := by
  rw [readValued, readValued, h, settle_settle h]

theorem readPlain_settle (s : String) : p.readPlain s = q.readPlain s := by
  rw [readPlain, readPlain, waiting?_of_settle h, waiting?_of_settle (settle_settle h),
    hasInput_of_settle h, h, settle_settle h]

theorem readLong_settle (s : List Char) : p.readLong s = q.readLong s := by
  unfold readLong
  dsimp only
  split
  · rfl
  · exact readValued_settle h _ _
  · exact throwSwitch_settle h _ _
  · rfl

theorem readLetters_settle (c : Char) (s : List Char) :
    p.readLetters (c :: s) = q.readLetters (c :: s) := by
  unfold readLetters
  split
  · rfl
  · exact readValued_settle h _ _
  · rw [throwSwitch_settle h]

/-- Everything but two dashes begins with a look at what is pending. -/
theorem read_settle {s : String} (hs : p.noMoreOptions = true ∨ s ≠ "--") :
    p.read s = q.read s := by
  have htakes : ∀ s, p.takesNegative s = q.takesNegative s := fun s => by
    rw [takesNegative, takesNegative, waiting?_of_settle h, waiting?_of_settle (settle_settle h)]
  unfold read
  rw [noMoreOptions_settle h, readPlain_settle h]
  split
  · rfl
  · next hno =>
    split
    · next hdashes =>
      rcases hs with hs | hs
      · exact absurd hs hno
      · exact absurd (String.toList_inj.1 (hdashes.trans (by decide))) hs
    · exact readLong_settle h _
    · rw [htakes, readLetters_settle h]
    · rfl

end Settled

/-- A look at what is pending makes no difference to the arguments that follow. -/
theorem conclude_settle (h : p.settle = .ok q) (arguments : List String) :
    p.conclude arguments = q.conclude arguments := by
  induction arguments generalizing p q with
  | nil =>
    show p.finish = q.finish
    rw [finish, finish, h, settle_settle h]
  | cons s rest ih =>
    rw [conclude_cons, conclude_cons]
    by_cases hs : p.noMoreOptions = true ∨ s ≠ "--"
    · rw [read_settle h hs]
    · obtain ⟨hno, rfl⟩ := eq_dashes hs
      rw [read_dashes hno, read_dashes ((noMoreOptions_settle h).trans hno)]
      refine ih ?_
      rw [settle_noMoreOptions, h]
      rfl

section Unsettled

variable {e : UsageError} (h : p.settle = .error e)
include h

theorem throwSwitch_eq_error (s : Switch) (isLong : Bool) :
    p.throwSwitch s isLong = .error (.usage e) := by
  rw [throwSwitch, h]

theorem readValued_eq_error (o : ValuedOption) (attached : Option (List Char)) :
    p.readValued o attached = .error (.usage e) := by
  rw [readValued, h]

theorem exists_readLong_eq_error (s : List Char) : ∃ notice, p.readLong s = .error notice := by
  unfold readLong
  dsimp only
  split
  · exact ⟨_, rfl⟩
  · exact ⟨_, readValued_eq_error h _ _⟩
  · exact ⟨_, throwSwitch_eq_error h _ _⟩
  · exact ⟨_, rfl⟩

theorem exists_readLetters_eq_error (c : Char) (s : List Char) :
    ∃ notice, p.readLetters (c :: s) = .error notice := by
  unfold readLetters
  split
  · exact ⟨_, rfl⟩
  · exact ⟨_, readValued_eq_error h _ _⟩
  · rw [throwSwitch_eq_error h]
    exact ⟨_, rfl⟩

/-- Where something pending is wrong, the next argument cannot be read, unless it is what an option
waits for. -/
theorem exists_read_eq_error (hwaiting : p.waiting? = none) {s : String}
    (hs : p.noMoreOptions = true ∨ s ≠ "--") : ∃ notice, p.read s = .error notice := by
  have hplain : ∃ notice, p.readPlain s = .error notice := by
    rw [readPlain, hwaiting, h]
    dsimp only
    split
    · exact ⟨_, rfl⟩
    · exact ⟨_, rfl⟩
  unfold read
  split
  · exact hplain
  · next hno =>
    split
    · next hdashes =>
      exact hs.elim (absurd · hno) fun hs =>
        absurd (String.toList_inj.1 (hdashes.trans (by decide))) hs
    · exact exists_readLong_eq_error h _
    · split
      · exact hplain
      · exact exists_readLetters_eq_error h _ _
    · exact hplain

end Unsettled

/-- Unless an option waits, arguments that can be read leave nothing wrong behind. -/
theorem exists_settle_of_conclude {arguments : List String} (hwaiting : p.waiting? = none)
    (h : p.conclude arguments = .ok options) : ∃ settled, p.settle = .ok settled := by
  induction arguments generalizing p with
  | nil =>
    cases hsettle : p.settle with
    | ok settled => exact ⟨settled, rfl⟩
    | error e =>
      change p.finish = .ok options at h
      rw [finish, hsettle] at h
      cases h
  | cons s rest ih =>
    rw [conclude_cons] at h
    by_cases hs : p.noMoreOptions = true ∨ s ≠ "--"
    · cases hsettle : p.settle with
      | ok settled => exact ⟨settled, rfl⟩
      | error e =>
        obtain ⟨notice, hread⟩ := exists_read_eq_error hsettle hwaiting hs
        rw [hread] at h
        cases h
    · obtain ⟨hno, rfl⟩ := eq_dashes hs
      rw [read_dashes hno] at h
      obtain ⟨settled, hsettled⟩ := ih (p := { p with noMoreOptions := true }) hwaiting h
      rw [settle_noMoreOptions] at hsettled
      obtain ⟨q, hq, -⟩ := exists_of_map_eq_ok hsettled
      exact ⟨q, hq⟩

/-! ### Reading with something more -/

def plus (p : Progress) (a : Addition) : Progress := { p with options := p.options.plus a }

/-- A step that is taken where there is room for an option is taken alike with that option. -/
def Passes (a : Addition) (step : Progress → Except ε Progress) : Prop :=
  ∀ p q, step p = .ok q → q.options.Lacks a →
    p.options.Lacks a ∧ step (p.plus a) = .ok (q.plus a)

theorem passes_settle (a : Addition) : Passes a settle := by
  intro p q h hlacks
  rcases settle_cases h with ⟨hnone, rfl⟩ | ⟨o, s, options, hpending, hassign, rfl⟩ |
    ⟨s, path, hpending, hpath, rfl⟩
  · exact ⟨hlacks, settle_of_pending hnone⟩
  · obtain ⟨hbefore, hplus⟩ := ValuedOption.assign_plus hassign hlacks
    refine ⟨hbefore, ?_⟩
    rw [settle, plus, hpending]
    dsimp only
    rw [hplus]
    rfl
  · refine ⟨hlacks, ?_⟩
    rw [settle, plus, hpending]
    dsimp only
    rw [hpath, plus]
    dsimp only
    rw [Options.plus_input]
    rfl

/-- What comes after a look at what is pending. -/
theorem Passes.afterSettle {next : Progress → Except Notice Progress} (hnext : Passes a next) :
    Passes a fun p =>
      match p.settle with
      | .error e => .error (.usage e)
      | .ok q => next q := by
  intro p q h hlacks
  dsimp only at h ⊢
  cases hsettle : p.settle with
  | error e =>
    rw [hsettle] at h
    cases h
  | ok settled =>
    rw [hsettle] at h
    obtain ⟨hbefore, hplus⟩ := hnext settled q h hlacks
    obtain ⟨hlacks, hsettled⟩ := passes_settle a p settled hsettle hbefore
    rw [hsettled]
    exact ⟨hlacks, hplus⟩

theorem passes_throwSwitch (a : Addition) (s : Switch) (isLong : Bool) :
    Passes a (throwSwitch s isLong) := by
  refine Passes.afterSettle fun p q h hlacks => ?_
  cases s with
  | help | version => cases h
  | verbose =>
    cases h
    -- The switch is an addition itself.
    have hplus : (p.options.plus .detail).plus a = (p.options.plus a).plus .detail :=
      Options.plus_plus nofun
    exact ⟨hlacks, congrArg (fun options => Except.ok { p with options }) hplus.symm⟩
  | stdout =>
    dsimp only at h ⊢
    split_ifs at h with hthrown
    cases h
    refine ⟨hlacks, ?_⟩
    rw [plus, Options.toStdout_plus, if_neg hthrown, plus]
    dsimp only
    rw [Options.plus_toStdout]
  | printConfig =>
    dsimp only at h ⊢
    split_ifs at h with hthrown
    cases h
    refine ⟨hlacks, ?_⟩
    rw [plus, Options.printConfig_plus, if_neg hthrown, plus]
    dsimp only
    rw [Options.plus_printConfig]

theorem passes_readValued (a : Addition) (o : ValuedOption) (attached : Option (List Char)) :
    Passes a (readValued o attached) := by
  refine Passes.afterSettle fun p q h hlacks => ?_
  cases attached with
  | none =>
    cases h
    exact ⟨hlacks, rfl⟩
  | some value =>
    dsimp only at h ⊢
    cases hassign : o.assign (String.ofList value) p.options with
    | error e =>
      rw [hassign] at h
      cases h
    | ok options =>
      rw [hassign] at h
      cases h
      obtain ⟨hbefore, hplus⟩ := ValuedOption.assign_plus hassign hlacks
      refine ⟨hbefore, ?_⟩
      rw [plus, hplus]
      rfl

theorem passes_readLong (a : Addition) (s : List Char) : Passes a (readLong s) := by
  intro p q h hlacks
  unfold readLong at h ⊢
  dsimp only at h ⊢
  split at h
  · cases h
  · exact passes_readValued a _ _ p q h hlacks
  · exact passes_throwSwitch a _ _ p q h hlacks
  · cases h

theorem passes_readLetters (a : Addition) (s : List Char) : Passes a (readLetters s) := by
  induction s with
  | nil =>
    intro p q h hlacks
    cases h
    exact ⟨hlacks, rfl⟩
  | cons c s ih =>
    intro p q h hlacks
    unfold readLetters at h ⊢
    split at h
    · cases h
    · exact passes_readValued a _ _ p q h hlacks
    · next switch _ =>
      cases hthrow : p.throwSwitch switch false with
      | error e =>
        rw [hthrow] at h
        cases h
      | ok thrown =>
        rw [hthrow] at h
        obtain ⟨hbefore, hplus⟩ := ih thrown q h hlacks
        obtain ⟨hlacks, hthrown⟩ := passes_throwSwitch a _ _ p thrown hthrow hbefore
        rw [hthrown]
        exact ⟨hlacks, hplus⟩

theorem hasInput_plus (p : Progress) (a : Addition) : (p.plus a).hasInput = p.hasInput := by
  rw [hasInput, plus, Options.input_plus]
  rfl

theorem passes_readPlain (a : Addition) (s : String) : Passes a (readPlain s) := by
  intro p q h hlacks
  unfold readPlain at h ⊢
  rw [hasInput_plus]
  have hwaiting : (p.plus a).waiting? = p.waiting? := rfl
  have hdashes : (p.plus a).noMoreOptions = p.noMoreOptions := rfl
  rw [hwaiting, hdashes]
  split at h
  · cases h
    exact ⟨hlacks, rfl⟩
  · split_ifs at h with hinput
    rw [if_neg hinput]
    have hpend : Passes a fun q : Progress =>
        (.ok { q with pending := some (.input s) } : Except Notice Progress) := by
      intro p q h hlacks
      cases h
      exact ⟨hlacks, rfl⟩
    exact hpend.afterSettle p q h hlacks

theorem passes_read (a : Addition) (s : String) : Passes a (read s) := by
  intro p q h hlacks
  have hdashes : (p.plus a).noMoreOptions = p.noMoreOptions := rfl
  have htakes : ∀ s, (p.plus a).takesNegative s = p.takesNegative s := fun _ => rfl
  unfold read at h ⊢
  rw [hdashes]
  by_cases hno : p.noMoreOptions = true
  · rw [if_pos hno] at h ⊢
    exact passes_readPlain a s p q h hlacks
  · rw [if_neg hno] at h ⊢
    split at h
    · cases h
      exact ⟨hlacks, rfl⟩
    · exact passes_readLong a _ p q h hlacks
    · next c r _ _ _ =>
      rw [htakes]
      by_cases htake : p.takesNegative (c :: r) = true
      · rw [if_pos htake] at h ⊢
        exact passes_readPlain a s p q h hlacks
      · rw [if_neg htake] at h ⊢
        exact passes_readLetters a _ p q h hlacks
    · exact passes_readPlain a s p q h hlacks

theorem passes_readAll (a : Addition) (arguments : List String) :
    Passes a (readAll arguments) := by
  induction arguments with
  | nil =>
    intro p q h hlacks
    cases h
    exact ⟨hlacks, rfl⟩
  | cons s rest ih =>
    intro p q h hlacks
    unfold readAll at h ⊢
    cases hread : p.read s with
    | error e =>
      rw [hread] at h
      cases h
    | ok next =>
      rw [hread] at h
      obtain ⟨hbefore, hplus⟩ := ih next q h hlacks
      obtain ⟨hlacks, hnext⟩ := passes_read a s p next hread hbefore
      rw [hnext]
      exact ⟨hlacks, hplus⟩

/-- Arguments that leave room for an option ask for the same with it, and for what it adds. -/
theorem conclude_plus {arguments : List String} (h : p.conclude arguments = .ok options)
    (hlacks : options.Lacks a) :
    p.options.Lacks a ∧ (p.plus a).conclude arguments = .ok (options.plus a) := by
  unfold conclude at h ⊢
  cases hread : p.readAll arguments with
  | error e =>
    rw [hread] at h
    cases h
  | ok q =>
    rw [hread] at h
    dsimp only at h
    unfold finish at h
    cases hsettle : q.settle with
    | error e =>
      rw [hsettle] at h
      cases h
    | ok last =>
      rw [hsettle] at h
      dsimp only at h
      split_ifs at h with hmissing
      cases h
      obtain ⟨hq, hplus⟩ := passes_settle a q last hsettle hlacks
      obtain ⟨hp, hread⟩ := passes_readAll a arguments p q hread hq
      rw [hread]
      dsimp only
      rw [finish, hplus, plus]
      dsimp only
      rw [Options.input_plus, Options.printConfig_plus, if_neg hmissing]
      exact ⟨hp, rfl⟩

/-! ### The option -/

theorem read_of_ne_dash {word : String} (hno : p.noMoreOptions = false) {c : Char} {r : List Char}
    (hword : word.toList = c :: r) (hc : c ≠ '-') : p.read word = p.readPlain word := by
  unfold read
  rw [hno, if_neg Bool.false_ne_true, hword]
  split
  · next heq => exact absurd (List.cons.inj heq).1 hc
  · next heq => exact absurd (List.cons.inj heq).1 hc
  · next heq => exact absurd (List.cons.inj heq).1 hc
  · rfl

theorem read_of_dash {word : String} (hno : p.noMoreOptions = false) {c : Char} {r : List Char}
    (hword : word.toList = '-' :: c :: r) (hc : c ≠ '-') :
    p.read word =
      if p.takesNegative (c :: r) then p.readPlain word else p.readLetters (c :: r) := by
  unfold read
  rw [hno, if_neg Bool.false_ne_true, hword]
  split
  · next heq => exact absurd (List.cons.inj (List.cons.inj heq).2).1 hc
  · next heq => exact absurd (List.cons.inj (List.cons.inj heq).2).1 hc
  · next heq =>
    obtain ⟨rfl, rfl⟩ := List.cons.inj (List.cons.inj heq).2
    rfl
  · next hother => exact absurd rfl (hother c r)

/-- The arguments are an option, and add something where there is room for it. -/
def Gives (given : List String) (a : Addition) : Prop :=
  ∀ p q : Progress, p.noMoreOptions = false → p.settle = .ok q → q.options.Lacks a →
    ∃ r, p.readAll given = .ok r ∧ r.settle = .ok (q.plus a)

theorem gives_detail {flag : String} (h : flag = "-v" ∨ flag = "--verbose") :
    Gives [flag] .detail := by
  intro p q hno hsettle _
  have hread : p.read flag = .ok (q.plus .detail) := by
    rcases h with rfl | rfl
    · have htakes : p.takesNegative ['v'] = false := by
        rw [takesNegative, waiting?_of_settle hsettle]
        rfl
      have hoption : OptionName.ofLetter? 'v' = some (.switch .verbose) := by decide
      have hread : p.read "-v" =
          if p.takesNegative ['v'] then p.readPlain "-v" else p.readLetters ['v'] :=
        read_of_dash hno rfl (by decide)
      rw [hread, htakes, if_neg Bool.false_ne_true, readLetters, hoption]
      dsimp only
      rw [throwSwitch, hsettle]
      rfl
    · have hlong : p.read "--verbose" = p.readLong "verbose".toList := by
        rw [read, hno]
        rfl
      have hswitch : p.readLong "verbose".toList = p.throwSwitch .verbose true := rfl
      rw [hlong, hswitch, throwSwitch, hsettle]
      rfl
  have hpending : q.pending = none := pending_of_settle hsettle
  refine ⟨q.plus .detail, ?_, settle_of_pending hpending⟩
  rw [readAll, hread]
  rfl

end Progress

/-- After these arguments no option waits for its value, and another option can follow. -/
def IsBetween (before : List String) : Prop :=
  "--" ∉ before ∧ ∃ p, Progress.start.readAll before = .ok p ∧ p.waiting? = none

/-- An option that has not been given can be put between any arguments, and adds to what they ask
for. -/
theorem Options.ofArguments_insert {before given after : List String} {a : Addition}
    {options : Options} (hbefore : IsBetween before) (hgiven : Progress.Gives given a)
    (h : ofArguments (before ++ after) = .ok options) (hlacks : options.Lacks a) :
    ofArguments (before ++ given ++ after) = .ok (options.plus a) := by
  obtain ⟨hdashes, p, hp, hwaiting⟩ := hbefore
  have hno : p.noMoreOptions = false := Progress.noMoreOptions_readAll hp hdashes
  have hrest : p.conclude after = .ok options := (Progress.conclude_append hp after).symm.trans h
  obtain ⟨q, hq⟩ := Progress.exists_settle_of_conclude hwaiting hrest
  rw [Progress.conclude_settle hq] at hrest
  obtain ⟨hqlacks, hplus⟩ := Progress.conclude_plus hrest hlacks
  obtain ⟨r, hr, hsettle⟩ := hgiven p q hno hq hqlacks
  rw [List.append_assoc]
  show Progress.start.conclude _ = _
  rw [Progress.conclude_append hp, Progress.conclude_append hr, Progress.conclude_settle hsettle,
    hplus]

end DrillPost

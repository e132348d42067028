import DrillPost.Command.Arguments
import DrillPost.Proofs.Settings.Lengths

/-!
# Lengths among arguments

A length can be given in one argument, which holds the name of its option and its value. What the
other arguments mean does not depend on the value: if a command line can be read with one value that
is read as a length, then it can be read with any other, and asks for the same but for the length
(`Options.ofArguments_argument`).

This comes down to a step of the reading, which looks at what has been given no further than to see
that it has been given (`Progress.Ignores`).
-/

namespace DrillPost

variable {setting : LengthSetting}

/-- The options with a length given by them. -/
def Options.withLength (options : Options) (setting : LengthSetting) (x : Binary64) : Options :=
  { options with overrides := setting.give x options.overrides }

/-- Options that give a length take every other value as they do whatever the length is. -/
theorem ValuedOption.assign_withLength (o : ValuedOption) (s : String) (options : Options)
    (setting : LengthSetting) (x y : Binary64) :
    o.assign s (options.withLength setting y) =
      (o.assign s (options.withLength setting x)).map (·.withLength setting y) := by
  have hhas : (options.withLength setting y).has o = (options.withLength setting x).has o := by
    cases setting <;> cases o <;> rfl
  unfold assign
  rw [hhas]
  split_ifs with hgiven
  · rfl
  · cases o with
    | output | config =>
      dsimp only
      generalize readPath _ s = path
      cases path <;> cases setting <;> rfl
    | spindlePower =>
      dsimp only
      generalize checked _ s _ = power
      cases power <;> cases setting <;> rfl
    | safeHeight =>
      dsimp only
      generalize checked _ s _ = height
      cases setting with
      | safeHeight => exact absurd rfl hgiven
      | drillDepth => cases height <;> rfl
    | drillDepth =>
      dsimp only
      generalize checked _ s _ = depth
      cases setting with
      | safeHeight => cases depth <;> rfl
      | drillDepth => exact absurd rfl hgiven

/-! ### Steps -/

namespace Progress

variable {ε : Type}

def withLength (p : Progress) (setting : LengthSetting) (x : Binary64) : Progress :=
  { p with options := p.options.withLength setting x }

/-- What a step does does not depend on the value of a length that has been given. -/
def Ignores (setting : LengthSetting) (step : Progress → Except ε Progress) : Prop :=
  ∀ p : Progress, (∃ e, ∀ x, step (p.withLength setting x) = .error e) ∨
    ∃ q : Progress, ∀ x, step (p.withLength setting x) = .ok (q.withLength setting x)

theorem ignores_settle (setting : LengthSetting) : Ignores setting settle := by
  rintro ⟨options, pending, noMoreOptions⟩
  match pending with
  | none => exact .inr ⟨_, fun x => rfl⟩
  | some (.valued o none) => exact .inl ⟨_, fun x => rfl⟩
  | some (.valued o (some s)) =>
    have hassign := o.assign_withLength s options setting .zero
    cases hresult : o.assign s (options.withLength setting .zero) with
    | error e =>
      refine .inl ⟨e, fun x => ?_⟩
      show (o.assign s (options.withLength setting x)).map _ = _
      rw [hassign x, hresult]
      rfl
    | ok next =>
      refine .inr ⟨⟨next, none, noMoreOptions⟩, fun x => ?_⟩
      show (o.assign s (options.withLength setting x)).map _ = _
      rw [hassign x, hresult]
      rfl
  | some (.input s) =>
    cases hresult : readPath inputLabel s with
    | error e =>
      refine .inl ⟨e, fun x => ?_⟩
      show (readPath inputLabel s).map _ = _
      rw [hresult]
      rfl
    | ok path =>
      refine .inr ⟨⟨{ options with input := some path }, none, noMoreOptions⟩, fun x => ?_⟩
      show (readPath inputLabel s).map _ = _
      rw [hresult]
      rfl

theorem ignores_throwSwitch (setting : LengthSetting) (s : Switch) (isLong : Bool) :
    Ignores setting (throwSwitch s isLong) := by
  intro p
  unfold throwSwitch
  rcases ignores_settle setting p with ⟨e, he⟩ | ⟨q, hq⟩
  · exact .inl ⟨.usage e, fun x => by rw [he]⟩
  · simp only [hq]
    cases s with
    | help | version => exact .inl ⟨_, fun x => rfl⟩
    | verbose =>
      let verbosity := min Options.maxVerbosity (q.options.verbosity + 1)
      exact .inr ⟨{ q with options.verbosity := verbosity }, fun x => rfl⟩
    | stdout =>
      by_cases hthrown : q.options.toStdout = true
      · exact .inl ⟨_, fun x => if_pos hthrown⟩
      · exact .inr ⟨{ q with options.toStdout := true }, fun x => if_neg hthrown⟩
    | printConfig =>
      by_cases hthrown : q.options.printConfig = true
      · exact .inl ⟨_, fun x => if_pos hthrown⟩
      · exact .inr ⟨{ q with options.printConfig := true }, fun x => if_neg hthrown⟩

theorem ignores_readValued (setting : LengthSetting) (o : ValuedOption)
    (attached : Option (List Char)) : Ignores setting (readValued o attached) := by
  intro p
  unfold readValued
  rcases ignores_settle setting p with ⟨e, he⟩ | ⟨q, hq⟩
  · exact .inl ⟨.usage e, fun x => by rw [he]⟩
  · simp only [hq]
    cases attached with
    | none => exact .inr ⟨{ q with pending := some (.valued o none) }, fun x => rfl⟩
    | some value =>
      have hassign := o.assign_withLength (String.ofList value) q.options setting .zero
      dsimp only [withLength]
      cases hresult : o.assign (String.ofList value) (q.options.withLength setting .zero) with
      | error e =>
        refine .inl ⟨.usage e, fun x => ?_⟩
        rw [hassign x, hresult]
        rfl
      | ok next =>
        refine .inr ⟨{ q with options := next }, fun x => ?_⟩
        rw [hassign x, hresult]
        rfl

theorem ignores_readLong (setting : LengthSetting) (s : List Char) :
    Ignores setting (readLong s) := by
  intro p
  unfold readLong
  dsimp only
  split
  · exact .inl ⟨_, fun x => rfl⟩
  · exact ignores_readValued setting _ _ p
  · exact ignores_throwSwitch setting _ _ p
  · exact .inl ⟨_, fun x => rfl⟩

theorem ignores_readLetters (setting : LengthSetting) (s : List Char) :
    Ignores setting (readLetters s) := by
  induction s with
  | nil => exact fun p => .inr ⟨p, fun x => rfl⟩
  | cons c s ih =>
    intro p
    simp only [readLetters]
    split
    · exact .inl ⟨_, fun x => rfl⟩
    · exact ignores_readValued setting _ _ p
    · next switch _ =>
      rcases ignores_throwSwitch setting switch false p with ⟨e, he⟩ | ⟨q, hq⟩
      · exact .inl ⟨e, fun x => by rw [he]⟩
      · simp only [hq]
        exact ih q

theorem ignores_readPlain (setting : LengthSetting) (s : String) :
    Ignores setting (readPlain s) := by
  intro p
  have hwaiting : ∀ x, (p.withLength setting x).waiting? = p.waiting? := fun _ => rfl
  have hdashes : ∀ x, (p.withLength setting x).noMoreOptions = p.noMoreOptions := fun _ => rfl
  have hinput : ∀ x, (p.withLength setting x).hasInput = p.hasInput := fun _ => rfl
  unfold readPlain
  simp only [hwaiting, hdashes, hinput]
  split
  · next o _ _ => exact .inr ⟨{ p with pending := some (.valued o (some s)) }, fun x => rfl⟩
  · split
    · exact .inl ⟨_, fun x => rfl⟩
    · rcases ignores_settle setting p with ⟨e, he⟩ | ⟨q, hq⟩
      · exact .inl ⟨.usage e, fun x => by rw [he]⟩
      · simp only [hq]
        exact .inr ⟨{ q with pending := some (.input s) }, fun x => rfl⟩

theorem ignores_read (setting : LengthSetting) (s : String) :
    Ignores setting (read s) := by
  intro p
  have hdashes : ∀ x, (p.withLength setting x).noMoreOptions = p.noMoreOptions := fun _ => rfl
  have htakes : ∀ x r, (p.withLength setting x).takesNegative r = p.takesNegative r :=
    fun _ _ => rfl
  unfold read
  simp only [hdashes, htakes]
  split
  · exact ignores_readPlain setting s p
  · split
    · exact .inr ⟨{ p with noMoreOptions := true }, fun x => rfl⟩
    · exact ignores_readLong setting _ p
    · split
      · exact ignores_readPlain setting s p
      · exact ignores_readLetters setting _ p
    · exact ignores_readPlain setting s p

theorem ignores_readAll (setting : LengthSetting) (arguments : List String) :
    Ignores setting (readAll arguments) := by
  induction arguments with
  | nil => exact fun p => .inr ⟨p, fun x => rfl⟩
  | cons s rest ih =>
    intro p
    simp only [readAll]
    rcases ignores_read setting s p with ⟨e, he⟩ | ⟨q, hq⟩
    · exact .inl ⟨e, fun x => by rw [he]⟩
    · simp only [hq]
      exact ih q

/-- What is asked for in the end depends on the value of a length only in the length. -/
theorem finish_withLength (p : Progress) (setting : LengthSetting) {x : Binary64}
    {options : Options} (h : (p.withLength setting x).finish = .ok options) (y : Binary64) :
    (p.withLength setting y).finish = .ok (options.withLength setting y) := by
  unfold finish at h ⊢
  rcases ignores_settle setting p with ⟨e, he⟩ | ⟨q, hq⟩
  · rw [he] at h
    cases h
  · simp only [hq] at h ⊢
    split_ifs at h with hmissing
    cases h
    refine (if_neg hmissing).trans (congrArg Except.ok ?_)
    cases setting <;> rfl

/-! ### Two dashes -/

variable {p q : Progress}

theorem noMoreOptions_settle (h : p.settle = .ok q) : q.noMoreOptions = p.noMoreOptions := by
  unfold settle at h
  split at h
  · cases h
    rfl
  · cases h
  · next o s _ =>
    cases hassign : o.assign s p.options with
    | error e =>
      rw [hassign] at h
      cases h
    | ok options =>
      rw [hassign] at h
      cases h
      rfl
  · next s _ =>
    cases hpath : readPath inputLabel s with
    | error e =>
      rw [hpath] at h
      cases h
    | ok path =>
      rw [hpath] at h
      cases h
      rfl

theorem noMoreOptions_throwSwitch {s : Switch} {isLong : Bool}
    (h : p.throwSwitch s isLong = .ok q) : q.noMoreOptions = p.noMoreOptions := by
  unfold throwSwitch at h
  split at h
  · cases h
  · next settled hsettled =>
    have hkept := noMoreOptions_settle hsettled
    cases s with
    | help | version => cases h
    | verbose =>
      cases h
      exact hkept
    | stdout | printConfig =>
      dsimp only at h
      split_ifs at h
      cases h
      exact hkept

theorem noMoreOptions_readValued {o : ValuedOption} {attached : Option (List Char)}
    (h : p.readValued o attached = .ok q) : q.noMoreOptions = p.noMoreOptions := by
  unfold readValued at h
  split at h
  · cases h
  · next settled hsettled =>
    have hkept := noMoreOptions_settle hsettled
    split at h
    · cases h
      exact hkept
    · split at h
      · cases h
      · cases h
        exact hkept

theorem noMoreOptions_readLong {s : List Char} (h : p.readLong s = .ok q) :
    q.noMoreOptions = p.noMoreOptions := by
  unfold readLong at h
  dsimp only at h
  split at h
  · cases h
  · exact noMoreOptions_readValued h
  · exact noMoreOptions_throwSwitch h
  · cases h

theorem noMoreOptions_readLetters {s : List Char} (h : p.readLetters s = .ok q) :
    q.noMoreOptions = p.noMoreOptions := by
  induction s generalizing p with
  | nil =>
    cases h
    rfl
  | cons c s ih =>
    simp only [readLetters] at h
    split at h
    · cases h
    · exact noMoreOptions_readValued h
    · split at h
      · cases h
      · next thrown hthrown => exact (ih h).trans (noMoreOptions_throwSwitch hthrown)

theorem noMoreOptions_readPlain {s : String} (h : p.readPlain s = .ok q) :
    q.noMoreOptions = p.noMoreOptions := by
  unfold readPlain at h
  split at h
  · cases h
    rfl
  · split_ifs at h
    split at h
    · cases h
    · next settled hsettled =>
      have hkept := noMoreOptions_settle hsettled
      cases h
      exact hkept

/-- Nothing but two dashes says that no more options follow. -/
theorem noMoreOptions_read {s : String} (h : p.read s = .ok q) (hs : s ≠ "--") :
    q.noMoreOptions = p.noMoreOptions := by
  unfold read at h
  split_ifs at h with hno
  · exact noMoreOptions_readPlain h
  · split at h
    · next hdashes => exact absurd (String.toList_inj.1 (hdashes.trans (by decide))) hs
    · exact noMoreOptions_readLong h
    · split_ifs at h
      · exact noMoreOptions_readPlain h
      · exact noMoreOptions_readLetters h
    · exact noMoreOptions_readPlain h

theorem noMoreOptions_readAll {arguments : List String} (h : p.readAll arguments = .ok q)
    (hdashes : "--" ∉ arguments) : q.noMoreOptions = p.noMoreOptions := by
  induction arguments generalizing p with
  | nil =>
    cases h
    rfl
  | cons s rest ih =>
    rw [List.mem_cons, not_or] at hdashes
    unfold readAll at h
    split at h
    · cases h
    · next next hnext =>
      exact (ih h hdashes.2).trans (noMoreOptions_read hnext (Ne.symm hdashes.1))

theorem readAll_append (first second : List String) (p : Progress) :
    p.readAll (first ++ second) =
      match p.readAll first with
      | .error e => .error e
      | .ok q => q.readAll second := by
  induction first generalizing p with
  | nil => rfl
  | cons s first ih =>
    rw [List.cons_append, readAll, readAll]
    cases p.read s with
    | error e => rfl
    | ok q => exact ih q

end Progress

/-! ### The argument -/

/-- The argument that gives a length. -/
def LengthSetting.argument (setting : LengthSetting) (value : List Char) : String :=
  String.ofList ('-' :: '-' :: (setting.option.longName.toList ++ '=' :: value))

theorem ValuedOption.assign_option {value : String} {options : Options} {y : Binary64}
    (hgiven : options.has setting.option = false) (hy : readLength value = .ok y) :
    setting.option.assign value options = .ok (options.withLength setting y) := by
  unfold assign
  rw [hgiven, if_neg Bool.false_ne_true]
  cases setting <;>
  · dsimp only [LengthSetting.option]
    rw [hy]
    rfl

theorem ValuedOption.has_of_assign {o : ValuedOption} {s : String} {options next : Options}
    (h : o.assign s options = .ok next) : options.has o = false := by
  unfold assign at h
  split_ifs at h with hgiven
  exact Bool.eq_false_iff.2 hgiven

theorem Progress.read_argument {p : Progress} (h : p.noMoreOptions = false)
    (setting : LengthSetting) (value : List Char) :
    p.read (setting.argument value) = p.readValued setting.option (some value) := by
  have hname : ∃ c r, setting.option.longName.toList = c :: r := by
    cases setting <;> exact ⟨_, _, rfl⟩
  have hequals : '=' ∉ setting.option.longName.toList := by cases setting <;> decide
  have hletters : ∀ c ∈ setting.option.longName.toList, decide (c ≠ '=') = true :=
    fun c hc => decide_eq_true (ne_of_mem_of_not_mem hc hequals)
  have hread : p.read (setting.argument value) =
      p.readLong (setting.option.longName.toList ++ '=' :: value) := by
    obtain ⟨c, r, hcons⟩ := hname
    rw [LengthSetting.argument, hcons, read, h, String.toList_ofList]
    rfl
  have htake : (setting.option.longName.toList ++ '=' :: value).takeWhile (· ≠ '=') =
      setting.option.longName.toList := by
    rw [List.takeWhile_append_of_pos hletters]
    simp
  have hdrop : attached? (setting.option.longName.toList ++ '=' :: value) = some value := by
    unfold attached?
    rw [List.dropWhile_append_of_pos hletters]
    rfl
  have hoption : OptionName.ofLong? setting.option.longName.toList =
      some (.valued setting.option) := by
    cases setting <;> decide
  rw [hread, readLong, htake, hoption, hdrop]

/-- Where one length can be given, so can any. -/
theorem Progress.exists_read_argument {p r : Progress} (hno : p.noMoreOptions = false)
    {value : List Char} {x : Binary64} (hx : readLength (String.ofList value) = .ok x)
    (h : p.read (setting.argument value) = .ok r) :
    ∃ q : Progress, r = q.withLength setting x ∧ ∀ other y,
      readLength (String.ofList other) = .ok y →
        p.read (setting.argument other) = .ok (q.withLength setting y) := by
  rw [read_argument hno, readValued] at h
  cases hsettle : p.settle with
  | error e =>
    rw [hsettle] at h
    cases h
  | ok q =>
    rw [hsettle] at h
    dsimp only at h
    cases hassign : setting.option.assign (String.ofList value) q.options with
    | error e =>
      rw [hassign] at h
      cases h
    | ok next =>
      have hfresh := ValuedOption.has_of_assign hassign
      have hnext := ValuedOption.assign_option hfresh hx
      rw [hnext] at h
      cases h
      refine ⟨q, rfl, fun other y hy => ?_⟩
      rw [read_argument hno, readValued, hsettle]
      dsimp only
      rw [ValuedOption.assign_option hfresh hy]
      rfl

/-- Arguments of which one gives a length can be read whatever the length is, and ask for the same
but for the length. -/
theorem Options.ofArguments_argument {before after : List String} {value other : List Char}
    {x y : Binary64} {options : Options} (hbefore : "--" ∉ before)
    (hx : readLength (String.ofList value) = .ok x) (hy : readLength (String.ofList other) = .ok y)
    (h : ofArguments (before ++ setting.argument value :: after) = .ok options) :
    ofArguments (before ++ setting.argument other :: after) =
      .ok (options.withLength setting y) := by
  unfold ofArguments at h ⊢
  rw [Progress.readAll_append] at h ⊢
  cases hfirst : Progress.start.readAll before with
  | error e =>
    rw [hfirst] at h
    cases h
  | ok p =>
    have hno : p.noMoreOptions = false := Progress.noMoreOptions_readAll hfirst hbefore
    rw [hfirst] at h
    dsimp only at h ⊢
    rw [Progress.readAll] at h ⊢
    cases hread : p.read (setting.argument value) with
    | error e =>
      rw [hread] at h
      cases h
    | ok r =>
      obtain ⟨q, rfl, hother⟩ := Progress.exists_read_argument hno hx hread
      rw [hread] at h
      rw [hother other y hy]
      dsimp only at h ⊢
      rcases Progress.ignores_readAll setting after q with ⟨e, he⟩ | ⟨last, hlast⟩
      · rw [he] at h
        cases h
      · rw [hlast] at h ⊢
        exact last.finish_withLength setting h y

end DrillPost

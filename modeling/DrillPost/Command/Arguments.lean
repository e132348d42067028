import DrillPost.Command.Notice

/-!
# Arguments

Arguments are read one by one. The value of an option may be attached to it or be the next argument;
a value that has arrived is only looked at when the next option or input comes, or the last argument
has been read. So an argument that is unknown is complained of before a value in front of it that is
wrong.

`Options.ofArguments` reads a whole command line.
-/

namespace DrillPost

/-! ### Values -/

/-- Reads digits one after another, adding them to or subtracting them from what has been read. -/
def readDigits (negative : Bool) : (read : Int) → List Char → Except ValueError Int
  | read, [] => .ok read
  | read, c :: r =>
    if c.isDigit then
      let digit : Int := c.toNat - '0'.toNat
      let next := if negative then read * 10 - digit else read * 10 + digit
      if 0x8000000000000000 ≤ next then .error .tooLarge
      else if next < -0x8000000000000000 then .error .tooSmall
      else readDigits negative next r
    else .error .notInteger

def readInteger (s : String) : Except ValueError Int :=
  match s.toList with
  | [] => .error .emptyInteger
  | ['+'] | ['-'] => .error .notInteger
  | '+' :: r => readDigits false 0 r
  | '-' :: r => readDigits true 0 r
  | r => readDigits false 0 r

def readPower (s : String) : Except ValueError UInt32 :=
  match readInteger s with
  | .error e => .error e
  | .ok n => if 0 ≤ n ∧ n < UInt32.size then .ok n.toNat.toUInt32 else .error (.outOfRange n)

def readLength (s : String) : Except ValueError Binary64 :=
  match Binary64.ofText s with
  | .ok x => .ok x
  | .error .empty => .error .emptyReal
  | .error .malformed => .error .notReal

def readPath (label : String) (s : String) : Except UsageError Path :=
  if s = "" then .error (.valueMissing label) else .ok (.ofText s)

namespace ValuedOption

/-- The failure of a value for an option. -/
def checked {α : Type} (o : ValuedOption) (s : String) (r : Except ValueError α) :
    Except UsageError α :=
  match r with
  | .ok x => .ok x
  | .error cause => .error (.invalidValue o s cause)

/-- Gives an option its value. -/
def assign (o : ValuedOption) (s : String) (options : Options) : Except UsageError Options :=
  if options.has o then .error (.repeated o.label)
  else
    match o with
    | .output => (readPath o.label s).map fun p => { options with output := some p }
    | .config => (readPath o.label s).map fun p => { options with config := some p }
    | .spindlePower =>
      (o.checked s (readPower s)).map fun n =>
        { options with overrides := { options.overrides with spindlePower := some n } }
    | .safeHeight =>
      (o.checked s (readLength s)).map fun x =>
        { options with overrides := { options.overrides with safeHeight := some x } }
    | .drillDepth =>
      (o.checked s (readLength s)).map fun x =>
        { options with overrides := { options.overrides with drillDepth := some x } }

end ValuedOption

/-! ### Arguments one by one -/

/-- What still has to be looked at. -/
inductive Pending where
  /-- An option, and its value if that has arrived. -/
  | valued (option : ValuedOption) (value : Option String)
  | input (value : String)
deriving DecidableEq

/-- How far the arguments have been read. -/
structure Progress where
  options : Options
  pending : Option Pending
  /-- Two dashes have been read: whatever follows is no option. -/
  noMoreOptions : Bool
deriving DecidableEq

namespace Progress

def start : Progress := ⟨.none, none, false⟩

/-- The option that waits for its value. -/
def waiting? (p : Progress) : Option ValuedOption :=
  match p.pending with
  | some (.valued o none) => some o
  | _ => none

/-- Whether an input has been given. -/
def hasInput (p : Progress) : Bool :=
  p.options.input.isSome ||
    match p.pending with
    | some (.input _) => true
    | _ => false

/-- Looks at what is pending. -/
def settle (p : Progress) : Except UsageError Progress :=
  match p.pending with
  | none => .ok p
  | some (.valued o none) => .error (.valueMissing o.label)
  | some (.valued o (some s)) =>
    (o.assign s p.options).map fun options => { p with options, pending := none }
  | some (.input s) =>
    (readPath inputLabel s).map fun path =>
      { p with options := { p.options with input := some path }, pending := none }

/-- Throws a switch that is given by its long name or by its letter. -/
def throwSwitch (s : Switch) (isLong : Bool) (p : Progress) : Except Notice Progress :=
  match p.settle with
  | .error e => .error (.usage e)
  | .ok p =>
    match s with
    | .help => .error .help
    | .version => .error (.version isLong)
    | .verbose =>
      .ok { p with options.verbosity := min Options.maxVerbosity (p.options.verbosity + 1) }
    | .stdout =>
      if p.options.toStdout then .error (.usage (.repeated s.label))
      else .ok { p with options.toStdout := true }
    | .printConfig =>
      if p.options.printConfig then .error (.usage (.repeated s.label))
      else .ok { p with options.printConfig := true }

/-- Reads an option with the value that is attached to it, if there is one. -/
def readValued (o : ValuedOption) (attached : Option (List Char)) (p : Progress) :
    Except Notice Progress :=
  match p.settle with
  | .error e => .error (.usage e)
  | .ok p =>
    match attached with
    | none => .ok { p with pending := some (.valued o none) }
    | some value =>
      match o.assign (String.ofList value) p.options with
      | .error e => .error (.usage e)
      | .ok options => .ok { p with options }

/-- What follows the first equals sign. -/
def attached? (s : List Char) : Option (List Char) :=
  match s.dropWhile (· ≠ '=') with
  | [] => none
  | _ :: value => some value

def readLong (s : List Char) (p : Progress) : Except Notice Progress :=
  let name := s.takeWhile (· ≠ '=')
  match OptionName.ofLong? name, attached? s with
  | none, _ => .error (.usage (.unknown ("--" ++ String.ofList name)))
  | some (.valued o), attached => p.readValued o attached
  | some (.switch s), none => p.throwSwitch s true
  | some (.switch s), some value => .error (.usage (.valueUnexpected s (String.ofList value)))

/-- The value that is attached to a letter, with or without an equals sign. -/
def attachedToLetter? : List Char → Option (List Char)
  | [] => none
  | '=' :: value => some value
  | value => some value

/-- Reads what follows one dash: letters of switches, then perhaps the letter of an option with a
value attached to it. -/
def readLetters : List Char → Progress → Except Notice Progress
  | [], p => .ok p
  | c :: r, p =>
    match OptionName.ofLetter? c with
    | none => .error (.usage (.unknown ("-" ++ String.singleton c)))
    | some (.valued o) => p.readValued o (attachedToLetter? r)
    | some (.switch s) =>
      match p.throwSwitch s false with
      | .error e => .error e
      | .ok p => readLetters r p

/-- Whether a text is a numeral without a sign. The point may not come first, the letter of the
exponent neither first nor last, and the exponent has no sign. -/
def isNumeral (s : List Char) : Bool :=
  let mantissa := s.takeWhile (· ≠ 'e')
  let fraction := (mantissa.dropWhile (· ≠ '.')).tail
  mantissa.head? ≠ some '.' && (mantissa.takeWhile (· ≠ '.')).all Char.isDigit &&
    fraction.all Char.isDigit &&
    match s.dropWhile (· ≠ 'e') with
    | [] => true
    | _ :: exponent => mantissa ≠ [] && exponent ≠ [] && exponent.all Char.isDigit

/-- Whether what follows one dash is a negative number that is waited for. -/
def takesNegative (p : Progress) (s : List Char) : Bool :=
  p.waiting?.any (·.allowsNegative) && isNumeral s

/-- Reads an argument that is no option: the value that is waited for, or the input. -/
def readPlain (s : String) (p : Progress) : Except Notice Progress :=
  match p.waiting?, p.noMoreOptions with
  | some o, false => .ok { p with pending := some (.valued o (some s)) }
  | _, _ =>
    if p.hasInput then .error (.usage (.unknown s))
    else
      match p.settle with
      | .error e => .error (.usage e)
      | .ok p => .ok { p with pending := some (.input s) }

def read (s : String) (p : Progress) : Except Notice Progress :=
  if p.noMoreOptions then p.readPlain s
  else
    match s.toList with
    | ['-', '-'] => .ok { p with noMoreOptions := true }
    | '-' :: '-' :: r => p.readLong r
    | '-' :: c :: r =>
      -- A negative number looks like letters of switches.
      if p.takesNegative (c :: r) then p.readPlain s else p.readLetters (c :: r)
    | _ => p.readPlain s

def readAll : List String → Progress → Except Notice Progress
  | [], p => .ok p
  | s :: rest, p =>
    match p.read s with
    | .error e => .error e
    | .ok p => readAll rest p

/-- What the arguments ask for when all have been read. -/
def finish (p : Progress) : Except Notice Options :=
  match p.settle with
  | .error e => .error (.usage e)
  | .ok p =>
    if p.options.input.isNone ∧ !p.options.printConfig then .error (.usage .inputMissing)
    else .ok p.options

end Progress

def Options.ofArguments (arguments : List String) : Except Notice Options :=
  match Progress.start.readAll arguments with
  | .error e => .error e
  | .ok p => p.finish

end DrillPost

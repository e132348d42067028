import DrillPost.Decimal.Numeral
import DrillPost.Toml.Node
import DrillPost.Toml.Text

/-!
# Numbers, dates and times

Single underscores may divide the digits of a number. An integer has to fit 64 bits with a sign; a
number with a fraction or an exponent is read as the nearest binary64 value, and has to lie below
the largest. A date or a time is only checked, because nothing here makes use of one.
-/

namespace DrillPost.Toml

/-! ### Digits -/

/-- Reads digits after a first one. An underscore has to stand between two digits. -/
def readMoreDigits (isDigit : Char → Bool) : (s : List Char) → Option (List Char × Tail s)
  | [] => some ([], .all [])
  | c :: r =>
    if isDigit c then
      (readMoreDigits isDigit r).map fun (digits, t) => (c :: digits, t.past c)
    else if c = '_' then
      match r with
      | d :: t =>
        if isDigit d then
          (readMoreDigits isDigit t).map fun (digits, u) => (d :: digits, (u.past d).past c)
        else none
      | [] => none
    else some ([], .all (c :: r))

def readDigits (isDigit : Char → Bool) : Reader (List Char)
  | [] => none
  | c :: r =>
    if isDigit c then
      (readMoreDigits isDigit r).map fun (digits, t) => .ofTail (c :: digits) c t
    else none

/-- Reads the digits of a whole number: a zero alone, or digits that start with another one. -/
def readWhole : Reader (List Char)
  | '0' :: r => some (.one ['0'] '0' r)
  | s => readDigits Char.isDigit s

/-- Splits off a sign: whether it is a minus, and what follows. -/
def readSign : (s : List Char) → Bool × Tail s
  | '-' :: r => (true, (Tail.all r).past '-')
  | '+' :: r => (false, (Tail.all r).past '+')
  | s => (false, .all s)

/-! ### Integers -/

/-- The integers that can be kept. -/
def int? (n : Int) : Option Int :=
  if -0x8000000000000000 ≤ n ∧ n < 0x8000000000000000 then some n else none

/-- Reads the digits of an integer in another base. -/
def readBased (base : Nat) : Reader Int := fun s =>
  let digitValue? (c : Char) : Option Nat := (hexDigit? c).filter (· < base)
  match readDigits (fun c => (digitValue? c).isSome) s with
  | none => none
  | some x =>
    (int? (x.value.foldl (fun n c => n * base + (digitValue? c).getD 0) 0)).map fun n =>
      x.map fun _ => n

/-- The base that letters after a zero stand for. -/
def base? : Char → Option Nat
  | 'x' => some 16
  | 'o' => some 8
  | 'b' => some 2
  | _ => none

/-! ### Numbers with a fraction or an exponent -/

def readFraction (s : List Char) : Option (List Char × Tail s) :=
  match s with
  | '.' :: r => (readDigits Char.isDigit r).map fun x => (x.value, x.toTail.past '.')
  | s => some ([], .all s)

def readExponent (s : List Char) : Option (Option Int × Tail s) :=
  match s with
  | [] => some (none, .all [])
  | c :: r =>
    if c = 'e' ∨ c = 'E' then
      let (isNegative, t) := readSign r
      (t.thenRead (readDigits Char.isDigit)).map fun x =>
        (some (if isNegative then -(digitsValue x.value : Int) else digitsValue x.value),
          x.toTail.past c)
    else some (none, .all (c :: r))

/-- A value that is not beyond the largest. -/
def real? (x : Binary64) : Option Scalar := if x = .infinite false then none else some (.real x)

/-- The value of a number in base ten: an integer if it has neither a fraction nor an exponent. -/
def decimalValue? (isNegative : Bool) (whole fraction : List Char) (exponent : Option Int) :
    Option Scalar :=
  if fraction = [] ∧ exponent = none then
    let n : Int := digitsValue whole
    (int? (if isNegative then -n else n)).map .int
  else
    let numeral : Numeral := ⟨whole, fraction, exponent.getD 0⟩
    real? (numeral.toDecimal.toBinary64 isNegative)

def readDecimal (isNegative : Bool) : Reader Scalar := fun s =>
  match readWhole s with
  | none => none
  | some whole =>
    match readFraction whole.rest with
    | none => none
    | some (fraction, t) =>
      match readExponent t.rest with
      | none => none
      | some (exponent, u) =>
        (decimalValue? isNegative whole.value fraction exponent).map fun value =>
          (whole.leave (t.andThen u)).map fun _ => value

def readWord (word : List Char) (s : List Char) : Option (Tail s) :=
  match word, s with
  | [], s => some (.all s)
  | _ :: _, [] => none
  | w :: word, c :: r => if c = w then (readWord word r).map (·.past c) else none

def readNamed {α : Type} (first : Char) (word : List Char) (value : α) : Reader α
  | [] => none
  | c :: r => if c = first then (readWord word r).map fun t => .ofTail value c t else none

/-- Reads a number that is written in letters or in base ten, after its sign. -/
def readUnsigned (isNegative : Bool) : Reader Scalar := fun s =>
  if s.head? = some 'i' then readNamed 'i' ['n', 'f'] (.real (.infinite isNegative)) s
  else if s.head? = some 'n' then readNamed 'n' ['a', 'n'] (.real .nan) s
  else readDecimal isNegative s

def readNumber : Reader Scalar := fun s =>
  match s with
  | '0' :: c :: r =>
    match base? c with
    | some base => (readBased base r).map fun x => ((x.map Scalar.int).past c).past '0'
    | none => readDecimal false ('0' :: c :: r)
  | s =>
    let (isNegative, t) := readSign s
    t.thenRead (readUnsigned isNegative)

/-! ### Dates and times -/

/-- Reads a number of exactly so many digits, within bounds. -/
def readField (count low high : Nat) (s : List Char) : Option (Nat × Tail s) :=
  let digits := s.take count
  if digits.length = count ∧ digits.all Char.isDigit ∧ low ≤ digitsValue digits ∧
      digitsValue digits ≤ high then
    some (digitsValue digits, .drop count s)
  else none

def readChar (c : Char) (s : List Char) : Option (Tail s) := readWord [c] s

def daysIn (year month : Nat) : Nat :=
  if month = 2 then
    if year % 4 = 0 ∧ (year % 100 ≠ 0 ∨ year % 400 = 0) then 29 else 28
  else if month = 4 ∨ month = 6 ∨ month = 9 ∨ month = 11 then 30
  else 31

def skipDate (s : List Char) : Option (Tail s) := do
  let (year, a) ← readField 4 0 9999 s
  let b ← readChar '-' a.rest
  let (month, c) ← readField 2 1 12 b.rest
  let d ← readChar '-' c.rest
  let (_, e) ← readField 2 1 (daysIn year month) d.rest
  return a.andThen (b.andThen (c.andThen (d.andThen e)))

/-- Passes over a fraction of a second, if there is one. -/
def skipSecondFraction (s : List Char) : Tail s :=
  match s with
  | '.' :: c :: r =>
    if c.isDigit then ((Tail.dropRun Char.isDigit r).past c).past '.' else .all ('.' :: c :: r)
  | s => .all s

def skipTime (s : List Char) : Option (Tail s) := do
  let (_, a) ← readField 2 0 23 s
  let b ← readChar ':' a.rest
  let (_, c) ← readField 2 0 59 b.rest
  let d ← readChar ':' c.rest
  let (_, e) ← readField 2 0 60 d.rest
  return a.andThen (b.andThen (c.andThen (d.andThen (e.andThen (skipSecondFraction e.rest)))))

/-- Passes over the distance from universal time. -/
def skipOffset (s : List Char) : Option (Tail s) :=
  match s with
  | [] => none
  | c :: r =>
    if c = 'Z' ∨ c = 'z' then some ((Tail.all r).past c)
    else if c = '+' ∨ c = '-' then do
      let (_, hours) ← readField 2 0 23 r
      let colon ← readChar ':' hours.rest
      let (_, minutes) ← readField 2 0 59 colon.rest
      return (hours.andThen (colon.andThen minutes)).past c
    else none

/-- Passes over a time of day after a date, and the distance from universal time. -/
def skipTimeOfDate (s : List Char) : Option (Tail s) :=
  match s with
  | [] => none
  | c :: r =>
    if c = 'T' ∨ c = 't' ∨ c = ' ' then
      (skipTime r).map fun t => (t.andThen ((skipOffset t.rest).getD (.all t.rest))).past c
    else none

def skipMoment (s : List Char) : Option (Tail s) :=
  match skipDate s with
  | some t => some ((skipTimeOfDate t.rest).elim t t.andThen)
  | none => skipTime s

def readMoment : Reader Scalar := fun s =>
  match skipMoment s with
  | none => none
  | some t =>
    if h : t.rest.length < s.length then
      some ⟨.moment (String.ofList (s.take (s.length - t.rest.length))), t.rest, h⟩
    else none

def readNumeric : Reader Scalar := fun s =>
  match readMoment s with
  | some x => some x
  | none => readNumber s

end DrillPost.Toml

import DrillPost.Decimal.Numeral
import DrillPost.Json.Reader

/-!
# Numbers

A `Literal` is a number as it is written. Its value is computed with few digits: a significand of 64
bits takes digits from the front while they fit, and the digits that no longer fit count only as
places. The significand becomes a binary64 value, which is then multiplied or divided once by a
power of ten. So a literal with few digits and a small exponent has the nearest value, and others
may be off by a little. A whole number without point and exponent that fits 64 bits is kept as an
integer.
-/

namespace DrillPost.Json

/-- The exponent of a literal. -/
structure Exponent where
  isNegative : Bool
  digits : List Char
deriving DecidableEq

/-- A number as it is written, without its sign. -/
structure Literal where
  whole : List Char
  /-- The digits after the point, if there is a point. -/
  fraction : List Char
  exponent : Option Exponent
deriving DecidableEq

/-- The value of a number: an integer if it is written as one and fits. -/
inductive Number where
  | int (n : Int)
  | real (x : Binary64)
deriving DecidableEq

/-- The number as a binary64 value. -/
def Number.toBinary64 : Number → Binary64
  | .int n => .ofInt n
  | .real x => x

/-! ### Reading a literal

The cause of failure at the end of the text is a parameter: a text that ends within a number has
ended too early if the number is wanted, and is malformed if the number is only passed over. -/

/-- The digits at the front of a text. -/
def digitRun (s : List Char) : List Char := s.takeWhile Char.isDigit

/-- The text after the digits at its front. -/
def afterDigits (s : List Char) : Tail s := .dropRun Char.isDigit s

/-- Reads the digits before the point: a zero alone, or digits that start with another one. -/
def readWhole (atEnd : Cause) : Reader (List Char)
  | [] => .error (.before atEnd [])
  | c :: r =>
    if c = '0' then
      if r.head?.any Char.isDigit then .error (.atNext .invalidNumber r)
      else .ok (.one [c] c r)
    else if c.isDigit then .ok (.ofTail (c :: digitRun r) c (afterDigits r))
    else .error ⟨.invalidNumber, c :: r, 1⟩

/-- Reads the digits after the point, if there is a point. -/
def readFraction (atEnd : Cause) (s : List Char) : Except Failure (List Char × Tail s) :=
  match s with
  | '.' :: r =>
    if digitRun r = [] then .error (.atNext (if r = [] then atEnd else .invalidNumber) r)
    else .ok (digitRun r, (afterDigits r).past '.')
  | s => .ok ([], .all s)

/-- Splits off the sign of an exponent. -/
def exponentSign : (s : List Char) → Bool × Tail s
  | '-' :: r => (true, (Tail.all r).past '-')
  | '+' :: r => (false, (Tail.all r).past '+')
  | s => (false, .all s)

def readExponent (atEnd : Cause) (s : List Char) : Except Failure (Option Exponent × Tail s) :=
  match s with
  | [] => .ok (none, .all [])
  | c :: r =>
    if c = 'e' ∨ c = 'E' then
      let (isNegative, t) := exponentSign r
      if digitRun t.rest = [] then
        .error (if t.rest = [] then .before atEnd [] else ⟨.invalidNumber, t.rest, 1⟩)
      else .ok (some ⟨isNegative, digitRun t.rest⟩, (t.andThen (afterDigits t.rest)).past c)
    else .ok (none, .all (c :: r))

def readLiteral (atEnd : Cause) : Reader Literal := fun s =>
  match readWhole atEnd s with
  | .error e => .error e
  | .ok whole =>
    match readFraction atEnd whole.rest with
    | .error e => .error e
    | .ok (fraction, t) =>
      match readExponent atEnd t.rest with
      | .error e => .error e
      | .ok (exponent, u) =>
        .ok ((whole.leave (t.andThen u)).map fun digits => ⟨digits, fraction, exponent⟩)

/-! ### The value of a literal -/

/-- Takes digits into a significand as long as it fits 64 bits; the digits that do not fit are left
over. -/
def takeDigits (significand : Nat) : List Char → Nat × List Char
  | [] => (significand, [])
  | c :: r =>
    if significand * 10 + (c.toNat - '0'.toNat) < UInt64.size then
      takeDigits (significand * 10 + (c.toNat - '0'.toNat)) r
    else (significand, c :: r)

/-- The significand, and the exponent of its last digit. -/
def Literal.significand (l : Literal) : Nat × Int :=
  let (taken, left) := takeDigits 0 l.whole
  let (taken, fractionLeft) := takeDigits taken l.fraction
  (taken, (left.length : Int) - ((l.fraction.length - fractionLeft.length : Nat) : Int))

/-- The largest exponent that can be written out. -/
def maxExponent : Nat := 0x7FFFFFFF

/-- The value of the digits of an exponent, or the digits after the one that makes it too large. -/
def exponentValue (value : Nat) : List Char → Except (List Char) Nat
  | [] => .ok value
  | c :: r =>
    if value * 10 + (c.toNat - '0'.toNat) ≤ maxExponent then
      exponentValue (value * 10 + (c.toNat - '0'.toNat)) r
    else .error r

/-- Ten to the power `n`, for powers up to 308. -/
def tenToThe (n : Nat) : Magnitude := (Decimal.nearest? ⟨1, n⟩).getD .zero

/-- Moves the point of a magnitude: it is multiplied or divided by a power of ten, the division in
steps of 308 places. `none` beyond the largest magnitude. -/
def movePoint (x : Magnitude) (places : Int) : Option Magnitude :=
  if places.natAbs ≤ 308 then
    if 0 ≤ places then x.mul? (tenToThe places.natAbs) else x.div? (tenToThe places.natAbs)
  else if x.units = 0 then some x
  else if 0 ≤ places then none
  else (x.div? (tenToThe 308)).bind fun y => movePoint y (places + 308)
termination_by places.natAbs
decreasing_by omega

def significandMagnitude (n : Nat) : Magnitude := (Magnitude.nearest? n 1).getD .zero

/-- The value of a significand whose last digit has an exponent, if it is in range. -/
def scaled? (isNegative : Bool) (significand : Nat) (exponent : Int) : Option Binary64 :=
  (movePoint (significandMagnitude significand) exponent).map (.finite isNegative)

/-- The value of a literal that is written as an integer. -/
def integerValue (isNegative : Bool) (n : Nat) : Number :=
  if !isNegative then .int n
  -- Integers have no negative zero.
  else if n = 0 then .real (.finite true .zero)
  else if n ≤ 0x8000000000000000 then .int (-n)
  else .real (.finite true (significandMagnitude n))

/-- The value of a literal that was read up to `rest`. -/
def Literal.value (l : Literal) (isNegative : Bool) (rest : List Char) : Except Failure Number :=
  let (significand, exponent) := l.significand
  let scale (exponent : Int) : Except Failure Number :=
    match scaled? isNegative significand exponent with
    | some x => .ok (.real x)
    | none => .error (.before .numberOutOfRange rest)
  match l.exponent with
  | none =>
    if l.fraction = [] ∧ (takeDigits 0 l.whole).2 = [] then
      .ok (integerValue isNegative significand)
    else scale exponent
  | some e =>
    match exponentValue 0 e.digits with
    | .ok n => scale (if e.isNegative then exponent - n else exponent + n)
    | .error left =>
      -- No exponent changes a zero, and one far below zero leaves nothing of any significand.
      if significand = 0 ∨ e.isNegative then .ok (.real (.finite isNegative .zero))
      else .error (.before .numberOutOfRange (left ++ rest))

def readNumber (isNegative : Bool) : Reader Number := fun s =>
  match readLiteral .endInValue s with
  | .error e => .error e
  | .ok l =>
    match l.value.value isNegative l.rest with
    | .error e => .error e
    | .ok n => .ok (l.map fun _ => n)

end DrillPost.Json

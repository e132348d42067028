import DrillPost.Json.Reader
import DrillPost.Text.Quoted

/-!
# Strings

A string ends at the first quote that no backslash stands before. Code points beyond sixteen bits
are escaped as two halves, one escape each; a half without the other is no character.

`readString` reads a string after its opening quote, `skipString` only finds its end and lets lone
halves pass.
-/

namespace DrillPost.Json

def readHex4 : Reader Nat := fun s =>
  match s with
  | a :: b :: c :: d :: r =>
    match hexDigit? a, hexDigit? b, hexDigit? c, hexDigit? d with
    | some i, some j, some k, some l =>
      .ok ((((Read.one (((i * 16 + j) * 16 + k) * 16 + l) d r).past c).past b).past a)
    | _, _, _, _ => .error ⟨.invalidEscape, s, 4⟩
  | _ =>
    -- Fewer than four characters can still be four bytes, and then they are the wrong ones.
    if byteCount s < 4 then .error (.before .endInString []) else .error ⟨.invalidEscape, s, 4⟩

/-- The character that a letter after a backslash stands for; a slash may be escaped too. -/
def escaped? (c : Char) : Option Char := if c = '/' then some '/' else DrillPost.escaped? c

/-- The first half of a code point beyond sixteen bits. -/
def isLeading (n : Nat) : Bool := 0xD800 ≤ n && n ≤ 0xDBFF

/-- The second half of a code point beyond sixteen bits. -/
def isTrailing (n : Nat) : Bool := 0xDC00 ≤ n && n ≤ 0xDFFF

/-- The code point of two halves. -/
def joinHalves (leading trailing : Nat) : Char :=
  Char.ofNat (0x10000 + (leading - 0xD800) * 0x400 + (trailing - 0xDC00))

/-- Reads the backslash and the letter that begin the escape of a second half. -/
def readSecondEscape : Reader Unit := fun s =>
  match s with
  | [] => .error (.before .endInString [])
  | c :: r =>
    if c ≠ '\\' then .error ⟨.unfinishedSurrogatePair, c :: r, 1⟩
    else
      match r with
      | [] => .error (.before .endInString [])
      | d :: t =>
        if d ≠ 'u' then .error ⟨.unfinishedSurrogatePair, d :: t, 1⟩
        else .ok ((Read.one () d t).past c)

/-- Reads the digits of an escaped code point, and its second half if it has one. -/
def readCodePoint : Reader Char := fun s =>
  match readHex4 s with
  | .error e => .error e
  | .ok first =>
    if isTrailing first.value then .error (.before .loneSurrogate first.rest)
    else if !isLeading first.value then .ok (first.map Char.ofNat)
    else
      match first.thenRead readSecondEscape with
      | .error e => .error e
      | .ok between =>
        match between.thenRead readHex4 with
        | .error e => .error e
        | .ok second =>
          if isTrailing second.value then .ok (second.map (joinHalves first.value))
          else .error (.before .loneSurrogate second.rest)

def readEscape : Reader Char
  | [] => .error (.before .endInString [])
  | c :: r =>
    if c = 'u' then Read.past c <$> readCodePoint r
    else
      match escaped? c with
      | some d => .ok (.one d c r)
      | none => .error ⟨.invalidEscape, c :: r, 1⟩

/-- Reads a character of a string, or its closing quote. -/
def readCharacter : (s : List Char) → Except Failure (Step Char s)
  | [] => .error (.before .endInString [])
  | c :: r =>
    if c = '"' then .ok (.last (.one [] c r))
    else if c = '\\' then
      match readEscape r with
      | .error e => .error e
      | .ok x => .ok (.more ((x.map ([·])).past c))
    else if c.toNat < 32 then .error ⟨.controlCharacter, c :: r, 1⟩
    else .ok (.more (.one [c] c r))

def readString : Reader String := Reader.map String.ofList (readRun readCharacter)

def skipEscape : Reader Unit
  | [] => .error (.before .endInString [])
  | c :: r =>
    if c = 'u' then (fun x => (x.map fun _ => ()).past c) <$> readHex4 r
    else if (escaped? c).isSome then .ok (.one () c r)
    else .error ⟨.invalidEscape, c :: r, 1⟩

/-- Passes over a character of a string, or its closing quote. -/
def skipCharacter : (s : List Char) → Except Failure (Step Unit s)
  | [] => .error (.before .endInString [])
  | c :: r =>
    if c = '"' then .ok (.last (.one [] c r))
    else if c = '\\' then
      match skipEscape r with
      | .error e => .error e
      | .ok x => .ok (.more ((x.map fun _ => []).past c))
    else if c.toNat < 32 then .error (.before .controlCharacter (c :: r))
    else .ok (.more (.one [] c r))

def skipString : Reader Unit := Reader.map (fun _ => ()) (readRun skipCharacter)

end DrillPost.Json

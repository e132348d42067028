import DrillPost.Json.Value

/-!
# Values of a given kind

Readers for numbers, words of 32 bits, texts that may be missing, lists, and records. A record is
written as an object of its fields, or as the list of their values.
-/

namespace DrillPost.Json

/-- Whether a character begins a number. -/
def beginsNumber (c : Char) : Bool := c == '-' || c.isDigit

def readSigned : Reader Number
  | [] => .error (.before .endInValue [])
  | c :: r =>
    if c = '-' then Read.past c <$> readNumber true r else readNumber false (c :: r)

/-- Reads a number, and says what was expected if there is something else. -/
def readNumeric (expected : String) : Reader Number := fun s =>
  match nextChar s with
  | none => .error (.before .endInValue [])
  | some c =>
    if beginsNumber c.value then c.unread.thenRead readSigned
    else .error (mismatch expected c.unread.rest)

def readReal : Reader Binary64 := (readNumeric "f64").map Number.toBinary64

/-- Reads a whole number that fits 32 bits. -/
def readWord32 : Reader UInt32 := fun s =>
  match readNumeric "u32" s with
  | .error e => .error e
  | .ok x =>
    match x.value with
    | .int n =>
      if 0 ≤ n ∧ n < UInt32.size then .ok (x.map fun _ => n.toNat.toUInt32)
      else .error (.before (.data (Mismatch.range n "u32")) x.rest)
    | .real y => .error (.before (.data (Mismatch.kind layout (.real y) "u32")) x.rest)

/-- Reads a text, or nothing where there is `null`. -/
def readText? (expected : String) : Reader (Option String) := fun s =>
  match nextChar s with
  | none => .error (.before .endInValue [])
  | some c =>
    if c.value = 'n' then
      match readWord "ull".toList c.rest with
      | .error e => .error e
      | .ok t => .ok ((c.leave t).map fun _ => none)
    else if c.value = '"' then c.thenRead (Reader.map some readString)
    else .error (mismatch expected c.unread.rest)

def readList {α : Type} (item : Reader α) : Reader (List α) := fun s =>
  match nextChar s with
  | none => .error (.before .endInValue [])
  | some c =>
    if c.value = '[' then c.thenRead (readItems item true)
    else .error (mismatch "a sequence" c.unread.rest)

/-! ### Fixed numbers of items -/

/-- What has been read of a list, and what is left of the text. -/
abbrev Part (α : Type) (s : List Char) := α × Tail s

/-- Reads an item that a list must have; `found` items came before it. -/
def needItem {α : Type} (item : Reader α) (found : Nat) (expected : String) (s : List Char) :
    Except Failure (Part α s) :=
  match readItem? item (found == 0) s with
  | .error e => .error e
  | .ok none => .error (.before (.data (Mismatch.length found expected)) (afterList s))
  | .ok (some x) => .ok (x.value, x.toTail)

/-- Reads an item that a list may lack; `found` items may have come before it. -/
def itemOr {α : Type} (missing : α) (item : Reader α) (found : Nat) (s : List Char) :
    Except Failure (Part α s) :=
  match readItem? item (found == 0) s with
  | .error e => .error e
  | .ok none => .ok (missing, .all s)
  | .ok (some x) => .ok (x.value, x.toTail)

/-- Reads the end of the list that `part` was read from. -/
def Part.close {α : Type} {s : List Char} (part : Part α s) : Except Failure (Read α s) :=
  part.2.thenRead (Reader.map (fun _ => part.1) closeList)

/-- The same part of a longer text, with another value. -/
def Part.after {α β : Type} {s : List Char} (t : Tail s) (f : α → β) (part : Part α t.rest) :
    Part β s := (f part.1, t.andThen part.2)

/-! ### Records -/

/-- How a record is read. -/
structure Record (α : Type) where
  /-- What the record is called in messages. -/
  expected : String
  /-- Reads the items of a list and its end. -/
  ofList : Reader α
  /-- Reads the members of an object and its end. -/
  ofObject : Reader α

def Record.read {α : Type} (record : Record α) : Reader α := fun s =>
  match nextChar s with
  | none => .error (.before .endInValue [])
  | some c =>
    if c.value = '[' then c.thenRead record.ofList
    else if c.value = '\x7b' then c.thenRead record.ofObject
    else .error (mismatch record.expected c.unread.rest)

/-- Sets a field that may come once: it is wrong for the field to be set before. -/
def setOnce {σ α : Type} (name : String) (old : Option α) (item : Reader α) (set : α → σ) :
    Except String (Reader σ) :=
  if old.isSome then .error (Mismatch.duplicate name) else .ok (item.map set)

/-- Passes over the value of a member that means nothing. -/
def ignoreField {σ : Type} (state : σ) : Except String (Reader σ) :=
  .ok (skipValue.map fun _ => state)

end DrillPost.Json

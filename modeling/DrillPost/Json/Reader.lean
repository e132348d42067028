import DrillPost.Json.Failure
import DrillPost.Text.Reading

/-!
# Readers

A `Reader` takes a value off the front of a text or says why it cannot. `readItems` and
`readMembers` read lists and objects of any length; what an item or a member is they leave to
another reader.

`nextItem` and `nextMember` stand between items and members: they say where the next one starts, or
that none follows.
-/

namespace DrillPost.Json

/-- Takes a value off the front of a text. -/
abbrev Reader (α : Type) := (s : List Char) → Except Failure (Read α s)

def Reader.map {α β : Type} (f : α → β) (read : Reader α) : Reader β := fun s =>
  match read s with
  | .error e => .error e
  | .ok r => .ok (r.map f)

/-! ### Blanks -/

/-- The characters that may stand between tokens. -/
def isBlank (c : Char) : Bool := c == ' ' || c == '\n' || c == '\t' || c == '\r'

/-- The text from the next token on. -/
def skipBlank (s : List Char) : List Char := s.dropWhile isBlank

theorem length_skipBlank_le (s : List Char) : (skipBlank s).length ≤ s.length :=
  (List.dropWhile_sublist _).length_le

theorem length_lt_of_skipBlank {s t : List Char} {c : Char} (h : skipBlank s = c :: t) :
    t.length < s.length := by
  have := length_skipBlank_le s
  rw [h, List.length_cons] at this
  omega

/-- The first character that is no blank, and what follows it. -/
def nextChar (s : List Char) : Option (Read Char s) :=
  match h : skipBlank s with
  | [] => none
  | c :: r => some ⟨c, r, length_lt_of_skipBlank h⟩

/-! ### Lists -/

/-- Where the next item of a list starts, if one follows. -/
def nextItem (first : Bool) (s : List Char) : Except Failure (Option (Tail s)) :=
  match nextChar s with
  | none => .error (.atNext .endInList [])
  | some c =>
    if c.value = ']' then .ok none
    else if first then .ok (some c.unread)
    else if c.value = ',' then
      match nextChar c.rest with
      | none => .error (.atNext .endInValue [])
      | some d =>
        -- A comma promises another item.
        if d.value = ']' then .error (.atNext .trailingComma d.unread.rest)
        else .ok (some (c.toTail.andThen d.unread))
    else .error (.atNext .expectedCommaInList c.unread.rest)

def closeList : Reader Unit := fun s =>
  match nextChar s with
  | none => .error (.atNext .endInList [])
  | some c =>
    if c.value = ']' then .ok (c.map fun _ => ())
    else if c.value = ',' then
      if (skipBlank c.rest).head? = some ']' then
        .error (.atNext .trailingComma (skipBlank c.rest))
      else .error (.atNext .trailingCharacters (skipBlank c.rest))
    else .error (.atNext .trailingCharacters c.unread.rest)

/-- Where a list that was given up is left. -/
def afterList (s : List Char) : List Char :=
  match skipBlank s with
  | ']' :: r => r
  | ',' :: r => skipBlank r
  | r => r

def readItems {α : Type} (item : Reader α) (first : Bool) (s : List Char) :
    Except Failure (Read (List α) s) :=
  match nextItem first s with
  | .error e => .error e
  | .ok none => Reader.map (fun _ => []) closeList s
  | .ok (some t) =>
    match t.thenRead item with
    | .error e => .error e
    | .ok x =>
      match readItems item false x.rest with
      | .error e => .error e
      | .ok xs => .ok (x.andThen List.cons xs)
termination_by s.length
decreasing_by exact x.shorter

def readItem? {α : Type} (item : Reader α) (first : Bool) (s : List Char) :
    Except Failure (Option (Read α s)) :=
  match nextItem first s with
  | .error e => .error e
  | .ok none => .ok none
  | .ok (some t) => some <$> t.thenRead item

/-! ### Objects -/

/-- Where the key of the next member of an object starts, after its quote, if one follows. -/
def nextMember (first : Bool) (s : List Char) : Except Failure (Option (Tail s)) :=
  match nextChar s with
  | none => .error (.atNext .endInObject [])
  | some c =>
    if c.value = '\x7d' then .ok none
    else if first then
      if c.value = '"' then .ok (some c.toTail)
      else .error (.atNext .keyNotString c.unread.rest)
    else if c.value = ',' then
      match nextChar c.rest with
      | none => .error (.atNext .endInValue [])
      | some d =>
        if d.value = '"' then .ok (some (c.toTail.andThen d.toTail))
        else if d.value = '\x7d' then .error (.atNext .trailingComma d.unread.rest)
        else .error (.atNext .keyNotString d.unread.rest)
    else .error (.atNext .expectedCommaInObject c.unread.rest)

def readColon : Reader Unit := fun s =>
  match nextChar s with
  | none => .error (.atNext .endInObject [])
  | some c =>
    if c.value = ':' then .ok (c.map fun _ => ())
    else .error (.atNext .expectedColon c.unread.rest)

def closeObject : Reader Unit := fun s =>
  match nextChar s with
  | none => .error (.atNext .endInObject [])
  | some c =>
    if c.value = '\x7d' then .ok (c.map fun _ => ())
    else if c.value = ',' then .error (.atNext .trailingComma c.unread.rest)
    else .error (.atNext .trailingCharacters c.unread.rest)

/-- Where an object that was given up is left. -/
def afterObject (s : List Char) : List Char :=
  match skipBlank s with
  | '\x7d' :: r => r
  | r => r

/-- Reads the members of an object and its end. `key` reads a key after its quote. `field` says what
becomes of the state at a key: either there is something wrong with the key, or the value after it
is read into a new state. -/
def readMembers {σ : Type} (key : Reader String) (field : σ → String → Except String (Reader σ))
    (first : Bool) (state : σ) (s : List Char) : Except Failure (Read σ s) :=
  match nextMember first s with
  | .error e => .error e
  | .ok none => Reader.map (fun _ => state) closeObject s
  | .ok (some t) =>
    match t.thenRead key with
    | .error e => .error e
    | .ok name =>
      match field state name.value with
      | .error message => .error (.before (.data message) (afterObject name.rest))
      | .ok value =>
        match name.thenRead readColon with
        | .error e => .error e
        | .ok colon =>
          match colon.thenRead value with
          | .error e => .error e
          | .ok next =>
            match readMembers key field false next.value next.rest with
            | .error e => .error e
            | .ok last => .ok (next.andThen (fun _ state => state) last)
termination_by s.length
decreasing_by exact next.shorter

/-! ### Whole texts -/

/-- Reads a text that holds one value and nothing else. -/
def readText {α : Type} (read : Reader α) (text : String) : Except Error α :=
  match read text.toList with
  | .error e => .error (e.inText text)
  | .ok r =>
    if skipBlank r.rest = [] then .ok r.value
    else .error ((Failure.atNext .trailingCharacters (skipBlank r.rest)).inText text)

end DrillPost.Json

import DrillPost.Toml.Document
import DrillPost.Toml.Failure

/-!
# Values of a given kind

What the nodes of a document mean to someone who asks for a number, a text, a list or a record. A
fault lies where its value stands; what has no place of its own lies at its key, or else where the
table around it stands. Members are looked at in the order of the document, and the first fault
counts.
-/

namespace DrillPost.Toml

/-- Numbers in messages about documents. -/
def messageLayout : Layout := { Layout.message with keepsFraction := true }

/-- What a node means to someone who asks for something. -/
abbrev Meaning (α : Type) := Node → Except Fault α

namespace Node

/-- The node is of another kind than the one that was asked for. -/
def mismatch (expected : String) (n : Node) : Fault :=
  ⟨Mismatch.kind messageLayout n.found expected, n.span?⟩

def real : Meaning Binary64
  | .scalar _ (.int n) => .ok (.ofInt n)
  | .scalar _ (.real x) => .ok x
  | n => .error (n.mismatch "f64")

/-- The node as a whole number of 32 bits. -/
def word32 : Meaning UInt32
  | .scalar span (.int n) =>
    if 0 ≤ n ∧ n < UInt32.size then .ok n.toNat.toUInt32
    else .error ⟨Mismatch.range n "u32", span⟩
  | n => .error (n.mismatch "u32")

def text (expected : String) : Meaning String
  | .scalar _ (.text s) => .ok s
  | n => .error (n.mismatch expected)

/-- What every node of a list means. -/
def meanings {α : Type} (item : Meaning α) : List Node → Except Fault (List α)
  | [] => .ok []
  | n :: rest =>
    match item n with
    | .error f => .error f
    | .ok x =>
      match meanings item rest with
      | .error f => .error f
      | .ok xs => .ok (x :: xs)

/-- The items of a node that is a list. -/
def items? : Node → Option (List Node)
  | .array _ items => some items
  | .tables _ items => some items
  | _ => none

def list {α : Type} (item : Meaning α) (n : Node) : Except Fault (List α) :=
  match n.items? with
  | some items =>
    match meanings item items with
    | .ok xs => .ok xs
    | .error f => .error (f.orAt n.span?)
  | none => .error (n.mismatch "a sequence")

/-- The members of a node that is a map; those of a moment mean nothing. -/
def members? : Node → Option Members
  | .table _ _ members => some members
  | .scalar _ (.moment _) => some []
  | _ => none

end Node

/-- The item at a position of a list that must have it. -/
def needItem {α : Type} (item : Meaning α) (position : Nat) (expected : String)
    (items : List Node) : Except Fault α :=
  match items[position]? with
  | some n => item n
  | none => .error ⟨Mismatch.length position expected, none⟩

/-- The item at a position of a list that may lack it. -/
def itemOr {α : Type} (missing : α) (item : Meaning α) (position : Nat) (items : List Node) :
    Except Fault α :=
  match items[position]? with
  | some n => item n
  | none => .ok missing

/-! ### Records -/

/-- How a record is read from a document. -/
structure Record (σ α : Type) where
  /-- What the record is called in messages. -/
  expected : String
  /-- What the items of a list mean. -/
  ofItems : List Node → Except Fault α
  /-- What is known before the first member. -/
  start : σ
  /-- What a member adds to what is known. -/
  member : σ → String → Node → Except Fault σ
  /-- What is known in the end. -/
  finish : σ → Except Fault α

/-- What members add to what is known. -/
def addMembers {σ : Type} (member : σ → String → Node → Except Fault σ) (state : σ) :
    Members → Except Fault σ
  | [] => .ok state
  | (key, n) :: rest =>
    match member state key.name n with
    | .error f => .error (f.orAt (n.span? <|> some key.span))
    | .ok state => addMembers member state rest

def Record.read {σ α : Type} (record : Record σ α) : Meaning α := fun n =>
  match n.items?, n.members? with
  | some items, _ =>
    match record.ofItems items with
    | .ok x => .ok x
    | .error f => .error (f.orAt n.span?)
  | none, some members =>
    match (match addMembers record.member record.start members with
      | .ok state => record.finish state
      | .error f => .error f) with
    | .ok x => .ok x
    | .error f => .error (f.orAt n.span?)
  | none, none => .error (n.mismatch record.expected)

def readText {α : Type} (meaning : Meaning α) (text : String) : Except Error α :=
  match ofText? text with
  | none => .error .malformed
  | some n =>
    match meaning n with
    | .ok x => .ok x
    | .error f => .error (.content (f.inText text))

end DrillPost.Toml

import DrillPost.Toml.Node

/-!
# Growing tables

Lines of a document add members to tables one after another. What they may add follows one rule: a
table is described in one place. A header can fill a table that other headers only implied, a dotted
key can go on with a table that dotted keys began, and all else that would touch a table again is
refused.

`descend` follows a path into nested tables, makes those that are missing, and changes the members
of the last one.
-/

namespace DrillPost.Toml

namespace Members

/-- Splits members at a name: those before it, the member, and those after it. -/
def splitAt? (name : String) : Members → Option (Members × (Key × Node) × Members)
  | [] => none
  | m :: rest =>
    if m.1.name = name then some ([], m, rest)
    else (splitAt? name rest).map fun (before, found, after) => (m :: before, found, after)

end Members

/-- A change of the members of a table, which may be refused. It is told whether dotted keys began
the table, and may hand something out. -/
abbrev Change (α : Type) := (byDottedKey : Bool) → Members → Option (Members × α)

/-- Follows a path into the last of the tables of a header in double brackets. -/
def changeLast {α : Type} (change : Members → Option (Members × α)) :
    List Node → Option (List Node × α)
  | [] => none
  | [.table origin span members] =>
    (change members).map fun (members, a) => ([.table origin span members], a)
  | [_] => none
  | item :: items => (changeLast change items).map fun (items, a) => (item :: items, a)

/-- Follows a path from a table and changes the members where it ends. `dotted` says whether the
path belongs to a dotted key or to a header. -/
def descend {α : Type} (dotted : Bool) (change : Change α) :
    (path : List Key) → (byDottedKey : Bool) → Members → Option (Members × α)
  | [], byDottedKey, members => change byDottedKey members
  | key :: path, _, members =>
    match members.splitAt? key.name with
    | none =>
      (descend dotted change path dotted []).map fun (inner, a) =>
        (members ++ [(key, .table (if dotted then .dotted else .implied) none inner)], a)
    | some (before, (old, node), after) =>
      let put (node : Node) : Members := before ++ (old, node) :: after
      match node with
      | .scalar .. | .array .. => none
      | .tables span items =>
        (changeLast (descend dotted change path false) items).map fun (items, a) =>
          (put (.tables span items), a)
      | .table origin span inner =>
        if origin = .inline ∨ (dotted ∧ origin = .header) then none
        else
          (descend dotted change path (origin = .dotted) inner).map fun (inner, a) =>
            (put (.table origin span inner), a)

/-- Adds a member whose name is new. A dotted key may add it only to a table that dotted keys began,
and a key without dots only to another. -/
def addNew (viaPath : Bool) (key : Key) (value : Node) : Change Unit := fun byDottedKey members =>
  if viaPath ≠ byDottedKey ∨ (members.splitAt? key.name).isSome then none
  else some (members ++ [(key, value)], ())

/-- Adds the value of a key, dotted or not. -/
def assign (path : List Key) (value : Node) (members : Members) : Option Members :=
  match path.getLast? with
  | none => none
  | some key =>
    (descend true (addNew (path.length ≠ 1) key value) path.dropLast false members).map Prod.fst

/-- Makes room for a table that gets a header, and hands out the members that it has already. -/
def takeImplied (key : Key) : Change Members := fun _ members =>
  match members.splitAt? key.name with
  | none => some (members, [])
  | some (before, (_, .table .implied _ inner), after) => some (before ++ after, inner)
  | some _ => none

/-- Puts a table at the end of the members. -/
def putTable (key : Key) (table : Node) : Change Unit := fun _ members =>
  some (members ++ [(key, table)], ())

/-- Makes room for the tables of headers in double brackets. -/
def openTables (key : Key) : Change Unit := fun _ members =>
  match members.splitAt? key.name with
  | none => some (members ++ [(key, .tables none [])], ())
  | some (_, (_, .tables ..), _) => some (members, ())
  | some _ => none

/-- The stretch from the beginning of the first item to the end of the last. -/
def spanOf (items : List Node) : Option Span :=
  match items.head?.bind Node.span?, items.getLast?.bind Node.span? with
  | some first, some last => some ⟨first.start, last.stop⟩
  | _, _ => none

/-- Puts a table at the end of the tables of headers in double brackets. -/
def pushTable (key : Key) (table : Node) : Change Unit := fun _ members =>
  match members.splitAt? key.name with
  | some (before, (old, .tables _ items), after) =>
    some (before ++ (old, .tables (spanOf (items ++ [table])) (items ++ [table])) :: after, ())
  | _ => none

/-- Changes what a header's path leads to. -/
def atHeader {α : Type} (change : Key → Change α) (path : List Key) (members : Members) :
    Option (Members × α) :=
  match path.getLast? with
  | none => none
  | some key => descend false (change key) path.dropLast false members

end DrillPost.Toml

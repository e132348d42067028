/-!
# Reading from the front of a text

A `Read` is a value taken off the front of a text, with the proof that something was taken; a `Tail`
is what is left of a text when perhaps nothing was. Readers are put together from the ways in which
these follow one another, so none has to prove anything of its own, and any reader can be repeated
until nothing is left.

`readRun` repeats a step until one says that it is the last.

Where a text is cut at byte positions instead, a position inside a character cuts nothing.
-/

namespace DrillPost

/-- A value read from the front of `s`, and what is left. -/
structure Read (α : Type) (s : List Char) where
  value : α
  rest : List Char
  shorter : rest.length < s.length

/-- A later part of a text, which may be all of it. -/
structure Tail (s : List Char) where
  rest : List Char
  notLonger : rest.length ≤ s.length

variable {α β γ : Type} {s : List Char}

/-! ### Tails -/

namespace Tail

def all (s : List Char) : Tail s := ⟨s, Nat.le_refl _⟩

/-- The text after so many characters. -/
def drop (count : Nat) (s : List Char) : Tail s :=
  ⟨s.drop count, by simp⟩

/-- The text after the characters at its front that satisfy `p`. -/
def dropRun (p : Char → Bool) (s : List Char) : Tail s :=
  ⟨s.dropWhile p, (List.dropWhile_sublist p).length_le⟩

/-- The same tail of the text with a character before it. -/
def past (c : Char) (t : Tail s) : Tail (c :: s) := ⟨t.rest, Nat.le_succ_of_le t.notLonger⟩

def andThen (t : Tail s) (u : Tail t.rest) : Tail s :=
  ⟨u.rest, Nat.le_trans u.notLonger t.notLonger⟩

/-- The first character of a tail, and what follows it. -/
def first? (t : Tail s) : Option (Read Char s) :=
  match h : t.rest with
  | [] => none
  | c :: r => some ⟨c, r, by have := t.notLonger; rw [h] at this; exact this⟩

end Tail

/-! ### Values -/

namespace Read

/-- The first character is taken, and stands for a value. -/
def one (value : α) (c : Char) (r : List Char) : Read α (c :: r) := ⟨value, r, Nat.lt_succ_self _⟩

/-- The first character is taken and perhaps more, and stands for a value. -/
def ofTail (value : α) (c : Char) (t : Tail s) : Read α (c :: s) :=
  ⟨value, t.rest, Nat.lt_succ_of_le t.notLonger⟩

/-- The same reading with another value. -/
def map (f : α → β) (x : Read α s) : Read β s := ⟨f x.value, x.rest, x.shorter⟩

/-- The same reading from the text with a character before it. -/
def past (c : Char) (x : Read α s) : Read α (c :: s) :=
  ⟨x.value, x.rest, Nat.lt_succ_of_lt x.shorter⟩

/-- A reading from a tail, as a reading from the text. -/
def within (t : Tail s) (x : Read α t.rest) : Read α s :=
  ⟨x.value, x.rest, Nat.lt_of_lt_of_le x.shorter t.notLonger⟩

/-- A reading from what another one left. -/
def andThen (x : Read α s) (f : α → β → γ) (y : Read β x.rest) : Read γ s :=
  ⟨f x.value y.value, y.rest, Nat.lt_trans y.shorter x.shorter⟩

/-- The same value, with less left. -/
def leave (x : Read α s) (t : Tail x.rest) : Read α s :=
  ⟨x.value, t.rest, Nat.lt_of_le_of_lt t.notLonger x.shorter⟩

def toTail (x : Read α s) : Tail s := ⟨x.rest, Nat.le_of_lt x.shorter⟩

/-- The text from the character that was read on. -/
def unread (x : Read Char s) : Tail s := ⟨x.value :: x.rest, x.shorter⟩

/-- The same value when a character is taken too, if it is next. -/
def skip? (c : Char) (x : Read α s) : Option (Read α s) :=
  match x.toTail.first? with
  | none => none
  | some d => if d.value = c then some (d.map fun _ => x.value) else none

def thenRead {m : Type → Type} [Functor m] (x : Read α s)
    (read : (t : List Char) → m (Read β t)) : m (Read β s) :=
  x.andThen (fun _ value => value) <$> read x.rest

end Read

def Tail.thenRead {m : Type → Type} [Functor m] (t : Tail s)
    (read : (t : List Char) → m (Read α t)) : m (Read α s) :=
  Read.within t <$> read t.rest

/-! ### Runs -/

/-- One step in the reading of a run of items. -/
inductive Step (α : Type) (s : List Char) where
  /-- The run ends with these items. -/
  | last (items : Read (List α) s)
  /-- More may follow these items. -/
  | more (items : Read (List α) s)

/-- Takes steps up to the last one, and gathers the items. -/
@[specialize] def readRun {m : Type → Type} [Monad m] (step : (s : List Char) → m (Step α s))
    (s : List Char) : m (Read (List α) s) := do
  match ← step s with
  | .last items => return items
  | .more items =>
    let others ← readRun step items.rest
    return items.andThen (· ++ ·) others
termination_by s.length
decreasing_by exact items.shorter

/-! ### Bytes -/

/-- How many bytes the characters take. -/
def byteCount : List Char → Nat
  | [] => 0
  | c :: r => c.utf8Size + byteCount r

/-- The characters before a byte position and those from there on, unless the position is inside a
character or beyond the end. -/
def splitAtByte? : List Char → (position : Nat) → Option (List Char × List Char)
  | s, 0 => some ([], s)
  | [], _ + 1 => none
  | c :: r, position + 1 =>
    if c.utf8Size ≤ position + 1 then
      (splitAtByte? r (position + 1 - c.utf8Size)).map fun (before, after) => (c :: before, after)
    else none

/-- The part of a text between two byte positions, unless one of them is inside a character. -/
def cut? (s : List Char) (start stop : Nat) : Option (List Char) :=
  (splitAtByte? s start).bind fun (_, after) =>
    (splitAtByte? after (stop - start)).map Prod.fst

end DrillPost

import DrillPost.Json.Value
import DrillPost.Proofs.Json.Numeral
import DrillPost.Proofs.Json.Reader
import Mathlib.Tactic.SplitIfs

/-!
# What a text says of its numbers

A tree has forgotten how its numbers were written. A `Json.Source` has not: it is a tree whose
numbers keep their literals, and `Source.toTree` is what is left when they are forgotten.
`readSource` reads a text like `readTree`, with the same failures, and nothing is different once
the literals are forgotten (`readTree_eq`). The number that a literal denotes is the one that its
characters denote (`number?_of_readWritten`).
-/

namespace DrillPost.Json

/-- A number with the literal that it was read from. -/
structure Written where
  isNegative : Bool
  literal : Literal
  number : Number
  isRead : ∃ rest, literal.value isNegative rest = .ok number

/-- The number that a literal denotes with its sign, whatever it is read as. -/
def Written.toRat (n : Written) : ℚ :=
  if n.isNegative then -n.literal.numeral.toRat else n.literal.numeral.toRat

/-- A value as it is written. -/
inductive Source where
  | null
  | bool (b : Bool)
  | number (n : Written)
  | text (s : String)
  | list (items : List Source)
  | map (members : List (String × Source))

namespace Source

mutual

def toTree : Source → Tree
  | .null => .null
  | .bool b => .bool b
  | .number n => (Scalar.number n.number).toTree
  | .text s => .text s
  | .list items => .list (toTrees items)
  | .map members => .map (toMembers members)

def toTrees : List Source → List Tree
  | [] => []
  | item :: items => toTree item :: toTrees items

def toMembers : List (String × Source) → List (String × Tree)
  | [] => []
  | (name, value) :: members => (name, toTree value) :: toMembers members

end

theorem toTrees_eq (items : List Source) : toTrees items = items.map toTree := by
  induction items with
  | nil => rfl
  | cons item items ih => rw [toTrees, ih, List.map_cons]

theorem toMembers_eq (members : List (String × Source)) :
    toMembers members = members.map (Prod.map id toTree) := by
  induction members with
  | nil => rfl
  | cons member members ih => rw [toMembers, ih, List.map_cons, Prod.map, id]

@[simp] theorem toTree_list (items : List Source) :
    (list items).toTree = .list (items.map toTree) := by
  rw [toTree, toTrees_eq]

@[simp] theorem toTree_map (members : List (String × Source)) :
    (map members).toTree = .map (members.map (Prod.map id toTree)) := by
  rw [toTree, toMembers_eq]

end Source

/-! ### Readers of other values -/

variable {α β γ ε : Type} {s : List Char}

@[simp] theorem map_ok (f : α → β) (a : α) : f <$> (.ok a : Except ε α) = .ok (f a) := rfl

@[simp] theorem map_error (f : α → β) (e : ε) : f <$> (.error e : Except ε α) = .error e := rfl

theorem thenRead_map (f : α → β) (x : Read γ s) (read : Reader α) :
    x.thenRead (Reader.map f read) = Read.map f <$> x.thenRead read := by
  rw [Read.thenRead, Reader.map_apply, Functor.map_map, Read.thenRead, Functor.map_map]
  rfl

theorem Tail.thenRead_map (f : α → β) (t : Tail s) (read : Reader α) :
    t.thenRead (Reader.map f read) = Read.map f <$> t.thenRead read := by
  rw [Tail.thenRead, Reader.map_apply, Functor.map_map, Tail.thenRead, Functor.map_map]
  rfl

theorem readItems_map (f : α → β) (item : Reader α) (first : Bool) (s : List Char) :
    readItems (Reader.map f item) first s = Read.map (List.map f) <$> readItems item first s := by
  fun_induction readItems item first s with
  | case1 first s e hnext =>
    rw [readItems]
    simp only [hnext, map_error]
  | case2 first s hnext =>
    rw [readItems]
    simp only [hnext, Reader.map_apply, Functor.map_map]
    rfl
  | case3 first s t hnext e hitem =>
    rw [readItems]
    simp only [hnext, Tail.thenRead_map, hitem, map_error]
  | case4 first s t hnext x hitem e hrest ih =>
    rw [readItems]
    simp only [hnext, Tail.thenRead_map, hitem, map_ok, Read.map, ih, hrest, map_error]
  | case5 first s t hnext x hitem xs hrest ih =>
    rw [readItems]
    simp only [hnext, Tail.thenRead_map, hitem, map_ok, Read.map, ih, hrest, Read.andThen,
      List.map_cons]

theorem readMembers_map {f : α → β} {field : α → String → Except String (Reader α)}
    {field' : β → String → Except String (Reader β)} {key : Reader String}
    (hfield : ∀ state name, field' (f state) name = Reader.map f <$> field state name)
    (first : Bool) (state : α) (s : List Char) :
    readMembers key field' first (f state) s =
      Read.map f <$> readMembers key field first state s := by
  -- The induction is over the reading of the members themselves; the other reading takes the same
  -- steps.
  fun_induction readMembers key field first state s with
  | case1 first state s e hnext =>
    rw [readMembers]
    simp only [hnext, map_error]
  | case2 first state s hnext =>
    rw [readMembers]
    simp only [hnext, Reader.map_apply, Functor.map_map]
    rfl
  | case3 first state s t hnext e hkey =>
    rw [readMembers]
    simp only [hnext, hkey, map_error]
  | case4 first state s t hnext name hkey message hvalue =>
    rw [readMembers]
    simp only [hnext, hkey, hfield, hvalue, map_error]
  | case5 first state s t hnext name hkey value hvalue e hcolon =>
    rw [readMembers]
    simp only [hnext, hkey, hfield, hvalue, map_ok, hcolon, map_error]
  | case6 first state s t hnext name hkey value hvalue colon hcolon e hnew =>
    rw [readMembers]
    simp only [hnext, hkey, hfield, hvalue, map_ok, hcolon, thenRead_map, hnew, map_error]
  | case7 first state s t hnext name hkey value hvalue colon hcolon new hnew e hrest ih =>
    rw [readMembers]
    simp only [hnext, hkey, hfield, hvalue, map_ok, hcolon, thenRead_map, hnew, Read.map, ih, hrest,
      map_error]
  | case8 first state s t hnext name hkey value hvalue colon hcolon new hnew last hrest ih =>
    rw [readMembers]
    simp only [hnext, hkey, hfield, hvalue, map_ok, hcolon, thenRead_map, hnew, Read.map, ih, hrest,
      Read.andThen]

/-! ### Reading -/

/-- The number that a literal is read as, with the literal. -/
def Written.ofLiteral (l : Literal) (isNegative : Bool) (rest : List Char) :
    Except Failure Written :=
  match h : l.value isNegative rest with
  | .error e => .error e
  | .ok n => .ok ⟨isNegative, l, n, rest, h⟩

def readWritten (isNegative : Bool) : Reader Written := fun s =>
  match readLiteral .endInValue s with
  | .error e => .error e
  | .ok l =>
    match Written.ofLiteral l.value isNegative l.rest with
    | .error e => .error e
    | .ok n => .ok (l.map fun _ => n)

/-- The characters that a number is read from denote the number. -/
theorem number?_of_readWritten {isNegative : Bool} {n : Read Written s}
    (h : readWritten isNegative s = .ok n) :
    ∃ chars, s = chars ++ n.rest ∧
      Numeral.number? (signText isNegative ++ chars) = some n.value.toRat := by
  unfold readWritten at h
  split at h
  · cases h
  · next l hliteral =>
    obtain ⟨chars, hs, hchars⟩ := ofText?_of_readLiteral hliteral
    split at h
    · cases h
    · next w hw =>
      cases h
      refine ⟨chars, hs, ?_⟩
      unfold Written.ofLiteral at hw
      split at hw
      · cases hw
      · cases hw
        exact Numeral.number?_signText hchars isNegative

def readSourceScalar : Reader Source
  | [] => .error (.before .endInValue [])
  | c :: r =>
    if c = 'n' then readNamed c "ull" .null r
    else if c = 't' then readNamed c "rue" (.bool true) r
    else if c = 'f' then readNamed c "alse" (.bool false) r
    else if c = '"' then Read.past c <$> Reader.map .text readString r
    else if c = '-' then Read.past c <$> Reader.map .number (readWritten true) r
    else if c.isDigit then Reader.map .number (readWritten false) (c :: r)
    else .error (.atNext .expectedValue (c :: r))

/-- A member whose value is read is the last of those that were read before. -/
def addSource (read : Reader Source) (members : List (String × Source)) (name : String) :
    Except String (Reader (List (String × Source))) :=
  .ok (read.map fun value => (name, value) :: members)

/-- Reads a value whose brackets stand at most `depth` deep. -/
def readSourceWithin (depth : Nat) : Reader Source := fun s =>
  match nextChar s with
  | none => .error (.before .endInValue [])
  | some c =>
    if c.value = '[' then
      match depth with
      | 0 => .error (.atNext .tooDeep c.unread.rest)
      | depth + 1 => c.thenRead (Reader.map .list (readItems (readSourceWithin depth) true))
    else if c.value = '\x7b' then
      match depth with
      | 0 => .error (.atNext .tooDeep c.unread.rest)
      | depth + 1 =>
        c.thenRead (Reader.map (fun members => .map members.reverse)
          (readMembers readString (addSource (readSourceWithin depth)) true []))
    else c.unread.thenRead readSourceScalar

def readSource : Reader Source := readSourceWithin maxDepth

/-! ### Forgetting how numbers were written -/

theorem Written.number_ofLiteral (l : Literal) (isNegative : Bool) (rest : List Char) :
    Written.number <$> Written.ofLiteral l isNegative rest = l.value isNegative rest := by
  unfold Written.ofLiteral
  split
  · next h => rw [h, map_error]
  · next h => exact h.symm

theorem readNumber_eq (isNegative : Bool) :
    readNumber isNegative = Reader.map Written.number (readWritten isNegative) := by
  funext s
  rw [Reader.map_apply, readNumber, readWritten]
  cases readLiteral .endInValue s with
  | error e => rfl
  | ok l =>
    dsimp only
    rw [← Written.number_ofLiteral]
    cases Written.ofLiteral l.value isNegative l.rest with
    | error e => rfl
    | ok n => rfl

theorem readNamed_map (f : α → β) (first : Char) (word : String) (value : α) (r : List Char) :
    readNamed first word (f value) r = Read.map f <$> readNamed first word value r := by
  rw [readNamed, readNamed, Functor.map_map]
  rfl

theorem readScalar_eq :
    Reader.map Scalar.toTree readScalar = Reader.map Source.toTree readSourceScalar := by
  funext s
  rw [Reader.map_apply, Reader.map_apply]
  cases s with
  | nil => rfl
  | cons c r =>
    unfold readScalar readSourceScalar
    rw [readNumber_eq, readNumber_eq]
    dsimp only
    -- Both readers choose by the same character, so the branches are compared one by one.
    split_ifs
    · rw [← readNamed_map, ← readNamed_map]
      rfl
    · rw [← readNamed_map, ← readNamed_map]
      rfl
    · rw [← readNamed_map, ← readNamed_map]
      rfl
    · simp only [Reader.map_apply, Functor.map_map]
      rfl
    · simp only [Reader.map_apply, Functor.map_map]
      rfl
    · simp only [Reader.map_apply, Functor.map_map]
      rfl
    · rfl

theorem readMembers_addMember (read : Reader Source) (s : List Char) :
    readMembers readString (addMember (Reader.map Source.toTree read)) true [] s =
      Read.map (List.map (Prod.map id Source.toTree)) <$>
        readMembers readString (addSource read) true [] s := by
  refine readMembers_map (f := List.map (Prod.map id Source.toTree)) ?_ true [] s
  intro state name
  rw [addMember, addSource, map_ok]
  congr 1
  funext s
  simp only [Reader.map_apply, Functor.map_map]
  rfl

theorem readTreeWithin_eq (depth : Nat) :
    readTreeWithin depth = Reader.map Source.toTree (readSourceWithin depth) := by
  induction depth with
  | zero =>
    funext s
    rw [Reader.map_apply, readTreeWithin, readSourceWithin]
    cases nextChar s with
    | none => rfl
    | some c =>
      dsimp only
      split_ifs
      · rfl
      · rfl
      · rw [readScalar_eq, Tail.thenRead_map]
  | succ depth ih =>
    funext s
    rw [Reader.map_apply, readTreeWithin, readSourceWithin]
    cases nextChar s with
    | none => rfl
    | some c =>
      dsimp only
      split_ifs
      · rw [ih, ← thenRead_map]
        congr 1
        funext t
        simp only [Reader.map_apply, readItems_map, Functor.map_map]
        congr 1
        funext x
        simp only [Read.map, Source.toTree_list]
      · rw [ih, ← thenRead_map]
        congr 1
        funext t
        simp only [Reader.map_apply, readMembers_addMember, Functor.map_map]
        congr 1
        funext x
        simp only [Read.map, Source.toTree_map, List.map_reverse]
      · rw [readScalar_eq, Tail.thenRead_map]

theorem readTree_eq : readTree = Reader.map Source.toTree readSource := readTreeWithin_eq maxDepth

end DrillPost.Json

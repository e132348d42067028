import DrillPost.Proofs.Gcode.Word

/-!
# A machine that runs programs

The text of a program is read line by line. Blank lines and lines that begin with a semicolon are
skipped; any other line is a command, its words separated by spaces. `Machine.read?` gives the
commands of a text, unless some line is none, and `Machine.execute` the steps in which the machine
carries them out, up to the command that ends the program.

The lines that a program is written in read as the commands they stand for
(`Machine.read?_renderLines`).
-/

namespace DrillPost

namespace Machine

open Gcode

/-! ### Commands -/

/-- The words of a move: how fast it is, and where it leads on each axis that has a word. -/
structure Move where
  feed : Option Nat
  x : Option Binary64
  y : Option Binary64
  z : Option Binary64
deriving DecidableEq

/-- What a line tells the machine to do. -/
inductive Command where
  | absolute
  | millimetres
  | startSpindle (power : Nat)
  | move (m : Move)
  | stopSpindle
  | finish
deriving DecidableEq

def Move.empty : Move := ⟨none, none, none, none⟩

/-- The value of the number in a word: a decimal that may have a sign but no exponent. -/
def number? (word : List Char) : Option Binary64 :=
  let digits := if word.head? = some '-' then word.tail else word
  if digits.all fun c => c.isDigit || c == '.' then (Binary64.ofText (String.ofList word)).toOption
  else none

/-- The move with one word more. No letter comes twice. -/
def Move.addWord? (m : Move) (word : List Char) : Option Move :=
  match word with
  | 'F' :: digits =>
    if m.feed = none then (Numeral.digits? digits).map fun n => { m with feed := some n } else none
  | 'X' :: number =>
    if m.x = none then (number? number).map fun x => { m with x := some x } else none
  | 'Y' :: number =>
    if m.y = none then (number? number).map fun y => { m with y := some y } else none
  | 'Z' :: number =>
    if m.z = none then (number? number).map fun z => { m with z := some z } else none
  | _ => none

/-- The command that the words of a line make up. -/
def ofWords? : List (List Char) → Option Command
  | [['G', '9', '0']] => some .absolute
  | [['G', '2', '1']] => some .millimetres
  | [['M', '3'], 'P' :: digits] => (Numeral.digits? digits).map .startSpindle
  | ['G', '1'] :: words => (words.foldlM Move.addWord? Move.empty).map .move
  | [['M', '5']] => some .stopSpindle
  | [['M', '2']] => some .finish
  | _ => none

/-- A line that tells the machine nothing. -/
def isSkipped (line : List Char) : Bool := line.isEmpty || line.head? == some ';'

/-- The words of each line that is not skipped. -/
def wordLines (text : String) : List (List (List Char)) :=
  ((text.toList.splitOn '\n').filter fun line => !isSkipped line).map fun line => line.splitOn ' '

/-- The commands of a text, unless there is a line that is neither skipped nor a command. -/
def read? (text : String) : Option (List Command) := (wordLines text).mapM ofWords?

/-! ### Execution -/

/-- How the machine is set and where its tool is, as far as the program has said. -/
structure State where
  isAbsolute : Bool
  isMillimetres : Bool
  /-- The power of the spindle while it turns. -/
  spindle : Option Nat
  x : Option Binary64
  y : Option Binary64
  z : Option Binary64
deriving DecidableEq

def State.initial : State := ⟨false, false, none, none, none, none⟩

def State.after (s : State) : Command → State
  | .absolute => { s with isAbsolute := true }
  | .millimetres => { s with isMillimetres := true }
  | .startSpindle power => { s with spindle := some power }
  | .move m => { s with x := m.x.or s.x, y := m.y.or s.y, z := m.z.or s.z }
  | .stopSpindle => { s with spindle := none }
  | .finish => s

/-- A command as it is carried out. -/
structure Action where
  before : State
  command : Command
deriving DecidableEq

/-- The steps of a machine that is given commands. -/
def execute : State → List Command → List Action
  | _, [] => []
  | s, c :: cs => ⟨s, c⟩ :: if c = .finish then [] else execute (s.after c) cs

/-- What is carried out before the end of a program does not depend on what comes later. -/
theorem execute_append {cs : List Command} (h : Command.finish ∉ cs) (s : State)
    (ds : List Command) :
    execute s (cs ++ ds) = execute s cs ++ execute (cs.foldl State.after s) ds := by
  induction cs generalizing s with
  | nil => rfl
  | cons c cs ih =>
    have hc : c ≠ .finish := fun heq => h (heq ▸ List.mem_cons_self)
    rw [List.cons_append, execute, execute, if_neg hc, if_neg hc, List.foldl_cons,
      ih fun hmem => h (List.mem_cons_of_mem _ hmem), List.cons_append]

end Machine

end DrillPost

import DrillPost.Job.Basic
import DrillPost.Settings.Basic

/-!
# Lines of a program

A program is a list of lines. `header` starts the spindle and moves nothing, `cycle` drills one hole
by travelling, plunging and retracting, and `footer` moves out of the way and stops. `renderLines`
writes each line and a newline after it.

A number in a program is the shortest decimal that reads back, never with an exponent, and zero has
no sign. A coordinate always has a fraction; other numbers have one only when they need it.

A travel has no height of its own: it relies on the retract before it, and before the first hole on
the tool standing clear of the table.
-/

namespace DrillPost.Gcode

/-! ### Numbers -/

/-- A height, a depth or a diameter: `25`, `0.8`. -/
def scalar (x : Binary64) : String := if x.isZero then "0" else x.text

/-- A coordinate: `10.0`, `3.5`. -/
def coordinate (x : Binary64) : String :=
  if x.isFinite ∧ '.' ∉ (scalar x).toList then scalar x ++ ".0" else scalar x

/-! ### Lines -/

/-- One line of a program. -/
inductive Line where
  | blank
  /-- A line that the machine skips. -/
  | comment (text : String)
  /-- Positions are absolute. -/
  | absolute
  /-- Lengths are millimetres. -/
  | millimetres
  | startSpindle (power : UInt32)
  /-- Moves above a hole, at the height where the tool is. -/
  | travel (hole : Hole)
  /-- Moves down to a depth below the surface. -/
  | plunge (depth : Binary64)
  /-- Moves up out of a hole. -/
  | retract (height : Binary64)
  /-- Moves up after the last hole. -/
  | withdraw (height : Binary64)
  | stopSpindle
  | finish
deriving DecidableEq

/-- How fast the tool travels and retracts, in millimetres per minute. -/
def travelFeed : Nat := 300

/-- How fast the tool plunges, in millimetres per minute. -/
def plungeFeed : Nat := 100

/-- How fast the tool moves up after the last hole, in millimetres per minute. -/
def withdrawFeed : Nat := 30000

def Line.text : Line → String
  | .blank => ""
  | .comment text => ";" ++ text
  | .absolute => "G90"
  | .millimetres => "G21"
  | .startSpindle power => s!"M3 P{power.toNat}"
  | .travel hole => s!"G1 F{travelFeed} X" ++ coordinate hole.x ++ " Y" ++ coordinate hole.y
  | .plunge depth => s!"G1 F{plungeFeed} Z-" ++ scalar depth
  | .retract height => s!"G1 F{travelFeed} Z" ++ scalar height
  | .withdraw height => "G1 Z" ++ scalar height ++ s!" F{withdrawFeed}"
  | .stopSpindle => "M5"
  | .finish => "M2"

/-- Writes lines, each with a newline at its end. -/
def renderLines (lines : List Line) : String := String.join (lines.map fun l => l.text ++ "\n")

/-! ### The thumbnail

The picture that a program carries for the display of the machine is blank, so only its size tells
it from others, and it is the same for every program. -/

namespace Thumbnail

def width : Nat := 720

def height : Nat := 480

/-- The digit for six bits. -/
def base64Digit (n : Nat) : Char :=
  if n < 26 then Char.ofNat ('A'.toNat + n)
  else if n < 52 then Char.ofNat ('a'.toNat + (n - 26))
  else if n < 62 then Char.ofNat ('0'.toNat + (n - 52))
  else if n = 62 then '+'
  else '/'

/-- Writes bytes, of which every three make four digits. -/
def base64 : Bytes → List Char
  | a :: b :: c :: r =>
    let bits := (a.toNat * 256 + b.toNat) * 256 + c.toNat
    base64Digit (bits / 2 ^ 18) :: base64Digit (bits / 2 ^ 12 % 64) ::
      base64Digit (bits / 2 ^ 6 % 64) :: base64Digit (bits % 64) :: base64 r
  | _ => []

/-- A number in four bytes, the highest first. -/
def word (n : Nat) : Bytes :=
  [(n >>> 24).toUInt8, (n >>> 16).toUInt8, (n >>> 8).toUInt8, n.toUInt8]

/-- What the picture begins with: a mark of its notation, and the size in a chunk of its own. -/
def head : Bytes :=
  [0x89] ++ utf8 "PNG\r\n" ++ [0x1A] ++ utf8 "\n" ++ word 13 ++ utf8 "IHDR" ++ word width ++
    word height

/-- What follows the size: how a point is coloured, and the beginning of the points. -/
def opening : String :=
  "CAYAAACMxVqsAAAfaElEQVR4Ae3AA6AkWZbG8f937o3IzKdyS2Oubdu2bdu2bdu2bWmMnpZKr54yMyLu+Xa3anqm" ++
  "hztr1S+"

/-- The stretch that repeats in the middle of the picture. -/
def repeated : String :=
  "46qqrrrrqqquuuuqqq15UBFddddVVV1111VVXXXXVi4rgqquuuuqqq6666qqrrnpREVx11VVXXXXVVVddddVVLyqCq" ++
  "6666qqrrrrqqquuuupFRXDVVVddddVVV1111VVXvagIrrrqqquuuuqqq6666qoXFcFVV1111VVXXXXVVVdd9aIiuOq" ++
  "qq6666qqrrrrqqqteVARXXXXVVVddddVVV1111YuK4Kqrrrrqqquuuuqqq656URFcddVVV1111VVXXXXVVS8qgquuu" ++
  "uqqq6666qqrrrrqRUVw1VVXXXXVVVddddVVV72oCK666qqrrrrqqquuuuqqFxXBVVddddVVV1111VVXXfWiIrjqqqu" ++
  "uuuqqq6666qqrXlQEV1111VVXXXXVVVddddWLiuCqq6666qqrrrrqqquuelERXHXVVVddddVVV1111VUvKoKrrrrqq" ++
  "quuuuqqq6666kVFcNVVV1111VVXXXXVVVe9qAiuuuqqq6666qqrrrrqqhcVwVVXXXXVVVddddVVV131oiK"

def closing : String :=
  "46qqrrrrqqquuuuqqq15UBFddddVVV1111VVXXXXVi4rgqquuuuqqq6666qqrrnpREVx11VVXXXXVVVddddVVLyqCq" ++
  "6666qqrrrrqqquuuupFRXDVVVddddVVV1111VVXvagIrrrqqquuuuqqq6666qoXFcFVV1111VVXXXXVVVdd9aIiuOq" ++
  "qq6666qqrrrrqqqteVARXXXXVVVddddVVV1111YuK4Kqrrrrqqquuuuqqq656URFcddVVV1111VVXXXXVVS8qgquuu" ++
  "uqqq6666qqrrrrqRUVw1VVXXXXVVVddddVVV72oCK666qqrrrrqqquuuuqqFxXBVVddddVVV1111VVXXfWiIrjqqqu" ++
  "uuuqqq6666qqrXlQEV1111VVXXXXVVVddddWLiuCqq6666qqrrrrqqquuelERXHXVVVddddVVV1111VUvKoKrrrrqq" ++
  "quuuuqqq6666kVFcNVVV1111VVXXXXVVVe9qAiuuuqqq6666qqrrrrqqhcVwVVXXXXVVVddddVVV131ouIfAQvTA8G" ++
  "BJn1+AAAAAElFTkSuQmCC"

def payload : String :=
  String.ofList (base64 head) ++ (opening ++ String.join (List.replicate 19 repeated) ++ closing)

/-- The picture as a text that can stand for an address. -/
def uri : String := "data:image/png;base64," ++ payload

end Thumbnail

/-! ### Programs -/

/-- What the header says of the job. The machine wants these entries, but none depends on the
job. -/
def metadata : List (String × String) := [
  ("header_type", "cnc"),
  ("tool_head", "standardCNCToolheadForSM2"),
  ("machine", "A350"),
  ("renderMethod", "line"),
  ("file_total_lines", "24557"),
  ("estimated_time(s)", "6908.736"),
  ("is_rotate", "false"),
  ("diameter", "35"),
  ("max_x(mm)", "133.31"),
  ("max_y(mm)", "174.997"),
  ("max_z(mm)", "80"),
  ("max_b(mm)", "0"),
  ("min_x(mm)", "-133.313"),
  ("min_y(mm)", "-175"),
  ("min_b(mm)", "0"),
  ("min_z(mm)", "-2"),
  ("work_speed(mm/minute)", "300"),
  ("jog_speed(mm/minute)", "1500"),
  ("power(%)", "0"),
  ("work_size_x", "320"),
  ("work_size_y", "350"),
  ("origin", "center")]

/-- The lines before the first hole. -/
def header (spindlePower : UInt32) : List Line :=
  .comment "Header Start" ::
  metadata.map (fun (key, value) => .comment (key ++ ": " ++ value)) ++ [
  .comment ("thumbnail: " ++ Thumbnail.uri),
  .comment "Header End",
  .blank,
  .comment " G-code for laser engraving",
  .comment " Generated by Snapmaker Luban",
  .comment " G-code START <<<",
  .absolute,
  .millimetres,
  .startSpindle spindlePower]

/-- The lines that drill one hole. -/
def cycle (safeHeight drillDepth : Binary64) (hole : Hole) : List Line :=
  [.travel hole, .plunge drillDepth, .retract safeHeight]

/-- The lines after the last hole. -/
def footer (safeHeight : Binary64) : List Line := [
  .blank,
  .comment " stop spindle",
  .blank,
  .comment " go to safe height",
  .withdraw safeHeight,
  .comment " program ends",
  .stopSpindle,
  .finish]

/-- The lines that drill one hole, unless a tool cannot go to that height or depth. -/
def checkedCycle (safeHeight drillDepth : Binary64) (hole : Hole) :
    Except SettingsFault (List Line) :=
  match { ProgramSettings.standard with safeHeight, drillDepth }.fault? with
  | some fault => .error fault
  | none => .ok (cycle safeHeight drillDepth hole)

end DrillPost.Gcode

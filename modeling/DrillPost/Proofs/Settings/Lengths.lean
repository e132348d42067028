import DrillPost.Command.Options
import DrillPost.Proofs.Gcode.Word
import DrillPost.Proofs.Settings.Accepted
import DrillPost.Proofs.Toml.Document
import DrillPost.Proofs.Toml.Places

/-!
# Lengths in files

Two of the settings are lengths, the safe height and the drill depth. `FileFormat.Gives` says that a
text gives one of them as a number that is spelled in a certain way, and which values it gives
besides. If the number is a short literal, then the text is read whatever its format, and the
setting has a value of the literal (`FileFormat.Gives.exists_ofText`).

Any two values of a literal are equal as numbers (`Json.Literal.IsValue.equal`), although one reader
may keep the sign of a zero and another lose it.
-/

namespace DrillPost

/-! ### Values of a literal -/

namespace Json.Literal

variable {l : Literal} {isNegative : Bool} {y z : Binary64}

theorem IsValue.isFinite (h : l.IsValue isNegative y) : y.isFinite = true := by
  obtain ⟨negative, x, rfl, -⟩ := h
  rfl

theorem IsValue.equal (hy : l.IsValue isNegative y) (hz : l.IsValue isNegative z) :
    y.equal z = true := by
  obtain ⟨negative, x, rfl, hx, hsign⟩ := hy
  obtain ⟨negative', x', rfl, hx', hsign'⟩ := hz
  obtain rfl := hx.unique l.decimal.toRat_nonneg hx'
  refine Binary64.equal_finite_iff.2 ⟨rfl, ?_⟩
  by_cases h0 : l.decimal.coefficient = 0
  · rw [Decimal.toRat_eq_zero_iff.2 h0] at hx
    rw [hx.eq_zero]
    exact .inr rfl
  · rw [hsign h0, hsign' h0]
    exact .inl rfl

/-- The value of a short literal is below zero exactly if there is a minus before a digit other than
zero. -/
theorem IsValue.less_zero_iff (hshort : l.IsShort) (h : l.IsValue isNegative y) :
    Binary64.less y .zero = true ↔ isNegative = true ∧ l.decimal.coefficient ≠ 0 := by
  obtain ⟨negative, x, rfl, hx, hsign⟩ := h
  have hless : Binary64.less (.finite negative x) .zero = true ↔ negative = true ∧ x.units ≠ 0 := by
    cases negative <;>
      simp [Binary64.less, Binary64.zero, Binary64.signedUnits, Magnitude.units_zero,
        Nat.pos_iff_ne_zero]
  rw [hless]
  by_cases h0 : l.decimal.coefficient = 0
  · rw [Decimal.toRat_eq_zero_iff.2 h0] at hx
    simp [hx.eq_zero, Magnitude.units_zero, h0]
  · have hlarge := hx.le_significand (hshort.le_toRat_mul h0)
    have hunits : x.units ≠ 0 := fun hzero => by
      have := Binary64.units_eq_zero_iff.1 hzero
      omega
    rw [hsign h0]
    simp [hunits, h0]

/-- A short literal has a value that its decimal is rounded to. -/
theorem IsShort.isValue_toBinary64 (h : l.IsShort) (negative : Bool) :
    l.IsValue negative (l.decimal.toBinary64 negative) := by
  obtain ⟨x, hx⟩ := h.exists_isNearest
  rw [Binary64.toBinary64_of_isNearest hx]
  exact ⟨negative, x, rfl, hx, fun _ => rfl⟩

/-- A text of a sign or none and of a spelling of a short literal. The exponent can be written out,
as it always can unless there are two billion digits before it (`IsSpelled.isShortNumber`). -/
structure IsShortNumber (l : Literal) (negative : Bool) (number : List Char) : Prop
    extends l.IsShort where
  exists_text : ∃ text, l.IsSpelled text ∧ number = signText negative ++ text
  exponent_le : ∀ e ∈ l.exponent, digitsValue e.digits ≤ maxExponent

theorem IsSpelled.isShortNumber {text : List Char} (h : l.IsSpelled text) (hshort : l.IsShort)
    (hlength : text.length ≤ 2000000000) (negative : Bool) :
    l.IsShortNumber negative (signText negative ++ text) := by
  refine ⟨hshort, ⟨text, h, rfl⟩, fun e he => ?_⟩
  obtain ⟨exponentText, -, rfl⟩ := h.exists_exponentText
  rw [List.length_append, List.length_append] at hlength
  have hfraction : l.fraction.length ≤ (fractionText l.fraction).length := by
    unfold fractionText
    split
    · next hnil => rw [hnil]
    · exact Nat.le_succ _
  have hsmall := hshort.natAbs_exponent_le
  rw [decimal_eq, he, Option.elim_some, Exponent.toInt] at hsmall
  dsimp only at hsmall
  rw [maxExponent]
  split at hsmall <;> omega

end Json.Literal

/-! ### Settings that are lengths -/

/-- A setting that is a length. -/
inductive LengthSetting where
  | safeHeight
  | drillDepth
deriving DecidableEq

namespace LengthSetting

/-- The field of a file that holds the setting. -/
def fieldName : LengthSetting → String
  | safeHeight => "safe_height"
  | drillDepth => "drill_depth"

/-- The item of a list that holds the setting. -/
def position : LengthSetting → Nat
  | safeHeight => 1
  | drillDepth => 2

/-- The option that gives the setting for one run. -/
def option : LengthSetting → ValuedOption
  | safeHeight => .safeHeight
  | drillDepth => .drillDepth

def set (x : Binary64) (s : ProgramSettings) : LengthSetting → ProgramSettings
  | safeHeight => { s with safeHeight := x }
  | drillDepth => { s with drillDepth := x }

def given (o : Overrides) : LengthSetting → Option Binary64
  | safeHeight => o.safeHeight
  | drillDepth => o.drillDepth

def give (x : Binary64) (o : Overrides) : LengthSetting → Overrides
  | safeHeight => { o with safeHeight := some x }
  | drillDepth => { o with drillDepth := some x }

variable {setting : LengthSetting}

theorem override_give (x : Binary64) (s : ProgramSettings) (o : Overrides) :
    s.override (setting.give x o) = setting.set x (s.override o) := by
  cases setting <;> rfl

theorem overrides?_eq_give {ν : Type} {m : Medium ν} {fields : Parts ν} {number : ν}
    {others : Overrides} {y : Binary64}
    (hothers : m.overrides? (fields.without setting.fieldName) = some others)
    (hnumber : fields setting.fieldName setting.position = some number)
    (hy : m.real? number = some y) : m.overrides? fields = some (setting.give y others) := by
  have hlength : fields.read? m.real? setting.fieldName setting.position = some (some y) := by
    rw [Parts.read?, hnumber]
    dsimp only
    rw [hy]
    rfl
  obtain ⟨hpower, hheight, hdepth⟩ := m.overrides?_eq_some_iff.1 hothers
  rw [m.overrides?_eq_some_iff]
  cases setting with
  | safeHeight => exact ⟨hpower, hlength, hdepth⟩
  | drillDepth => exact ⟨hpower, hheight, hlength⟩

end LengthSetting

/-! ### Numbers in documents -/

/-- A document gives a length at a node, and the other values that it states are these. -/
inductive Medium.Gives {ν : Type} (m : Medium ν) (setting : LengthSetting) (number root : ν) :
    Stated → Prop
  | intro {parts fields : Parts ν} {encoder : ν} {program : Overrides}
      {directory : Option (Option Path)} (hparts : m.parts? root = some parts)
      (hencoder : parts "encoder" 0 = some encoder) (hfields : m.parts? encoder = some fields)
      (hnumber : fields setting.fieldName setting.position = some number)
      (hothers : m.overrides? (fields.without setting.fieldName) = some program)
      (hdirectory : parts.read? m.output? "output" 1 = some directory) :
      Gives m setting number root ⟨program, directory.join⟩

theorem Medium.Gives.stated?_eq {ν : Type} {m : Medium ν} {setting : LengthSetting}
    {number root : ν} {others : Stated} {y : Binary64} (h : m.Gives setting number root others)
    (hy : m.real? number = some y) :
    m.stated? root = some { others with program := setting.give y others.program } := by
  obtain ⟨hparts, hencoder, hfields, hnumber, hothers, hdirectory⟩ := h
  rw [Medium.stated?, hparts]
  refine m.partsStated?_eq_some_iff.2 ⟨some _, _, ?_, hdirectory, rfl⟩
  rw [Parts.read?, hencoder]
  dsimp only
  rw [Medium.program?, hfields, Option.bind_some,
    LengthSetting.overrides?_eq_give hothers hnumber hy]
  rfl

theorem Medium.Gives.isPlaced {setting : LengthSetting} {number root : Toml.Node} {others : Stated}
    (h : Toml.medium.Gives setting number root others) (hroot : root.IsPlaced) :
    number.IsPlaced := by
  obtain ⟨hparts, hencoder, hfields, hnumber, -, -⟩ := h
  exact ((hroot.of_parts? hparts hencoder).of_parts? hfields hnumber)

/-- A text gives a length as a number, and states these other values. The number is followed by what
ends it in the format. -/
inductive FileFormat.Gives (setting : LengthSetting) (number : List Char) (others : Stated) :
    FileFormat → String → Prop
  | json {text : String} {blanks rest : List Char} (hregular : FileFormat.json.IsRegular text)
      (hblanks : ∀ c ∈ blanks, Json.isBlank c = true) (hrest : ∀ c ∈ rest.head?, Json.EndsNumber c)
      (h : Json.medium.Gives setting (blanks ++ (number ++ rest)) text.toList others) :
      Gives setting number others .json text
  | toml {text : String} {root : Toml.Node} {span : Toml.Span} {value : Toml.Scalar}
      {rest : List Char} (hregular : FileFormat.toml.IsRegular text)
      (hroot : Toml.ofText? text = some root) (hstart : span.start = number ++ rest)
      (hrest : ∀ c ∈ rest.head?, Toml.EndsValue c)
      (h : Toml.medium.Gives setting (.scalar span value) root others) :
      Gives setting number others .toml text

section Values

variable {l : Json.Literal} {negative : Bool} {number blanks rest : List Char}

theorem Json.exists_reads_readReal (h : l.IsShortNumber negative number)
    (hblanks : ∀ c ∈ blanks, isBlank c = true) (hrest : ∀ c ∈ rest.head?, EndsNumber c) :
    ∃ y, l.IsValue negative y ∧ Reads (readReal (blanks ++ (number ++ rest))) y rest := by
  obtain ⟨text, hspelled, rfl⟩ := h.exists_text
  obtain ⟨n, hn, hvalue⟩ := h.exists_number? h.exponent_le negative
  have hread := gives_readNumeric hspelled "f64" negative hblanks hrest
  rw [hn] at hread
  refine ⟨_, hvalue, reads_map.2 ⟨n, ?_, rfl⟩⟩
  rw [List.append_assoc]
  exact hread

namespace Toml

/-- A short literal without point and exponent fits 64 bits. -/
theorem exists_literalValue?_int (h : l.IsShort) (hfraction : l.fraction = [])
    (hexponent : l.exponent = none) (negative : Bool) :
    ∃ n, literalValue? negative l = some (.int n) ∧ l.IsValue negative (.ofInt n) := by
  have hcoefficient : digitsValue l.whole = l.decimal.coefficient := by
    rw [Json.Literal.decimal_eq, hfraction, List.append_nil]
  have hlt : l.decimal.coefficient < 0x20000000000000 := lt_trans h.coefficient_lt (by decide)
  let n : Int := if negative then -l.decimal.coefficient else l.decimal.coefficient
  have hn : n.natAbs = l.decimal.coefficient := by
    cases negative
    · exact Int.natAbs_natCast _
    · exact (Int.natAbs_neg _).trans (Int.natAbs_natCast _)
  have hint : int? n = some n := by
    rw [int?, if_pos (by omega)]
  have hofInt := Json.ofInt_eq (hn.trans_lt hlt)
  rw [hn] at hofInt
  refine ⟨n, ?_, _, _, hofInt, h.isNearest_significandMagnitude hfraction hexponent, fun h0 => ?_⟩
  · rw [literalValue?, decimalValue?, if_pos ⟨hfraction, by rw [hexponent]; rfl⟩, hcoefficient]
    exact congrArg (Option.map Scalar.int) hint
  · cases negative with
    | false => exact decide_eq_false (show ¬ (l.decimal.coefficient : Int) < 0 by omega)
    | true => exact decide_eq_true (show -(l.decimal.coefficient : Int) < 0 by omega)

/-- A short literal with a point or an exponent lies below the largest value. -/
theorem exists_literalValue?_real (h : l.IsShort)
    (hreal : ¬ (l.fraction = [] ∧ l.exponent = none)) (negative : Bool) :
    ∃ y, literalValue? negative l = some (.real y) ∧ l.IsValue negative y := by
  obtain ⟨x, hx⟩ := h.exists_isNearest
  have hnumeral : (⟨l.whole, l.fraction, (l.exponent.map Json.Exponent.toInt).getD 0⟩ : Numeral) =
      l.numeral := by
    rw [Json.Literal.numeral]
    cases l.exponent <;> rfl
  have hvalue : l.numeral.toDecimal.toBinary64 negative = .finite negative x :=
    Binary64.toBinary64_of_isNearest hx negative
  have hno : ¬ (l.fraction = [] ∧ l.exponent.map Json.Exponent.toInt = none) :=
    fun hno => hreal ⟨hno.1, Option.map_eq_none_iff.1 hno.2⟩
  refine ⟨_, ?_, negative, x, rfl, hx, fun _ => rfl⟩
  rw [literalValue?, decimalValue?, if_neg hno]
  dsimp only
  rw [hnumeral, hvalue]
  rfl

/-- A short literal is kept, as an integer or as a value with a point. -/
theorem exists_literalValue? (h : l.IsShort) (negative : Bool) :
    ∃ value y, literalValue? negative l = some value ∧ l.IsValue negative y ∧
      ∀ span, (Node.scalar span value).real = .ok y := by
  by_cases hinteger : l.fraction = [] ∧ l.exponent = none
  · obtain ⟨n, hn, hvalue⟩ := exists_literalValue?_int h hinteger.1 hinteger.2 negative
    exact ⟨.int n, _, hn, hvalue, fun _ => rfl⟩
  · obtain ⟨y, hy, hvalue⟩ := exists_literalValue?_real h hinteger negative
    exact ⟨.real y, y, hy, hvalue, fun _ => rfl⟩

/-- A number that stands at the place of a node is what the node means. -/
theorem exists_real? (h : l.IsShortNumber negative number) {span : Span} {value : Scalar}
    (hplaced : (Node.scalar span value).IsPlaced) (hstart : span.start = number ++ rest)
    (hrest : ∀ c ∈ rest.head?, EndsValue c) :
    ∃ y, l.IsValue negative y ∧ medium.real? (.scalar span value) = some y := by
  obtain ⟨text, hspelled, rfl⟩ := h.exists_text
  obtain ⟨stated, y, hstated, hvalue, hreal⟩ := exists_literalValue? h.toIsShort negative
  obtain ⟨hread⟩ := hplaced
  obtain ⟨c, r, hcons, -, hbegins⟩ := hspelled.exists_signed_eq_cons negative rest
  have hnumber := reads_readNumeric_literal hspelled hstated hrest
  have hscalar := (readScalar_of_number (Json.beginsNumber_iff.1 hbegins) r).2
  rw [hstart, List.append_assoc, hcons, hscalar] at hread
  rw [hcons] at hnumber
  obtain ⟨_, hread⟩ := hread.eq_some
  obtain ⟨_, hnumber⟩ := hnumber.eq_some
  -- What is read at the place is read only once.
  cases hread.symm.trans hnumber
  exact ⟨y, hvalue, congrArg Except.toOption (hreal span)⟩

end Toml

end Values

/-- A short number in a text is read in either format, and as one of its values. -/
theorem FileFormat.Gives.exists_ofText {format : FileFormat} {setting : LengthSetting}
    {l : Json.Literal} {negative : Bool} {number : List Char} {others : Stated} {text : String}
    (hnumber : l.IsShortNumber negative number) (h : format.Gives setting number others text) :
    ∃ y stated, l.IsValue negative y ∧
      stated = { others with program := setting.give y others.program } ∧
        Configuration.stated? format text = some stated ∧
          Configuration.ofText format text = .ok stated.configuration := by
  cases h with
  | json hregular hblanks hrest h =>
    obtain ⟨y, hvalue, hread⟩ := Json.exists_reads_readReal hnumber hblanks hrest
    have hstated : Configuration.stated? .json text = _ :=
      h.stated?_eq (Json.means_readReal hread).2
    exact ⟨y, _, hvalue, rfl, hstated, Configuration.ofText_eq_ok hregular hstated⟩
  | toml hregular hroot hstart hrest h =>
    have hplaced := h.isPlaced (Toml.Node.isPlaced_of_ofText? hroot)
    obtain ⟨y, hvalue, hy⟩ := Toml.exists_real? hnumber hplaced hstart hrest
    have hstated : Configuration.stated? .toml text = _ :=
      Option.bind_eq_some_iff.2 ⟨_, hroot, h.stated?_eq hy⟩
    exact ⟨y, _, hvalue, rfl, hstated, Configuration.ofText_eq_ok hregular hstated⟩

end DrillPost

import DrillPost.Proofs.Toml.Statement
import Mathlib.Data.List.Forall2
import Mathlib.Data.List.Nodup

/-!
# Documents of tables

A block is a header of a bare key and lines that each give a bare key a scalar. A document of blocks
says just what the lines say: `readStatements_documentText` reads it line by line,
`foldlM_add_values` and `foldlM_add_blocks` gather what the lines say in tables, and
`ofText?_documentText` puts the two together.
-/

namespace DrillPost.Toml

/-! ### Blocks -/

/-- A line of a table: a key, the text of its value, and what the text means. -/
structure Assignment where
  name : String
  text : List Char
  value : Scalar

namespace Assignment

def line (e : Assignment) : List Char := e.name.toList ++ [' ', '=', ' '] ++ e.text ++ ['\n']

/-- The text of the value is read as what it means, up to the end of the line. -/
structure IsRead (e : Assignment) : Prop where
  bare : IsBareKey e.name
  nonempty : e.text ≠ []
  begins : ∀ c ∈ e.text.head?, BeginsScalar c
  reads : ∀ rest, Reads (readScalar (e.text ++ '\n' :: rest)) e.value ('\n' :: rest)

/-- The member is what the line says, at the place where the line says it. -/
def IsMember (e : Assignment) (m : Key × Node) : Prop :=
  m.1.name = e.name ∧ ∃ rest, m.2 = .scalar ⟨e.text ++ '\n' :: rest, '\n' :: rest⟩ e.value

/-- The statement says that the table has the member of the line. -/
def IsSaid (e : Assignment) (statement : Statement) : Prop :=
  ∃ m, e.IsMember m ∧ statement = .value [m.1] m.2

/-- A text that begins with a digit or a minus is read as a number. -/
theorem isRead_of_number {name : String} (hname : IsBareKey name) {c : Char} {text : List Char}
    {value : Scalar} (hc : c.isDigit = true ∨ c = '-')
    (h : ∀ rest, Reads (readNumeric (c :: text ++ '\n' :: rest)) value ('\n' :: rest)) :
    IsRead ⟨name, c :: text, value⟩ := by
  refine ⟨hname, List.cons_ne_nil c text, fun d hd => ?_, fun rest => ?_⟩
  · obtain rfl : c = d := Option.some.inj hd
    exact (readScalar_of_number hc []).1
  · obtain ⟨-, hscalar⟩ := readScalar_of_number hc (text ++ '\n' :: rest)
    show Reads (readScalar (c :: (text ++ '\n' :: rest))) value ('\n' :: rest)
    rw [hscalar]
    exact h rest

theorem isRead_whole {name : String} (hname : IsBareKey name) {n : Nat}
    (hn : n < 0x8000000000000000) : IsRead ⟨name, Nat.toDigits 10 n, .int n⟩ := by
  have hread := reads_readNumeric_toDigits hn
  have hdigits : ∀ c ∈ Nat.toDigits 10 n, c.isDigit = true :=
    fun c hc => Nat.isDigit_of_mem_toDigits (by decide) (by decide) hc
  obtain ⟨c, r, hcons⟩ := List.exists_cons_of_ne_nil (Nat.toDigits_ne_nil (n := n))
  rw [hcons] at hread hdigits ⊢
  exact isRead_of_number hname (.inl (hdigits c List.mem_cons_self)) hread

theorem isRead_real {name : String} (hname : IsBareKey name) {x : Binary64}
    (hx : x.isFinite = true) : IsRead ⟨name, (x.write layout).toList, .real x⟩ := by
  cases x with
  | nan => cases hx
  | infinite negative => cases hx
  | finite negative x =>
    have hread := reads_readNumeric_write negative x
    have hplain : (writtenNumeral x).IsPlain := (Decimal.isPlain_numeral _).withFraction
    obtain ⟨c, r, hcons, hc⟩ := exists_plainText_eq_cons hplain
    rw [toList_write, hcons] at hread ⊢
    cases negative with
    | true => exact isRead_of_number hname (.inr rfl) hread
    | false => exact isRead_of_number hname (.inl hc) hread

theorem isRead_text {name : String} (hname : IsBareKey name) (s : String) :
    IsRead ⟨name, writeText s.toList, .text s⟩ := by
  obtain ⟨quote, text, hcons, hquote⟩ := exists_writeText_eq_cons s.toList
  have hread : ∀ rest,
      Reads (readString (writeText s.toList ++ '\n' :: rest)) s ('\n' :: rest) := by
    intro rest
    have hends : ∀ c ∈ ('\n' :: rest).head?, c ≠ '"' ∧ c ≠ '\'' :=
      forall_mem_head?_cons (by decide) rest
    have hread := reads_readString_writeText s.toList hends
    rwa [String.ofList_toList] at hread
  rw [hcons] at hread ⊢
  refine ⟨hname, List.cons_ne_nil quote text, fun c hc => ?_, fun rest => ?_⟩
  · obtain rfl : quote = c := Option.some.inj hc
    rcases hquote with rfl | rfl <;> decide
  · obtain ⟨shorter, hread⟩ := (hread rest).eq_some
    refine ⟨shorter, ?_⟩
    show readScalar (quote :: (text ++ '\n' :: rest)) = _
    rw [readScalar, if_pos hquote]
    show (readString (quote :: text ++ '\n' :: rest)).map _ = _
    rw [hread]
    rfl

end Assignment

/-- A header and the lines under it. -/
structure Block where
  name : String
  assignments : List Assignment

namespace Block

def text (b : Block) : List Char :=
  '[' :: (b.name.toList ++ [']', '\n'] ++ b.assignments.flatMap Assignment.line)

/-- Every line can be read, and no name comes twice. -/
structure IsRead (b : Block) : Prop where
  bare : IsBareKey b.name
  assignments : ∀ e ∈ b.assignments, e.IsRead
  nodup : (b.assignments.map Assignment.name).Nodup

/-- The member is the table that the block describes. -/
def IsMember (b : Block) (m : Key × Node) : Prop :=
  m.1.name = b.name ∧
    ∃ span members, m.2 = .table .header (some span) members ∧
      List.Forall₂ Assignment.IsMember b.assignments members

/-- The statements are the header and the lines of the block. -/
def IsSaid (b : Block) (statements : List Statement) : Prop :=
  ∃ key span values, key.name = b.name ∧ statements = .table [key] span :: values ∧
    List.Forall₂ Assignment.IsSaid b.assignments values

end Block

/-- Blocks with an empty line between any two. -/
def documentText : List Block → List Char
  | [] => []
  | [b] => b.text
  | b :: blocks => b.text ++ '\n' :: documentText blocks

/-! ### Statements of a document -/

variable {statements : List Statement} {rest : List Char}

theorem readStatements_line {e : Assignment} (h : e.IsRead)
    (hrest : readStatements rest = some statements) :
    ∃ statement, e.IsSaid statement ∧
      readStatements (e.line ++ rest) = some (statement :: statements) := by
  obtain ⟨span, hread⟩ := reads_readStatement_value h.bare h.begins h.nonempty (h.reads rest)
  have hline : e.line ++ rest =
      e.name.toList ++ ([' '] ++ '=' :: ' ' :: (e.text ++ '\n' :: rest)) := by
    simp [Assignment.line]
  refine ⟨_, ⟨(⟨e.name, span⟩, .scalar ⟨e.text ++ '\n' :: rest, '\n' :: rest⟩ e.value),
    ⟨rfl, rest, rfl⟩, rfl⟩, ?_⟩
  rw [hline]
  refine readStatements_cons ?_ hread hrest
  intro c hc
  rw [List.head?_append_of_ne_nil _ h.bare.1] at hc
  have hbare := h.bare.2 c (List.mem_of_mem_head? hc)
  exact ⟨isBlank_of_isBare hbare, ne_of_isBare hbare (by decide), ne_of_isBare hbare (by decide),
    ne_of_isBare hbare (by decide)⟩

theorem readStatements_lines {assignments : List Assignment} (h : ∀ e ∈ assignments, e.IsRead)
    (hrest : readStatements rest = some statements) :
    ∃ values, List.Forall₂ Assignment.IsSaid assignments values ∧
      readStatements (assignments.flatMap Assignment.line ++ rest) =
        some (values ++ statements) := by
  induction assignments with
  | nil => exact ⟨[], .nil, hrest⟩
  | cons e assignments ih =>
    obtain ⟨he, hentries⟩ := List.forall_mem_cons.1 h
    obtain ⟨values, hsaid, hread⟩ := ih hentries
    obtain ⟨value, hvalue, hread⟩ := readStatements_line he hread
    refine ⟨value :: values, .cons hvalue hsaid, ?_⟩
    rw [List.flatMap_cons, List.append_assoc, hread, List.cons_append]

theorem readStatements_block {b : Block} (h : b.IsRead)
    (hrest : readStatements rest = some statements) :
    ∃ block, b.IsSaid block ∧ readStatements (b.text ++ rest) = some (block ++ statements) := by
  obtain ⟨values, hsaid, hlines⟩ := readStatements_lines h.assignments hrest
  obtain ⟨span, place, hheader⟩ :=
    reads_readStatement_header h.bare (b.assignments.flatMap Assignment.line ++ rest)
  have htext : b.text ++ rest = '[' :: (b.name.toList ++
      ([] ++ ']' :: '\n' :: (b.assignments.flatMap Assignment.line ++ rest))) := by
    simp [Block.text]
  refine ⟨.table [⟨b.name, span⟩] place :: values, ⟨_, _, values, rfl, rfl, hsaid⟩, ?_⟩
  rw [htext]
  exact readStatements_cons (forall_mem_head?_cons (by decide) _) hheader hlines

theorem readStatements_documentText {blocks : List Block} (h : ∀ b ∈ blocks, b.IsRead) :
    ∃ sayings, List.Forall₂ Block.IsSaid blocks sayings ∧
      readStatements (documentText blocks) = some sayings.flatten := by
  match blocks with
  | [] => exact ⟨[], .nil, readStatements_nil⟩
  | [b] =>
    obtain ⟨saying, hsaid, hread⟩ :=
      readStatements_block (h b List.mem_cons_self) readStatements_nil
    rw [List.append_nil] at hread
    refine ⟨[saying], .cons hsaid .nil, ?_⟩
    rw [documentText, hread, List.flatten_cons, List.flatten_nil]
  | b :: b' :: blocks =>
    obtain ⟨hb, hblocks⟩ := List.forall_mem_cons.1 h
    obtain ⟨sayings, hsaid, hread⟩ := readStatements_documentText hblocks
    rw [← readStatements_newline] at hread
    obtain ⟨saying, hsaying, hread⟩ := readStatements_block hb hread
    refine ⟨saying :: sayings, .cons hsaying hsaid, ?_⟩
    rw [documentText, hread, List.flatten_cons]
    exact nofun

/-! ### Tables of a document -/

theorem splitAt?_eq_none {name : String} {members : Members}
    (h : name ∉ members.map fun m => m.1.name) : members.splitAt? name = none := by
  induction members with
  | nil => rfl
  | cons m members ih =>
    rw [List.map_cons, List.mem_cons, not_or] at h
    rw [Members.splitAt?, if_neg (Ne.symm h.1), ih h.2, Option.map_none]

namespace Document

variable {d : Document}

theorem add_value {key : Key} (node : Node) (h : key.name ∉ d.members.map fun m => m.1.name) :
    ∃ span, d.add (.value [key] node) =
      some { d with members := d.members ++ [(key, node)], span } := by
  have hassign : assign [key] node d.members = some (d.members ++ [(key, node)]) := by
    show (addNew false key node false d.members).map Prod.fst = _
    rw [addNew, splitAt?_eq_none h]
    rfl
  rw [add, hassign]
  exact ⟨_, rfl⟩

theorem add_table {key : Key} {place : Span} {root : Members} (hfinish : d.finish = some root)
    (h : key.name ∉ root.map fun m => m.1.name) :
    d.add (.table [key] place) = some ⟨root, some ([key], false), place, []⟩ := by
  have hroom : atHeader takeImplied [key] root = some (root, []) := by
    show takeImplied key false root = _
    rw [takeImplied, splitAt?_eq_none h]
  rw [add, hfinish]
  show (atHeader takeImplied [key] root).bind _ = _
  rw [hroom]
  rfl

theorem finish_of_header {key : Key} (h : d.current = some ([key], false)) :
    d.finish = some (d.root ++ [(key, .table .header (some d.span) d.members)]) := by
  rw [finish, h]
  rfl

end Document

/-- Lines add their members to the table that the header above them began. -/
theorem foldlM_add_values {assignments : List Assignment} {values : List Statement}
    (h : List.Forall₂ Assignment.IsSaid assignments values) (d : Document)
    (hnodup : ((d.members.map fun m => m.1.name) ++ assignments.map Assignment.name).Nodup) :
    ∃ span members, List.Forall₂ Assignment.IsMember assignments members ∧
      values.foldlM Document.add d = some { d with members := d.members ++ members, span } := by
  induction h generalizing d with
  | nil =>
    refine ⟨d.span, [], .nil, ?_⟩
    rw [List.append_nil]
    rfl
  | cons hsaid _ ih =>
    obtain ⟨m, hm, rfl⟩ := hsaid
    have hfresh : m.1.name ∉ d.members.map fun m => m.1.name := by
      intro hmem
      rw [hm.1] at hmem
      exact (List.nodup_append.1 hnodup).2.2 _ hmem _ List.mem_cons_self rfl
    obtain ⟨span, hadd⟩ := Document.add_value m.2 hfresh
    obtain ⟨span', members, hmembers, hfold⟩ :=
      ih { d with members := d.members ++ [m], span } (by
        simpa [hm.1] using hnodup)
    refine ⟨span', m :: members, .cons hm hmembers, ?_⟩
    rw [List.foldlM_cons, hadd]
    show List.foldlM _ _ _ = _
    rw [hfold, List.append_assoc, List.singleton_append]

/-- Blocks add their tables to those that are finished. -/
theorem foldlM_add_blocks {blocks : List Block} {sayings : List (List Statement)}
    (h : List.Forall₂ Block.IsSaid blocks sayings) (hread : ∀ b ∈ blocks, b.IsRead)
    {d : Document} {root : Members} (hfinish : d.finish = some root)
    (hnodup : ((root.map fun m => m.1.name) ++ blocks.map Block.name).Nodup) :
    ∃ tables e, List.Forall₂ Block.IsMember blocks tables ∧
      sayings.flatten.foldlM Document.add d = some e ∧ e.finish = some (root ++ tables) := by
  induction h generalizing d root with
  | nil =>
    refine ⟨[], d, .nil, rfl, ?_⟩
    rw [List.append_nil, hfinish]
  | @cons b _ blocks _ hsaid _ ih =>
    obtain ⟨hb, hblocks⟩ := List.forall_mem_cons.1 hread
    obtain ⟨key, place, values, hkey, rfl, hvalues⟩ := hsaid
    have hfresh : key.name ∉ root.map fun m => m.1.name := by
      intro hmem
      rw [hkey] at hmem
      exact (List.nodup_append.1 hnodup).2.2 _ hmem _ List.mem_cons_self rfl
    obtain ⟨span, members, hmembers, hfold⟩ :=
      foldlM_add_values hvalues ⟨root, some ([key], false), place, []⟩ hb.nodup
    let table : Key × Node := (key, .table .header (some span) members)
    have htable : b.IsMember table := ⟨hkey, span, members, rfl, hmembers⟩
    have hfinished : (⟨root, some ([key], false), span, members⟩ : Document).finish =
        some (root ++ [table]) := Document.finish_of_header rfl
    obtain ⟨tables, e, htables, hrest, hend⟩ :=
      ih hblocks hfinished (by simpa [table, hkey] using hnodup)
    refine ⟨table :: tables, e, .cons htable htables, ?_, ?_⟩
    · rw [List.flatten_cons, List.cons_append, List.foldlM_cons, Document.add_table hfinish hfresh]
      show List.foldlM _ _ _ = _
      rw [List.foldlM_append, hfold]
      exact hrest
    · rw [hend, List.append_assoc, List.singleton_append]

/-- A document of blocks is a map of the tables that they describe. -/
theorem ofText?_documentText {blocks : List Block} (h : ∀ b ∈ blocks, b.IsRead)
    (hnodup : (blocks.map Block.name).Nodup) :
    ∃ span tables, ofText? (String.ofList (documentText blocks)) =
      some (.table .header (some span) tables) ∧ List.Forall₂ Block.IsMember blocks tables := by
  obtain ⟨sayings, hsaid, hread⟩ := readStatements_documentText h
  obtain ⟨tables, d, htables, hfold, hfinish⟩ :=
    foldlM_add_blocks hsaid h
      (show (Document.empty (documentText blocks)).finish = some [] from rfl) hnodup
  have hmark : (documentText blocks).head? ≠ some byteOrderMark := by
    match blocks with
    | [] => exact nofun
    | [_] => exact ne_of_beq_false rfl
    | _ :: _ :: _ => exact ne_of_beq_false rfl
  rw [ofText?, String.toList_ofList, if_neg hmark, hread]
  dsimp only
  rw [hfold]
  dsimp only
  rw [hfinish]
  exact ⟨_, tables, rfl, htables⟩

end DrillPost.Toml

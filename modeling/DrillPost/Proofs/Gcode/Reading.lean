import DrillPost.Gcode.Program
import DrillPost.Proofs.Gcode.Machine
import DrillPost.Proofs.Job.Validation

/-!
# The lines of a program read as commands

`Line.command?` is what a line tells the machine, and `Line.words` are the words in which it does.
Lines whose numbers are finite, and whose comments do not run over into the next line, are writable,
and their text reads as their commands (`read?_renderLines`). The header and the footer are
writable, and so are the lines that drill a hole (`isWritable_header`, `isWritable_footer`,
`isWritable_cycle`).
-/

namespace DrillPost

open Gcode

namespace Machine

/-! ### Numbers in words -/

/-- A plain numeral with a sign is a number of the machine. -/
theorem number?_signed {n : Numeral} (h : n.IsPlain) (s : Bool) :
    number? (signText s ++ n.plainText) =
      (Binary64.ofText (String.ofList (signText s ++ n.plainText))).toOption := by
  have hall : n.plainText.all (fun c => c.isDigit || c == '.') = true := by
    rw [List.all_eq_true]
    intro c hc
    rw [Bool.or_eq_true, beq_iff_eq]
    exact Numeral.mem_plainText h hc
  have hhead : n.plainText.head? ≠ some '-' := by
    intro hhead
    rcases Numeral.mem_plainText h (List.mem_of_mem_head? hhead) with hc | hc <;>
      exact absurd hc (by decide)
  rw [number?]
  cases s with
  | false =>
    rw [show signText false ++ n.plainText = n.plainText from rfl, if_neg hhead, if_pos hall]
  | true =>
    rw [show signText true ++ n.plainText = '-' :: n.plainText from rfl, List.head?_cons,
      if_pos rfl, List.tail_cons, if_pos hall]

theorem number?_scalar {x : Binary64} (hx : x.isFinite = true) :
    number? (scalar x).toList = some x.unsignedZero := by
  cases x with
  | nan => cases hx
  | infinite s => cases hx
  | finite s x =>
    rw [toList_scalar, number?_signed (isPlain_wordNumeral x), ← toList_scalar,
      String.ofList_toList, ofText_scalar hx]
    rfl

theorem number?_coordinate {x : Binary64} (hx : x.isFinite = true) :
    number? (coordinate x).toList = some x.unsignedZero := by
  cases x with
  | nan => cases hx
  | infinite s => cases hx
  | finite s x =>
    rw [toList_coordinate, number?_signed (isPlain_wordNumeral x).withFraction,
      ← toList_coordinate, String.ofList_toList, ofText_coordinate hx]
    rfl

/-- A sign before a scalar that has none turns it around. -/
theorem number?_neg_scalar {x : Binary64} (hx : x.isFinite = true)
    (hsign : Binary64.less x .zero = false) :
    number? ('-' :: (scalar x).toList) = some x.unsignedZero.neg := by
  cases x with
  | nan => cases hx
  | infinite s => cases hx
  | finite s x =>
    have hs : (s && x.significand != 0) = false := by
      cases s with
      | false => rfl
      | true =>
        rw [Bool.true_and, bne_eq_false_iff_eq]
        have hle : ¬ -(x.units : Int) < (Magnitude.zero.units : Int) := of_decide_eq_false hsign
        rw [Magnitude.units_zero] at hle
        have hunits : x.units = 0 := by omega
        by_contra hne
        have hpos := Nat.mul_pos (Nat.pos_of_ne_zero hne) (Nat.two_pow_pos x.scale)
        rw [Magnitude.units, Nat.shiftLeft_eq] at hunits
        omega
    rw [toList_scalar, hs, Binary64.unsignedZero, hs]
    show number? (signText true ++ (wordNumeral x).plainText) = _
    rw [number?_signed (isPlain_wordNumeral x), Binary64.ofText_signText (Numeral.ofText?_plainText (isPlain_wordNumeral x)),
      Binary64.toBinary64_of_isNearest (isNearest_wordNumeral x)]
    rfl

/-! ### Words -/

/-- A word can stand in a line among others. -/
def IsWord (word : List Char) : Prop := ' ' ∉ word ∧ '\n' ∉ word

theorem isWord_cons {c : Char} {word : List Char} (hspace : c ≠ ' ') (hline : c ≠ '\n')
    (h : IsWord word) : IsWord (c :: word) := by
  constructor
  · intro hm
    rcases List.mem_cons.1 hm with heq | hm
    · exact hspace heq.symm
    · exact h.1 hm
  · intro hm
    rcases List.mem_cons.1 hm with heq | hm
    · exact hline heq.symm
    · exact h.2 hm

theorem isWord_of_isWordChar {word : List Char} (h : ∀ c ∈ word, IsWordChar c) : IsWord word := by
  constructor
  · intro hm
    rcases h _ hm with hc | hc | hc <;> exact absurd hc (by decide)
  · intro hm
    rcases h _ hm with hc | hc | hc <;> exact absurd hc (by decide)

theorem isWord_scalar {x : Binary64} (hx : x.isFinite = true) : IsWord (scalar x).toList :=
  isWord_of_isWordChar fun _ hc => isWordChar_of_mem_scalar hx hc

theorem isWord_coordinate {x : Binary64} (hx : x.isFinite = true) : IsWord (coordinate x).toList :=
  isWord_of_isWordChar fun _ hc => isWordChar_of_mem_coordinate hx hc

theorem isWord_toDigits (n : Nat) : IsWord (Nat.toDigits 10 n) :=
  isWord_of_isWordChar fun _ hc => .inl (Nat.isDigit_of_mem_toDigits (by decide) (by decide) hc)

/-- Words with spaces between them make one line, and are its words. -/
theorem splitOn_words {words : List (List Char)} (h : ∀ w ∈ words, IsWord w) (hne : words ≠ []) :
    '\n' ∉ [' '].intercalate words ∧ ([' '].intercalate words).splitOn ' ' = words := by
  refine ⟨?_, List.splitOn_intercalate _ (fun w hw => (h w hw).1) hne⟩
  clear hne
  induction words with
  | nil => exact List.not_mem_nil
  | cons w words ih =>
    have hw := (h w List.mem_cons_self).2
    cases words with
    | nil => rwa [List.intercalate_singleton]
    | cons v words =>
      have ih := ih fun u hu => h u (List.mem_cons_of_mem _ hu)
      rw [List.intercalate_cons_cons, List.mem_append, List.mem_append]
      rintro ((hm | hm) | hm)
      · exact hw hm
      · exact absurd hm (by decide)
      · exact ih hm

theorem digits?_toDigits (n : Nat) : Numeral.digits? (Nat.toDigits 10 n) = some n := by
  have hall : (Nat.toDigits 10 n).all Char.isDigit = true :=
    List.all_eq_true.2 fun _ hc => Nat.isDigit_of_mem_toDigits (by decide) (by decide) hc
  rw [Numeral.digits?, if_pos ⟨Nat.toDigits_ne_nil, hall⟩, digitsValue_toDigits]

theorem addWord?_feed {m : Move} (h : m.feed = none) {digits : List Char} {n : Nat}
    (hn : Numeral.digits? digits = some n) :
    m.addWord? ('F' :: digits) = some { m with feed := some n } := by
  rw [Move.addWord?, if_pos h, hn]
  rfl

theorem addWord?_x {m : Move} (h : m.x = none) {word : List Char} {x : Binary64}
    (hx : number? word = some x) : m.addWord? ('X' :: word) = some { m with x := some x } := by
  rw [Move.addWord?, if_pos h, hx]
  rfl

theorem addWord?_y {m : Move} (h : m.y = none) {word : List Char} {y : Binary64}
    (hy : number? word = some y) : m.addWord? ('Y' :: word) = some { m with y := some y } := by
  rw [Move.addWord?, if_pos h, hy]
  rfl

theorem addWord?_z {m : Move} (h : m.z = none) {word : List Char} {z : Binary64}
    (hz : number? word = some z) : m.addWord? ('Z' :: word) = some { m with z := some z } := by
  rw [Move.addWord?, if_pos h, hz]
  rfl

theorem ofWords?_move {words : List (List Char)} {m : Move}
    (h : words.foldlM Move.addWord? Move.empty = some m) :
    ofWords? (['G', '1'] :: words) = some (.move m) := by
  rw [ofWords?, h]
  rfl

end Machine

namespace Gcode

open Machine

/-! ### The commands of lines -/

def Line.command? : Line → Option Command
  | .blank | .comment _ => none
  | .absolute => some .absolute
  | .millimetres => some .millimetres
  | .startSpindle power => some (.startSpindle power.toNat)
  | .travel hole =>
    some (.move ⟨some travelFeed, some hole.x.unsignedZero, some hole.y.unsignedZero, none⟩)
  | .plunge depth => some (.move ⟨some plungeFeed, none, none, some depth.unsignedZero.neg⟩)
  | .retract height => some (.move ⟨some travelFeed, none, none, some height.unsignedZero⟩)
  | .withdraw height => some (.move ⟨some withdrawFeed, none, none, some height.unsignedZero⟩)
  | .stopSpindle => some .stopSpindle
  | .finish => some .finish

/-- Numbers are finite, a depth is not negative, and a comment ends with its line. -/
def Line.IsWritable : Line → Prop
  | .comment text => '\n' ∉ text.toList
  | .travel hole => hole.isFinite = true
  | .plunge depth => depth.isFinite = true ∧ Binary64.less depth .zero = false
  | .retract height | .withdraw height => height.isFinite = true
  | _ => True

def Line.words : Line → List (List Char)
  | .blank | .comment _ => []
  | .absolute => [['G', '9', '0']]
  | .millimetres => [['G', '2', '1']]
  | .startSpindle power => [['M', '3'], 'P' :: Nat.toDigits 10 power.toNat]
  | .travel hole =>
    [['G', '1'], ['F', '3', '0', '0'], 'X' :: (coordinate hole.x).toList,
      'Y' :: (coordinate hole.y).toList]
  | .plunge depth => [['G', '1'], ['F', '1', '0', '0'], 'Z' :: '-' :: (scalar depth).toList]
  | .retract height => [['G', '1'], ['F', '3', '0', '0'], 'Z' :: (scalar height).toList]
  | .withdraw height =>
    [['G', '1'], 'Z' :: (scalar height).toList, ['F', '3', '0', '0', '0', '0']]
  | .stopSpindle => [['M', '5']]
  | .finish => [['M', '2']]

theorem toList_text {l : Line} {c : Command} (hc : l.command? = some c) :
    l.text.toList = [' '].intercalate l.words := by
  cases l <;> cases hc
  case absolute => rfl
  case millimetres => rfl
  case stopSpindle => rfl
  case finish => rfl
  case startSpindle power =>
    have htext : (Line.startSpindle power).text =
        "M3 P" ++ String.ofList (Nat.toDigits 10 power.toNat) := rfl
    rw [htext]
    simp [Line.words]
  case travel hole =>
    have htext : (Line.travel hole).text =
        "G1 F300 X" ++ coordinate hole.x ++ " Y" ++ coordinate hole.y := rfl
    rw [htext]
    simp [Line.words]
  case plunge depth =>
    have htext : (Line.plunge depth).text = "G1 F100 Z-" ++ scalar depth := rfl
    rw [htext]
    simp [Line.words]
  case retract height =>
    have htext : (Line.retract height).text = "G1 F300 Z" ++ scalar height := rfl
    rw [htext]
    simp [Line.words]
  case withdraw height =>
    have htext : (Line.withdraw height).text = "G1 Z" ++ scalar height ++ " F30000" := rfl
    rw [htext]
    simp [Line.words]

theorem isWord_of_mem_words {l : Line} (hl : l.IsWritable) : ∀ w ∈ l.words, IsWord w := by
  cases l <;> rw [Line.words]
  case blank => exact List.forall_mem_nil _
  case comment text => exact List.forall_mem_nil _
  case startSpindle power =>
    rw [List.forall_mem_cons, List.forall_mem_singleton]
    exact ⟨⟨by decide, by decide⟩, isWord_cons (by decide) (by decide) (isWord_toDigits _)⟩
  case travel hole =>
    obtain ⟨hx, hy⟩ := Bool.and_eq_true_iff.1 hl
    rw [List.forall_mem_cons, List.forall_mem_cons, List.forall_mem_cons,
      List.forall_mem_singleton]
    refine ⟨⟨by decide, by decide⟩, ⟨by decide, by decide⟩, ?_, ?_⟩
    · exact isWord_cons (by decide) (by decide) (isWord_coordinate hx)
    · exact isWord_cons (by decide) (by decide) (isWord_coordinate hy)
  case plunge depth =>
    rw [List.forall_mem_cons, List.forall_mem_cons, List.forall_mem_singleton]
    refine ⟨⟨by decide, by decide⟩, ⟨by decide, by decide⟩, ?_⟩
    exact isWord_cons (by decide) (by decide)
      (isWord_cons (by decide) (by decide) (isWord_scalar hl.1))
  case retract height =>
    rw [List.forall_mem_cons, List.forall_mem_cons, List.forall_mem_singleton]
    refine ⟨⟨by decide, by decide⟩, ⟨by decide, by decide⟩, ?_⟩
    exact isWord_cons (by decide) (by decide) (isWord_scalar hl)
  case withdraw height =>
    rw [List.forall_mem_cons, List.forall_mem_cons, List.forall_mem_singleton]
    refine ⟨⟨by decide, by decide⟩, ?_, ⟨by decide, by decide⟩⟩
    exact isWord_cons (by decide) (by decide) (isWord_scalar hl)
  all_goals
    rw [List.forall_mem_singleton]
    exact ⟨by decide, by decide⟩

theorem ofWords?_words {l : Line} (hl : l.IsWritable) {c : Command} (hc : l.command? = some c) :
    ofWords? l.words = some c := by
  cases l <;> cases hc
  case absolute => rfl
  case millimetres => rfl
  case stopSpindle => rfl
  case finish => rfl
  case startSpindle power =>
    rw [Line.words, ofWords?, digits?_toDigits]
    rfl
  case travel hole =>
    obtain ⟨hx, hy⟩ := Bool.and_eq_true_iff.1 hl
    refine ofWords?_move ?_
    rw [List.foldlM_cons, addWord?_feed (n := 300) rfl rfl, Option.bind_eq_bind, Option.bind_some,
      List.foldlM_cons, addWord?_x rfl (number?_coordinate hx), Option.bind_eq_bind,
      Option.bind_some, List.foldlM_cons, addWord?_y rfl (number?_coordinate hy)]
    rfl
  case plunge depth =>
    refine ofWords?_move ?_
    rw [List.foldlM_cons, addWord?_feed (n := 100) rfl rfl, Option.bind_eq_bind, Option.bind_some,
      List.foldlM_cons, addWord?_z rfl (number?_neg_scalar hl.1 hl.2)]
    rfl
  case retract height =>
    refine ofWords?_move ?_
    rw [List.foldlM_cons, addWord?_feed (n := 300) rfl rfl, Option.bind_eq_bind, Option.bind_some,
      List.foldlM_cons, addWord?_z rfl (number?_scalar hl)]
    rfl
  case withdraw height =>
    refine ofWords?_move ?_
    rw [List.foldlM_cons, addWord?_z rfl (number?_scalar hl), Option.bind_eq_bind,
      Option.bind_some, List.foldlM_cons, addWord?_feed (n := 30000) rfl rfl]
    rfl

/-- A line that tells the machine something is a single line of its words, and is not skipped. -/
theorem splitOn_text {l : Line} (hl : l.IsWritable) {c : Command} (hc : l.command? = some c) :
    isSkipped l.text.toList = false ∧ '\n' ∉ l.text.toList ∧
      l.text.toList.splitOn ' ' = l.words := by
  have hne : l.words ≠ [] := by
    cases l <;> cases hc <;> exact List.cons_ne_nil _ _
  have hsplit := splitOn_words (isWord_of_mem_words hl) hne
  rw [toList_text hc]
  refine ⟨?_, hsplit⟩
  cases l <;> cases hc <;> rw [Line.words]
  all_goals simp [isSkipped]

/-- A line that tells the machine nothing is skipped, and is a single line all the same. -/
theorem isSkipped_text {l : Line} (hl : l.IsWritable) (hc : l.command? = none) :
    isSkipped l.text.toList = true ∧ '\n' ∉ l.text.toList := by
  cases l <;> cases hc
  case blank => exact ⟨rfl, List.not_mem_nil⟩
  case comment text =>
    have hlist : (Line.comment text).text.toList = ';' :: text.toList := by
      rw [Line.text, String.toList_append]
      rfl
    rw [hlist]
    refine ⟨rfl, fun hm => ?_⟩
    rcases List.mem_cons.1 hm with heq | hm
    · exact absurd heq (by decide)
    · exact hl hm

/-! ### Whole texts -/

theorem toList_renderLines_cons (l : Line) (lines : List Line) :
    (renderLines (l :: lines)).toList = l.text.toList ++ '\n' :: (renderLines lines).toList := by
  rw [renderLines, List.map_cons, String.join_cons, String.toList_append, String.toList_append,
    List.append_assoc]
  rfl

/-- The lines of a text are the lines it was written from, and what follows the last newline. -/
theorem splitOn_renderLines {lines : List Line} (h : ∀ l ∈ lines, '\n' ∉ l.text.toList) :
    (renderLines lines).toList.splitOn '\n' = lines.map (fun l => l.text.toList) ++ [[]] := by
  induction lines with
  | nil => rfl
  | cons l lines ih =>
    rw [toList_renderLines_cons,
      List.splitOn_append_cons_self_of_not_mem (h l List.mem_cons_self),
      ih fun k hk => h k (List.mem_cons_of_mem _ hk), List.map_cons, List.cons_append]

/-- The words of a text are those of the lines that tell the machine something. -/
theorem wordLines_renderLines {lines : List Line} (h : ∀ l ∈ lines, l.IsWritable) :
    wordLines (renderLines lines) = (lines.filter fun l => l.command?.isSome).map Line.words := by
  have hline : ∀ l ∈ lines, '\n' ∉ l.text.toList := by
    intro l hl
    cases hc : l.command? with
    | none => exact (isSkipped_text (h l hl) hc).2
    | some c => exact (splitOn_text (h l hl) hc).2.1
  rw [wordLines, splitOn_renderLines hline, List.filter_append,
    show [([] : List Char)].filter (fun line => !isSkipped line) = [] from rfl, List.append_nil]
  -- What is left of each line depends on that line only, so this is an induction over the lines.
  clear hline
  induction lines with
  | nil => rfl
  | cons l lines ih =>
    have ih := ih fun k hk => h k (List.mem_cons_of_mem _ hk)
    have hl := h l List.mem_cons_self
    cases hc : l.command? with
    | none =>
      rw [List.map_cons, List.filter_cons_of_neg (by rw [(isSkipped_text hl hc).1]; decide), ih,
        List.filter_cons_of_neg (by rw [hc]; decide)]
    | some c =>
      obtain ⟨hskip, -, hwords⟩ := splitOn_text hl hc
      rw [List.map_cons, List.filter_cons_of_pos (by rw [hskip]; rfl), List.map_cons, hwords, ih,
        List.filter_cons_of_pos (by rw [hc]; rfl), List.map_cons]

theorem read?_renderLines {lines : List Line} (h : ∀ l ∈ lines, l.IsWritable) :
    read? (renderLines lines) = some (lines.filterMap Line.command?) := by
  rw [read?, wordLines_renderLines h]
  induction lines with
  | nil => rfl
  | cons l lines ih =>
    have ih := ih fun k hk => h k (List.mem_cons_of_mem _ hk)
    cases hc : l.command? with
    | none =>
      rw [List.filter_cons_of_neg (by rw [hc]; decide), ih, List.filterMap_cons_none hc]
    | some c =>
      rw [List.filter_cons_of_pos (by rw [hc]; rfl), List.map_cons, List.mapM_cons,
        ofWords?_words (h l List.mem_cons_self) hc, ih, List.filterMap_cons_some hc]
      rfl

/-! ### The lines of programs -/

theorem newline_not_mem_append {s t : String} (hs : '\n' ∉ s.toList) (ht : '\n' ∉ t.toList) :
    '\n' ∉ (s ++ t).toList := by
  rw [String.toList_append, List.mem_append, not_or]
  exact ⟨hs, ht⟩

theorem newline_not_mem_ofList {s : List Char} (h : s.contains '\n' = false) :
    '\n' ∉ (String.ofList s).toList := by
  rw [String.toList_ofList]
  intro hm
  rw [List.contains_iff_mem.2 hm] at h
  cases h

theorem newline_not_mem_uri : '\n' ∉ Thumbnail.uri.toList := by
  have hhead : '\n' ∉ (String.ofList (Thumbnail.base64 Thumbnail.head)).toList :=
    newline_not_mem_ofList (by decide +kernel)
  have hopening : '\n' ∉ Thumbnail.opening.toList := by
    refine newline_not_mem_append ?_ ?_ <;> exact newline_not_mem_ofList rfl
  have hrepeated : '\n' ∉ Thumbnail.repeated.toList := by
    refine newline_not_mem_append (newline_not_mem_append (newline_not_mem_append
      (newline_not_mem_append (newline_not_mem_append ?_ ?_) ?_) ?_) ?_) ?_ <;>
        exact newline_not_mem_ofList rfl
  have hclosing : '\n' ∉ Thumbnail.closing.toList := by
    refine newline_not_mem_append (newline_not_mem_append (newline_not_mem_append
      (newline_not_mem_append (newline_not_mem_append (newline_not_mem_append ?_ ?_) ?_) ?_) ?_)
        ?_) ?_ <;>
        exact newline_not_mem_ofList rfl
  have hmiddle : '\n' ∉ (String.join (List.replicate 19 Thumbnail.repeated)).toList := by
    rw [String.toList_join, List.mem_flatMap]
    rintro ⟨s, hs, hm⟩
    rw [List.eq_of_mem_replicate hs] at hm
    exact hrepeated hm
  exact newline_not_mem_append (newline_not_mem_ofList rfl) (newline_not_mem_append hhead
    (newline_not_mem_append (newline_not_mem_append hopening hmiddle) hclosing))

theorem isWritable_header (power : UInt32) : ∀ l ∈ header power, l.IsWritable := by
  have hmetadata : ∀ e ∈ metadata, '\n' ∉ e.1.toList ∧ '\n' ∉ e.2.toList := by decide +kernel
  have huri : '\n' ∉ ("thumbnail: " ++ Thumbnail.uri).toList :=
    newline_not_mem_append (newline_not_mem_ofList rfl) newline_not_mem_uri
  intro l hl
  rw [header, List.cons_append, List.mem_cons, List.mem_append, List.mem_map] at hl
  rcases hl with rfl | ⟨e, he, rfl⟩ | hl
  · exact newline_not_mem_ofList rfl
  · obtain ⟨hkey, hvalue⟩ := hmetadata e he
    exact newline_not_mem_append
      (newline_not_mem_append hkey (newline_not_mem_ofList rfl)) hvalue
  · simp only [List.mem_cons, List.not_mem_nil, or_false] at hl
    rcases hl with rfl | rfl | rfl | rfl | rfl | rfl | rfl | rfl | rfl
    · exact huri
    · exact newline_not_mem_ofList rfl
    · exact trivial
    · exact newline_not_mem_ofList rfl
    · exact newline_not_mem_ofList rfl
    · exact newline_not_mem_ofList rfl
    · exact trivial
    · exact trivial
    · exact trivial

theorem isWritable_cycle {settings : ProgramSettings} (hs : settings.fault? = none) {hole : Hole}
    (h : hole.isFinite = true) :
    ∀ l ∈ cycle settings.safeHeight settings.drillDepth hole, l.IsWritable := by
  obtain ⟨hdepth, hsign, hheight⟩ := (settings.fault?_eq_none_iff).1 hs
  intro l hl
  simp only [cycle, List.mem_cons, List.not_mem_nil, or_false] at hl
  rcases hl with rfl | rfl | rfl
  · exact h
  · exact ⟨hdepth, hsign⟩
  · exact hheight

theorem isWritable_footer {height : Binary64} (h : height.isFinite = true) :
    ∀ l ∈ footer height, l.IsWritable := by
  intro l hl
  simp only [footer, List.mem_cons, List.not_mem_nil, or_false] at hl
  rcases hl with rfl | rfl | rfl | rfl | rfl | rfl | rfl | rfl
  · exact trivial
  · exact newline_not_mem_ofList rfl
  · exact trivial
  · exact newline_not_mem_ofList rfl
  · exact h
  · exact newline_not_mem_ofList rfl
  · exact trivial
  · exact trivial

end Gcode

end DrillPost

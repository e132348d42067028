import DrillPost.Proofs.Toml.Number
import DrillPost.Proofs.Toml.Text
import DrillPost.Toml.Document

/-!
# Lines of a document

A line that gives a bare key a scalar is read as just that, and so is a line with a header of a bare
key (`reads_readStatement_value`, `reads_readStatement_header`). `readStatements_cons` reads one
line and goes on with the next.
-/

namespace DrillPost.Toml

variable {name : String} {s rest after : List Char}

/-! ### Keys -/

/-- The name can stand without quotes. -/
def IsBareKey (name : String) : Prop := name.toList ≠ [] ∧ ∀ c ∈ name.toList, isBare c = true

instance (name : String) : Decidable (IsBareKey name) :=
  decidable_of_iff (name.toList ≠ [] ∧ name.toList.all isBare = true) (by
    rw [List.all_eq_true]
    rfl)

theorem ne_of_isBare {c d : Char} (h : isBare c = true) (hd : isBare d = false) : c ≠ d := by
  rintro rfl
  exact Bool.false_ne_true (hd.symm.trans h)

theorem isBlank_of_isBare {c : Char} (h : isBare c = true) : isBlank c = false := by
  rw [isBlank, Bool.or_eq_false_iff, beq_eq_false_iff_ne, beq_eq_false_iff_ne]
  exact ⟨ne_of_isBare h (by decide), ne_of_isBare h (by decide)⟩

theorem reads_readName (hname : IsBareKey name) (hrest : ∀ c ∈ rest.head?, isBare c = false) :
    Reads (readName (name.toList ++ rest)) name rest := by
  obtain ⟨hne, hbare⟩ := hname
  have hofList : String.ofList name.toList = name := String.ofList_toList
  generalize name.toList = letters at hne hbare hofList ⊢
  cases letters with
  | nil => exact absurd rfl hne
  | cons c letters =>
    obtain ⟨hc, hletters⟩ := List.forall_mem_cons.1 hbare
    have hquote : ¬ (c = '"' ∨ c = '\'') :=
      not_or.2 ⟨ne_of_isBare hc (by decide), ne_of_isBare hc (by decide)⟩
    have htake : (letters ++ rest).takeWhile isBare = letters := by
      rw [List.takeWhile_append_of_pos hletters]
      cases rest with
      | nil => rw [List.takeWhile_nil, List.append_nil]
      | cons d rest =>
        rw [List.takeWhile_cons_of_neg (by simp [hrest d rfl]), List.append_nil]
    have hdrop := Tail.rest_dropRun_append _ hletters hrest
    have hlength := (Tail.dropRun isBare (letters ++ rest)).notLonger
    rw [hdrop] at hlength
    refine ⟨Nat.lt_succ_of_le hlength, ?_⟩
    show readName (c :: (letters ++ rest)) = _
    rw [readName, if_neg hquote, if_pos hc, htake, hofList]
    simp only [Read.ofTail, hdrop]
    rfl

theorem dropRun_of_head? {p : Char → Bool} (h : ∀ c ∈ s.head?, p c = false) :
    (Tail.dropRun p s).rest = s :=
  Tail.rest_dropRun_append [] (List.forall_mem_nil _) h

theorem skip?_eq_none {α : Type} {x : Read α s} {c : Char} (h : ∀ d ∈ x.rest.head?, d ≠ c) :
    x.skip? c = none := by
  have hfirst : ∀ d ∈ x.toTail.first?, d.value ≠ c := by
    intro d hd
    unfold Tail.first? at hd
    split at hd
    · cases hd
    · next e r heq =>
      cases hd
      exact h e (by rw [show x.rest = e :: r from heq]; rfl)
  unfold Read.skip?
  split
  · rfl
  · next d hd => exact if_neg (hfirst d hd)

/-- A bare key ends before the blanks after it, where no point follows them. -/
theorem reads_readPath (hname : IsBareKey name) (blanks : List Char)
    (hblanks : ∀ c ∈ blanks, isBlank c = true)
    (hafter : ∀ c ∈ after.head?, isBlank c = false ∧ isBare c = false ∧ c ≠ '.') :
    ∃ span, Reads (readPath (name.toList ++ (blanks ++ after))) [⟨name, span⟩] after := by
  have hrest : ∀ c ∈ (blanks ++ after).head?, isBare c = false := by
    intro c hc
    cases blanks with
    | nil => exact (hafter c hc).2.1
    | cons d blanks =>
      obtain rfl : d = c := Option.some.inj hc
      cases hbare : isBare d with
      | false => rfl
      | true => exact (hblanks d List.mem_cons_self).symm.trans (isBlank_of_isBare hbare)
  have hstart : ∀ c ∈ (name.toList ++ (blanks ++ after)).head?, isBlank c = false := by
    intro c hc
    rw [List.head?_append_of_ne_nil _ hname.1] at hc
    exact isBlank_of_isBare (hname.2 c (List.mem_of_mem_head? hc))
  have hread := reads_readName hname hrest
  have hblank := Tail.rest_dropRun_append _ hblanks fun c hc => (hafter c hc).1
  generalize name.toList ++ (blanks ++ after) = text at hstart hread ⊢
  obtain ⟨shorter, hread⟩ := hread.eq_some
  have hkey : ∃ span, Reads ((Tail.dropRun isBlank text).thenRead readSimpleKey)
      (⟨name, span⟩ : Key) (blanks ++ after) := by
    refine ⟨⟨text, blanks ++ after⟩, Reads.within ?_⟩
    rw [dropRun_of_head? hstart]
    refine ⟨shorter, ?_⟩
    rw [readSimpleKey, hread]
    rfl
  obtain ⟨span, hkey⟩ := hkey
  obtain ⟨shorter', hkey⟩ := hkey.eq_some
  have hlength : after.length < text.length := by
    have hle := (Tail.dropRun isBlank (blanks ++ after)).notLonger
    rw [hblank] at hle
    exact Nat.lt_of_le_of_lt hle shorter'
  refine ⟨span, hlength, ?_⟩
  have hkeys : readKeys text = some ⟨[⟨name, span⟩], after, hlength⟩ := by
    have hpoint : ∀ c ∈ (Tail.dropRun isBlank (blanks ++ after)).rest.head?, c ≠ '.' := by
      rw [hblank]
      exact fun c hc => (hafter c hc).2.2
    rw [readKeys, hkey]
    dsimp only
    rw [skip?_eq_none hpoint]
    simp only [Read.leave, Read.map, hblank]
  rw [readPath, hkeys]
  rfl

/-! ### Lines -/

theorem readWord_cons (c : Char) (s : List Char) :
    readWord [c] (c :: s) = some ⟨s, Nat.le_succ s.length⟩ := by
  rw [readWord, if_pos rfl]
  rfl

/-- A character that begins a scalar. -/
def BeginsScalar (c : Char) : Prop := isBlank c = false ∧ c ≠ '[' ∧ c ≠ '\x7b'

instance (c : Char) : Decidable (BeginsScalar c) := inferInstanceAs (Decidable (_ ∧ _))

/-- What begins with a digit or a minus is read as a number. -/
theorem readScalar_of_number {c : Char} (hc : c.isDigit = true ∨ c = '-') (r : List Char) :
    BeginsScalar c ∧ readScalar (c :: r) = readNumeric (c :: r) := by
  have hne : ∀ {d : Char}, d.isDigit = false → d ≠ '-' → c ≠ d := by
    rintro d hd hminus rfl
    exact hc.elim (fun hc => Bool.false_ne_true (hd.symm.trans hc)) hminus
  have hquote : ¬ (c = '"' ∨ c = '\'') :=
    not_or.2 ⟨hne (by decide) (by decide), hne (by decide) (by decide)⟩
  refine ⟨⟨?_, hne (by decide) (by decide), hne (by decide) (by decide)⟩, ?_⟩
  · rw [isBlank, Bool.or_eq_false_iff, beq_eq_false_iff_ne, beq_eq_false_iff_ne]
    exact ⟨hne (by decide) (by decide), hne (by decide) (by decide)⟩
  · rw [readScalar, if_neg hquote, if_neg (hne (by decide) (by decide)),
      if_neg (hne (by decide) (by decide))]

theorem reads_readValue {value : Scalar} (hhead : ∀ c ∈ s.head?, BeginsScalar c)
    (h : Reads (readScalar s) value rest) :
    Reads (readValue s) (.scalar ⟨s, rest⟩ value) rest := by
  obtain ⟨shorter, hread⟩ := h.eq_some
  refine ⟨shorter, ?_⟩
  unfold readValue readValueWithin
  split
  · exact absurd rfl (hhead _ rfl).2.1
  · exact absurd rfl (hhead _ rfl).2.2
  · rw [hread]
    rfl

/-- A bare key and its scalar. -/
theorem reads_readMember {value : Scalar} (hname : IsBareKey name)
    (hhead : ∀ c ∈ s.head?, BeginsScalar c) (h : Reads (readScalar s) value rest) :
    ∃ span, Reads (readMember readValue (name.toList ++ ([' '] ++ '=' :: ' ' :: s)))
      ([⟨name, span⟩], .scalar ⟨s, rest⟩ value) rest := by
  have hequals : isBlank '=' = false ∧ isBare '=' = false ∧ '=' ≠ '.' := by decide
  obtain ⟨span, hpath⟩ :=
    reads_readPath hname [' '] (List.forall_mem_singleton.2 rfl)
      (forall_mem_head?_cons hequals (' ' :: s))
  generalize name.toList ++ ([' '] ++ '=' :: ' ' :: s) = line at hpath ⊢
  obtain ⟨shorter, hpath⟩ := hpath.eq_some
  have hblank : (Tail.dropRun isBlank (' ' :: s)).rest = s :=
    Tail.rest_dropRun_append [' '] (List.forall_mem_singleton.2 rfl) fun c hc => (hhead c hc).1
  have hvalue : Reads (readValue (Tail.dropRun isBlank (' ' :: s)).rest)
      (.scalar ⟨s, rest⟩ value) rest := by
    rw [hblank]
    exact reads_readValue hhead h
  let path : Read (List Key) line := ⟨[⟨name, span⟩], '=' :: ' ' :: s, shorter⟩
  let equals : Tail path.rest := ⟨' ' :: s, Nat.le_succ _⟩
  let start := path.leave (equals.andThen (.dropRun isBlank (' ' :: s)))
  have hthen := Reads.andThen (x := start) hvalue
  obtain ⟨shorter', hthen⟩ := hthen.eq_some
  refine ⟨span, shorter', ?_⟩
  rw [readMember, hpath]
  dsimp only
  rw [readWord_cons]
  dsimp only
  rw [hthen]
  rfl

theorem exists_readLineEnd (rest : List Char) :
    ∃ t, readLineEnd ('\n' :: rest) = some t ∧ t.rest = rest := by
  have hblank : (dropBlank ('\n' :: rest)).rest = '\n' :: rest := rfl
  have hnewline : Reads ((dropBlank ('\n' :: rest)).thenRead readNewline) () rest :=
    Reads.within ⟨Nat.lt_succ_self _, rfl⟩
  obtain ⟨shorter, hnewline⟩ := hnewline.eq_some
  refine ⟨⟨rest, Nat.le_of_lt shorter⟩, ?_, rfl⟩
  rw [readLineEnd, hnewline]
  rfl

/-- A line that gives a bare key a scalar. -/
theorem reads_readStatement_value {text : List Char} {value : Scalar} (hname : IsBareKey name)
    (hhead : ∀ c ∈ text.head?, BeginsScalar c) (hne : text ≠ [])
    (h : Reads (readScalar (text ++ '\n' :: rest)) value ('\n' :: rest)) :
    ∃ span, Reads (readStatement (name.toList ++ ([' '] ++ '=' :: ' ' :: (text ++ '\n' :: rest))))
      (.value [⟨name, span⟩] (.scalar ⟨text ++ '\n' :: rest, '\n' :: rest⟩ value)) rest := by
  replace hhead : ∀ c ∈ (text ++ '\n' :: rest).head?, BeginsScalar c := by
    rwa [List.head?_append_of_ne_nil _ hne]
  obtain ⟨span, hmember⟩ := reads_readMember hname hhead h
  refine ⟨span, ?_⟩
  have hbracket : ∀ c ∈ (name.toList ++ ([' '] ++ '=' :: ' ' :: (text ++ '\n' :: rest))).head?,
      c ≠ '[' := by
    intro c hc
    rw [List.head?_append_of_ne_nil _ hname.1] at hc
    exact ne_of_isBare (hname.2 c (List.mem_of_mem_head? hc)) (by decide)
  generalize name.toList ++ ([' '] ++ '=' :: ' ' :: (text ++ '\n' :: rest)) = line
    at hmember hbracket ⊢
  obtain ⟨shorter, hmember⟩ := hmember.eq_some
  obtain ⟨t, hend, ht⟩ := exists_readLineEnd rest
  refine ⟨Nat.lt_trans (Nat.lt_succ_self _) shorter, ?_⟩
  unfold readStatement
  split
  · exact absurd rfl (hbracket _ rfl)
  · exact absurd rfl (hbracket _ rfl)
  · rw [hmember]
    dsimp only
    rw [hend]
    simp only [Option.map_some, Read.leave, Read.map, ht]
    rfl

/-- A line that holds a header of a bare key. -/
theorem reads_readStatement_header (hname : IsBareKey name) (rest : List Char) :
    ∃ span place, Reads (readStatement ('[' :: (name.toList ++ ([] ++ ']' :: '\n' :: rest))))
      (.table [⟨name, span⟩] place) rest := by
  have hbracket : isBlank ']' = false ∧ isBare ']' = false ∧ ']' ≠ '.' := by decide
  obtain ⟨span, hpath⟩ :=
    reads_readPath hname [] (List.forall_mem_nil _) (forall_mem_head?_cons hbracket ('\n' :: rest))
  have hbracket : ∀ c ∈ (name.toList ++ ([] ++ ']' :: '\n' :: rest)).head?, c ≠ '[' := by
    intro c hc
    rw [List.head?_append_of_ne_nil _ hname.1] at hc
    exact ne_of_isBare (hname.2 c (List.mem_of_mem_head? hc)) (by decide)
  generalize name.toList ++ ([] ++ ']' :: '\n' :: rest) = line at hpath hbracket ⊢
  obtain ⟨shorter, hpath⟩ := hpath.eq_some
  obtain ⟨t, hend, ht⟩ := exists_readLineEnd rest
  refine ⟨span, ⟨'[' :: line, '\n' :: rest⟩, ?_⟩
  have hheader : Reads (readHeader [']'] .table ('[' :: line) line)
      (.table [⟨name, span⟩] ⟨'[' :: line, '\n' :: rest⟩) rest := by
    refine ⟨Nat.lt_trans (Nat.lt_succ_of_lt (Nat.lt_succ_self _)) shorter, ?_⟩
    rw [readHeader, hpath]
    dsimp only
    rw [readWord_cons]
    dsimp only
    rw [hend]
    simp only [Option.map_some, Read.leave, Read.map, Tail.andThen, ht]
    rfl
  obtain ⟨shorter', hheader⟩ := hheader.eq_some
  refine ⟨Nat.lt_succ_of_lt shorter', ?_⟩
  rw [readStatement.eq_2 line fun r hr => hbracket '[' (by rw [hr]; rfl) rfl, hheader]
  rfl

/-! ### Statements -/

theorem readStatements_nil : readStatements [] = some [] := by
  rw [readStatements]
  rfl

theorem readStatements_cons {statement : Statement} {statements : List Statement}
    (hhead : ∀ c ∈ s.head?, isBlank c = false ∧ c ≠ '#' ∧ c ≠ '\n' ∧ c ≠ '\r')
    (h : Reads (readStatement s) statement rest) (hrest : readStatements rest = some statements) :
    readStatements s = some (statement :: statements) := by
  have hdrop : (Tail.dropRun isBlank s).rest = s := dropRun_of_head? fun c hc => (hhead c hc).1
  have hread : Reads ((Tail.dropRun isBlank s).thenRead readStatement) statement rest :=
    Reads.within (by rw [hdrop]; exact h)
  obtain ⟨shorter, hread⟩ := hread.eq_some
  cases s with
  | nil => cases shorter
  | cons c s =>
    obtain ⟨-, hcomment, hn, hr⟩ := hhead c rfl
    have hfirst : (Tail.dropRun isBlank (c :: s)).rest.head? = some c := by
      rw [hdrop, List.head?_cons]
    rw [readStatements, hfirst]
    dsimp only
    rw [if_neg (not_or.2 ⟨hcomment, not_or.2 ⟨hn, hr⟩⟩), hread]
    dsimp only
    rw [hrest, Option.map_some]

theorem readStatements_newline (s : List Char) : readStatements ('\n' :: s) = readStatements s := by
  obtain ⟨t, hend, ht⟩ := exists_readLineEnd s
  have hdrop : Tail.dropRun isBlank ('\n' :: s) = .all ('\n' :: s) := rfl
  have hlength : t.rest.length < ('\n' :: s).length := by rw [ht]; exact Nat.lt_succ_self _
  rw [readStatements, hdrop]
  show (match readLineEnd ('\n' :: s) with
    | none => none
    | some t => if _h : t.rest.length < ('\n' :: s).length then readStatements t.rest else none) = _
  rw [hend]
  dsimp only
  rw [dif_pos hlength, ht]

end DrillPost.Toml

import DrillPost.Proofs.Text.Reading
import DrillPost.Toml.Printer
import DrillPost.Toml.Text

/-!
# Written texts are read back

Whatever form a text is written in, it is what is read (`reads_readString_writeText`). In a basic
string every character stands for itself or is escaped (`escape_spec`). In a string over several
lines quotes may stand for themselves as long as there are never three of them in a row; only at the
end of the string up to two may stand before the closing three (`reads_readLines_quotes`).
-/

namespace DrillPost.Toml

variable {s rest : List Char}

/-! ### Escapes -/

/-- A character that is no control character can stand for itself. -/
theorem eq_or_isOrdinary {c : Char} (h : isControl c = false) : c = '\n' ∨ isOrdinary c = true := by
  rw [isControl, Bool.or_eq_false_iff, Bool.and_eq_false_iff, Bool.and_eq_false_iff,
    decide_eq_false_iff_not, decide_eq_false_iff_not, decide_eq_false_iff_not,
    beq_eq_false_iff_ne, not_not, not_not] at h
  rw [isOrdinary, Bool.or_eq_true, Bool.and_eq_true, decide_eq_true_eq, decide_eq_true_eq,
    beq_iff_eq]
  obtain ⟨(hlow | htab) | hline, hdelete⟩ := h
  · exact .inr (.inr ⟨Nat.le_of_not_lt hlow, hdelete⟩)
  · exact .inr (.inl htab)
  · exact .inl hline

/-- The digits of a code point of a control character are read back. -/
theorem hexValue?_toDigits {n : Nat} (h : n < 128) :
    let digits := (Nat.toDigits 16 n).map Char.toUpper
    let code := List.replicate (4 - digits.length) '0' ++ digits
    code.length = 4 ∧ (hexValue? code).bind charOf? = some (Char.ofNat n) := by
  revert n
  decide +kernel

theorem reads_readEscape_letter {c l : Char} (hletter : escaped? l = some c) (hu : l ≠ 'u')
    (hU : l ≠ 'U') (rest : List Char) : Reads (readEscape (l :: rest)) c rest := by
  refine ⟨Nat.lt_succ_self _, ?_⟩
  rw [readEscape, if_neg (not_or.2 ⟨hu, hU⟩), hletter]
  rfl

theorem reads_readEscape_codePoint {c : Char} (h : isControl c = true) (rest : List Char) :
    Reads (readEscape ((codePoint c).tail ++ rest)) c rest := by
  have hlt : c.toNat < 128 := by
    rw [isControl, Bool.or_eq_true, Bool.and_eq_true, Bool.and_eq_true, decide_eq_true_eq,
      beq_iff_eq] at h
    omega
  obtain ⟨hlength, hvalue⟩ := hexValue?_toDigits hlt
  rw [codePoint, List.tail_cons, List.cons_append]
  generalize List.replicate _ '0' ++ _ = code at hlength hvalue ⊢
  have hcode : readCodePoint 4 (code ++ rest) = some (c, .drop 4 (code ++ rest)) := by
    rw [readCodePoint, if_neg (by rw [List.length_append]; omega), List.take_left' hlength, hvalue,
      Char.ofNat_toNat]
    rfl
  have hdrop : (code ++ rest).drop 4 = rest := List.drop_left' hlength
  refine ⟨by rw [List.length_cons, List.length_append]; omega, ?_⟩
  rw [readEscape, if_pos (.inl rfl), if_pos rfl, hcode]
  simp only [Option.map_some, Read.ofTail, Tail.drop, hdrop]
  rfl

/-- A character other than a double quote stands for itself, or for what is read after a
backslash. -/
theorem escape_spec (isMultiLine : Bool) (c : Char) :
    (∃ l t, escape isMultiLine c = '\\' :: l :: t ∧ isBlank l = false ∧ l ≠ '\n' ∧ l ≠ '\r' ∧
      ∀ rest, Reads (readEscape (l :: (t ++ rest))) c rest) ∨
    (escape isMultiLine c = [c] ∧ c ≠ '\\' ∧ c ≠ '\r' ∧
      (isOrdinary c = true ∨ isMultiLine = true ∧ c = '\n')) := by
  have letter : ∀ l, escape isMultiLine c = ['\\', l] → escaped? l = some c →
      isBlank l = false ∧ l ≠ '\n' ∧ l ≠ '\r' ∧ l ≠ 'u' ∧ l ≠ 'U' →
      ∃ l t, escape isMultiLine c = '\\' :: l :: t ∧ isBlank l = false ∧ l ≠ '\n' ∧ l ≠ '\r' ∧
        ∀ rest, Reads (readEscape (l :: (t ++ rest))) c rest := by
    rintro l hescape hletter ⟨hblank, hn, hr, hu, hU⟩
    exact ⟨l, [], hescape, hblank, hn, hr, reads_readEscape_letter hletter hu hU⟩
  unfold escape at letter ⊢
  by_cases hb : c = '\x08'
  · subst hb
    exact .inl (letter 'b' rfl rfl (by decide))
  by_cases ht : c = '\t'
  · subst ht
    exact .inl (letter 't' rfl rfl (by decide))
  by_cases hn : c = '\n'
  · subst hn
    cases isMultiLine with
    | true => exact .inr ⟨rfl, by decide, by decide, .inr ⟨rfl, rfl⟩⟩
    | false => exact .inl (letter 'n' rfl rfl (by decide))
  by_cases hf : c = '\x0c'
  · subst hf
    exact .inl (letter 'f' rfl rfl (by decide))
  by_cases hr : c = '\r'
  · subst hr
    exact .inl (letter 'r' rfl rfl (by decide))
  by_cases hs : c = '\\'
  · subst hs
    exact .inl (letter '\\' rfl rfl (by decide))
  rw [if_neg hb, if_neg ht, if_neg hn, if_neg hf, if_neg hr, if_neg hs]
  by_cases hcontrol : isControl c = true
  · rw [if_pos hcontrol]
    refine .inl ⟨'u', (codePoint c).tail.tail, rfl, by decide, by decide, by decide, ?_⟩
    exact reads_readEscape_codePoint hcontrol
  · rw [if_neg hcontrol]
    have hplain := eq_or_isOrdinary (Bool.not_eq_true _ ▸ hcontrol)
    exact .inr ⟨rfl, hs, hr, .inl (hplain.resolve_left hn)⟩

/-! ### Strings on one line -/

theorem reads_readBasic (s rest : List Char) :
    Reads (readBasic (escapeLine s ++ '"' :: rest)) s rest := by
  induction s with
  | nil => exact reads_readRun_last [] (Nat.lt_succ_self _) rfl
  | cons c s ih =>
    have hescaped : ∀ {l : Char} {t : List Char}, Reads (readEscape (l :: (t ++ (escapeLine s ++
        '"' :: rest)))) c (escapeLine s ++ '"' :: rest) →
        Reads (readBasic ('\\' :: l :: (t ++ (escapeLine s ++ '"' :: rest)))) (c :: s) rest := by
      intro l t hread
      obtain ⟨shorter, hread⟩ := hread.eq_some
      refine reads_readRun_more [c] (Nat.lt_succ_of_lt shorter) ?_ ih
      rw [readBasicCharacter, if_neg (by decide), if_pos rfl, hread]
      rfl
    rw [escapeLine, List.flatMap_cons, ← escapeLine, List.append_assoc]
    by_cases hquote : c = '"'
    · subst hquote
      rw [if_pos rfl]
      exact hescaped (reads_readEscape_letter rfl (by decide) (by decide) _)
    rw [if_neg hquote]
    rcases escape_spec false c with
      ⟨l, t, hescape, -, -, -, hread⟩ | ⟨hescape, hbackslash, -, hplain⟩
    · rw [hescape]
      exact hescaped (hread _)
    · have hordinary : isOrdinary c = true := hplain.resolve_right fun h => Bool.false_ne_true h.1
      rw [hescape]
      refine reads_readRun_more [c] (Nat.lt_succ_self _) ?_ ih
      show readBasicCharacter (c :: (escapeLine s ++ '"' :: rest)) = _
      rw [readBasicCharacter, if_neg hquote, if_neg hbackslash, if_pos hordinary]
      rfl

theorem reads_readLiteral (hquote : '\'' ∉ s) (hordinary : ∀ c ∈ s, isOrdinary c = true)
    (rest : List Char) : Reads (readLiteral (s ++ '\'' :: rest)) s rest := by
  induction s with
  | nil => exact reads_readRun_last [] (Nat.lt_succ_self _) rfl
  | cons c s ih =>
    obtain ⟨hc, hs⟩ := List.forall_mem_cons.1 hordinary
    have hne : c ≠ '\'' := fun h => hquote (h ▸ List.mem_cons_self)
    refine reads_readRun_more [c] (Nat.lt_succ_self _) ?_
      (ih (fun h => hquote (List.mem_cons_of_mem c h)) hs)
    show readLiteralCharacter (c :: (s ++ '\'' :: rest)) = _
    rw [readLiteralCharacter, if_neg hne, if_pos hc]
    rfl

/-- A character begins with no quote. -/
theorem head?_escapeLine {c d : Char} (h : d ∈ (escapeLine (c :: s)).head?) : d ≠ '"' := by
  rw [escapeLine, List.flatMap_cons] at h
  by_cases hquote : c = '"'
  · rw [if_pos hquote] at h
    obtain rfl : '\\' = d := Option.some.inj h
    decide
  rw [if_neg hquote] at h
  rcases escape_spec false c with ⟨l, t, hescape, -⟩ | ⟨hescape, -⟩
  · rw [hescape] at h
    obtain rfl : '\\' = d := Option.some.inj h
    decide
  · rw [hescape] at h
    obtain rfl : c = d := Option.some.inj h
    exact hquote

/-! ### Strings over several lines -/

/-- Three quotes. -/
def triple (quote : Char) : List Char := [quote, quote, quote]

variable {quote : Char} {escapes : Bool}

theorem readClosing_eq_none (h : ¬ triple quote <+: s) : readClosing quote s = none := by
  unfold readClosing
  split
  · next a b c r =>
    rw [if_neg]
    rintro ⟨rfl, rfl, rfl⟩
    exact h ⟨r, rfl⟩
  · rfl

/-- Up to two quotes before the closing three belong to the string. -/
theorem reads_readLines_quotes (count : Nat) (hcount : count ≤ 2)
    (hrest : ∀ c ∈ rest.head?, c ≠ quote) :
    Reads (readLines quote escapes (List.replicate count quote ++ (triple quote ++ rest)))
      (List.replicate count quote) rest := by
  have hopen : List.replicate count quote ++ (triple quote ++ rest) =
      triple quote ++ (List.replicate count quote ++ rest) := by
    rw [triple, ← List.append_assoc, ← List.append_assoc]
    congr 1
    show List.replicate count quote ++ List.replicate 3 quote =
      List.replicate 3 quote ++ List.replicate count quote
    rw [List.replicate_append_replicate, List.replicate_append_replicate, Nat.add_comm]
  have hextra : ((List.replicate count quote ++ rest).take 2).takeWhile (· = quote) =
      List.replicate count quote := by
    have hcases : count = 0 ∨ count = 1 ∨ count = 2 := by omega
    cases rest with
    | nil => rcases hcases with rfl | rfl | rfl <;> simp [List.replicate]
    | cons c rest =>
      have hc : c ≠ quote := hrest c rfl
      rcases hcases with rfl | rfl | rfl <;> simp [List.replicate, hc]
  have hdrop : (List.replicate count quote ++ rest).drop (List.replicate count quote).length =
      rest := List.drop_left
  rw [hopen]
  have hlength : rest.length < (triple quote ++ (List.replicate count quote ++ rest)).length := by
    rw [List.length_append, List.length_append]
    show rest.length < 3 + _
    omega
  refine reads_readRun_last _ hlength ?_
  show readPiece quote escapes (quote :: quote :: quote :: (List.replicate count quote ++ rest)) = _
  rw [readPiece, readClosing, if_pos ⟨rfl, rfl, rfl⟩]
  simp only [hextra, Read.ofTail, Read.past, Tail.drop, hdrop]
  rfl

theorem readNewline_eq_none (h : ∀ c ∈ s.head?, c ≠ '\n' ∧ c ≠ '\r') : readNewline s = none := by
  unfold readNewline
  split
  · exact absurd rfl (h _ rfl).1
  · exact absurd rfl (h _ rfl).2
  · rfl

theorem dropContinuation?_eq_none {l : Char} (hblank : isBlank l = false) (hn : l ≠ '\n')
    (hr : l ≠ '\r') : dropContinuation? (l :: s) = none := by
  have hdrop : (Tail.dropRun isBlank (l :: s)).rest = l :: s :=
    List.dropWhile_cons_of_neg (by simp [hblank])
  have hnewline : readNewline (Tail.dropRun isBlank (l :: s)).rest = none := by
    rw [hdrop]
    exact readNewline_eq_none (forall_mem_head?_cons ⟨hn, hr⟩ s)
  rw [dropContinuation?, Tail.thenRead, hnewline]
  rfl

/-- A character that is no quote, or one of fewer than three, is read by itself. -/
theorem reads_readLines_cons {c : Char} {text value : List Char}
    (hclosing : ¬ triple quote <+: c :: text) (hbackslash : escapes = true → c ≠ '\\')
    (hplain : c = '\n' ∨ isOrdinary c = true)
    (h : Reads (readLines quote escapes text) value rest) :
    Reads (readLines quote escapes (c :: text)) (c :: value) rest := by
  refine reads_readRun_more [c] (Nat.lt_succ_self _) ?_ h
  have hno : ¬ (c = '\\' ∧ escapes = true) := fun hc => hbackslash hc.2 hc.1
  rw [readPiece, readClosing_eq_none hclosing]
  dsimp only
  rw [if_neg hno]
  rcases hplain with rfl | hordinary
  · rfl
  · have hends : c ≠ '\n' ∧ c ≠ '\r' := by
      constructor <;> rintro rfl <;> exact absurd hordinary (by decide)
    rw [readNewline_eq_none (forall_mem_head?_cons hends text)]
    dsimp only
    rw [if_pos hordinary]
    rfl

/-- A backslash that does not end a line begins an escape. -/
theorem reads_readLines_escape {c l : Char} {text value : List Char}
    (hread : ∀ rest, Reads (readEscape (l :: (s ++ rest))) c rest) (hblank : isBlank l = false)
    (hn : l ≠ '\n') (hr : l ≠ '\r') (h : Reads (readLines '"' true text) value rest) :
    Reads (readLines '"' true ('\\' :: l :: (s ++ text))) (c :: value) rest := by
  obtain ⟨shorter, hread⟩ := (hread text).eq_some
  refine reads_readRun_more [c] (Nat.lt_succ_of_lt shorter) ?_ h
  have hclosing : ¬ triple '"' <+: '\\' :: l :: (s ++ text) := by
    intro hprefix
    exact absurd (List.cons_prefix_cons.1 hprefix).1 (by decide)
  rw [readPiece, readClosing_eq_none hclosing]
  dsimp only
  rw [if_pos ⟨rfl, rfl⟩, dropContinuation?_eq_none hblank hn hr, hread]
  rfl

/-- Up to two quotes and then something else are not three quotes. -/
theorem not_isPrefix_triple (count : Nat) (hcount : count ≤ 2) (h : ∀ c ∈ s.head?, c ≠ quote) :
    ¬ triple quote <+: List.replicate count quote ++ s := by
  have hhead : ¬ [quote] <+: s :=
    fun hprefix => h quote (List.singleton_prefix_iff_head?_eq_some.1 hprefix) rfl
  obtain rfl | rfl | rfl : count = 0 ∨ count = 1 ∨ count = 2 := by omega
  · intro hprefix
    exact hhead ((List.prefix_append [quote] [quote, quote]).trans hprefix)
  · intro hprefix
    have hprefix := (List.cons_prefix_cons.1 hprefix).2
    exact hhead ((List.prefix_append [quote] [quote]).trans hprefix)
  · intro hprefix
    exact hhead (List.cons_prefix_cons.1 (List.cons_prefix_cons.1 hprefix).2).2

/-- How an escaped character begins. -/
theorem head?_escape {c d : Char} (hc : c ≠ '"') (h : d ∈ (escape true c ++ s).head?) :
    d ≠ '"' ∧ d ≠ '\r' ∧ (d = '\n' → c = '\n') := by
  rcases escape_spec true c with ⟨l, t, hescape, -⟩ | ⟨hescape, -, hr, -⟩
  · rw [hescape] at h
    obtain rfl : '\\' = d := Option.some.inj h
    exact ⟨by decide, by decide, fun hn => absurd hn (by decide)⟩
  · rw [hescape] at h
    obtain rfl : c = d := Option.some.inj h
    exact ⟨hc, hr, id⟩

/-- A character begins with no quote where a quote would have to be escaped. -/
theorem head?_escapeLines {quotes : Nat} {c d : Char} (hc : c ≠ '"' ∨ quotes = 2)
    (h : d ∈ (escapeLines quotes (c :: s) ++ rest).head?) : d ≠ '"' := by
  rw [escapeLines] at h
  by_cases hquote : c = '"'
  · rw [if_pos hquote, if_pos (hc.resolve_left fun hne => hne hquote)] at h
    obtain rfl : '\\' = d := Option.some.inj h
    decide
  · rw [if_neg hquote, List.append_assoc] at h
    exact (head?_escape hquote h).1

/-- Quotes that are left as they are never come three in a row, unless they end the string. -/
theorem reads_escapeLines {quotes : Nat} (hquotes : quotes ≤ 2) (hrest : ∀ c ∈ rest.head?, c ≠ '"')
    (s : List Char) :
    Reads (readLines '"' true (escapeLines quotes s ++ (triple '"' ++ rest))) s rest := by
  induction s generalizing quotes with
  | nil => exact reads_readLines_quotes 0 (by decide) hrest
  | cons c s ih =>
    rw [escapeLines]
    by_cases hquote : c = '"'
    · subst hquote
      rw [if_pos rfl]
      by_cases htwo : quotes = 2
      · rw [if_pos htwo]
        exact reads_readLines_escape (s := [])
          (reads_readEscape_letter rfl (by decide) (by decide)) (by decide) (by decide) (by decide)
          (ih (by decide))
      rw [if_neg htwo]
      -- The quotes that follow end the string, or something else comes before a third of them.
      have hone : ∀ {text : List Char}, ¬ triple '"' <+: '"' :: text →
          Reads (readLines '"' true text) s rest →
          Reads (readLines '"' true ('"' :: text)) ('"' :: s) rest :=
        fun hclosing => reads_readLines_cons hclosing (fun _ => by decide) (.inr (by decide))
      match s with
      | [] => exact reads_readLines_quotes 1 (by decide) hrest
      | d :: s =>
        by_cases hd : d ≠ '"' ∨ quotes + 1 = 2
        · exact hone (not_isPrefix_triple 1 (by decide) fun _ => head?_escapeLines hd)
            (ih (by omega))
        rw [not_or, not_not] at hd
        obtain ⟨rfl, hzero⟩ := hd
        obtain rfl : quotes = 0 := by omega
        match s with
        | [] => exact reads_readLines_quotes 2 (by decide) hrest
        | e :: s =>
          exact hone (not_isPrefix_triple 2 (by decide) fun _ =>
            head?_escapeLines (.inr rfl)) (ih (by decide))
    rw [if_neg hquote, List.append_assoc]
    rcases escape_spec true c with
      ⟨l, t, hescape, hblank, hn, hr, hread⟩ | ⟨hescape, hbackslash, -, hplain⟩
    · rw [hescape]
      exact reads_readLines_escape hread hblank hn hr (ih (by decide))
    · rw [hescape]
      have hhead : ∀ d ∈ (c :: (escapeLines 0 s ++ (triple '"' ++ rest))).head?, d ≠ '"' :=
        fun d hd => Option.some.inj hd ▸ hquote
      exact reads_readLines_cons (not_isPrefix_triple 0 (by decide) hhead)
        (fun _ => hbackslash) (hplain.symm.imp_left And.right) (ih (by decide))

theorem hasRun_of_cons {c : Char} (h : hasRun quote (c :: s) = false) : hasRun quote s = false := by
  match s with
  | [] => rfl
  | [_] => rfl
  | a :: b :: s =>
    rw [hasRun, Bool.or_eq_false_iff] at h
    exact h.2

/-- A text without escapes, and without three quotes in a row, stands as it is. -/
theorem reads_literalLines (hquote : isOrdinary quote = true) (hrest : ∀ c ∈ rest.head?, c ≠ quote)
    (hrun : hasRun quote s = false) (hplain : ∀ c ∈ s, c = '\n' ∨ isOrdinary c = true) :
    Reads (readLines quote false (s ++ (triple quote ++ rest))) s rest := by
  induction s with
  | nil => exact reads_readLines_quotes 0 (by decide) hrest
  | cons c s ih =>
    obtain ⟨hc, hs⟩ := List.forall_mem_cons.1 hplain
    have hone : ¬ triple quote <+: c :: (s ++ (triple quote ++ rest)) →
        Reads (readLines quote false (c :: (s ++ (triple quote ++ rest)))) (c :: s) rest :=
      fun hclosing => reads_readLines_cons hclosing nofun hc (ih (hasRun_of_cons hrun) hs)
    have hhead : ∀ {d : Char} {text : List Char}, d ≠ quote → ∀ e ∈ (d :: text).head?, e ≠ quote :=
      fun hd _ he => Option.some.inj he ▸ hd
    by_cases hcq : c = quote
    · subst hcq
      match s with
      | [] => exact reads_readLines_quotes 1 (by decide) hrest
      | d :: s =>
        by_cases hdq : d = c
        · subst hdq
          match s with
          | [] => exact reads_readLines_quotes 2 (by decide) hrest
          | e :: s =>
            have heq : e ≠ d := by
              rw [hasRun, Bool.or_eq_false_iff, BEq.rfl, Bool.true_and, Bool.true_and,
                beq_eq_false_iff_ne] at hrun
              exact hrun.1
            exact hone (not_isPrefix_triple 2 (by decide) (hhead heq))
        · exact hone (not_isPrefix_triple 1 (by decide) (hhead hdq))
    · exact hone (not_isPrefix_triple 0 (by decide) (hhead hcq))

/-! ### Any form -/

/-- The first line end does not belong to the string. -/
theorem reads_readBlock {text value : List Char}
    (hhead : ∀ c ∈ text.head?, c ≠ '\r' ∧ (c = '\n' → '\n' ∈ s))
    (h : Reads (readLines quote escapes text) value rest) :
    Reads (readBlock quote escapes (firstLine s ++ text)) (String.ofList value) rest := by
  have hdrop : (dropNewline (firstLine s ++ text)).rest = text := by
    by_cases hmem : '\n' ∈ s
    · rw [firstLine, if_pos hmem]
      rfl
    · have hends : ∀ c ∈ text.head?, c ≠ '\n' ∧ c ≠ '\r' :=
        fun c hc => ⟨fun hn => hmem ((hhead c hc).2 hn), (hhead c hc).1⟩
      rw [firstLine, if_neg hmem, List.nil_append, dropNewline, readNewline_eq_none hends]
      rfl
  rw [← hdrop] at h
  obtain ⟨shorter, hread⟩ := h.within.eq_some
  refine ⟨shorter, ?_⟩
  rw [readBlock, hread]
  rfl

theorem reads_readString_triple
    (hquote : quote = '"' ∧ escapes = true ∨ quote = '\'' ∧ escapes = false)
    {text : List Char} {value : String} (h : Reads (readBlock quote escapes text) value rest) :
    Reads (readString (triple quote ++ text)) value rest := by
  obtain ⟨shorter, hread⟩ := h.eq_some
  have hlength : rest.length < (triple quote ++ text).length := by
    rw [List.length_append]
    exact Nat.lt_add_left _ shorter
  refine ⟨hlength, ?_⟩
  rcases hquote with ⟨rfl, rfl⟩ | ⟨rfl, rfl⟩
  · show ((readBlock '"' true text).map fun x => ((x.past '"').past '"').past '"') = _
    rw [hread]
    rfl
  · show ((readBlock '\'' false text).map fun x => ((x.past '\'').past '\'').past '\'') = _
    rw [hread]
    rfl

theorem readString_eq_readQuoted (hdouble : ¬ triple '"' <+: s) (hsingle : ¬ triple '\'' <+: s) :
    readString s = readQuoted s := by
  unfold readString
  split
  · next r => exact absurd ⟨r, rfl⟩ hdouble
  · next r => exact absurd ⟨r, rfl⟩ hsingle
  · rfl

theorem formOf_eq_literal (h : formOf s = .literal) :
    '\'' ∉ s ∧ '\n' ∉ s ∧ ∀ c ∈ s, isControl c = false := by
  unfold formOf at h
  split at h
  · cases h
  split at h
  · next hform => simpa using hform
  split at h
  · cases h
  split at h
  · cases h
  split at h <;> cases h

theorem formOf_eq_literalLines (h : formOf s = .literalLines) :
    hasRun '\'' s = false ∧ ∀ c ∈ s, isControl c = false := by
  unfold formOf at h
  split at h
  · cases h
  split at h
  · cases h
  split at h
  · cases h
  split at h
  · next hform => simpa using hform
  split at h <;> cases h

theorem exists_writeText_eq_cons (s : List Char) :
    ∃ quote text, writeText s = quote :: text ∧ (quote = '"' ∨ quote = '\'') := by
  unfold writeText
  cases formOf s with
  | basic => exact ⟨_, _, rfl, .inl rfl⟩
  | literal => exact ⟨_, _, rfl, .inr rfl⟩
  | basicLines => exact ⟨_, _, rfl, .inl rfl⟩
  | literalLines => exact ⟨_, _, rfl, .inr rfl⟩

/-- One quote begins a string on one line, also where the string is empty. -/
theorem not_isPrefix_triple_cons {text : List Char} (htext : ∀ c ∈ text.head?, c ≠ quote)
    (hrest : ∀ c ∈ rest.head?, c ≠ quote) :
    ¬ triple quote <+: quote :: (text ++ quote :: rest) := by
  cases text with
  | nil => exact not_isPrefix_triple 2 (by decide) hrest
  | cons c text => exact not_isPrefix_triple 1 (by decide) htext

/-- The quotes at the front are not those of another kind of string. -/
theorem not_isPrefix_triple_other {other : Char} (hne : quote ≠ other) (text : List Char) :
    ¬ triple other <+: quote :: text :=
  fun hprefix => hne (List.cons_prefix_cons.1 hprefix).1.symm

theorem reads_readString_basic (s : List Char) (hrest : ∀ c ∈ rest.head?, c ≠ '"') :
    Reads (readString ('"' :: (escapeLine s ++ '"' :: rest))) (String.ofList s) rest := by
  obtain ⟨shorter, hread⟩ := (reads_readBasic s rest).eq_some
  have hhead : ∀ c ∈ (escapeLine s).head?, c ≠ '"' := by
    cases s with
    | nil => nofun
    | cons d s => exact fun _ => head?_escapeLine
  rw [readString_eq_readQuoted (not_isPrefix_triple_cons hhead hrest)
    (not_isPrefix_triple_other (by decide) _)]
  refine ⟨Nat.lt_succ_of_lt shorter, ?_⟩
  rw [readQuoted, if_pos rfl, hread]
  rfl

theorem reads_readString_literal (hquote : '\'' ∉ s) (hordinary : ∀ c ∈ s, isOrdinary c = true)
    (hrest : ∀ c ∈ rest.head?, c ≠ '\'') :
    Reads (readString ('\'' :: (s ++ '\'' :: rest))) (String.ofList s) rest := by
  obtain ⟨shorter, hread⟩ := (reads_readLiteral hquote hordinary rest).eq_some
  have hhead : ∀ c ∈ s.head?, c ≠ '\'' :=
    fun c hc heq => hquote (heq ▸ List.mem_of_mem_head? hc)
  rw [readString_eq_readQuoted (not_isPrefix_triple_other (by decide) _)
    (not_isPrefix_triple_cons hhead hrest)]
  refine ⟨Nat.lt_succ_of_lt shorter, ?_⟩
  rw [readQuoted, if_neg (by decide), if_pos rfl, hread]
  rfl

theorem reads_readString_basicLines (s : List Char) (hrest : ∀ c ∈ rest.head?, c ≠ '"') :
    Reads (readString (triple '"' ++ (firstLine s ++ (escapeLines 0 s ++ (triple '"' ++ rest)))))
      (String.ofList s) rest := by
  -- What the string begins with is a line end only if the text has one.
  have hhead : ∀ c ∈ (escapeLines 0 s ++ (triple '"' ++ rest)).head?,
      c ≠ '\r' ∧ (c = '\n' → '\n' ∈ s) := by
    cases s with
    | nil => exact forall_mem_head?_cons (by decide) _
    | cons d s =>
      rw [escapeLines]
      by_cases hd : d = '"'
      · rw [if_pos hd, if_neg (by decide)]
        exact forall_mem_head?_cons ⟨by decide, fun hn => absurd hn (by decide)⟩ _
      · rw [if_neg hd, List.append_assoc]
        intro c hc
        obtain ⟨-, hr, hn⟩ := head?_escape hd hc
        exact ⟨hr, fun hcn => hn hcn ▸ List.mem_cons_self⟩
  exact reads_readString_triple (.inl ⟨rfl, rfl⟩)
    (reads_readBlock hhead (reads_escapeLines (by decide) hrest s))

theorem reads_readString_literalLines (hrun : hasRun '\'' s = false)
    (hcontrol : ∀ c ∈ s, isControl c = false) (hrest : ∀ c ∈ rest.head?, c ≠ '\'') :
    Reads (readString (triple '\'' ++ (firstLine s ++ (s ++ (triple '\'' ++ rest)))))
      (String.ofList s) rest := by
  have hhead : ∀ c ∈ (s ++ (triple '\'' ++ rest)).head?, c ≠ '\r' ∧ (c = '\n' → '\n' ∈ s) := by
    cases s with
    | nil => exact forall_mem_head?_cons (by decide) _
    | cons d s =>
      have hd := hcontrol d List.mem_cons_self
      exact forall_mem_head?_cons
        ⟨fun hr => absurd (hr ▸ hd) (by decide), fun hn => hn ▸ List.mem_cons_self⟩ _
  exact reads_readString_triple (.inr ⟨rfl, rfl⟩) (reads_readBlock hhead
    (reads_literalLines (by decide) hrest hrun fun c hc => eq_or_isOrdinary (hcontrol c hc)))

/-- A text is read back from the form that it is written in. -/
theorem reads_readString_writeText (s : List Char) (hrest : ∀ c ∈ rest.head?, c ≠ '"' ∧ c ≠ '\'') :
    Reads (readString (writeText s ++ rest)) (String.ofList s) rest := by
  have hdouble : ∀ c ∈ rest.head?, c ≠ '"' := fun c hc => (hrest c hc).1
  have hsingle : ∀ c ∈ rest.head?, c ≠ '\'' := fun c hc => (hrest c hc).2
  have hassoc : ∀ (quote : Char) (text : List Char),
      quote :: (text ++ quote :: rest) = quote :: (text ++ [quote]) ++ rest := by
    simp
  unfold writeText
  cases hform : formOf s with
  | basic =>
    have hread := reads_readString_basic s hdouble
    rwa [hassoc] at hread
  | literal =>
    obtain ⟨hquote, hline, hcontrol⟩ := formOf_eq_literal hform
    have hordinary : ∀ c ∈ s, isOrdinary c = true := by
      intro c hc
      exact (eq_or_isOrdinary (hcontrol c hc)).resolve_left fun hn => hline (hn ▸ hc)
    have hread := reads_readString_literal hquote hordinary hsingle
    rwa [hassoc] at hread
  | basicLines =>
    have hread := reads_readString_basicLines s hdouble
    rwa [← List.append_assoc, ← List.append_assoc, ← List.append_assoc] at hread
  | literalLines =>
    obtain ⟨hrun, hcontrol⟩ := formOf_eq_literalLines hform
    have hread := reads_readString_literalLines hrun hcontrol hsingle
    rwa [← List.append_assoc, ← List.append_assoc, ← List.append_assoc] at hread

end DrillPost.Toml

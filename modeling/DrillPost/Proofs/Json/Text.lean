import DrillPost.Json.Printer
import DrillPost.Json.Text
import DrillPost.Proofs.Text.Reading

/-!
# Quoted texts are read back

A character of a text stands for itself in a string, or is what is read after a backslash
(`escape_spec`); so a string is read as the text that it was written for (`reads_readString`).
-/

namespace DrillPost.Json

/-! ### Escapes -/

theorem hexDigit?_digitChar {n : Nat} (h : n < 16) : hexDigit? (Nat.digitChar n) = some n := by
  revert n
  decide

theorem reads_readHex4 {n : Nat} (h : n < 32) (rest : List Char) :
    Reads (readHex4 ('0' :: '0' :: Nat.digitChar (n / 16) :: Nat.digitChar (n % 16) :: rest)) n
      rest := by
  have hzero : hexDigit? '0' = some 0 := rfl
  have hhigh := hexDigit?_digitChar (show n / 16 < 16 by omega)
  have hlow := hexDigit?_digitChar (show n % 16 < 16 by omega)
  have hvalue : ((0 * 16 + 0) * 16 + n / 16) * 16 + n % 16 = n := by omega
  refine ⟨by simp only [List.length_cons]; omega, ?_⟩
  rw [readHex4, hzero, hhigh, hlow]
  simp only [Read.past, Read.one, hvalue]
  rfl

theorem reads_readEscape_letter {c l : Char} (hletter : escaped? l = some c) (hu : l ≠ 'u')
    (rest : List Char) : Reads (readEscape (l :: rest)) c rest := by
  refine ⟨Nat.lt_succ_self _, ?_⟩
  rw [readEscape, if_neg hu, hletter]
  rfl

theorem reads_readEscape_codePoint {c : Char} (h : c.toNat < 32) (rest : List Char) :
    Reads (readEscape ('u' :: '0' :: '0' :: Nat.digitChar (c.toNat / 16) ::
      Nat.digitChar (c.toNat % 16) :: rest)) c rest := by
  obtain ⟨shorter, hhex⟩ := (reads_readHex4 h rest).eq_ok
  have htrailing : isTrailing c.toNat = false := by
    rw [isTrailing, Bool.and_eq_false_iff, decide_eq_false_iff_not]
    exact .inl (by omega)
  have hleading : isLeading c.toNat = false := by
    rw [isLeading, Bool.and_eq_false_iff, decide_eq_false_iff_not]
    exact .inl (by omega)
  refine ⟨Nat.lt_succ_of_lt shorter, ?_⟩
  rw [readEscape, if_pos rfl, readCodePoint, hhex]
  simp only [htrailing, hleading, Read.map, Char.ofNat_toNat]
  rfl

/-- A character stands for itself, or for what is read after a backslash. -/
theorem escape_spec (c : Char) :
    (∃ l t, escape c = '\\' :: l :: t ∧ ∀ rest, Reads (readEscape (l :: (t ++ rest))) c rest) ∨
      (escape c = [c] ∧ c ≠ '"' ∧ c ≠ '\\' ∧ ¬ c.toNat < 32) := by
  have letter : ∀ l, escape c = ['\\', l] → escaped? l = some c → l ≠ 'u' →
      ∃ l t, escape c = '\\' :: l :: t ∧ ∀ rest, Reads (readEscape (l :: (t ++ rest))) c rest :=
    fun l hescape hletter hu => ⟨l, [], hescape, reads_readEscape_letter hletter hu⟩
  unfold escape at letter ⊢
  by_cases hquote : c = '"'
  · subst hquote
    exact .inl (letter '"' rfl rfl (by decide))
  by_cases hbackslash : c = '\\'
  · subst hbackslash
    exact .inl (letter '\\' rfl rfl (by decide))
  by_cases hb : c = '\x08'
  · subst hb
    exact .inl (letter 'b' rfl rfl (by decide))
  by_cases hf : c = '\x0c'
  · subst hf
    exact .inl (letter 'f' rfl rfl (by decide))
  by_cases hn : c = '\n'
  · subst hn
    exact .inl (letter 'n' rfl rfl (by decide))
  by_cases hr : c = '\r'
  · subst hr
    exact .inl (letter 'r' rfl rfl (by decide))
  by_cases ht : c = '\t'
  · subst ht
    exact .inl (letter 't' rfl rfl (by decide))
  rw [if_neg hquote, if_neg hbackslash, if_neg hb, if_neg hf, if_neg hn, if_neg hr, if_neg ht]
  by_cases hcontrol : c.toNat < 32
  · rw [if_pos hcontrol]
    exact .inl ⟨'u', _, rfl, reads_readEscape_codePoint hcontrol⟩
  · rw [if_neg hcontrol]
    exact .inr ⟨rfl, hquote, hbackslash, hcontrol⟩

/-! ### Strings -/

theorem reads_readCharacters (s rest : List Char) :
    Reads (readRun readCharacter (s.flatMap escape ++ '"' :: rest)) s rest := by
  induction s with
  | nil => exact reads_readRun_last [] (Nat.lt_succ_self _) rfl
  | cons c s ih =>
    rw [List.flatMap_cons, List.append_assoc]
    rcases escape_spec c with ⟨l, t, hescape, hread⟩ | ⟨hescape, hquote, hbackslash, hcontrol⟩
    · rw [hescape]
      obtain ⟨shorter, hread⟩ := (hread (s.flatMap escape ++ '"' :: rest)).eq_ok
      refine reads_readRun_more [c] (Nat.lt_succ_of_lt shorter) ?_ ih
      show readCharacter ('\\' :: (l :: (t ++ (s.flatMap escape ++ '"' :: rest)))) = _
      rw [readCharacter, if_neg (by decide), if_pos rfl, hread]
      rfl
    · rw [hescape]
      refine reads_readRun_more [c] (Nat.lt_succ_self _) ?_ ih
      show readCharacter (c :: (s.flatMap escape ++ '"' :: rest)) = _
      rw [readCharacter, if_neg hquote, if_neg hbackslash, if_neg hcontrol]
      rfl

/-- What follows the opening quote of a written text is read as the text. -/
theorem reads_readString (s : String) (rest : List Char) :
    Reads (readString (s.toList.flatMap escape ++ '"' :: rest)) s rest := by
  obtain ⟨shorter, hread⟩ := (reads_readCharacters s.toList rest).eq_ok
  refine ⟨shorter, ?_⟩
  rw [readString, Reader.map, hread]
  simp only [Read.map, String.ofList_toList]
  rfl

end DrillPost.Json

import DrillPost.Proofs.Binary64.Closest
import DrillPost.Proofs.Decimal.Numeral

/-!
# Reading rounds

A text that reads as a finite value is a sign, if there is one, and a numeral
(`Binary64.exists_numeral`), and the value is the one closest to the number that the text denotes
(`Binary64.isClosest_of_ofText`).
-/

namespace DrillPost

namespace Numeral

theorem isDigits_takeWhile (s : List Char) : IsDigits (s.takeWhile Char.isDigit) :=
  fun _ hc => List.mem_takeWhile_imp hc

theorem isDigits_of_ofText? {s : List Char} {n : Numeral} (h : ofText? s = some n) :
    IsDigits n.whole ∧ IsDigits n.fraction := by
  unfold ofText? at h
  dsimp only at h
  split at h
  · split_ifs at h
    obtain ⟨exponent, -, rfl⟩ := Option.map_eq_some_iff.1 h
    exact ⟨isDigits_takeWhile _, isDigits_takeWhile _⟩
  · split_ifs at h
    obtain ⟨exponent, -, rfl⟩ := Option.map_eq_some_iff.1 h
    exact ⟨isDigits_takeWhile _, List.forall_mem_nil _⟩

theorem isDigits_of_ofSigned? {s : List Char} {negative : Bool} {n : Numeral}
    (h : ofSigned? s = some (negative, n)) : IsDigits n.whole ∧ IsDigits n.fraction := by
  unfold ofSigned? at h
  split at h <;>
  · obtain ⟨m, hm, heq⟩ := Option.map_eq_some_iff.1 h
    cases heq
    exact isDigits_of_ofText? hm

theorem toRat_nonneg (n : Numeral) : 0 ≤ n.toRat := n.toDecimal.toRat_nonneg

end Numeral

namespace Binary64

variable {word : String} {negative : Bool} {x : Magnitude}

theorem eq_of_toBinary64_eq {d : Decimal} {sign : Bool}
    (h : d.toBinary64 sign = .finite negative x) :
    sign = negative ∧ x.IsNearest d.toRat := by
  unfold Decimal.toBinary64 at h
  split at h
  · next hnear =>
    cases h
    exact ⟨rfl, Decimal.nearest?_eq_some_iff.1 hnear⟩
  · cases h

theorem exists_numeral_of_ofUnsignedText? {s : List Char} {sign : Bool}
    (h : ofUnsignedText? sign s = some (.finite negative x)) :
    ∃ n, Numeral.ofText? s = some n ∧ sign = negative ∧ x.IsNearest n.toRat := by
  unfold ofUnsignedText? at h
  split at h
  · next n hn => exact ⟨n, hn, eq_of_toBinary64_eq (Option.some.inj h)⟩
  · dsimp only at h
    split_ifs at h <;> cases h

/-- Only numerals with or without a sign read as finite values. -/
theorem exists_numeral (h : ofText word = .ok (.finite negative x)) :
    ∃ n, Numeral.ofSigned? word.toList = some (negative, n) ∧ x.IsNearest n.toRat := by
  have hread : ∀ {r : Option Binary64}, r.elim (Except.error NumberError.malformed) Except.ok =
      .ok (.finite negative x) → r = some (.finite negative x) := by
    intro r hr
    cases r with
    | none => cases hr
    | some y =>
      cases hr
      rfl
  unfold ofText at h
  unfold Numeral.ofSigned?
  split at h
  · cases h
  · next r hr =>
    obtain ⟨n, hn, rfl, hnear⟩ := exists_numeral_of_ofUnsignedText? (hread h)
    rw [hr]
    exact ⟨n, congrArg (Option.map (false, ·)) hn, hnear⟩
  · next r hr =>
    obtain ⟨n, hn, rfl, hnear⟩ := exists_numeral_of_ofUnsignedText? (hread h)
    rw [hr]
    exact ⟨n, congrArg (Option.map (true, ·)) hn, hnear⟩
  · next hplus hminus =>
    obtain ⟨n, hn, rfl, hnear⟩ := exists_numeral_of_ofUnsignedText? (hread h)
    refine ⟨n, ?_, hnear⟩
    split
    · next r hr => exact absurd hr (hplus r)
    · next r hr => exact absurd hr (hminus r)
    · rw [hn]
      rfl

/-- A text that reads as a finite value denotes a number, and no finite value is closer to it. -/
theorem isClosest_of_ofText {v : Binary64} (hv : v.isFinite = true) (h : ofText word = .ok v) :
    ∃ q, Numeral.number? word.toList = some q ∧ v.IsClosest q := by
  cases v with
  | nan => cases hv
  | infinite s => cases hv
  | finite negative x =>
    obtain ⟨n, hn, hnear⟩ := exists_numeral h
    refine ⟨_, ?_, isClosest_of_isNearest n.toRat_nonneg hnear negative⟩
    rw [Numeral.number?, hn]
    rfl

end Binary64

end DrillPost

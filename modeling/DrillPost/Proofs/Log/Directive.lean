import DrillPost.Log.Directive
import DrillPost.Proofs.Text.Reading
import Mathlib.Data.List.TakeDrop

/-!
# Directives that can be read

The parts of a directive are cut from its text at positions that were found in its shape. If these
are positions between characters of the text too (`Directive.Fits`), every cut can be made, and the
text is a directive or is not one. So it is where no blank shifts the cuts, and where all characters
are of one byte (`Directive.exists_ofText?`).
-/

namespace DrillPost.Directive

/-- The positions of what is left of a shape, which begins at `start`, are between characters of the
text. -/
def Fits (s : List Char) (start : Nat) (shape : List Char) : Prop :=
  ∀ before, before <+: shape → IsBetweenChars s (start + byteCount before)

variable {s shape : List Char} {start : Nat}

namespace Fits

theorem between (h : Fits s start shape) : IsBetweenChars s start := h [] List.nil_prefix

theorem after {before : List Char} (h : Fits s start (before ++ shape)) :
    Fits s (start + byteCount before) shape := by
  intro first hfirst
  rw [Nat.add_assoc, ← byteCount_append]
  exact h _ ((List.prefix_append_right_inj before).2 hfirst)

/-- The positions after a character of one byte. -/
theorem tail {c : Char} (hc : c.utf8Size = 1) (h : Fits s start (c :: shape)) :
    Fits s (start + 1) shape := by
  have hafter : Fits s (start + byteCount [c]) shape := after h
  rwa [byteCount, byteCount, hc] at hafter

theorem exists_cut? {before : List Char} (h : Fits s start (before ++ shape)) :
    ∃ part, cut? s start (start + byteCount before) = some part :=
  DrillPost.exists_cut? (Nat.le_add_right _ _) h.between h.after.between

end Fits

/-! ### Reading -/

variable {d : Directive}

/-- A run of characters, and what is left of the shape after it. -/
theorem exists_span (p : Char → Bool) (shape : List Char) :
    ∃ before after, shape.span p = (before, after) ∧ shape = before ++ after ∧
      ∀ c ∈ after.head?, p c = false := by
  refine ⟨shape.takeWhile p, shape.dropWhile p, List.span_eq_takeWhile_dropWhile p shape, ?_, ?_⟩
  · exact List.takeWhile_append_dropWhile.symm
  · intro c hc
    have hnot := List.head?_dropWhile_not p shape
    rw [Option.mem_def.1 hc] at hnot
    exact hnot

/-- A run up to one of two characters stops at one of them. -/
theorem eq_or_eq_of_stop {c first second : Char}
    (h : decide (c ≠ first ∧ c ≠ second) = false) : c = first ∨ c = second :=
  or_iff_not_and_not.2 (of_decide_eq_false h)

theorem exists_readLevel (h : IsBetweenChars s start) : ∃ r, readLevel d s start = some r := by
  obtain ⟨split, hsplit⟩ := h.exists_splitAtByte?
  rw [readLevel, hsplit]
  exact ⟨_, rfl⟩

theorem exists_readAfterBrackets (h : Fits s start shape) :
    ∃ r, readAfterBrackets d s start shape = some r := by
  unfold readAfterBrackets
  split
  · exact ⟨_, rfl⟩
  · next c shape =>
    split
    · next hc => exact exists_readLevel (Fits.tail (hc ▸ rfl) h).between
    · exact ⟨_, rfl⟩

theorem exists_readFields (h : Fits s start shape) : ∃ r, readFields d s start shape = some r := by
  unfold readFields
  obtain ⟨field, after, hspan, rfl, hbrace⟩ := exists_span (· ≠ '\x7d') shape
  rw [hspan]
  cases after with
  | nil => exact ⟨_, rfl⟩
  | cons c after =>
    obtain ⟨part, hpart⟩ := h.exists_cut?
    dsimp only
    rw [hpart, Option.bind_some]
    split
    · exact ⟨_, rfl⟩
    · next hclosed =>
      have hc : c = '\x7d' := by simpa using hbrace c rfl
      obtain ⟨rest, rfl⟩ := List.head?_eq_some_iff.1 (not_not.1 (not_or.1 hclosed).2)
      exact exists_readAfterBrackets ((h.after.tail (hc ▸ rfl)).tail rfl)

theorem exists_readScope (h : Fits s start shape) : ∃ r, readScope d s start shape = some r := by
  unfold readScope
  obtain ⟨scope, after, hspan, rfl, hend⟩ :=
    exists_span (fun c => c ≠ ']' ∧ c ≠ '\x7b') shape
  rw [hspan]
  cases after with
  | nil => exact ⟨_, rfl⟩
  | cons c after =>
    have hc : c = ']' ∨ c = '\x7b' := eq_or_eq_of_stop (hend c rfl)
    have hafter : Fits s (start + byteCount scope + 1) after :=
      h.after.tail (by rcases hc with rfl | rfl <;> rfl)
    obtain ⟨part, hpart⟩ := h.exists_cut?
    dsimp only
    rw [hpart, Option.bind_some]
    split
    · exact exists_readAfterBrackets hafter
    · exact exists_readFields hafter

theorem exists_readTarget (h : Fits s 0 shape) : ∃ r, readTarget s shape = some r := by
  unfold readTarget
  obtain ⟨target, after, hspan, rfl, hend⟩ := exists_span (fun c => c ≠ '=' ∧ c ≠ '[') shape
  rw [hspan]
  cases after with
  | nil => exact ⟨_, rfl⟩
  | cons c after =>
    have hc : c = '=' ∨ c = '[' := eq_or_eq_of_stop (hend c rfl)
    have hafter : Fits s (byteCount target + 1) after := by
      have := h.after.tail (by rcases hc with rfl | rfl <;> rfl)
      rwa [Nat.zero_add] at this
    obtain ⟨part, hpart⟩ := h.exists_cut?
    rw [Nat.zero_add] at hpart
    dsimp only
    rw [hpart, Option.bind_some]
    split
    · exact exists_readLevel hafter.between
    · exact exists_readScope hafter

theorem Fits.exists_ofText? (h : Fits s 0 (trimSpace s)) : ∃ r, ofText? s = some r := by
  unfold ofText?
  split
  · exact ⟨_, rfl⟩
  · next c shape hshape =>
    rw [hshape] at h
    split
    · next hc => exact exists_readScope (h.tail (hc ▸ rfl))
    · split
      · exact exists_readTarget h
      · exact ⟨_, rfl⟩

/-! ### Texts whose cuts can be made -/

/-- No blank comes first, or all characters are of one byte. -/
def IsHarmless (s : List Char) : Prop :=
  (∀ c ∈ s.head?, isSpace c = false) ∨ ∀ c ∈ s, c.utf8Size = 1

theorem byteCount_eq_length (h : ∀ c ∈ s, c.utf8Size = 1) : byteCount s = s.length := by
  induction s with
  | nil => rfl
  | cons c s ih =>
    rw [List.forall_mem_cons] at h
    rw [byteCount, h.1, ih h.2, List.length_cons, Nat.add_comm]

theorem trimSpace_sublist (s : List Char) : (trimSpace s).Sublist s := by
  unfold trimSpace
  have hback := List.dropWhile_sublist (l := (s.dropWhile isSpace).reverse) isSpace
  have hreverse := hback.reverse
  rw [List.reverse_reverse] at hreverse
  exact hreverse.trans (List.dropWhile_sublist isSpace)

/-- Without a blank in front only the end of a text is trimmed. -/
theorem trimSpace_isPrefix (h : ∀ c ∈ s.head?, isSpace c = false) : trimSpace s <+: s := by
  have hfront : s.dropWhile isSpace = s := by
    cases s with
    | nil => rfl
    | cons c s => exact List.dropWhile_cons_of_neg (by simp [h c rfl])
  unfold trimSpace
  rw [hfront]
  have hback := List.dropWhile_suffix (l := s.reverse) isSpace
  have hreverse := List.reverse_prefix.2 hback
  rwa [List.reverse_reverse] at hreverse

/-- A text without a blank in front, or of characters of one byte, is a directive or is not one. -/
theorem exists_ofText? (h : IsHarmless s) : ∃ r, ofText? s = some r := by
  refine Fits.exists_ofText? fun before hbefore => ?_
  rw [Nat.zero_add]
  obtain h | h := h
  · -- The shape begins where the text does, so what begins the one begins the other.
    exact ⟨before, hbefore.trans (trimSpace_isPrefix h), rfl⟩
  · -- Every position is between characters, as positions count characters here.
    have hsublist := hbefore.sublist.trans (trimSpace_sublist s)
    have hcount := byteCount_eq_length fun c hc => h c (hsublist.subset hc)
    have htake : byteCount (s.take before.length) = (s.take before.length).length :=
      byteCount_eq_length fun c hc => h c (List.mem_of_mem_take hc)
    refine ⟨s.take before.length, List.take_prefix _ _, ?_⟩
    rw [hcount, htake, List.length_take, Nat.min_eq_left hsublist.length_le]

end DrillPost.Directive

import DrillPost.Json.Kind
import DrillPost.Proofs.Json.Reader
import Mathlib.Tactic.SplitIfs

/-!
# Values that are passed over

What is read of a text is passed over to the same end: strings, although halves of characters are
steps of their own (`reads_skipString`), numbers, whatever would be wrong with them at the end of
the text (`reads_skipNumber`), and the values that readers of settings take.

`skipValueIn` passes over a value together with what closes the brackets around it. Each of its
three parts is described by what stands next (`reads_skipValueIn_iff`, `reads_skipFirstIn_iff`,
`leaves_skipMoreIn_cons_iff`), and a value that is passed over alone is passed over inside any open
brackets (`reads_skipValueIn_append`).
-/

namespace DrillPost.Json

variable {α : Type} {s rest : List Char}

/-! ### Strings -/

theorem eq_of_readSecondEscape (h : Reads (readSecondEscape s) () rest) :
    s = '\\' :: 'u' :: rest := by
  unfold readSecondEscape at h
  split at h
  · exact (not_reads_error h).elim
  · next c r =>
    split_ifs at h with hc
    · exact (not_reads_error h).elim
    · split at h
      · exact (not_reads_error h).elim
      · next d t =>
        split_ifs at h with hd
        · exact (not_reads_error h).elim
        · obtain ⟨-, rfl⟩ := reads_ok.1 h
          rw [not_not.1 hc, not_not.1 hd]
          rfl

/-- An escaped code point is written as one group of digits, or as two halves. -/
theorem readHex4_of_readCodePoint {c : Char} (h : Reads (readCodePoint s) c rest) :
    (∃ n, Reads (readHex4 s) n rest) ∨
      ∃ n k between, Reads (readHex4 s) n ('\\' :: 'u' :: between) ∧
        Reads (readHex4 between) k rest := by
  unfold readCodePoint at h
  split at h
  · exact (not_reads_error h).elim
  · next first hfirst =>
    split_ifs at h
    · exact (not_reads_error h).elim
    · obtain ⟨-, rfl⟩ := reads_ok.1 h
      exact .inl ⟨first.value, .of_eq_ok hfirst⟩
    · split at h
      · exact (not_reads_error h).elim
      · next between hbetween =>
        split at h
        · exact (not_reads_error h).elim
        · next second hsecond =>
          split_ifs at h
          · obtain ⟨-, rfl⟩ := reads_ok.1 h
            have hu := Read.reads_thenRead.1 (.of_eq_ok hbetween)
            have hk := Read.reads_thenRead.1 (.of_eq_ok hsecond)
            have hn := Reads.of_eq_ok hfirst
            rw [eq_of_readSecondEscape hu] at hn
            exact .inr ⟨first.value, second.value, between.rest, hn, hk⟩
          · exact (not_reads_error h).elim

theorem reads_skipEscape {n : Nat} (h : Reads (readHex4 s) n rest) :
    Reads (skipEscape ('u' :: s)) () rest := by
  rw [skipEscape, if_pos rfl]
  exact (reads_functorMap (f := fun x : Read Nat s => (x.map fun _ => ()).past 'u')
    (g := fun _ => ()) (fun _ => rfl) fun _ => rfl).2 ⟨n, h, rfl⟩

/-- What an escape takes is passed over as one escape, or as one for each half. -/
theorem skipEscape_of_readEscape {c : Char} (h : Reads (readEscape s) c rest) :
    Reads (skipEscape s) () rest ∨
      ∃ between, Reads (skipEscape s) () ('\\' :: between) ∧
        Reads (skipEscape between) () rest := by
  unfold readEscape at h
  split at h
  · exact (not_reads_error h).elim
  · next c r =>
    split_ifs at h with hu
    · rw [reads_past] at h
      obtain rfl := hu
      rcases readHex4_of_readCodePoint h with ⟨n, hn⟩ | ⟨n, k, between, hn, hk⟩
      · exact .inl (reads_skipEscape hn)
      · exact .inr ⟨'u' :: between, reads_skipEscape hn, reads_skipEscape hk⟩
    · split at h
      · next d hd =>
        obtain ⟨-, rfl⟩ := reads_ok.1 h
        rw [skipEscape, if_neg hu, hd]
        exact .inl (reads_ok.2 ⟨rfl, rfl⟩)
      · exact (not_reads_error h).elim

theorem skipCharacter_backslash (h : Reads (skipEscape s) () rest) :
    ∃ shorter, skipCharacter ('\\' :: s) = .ok (.more ⟨[], rest, shorter⟩) := by
  obtain ⟨shorter, h⟩ := h.eq_ok
  rw [skipCharacter, if_neg (by decide), if_pos rfl, h]
  exact ⟨_, rfl⟩

theorem skipCharacter_of_last {items : List Char} {shorter : rest.length < s.length}
    (h : readCharacter s = .ok (.last ⟨items, rest, shorter⟩)) :
    skipCharacter s = .ok (.last ⟨[], rest, shorter⟩) := by
  unfold readCharacter at h
  split at h
  · cases h
  · next c r =>
    split_ifs at h with hc
    · cases h
      rw [skipCharacter, if_pos hc]
      rfl
    · split at h <;> cases h
    · cases h

/-- A character is passed over in one step, or in two if it is escaped by halves. -/
theorem skipCharacter_of_more {items : List Char} {shorter : rest.length < s.length}
    (h : readCharacter s = .ok (.more ⟨items, rest, shorter⟩)) :
    (∃ shorter, skipCharacter s = .ok (.more ⟨[], rest, shorter⟩)) ∨
      ∃ between shorter shorter', skipCharacter s = .ok (.more ⟨[], between, shorter⟩) ∧
        skipCharacter between = .ok (.more ⟨[], rest, shorter'⟩) := by
  unfold readCharacter at h
  split at h
  · cases h
  · next c r =>
    split_ifs at h with hquote hescape hcontrol
    · cases h
    · obtain rfl := hescape
      split at h
      · cases h
      · next x hx =>
        cases h
        rcases skipEscape_of_readEscape (.of_eq_ok hx) with hskip | ⟨between, hfirst, hsecond⟩
        · exact .inl (skipCharacter_backslash hskip)
        · obtain ⟨_, hfirst⟩ := skipCharacter_backslash hfirst
          obtain ⟨_, hsecond⟩ := skipCharacter_backslash hsecond
          exact .inr ⟨_, _, _, hfirst, hsecond⟩
    · cases h
      rw [skipCharacter, if_neg hquote, if_neg hescape, if_neg hcontrol]
      exact .inl ⟨_, rfl⟩

theorem exists_reads_skipCharacter {s items : List Char}
    (h : Reads (readRun readCharacter s) items rest) :
    ∃ units, Reads (readRun skipCharacter s) units rest := by
  rcases reads_readRun_cases h with
    ⟨shorter, hlast⟩ | ⟨first, more, shorter, others, hmore, hothers, -⟩
  · exact ⟨_, reads_readRun_last [] shorter (skipCharacter_of_last hlast)⟩
  · obtain ⟨units, hunits⟩ := exists_reads_skipCharacter hothers
    rcases skipCharacter_of_more hmore with ⟨_, hskip⟩ | ⟨between, _, _, hskip, hskip'⟩
    · exact ⟨_, reads_readRun_more [] _ hskip hunits⟩
    · exact ⟨_, reads_readRun_more [] _ hskip (reads_readRun_more [] _ hskip' hunits)⟩
termination_by s.length

/-- A string that is read is passed over to the same end. -/
theorem reads_skipString {name : String} (h : Reads (readString s) name rest) :
    Reads (skipString s) () rest := by
  obtain ⟨items, hitems, -⟩ := reads_map.1 h
  obtain ⟨units, hunits⟩ := exists_reads_skipCharacter hitems
  exact reads_map.2 ⟨units, hunits, rfl⟩

/-! ### Open brackets -/

/-- What is left of a text. -/
def Leaves (x : Except Failure (Tail s)) (rest : List Char) : Prop :=
  ∃ notLonger, x = .ok ⟨rest, notLonger⟩

theorem Leaves.notLonger {x : Except Failure (Tail s)} (h : Leaves x rest) :
    rest.length ≤ s.length := by
  obtain ⟨notLonger, -⟩ := h
  exact notLonger

@[simp] theorem leaves_ok {t : Tail s} : Leaves (.ok t) rest ↔ t.rest = rest := by
  constructor
  · rintro ⟨notLonger, heq⟩
    cases heq
    rfl
  · rintro rfl
    exact ⟨t.notLonger, rfl⟩

@[simp] theorem not_leaves_error {e : Failure} :
    ¬ Leaves (.error e : Except Failure (Tail s)) rest := by
  rintro ⟨notLonger, heq⟩
  cases heq

theorem exists_reads_some {c : Read α s} {p : α → List Char → Prop} :
    (∃ a r, Reads (some c) a r ∧ p a r) ↔ p c.value c.rest := by
  constructor
  · rintro ⟨a, r, h, hp⟩
    obtain ⟨rfl, rfl⟩ := reads_some.1 h
    exact hp
  · exact fun hp => ⟨c.value, c.rest, reads_some.2 ⟨rfl, rfl⟩, hp⟩

/-- A value is passed over by the first of its characters. -/
theorem reads_skipValueIn_iff {opened : List Bracket} :
    Reads (skipValueIn opened s) () rest ↔
      ∃ c r, Reads (nextChar s) c r ∧
        if c = '[' ∨ c = '\x7b' then
          Reads (skipFirstIn (if c = '[' then .list else .object) opened r) () rest
        else ∃ t, Reads (skipScalar (c :: r)) () t ∧ Leaves (skipMoreIn opened t) rest := by
  rw [skipValueIn]
  cases hnext : nextChar s with
  | none => simp
  | some c =>
    rw [exists_reads_some]
    dsimp only
    split
    · cases skipFirstIn (if c.value = '[' then .list else .object) opened c.rest with
      | error e => simp
      | ok x => simp [Read.andThen]
    · have hscalar : ∀ t, Reads (skipScalar (c.value :: c.rest)) () t ↔
          Reads (c.unread.thenRead skipScalar) () t :=
        fun t => (Tail.reads_thenRead (t := c.unread)).symm
      simp only [hscalar]
      cases c.unread.thenRead skipScalar with
      | error e => simp
      | ok x =>
        dsimp only
        cases hmore : skipMoreIn opened x.rest with
        | error e => simp [hmore]
        | ok t => simp [hmore, Read.leave]

/-- After an open bracket stands the one that closes it, or a value. -/
theorem reads_skipFirstIn_iff {bracket : Bracket} {opened : List Bracket} :
    Reads (skipFirstIn bracket opened s) () rest ↔
      ∃ c r, Reads (nextChar s) c r ∧
        if c = bracket.closing then Leaves (skipMoreIn opened r) rest
        else ∃ t, Leaves (skipKey bracket s) t ∧
          Reads (skipValueIn (bracket :: opened) t) () rest := by
  rw [skipFirstIn]
  cases hnext : nextChar s with
  | none => simp
  | some c =>
    rw [exists_reads_some]
    dsimp only
    split
    · cases skipMoreIn opened c.rest with
      | error e => simp
      | ok t => simp [Read.leave, Read.map]
    · cases hkey : skipKey bracket s with
      | error e => simp
      | ok t =>
        dsimp only
        cases hvalue : skipValueIn (bracket :: opened) t.rest with
        | error e => simp [hvalue]
        | ok x => simp [hvalue, Read.within]

/-- After a value in an open bracket stands a comma and another value, or the bracket is closed. -/
theorem leaves_skipMoreIn_cons_iff {bracket : Bracket} {opened : List Bracket} :
    Leaves (skipMoreIn (bracket :: opened) s) rest ↔
      ∃ c r, Reads (nextChar s) c r ∧
        if c = ',' then ∃ t, Leaves (skipKey bracket r) t ∧
          Reads (skipValueIn (bracket :: opened) t) () rest
        else c = bracket.closing ∧ Leaves (skipMoreIn opened r) rest := by
  rw [skipMoreIn]
  cases hnext : nextChar s with
  | none => simp
  | some c =>
    rw [exists_reads_some]
    dsimp only
    split_ifs with hcomma hclosing
    · cases hkey : skipKey bracket c.rest with
      | error e => simp
      | ok t =>
        dsimp only [Read.leave]
        cases hvalue : skipValueIn (bracket :: opened) t.rest with
        | error e => simp [hvalue]
        | ok x => simp [hvalue, Tail.andThen, Read.toTail]
    · cases skipMoreIn opened c.rest with
      | error e => simp [hclosing]
      | ok t => simp [Tail.andThen, hclosing]
    · simp [hclosing]

@[simp] theorem leaves_skipMoreIn_nil : Leaves (skipMoreIn [] s) rest ↔ rest = s := by
  rw [skipMoreIn, leaves_ok]
  exact eq_comm

section Around

variable {outer : List Bracket} {last : List Char}

-- The text gets shorter from one value to the next only. Where no character is taken, the end of
-- brackets comes before a value, and a value before what follows a bracket.
mutual

/-- Brackets that are open around a value are closed after it. -/
theorem reads_skipValueIn_append {inner : List Bracket} {s rest : List Char}
    (h : Reads (skipValueIn inner s) () rest) (hlast : Leaves (skipMoreIn outer rest) last) :
    Reads (skipValueIn (inner ++ outer) s) () last := by
  obtain ⟨c, r, hc, hvalue⟩ := reads_skipValueIn_iff.1 h
  refine reads_skipValueIn_iff.2 ⟨c, r, hc, ?_⟩
  obtain ⟨shorter, -⟩ := hc
  split_ifs at hvalue ⊢
  · exact reads_skipFirstIn_append hvalue hlast
  · exact reads_skipFirstIn_append hvalue hlast
  · obtain ⟨t, ht, hmore⟩ := hvalue
    have hshorter : t.length < s.length :=
      Nat.lt_of_le_of_lt (Nat.le_of_lt_succ ht.shorter) shorter
    exact ⟨t, ht, leaves_skipMoreIn_append hmore hlast⟩
termination_by (s.length, 2)

theorem reads_skipFirstIn_append {bracket : Bracket} {inner : List Bracket} {s rest : List Char}
    (h : Reads (skipFirstIn bracket inner s) () rest)
    (hlast : Leaves (skipMoreIn outer rest) last) :
    Reads (skipFirstIn bracket (inner ++ outer) s) () last := by
  obtain ⟨c, r, hc, hfirst⟩ := reads_skipFirstIn_iff.1 h
  refine reads_skipFirstIn_iff.2 ⟨c, r, hc, ?_⟩
  obtain ⟨shorter, -⟩ := hc
  split_ifs at hfirst ⊢
  · exact leaves_skipMoreIn_append hfirst hlast
  · obtain ⟨t, ht, hvalue⟩ := hfirst
    have hnotLonger := ht.notLonger
    exact ⟨t, ht, reads_skipValueIn_append hvalue hlast⟩
termination_by (s.length, 3)
decreasing_by
  · exact Prod.Lex.left _ _ shorter
  · exact Prod.Lex.right' _ hnotLonger (by decide)

theorem leaves_skipMoreIn_append {inner : List Bracket} {s rest : List Char}
    (h : Leaves (skipMoreIn inner s) rest) (hlast : Leaves (skipMoreIn outer rest) last) :
    Leaves (skipMoreIn (inner ++ outer) s) last := by
  cases inner with
  | nil =>
    obtain rfl := leaves_skipMoreIn_nil.1 h
    exact hlast
  | cons bracket inner =>
    obtain ⟨c, r, hc, hmore⟩ := leaves_skipMoreIn_cons_iff.1 h
    refine leaves_skipMoreIn_cons_iff.2 ⟨c, r, hc, ?_⟩
    obtain ⟨shorter, -⟩ := hc
    split_ifs at hmore ⊢
    · obtain ⟨t, ht, hvalue⟩ := hmore
      have hnotLonger := ht.notLonger
      exact ⟨t, ht, reads_skipValueIn_append hvalue hlast⟩
    · exact ⟨hmore.1, leaves_skipMoreIn_append hmore.2 hlast⟩
termination_by (s.length, 1)

end

end Around

/-! ### Values without parts -/

section Literal

variable {atEnd atEnd' : Cause}

theorem readWhole_cause {x : Read (List Char) s} (h : readWhole atEnd s = .ok x) :
    readWhole atEnd' s = .ok x := by
  unfold readWhole at h ⊢
  split at h
  · cases h
  · split_ifs at h ⊢ <;> exact h

theorem readFraction_cause {x : List Char × Tail s} (h : readFraction atEnd s = .ok x) :
    readFraction atEnd' s = .ok x := by
  unfold readFraction at h ⊢
  split at h
  · split_ifs at h ⊢
    exact h
  · exact h

theorem readExponent_cause {x : Option Exponent × Tail s} (h : readExponent atEnd s = .ok x) :
    readExponent atEnd' s = .ok x := by
  unfold readExponent at h ⊢
  split at h
  · exact h
  · dsimp only at h ⊢
    split_ifs at h ⊢ <;> exact h

/-- A literal that is read does not depend on what would be wrong at the end of the text. -/
theorem readLiteral_cause {l : Read Literal s} (h : readLiteral atEnd s = .ok l) :
    readLiteral atEnd' s = .ok l := by
  unfold readLiteral at h ⊢
  split at h
  · cases h
  · next whole hwhole =>
    rw [readWhole_cause hwhole]
    split at h
    · cases h
    · next fraction t hfraction =>
      dsimp only
      rw [readFraction_cause hfraction]
      split at h
      · cases h
      · next exponent u hexponent =>
        dsimp only
        rw [readExponent_cause hexponent]
        exact h

end Literal

theorem reads_skipNumber {isNegative : Bool} {n : Number}
    (h : Reads (readNumber isNegative s) n rest) : Reads (skipNumber s) () rest := by
  unfold readNumber at h
  split at h
  · exact (not_reads_error h).elim
  · next l hliteral =>
    split at h
    · exact (not_reads_error h).elim
    · obtain ⟨-, rfl⟩ := reads_ok.1 h
      exact reads_map.2 ⟨l.value, .of_eq_ok (readLiteral_cause hliteral), rfl⟩

theorem reads_skipValue_of_scalar {c : Char} {r : List Char} (hc : Reads (nextChar s) c r)
    (hlist : c ≠ '[') (hobject : c ≠ '\x7b') (h : Reads (skipScalar (c :: r)) () rest) :
    Reads (skipValue s) () rest := by
  refine reads_skipValueIn_iff.2 ⟨c, r, hc, ?_⟩
  rw [if_neg (by simp [hlist, hobject])]
  exact ⟨rest, h, leaves_skipMoreIn_nil.2 rfl⟩

theorem reads_skipScalar_number {c : Char} {r : List Char} {n : Number}
    (hc : beginsNumber c = true) (h : Reads (readSigned (c :: r)) n rest) :
    Reads (skipScalar (c :: r)) () rest := by
  rw [readSigned] at h
  rw [skipScalar]
  split_ifs at h with hminus
  · obtain rfl := hminus
    exact reads_past.2 (reads_skipNumber (reads_past.1 h))
  · have hdigit : c.isDigit = true := by simpa [beginsNumber, hminus] using hc
    have hletter : ∀ d, Char.isDigit d = false → c ≠ d := by
      rintro d hd rfl
      rw [hdigit] at hd
      cases hd
    rw [if_neg (hletter _ (by decide)), if_neg (hletter _ (by decide)),
      if_neg (hletter _ (by decide)), if_neg (hletter _ (by decide)), if_neg hminus, if_pos hdigit]
    exact reads_skipNumber h

theorem reads_skipValue_of_readNumeric {expected : String} {n : Number}
    (h : Reads (readNumeric expected s) n rest) : Reads (skipValue s) () rest := by
  unfold readNumeric at h
  split at h
  · exact (not_reads_error h).elim
  · next c hc =>
    split_ifs at h with hbegins
    · have hnext : Reads (nextChar s) c.value c.rest := hc ▸ reads_some.2 ⟨rfl, rfl⟩
      have hne : ∀ d, beginsNumber d = false → c.value ≠ d := by
        rintro d hd heq
        rw [heq, hd] at hbegins
        cases hbegins
      exact reads_skipValue_of_scalar hnext (hne _ (by decide)) (hne _ (by decide))
        (reads_skipScalar_number hbegins (Tail.reads_thenRead.1 h))
    · exact (not_reads_error h).elim

theorem reads_skipValue_of_readWord32 {n : UInt32} (h : Reads (readWord32 s) n rest) :
    Reads (skipValue s) () rest := by
  unfold readWord32 at h
  split at h
  · exact (not_reads_error h).elim
  · next x hx =>
    split at h
    · split_ifs at h
      · obtain ⟨-, rfl⟩ := reads_ok.1 h
        exact reads_skipValue_of_readNumeric (.of_eq_ok hx)
      · exact (not_reads_error h).elim
    · exact (not_reads_error h).elim

theorem reads_skipValue_of_readText? {expected : String} {text : Option String}
    (h : Reads (readText? expected s) text rest) : Reads (skipValue s) () rest := by
  unfold readText? at h
  split at h
  · exact (not_reads_error h).elim
  · next c hc =>
    have hnext : Reads (nextChar s) c.value c.rest := hc ▸ reads_some.2 ⟨rfl, rfl⟩
    split_ifs at h with hnull hquote
    · rw [hnull] at hnext
      split at h
      · exact (not_reads_error h).elim
      · next t ht =>
        obtain ⟨-, rfl⟩ := reads_ok.1 h
        refine reads_skipValue_of_scalar hnext (by decide) (by decide) ?_
        rw [skipScalar, if_pos rfl, readNamed, ht]
        exact reads_ok.2 ⟨rfl, rfl⟩
    · rw [hquote] at hnext
      obtain ⟨name, hname, -⟩ := reads_map.1 (Read.reads_thenRead.1 h)
      refine reads_skipValue_of_scalar hnext (by decide) (by decide) ?_
      rw [skipScalar, if_neg (by decide), if_neg (by decide), if_neg (by decide), if_pos rfl]
      exact reads_past.2 (reads_skipString hname)
    · exact (not_reads_error h).elim

end DrillPost.Json

import DrillPost.Text.Reading
import Mathlib.Logic.Basic

/-!
# What readings take and leave

`Reads` says of a reading that it succeeds, which value it takes off the front of a text, and what
it leaves. A run is read one step at a time: a step that is the last ends it (`reads_readRun_last`),
and after any other the run goes on with what the step left (`reads_readRun_more`).

A text can be cut at byte positions that are between its characters (`exists_cut?`).
-/

namespace DrillPost

variable {m : Type → Type} {α β : Type} {s rest rest' : List Char} {value : α}

/-- The reading takes a value off the front of a text and leaves the rest. -/
def Reads [Pure m] (x : m (Read α s)) (value : α) (rest : List Char) : Prop :=
  ∃ shorter, x = pure ⟨value, rest, shorter⟩

namespace Reads

theorem eq_some {x : Option (Read α s)} (h : Reads x value rest) :
    ∃ shorter, x = some ⟨value, rest, shorter⟩ := h

theorem eq_ok {ε : Type} {x : Except ε (Read α s)} (h : Reads x value rest) :
    ∃ shorter, x = .ok ⟨value, rest, shorter⟩ := h

theorem within [Monad m] [LawfulMonad m] {t : Tail s} {read : (t : List Char) → m (Read α t)}
    (h : Reads (read t.rest) value rest) : Reads (t.thenRead read) value rest := by
  obtain ⟨shorter, hread⟩ := h
  refine ⟨Nat.lt_of_lt_of_le shorter t.notLonger, ?_⟩
  rw [Tail.thenRead, hread, map_pure]
  rfl

theorem andThen [Monad m] [LawfulMonad m] {x : Read β s} {read : (t : List Char) → m (Read α t)}
    (h : Reads (read x.rest) value rest) : Reads (x.thenRead read) value rest := by
  obtain ⟨shorter, hread⟩ := h
  refine ⟨Nat.lt_trans shorter x.shorter, ?_⟩
  rw [Read.thenRead, hread, map_pure]
  rfl

end Reads

/-! ### Runs -/

section Run

variable [Monad m] [LawfulMonad m] {step : (s : List Char) → m (Step α s)} {others : List α}

theorem reads_readRun_last (items : List α) (shorter : rest.length < s.length)
    (h : step s = pure (.last ⟨items, rest, shorter⟩)) : Reads (readRun step s) items rest := by
  refine ⟨shorter, ?_⟩
  rw [readRun, h, pure_bind]

theorem reads_readRun_more (items : List α) (shorter : rest.length < s.length)
    (h : step s = pure (.more ⟨items, rest, shorter⟩))
    (hmore : Reads (readRun step rest) others rest') :
    Reads (readRun step s) (items ++ others) rest' := by
  obtain ⟨shorter', hmore⟩ := hmore
  refine ⟨Nat.lt_trans shorter' shorter, ?_⟩
  rw [readRun, h, pure_bind]
  dsimp only
  rw [hmore, pure_bind]
  rfl

end Run

/-! ### Readings taken apart -/

section TakenApart

variable {ε α β : Type} {s rest : List Char} {value : α}

theorem Reads.shorter {x : Except ε (Read α s)} (h : Reads x value rest) :
    rest.length < s.length := by
  obtain ⟨shorter, -⟩ := h
  exact shorter

@[simp] theorem reads_ok {x : Read α s} :
    Reads (.ok x : Except ε (Read α s)) value rest ↔ x.value = value ∧ x.rest = rest := by
  constructor
  · rintro ⟨shorter, heq⟩
    cases heq
    exact ⟨rfl, rfl⟩
  · rintro ⟨rfl, rfl⟩
    exact ⟨x.shorter, rfl⟩

theorem Reads.of_eq_ok {x : Except ε (Read α s)} {y : Read α s} (h : x = .ok y) :
    Reads x y.value y.rest :=
  h ▸ reads_ok.2 ⟨rfl, rfl⟩

@[simp] theorem not_reads_error {e : ε} :
    ¬ Reads (.error e : Except ε (Read α s)) value rest := by
  rintro ⟨shorter, heq⟩
  cases heq

theorem reads_functorMap {β : Type} {t : List Char} {f : Read α s → Read β t} {g : α → β}
    (hvalue : ∀ x, (f x).value = g x.value) (hrest : ∀ x, (f x).rest = x.rest)
    {x : Except ε (Read α s)} {value : β} :
    Reads (f <$> x) value rest ↔ ∃ a, Reads x a rest ∧ g a = value := by
  cases x with
  | error e =>
    constructor
    · exact fun h => (not_reads_error h).elim
    · rintro ⟨a, h, -⟩
      exact (not_reads_error h).elim
  | ok x =>
    show Reads (Except.ok (f x)) value rest ↔ _
    simp only [reads_ok, hvalue, hrest]
    constructor
    · rintro ⟨rfl, rfl⟩
      exact ⟨x.value, ⟨rfl, rfl⟩, rfl⟩
    · rintro ⟨a, ⟨rfl, rfl⟩, rfl⟩
      exact ⟨rfl, rfl⟩

@[simp] theorem reads_past {c : Char} {x : Except ε (Read α s)} :
    Reads (Read.past c <$> x) value rest ↔ Reads x value rest := by
  rw [reads_functorMap (f := Read.past c) (g := id) (fun _ => rfl) fun _ => rfl]
  simp

@[simp] theorem Tail.reads_thenRead {t : Tail s} {read : (t : List Char) → Except ε (Read α t)} :
    Reads (t.thenRead read) value rest ↔ Reads (read t.rest) value rest := by
  rw [Tail.thenRead, reads_functorMap (f := Read.within t) (g := id) (fun _ => rfl) fun _ => rfl]
  simp

@[simp] theorem Read.reads_thenRead {x : Read β s}
    {read : (t : List Char) → Except ε (Read α t)} :
    Reads (x.thenRead read) value rest ↔ Reads (read x.rest) value rest := by
  rw [Read.thenRead, reads_functorMap (f := x.andThen fun _ value => value) (g := id)
    (fun _ => rfl) fun _ => rfl]
  simp

@[simp] theorem reads_some {x : Read α s} : Reads (some x) value rest ↔
    x.value = value ∧ x.rest = rest := by
  constructor
  · rintro ⟨shorter, heq⟩
    cases heq
    exact ⟨rfl, rfl⟩
  · rintro ⟨rfl, rfl⟩
    exact ⟨x.shorter, rfl⟩

@[simp] theorem not_reads_none : ¬ Reads (none : Option (Read α s)) value rest := by
  rintro ⟨shorter, heq⟩
  cases heq

/-- A run is one step, or one step and another run. -/
theorem reads_readRun_cases {step : (s : List Char) → Except ε (Step α s)} {items : List α}
    (h : Reads (readRun step s) items rest) :
    (∃ shorter, step s = .ok (.last ⟨items, rest, shorter⟩)) ∨
      ∃ first between shorter others, step s = .ok (.more ⟨first, between, shorter⟩) ∧
        Reads (readRun step between) others rest ∧ items = first ++ others := by
  rw [readRun] at h
  cases hstep : step s with
  | error e =>
    rw [hstep] at h
    exact (not_reads_error h).elim
  | ok taken =>
    rw [hstep] at h
    cases taken with
    | last x =>
      obtain ⟨rfl, rfl⟩ := reads_ok.1 h
      exact .inl ⟨x.shorter, rfl⟩
    | more x =>
      obtain ⟨others, hothers, rfl⟩ :=
        (reads_functorMap (f := x.andThen (· ++ ·)) (g := (x.value ++ ·)) (fun _ => rfl)
          fun _ => rfl).1 h
      exact .inr ⟨x.value, x.rest, x.shorter, others, rfl, hothers, rfl⟩

end TakenApart

/-! ### Where a text goes on -/

theorem forall_mem_head?_cons {p : Char → Prop} {c : Char} (h : p c) (r : List Char) :
    ∀ d ∈ (c :: r).head?, p d :=
  fun _ hd => Option.some.inj hd ▸ h

theorem Tail.rest_dropRun_append {p : Char → Bool} (run : List Char) (hrun : ∀ c ∈ run, p c = true)
    (hrest : ∀ c ∈ rest.head?, p c = false) : (Tail.dropRun p (run ++ rest)).rest = rest := by
  show (run ++ rest).dropWhile p = rest
  rw [List.dropWhile_append_of_pos hrun]
  cases rest with
  | nil => rfl
  | cons c rest => exact List.dropWhile_cons_of_neg (by simp [hrest c rfl])

/-! ### Byte positions -/

theorem byteCount_append (before after : List Char) :
    byteCount (before ++ after) = byteCount before + byteCount after := by
  induction before with
  | nil => exact (Nat.zero_add _).symm
  | cons c before ih => rw [List.cons_append, byteCount, byteCount, ih, Nat.add_assoc]

theorem byteCount_eq_zero_iff : byteCount s = 0 ↔ s = [] := by
  cases s with
  | nil => simp [byteCount]
  | cons c r =>
    have hpos := c.utf8Size_pos
    simp only [byteCount, reduceCtorEq, iff_false]
    omega

theorem splitAtByte?_append (before after : List Char) :
    splitAtByte? (before ++ after) (byteCount before) = some (before, after) := by
  induction before with
  | nil => cases after <;> rfl
  | cons c before ih =>
    have hpos := c.utf8Size_pos
    obtain ⟨position, hposition⟩ := Nat.exists_eq_add_of_lt (show 0 < byteCount (c :: before) by
      rw [byteCount]
      omega)
    rw [Nat.zero_add] at hposition
    have hrest : position + 1 - c.utf8Size = byteCount before := by
      rw [← hposition, byteCount, Nat.add_sub_cancel_left]
    rw [hposition, List.cons_append, splitAtByte?, hrest, ih, if_pos]
    · rfl
    · rw [← hposition, byteCount]
      exact Nat.le_add_right _ _

/-- A byte position is between characters of a text, or at one of its ends. -/
def IsBetweenChars (s : List Char) (position : Nat) : Prop :=
  ∃ before, before <+: s ∧ byteCount before = position

theorem IsBetweenChars.exists_splitAtByte? {position : Nat} (h : IsBetweenChars s position) :
    ∃ split, splitAtByte? s position = some split := by
  obtain ⟨before, ⟨after, rfl⟩, hcount⟩ := h
  exact ⟨(before, after), hcount ▸ splitAtByte?_append before after⟩

theorem exists_cut? {start stop : Nat} (hle : start ≤ stop) (hstart : IsBetweenChars s start)
    (hstop : IsBetweenChars s stop) : ∃ part, cut? s start stop = some part := by
  obtain ⟨before, ⟨after, rfl⟩, rfl⟩ := hstart
  obtain ⟨whole, hwhole, rfl⟩ := hstop
  -- The shorter of two beginnings is a beginning of the longer.
  have hprefix : before <+: whole := by
    obtain h | ⟨rest, rfl⟩ :=
      List.prefix_or_prefix_of_prefix (List.prefix_append before after) hwhole
    · exact h
    · rw [byteCount_append] at hle
      have hrest : rest = [] := byteCount_eq_zero_iff.1 (by omega)
      exact ⟨[], by rw [hrest, List.append_nil, List.append_nil]⟩
  obtain ⟨part, rfl⟩ := hprefix
  obtain ⟨rest, happend⟩ := hwhole
  rw [List.append_assoc, List.append_cancel_left_eq] at happend
  refine ⟨part, ?_⟩
  rw [cut?, splitAtByte?_append, Option.bind_some, byteCount_append, Nat.add_sub_cancel_left,
    ← happend]
  dsimp only
  rw [splitAtByte?_append]
  rfl

end DrillPost

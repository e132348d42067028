import DrillPost.Json.Reader
import DrillPost.Proofs.Text.Reading

/-!
# What readers give

`Gives` says of a reading which value it takes, or that it fails. It goes through the ways in which
readers follow one another, and so through the members of an object (`gives_readMembers_more`,
`gives_readMembers_last`): the object fails where one of its values does.
-/

namespace DrillPost.Json

variable {α β : Type} {s rest rest' : List Char}

theorem Reader.map_apply (f : α → β) (read : Reader α) (s : List Char) :
    Reader.map f read s = Read.map f <$> read s := by
  unfold Reader.map
  cases read s with
  | error e => rfl
  | ok x => rfl

theorem reads_map {f : α → β} {read : Reader α} {value : β} :
    Reads (Reader.map f read s) value rest ↔ ∃ a, Reads (read s) a rest ∧ f a = value := by
  rw [Reader.map_apply]
  exact reads_functorMap (f := Read.map f) (fun _ => rfl) fun _ => rfl

/-- The reading takes the value and leaves the rest, or fails where there is no value. -/
def Gives (x : Except Failure (Read α s)) (value? : Option α) (rest : List Char) : Prop :=
  match value? with
  | some value => Reads x value rest
  | none => ∃ e, x = .error e

namespace Gives

variable {value? : Option α}

theorem map (f : α → β) {read : Reader α} (h : Gives (read s) value? rest) :
    Gives (Reader.map f read s) (value?.map f) rest := by
  cases value? with
  | none =>
    obtain ⟨e, he⟩ := h
    refine ⟨e, ?_⟩
    rw [Reader.map, he]
  | some value =>
    obtain ⟨shorter, hread⟩ := h
    refine ⟨shorter, ?_⟩
    rw [Reader.map, hread]
    rfl

theorem within {t : Tail s} {read : Reader α} (h : Gives (read t.rest) value? rest) :
    Gives (t.thenRead read) value? rest := by
  cases value? with
  | none =>
    obtain ⟨e, he⟩ := h
    refine ⟨e, ?_⟩
    rw [Tail.thenRead, he]
    rfl
  | some value => exact Reads.within h

theorem andThen {x : Read β s} {read : Reader α} (h : Gives (read x.rest) value? rest) :
    Gives (x.thenRead read) value? rest := by
  cases value? with
  | none =>
    obtain ⟨e, he⟩ := h
    refine ⟨e, ?_⟩
    rw [Read.thenRead, he]
    rfl
  | some value => exact Reads.andThen h

end Gives

/-! ### Blanks -/

theorem reads_nextChar {blanks : List Char} (hblanks : ∀ c ∈ blanks, isBlank c = true) {c : Char}
    (hc : isBlank c = false) (r : List Char) : Reads (nextChar (blanks ++ c :: r)) c r := by
  have hskip : skipBlank (blanks ++ c :: r) = c :: r := by
    rw [skipBlank, List.dropWhile_append_of_pos hblanks,
      List.dropWhile_cons_of_neg (Bool.not_eq_true _ ▸ hc)]
  generalize blanks ++ c :: r = text at hskip ⊢
  unfold nextChar
  split
  · next heq =>
    rw [hskip] at heq
    cases heq
  · next d t heq =>
    obtain ⟨rfl, rfl⟩ := List.cons.inj (hskip.symm.trans heq)
    exact ⟨_, rfl⟩

theorem reads_nextChar_cons {c : Char} (hc : isBlank c = false) (r : List Char) :
    Reads (nextChar (c :: r)) c r :=
  reads_nextChar (List.forall_mem_nil _) hc r

/-! ### Members -/

section Members

variable {blanks : List Char} (hblanks : ∀ c ∈ blanks, isBlank c = true) (r : List Char)

include hblanks

theorem nextMember_first :
    ∃ t, nextMember true (blanks ++ '"' :: r) = .ok (some t) ∧ t.rest = r := by
  obtain ⟨shorter, hnext⟩ := (reads_nextChar hblanks (c := '"') (by decide) r).eq_some
  rw [nextMember, hnext]
  exact ⟨_, rfl, rfl⟩

theorem nextMember_comma :
    ∃ t, nextMember false (',' :: (blanks ++ '"' :: r)) = .ok (some t) ∧ t.rest = r := by
  obtain ⟨shorter, hnext⟩ := (reads_nextChar hblanks (c := '"') (by decide) r).eq_some
  obtain ⟨shorter', hcomma⟩ :=
    (reads_nextChar_cons (c := ',') (by decide) (blanks ++ '"' :: r)).eq_some
  rw [nextMember, hcomma]
  dsimp only
  rw [if_neg (by decide), if_neg (by decide), if_pos rfl, hnext]
  exact ⟨_, rfl, rfl⟩

/-- The end of an object is the end of its members. -/
theorem gives_readMembers_last {σ : Type} (key : Reader String)
    (field : σ → String → Except String (Reader σ)) (first : Bool) (state : σ) :
    Gives (readMembers key field first state (blanks ++ '\x7d' :: r)) (some state) r := by
  obtain ⟨shorter, hnext⟩ := (reads_nextChar hblanks (c := '\x7d') (by decide) r).eq_some
  have hno : nextMember first (blanks ++ '\x7d' :: r) = .ok none := by
    rw [nextMember, hnext]
    rfl
  refine ⟨shorter, ?_⟩
  rw [readMembers, hno]
  dsimp only
  rw [Reader.map, closeObject, hnext]
  rfl

end Members

theorem reads_readColon (r : List Char) : Reads (readColon (':' :: r)) () r := by
  obtain ⟨shorter, hnext⟩ := (reads_nextChar_cons (c := ':') (by decide) r).eq_some
  refine ⟨shorter, ?_⟩
  rw [readColon, hnext]
  rfl

section Member

variable {σ : Type} {key : Reader String} {field : σ → String → Except String (Reader σ)}
  {first : Bool} {state : σ} {t : Tail s} {name : String} {text : List Char} {value : Reader σ}
  {next? : Option σ} {last? : σ → Option σ}

/-- A member is read with its colon, and then those after it, unless its value fails. -/
theorem gives_readMembers_of_colon {afterKey : List Char}
    (hnext : nextMember first s = .ok (some t)) (hkey : Reads (key t.rest) name afterKey)
    (hcolon : Reads (readColon afterKey) () text) (hfield : field state name = .ok value)
    (hvalue : Gives (value text) next? rest)
    (hmore : ∀ next, next? = some next →
      Gives (readMembers key field false next rest) (last? next) rest') :
    Gives (readMembers key field first state s) (next?.bind last?) rest' := by
  obtain ⟨shorter, hname⟩ := hkey.within.eq_ok
  let name' : Read String s := ⟨name, afterKey, shorter⟩
  obtain ⟨shorter', hcolon⟩ := (Reads.andThen (x := name') hcolon).eq_ok
  let colon : Read Unit s := ⟨(), text, shorter'⟩
  have hstate : Gives (colon.thenRead value) next? rest := Gives.andThen hvalue
  rw [readMembers, hnext]
  dsimp only
  rw [hname]
  dsimp only
  rw [hfield]
  dsimp only
  rw [hcolon]
  dsimp only
  cases next? with
  | none =>
    obtain ⟨e, he⟩ := hstate
    refine ⟨e, ?_⟩
    rw [he]
  | some next =>
    obtain ⟨shorter'', hstate⟩ := hstate.eq_ok
    rw [hstate]
    dsimp only
    specialize hmore next rfl
    show Gives _ (last? next) rest'
    cases hlast : last? next with
    | none =>
      rw [hlast] at hmore
      obtain ⟨e, he⟩ := hmore
      refine ⟨e, ?_⟩
      rw [he]
    | some last =>
      rw [hlast] at hmore
      obtain ⟨shorter, hmore⟩ := hmore.eq_ok
      refine ⟨Nat.lt_trans shorter shorter'', ?_⟩
      rw [hmore]
      rfl

/-- A member is read, and then those after it, unless its value fails. -/
theorem gives_readMembers_more (hnext : nextMember first s = .ok (some t))
    (hkey : Reads (key t.rest) name (':' :: text)) (hfield : field state name = .ok value)
    (hvalue : Gives (value text) next? rest)
    (hmore : ∀ next, next? = some next →
      Gives (readMembers key field false next rest) (last? next) rest') :
    Gives (readMembers key field first state s) (next?.bind last?) rest' :=
  gives_readMembers_of_colon hnext hkey (reads_readColon text) hfield hvalue hmore

/-- Where a member is wrong whatever its value is, nothing is given. -/
theorem gives_readMembers_none {message : String} (hnext : nextMember first s = .ok (some t))
    (hkey : Reads (key t.rest) name rest) (hfield : field state name = .error message)
    (rest' : List Char) : Gives (readMembers key field first state s) none rest' := by
  obtain ⟨shorter, hname⟩ := hkey.within.eq_ok
  rw [readMembers, hnext]
  dsimp only
  rw [hname]
  dsimp only
  rw [hfield]
  exact ⟨_, rfl⟩

end Member

/-- A text is what is read of it, if nothing but blanks is left. -/
theorem readText_eq_ok {read : Reader α} {text : String} {value : α}
    (h : Reads (read text.toList) value rest) (hrest : skipBlank rest = []) :
    readText read text = .ok value := by
  obtain ⟨shorter, hread⟩ := h.eq_ok
  rw [readText, hread]
  exact if_pos hrest

end DrillPost.Json

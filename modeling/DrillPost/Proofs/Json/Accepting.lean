import DrillPost.Proofs.Json.Parts

/-!
# What a record reader takes

`Record.means` says what a record means that has been read. Here it is said that a record is read at
all: the list has no more items than the record has fields, no field comes twice in the object
(`IsRecord`), and every item or member is taken by its own reader (`Record.takes`). What the record
means is then known already, so only that nothing is refused has to be followed through the list
(`exists_itemOr`) or the object (`takes_of_noteMember`).
-/

namespace DrillPost.Json

variable {α β σ : Type} {s rest : List Char}

/-- The reader takes a value off the front of the text. -/
def Takes (read : Reader α) (s : List Char) : Prop := ∃ value rest, Reads (read s) value rest

theorem takes_of_value? {read : Reader α} {value : α} (h : value? read s = some value) :
    Takes read s :=
  ⟨value, exists_reads_of_value? h⟩

theorem Takes.map {read : Reader α} (f : α → β) (h : Takes read s) :
    Takes (Reader.map f read) s := by
  obtain ⟨value, rest, h⟩ := h
  exact ⟨f value, rest, reads_map.2 ⟨value, h, rfl⟩⟩

theorem rest_unique {x : Except Failure (Read α s)} {value value' : α} {rest' : List Char}
    (h : Reads x value rest) (h' : Reads x value' rest') : rest = rest' := by
  obtain ⟨_, rfl⟩ := h.eq_ok
  obtain ⟨_, heq⟩ := h'.eq_ok
  cases heq
  rfl

/-- What is taken is all that is passed over. -/
theorem Takes.reads {read : Reader α} {meaning? : List Char → Option α} (h : Takes read s)
    (hmeans : Means read meaning?) (hskip : Reads (skipValue s) () rest) :
    ∃ value, Reads (read s) value rest := by
  obtain ⟨value, rest', hread⟩ := h
  obtain rfl := rest_unique hskip (hmeans hread).1
  exact ⟨value, hread⟩

/-! ### Lists -/

/-- An item that a list may lack is not refused, if the first item is taken. -/
theorem exists_itemOr (missing : α) {item : Reader α} {meaning? : List Char → Option α}
    (hmeans : Means item meaning?) (found : Nat) {items : List (List Char)}
    (h : Reads (readItems here (found == 0) s) items rest)
    (htakes : ∀ t ∈ items[0]?, Takes item t) :
    ∃ part : Part α s, itemOr missing item found s = .ok part ∧
      Reads (readItems here false part.2.rest) items.tail rest := by
  rcases reads_readItems_iff.1 h with
    ⟨hnext, hclose, rfl⟩ | ⟨t, x, more, others, hnext, hx, hothers, rfl⟩
  · refine ⟨(missing, .all s), ?_, ?_⟩
    · rw [itemOr, readItem?, hnext]
    · obtain ⟨r, hr⟩ := next_of_nextItem_none hnext
      exact reads_readItems_iff.2 (.inl ⟨nextItem_of_closing hr false, hclose, rfl⟩)
  · obtain ⟨hskip, rfl⟩ := reads_here_iff.1 hx
    obtain ⟨value, hread⟩ := (htakes _ rfl).reads hmeans hskip
    obtain ⟨shorter, hread⟩ := (Tail.reads_thenRead.2 hread).eq_ok
    refine ⟨(value, ⟨more, Nat.le_of_lt shorter⟩), ?_, hothers⟩
    rw [itemOr, readItem?, hnext]
    dsimp only
    rw [hread]
    rfl

/-- A list is closed where no items are left. -/
theorem Part.takes_close (part : Part α s) (h : Reads (readItems here false part.2.rest) [] rest) :
    ∃ value rest, Reads part.close value rest := by
  rcases reads_readItems_iff.1 h with ⟨-, hclose, -⟩ | ⟨_, _, _, _, -, -, -, hcons⟩
  · exact ⟨part.1, rest, Tail.reads_thenRead.2 (reads_map.2 ⟨(), hclose, rfl⟩)⟩
  · cases hcons

/-! ### Objects -/

theorem exists_append_of_noteMember {s : List Char} {first : Bool}
    {members noted : List (String × List Char)}
    (h : Reads (readMembers readString noteMember first members s) noted rest) :
    ∃ added, noted = added ++ members := by
  rcases reads_readMembers_iff.1 h with ⟨-, -, rfl⟩ |
    ⟨t, name, colon, read, value, next, more, -, hname, hread, hcolon, hvalue, hmore⟩
  · exact ⟨[], rfl⟩
  · obtain ⟨hskip, rfl⟩ := reads_of_noteMember hread hvalue
    have hshorter := shorter_of_member hname hcolon hskip
    obtain ⟨added, rfl⟩ := exists_append_of_noteMember hmore
    exact ⟨added ++ [(name, value)], by rw [List.append_assoc, List.singleton_append]⟩
termination_by s.length

/-- An object is not refused whose members are kept, if none of them is refused; `R` ties what has
been read to the members so far, and `Q` is what has to be known of a member. -/
theorem takes_of_noteMember {field : σ → String → Except String (Reader σ)}
    {R : σ → List (String × List Char) → Prop} {Q : String × List Char → Prop}
    {fields : List String}
    (hstep : ∀ state next members name read s rest, R state members →
      field state name = .ok read → Reads (read s) next rest →
        Reads (skipValue s) () rest ∧ R next ((name, s) :: members))
    (hfield : ∀ state members name s, R state members →
      Parts.Distinct fields ((name, s) :: members) → Q (name, s) → Takes skipValue s →
        ∃ read, field state name = .ok read ∧ Takes read s)
    {first : Bool} {state : σ} {members noted : List (String × List Char)} {s rest : List Char}
    (hR : R state members) (hdistinct : Parts.Distinct fields noted) (hQ : ∀ m ∈ noted, Q m)
    (h : Reads (readMembers readString noteMember first members s) noted rest) :
    Takes (readMembers readString field first state) s := by
  rcases reads_readMembers_iff.1 h with ⟨hnext, hclose, -⟩ |
    ⟨t, name, colon, keep, value, kept, more, hnext, hname, hkeep, hcolon, hvalue, hmore⟩
  · exact ⟨state, rest, reads_readMembers_iff.2 (.inl ⟨hnext, hclose, rfl⟩)⟩
  · obtain ⟨hskip, rfl⟩ := reads_of_noteMember hkeep hvalue
    obtain ⟨added, rfl⟩ := exists_append_of_noteMember hmore
    obtain ⟨read, hread, next, rest', hnextState⟩ :=
      hfield state members name value hR (List.pairwise_append.1 hdistinct).2.1
        (hQ _ (List.mem_append_right _ List.mem_cons_self)) ⟨(), more, hskip⟩
    obtain ⟨hskip', hR⟩ := hstep _ _ _ _ _ _ _ hR hread hnextState
    obtain rfl := rest_unique hskip hskip'
    have hshorter := shorter_of_member hname hcolon hskip
    obtain ⟨last, rest', hlast⟩ := takes_of_noteMember hstep hfield hR hdistinct hQ hmore
    exact ⟨last, rest', reads_readMembers_iff.2 (.inr ⟨t, name, colon, read, value, next, more,
      hnext, hname, hread, hcolon, hnextState, hlast⟩)⟩
termination_by s.length

/-- A field that has not been set is set by what its reader takes. -/
theorem takes_setOnce {name : String} {old : Option α} {item : Reader α} {set : α → σ}
    (hold : old = none) (h : Takes item s) :
    ∃ read, setOnce name old item set = .ok read ∧ Takes read s :=
  ⟨item.map set, by rw [setOnce, hold]; rfl, h.map set⟩

theorem takes_ignoreField {state : σ} (h : Takes skipValue s) :
    ∃ read, ignoreField state = .ok read ∧ Takes read s :=
  ⟨_, rfl, h.map _⟩

/-! ### Records -/

/-- A list of no more items than there are fields, or an object in which no field comes twice. -/
def IsRecord (fields : List String) (s : List Char) : Prop :=
  (∀ items ∈ items? s, items.length ≤ fields.length) ∧
    ∀ members ∈ members? s, Parts.Distinct fields members

instance (fields : List String) (s : List Char) : Decidable (IsRecord fields s) :=
  inferInstanceAs (Decidable (_ ∧ _))

theorem exists_reads_of_items? {items : List (List Char)} (h : items? s = some items) :
    ∃ r rest, Reads (nextChar s) '[' r ∧ Reads (readItems here true r) items rest := by
  unfold items? at h
  split at h
  · cases h
  · next c hc =>
    split_ifs at h with hbracket
    obtain ⟨rest, hread⟩ := exists_reads_of_value? h
    exact ⟨c.rest, rest, by simp [hc, hbracket], hread⟩

theorem exists_reads_of_members? {members : List (String × List Char)}
    (h : members? s = some members) :
    ∃ r rest, Reads (nextChar s) '\x7b' r ∧
      Reads (readMembers readString noteMember true [] r) members rest := by
  unfold members? at h
  split at h
  · cases h
  · next c hc =>
    split_ifs at h with hbrace
    obtain ⟨rest, hread⟩ := exists_reads_of_value? h
    exact ⟨c.rest, rest, by simp [hc, hbrace], hread⟩

/-- A record is taken if its list or its object is. -/
theorem Record.takes {record : Record α} {fields : List String} {p : Parts (List Char)}
    (hrecord : IsRecord fields s) (hp : parts? s = some p)
    (hlist : ∀ items r rest, items.length ≤ fields.length → p = .ofItems items →
      Reads (readItems here true r) items rest → Takes record.ofList r)
    (hobject : ∀ members r rest, Parts.Distinct fields members → p = .ofMembers members →
      Reads (readMembers readString noteMember true [] r) members rest →
        Takes record.ofObject r) : Takes record.read s := by
  have hread : ∀ c r, Reads (nextChar s) c r → (c = '[' ∧ Takes record.ofList r) ∨
      (c = '\x7b' ∧ Takes record.ofObject r) → Takes record.read s := by
    intro c r hnext htakes
    obtain ⟨shorter, hnext⟩ := hnext.eq_some
    unfold Takes Record.read
    rw [hnext]
    dsimp only
    rcases htakes with ⟨rfl, value, rest, htaken⟩ | ⟨rfl, value, rest, htaken⟩
    · exact ⟨value, rest, Read.reads_thenRead.2 htaken⟩
    · exact ⟨value, rest, Read.reads_thenRead.2 htaken⟩
  unfold parts? at hp
  split at hp
  · next items hitems =>
    obtain ⟨r, rest, hnext, hreadItems⟩ := exists_reads_of_items? hitems
    exact hread _ r hnext (.inl ⟨rfl, hlist items r rest (hrecord.1 items hitems)
      (Option.some.inj hp).symm hreadItems⟩)
  · obtain ⟨members, hmembers, rfl⟩ := Option.map_eq_some_iff.1 hp
    obtain ⟨r, rest, hnext, hreadMembers⟩ := exists_reads_of_members? hmembers
    exact hread _ r hnext (.inr ⟨rfl, hobject members r rest (hrecord.2 members hmembers) rfl
      hreadMembers⟩)

end DrillPost.Json

import DrillPost.Job.Tree
import DrillPost.Proofs.Json.Parts

/-!
# Readers and trees

A text can be read as a tree that is then understood, or by readers that know what they look for.
A reader `Agrees` with a meaning of trees if it gives of every text whose tree is read what the tree
means: the same value up to the same end, or nothing.

A text whose tree is read begins with a list, a map or a value without parts (`StandsFor`), and a
reader that takes one of these can be compared with the reader of trees part by part: the items of a
list (`gives_readItems`, `needItem_cases`, `itemOr_cases`) and the members of an object
(`exists_gives_readMembers`). What nobody asks for is passed over (`agrees_skipValue`).
-/

namespace DrillPost.Json

variable {α β σ : Type} {depth : Nat} {s rest : List Char}

/-- Of a text whose tree is read, the reader gives what the tree means. -/
def Agrees (read : Reader α) (of? : Tree → Option α) : Prop :=
  ∀ {depth : Nat} {s rest : List Char} {tree : Tree},
    Reads (readTreeWithin depth s) tree rest → Gives (read s) (of? tree) rest

/-- The trees of a list and its end are read. -/
def ReadsTreeItems (depth : Nat) (first : Bool) (s : List Char) (items : List Tree)
    (rest : List Char) : Prop :=
  Reads (readItems (readTreeWithin depth) first s) items rest

/-- The trees of an object and its end are read, after others that come last. -/
def ReadsTreeMembers (depth : Nat) (first : Bool) (before : List (String × Tree)) (s : List Char)
    (members : List (String × Tree)) (rest : List Char) : Prop :=
  Reads (readMembers readString (addMember (readTreeWithin depth)) first before s) members rest

/-! ### What is given -/

theorem Gives.cases {x : Except Failure (Read α s)} {value? : Option α} (h : Gives x value? rest) :
    (∃ e, x = .error e ∧ value? = none) ∨
      ∃ value shorter, x = .ok ⟨value, rest, shorter⟩ ∧ value? = some value := by
  cases value? with
  | none =>
    obtain ⟨e, he⟩ := h
    exact .inl ⟨e, he, rfl⟩
  | some value =>
    obtain ⟨shorter, hx⟩ := Reads.eq_ok h
    exact .inr ⟨value, shorter, hx, rfl⟩

/-- What is given is all that is read. -/
theorem Gives.eq_some {x : Except Failure (Read α s)} {value? : Option α} {value : α}
    {rest' : List Char} (h : Gives x value? rest) (hreads : Reads x value rest') :
    value? = some value ∧ rest = rest' := by
  obtain ⟨shorter, hx⟩ := hreads.eq_ok
  rcases h.cases with ⟨e, he, -⟩ | ⟨a, _, ha, rfl⟩
  · cases hx.symm.trans he
  · cases hx.symm.trans ha
    exact ⟨rfl, rfl⟩

theorem Agrees.map {read : Reader α} {of? : Tree → Option α} (h : Agrees read of?) (f : α → β) :
    Agrees (Reader.map f read) fun t => (of? t).map f :=
  fun htree => (h htree).map f

/-! ### What stands at the front of a text -/

/-- A text begins with a tree: with the bracket of a list or an object, or with a scalar. -/
inductive StandsFor (s rest : List Char) : Nat → Tree → Prop
  | list {depth : Nat} {r : List Char} {items : List Tree} (hnext : Reads (nextChar s) '[' r)
      (hitems : ReadsTreeItems depth true r items rest) : StandsFor s rest (depth + 1) (.list items)
  | map {depth : Nat} {r : List Char} {members : List (String × Tree)}
      (hnext : Reads (nextChar s) '\x7b' r)
      (hmembers : ReadsTreeMembers depth true [] r members rest) :
      StandsFor s rest (depth + 1) (.map members.reverse)
  | scalar {depth : Nat} {c : Char} {r : List Char} {value : Scalar}
      (hnext : Reads (nextChar s) c r) (hlist : c ≠ '[') (hmap : c ≠ '\x7b')
      (hvalue : Reads (readScalar (c :: r)) value rest) : StandsFor s rest depth value.toTree

theorem standsFor_of_readTreeWithin {tree : Tree} (h : Reads (readTreeWithin depth s) tree rest) :
    StandsFor s rest depth tree := by
  rw [readTreeWithin.eq_def] at h
  split at h
  · exact (not_reads_error h).elim
  · next c hc =>
    have hnext : Reads (nextChar s) c.value c.rest := by simp [hc]
    split_ifs at h with hlist hmap
    · rw [hlist] at hnext
      split at h
      · exact (not_reads_error h).elim
      · obtain ⟨items, hitems, rfl⟩ := reads_map.1 (Read.reads_thenRead.1 h)
        exact .list hnext hitems
    · rw [hmap] at hnext
      split at h
      · exact (not_reads_error h).elim
      · obtain ⟨members, hmembers, rfl⟩ := reads_map.1 (Read.reads_thenRead.1 h)
        exact .map hnext hmembers
    · obtain ⟨value, hvalue, rfl⟩ := reads_map.1 (Tail.reads_thenRead.1 h)
      exact .scalar hnext hlist hmap hvalue

/-! ### Scalars -/

theorem reads_readNamed {first : Char} {word : String} {value result : α} {r : List Char} :
    Reads (readNamed first word value r) result rest ↔
      Leaves (readWord word.toList r) rest ∧ value = result := by
  unfold readNamed
  cases readWord word.toList r with
  | error e =>
    show Reads (Except.error e) result rest ↔ _
    simp
  | ok t =>
    show Reads (Except.ok (Read.ofTail value first t)) result rest ↔ _
    simp [Read.ofTail, and_comm]

/-- A scalar that is read is passed over to the same end. -/
theorem reads_skipScalar_of_readScalar {c : Char} {r : List Char} {value : Scalar}
    (h : Reads (readScalar (c :: r)) value rest) : Reads (skipScalar (c :: r)) () rest := by
  unfold readScalar at h
  unfold skipScalar
  dsimp only at h ⊢
  split_ifs at h ⊢
  · exact reads_readNamed.2 ⟨(reads_readNamed.1 h).1, rfl⟩
  · exact reads_readNamed.2 ⟨(reads_readNamed.1 h).1, rfl⟩
  · exact reads_readNamed.2 ⟨(reads_readNamed.1 h).1, rfl⟩
  · obtain ⟨text, htext, -⟩ := reads_map.1 (reads_past.1 h)
    exact reads_past.2 (reads_skipString htext)
  · obtain ⟨n, hn, -⟩ := reads_map.1 (reads_past.1 h)
    exact reads_past.2 (reads_skipNumber hn)
  · obtain ⟨n, hn, -⟩ := reads_map.1 h
    exact reads_skipNumber hn
  · exact (not_reads_error h).elim

/-- A scalar is a number if it begins like one, and else it is none. -/
theorem readScalar_number_or_not {c : Char} {r : List Char} {value : Scalar}
    (h : Reads (readScalar (c :: r)) value rest) :
    (beginsNumber c = true ∧ ∃ n, Reads (readSigned (c :: r)) n rest ∧ value = .number n) ∨
      (beginsNumber c = false ∧ value.toTree.real? = none) := by
  unfold readScalar at h
  dsimp only at h
  split_ifs at h with hnull htrue hfalse hquote hminus hdigit
  · obtain ⟨-, rfl⟩ := reads_readNamed.1 h
    exact .inr ⟨by rw [hnull]; decide, rfl⟩
  · obtain ⟨-, rfl⟩ := reads_readNamed.1 h
    exact .inr ⟨by rw [htrue]; decide, rfl⟩
  · obtain ⟨-, rfl⟩ := reads_readNamed.1 h
    exact .inr ⟨by rw [hfalse]; decide, rfl⟩
  · obtain ⟨text, -, rfl⟩ := reads_map.1 (reads_past.1 h)
    exact .inr ⟨by rw [hquote]; decide, rfl⟩
  · obtain ⟨n, hn, rfl⟩ := reads_map.1 (reads_past.1 h)
    refine .inl ⟨by rw [hminus]; decide, n, ?_, rfl⟩
    rw [readSigned, if_pos hminus]
    exact reads_past.2 hn
  · obtain ⟨n, hn, rfl⟩ := reads_map.1 h
    refine .inl ⟨by simp [beginsNumber, hdigit], n, ?_, rfl⟩
    rw [readSigned, if_neg hminus]
    exact hn
  · exact (not_reads_error h).elim

theorem real?_toTree_number (n : Number) : (Scalar.number n).toTree.real? = some n.toBinary64 := by
  cases n <;> rfl

/-- A number is the same whether it is rounded at once or kept as it is first. -/
theorem agrees_readReal : Agrees readReal Tree.real? := by
  intro depth s rest tree htree
  have hnone : ∀ {c r}, Reads (nextChar s) c r → beginsNumber c = false →
      Gives (readReal s) none rest := by
    intro c r hnext hbegins
    obtain ⟨shorter, hnext⟩ := hnext.eq_some
    refine ⟨mismatch "f64" (c :: r), ?_⟩
    rw [readReal, Reader.map, readNumeric, hnext]
    dsimp only
    rw [if_neg (by simp [hbegins])]
    rfl
  cases standsFor_of_readTreeWithin htree with
  | list hnext => exact hnone hnext (by decide)
  | map hnext => exact hnone hnext (by decide)
  | @scalar _ c r value hnext _ _ hvalue =>
    rcases readScalar_number_or_not hvalue with ⟨hbegins, n, hn, rfl⟩ | ⟨hbegins, hreal⟩
    · rw [real?_toTree_number]
      obtain ⟨shorter, hnext⟩ := hnext.eq_some
      refine reads_map.2 ⟨n, ?_, rfl⟩
      rw [readNumeric, hnext]
      dsimp only
      rw [if_pos hbegins]
      exact Tail.reads_thenRead.2 hn
    · rw [hreal]
      exact hnone hnext hbegins

/-! ### Lists -/

section Items

variable {items : List Tree}

/-- A list gives what its items give, or nothing if one of them gives nothing. -/
theorem gives_readItems {item : Reader α} {item? : Tree → Option α} (hitem : Agrees item item?)
    {first : Bool} (h : ReadsTreeItems depth first s items rest) :
    Gives (readItems item first s) (items.mapM item?) rest := by
  induction items generalizing first s with
  | nil =>
    rcases reads_readItems_iff.1 h with ⟨hnext, hclose, -⟩ | ⟨_, _, _, _, -, -, -, hcons⟩
    · exact reads_readItems_iff.2 (.inl ⟨hnext, hclose, rfl⟩)
    · cases hcons
  | cons tree items ih =>
    rcases reads_readItems_iff.1 h with
      ⟨-, -, hnil⟩ | ⟨t, _, more, _, hnext, htree, hmore, hcons⟩
    · cases hnil
    · cases hcons
      have hvalue : Gives (t.thenRead item) (item? tree) more := (hitem htree).within
      -- Where an item gives nothing the reader stops, and the others do not count.
      rw [readItems, hnext, List.mapM_cons]
      dsimp only
      rcases hvalue.cases with ⟨e, he, hnone⟩ | ⟨value, shorter, hvalue, hsome⟩
      · rw [he, hnone]
        exact ⟨e, rfl⟩
      · rw [hvalue, hsome]
        dsimp only [Option.bind_eq_bind, Option.bind_some]
        rcases (ih hmore).cases with ⟨e, he, hnone⟩ | ⟨values, shorter', hvalues, hsome⟩
        · rw [he, hnone]
          exact ⟨e, rfl⟩
        · rw [hvalues, hsome]
          exact reads_ok.2 ⟨rfl, rfl⟩

/-- An item that must be there is the first one, and the others are left. -/
theorem needItem_cases {item : Reader α} {item? : Tree → Option α} (hitem : Agrees item item?)
    (found : Nat) (expected : String) (h : ReadsTreeItems depth (found == 0) s items rest) :
    (∃ e, needItem item found expected s = .error e ∧ items.head?.bind item? = none) ∨
      ∃ part, needItem item found expected s = .ok part ∧
        items.head?.bind item? = some part.1 ∧
        ReadsTreeItems depth false part.2.rest items.tail rest := by
  unfold needItem readItem?
  rcases reads_readItems_iff.1 h with
    ⟨hnext, -, rfl⟩ | ⟨t, tree, more, others, hnext, htree, hmore, rfl⟩
  · rw [hnext]
    exact .inl ⟨_, rfl, rfl⟩
  · have hvalue : Gives (t.thenRead item) (item? tree) more := (hitem htree).within
    rw [hnext]
    dsimp only
    rcases hvalue.cases with ⟨e, he, hnone⟩ | ⟨value, shorter, hvalue, hsome⟩
    · rw [he]
      exact .inl ⟨e, rfl, hnone⟩
    · rw [hvalue]
      exact .inr ⟨(value, _), rfl, hsome, hmore⟩

/-- An item that may be missing is the first one, and the others are left. -/
theorem itemOr_cases (missing : α) {item : Reader α} {item? : Tree → Option α}
    (hitem : Agrees item item?) (found : Nat)
    (h : ReadsTreeItems depth (found == 0) s items rest) :
    (∃ e, itemOr missing item found s = .error e ∧ Tree.onlyValue? missing item? items = none) ∨
      ∃ part, itemOr missing item found s = .ok part ∧
        Tree.onlyValue? missing item? items = (if items.tail = [] then some part.1 else none) ∧
        ReadsTreeItems depth false part.2.rest items.tail rest := by
  unfold itemOr readItem?
  rcases reads_readItems_iff.1 h with
    ⟨hnext, hclose, rfl⟩ | ⟨t, tree, more, others, hnext, htree, hmore, rfl⟩
  · rw [hnext]
    obtain ⟨r, hr⟩ := next_of_nextItem_none hnext
    exact .inr ⟨(missing, .all s), rfl, rfl,
      reads_readItems_iff.2 (.inl ⟨nextItem_of_closing hr false, hclose, rfl⟩)⟩
  · have hvalue : Gives (t.thenRead item) (item? tree) more := (hitem htree).within
    rw [hnext]
    dsimp only
    rcases hvalue.cases with ⟨e, he, hnone⟩ | ⟨value, shorter, hvalue, hsome⟩
    · rw [he]
      refine .inl ⟨e, rfl, ?_⟩
      cases others with
      | nil => exact hnone
      | cons => rfl
    · rw [hvalue]
      refine .inr ⟨(value, _), rfl, ?_, hmore⟩
      cases others with
      | nil => exact hsome
      | cons => rfl

/-- A list is closed only where no items are left. -/
theorem Part.gives_close (part : Part α s)
    (h : ReadsTreeItems depth false part.2.rest items rest) :
    Gives part.close (if items = [] then some part.1 else none) rest := by
  rcases reads_readItems_iff.1 h with ⟨-, hclose, rfl⟩ | ⟨t, tree, more, others, hnext, -, -, rfl⟩
  · exact Tail.reads_thenRead.2 (reads_map.2 ⟨(), hclose, rfl⟩)
  · obtain ⟨r, c, _, hcomma, -⟩ := next_of_nextItem_more hnext
    rw [if_neg (List.cons_ne_nil _ _)]
    -- Before another item stands a comma, and a list is closed by a bracket.
    cases hclose : part.close with
    | error e => exact ⟨e, rfl⟩
    | ok x =>
      obtain ⟨_, hclose, -⟩ := reads_map.1 (Tail.reads_thenRead.1 (.of_eq_ok hclose))
      cases (next_unique hcomma (reads_closeList_iff.1 hclose)).1

end Items

/-- What is read after a bracket and nowhere else means what a list means. -/
theorem agrees_of_list {read inner : Reader α} {of? : Tree → Option α}
    (hopen : ∀ {s} {c : Read Char s}, nextChar s = some c → c.value = '[' →
      read s = c.thenRead inner)
    (hother : ∀ {s} {c : Read Char s}, nextChar s = some c → c.value ≠ '[' → ∃ e, read s = .error e)
    (hinner : ∀ {depth s items rest}, ReadsTreeItems depth true s items rest →
      Gives (inner s) (of? (.list items)) rest)
    (hmap : ∀ members, of? (.map members) = none)
    (hscalar : ∀ value : Scalar, of? value.toTree = none) : Agrees read of? := by
  intro depth s rest tree htree
  cases standsFor_of_readTreeWithin htree with
  | list hnext hitems =>
    obtain ⟨shorter, hnext⟩ := hnext.eq_some
    rw [hopen hnext rfl]
    exact Gives.andThen (hinner hitems)
  | map hnext =>
    obtain ⟨shorter, hnext⟩ := hnext.eq_some
    rw [hmap]
    exact hother hnext (show '\x7b' ≠ '[' by decide)
  | scalar hnext hlist =>
    obtain ⟨shorter, hnext⟩ := hnext.eq_some
    rw [hscalar]
    exact hother hnext hlist

/-- A list of trees is read as the list of what they mean; nothing else is a list. -/
theorem agrees_readList {item : Reader α} {item? : Tree → Option α} (hitem : Agrees item item?) :
    Agrees (readList item) (Tree.itemsAs? item?) := by
  apply agrees_of_list _ _ (gives_readItems hitem)
  · exact fun _ => rfl
  · rintro (_ | _ | ⟨_ | _⟩ | _) <;> rfl
  · intro s c hnext hbracket
    rw [readList, hnext]
    exact if_pos hbracket
  · intro s c hnext hne
    rw [readList, hnext]
    exact ⟨_, if_neg hne⟩

/-! ### Values that are passed over -/

theorem exists_readItems_here {item : Reader α}
    (hitem : ∀ {s rest value}, Reads (item s) value rest → Reads (skipValue s) () rest)
    {first : Bool} {values : List α} (h : Reads (readItems item first s) values rest) :
    ∃ xs, Reads (readItems here first s) xs rest := by
  induction values generalizing first s with
  | nil =>
    rcases reads_readItems_iff.1 h with ⟨hnext, hclose, -⟩ | ⟨_, _, _, _, -, -, -, hcons⟩
    · exact ⟨[], reads_readItems_iff.2 (.inl ⟨hnext, hclose, rfl⟩)⟩
    · cases hcons
  | cons value values ih =>
    rcases reads_readItems_iff.1 h with ⟨-, -, hnil⟩ | ⟨t, _, more, _, hnext, hvalue, hmore, hcons⟩
    · cases hnil
    · cases hcons
      obtain ⟨xs, hxs⟩ := ih hmore
      exact ⟨t.rest :: xs, reads_readItems_iff.2 (.inr ⟨t, t.rest, more, xs, hnext,
        reads_here_iff.2 ⟨hitem hvalue, rfl⟩, hxs, rfl⟩)⟩

/-- A value whose tree is read is passed over to the same end. -/
theorem reads_skipValue_of_readTreeWithin {depth : Nat} {s rest : List Char} {tree : Tree}
    (h : Reads (readTreeWithin depth s) tree rest) : Reads (skipValue s) () rest := by
  cases standsFor_of_readTreeWithin h with
  | @list depth r items hnext hitems =>
    obtain ⟨xs, hxs⟩ :=
      exists_readItems_here (fun htree => reads_skipValue_of_readTreeWithin htree) hitems
    refine reads_skipValueIn_iff.2 ⟨'[', r, hnext, ?_⟩
    simpa using reads_skipFirstIn_of_readItems hxs
  | @map depth r members hnext hmembers =>
    -- Nothing has to be known of the members but that their values are passed over.
    have hstep : ∀ (state next : List (String × Tree)) (noted : List (String × List Char))
        (name : String) (read : Reader (List (String × Tree))) (s rest : List Char), True →
        addMember (readTreeWithin depth) state name = .ok read → Reads (read s) next rest →
          Reads (skipValue s) () rest ∧ True := by
      intro state next noted name read s rest _ hread hnext
      cases hread
      obtain ⟨tree, htree, -⟩ := reads_map.1 hnext
      exact ⟨reads_skipValue_of_readTreeWithin htree, trivial⟩
    obtain ⟨noted, hnoted, -⟩ : ∃ noted, Reads (readMembers readString noteMember true [] r) noted
        rest ∧ True :=
      exists_reads_noteMember (R := fun _ _ => True) hstep trivial hmembers
    refine reads_skipValueIn_iff.2 ⟨'\x7b', r, hnext, ?_⟩
    simpa using reads_skipFirstIn_of_readMembers hnoted
  | scalar hnext hlist hmap hvalue =>
    exact reads_skipValue_of_scalar hnext hlist hmap (reads_skipScalar_of_readScalar hvalue)
termination_by depth

theorem agrees_skipValue : Agrees skipValue fun _ => some () :=
  reads_skipValue_of_readTreeWithin

/-! ### Objects -/

/-- What a reader of members makes of a value is what the tree of the value means, or it wants no
value there whatever the tree is. -/
inductive FieldAgrees : Except String (Reader σ) → (Tree → Option σ) → Prop
  | error {message : String} {of? : Tree → Option σ} (h : ∀ t, of? t = none) :
      FieldAgrees (.error message) of?
  | ok {read : Reader σ} {of? : Tree → Option σ} (h : Agrees read of?) : FieldAgrees (.ok read) of?

/-- A field that may come once, as trees are understood. -/
def setOnce? (old : Option α) (value? : Tree → Option α) (set : α → σ) (t : Tree) : Option σ :=
  if old.isSome then none else (value? t).map set

theorem fieldAgrees_setOnce {name : String} {old : Option α} {item : Reader α}
    {value? : Tree → Option α} {set : α → σ} (h : Agrees item value?) :
    FieldAgrees (setOnce name old item set) (setOnce? old value? set) := by
  unfold setOnce setOnce?
  split_ifs
  · exact .error fun _ => rfl
  · exact .ok (h.map set)

theorem fieldAgrees_ignoreField (state : σ) :
    FieldAgrees (ignoreField state) fun _ => some state :=
  .ok (agrees_skipValue.map fun _ => state)

/-- The members of an object change a state as their trees do, one after another. -/
theorem exists_gives_readMembers {field : σ → String → Except String (Reader σ)}
    {field? : σ → String → Tree → Option σ}
    (hfield : ∀ state name, FieldAgrees (field state name) (field? state name))
    {first : Bool} {before members : List (String × Tree)} {s rest : List Char}
    (h : ReadsTreeMembers depth first before s members rest) :
    ∃ added : List (String × Tree), members = added.reverse ++ before ∧ ∀ state,
      Gives (readMembers readString field first state s)
        (added.foldlM (fun state m => field? state m.1 m.2) state) rest := by
  rcases reads_readMembers_iff.1 h with ⟨hnext, hclose, rfl⟩ |
    ⟨t, name, colon, read, value, next, more, hnext, hname, hread, hcolon, hvalue, hmore⟩
  · exact ⟨[], rfl, fun state => reads_readMembers_iff.2 (.inl ⟨hnext, hclose, rfl⟩)⟩
  · cases hread
    obtain ⟨tree, htree, rfl⟩ := reads_map.1 hvalue
    have hshorter := shorter_of_member hname hcolon htree
    obtain ⟨added, rfl, hadded⟩ := exists_gives_readMembers hfield hmore
    -- The members are kept the last one first, but the state changes in the order of the text.
    refine ⟨(name, tree) :: added, by simp, fun state => ?_⟩
    have hstate := hfield state name
    rw [List.foldlM_cons]
    cases hread : field state name with
    | error message =>
      rw [hread] at hstate
      obtain ⟨hnone⟩ := hstate
      rw [hnone tree]
      exact gives_readMembers_none hnext hname hread rest
    | ok read =>
      rw [hread] at hstate
      obtain ⟨⟩ | ⟨hagrees⟩ := hstate
      exact gives_readMembers_of_colon hnext hname hcolon hread (hagrees htree)
        fun next _ => hadded next
termination_by s.length

/-- What has been read of a field, after further values of it. -/
def once? (value? : Tree → Option α) : Option α → List Tree → Option (Option α)
  | old, [] => some old
  | none, [t] => (value? t).map some
  | _, _ => none

theorem once?_cons (value? : Tree → Option α) (old : Option α) (t : Tree) (values : List Tree) :
    once? value? old (t :: values) =
      (setOnce? old value? some t).bind fun new => once? value? new values := by
  cases old with
  | some a => simp [once?, setOnce?]
  | none =>
    cases values with
    | nil => simp [once?, setOnce?]
    | cons => cases h : value? t <;> simp [once?, setOnce?, h]

/-- A field that may be left out has its only value. -/
theorem getD_once? (missing : α) (value? : Tree → Option α) (values : List Tree) :
    (once? value? none values).map (·.getD missing) = Tree.onlyValue? missing value? values := by
  match values with
  | [] => rfl
  | [t] => cases h : value? t <;> simp [once?, Tree.onlyValue?, h]
  | _ :: _ :: _ => rfl

theorem valuesOf_cons_self (name : String) (t : Tree) (members : List (String × Tree)) :
    Tree.valuesOf name ((name, t) :: members) = t :: Tree.valuesOf name members := by
  simp [Tree.valuesOf]

theorem valuesOf_cons_of_ne {name other : String} (h : other ≠ name) (t : Tree)
    (members : List (String × Tree)) :
    Tree.valuesOf name ((other, t) :: members) = Tree.valuesOf name members := by
  simp [Tree.valuesOf, h]

/-! ### Records -/

/-- A record agrees if the readers of its list and of its object do, and no scalar is one. -/
theorem Record.agrees {record : Record α} {of? : Tree → Option α}
    (hlist : ∀ {depth s items rest}, ReadsTreeItems depth true s items rest →
      Gives (record.ofList s) (of? (.list items)) rest)
    (hobject : ∀ {depth s members rest}, ReadsTreeMembers depth true [] s members rest →
      Gives (record.ofObject s) (of? (.map members.reverse)) rest)
    (hscalar : ∀ value : Scalar, of? value.toTree = none) : Agrees record.read of? := by
  intro depth s rest tree htree
  cases standsFor_of_readTreeWithin htree with
  | @list _ r items hnext hitems =>
    obtain ⟨shorter, hnext⟩ := hnext.eq_some
    rw [Record.read, hnext]
    dsimp only
    rw [if_pos rfl]
    exact Gives.andThen (hlist hitems)
  | @map _ r members hnext hmembers =>
    obtain ⟨shorter, hnext⟩ := hnext.eq_some
    rw [Record.read, hnext]
    dsimp only
    rw [if_neg (by decide), if_pos rfl]
    exact Gives.andThen (hobject hmembers)
  | @scalar _ c r value hnext hlist hmap _ =>
    obtain ⟨shorter, hnext⟩ := hnext.eq_some
    rw [Record.read, hnext, hscalar]
    dsimp only
    rw [if_neg hlist, if_neg hmap]
    exact ⟨_, rfl⟩

/-! ### Whole texts -/

theorem readText_eq_ok_iff {read : Reader α} {text : String} {value : α} :
    readText read text = .ok value ↔
      ∃ rest, Reads (read text.toList) value rest ∧ skipBlank rest = [] := by
  constructor
  · intro h
    unfold readText at h
    split at h
    · cases h
    · next r hr =>
      split_ifs at h with hrest
      cases h
      exact ⟨r.rest, .of_eq_ok hr, hrest⟩
  · rintro ⟨rest, hread, hrest⟩
    exact readText_eq_ok hread hrest

/-- A text that holds a tree holds what the tree means. -/
theorem Agrees.readText_eq_ok_iff {read : Reader α} {of? : Tree → Option α} (h : Agrees read of?)
    {text : String} {tree : Tree} (htree : readText readTree text = .ok tree) {value : α} :
    readText read text = .ok value ↔ of? tree = some value := by
  obtain ⟨rest, htree, hrest⟩ := Json.readText_eq_ok_iff.1 htree
  have hgives := h htree
  rw [Json.readText_eq_ok_iff]
  constructor
  · rintro ⟨_, hread, -⟩
    exact (hgives.eq_some hread).1
  · intro hvalue
    rw [hvalue] at hgives
    exact ⟨rest, hgives, hrest⟩

end DrillPost.Json

import DrillPost.Proofs.Json.Skipping
import DrillPost.Proofs.Tree.Parts

/-!
# The parts of a value

`parts?` finds the parts of a list or an object without reading them: a part is the text from it on.
So one can ask what a part says without knowing how the whole is read.

A reader `Means` something if whatever it takes is passed over and means the value that it gives.
The reader of a record takes the same steps as the search for its parts: the items of a list come
one after another (`readItems_of_itemOr`), the members of an object in any order among others
(`exists_reads_noteMember`). So a record means what its parts mean (`Record.means`).
-/

namespace DrillPost.Json

variable {α β σ : Type} {s rest : List Char}

/-- Passes over a value, and keeps the text from the value on. -/
def here : Reader (List Char) := fun s => Reader.map (fun _ => s) skipValue s

/-- A member is kept with the text from its value on, before those that were kept earlier. -/
def noteMember (members : List (String × List Char)) (name : String) :
    Except String (Reader (List (String × List Char))) :=
  .ok (here.map fun value => (name, value) :: members)

theorem reads_here_iff {t : List Char} :
    Reads (here s) t rest ↔ Reads (skipValue s) () rest ∧ s = t := by
  rw [here, reads_map]
  constructor
  · rintro ⟨_, h, rfl⟩
    exact ⟨h, rfl⟩
  · rintro ⟨h, rfl⟩
    exact ⟨(), h, rfl⟩

/-! ### What stands next -/

theorem skipBlank_of_next {c : Char} {r : List Char} (h : Reads (nextChar s) c r) :
    skipBlank s = c :: r := by
  obtain ⟨shorter, h⟩ := h
  unfold nextChar at h
  split at h
  · cases h
  · next d t hskip =>
    cases h
    exact hskip

/-- What stands next still does when the blanks before it are gone. -/
theorem reads_next_unread {c : Char} {r : List Char} (h : Reads (nextChar s) c r) :
    Reads (nextChar (c :: r)) c r := by
  have hskip := skipBlank_of_next h
  have hblank : isBlank c = false := by
    have hhead := List.head?_dropWhile_not isBlank s
    rw [← skipBlank, hskip] at hhead
    simpa using hhead
  unfold nextChar
  split
  · next heq =>
    rw [skipBlank, List.dropWhile_cons_of_neg (by simp [hblank])] at heq
    cases heq
  · next d t heq =>
    rw [skipBlank, List.dropWhile_cons_of_neg (by simp [hblank])] at heq
    cases heq
    exact ⟨_, rfl⟩

theorem next_unique {c d : Char} {r t : List Char} (h : Reads (nextChar s) c r)
    (h' : Reads (nextChar s) d t) : c = d ∧ r = t := by
  have hskip := skipBlank_of_next h
  rw [skipBlank_of_next h'] at hskip
  exact ⟨(List.cons.inj hskip).1.symm, (List.cons.inj hskip).2.symm⟩

/-- The blanks before a value do not matter to what is passed over. -/
theorem reads_skipValueIn_of_unread {opened : List Bracket} {c : Char} {r : List Char}
    (hc : Reads (nextChar s) c r) (h : Reads (skipValueIn opened (c :: r)) () rest) :
    Reads (skipValueIn opened s) () rest := by
  obtain ⟨d, t, hd, hvalue⟩ := reads_skipValueIn_iff.1 h
  obtain ⟨rfl, rfl⟩ := next_unique (reads_next_unread hc) hd
  exact reads_skipValueIn_iff.2 ⟨c, r, hc, hvalue⟩

/-! ### Lists -/

theorem reads_closeList_iff : Reads (closeList s) () rest ↔ Reads (nextChar s) ']' rest := by
  unfold closeList
  cases nextChar s with
  | none => simp
  | some c =>
    dsimp only
    split_ifs with hclosing
    · simp [Read.map, hclosing]
    · simp [hclosing]
    · simp [hclosing]
    · simp [hclosing]

theorem next_of_nextItem_none {first : Bool} (h : nextItem first s = .ok none) :
    ∃ r, Reads (nextChar s) ']' r := by
  unfold nextItem at h
  split at h
  · cases h
  · next c hc =>
    split_ifs at h with hclosing hfirst hcomma
    · exact ⟨c.rest, by simp [hc, hclosing]⟩
    · cases h
    · split at h
      · cases h
      · split_ifs at h
        cases h

theorem next_of_nextItem_first {t : Tail s} (h : nextItem true s = .ok (some t)) :
    ∃ c r, Reads (nextChar s) c r ∧ c ≠ ']' ∧ t.rest = c :: r := by
  unfold nextItem at h
  split at h
  · cases h
  · next c hc =>
    by_cases hclosing : c.value = ']'
    · rw [if_pos hclosing] at h
      cases h
    · rw [if_neg hclosing, if_pos rfl] at h
      cases h
      exact ⟨c.value, c.rest, by simp [hc], hclosing, rfl⟩

theorem next_of_nextItem_more {t : Tail s} (h : nextItem false s = .ok (some t)) :
    ∃ r c r', Reads (nextChar s) ',' r ∧ Reads (nextChar r) c r' ∧ t.rest = c :: r' := by
  unfold nextItem at h
  split at h
  · cases h
  · next c hc =>
    rw [if_neg (c := false = true) Bool.false_ne_true] at h
    split_ifs at h with hclosing hcomma
    · cases h
    · split at h
      · cases h
      · next d hd =>
        split_ifs at h
        cases h
        exact ⟨c.rest, d.value, d.rest, by simp [hc, hcomma], by simp [hd], rfl⟩

/-- A list ends, or another item stands in it. -/
theorem reads_readItems_iff {item : Reader α} {first : Bool} {xs : List α} :
    Reads (readItems item first s) xs rest ↔
      (nextItem first s = .ok none ∧ Reads (closeList s) () rest ∧ xs = []) ∨
        ∃ t x more others, nextItem first s = .ok (some t) ∧ Reads (item t.rest) x more ∧
          Reads (readItems item false more) others rest ∧ xs = x :: others := by
  rw [readItems]
  cases hnext : nextItem first s with
  | error e => simp
  | ok t? =>
    cases t? with
    | none =>
      simp only [reads_map]
      constructor
      · rintro ⟨_, hclose, rfl⟩
        exact .inl ⟨trivial, hclose, rfl⟩
      · rintro (⟨-, hclose, rfl⟩ | ⟨t, _, _, _, ht, -⟩)
        · exact ⟨(), hclose, rfl⟩
        · cases ht
    | some t =>
      dsimp only
      have hitem : ∀ x more, Reads (t.thenRead item) x more ↔ Reads (item t.rest) x more :=
        fun _ _ => Tail.reads_thenRead
      constructor
      · intro h
        split at h
        · exact (not_reads_error h).elim
        · next x hx =>
          split at h
          · exact (not_reads_error h).elim
          · next others hothers =>
            obtain ⟨rfl, rfl⟩ := reads_ok.1 h
            exact .inr ⟨t, x.value, x.rest, others.value, rfl, (hitem _ _).1 (.of_eq_ok hx),
              .of_eq_ok hothers, rfl⟩
      · rintro (⟨hnone, -⟩ | ⟨_, x, more, others, ht, hx, hothers, rfl⟩)
        · cases hnone
        · cases ht
          obtain ⟨shorter, hx⟩ := ((hitem _ _).2 hx).eq_ok
          obtain ⟨shorter', hothers⟩ := hothers.eq_ok
          rw [hx]
          dsimp only
          rw [hothers]
          exact reads_ok.2 ⟨rfl, rfl⟩

theorem reads_skipValueIn_of_skipValue {opened : List Bracket} {more : List Char}
    (h : Reads (skipValue s) () more) (hmore : Leaves (skipMoreIn opened more) rest) :
    Reads (skipValueIn opened s) () rest := by
  rw [← List.nil_append opened]
  exact reads_skipValueIn_append h hmore

/-- The items that are read after the first are passed over up to the end of the list. -/
theorem leaves_skipMoreIn_of_readItems {s : List Char} {xs : List (List Char)}
    (h : Reads (readItems here false s) xs rest) : Leaves (skipMoreIn [.list] s) rest := by
  refine leaves_skipMoreIn_cons_iff.2 ?_
  rcases reads_readItems_iff.1 h with
    ⟨-, hclose, -⟩ | ⟨t, x, more, others, hnext, hx, hothers, -⟩
  · exact ⟨']', rest, reads_closeList_iff.1 hclose, by simp [Bracket.closing]⟩
  · obtain ⟨r, c, r', hcomma, hc, ht⟩ := next_of_nextItem_more hnext
    have hvalue := (reads_here_iff.1 hx).1
    have hshorter : more.length < s.length := Nat.lt_of_lt_of_le hvalue.shorter t.notLonger
    have hmore := leaves_skipMoreIn_of_readItems hothers
    rw [ht] at hvalue
    refine ⟨',', r, hcomma, ?_⟩
    rw [if_pos rfl]
    exact ⟨r, leaves_ok.2 rfl,
      reads_skipValueIn_of_unread hc (reads_skipValueIn_of_skipValue hvalue hmore)⟩
termination_by s.length

/-- The items that are read are passed over after the bracket that opens the list. -/
theorem reads_skipFirstIn_of_readItems {xs : List (List Char)}
    (h : Reads (readItems here true s) xs rest) : Reads (skipFirstIn .list [] s) () rest := by
  refine reads_skipFirstIn_iff.2 ?_
  rcases reads_readItems_iff.1 h with
    ⟨-, hclose, -⟩ | ⟨t, x, more, others, hnext, hx, hothers, -⟩
  · exact ⟨']', rest, reads_closeList_iff.1 hclose, by simp [Bracket.closing]⟩
  · obtain ⟨c, r, hc, hclosing, ht⟩ := next_of_nextItem_first hnext
    have hvalue := (reads_here_iff.1 hx).1
    rw [ht] at hvalue
    refine ⟨c, r, hc, ?_⟩
    rw [Bracket.closing, if_neg hclosing]
    exact ⟨s, leaves_ok.2 rfl, reads_skipValueIn_of_unread hc
      (reads_skipValueIn_of_skipValue hvalue (leaves_skipMoreIn_of_readItems hothers))⟩

/-! ### Objects -/

theorem reads_closeObject_iff :
    Reads (closeObject s) () rest ↔ Reads (nextChar s) '\x7d' rest := by
  unfold closeObject
  cases nextChar s with
  | none => simp
  | some c =>
    dsimp only
    split_ifs with hclosing
    · simp [Read.map, hclosing]
    · simp [hclosing]
    · simp [hclosing]

theorem next_of_nextMember_first {t : Tail s} (h : nextMember true s = .ok (some t)) :
    Reads (nextChar s) '"' t.rest := by
  unfold nextMember at h
  split at h
  · cases h
  · next c hc =>
    by_cases hclosing : c.value = '\x7d'
    · rw [if_pos hclosing] at h
      cases h
    · rw [if_neg hclosing, if_pos rfl] at h
      split_ifs at h with hquote
      cases h
      simp [hc, hquote, Read.toTail]

theorem next_of_nextMember_more {t : Tail s} (h : nextMember false s = .ok (some t)) :
    ∃ r, Reads (nextChar s) ',' r ∧ Reads (nextChar r) '"' t.rest := by
  unfold nextMember at h
  split at h
  · cases h
  · next c hc =>
    rw [if_neg (c := false = true) Bool.false_ne_true] at h
    split_ifs at h with hclosing hcomma
    · cases h
    · split at h
      · cases h
      · next d hd =>
        split_ifs at h with hquote
        cases h
        exact ⟨c.rest, by simp [hc, hcomma], by simp [hd, hquote, Read.toTail, Tail.andThen]⟩

theorem leaves_skipKey {name : String} {key colon value : List Char}
    (hquote : Reads (nextChar s) '"' key) (hkey : Reads (readString key) name colon)
    (hcolon : Reads (readColon colon) () value) : Leaves (skipKey .object s) value := by
  obtain ⟨shorter, hquote⟩ := hquote.eq_some
  let c : Read Char s := ⟨'"', key, shorter⟩
  obtain ⟨shorter', hskip⟩ := (Read.reads_thenRead (x := c).2 (reads_skipString hkey)).eq_ok
  let name' : Read Unit s := ⟨(), colon, shorter'⟩
  obtain ⟨shorter'', hcolon⟩ := (Read.reads_thenRead (x := name').2 hcolon).eq_ok
  rw [skipKey, hquote]
  dsimp only
  rw [if_neg (by decide), hskip]
  dsimp only
  rw [hcolon]
  exact leaves_ok.2 rfl

/-- An object ends, or another member stands in it. -/
theorem reads_readMembers_iff {key : Reader String} {field : σ → String → Except String (Reader σ)}
    {first : Bool} {state last : σ} :
    Reads (readMembers key field first state s) last rest ↔
      (nextMember first s = .ok none ∧ Reads (closeObject s) () rest ∧ state = last) ∨
        ∃ t name colon read value state' more, nextMember first s = .ok (some t) ∧
          Reads (key t.rest) name colon ∧ field state name = .ok read ∧
          Reads (readColon colon) () value ∧ Reads (read value) state' more ∧
          Reads (readMembers key field false state' more) last rest := by
  constructor
  · intro h
    rw [readMembers] at h
    split at h
    · exact (not_reads_error h).elim
    · next hnext =>
      obtain ⟨_, hclose, hstate⟩ := reads_map.1 h
      exact .inl ⟨hnext, hclose, hstate⟩
    · next t hnext =>
      split at h
      · exact (not_reads_error h).elim
      · next name hname =>
        split at h
        · exact (not_reads_error h).elim
        · next read hread =>
          split at h
          · exact (not_reads_error h).elim
          · next colon hcolon =>
            split at h
            · exact (not_reads_error h).elim
            · next state' hstate =>
              split at h
              · exact (not_reads_error h).elim
              · next last' hlast =>
                obtain ⟨rfl, rfl⟩ := reads_ok.1 h
                exact .inr ⟨t, name.value, name.rest, read, colon.rest, state'.value, state'.rest,
                  hnext, Tail.reads_thenRead.1 (.of_eq_ok hname), hread,
                  Read.reads_thenRead.1 (.of_eq_ok hcolon),
                  Read.reads_thenRead.1 (.of_eq_ok hstate), .of_eq_ok hlast⟩
  · rintro (⟨hnext, hclose, rfl⟩ |
      ⟨t, name, colon, read, value, state', more, hnext, hname, hread, hcolon, hstate, hlast⟩)
    · rw [readMembers, hnext]
      exact reads_map.2 ⟨(), hclose, rfl⟩
    · obtain ⟨shorter, hname⟩ := (Tail.reads_thenRead.2 hname).eq_ok
      let name' : Read String s := ⟨name, colon, shorter⟩
      obtain ⟨shorter', hcolon⟩ := (Read.reads_thenRead (x := name').2 hcolon).eq_ok
      let colon' : Read Unit s := ⟨(), value, shorter'⟩
      obtain ⟨shorter'', hstate⟩ := (Read.reads_thenRead (x := colon').2 hstate).eq_ok
      obtain ⟨_, hlast⟩ := hlast.eq_ok
      rw [readMembers, hnext]
      dsimp only
      rw [hname]
      dsimp only
      rw [hread]
      dsimp only
      rw [hcolon]
      dsimp only
      rw [hstate]
      dsimp only
      rw [hlast]
      exact reads_ok.2 ⟨rfl, rfl⟩

/-- After a member less of the text is left. -/
theorem shorter_of_member {t : Tail s} {key : Reader String} {name : String} {read : Reader α}
    {x : α} {colon value more : List Char} (hname : Reads (key t.rest) name colon)
    (hcolon : Reads (readColon colon) () value) (hvalue : Reads (read value) x more) :
    more.length < s.length := by
  have := t.notLonger
  have := hname.shorter
  have := hcolon.shorter
  have := hvalue.shorter
  omega

theorem reads_of_noteMember {members members' : List (String × List Char)} {name : String}
    {read : Reader (List (String × List Char))} (hread : noteMember members name = .ok read)
    (h : Reads (read s) members' rest) :
    Reads (skipValue s) () rest ∧ members' = (name, s) :: members := by
  cases hread
  obtain ⟨_, hhere, rfl⟩ := reads_map.1 h
  obtain ⟨hvalue, rfl⟩ := reads_here_iff.1 hhere
  exact ⟨hvalue, rfl⟩

/-- The members that are read after the first are passed over up to the end of the object. -/
theorem leaves_skipMoreIn_of_readMembers {s : List Char} {members last : List (String × List Char)}
    (h : Reads (readMembers readString noteMember false members s) last rest) :
    Leaves (skipMoreIn [.object] s) rest := by
  refine leaves_skipMoreIn_cons_iff.2 ?_
  rcases reads_readMembers_iff.1 h with ⟨-, hclose, -⟩ |
    ⟨t, name, colon, read, value, next, more, hnext, hname, hread, hcolon, hvalue, hmore⟩
  · exact ⟨'\x7d', rest, reads_closeObject_iff.1 hclose, by simp [Bracket.closing]⟩
  · obtain ⟨r, hcomma, hquote⟩ := next_of_nextMember_more hnext
    obtain ⟨hvalue, -⟩ := reads_of_noteMember hread hvalue
    have hkey := leaves_skipKey hquote hname hcolon
    have hshorter : more.length < s.length := by
      obtain ⟨shorter, -⟩ := hcomma
      have := hkey.notLonger
      have := hvalue.shorter
      omega
    exact ⟨',', r, hcomma, value, hkey,
      reads_skipValueIn_of_skipValue hvalue (leaves_skipMoreIn_of_readMembers hmore)⟩
termination_by s.length

/-- The members that are read are passed over after the brace that opens the object. -/
theorem reads_skipFirstIn_of_readMembers {members last : List (String × List Char)}
    (h : Reads (readMembers readString noteMember true members s) last rest) :
    Reads (skipFirstIn .object [] s) () rest := by
  refine reads_skipFirstIn_iff.2 ?_
  rcases reads_readMembers_iff.1 h with ⟨-, hclose, -⟩ |
    ⟨t, name, colon, read, value, next, more, hnext, hname, hread, hcolon, hvalue, hmore⟩
  · exact ⟨'\x7d', rest, reads_closeObject_iff.1 hclose, by simp [Bracket.closing]⟩
  · have hquote := next_of_nextMember_first hnext
    obtain ⟨hvalue, -⟩ := reads_of_noteMember hread hvalue
    exact ⟨'"', t.rest, hquote, value, leaves_skipKey hquote hname hcolon,
      reads_skipValueIn_of_skipValue hvalue (leaves_skipMoreIn_of_readMembers hmore)⟩

/-! ### Parts -/

/-- The items of a list, each as the text from it on. -/
def items? (s : List Char) : Option (List (List Char)) :=
  match nextChar s with
  | none => none
  | some c =>
    if c.value = '[' then (readItems here true c.rest).toOption.map Read.value else none

/-- The members of an object, the last one first, each value as the text from it on. -/
def members? (s : List Char) : Option (List (String × List Char)) :=
  match nextChar s with
  | none => none
  | some c =>
    if c.value = '\x7b' then
      (readMembers readString noteMember true [] c.rest).toOption.map Read.value
    else none

theorem items?_eq_some {xs : List (List Char)} {r : List Char} (hc : Reads (nextChar s) '[' r)
    (h : Reads (readItems here true r) xs rest) : items? s = some xs := by
  obtain ⟨shorter, hc⟩ := hc.eq_some
  obtain ⟨_, h⟩ := h.eq_ok
  rw [items?, hc]
  dsimp only
  rw [if_pos rfl, h]
  rfl

theorem items?_eq_none {r : List Char} (hc : Reads (nextChar s) '\x7b' r) : items? s = none := by
  obtain ⟨shorter, hc⟩ := hc.eq_some
  rw [items?, hc]
  rfl

theorem members?_eq_some {members : List (String × List Char)} {r : List Char}
    (hc : Reads (nextChar s) '\x7b' r)
    (h : Reads (readMembers readString noteMember true [] r) members rest) :
    members? s = some members := by
  obtain ⟨shorter, hc⟩ := hc.eq_some
  obtain ⟨_, h⟩ := h.eq_ok
  rw [members?, hc]
  dsimp only
  rw [if_pos rfl, h]
  rfl

/-- The parts of a list or an object. -/
def parts? (s : List Char) : Option (Parts (List Char)) :=
  match items? s with
  | some items => some (.ofItems items)
  | none => (members? s).map .ofMembers

/-! ### What a reader reads -/

/-- Whatever the reader takes is passed over, and means the value that the reader gives. -/
def Means (read : Reader α) (meaning? : List Char → Option α) : Prop :=
  ∀ {s rest : List Char} {value : α}, Reads (read s) value rest →
    Reads (skipValue s) () rest ∧ meaning? s = some value

/-- The value that a reader takes off the front of a text. -/
def value? (read : Reader α) (s : List Char) : Option α := (read s).toOption.map Read.value

theorem exists_reads_of_value? {read : Reader α} {value : α} (h : value? read s = some value) :
    ∃ rest, Reads (read s) value rest := by
  unfold value? at h
  cases hread : read s with
  | error e =>
    rw [hread] at h
    cases h
  | ok x =>
    rw [hread] at h
    cases h
    exact ⟨x.rest, reads_ok.2 ⟨rfl, rfl⟩⟩

theorem means_value? {read : Reader α}
    (h : ∀ {s rest : List Char} {value : α}, Reads (read s) value rest →
      Reads (skipValue s) () rest) : Means read (value? read) := by
  intro s rest value hread
  refine ⟨h hread, ?_⟩
  obtain ⟨_, hread⟩ := hread.eq_ok
  rw [value?, hread]
  rfl

/-- A text that holds one value means what the value means. -/
theorem Means.of_readText {read : Reader α} {meaning? : List Char → Option α}
    (h : Means read meaning?) {text : String} {value : α} (hread : readText read text = .ok value) :
    meaning? text.toList = some value := by
  unfold readText at hread
  split at hread
  · cases hread
  · next x hx =>
    split_ifs at hread
    cases hread
    exact (h (.of_eq_ok hx)).2

theorem means_readReal : Means readReal (value? readReal) := by
  refine means_value? fun h => ?_
  obtain ⟨n, hn, -⟩ := reads_map.1 h
  exact reads_skipValue_of_readNumeric hn

theorem means_readWord32 : Means readWord32 (value? readWord32) :=
  means_value? reads_skipValue_of_readWord32

/-- A record means what its parts mean. -/
theorem Record.means {record : Record β} {m : Parts (List Char) → Option α} {f : α → β}
    (hlist : ∀ s rest value, Reads (record.ofList s) value rest →
      ∃ items, Reads (readItems here true s) items rest ∧ (m (.ofItems items)).map f = some value)
    (hobject : ∀ s rest value, Reads (record.ofObject s) value rest →
      ∃ members, Reads (readMembers readString noteMember true [] s) members rest ∧
        (m (.ofMembers members)).map f = some value) :
    Means record.read fun s => ((parts? s).bind m).map f := by
  intro s rest value h
  unfold Record.read at h
  split at h
  · exact (not_reads_error h).elim
  · next c hc =>
    have hnext : Reads (nextChar s) c.value c.rest := by simp [hc]
    dsimp only [parts?]
    split_ifs at h with hbracket hbrace
    · rw [hbracket] at hnext
      obtain ⟨items, hitems, hvalue⟩ := hlist _ _ _ (Read.reads_thenRead.1 h)
      refine ⟨reads_skipValueIn_iff.2 ⟨'[', c.rest, hnext, ?_⟩, ?_⟩
      · simpa using reads_skipFirstIn_of_readItems hitems
      · rw [items?_eq_some hnext hitems]
        exact hvalue
    · rw [hbrace] at hnext
      obtain ⟨members, hmembers, hvalue⟩ := hobject _ _ _ (Read.reads_thenRead.1 h)
      refine ⟨reads_skipValueIn_iff.2 ⟨'\x7b', c.rest, hnext, ?_⟩, ?_⟩
      · simpa using reads_skipFirstIn_of_readMembers hmembers
      · rw [items?_eq_none hnext, members?_eq_some hnext hmembers]
        exact hvalue
    · exact (not_reads_error h).elim

/-! ### Parts of a list -/

section List

variable {xs : List (List Char)}

theorem nextItem_of_closing {r : List Char} (h : Reads (nextChar s) ']' r) (first : Bool) :
    nextItem first s = .ok none := by
  obtain ⟨shorter, h⟩ := h.eq_some
  rw [nextItem, h]
  rfl

/-- Where a list is closed no items are left. -/
theorem readItems_of_close {part : Part α s} {value : α} (h : Reads part.close value rest) :
    Reads (readItems here false part.2.rest) [] rest ∧ part.1 = value := by
  obtain ⟨_, hclose, hvalue⟩ := reads_map.1 (Tail.reads_thenRead.1 h)
  have hnext := nextItem_of_closing (reads_closeList_iff.1 hclose) false
  exact ⟨reads_readItems_iff.2 (.inl ⟨hnext, hclose, rfl⟩), hvalue⟩

/-- An item that a list may lack is its first item, and the others stay. -/
theorem readItems_of_itemOr {missing : α} {item : Reader α} {meaning? : List Char → Option α}
    (hitem : Means item meaning?) {found : Nat} {part : Part α s}
    (h : itemOr missing item found s = .ok part)
    (hothers : Reads (readItems here false part.2.rest) xs rest) :
    ∃ items, Reads (readItems here (found == 0) s) items rest ∧ items.tail = xs ∧
      ∀ name, ∃ value?, (Parts.ofItems items).read? meaning? name 0 = some value? ∧
        part.1 = value?.getD missing := by
  unfold itemOr readItem? at h
  cases hnext : nextItem (found == 0) s with
  | error e =>
    rw [hnext] at h
    cases h
  | ok t? =>
    rw [hnext] at h
    cases t? with
    | none =>
      cases h
      obtain ⟨r, hr⟩ := next_of_nextItem_none hnext
      rcases reads_readItems_iff.1 hothers with ⟨-, hclose, rfl⟩ | ⟨t, _, _, _, hsome, -⟩
      · exact ⟨[], reads_readItems_iff.2 (.inl ⟨hnext, hclose, rfl⟩), rfl,
          fun _ => ⟨none, rfl, rfl⟩⟩
      · cases (nextItem_of_closing hr false).symm.trans hsome
    | some t =>
      dsimp only at h
      cases hread : t.thenRead item with
      | error e =>
        rw [hread] at h
        cases h
      | ok x =>
        rw [hread] at h
        cases h
        obtain ⟨hskip, hmeaning⟩ := hitem (Tail.reads_thenRead.1 (.of_eq_ok hread))
        refine ⟨t.rest :: xs, reads_readItems_iff.2 (.inr ⟨t, t.rest, x.rest, xs, hnext,
          reads_here_iff.2 ⟨hskip, rfl⟩, hothers, rfl⟩), rfl, fun _ => ⟨some x.value, ?_, rfl⟩⟩
        show (meaning? t.rest).map some = _
        rw [hmeaning]
        rfl

end List

/-! ### Parts of an object -/

/-- What is read of an object says what the members say that are kept of it, if each member adds to
both the same. -/
theorem exists_reads_noteMember {field : σ → String → Except String (Reader σ)}
    {R : σ → List (String × List Char) → Prop}
    (hstep : ∀ state next members name read s rest, R state members →
      field state name = .ok read → Reads (read s) next rest →
        Reads (skipValue s) () rest ∧ R next ((name, s) :: members))
    {first : Bool} {state last : σ} {members : List (String × List Char)} {s rest : List Char}
    (hagrees : R state members) (h : Reads (readMembers readString field first state s) last rest) :
    ∃ noted, Reads (readMembers readString noteMember first members s) noted rest ∧
      R last noted := by
  rcases reads_readMembers_iff.1 h with ⟨hnext, hclose, rfl⟩ |
    ⟨t, name, colon, read, value, next, more, hnext, hname, hread, hcolon, hvalue, hmore⟩
  · exact ⟨members, reads_readMembers_iff.2 (.inl ⟨hnext, hclose, rfl⟩), hagrees⟩
  · obtain ⟨hskip, hagrees⟩ := hstep _ _ _ _ _ _ _ hagrees hread hvalue
    have hshorter := shorter_of_member hname hcolon hskip
    obtain ⟨noted, hnoted, hagrees⟩ := exists_reads_noteMember hstep hagrees hmore
    refine ⟨noted, reads_readMembers_iff.2 (.inr ⟨t, name, colon, _, value,
      (name, value) :: members, more, hnext, hname, rfl, hcolon, ?_, hnoted⟩), hagrees⟩
    exact reads_map.2 ⟨value, reads_here_iff.2 ⟨hskip, rfl⟩, rfl⟩
termination_by s.length

/-- A member that means nothing is passed over. -/
theorem reads_of_ignoreField {state next : σ} {read : Reader σ}
    (hread : ignoreField state = .ok read) (h : Reads (read s) next rest) :
    Reads (skipValue s) () rest ∧ next = state := by
  cases hread
  obtain ⟨_, hskip, rfl⟩ := reads_map.1 h
  exact ⟨hskip, rfl⟩

/-- A member that may come once says what its value means. -/
theorem reads_of_setOnce {name : String} {old : Option α} {item : Reader α}
    {meaning? : List Char → Option α} (hitem : Means item meaning?) {set : α → σ} {next : σ}
    {read : Reader σ} (hread : setOnce name old item set = .ok read)
    (h : Reads (read s) next rest) :
    Reads (skipValue s) () rest ∧ ∃ value, meaning? s = some value ∧ next = set value := by
  unfold setOnce at hread
  split_ifs at hread
  cases hread
  obtain ⟨value, hvalue, rfl⟩ := reads_map.1 h
  obtain ⟨hskip, hmeaning⟩ := hitem hvalue
  exact ⟨hskip, value, hmeaning, rfl⟩

end DrillPost.Json

import DrillPost.Proofs.Json.Parts
import DrillPost.Proofs.Json.Pretty

/-!
# Compact trees are read

`ReadsCompact` says which value a reader takes where a tree is written without blanks. Lists are
read item by item (`ReadsCompact.list`), pairs likewise (`reads_pair`), and objects member by member
(`ReadsObject.cons`, `ReadsMembers.cons`), so records are read from their objects
(`ReadsCompact.record`). Short numbers are read as they were written (`readsCompact_readReal`).

A whole tree is read back as itself, if its brackets are not too deep
(`readsCompact_list`, `readsCompact_map`).
-/

namespace DrillPost.Json

variable {α β σ : Type} {rest : List Char}

/-- The reader takes the value where the tree is written, before anything that ends a number. -/
def ReadsCompact (read : Reader α) (tree : Tree) (value : α) : Prop :=
  ∀ rest, (∀ c ∈ rest.head?, EndsNumber c) → Reads (read (writeCompact tree ++ rest)) value rest

theorem ReadsCompact.map {read : Reader α} {tree : Tree} {value : α} (f : α → β)
    (h : ReadsCompact read tree value) : ReadsCompact (Reader.map f read) tree (f value) :=
  fun rest hrest => reads_map.2 ⟨value, h rest hrest, rfl⟩

/-- A text that is a compact tree is what the reader takes. -/
theorem ReadsCompact.readText_eq {read : Reader α} {tree : Tree} {value : α}
    (h : ReadsCompact read tree value) : readText read (compact tree) = .ok value := by
  have hread := h [] nofun
  rw [List.append_nil] at hread
  have hend : skipBlank [] = [] := rfl
  refine readText_eq_ok ?_ hend
  rw [compact, String.toList_ofList]
  exact hread

/-! ### How a tree begins -/

/-- The character begins a value. -/
def BeginsValue (c : Char) : Prop := isBlank c = false ∧ c ≠ ']'

instance (c : Char) : Decidable (BeginsValue c) := inferInstanceAs (Decidable (_ ∧ _))

theorem beginsValue_of_isDigit {c : Char} (hc : c.isDigit = true) : BeginsValue c := by
  refine ⟨isBlank_eq_false_of_isDigit hc, ?_⟩
  rintro rfl
  cases hc

/-- Digits behind a sign begin a value. -/
theorem beginsValue_signed {digits : List Char}
    (hdigits : ∃ c r, digits = c :: r ∧ c.isDigit = true) (negative : Bool) :
    ∃ c r, signText negative ++ digits = c :: r ∧ BeginsValue c := by
  obtain ⟨c, r, rfl, hc⟩ := hdigits
  cases negative with
  | true => exact ⟨'-', c :: r, rfl, by decide⟩
  | false => exact ⟨c, r, rfl, beginsValue_of_isDigit hc⟩

theorem exists_writeCompact_eq_cons (tree : Tree) :
    ∃ c r, writeCompact tree = c :: r ∧ BeginsValue c := by
  cases tree with
  | null => exact ⟨'n', _, by rw [writeCompact]; rfl, by decide⟩
  | bool b =>
    rw [writeCompact, scalar]
    cases b with
    | true => exact ⟨'t', _, rfl, by decide⟩
    | false => exact ⟨'f', _, rfl, by decide⟩
  | int n =>
    obtain ⟨c, r, hcons⟩ :=
      List.exists_cons_of_ne_nil (Nat.toDigits_ne_nil (b := 10) (n := n.natAbs))
    have hc : c.isDigit = true :=
      Nat.isDigit_of_mem_toDigits (by decide) (by decide) (hcons ▸ List.mem_cons_self)
    have hsign : (if n < 0 then ['-'] else []) = signText (decide (n < 0)) := by
      simp [signText]
    rw [writeCompact, scalar, hsign]
    exact beginsValue_signed ⟨c, r, hcons, hc⟩ _
  | real x =>
    rw [writeCompact, scalar]
    cases x with
    | nan => exact ⟨'n', _, rfl, by decide⟩
    | infinite negative =>
      show ∃ c r, "null".toList = c :: r ∧ _
      exact ⟨'n', _, rfl, by decide⟩
    | finite negative x =>
      rw [toList_write]
      exact beginsValue_signed (isWritten_printed x).isSpelled.exists_text_eq_cons negative
  | text s => exact ⟨'"', _, by rw [writeCompact]; rfl, by decide⟩
  | list items =>
    cases items with
    | nil => exact ⟨'[', _, by rw [writeCompact], by decide⟩
    | cons item items => exact ⟨'[', _, by rw [writeCompact], by decide⟩
  | map members =>
    cases members with
    | nil => exact ⟨'\x7b', _, by rw [writeCompact], by decide⟩
    | cons m members => exact ⟨'\x7b', _, by rw [writeCompact], by decide⟩

/-! ### Numbers -/

theorem writeCompact_real (negative : Bool) (x : Magnitude) :
    writeCompact (.real (.finite negative x)) = signText negative ++ (printed x).text := by
  rw [writeCompact, scalar, toList_write]

theorem readsCompact_readReal {x : Binary64} (h : IsShort x) :
    ReadsCompact readReal (.real x) x := by
  cases x with
  | nan => cases h
  | infinite negative => cases h
  | finite negative x =>
    intro rest hrest
    have hread := gives_readNumeric (isWritten_printed x).isSpelled "f64" negative
      (List.forall_mem_nil _) hrest
    rw [number?_printed_of_isShort h] at hread
    rw [writeCompact_real, List.append_assoc]
    exact reads_map.2 ⟨_, hread, rfl⟩

/-! ### Lists -/

/-- What follows the bracket of a list. -/
def itemsText : List Tree → List Char
  | [] => [']']
  | item :: items => writeCompact item ++ writeItems items

theorem writeCompact_list (items : List Tree) :
    writeCompact (.list items) = '[' :: itemsText items := by
  cases items with
  | nil => rw [writeCompact, itemsText]
  | cons item items => rw [writeCompact, itemsText]

theorem nextItem_first {c : Char} (hc : BeginsValue c) (r : List Char) :
    ∃ t, nextItem true (c :: r) = .ok (some t) ∧ t.rest = c :: r := by
  obtain ⟨shorter, hnext⟩ := (reads_nextChar_cons hc.1 r).eq_some
  rw [nextItem, hnext]
  dsimp only
  rw [if_neg hc.2, if_pos rfl]
  exact ⟨_, rfl, rfl⟩

theorem nextItem_comma {c : Char} (hc : BeginsValue c) (r : List Char) :
    ∃ t, nextItem false (',' :: c :: r) = .ok (some t) ∧ t.rest = c :: r := by
  obtain ⟨shorter, hnext⟩ := (reads_nextChar_cons hc.1 r).eq_some
  obtain ⟨shorter', hcomma⟩ := (reads_nextChar_cons (c := ',') (by decide) (c :: r)).eq_some
  rw [nextItem, hcomma]
  dsimp only
  rw [if_neg (by decide), if_neg (by decide), if_pos rfl, hnext]
  dsimp only
  rw [if_neg hc.2]
  exact ⟨_, rfl, rfl⟩

theorem reads_closeList (rest : List Char) : Reads (closeList (']' :: rest)) () rest :=
  reads_closeList_iff.2 (reads_nextChar_cons (by decide) rest)

theorem reads_readItems_nil (item : Reader α) (first : Bool) (rest : List Char) :
    Reads (readItems item first (']' :: rest)) [] rest := by
  have hnext := nextItem_of_closing (reads_nextChar_cons (c := ']') (by decide) rest) first
  exact reads_readItems_iff.2 (.inl ⟨hnext, reads_closeList rest, rfl⟩)

/-- What follows an item ends a number. -/
theorem endsNumber_writeItems (items : List Tree) (rest : List Char) :
    ∀ c ∈ (writeItems items ++ rest).head?, EndsNumber c := by
  cases items with
  | nil =>
    rw [writeItems]
    exact forall_mem_head?_cons (by decide) _
  | cons item items =>
    rw [writeItems]
    exact forall_mem_head?_cons (by decide) _

variable {item : Reader α} {trees : List Tree} {values : List α}

theorem reads_writeItems (h : List.Forall₂ (ReadsCompact item) trees values) (rest : List Char) :
    Reads (readItems item false (writeItems trees ++ rest)) values rest := by
  induction h with
  | nil =>
    rw [writeItems]
    exact reads_readItems_nil item false rest
  | @cons tree value trees values hfirst hothers ih =>
    have hread := hfirst (writeItems trees ++ rest) (endsNumber_writeItems trees rest)
    obtain ⟨c, r, htree, hc⟩ := exists_writeCompact_eq_cons tree
    rw [htree] at hread
    rw [writeItems, htree, List.cons_append, List.append_assoc]
    obtain ⟨t, hnext, ht⟩ := nextItem_comma hc (r ++ (writeItems trees ++ rest))
    rw [List.cons_append, ← ht] at hread
    exact reads_readItems_iff.2 (.inr ⟨t, value, _, values, hnext, hread, ih, rfl⟩)

theorem reads_itemsText (h : List.Forall₂ (ReadsCompact item) trees values) (rest : List Char) :
    Reads (readItems item true (itemsText trees ++ rest)) values rest := by
  cases h with
  | nil => exact reads_readItems_nil item true rest
  | @cons tree value trees values hfirst hothers =>
    have hread := hfirst (writeItems trees ++ rest) (endsNumber_writeItems trees rest)
    obtain ⟨c, r, htree, hc⟩ := exists_writeCompact_eq_cons tree
    rw [htree] at hread
    rw [itemsText, htree, List.append_assoc]
    obtain ⟨t, hnext, ht⟩ := nextItem_first hc (r ++ (writeItems trees ++ rest))
    rw [List.cons_append, ← ht] at hread
    exact reads_readItems_iff.2
      (.inr ⟨t, value, _, values, hnext, hread, reads_writeItems hothers rest, rfl⟩)

theorem ReadsCompact.list (h : List.Forall₂ (ReadsCompact item) trees values) :
    ReadsCompact (readList item) (.list trees) values := by
  intro rest _
  obtain ⟨shorter, hnext⟩ :=
    (reads_nextChar_cons (c := '[') (by decide) (itemsText trees ++ rest)).eq_some
  rw [writeCompact_list, List.cons_append, readList, hnext]
  dsimp only
  rw [if_pos rfl]
  exact Read.reads_thenRead.2 (reads_itemsText h rest)

/-! ### Objects -/

/-- What follows the brace of an object. -/
def membersText : List (String × Tree) → List Char
  | [] => ['\x7d']
  | (name, value) :: members => quote name ++ ':' :: (writeCompact value ++ writeMembers members)

theorem writeCompact_map (members : List (String × Tree)) :
    writeCompact (.map members) = '\x7b' :: membersText members := by
  cases members with
  | nil => rw [writeCompact, membersText]
  | cons m members => rw [writeCompact, membersText]

/-- What the members of an object make of a state, up to the end of the object. -/
def ReadsObject (field : σ → String → Except String (Reader σ)) (state : σ)
    (members : List (String × Tree)) (last : σ) : Prop :=
  ∀ rest, Reads (readMembers readString field true state (membersText members ++ rest)) last rest

/-- What the members after a member make of a state, up to the end of the object. -/
def ReadsMembers (field : σ → String → Except String (Reader σ)) (state : σ)
    (members : List (String × Tree)) (last : σ) : Prop :=
  ∀ rest, Reads (readMembers readString field false state (writeMembers members ++ rest)) last rest

section Members

variable {field : σ → String → Except String (Reader σ)} {state next last : σ} {name : String}
  {value : Tree} {members : List (String × Tree)} {read : Reader σ}

theorem ReadsObject.nil (field : σ → String → Except String (Reader σ)) (state : σ) :
    ReadsObject field state [] state :=
  fun rest => gives_readMembers_last (List.forall_mem_nil _) rest readString field true state

theorem ReadsMembers.nil (field : σ → String → Except String (Reader σ)) (state : σ) :
    ReadsMembers field state [] state := by
  intro rest
  rw [writeMembers]
  exact gives_readMembers_last (List.forall_mem_nil _) rest readString field false state

/-- What follows the value of a member ends a number. -/
theorem endsNumber_writeMembers (members : List (String × Tree)) (rest : List Char) :
    ∀ c ∈ (writeMembers members ++ rest).head?, EndsNumber c := by
  cases members with
  | nil =>
    rw [writeMembers]
    exact forall_mem_head?_cons (by decide) _
  | cons m members =>
    rw [writeMembers]
    exact forall_mem_head?_cons (by decide) _

/-- A member sets the state for those after it. -/
theorem reads_readMembers_member {first : Bool} {s : List Char} {t : Tail s}
    (hnext : nextMember first s = .ok (some t))
    (ht : t.rest = name.toList.flatMap escape ++ '"' :: ':' ::
      (writeCompact value ++ (writeMembers members ++ rest)))
    (hfield : field state name = .ok read) (hvalue : ReadsCompact read value next)
    (hmore : ReadsMembers field next members last) :
    Reads (readMembers readString field first state s) last rest := by
  have hkey := reads_readString name (':' ::
    (writeCompact value ++ (writeMembers members ++ rest)))
  rw [← ht] at hkey
  exact reads_readMembers_iff.2 (.inr ⟨t, name, _, read, _, next, _, hnext, hkey, hfield,
    reads_readColon _, hvalue _ (endsNumber_writeMembers members rest), hmore rest⟩)

theorem ReadsMembers.cons (hfield : field state name = .ok read)
    (hvalue : ReadsCompact read value next) (hmore : ReadsMembers field next members last) :
    ReadsMembers field state ((name, value) :: members) last := by
  intro rest
  have htext : writeMembers ((name, value) :: members) ++ rest =
      ',' :: ([] ++ '"' :: (name.toList.flatMap escape ++ '"' :: ':' ::
        (writeCompact value ++ (writeMembers members ++ rest)))) := by
    rw [writeMembers]
    simp [quote]
  obtain ⟨t, hnext, ht⟩ := nextMember_comma (List.forall_mem_nil _) _
  rw [htext]
  exact reads_readMembers_member hnext ht hfield hvalue hmore

theorem ReadsObject.cons (hfield : field state name = .ok read)
    (hvalue : ReadsCompact read value next) (hmore : ReadsMembers field next members last) :
    ReadsObject field state ((name, value) :: members) last := by
  intro rest
  have htext : membersText ((name, value) :: members) ++ rest =
      [] ++ '"' :: (name.toList.flatMap escape ++ '"' :: ':' ::
        (writeCompact value ++ (writeMembers members ++ rest))) := by
    rw [membersText]
    simp [quote]
  obtain ⟨t, hnext, ht⟩ := nextMember_first (List.forall_mem_nil _) _
  rw [htext]
  exact reads_readMembers_member hnext ht hfield hvalue hmore

end Members

/-- A record is what its object says. -/
theorem ReadsCompact.record {record : Record α} {members : List (String × Tree)} {value : α}
    (h : ∀ rest, Reads (record.ofObject (membersText members ++ rest)) value rest) :
    ReadsCompact record.read (.map members) value := by
  intro rest _
  obtain ⟨shorter, hnext⟩ :=
    (reads_nextChar_cons (c := '\x7b') (by decide) (membersText members ++ rest)).eq_some
  rw [writeCompact_map, List.cons_append, Record.read, hnext]
  dsimp only
  rw [if_neg (by decide), if_pos rfl]
  exact Read.reads_thenRead.2 (h rest)

/-! ### Trees -/

theorem reads_readScalar_of_beginsNumber {c : Char} {r : List Char} {n : Number}
    (hc : beginsNumber c = true) (h : Reads (readSigned (c :: r)) n rest) :
    Reads (readScalar (c :: r)) (.number n) rest := by
  rw [readSigned] at h
  rw [readScalar]
  split_ifs at h with hminus
  · obtain rfl := hminus
    exact reads_past.2 (reads_map.2 ⟨n, reads_past.1 h, rfl⟩)
  · have hdigit : c.isDigit = true := by simpa [beginsNumber, hminus] using hc
    have hletter : ∀ d, Char.isDigit d = false → c ≠ d := by
      rintro d hd rfl
      exact Bool.false_ne_true (hd.symm.trans hdigit)
    rw [if_neg (hletter _ (by decide)), if_neg (hletter _ (by decide)),
      if_neg (hletter _ (by decide)), if_neg (hletter _ (by decide)), if_neg hminus, if_pos hdigit]
    exact reads_map.2 ⟨n, h, rfl⟩

theorem readsCompact_real {x : Binary64} (h : IsShort x) (depth : Nat) :
    ReadsCompact (readTreeWithin depth) (.real x) (.real x) := by
  cases x with
  | nan => cases h
  | infinite negative => cases h
  | finite negative x =>
    intro rest hrest
    have hread := gives_readSigned (isWritten_printed x).isSpelled negative hrest
    obtain ⟨c, r, hcons, hblank, hbegins⟩ :=
      (isWritten_printed x).isSpelled.exists_signed_eq_cons negative rest
    rw [number?_printed_of_isShort h, hcons] at hread
    have hbracket : ∀ d, beginsNumber d = false → c ≠ d := by
      rintro d hd rfl
      exact Bool.false_ne_true (hd.symm.trans hbegins)
    obtain ⟨shorter, hnext⟩ := (reads_nextChar_cons hblank r).eq_some
    rw [writeCompact_real, List.append_assoc, hcons, readTreeWithin, hnext]
    dsimp only
    rw [if_neg (hbracket _ (by decide)), if_neg (hbracket _ (by decide))]
    have hscalar := reads_readScalar_of_beginsNumber hbegins hread
    exact Tail.reads_thenRead.2 (reads_map.2 ⟨_, hscalar, rfl⟩)

theorem readsCompact_list {depth : Nat} {items : List Tree}
    (h : ∀ item ∈ items, ReadsCompact (readTreeWithin depth) item item) :
    ReadsCompact (readTreeWithin (depth + 1)) (.list items) (.list items) := by
  intro rest _
  obtain ⟨shorter, hnext⟩ :=
    (reads_nextChar_cons (c := '[') (by decide) (itemsText items ++ rest)).eq_some
  rw [writeCompact_list, List.cons_append, readTreeWithin, hnext]
  dsimp only
  rw [if_pos rfl]
  have hitems := reads_itemsText (List.forall₂_same.2 h) rest
  exact Read.reads_thenRead.2 (reads_map.2 ⟨items, hitems, rfl⟩)

theorem readsMembers_addMember {read : Reader Tree} {before members : List (String × Tree)}
    (h : ∀ m ∈ members, ReadsCompact read m.2 m.2) :
    ReadsMembers (addMember read) before members (members.reverse ++ before) := by
  induction members generalizing before with
  | nil => exact .nil _ _
  | cons m members ih =>
    obtain ⟨hm, hmembers⟩ := List.forall_mem_cons.1 h
    rw [List.reverse_cons, List.append_assoc]
    exact .cons rfl (hm.map _) (ih hmembers)

theorem readsCompact_map {depth : Nat} {members : List (String × Tree)}
    (h : ∀ m ∈ members, ReadsCompact (readTreeWithin depth) m.2 m.2) :
    ReadsCompact (readTreeWithin (depth + 1)) (.map members) (.map members) := by
  intro rest _
  obtain ⟨shorter, hnext⟩ :=
    (reads_nextChar_cons (c := '\x7b') (by decide) (membersText members ++ rest)).eq_some
  rw [writeCompact_map, List.cons_append, readTreeWithin, hnext]
  dsimp only
  rw [if_neg (by decide), if_pos rfl]
  have hmembers : ReadsObject (addMember (readTreeWithin depth)) [] members members.reverse := by
    cases members with
    | nil => exact .nil _ _
    | cons m members =>
      obtain ⟨hm, hmembers⟩ := List.forall_mem_cons.1 h
      rw [List.reverse_cons]
      exact .cons rfl (hm.map _) (readsMembers_addMember hmembers)
  refine Read.reads_thenRead.2 (reads_map.2 ⟨members.reverse, hmembers rest, ?_⟩)
  rw [List.reverse_reverse]

end DrillPost.Json

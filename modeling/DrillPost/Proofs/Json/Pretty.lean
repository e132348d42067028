import DrillPost.Json.Kind
import DrillPost.Proofs.Json.Printed
import DrillPost.Proofs.Json.Text

/-!
# Pretty trees are read

`GivesTree` says what a reader makes of a tree that is written with every member on a line of its
own. Numbers and texts are read where they are written (`givesTree_readReal`,
`givesTree_readWord32`, `givesTree_readText?`), and the members of an object one after another
(`givesObject_cons`, `givesMembers_cons`), so a record is read from its object (`givesTree_read`).
-/

namespace DrillPost.Json

variable {α β σ : Type} {rest : List Char} {depth : Nat}

/-- What the reader makes of the tree, after any blanks and before anything that ends a number. -/
def GivesTree (read : Reader α) (depth : Nat) (tree : Tree) (value? : Option α) : Prop :=
  ∀ blanks rest, (∀ c ∈ blanks, isBlank c = true) → (∀ c ∈ rest.head?, EndsNumber c) →
    Gives (read (blanks ++ (writePretty depth tree ++ rest))) value? rest

theorem GivesTree.map {read : Reader α} {tree : Tree} {value? : Option α} (f : α → β)
    (h : GivesTree read depth tree value?) :
    GivesTree (Reader.map f read) depth tree (value?.map f) :=
  fun blanks rest hblanks hrest => (h blanks rest hblanks hrest).map f

/-! ### Numbers -/

theorem givesTree_readReal {x : Binary64} (hx : x.isFinite = true) (depth : Nat) :
    GivesTree readReal depth (.real x) (reread? x) := by
  cases x with
  | nan => cases hx
  | infinite negative => cases hx
  | finite negative x =>
    intro blanks rest hblanks hrest
    have hread := gives_readNumeric (isWritten_printed x).isSpelled "f64" negative hblanks hrest
    have htext : writePretty depth (.real (.finite negative x)) ++ rest =
        signText negative ++ ((printed x).text ++ rest) := by
      rw [writePretty, scalar, toList_write, List.append_assoc]
    rw [htext]
    exact hread.map Number.toBinary64

/-- A whole number of sixty-four bits is kept as it is. -/
theorem number?_whole {n : Nat} (hn : n < UInt64.size) :
    Literal.number? ⟨Nat.toDigits 10 n, [], none⟩ false = some (.int n) := by
  have htake : takeDigits 0 (Nat.toDigits 10 n) = (n, []) := by
    have hvalue : Nat.ofDigitChars 10 (Nat.toDigits 10 n) 0 = n := Nat.ofDigitChars_ten_toDigits
    rw [takeDigits_eq (by rwa [hvalue]), hvalue]
  unfold Literal.number? Literal.value Literal.significand
  dsimp only
  rw [htake]
  rfl

theorem givesTree_readWord32 (n : UInt32) (depth : Nat) :
    GivesTree readWord32 depth (.int n.toNat) (some n) := by
  intro blanks rest hblanks hrest
  have hread := gives_readNumeric (isWritten_whole n.toNat).isSpelled "u32" false hblanks hrest
  rw [number?_whole (Nat.lt_trans n.toNat_lt (by decide))] at hread
  have htext : writePretty depth (.int n.toNat) ++ rest =
      signText false ++ (Literal.text ⟨Nat.toDigits 10 n.toNat, [], none⟩ ++ rest) := by
    rw [writePretty, scalar, if_neg (Int.not_lt.2 (Int.natCast_nonneg _)), Int.natAbs_natCast,
      Literal.text]
    exact congrArg (· ++ rest) (List.append_nil _).symm
  rw [htext]
  obtain ⟨shorter, hread⟩ := hread.eq_ok
  have hrange : 0 ≤ (n.toNat : Int) ∧ (n.toNat : Int) < UInt32.size :=
    ⟨Int.natCast_nonneg _, Int.ofNat_lt.2 n.toNat_lt⟩
  refine ⟨shorter, ?_⟩
  rw [readWord32, hread]
  dsimp only
  rw [if_pos hrange]
  simp only [Read.map, Int.toNat_natCast, Nat.toUInt32_eq, UInt32.ofNat_toNat]
  rfl

/-! ### Texts -/

theorem givesTree_readText? (expected : String) (s : String) (depth : Nat) :
    GivesTree (readText? expected) depth (.text s) (some (some s)) := by
  intro blanks rest hblanks _
  have htext : writePretty depth (.text s) ++ rest =
      '"' :: (s.toList.flatMap escape ++ '"' :: rest) := by
    rw [writePretty, scalar, quote, List.cons_append, List.append_assoc, List.singleton_append]
  rw [htext]
  obtain ⟨shorter, hnext⟩ := (reads_nextChar hblanks (c := '"') (by decide)
    (s.toList.flatMap escape ++ '"' :: rest)).eq_some
  rw [readText?, hnext]
  dsimp only
  rw [if_neg (by decide), if_pos rfl]
  have hread : Gives (readString (s.toList.flatMap escape ++ '"' :: rest)) (some s) rest :=
    reads_readString s rest
  exact Gives.andThen (hread.map some)

/-! ### Objects -/

/-- What follows the bracket of an object. -/
def objectText (depth : Nat) : List (String × Tree) → List Char
  | [] => ['\x7d']
  | (name, value) :: members =>
    newline depth ++ quote name ++
      ':' :: ' ' :: (writePretty (depth + 1) value ++ writePrettyMembers depth members)

theorem writePretty_map (depth : Nat) (members : List (String × Tree)) :
    writePretty depth (.map members) = '\x7b' :: objectText depth members := by
  cases members with
  | nil => rw [writePretty, objectText]
  | cons m members => rw [writePretty, objectText]

/-- What the reader makes of an object after its bracket. -/
def GivesObject (read : Reader α) (depth : Nat) (members : List (String × Tree))
    (value? : Option α) : Prop :=
  ∀ rest, Gives (read (objectText depth members ++ rest)) value? rest

theorem GivesObject.map {read : Reader α} {members : List (String × Tree)} {value? : Option α}
    (f : α → β) (h : GivesObject read depth members value?) :
    GivesObject (Reader.map f read) depth members (value?.map f) :=
  fun rest => (h rest).map f

/-- A record is what its object says. -/
theorem givesTree_read {record : Record α} {members : List (String × Tree)} {value? : Option α}
    (h : GivesObject record.ofObject depth members value?) :
    GivesTree record.read depth (.map members) value? := by
  intro blanks rest hblanks _
  obtain ⟨shorter, hnext⟩ :=
    (reads_nextChar hblanks (c := '\x7b') (by decide) (objectText depth members ++ rest)).eq_some
  rw [writePretty_map, List.cons_append, Record.read, hnext]
  dsimp only
  rw [if_neg (by decide), if_pos rfl]
  exact Gives.andThen (h rest)

section Members

variable {field : σ → String → Except String (Reader σ)} {state : σ} {name : String} {value : Tree}
  {members : List (String × Tree)} {read : Reader σ} {next? : Option σ} {last? : σ → Option σ}

/-- What the members after a member add to a state, up to the end of the object. -/
def GivesMembers (field : σ → String → Except String (Reader σ)) (depth : Nat) (state : σ)
    (members : List (String × Tree)) (last? : Option σ) : Prop :=
  ∀ rest, Gives (readMembers readString field false state
    (writePrettyMembers depth members ++ rest)) last? rest

theorem isBlank_of_mem_newline {c : Char} (hc : c ∈ newline depth) : isBlank c = true := by
  rcases List.mem_cons.1 hc with rfl | hc
  · rfl
  · rw [(List.mem_replicate.1 hc).2]
    rfl

theorem givesMembers_nil (field : σ → String → Except String (Reader σ)) (depth : Nat) (state : σ) :
    GivesMembers field depth state [] (some state) := by
  intro rest
  rw [writePrettyMembers, List.append_assoc]
  exact gives_readMembers_last (fun _ => isBlank_of_mem_newline) rest readString field false state

theorem givesObject_nil (field : σ → String → Except String (Reader σ)) (depth : Nat) (state : σ) :
    GivesObject (readMembers readString field true state) depth [] (some state) :=
  fun rest => gives_readMembers_last (List.forall_mem_nil _) rest readString field true state

/-- What follows the value of a member ends a number. -/
theorem endsNumber_of_mem_head? (depth : Nat) (members : List (String × Tree)) (rest : List Char) :
    ∀ c ∈ (writePrettyMembers depth members ++ rest).head?, EndsNumber c := by
  cases members with
  | nil =>
    rw [writePrettyMembers]
    exact forall_mem_head?_cons (by decide) _
  | cons m members =>
    rw [writePrettyMembers]
    exact forall_mem_head?_cons (by decide) _

/-- A member sets the state for those after it. -/
theorem gives_readMembers_member {first : Bool} {s : List Char} {t : Tail s}
    (hnext : nextMember first s = .ok (some t))
    (ht : t.rest = name.toList.flatMap escape ++ '"' :: ':' :: ' ' ::
      (writePretty (depth + 1) value ++ (writePrettyMembers depth members ++ rest)))
    (hfield : field state name = .ok read) (hvalue : GivesTree read (depth + 1) value next?)
    (hmore : ∀ next, next? = some next → GivesMembers field depth next members (last? next)) :
    Gives (readMembers readString field first state s) (next?.bind last?) rest := by
  have hkey := reads_readString name (':' :: ' ' ::
    (writePretty (depth + 1) value ++ (writePrettyMembers depth members ++ rest)))
  rw [← ht] at hkey
  exact gives_readMembers_more hnext hkey hfield
    (hvalue [' '] _ (List.forall_mem_singleton.2 rfl) (endsNumber_of_mem_head? depth members rest))
    fun next heq => hmore next heq rest

theorem givesMembers_cons (hfield : field state name = .ok read)
    (hvalue : GivesTree read (depth + 1) value next?)
    (hmore : ∀ next, next? = some next → GivesMembers field depth next members (last? next)) :
    GivesMembers field depth state ((name, value) :: members) (next?.bind last?) := by
  intro rest
  have htext : writePrettyMembers depth ((name, value) :: members) ++ rest =
      ',' :: (newline depth ++ '"' :: (name.toList.flatMap escape ++ '"' :: ':' :: ' ' ::
        (writePretty (depth + 1) value ++ (writePrettyMembers depth members ++ rest)))) := by
    rw [writePrettyMembers]
    simp [quote]
  have hblanks : ∀ c ∈ newline depth, isBlank c = true := fun _ => isBlank_of_mem_newline
  obtain ⟨t, hnext, ht⟩ := nextMember_comma hblanks _
  rw [htext]
  exact gives_readMembers_member hnext ht hfield hvalue hmore

theorem givesObject_cons (hfield : field state name = .ok read)
    (hvalue : GivesTree read (depth + 1) value next?)
    (hmore : ∀ next, next? = some next → GivesMembers field depth next members (last? next)) :
    GivesObject (readMembers readString field true state) depth ((name, value) :: members)
      (next?.bind last?) := by
  intro rest
  have htext : objectText depth ((name, value) :: members) ++ rest =
      newline depth ++ '"' :: (name.toList.flatMap escape ++ '"' :: ':' :: ' ' ::
        (writePretty (depth + 1) value ++ (writePrettyMembers depth members ++ rest))) := by
    rw [objectText]
    simp [quote]
  have hblanks : ∀ c ∈ newline depth, isBlank c = true := fun _ => isBlank_of_mem_newline
  obtain ⟨t, hnext, ht⟩ := nextMember_first hblanks _
  rw [htext]
  exact gives_readMembers_member hnext ht hfield hvalue hmore

end Members

end DrillPost.Json

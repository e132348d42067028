/-!
# The parts of a record

A record is written as a list, in which its parts have positions, or as a map, in which they have
names. `Parts` asks for a part by both, so what a record says can be told without knowing how it is
written, nor what its parts are written in.
-/

namespace DrillPost

/-- Where the parts of a record are written, each found by its name or its position. -/
abbrev Parts (ν : Type) := (name : String) → (position : Nat) → Option ν

namespace Parts

variable {ν α : Type}

def ofItems (items : List ν) : Parts ν := fun _ position => items[position]?

/-- Of several members with one name the first counts. -/
def ofMembers (members : List (String × ν)) : Parts ν := fun name _ => members.lookup name

/-- The parts without the one of a name. -/
def without (parts : Parts ν) (name : String) : Parts ν := fun other position =>
  if other = name then none else parts other position

/-- What a part says, which nothing does where there is no such part. It fails if the part does not
say what is asked for. -/
def read? (parts : Parts ν) (meaning? : ν → Option α) (name : String) (position : Nat) :
    Option (Option α) :=
  match parts name position with
  | none => some none
  | some n => (meaning? n).map some

variable {members : List (String × ν)} {n : ν} {meaning? : ν → Option α}

@[simp] theorem read?_ofMembers_nil (name : String) (position : Nat) :
    (ofMembers []).read? meaning? name position = some none := rfl

/-- A member in front is the part with its name. -/
theorem read?_cons_self {value : α} (h : meaning? n = some value) (name : String)
    (position : Nat) :
    (ofMembers ((name, n) :: members)).read? meaning? name position = some (some value) := by
  unfold read? ofMembers
  rw [List.lookup_cons_self]
  show (meaning? n).map some = _
  rw [h]
  rfl

/-- A member in front is no part with another name. -/
theorem read?_cons_of_ne {name other : String} (h : name ≠ other) (position : Nat) :
    (ofMembers ((other, n) :: members)).read? meaning? name position =
      (ofMembers members).read? meaning? name position := by
  unfold read? ofMembers
  rw [List.lookup_cons, beq_eq_false_iff_ne.2 h]

/-- Without the first item of a list the others are one position further in front. -/
theorem read?_ofItems_tail (items : List ν) (name : String) (position : Nat) :
    (ofItems items.tail).read? meaning? name position =
      (ofItems items).read? meaning? name (position + 1) := by
  unfold read? ofItems
  rw [List.getElem?_tail]

theorem exists_of_read? {parts : Parts ν} {name : String} {position : Nat} {value : α}
    (h : parts.read? meaning? name position = some (some value)) :
    ∃ n, meaning? n = some value := by
  unfold read? at h
  split at h
  · cases h
  · next n _ =>
    obtain ⟨a, ha, heq⟩ := Option.map_eq_some_iff.1 h
    exact ⟨n, ha.trans heq⟩

theorem read?_map {β : Type} {f : α → β} {parts : Parts ν} {name : String} {position : Nat}
    {value : Option β}
    (h : parts.read? (fun n => (meaning? n).map f) name position = some value) :
    ∃ stated, parts.read? meaning? name position = some stated ∧ value = stated.map f := by
  unfold read? at h ⊢
  cases hpart : parts name position with
  | none =>
    rw [hpart] at h
    cases h
    exact ⟨none, rfl, rfl⟩
  | some n =>
    rw [hpart] at h
    obtain ⟨b, hb, rfl⟩ := Option.map_eq_some_iff.1 h
    obtain ⟨a, ha, rfl⟩ := Option.map_eq_some_iff.1 hb
    refine ⟨some a, ?_, rfl⟩
    dsimp only
    rw [ha]
    rfl

/-! ### Members with distinct names -/

/-- None of the names is that of two members. -/
def Distinct (names : List String) (members : List (String × ν)) : Prop :=
  members.Pairwise fun m n => m.1 = n.1 → m.1 ∉ names

instance (names : List String) (members : List (String × ν)) :
    Decidable (Distinct names members) :=
  inferInstanceAs (Decidable (List.Pairwise _ _))

variable {names : List String} {name : String}

/-- No later member has the name of a member in front. -/
theorem Distinct.read?_eq_none (h : Distinct names ((name, n) :: members)) (hname : name ∈ names)
    (meaning? : ν → Option α) (position : Nat) :
    (ofMembers members).read? meaning? name position = some none := by
  have hlookup : members.lookup name = none := by
    rw [List.lookup_eq_none_iff]
    intro m hm
    rw [bne_iff_ne]
    rintro rfl
    exact (List.pairwise_cons.1 h).1 m hm rfl hname
  rw [read?, ofMembers, hlookup]

/-- A member is the part with its name. -/
theorem Distinct.lookup_eq_some (h : Distinct names members) (hname : name ∈ names)
    (hmem : (name, n) ∈ members) : members.lookup name = some n := by
  induction members with
  | nil => cases hmem
  | cons m members ih =>
    obtain ⟨other, node⟩ := m
    obtain ⟨hfirst, hothers⟩ := List.pairwise_cons.1 h
    rw [List.lookup_cons]
    rcases List.mem_cons.1 hmem with heq | hlater
    · cases heq
      rw [beq_self_eq_true]
    · have hne : name ≠ other := by
        rintro rfl
        exact hfirst _ hlater rfl hname
      rw [beq_eq_false_iff_ne.2 hne]
      exact ih hothers hlater

/-- A member says something, if the part with its name does. -/
theorem Distinct.exists_of_read? {meaning? : ν → Option α} {position : Nat} {value : Option α}
    (h : Distinct names members) (hname : name ∈ names) (hmem : (name, n) ∈ members)
    (hread : (ofMembers members).read? meaning? name position = some value) :
    ∃ a, meaning? n = some a := by
  unfold read? ofMembers at hread
  rw [h.lookup_eq_some hname hmem] at hread
  obtain ⟨a, ha, -⟩ := Option.map_eq_some_iff.1 hread
  exact ⟨a, ha⟩

/-- An item says something, if the part at its position does. -/
theorem exists_of_read?_ofItems {meaning? : ν → Option α} {items : List ν} {position : Nat}
    {value : Option α} (hitem : items[position]? = some n)
    (hread : (ofItems items).read? meaning? name position = some value) :
    ∃ a, meaning? n = some a := by
  unfold read? ofItems at hread
  rw [hitem] at hread
  obtain ⟨a, ha, -⟩ := Option.map_eq_some_iff.1 hread
  exact ⟨a, ha⟩

end Parts

end DrillPost

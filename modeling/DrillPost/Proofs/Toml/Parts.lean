import DrillPost.Proofs.Tree.Parts
import DrillPost.Toml.Kind

/-!
# The parts of a node

The parts of a list or a table are at hand in its node. A record means what its parts mean
(`Record.means`): the items of a list are looked up by their positions (`read?_of_itemOr`), and the
members of a table add up to what they say (`of_addMembers`).
-/

namespace DrillPost

theorem exists_of_map_eq_ok {ε α β : Type} {x : Except ε α} {f : α → β} {value : β}
    (h : x.map f = .ok value) : ∃ a, x = .ok a ∧ value = f a := by
  cases x with
  | error e => cases h
  | ok a =>
    cases h
    exact ⟨a, rfl, rfl⟩

namespace Toml

variable {α β σ : Type} {items : List Node}

/-- A member without the place of its key. -/
def named (m : Key × Node) : String × Node := (m.1.name, m.2)

/-- The parts of a list or a table; of several members with one name the last counts. -/
def Node.parts? (n : Node) : Option (Parts Node) :=
  match n.items? with
  | some items => some (.ofItems items)
  | none => n.members?.map fun members => .ofMembers (members.map named).reverse

/-- Whatever is accepted means the value that it is accepted as. -/
def Means (meaning : Meaning α) (meaning? : Node → Option α) : Prop :=
  ∀ {n : Node} {value : α}, meaning n = .ok value → meaning? n = some value

theorem means_toOption (meaning : Meaning α) : Means meaning fun n => (meaning n).toOption := by
  intro n value h
  dsimp only
  rw [h]
  rfl

theorem Means.of_map {meaning : Meaning α} {meaning? : Node → Option α}
    (hmeans : Means meaning meaning?) {n : Node} {f : α → β} {value : β}
    (h : (meaning n).map f = .ok value) : ∃ a, meaning? n = some a ∧ value = f a := by
  obtain ⟨a, ha, rfl⟩ := exists_of_map_eq_ok h
  exact ⟨a, hmeans ha, rfl⟩

/-- An item that a list may lack is the part at its position. -/
theorem read?_of_itemOr {missing value : α} {item : Meaning α} {meaning? : Node → Option α}
    (hitem : Means item meaning?) {position : Nat}
    (h : itemOr missing item position items = .ok value) (name : String) :
    ∃ value?, (Parts.ofItems items).read? meaning? name position = some value? ∧
      value = value?.getD missing := by
  unfold itemOr at h
  unfold Parts.read? Parts.ofItems
  cases hn : items[position]? with
  | none =>
    rw [hn] at h
    cases h
    exact ⟨none, rfl, rfl⟩
  | some n =>
    rw [hn] at h
    refine ⟨some value, ?_, rfl⟩
    dsimp only
    rw [hitem h]
    rfl

/-- What members add up to says what the members say, if each of them adds to both the same. -/
theorem of_addMembers {member : σ → String → Node → Except Fault σ}
    {R : σ → List (String × Node) → Prop}
    (hstep : ∀ state next members name n, R state members → member state name n = .ok next →
      R next ((name, n) :: members))
    {state last : σ} {before : List (String × Node)} {members : Members} (h : R state before)
    (hlast : addMembers member state members = .ok last) :
    R last ((members.map named).reverse ++ before) := by
  induction members generalizing state before with
  | nil =>
    cases hlast
    exact h
  | cons m members ih =>
    obtain ⟨key, n⟩ := m
    unfold addMembers at hlast
    split at hlast
    · cases hlast
    · next next hnext =>
      have hadded := ih (hstep _ _ _ _ _ h hnext) hlast
      rwa [List.map_cons, List.reverse_cons, List.append_assoc]

/-- A record means what its parts mean. -/
theorem Record.means {record : Record σ β} {m : Parts Node → Option α} {f : α → β}
    (hlist : ∀ items value, record.ofItems items = .ok value →
      (m (.ofItems items)).map f = some value)
    (htable : ∀ members state value, addMembers record.member record.start members = .ok state →
      record.finish state = .ok value →
        (m (.ofMembers (members.map named).reverse)).map f = some value) :
    Means record.read fun n => (n.parts?.bind m).map f := by
  intro n value h
  show (n.parts?.bind m).map f = some value
  unfold Record.read at h
  unfold Node.parts?
  split at h
  · next items hitems =>
    rw [hitems]
    split at h
    · next x hx =>
      cases h
      exact hlist _ _ hx
    · cases h
  · next members hitems hmembers =>
    rw [hitems, hmembers]
    split at h
    · next x hx =>
      cases h
      split at hx
      · next state hstate => exact htable _ _ _ hstate hx
      · cases hx
    · cases h
  · cases h

/-- A text that is a document means what the document means. -/
theorem Means.of_readText {meaning : Meaning α} {meaning? : Node → Option α}
    (h : Means meaning meaning?) {text : String} {value : α}
    (hread : readText meaning text = .ok value) : (ofText? text).bind meaning? = some value := by
  unfold readText at hread
  split at hread
  · cases hread
  · next n hn =>
    rw [hn]
    split at hread
    · next x hx =>
      cases hread
      exact h hx
    · cases hread

end Toml

end DrillPost

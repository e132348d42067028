import DrillPost.Job.Tree
import Mathlib.Data.List.Perm.Basic

/-!
# The three forms of a drill job

A drill job is a list of tool jobs, a tool job alone, or a map with tool jobs in it. `Form.Fits` says
which trees have a form without reading them, and a tree is read in a form exactly if it fits
(`DrillJob.Form.isSome_read?_iff`).

A list of tool jobs has no number in it, and a tool job that is a list begins with one
(`DrillJob.ofMany?_eq_none_of_ofTree?`). So only a map can have two forms: it is a tool job, and it
has tool jobs in it (`DrillJob.IsAmbiguous`). These are lost, because the tool job alone is tried
first; for every other tree it does not matter what is tried first (`DrillJob.forms_of_tree`).
-/

namespace DrillPost

/-! ### Trees that fit -/

namespace Tree

variable {α : Type}

def IsNumber : Tree → Prop
  | .int _ | .real _ => True
  | _ => False

/-- A list of which every item fits. -/
def IsListFitting (fits : Tree → Prop) (t : Tree) : Prop :=
  ∃ items, t = .list items ∧ ∀ item ∈ items, fits item

/-- Nothing at all, or one tree that fits. -/
def IsOptional (fits : Tree → Prop) (given : List Tree) : Prop :=
  given = [] ∨ ∃ t, given = [t] ∧ fits t

theorem isSome_real?_iff {t : Tree} : t.real?.isSome ↔ t.IsNumber := by
  cases t <;> simp [real?, IsNumber]

theorem isSome_mapM_iff {item? : Tree → Option α} {items : List Tree} :
    (items.mapM item?).isSome ↔ ∀ item ∈ items, (item? item).isSome := by
  induction items with
  | nil => simp
  | cons item items ih =>
    rw [List.mapM_cons, List.forall_mem_cons, ← ih]
    cases item? item with
    | none => simp
    | some value => cases items.mapM item? <;> simp

theorem isSome_itemsAs?_iff {item? : Tree → Option α} {fits : Tree → Prop}
    (hitem : ∀ t, (item? t).isSome ↔ fits t) (t : Tree) :
    (t.itemsAs? item?).isSome ↔ t.IsListFitting fits := by
  cases t with
  | list items =>
    show (items.mapM item?).isSome ↔ _
    simp [IsListFitting, isSome_mapM_iff, hitem]
  | _ => simp [itemsAs?, list?, IsListFitting]

theorem isSome_onlyValue?_iff (missing : α) {value? : Tree → Option α} {fits : Tree → Prop}
    (hvalue : ∀ t, (value? t).isSome ↔ fits t) (given : List Tree) :
    (onlyValue? missing value? given).isSome ↔ IsOptional fits given := by
  match given with
  | [] => simp [onlyValue?, IsOptional]
  | [t] => simp [onlyValue?, IsOptional, hvalue]
  | _ :: _ :: _ => simp [onlyValue?, IsOptional]

/-- A member with another name is not looked at. -/
theorem valuesOf_of_filter_eq {name other : String} (hne : name ≠ other)
    {members members' : List (String × Tree)}
    (h : members.filter (fun m => m.1 ≠ other) = members'.filter fun m => m.1 ≠ other) :
    valuesOf name members = valuesOf name members' := by
  have hkeep : ∀ l : List (String × Tree), l.filter (fun m => m.1 = name) =
      (l.filter fun m => m.1 ≠ other).filter fun m => m.1 = name := by
    intro l
    rw [List.filter_filter]
    refine List.filter_congr fun m _ => ?_
    by_cases hm : m.1 = name
    · simp [hm, hne]
    · simp [hm]
  rw [valuesOf, valuesOf, hkeep members, h, ← hkeep]

end Tree

open DrillPost.Tree

/-! ### Holes, segments and tool jobs -/

inductive Hole.Fits : Tree → Prop
  | pair {x y : Tree} (hx : x.IsNumber) (hy : y.IsNumber) : Fits (.list [x, y])

inductive Segment.Fits : Tree → Prop
  | items {holes : List Tree} (hholes : IsOptional (IsListFitting Hole.Fits) holes) :
      Fits (.list holes)
  | members {members : List (String × Tree)}
      (hholes : IsOptional (IsListFitting Hole.Fits) (valuesOf "holes" members)) :
      Fits (.map members)

inductive ToolJob.Fits : Tree → Prop
  | items {diameter : Tree} {segments : List Tree} (hdiameter : diameter.IsNumber)
      (hsegments : IsOptional (IsListFitting Segment.Fits) segments) :
      Fits (.list (diameter :: segments))
  | members {members : List (String × Tree)} {diameter : Tree}
      (honly : valuesOf "diameter" members = [diameter]) (hdiameter : diameter.IsNumber)
      (hsegments : IsOptional (IsListFitting Segment.Fits) (valuesOf "segments" members)) :
      Fits (.map members)

theorem Hole.isSome_ofTree?_iff (t : Tree) : (Hole.ofTree? t).isSome ↔ Hole.Fits t := by
  constructor
  · intro h
    unfold Hole.ofTree? at h
    split at h
    · split at h
      · next hx hy =>
        exact .pair (isSome_real?_iff.1 (by simp [hx])) (isSome_real?_iff.1 (by simp [hy]))
      · cases h
    · cases h
  · rintro ⟨hx, hy⟩
    obtain ⟨x, hx⟩ := Option.isSome_iff_exists.1 (isSome_real?_iff.2 hx)
    obtain ⟨y, hy⟩ := Option.isSome_iff_exists.1 (isSome_real?_iff.2 hy)
    simp [Hole.ofTree?, hx, hy]

theorem Segment.isSome_ofTree?_iff (t : Tree) : (Segment.ofTree? t).isSome ↔ Segment.Fits t := by
  have hholes := isSome_onlyValue?_iff [] (isSome_itemsAs?_iff Hole.isSome_ofTree?_iff)
  cases t with
  | list holes =>
    rw [Segment.ofTree?, Option.isSome_map, hholes]
    exact ⟨.items, fun h => by cases h; assumption⟩
  | map members =>
    rw [Segment.ofTree?, Option.isSome_map, hholes]
    exact ⟨.members, fun h => by cases h; assumption⟩
  | _ => exact ⟨nofun, nofun⟩

namespace ToolJob

theorem isSome_ofParts?_iff {diameter : Tree} {segments : List Tree} :
    (ofParts? diameter segments).isSome ↔
      diameter.IsNumber ∧ IsOptional (IsListFitting Segment.Fits) segments := by
  have hsegments := isSome_onlyValue?_iff []
    (isSome_itemsAs?_iff Segment.isSome_ofTree?_iff) segments
  rw [← isSome_real?_iff, ← hsegments, ofParts?]
  cases diameter.real? with
  | none => simp
  | some x => cases onlyValue? [] (itemsAs? Segment.ofTree?) segments <;> simp

theorem isSome_ofTree?_iff (t : Tree) : (ofTree? t).isSome ↔ Fits t := by
  constructor
  · intro h
    unfold ofTree? at h
    split at h
    · obtain ⟨hdiameter, hsegments⟩ := isSome_ofParts?_iff.1 h
      exact .items hdiameter hsegments
    · split at h
      · next honly =>
        obtain ⟨hdiameter, hsegments⟩ := isSome_ofParts?_iff.1 h
        exact .members honly hdiameter hsegments
      · cases h
    · cases h
  · intro h
    cases h with
    | items hdiameter hsegments => exact isSome_ofParts?_iff.2 ⟨hdiameter, hsegments⟩
    | members honly hdiameter hsegments =>
      rw [ofTree?, honly]
      exact isSome_ofParts?_iff.2 ⟨hdiameter, hsegments⟩

end ToolJob

/-! ### Drill jobs -/

namespace DrillJob

/-- The forms of a drill job. -/
inductive Form where
  /-- A list of tool jobs. -/
  | many
  /-- A tool job alone. -/
  | one
  /-- A map with tool jobs in it. -/
  | wrapped
deriving DecidableEq

namespace Form

/-- The drill job that a tree is in a form. -/
def read? : Form → Tree → Option DrillJob
  | .many => ofMany?
  | .one => ofOne?
  | .wrapped => ofWrapped?

/-- The tree has the form. -/
def Fits : Form → Tree → Prop
  | .many, t => IsListFitting ToolJob.Fits t
  | .one, t => ToolJob.Fits t
  | .wrapped, t => ∃ members tools, t = .map members ∧ valuesOf "tools" members = [tools] ∧
      IsListFitting ToolJob.Fits tools

theorem isSome_ofMany?_iff {t : Tree} :
    (ofMany? t).isSome ↔ IsListFitting ToolJob.Fits t := by
  rw [ofMany?, Option.isSome_map, isSome_itemsAs?_iff ToolJob.isSome_ofTree?_iff]

theorem isSome_read?_iff (form : Form) (t : Tree) : (form.read? t).isSome ↔ form.Fits t := by
  cases form with
  | many => exact isSome_ofMany?_iff
  | one =>
    show (ofOne? t).isSome ↔ ToolJob.Fits t
    rw [ofOne?, Option.isSome_map, ToolJob.isSome_ofTree?_iff]
  | wrapped =>
    show (ofWrapped? t).isSome ↔ _
    constructor
    · intro h
      unfold ofWrapped? at h
      split at h
      · next members =>
        split at h
        · next tools htools => exact ⟨members, tools, rfl, htools, isSome_ofMany?_iff.1 h⟩
        · cases h
      · cases h
    · rintro ⟨members, tools, rfl, htools, hfits⟩
      rw [ofWrapped?, htools]
      exact isSome_ofMany?_iff.2 hfits

end Form

/-- What a tree is read as when forms are tried in an order. -/
def readIn (order : List Form) (t : Tree) : Option DrillJob := order.findSome? (·.read? t)

theorem ofTree?_eq_readIn (t : Tree) : ofTree? t = readIn [.many, .one, .wrapped] t := by
  simp only [ofTree?, readIn, List.findSome?_cons, List.findSome?_nil, Form.read?]
  cases ofMany? t <;> cases ofOne? t <;> cases ofWrapped? t <;> rfl

/-- A map that is a tool job and has tool jobs in it. -/
structure IsAmbiguous (members : List (String × Tree)) : Prop where
  diameter : ∃ diameter, valuesOf "diameter" members = [diameter] ∧ diameter.IsNumber
  segments : IsOptional (IsListFitting Segment.Fits) (valuesOf "segments" members)
  tools : ∃ tools, valuesOf "tools" members = [tools] ∧ IsListFitting ToolJob.Fits tools

/-! ### Which forms exclude each other -/

/-- A tool job is no list of tool jobs: as a list it begins with a number. -/
theorem ofMany?_eq_none_of_ofTree? {t : Tree} {tool : ToolJob} (h : ToolJob.ofTree? t = some tool) :
    ofMany? t = none := by
  have hfits : ToolJob.Fits t := (ToolJob.isSome_ofTree?_iff t).1 (by simp [h])
  cases hfits with
  | members => rfl
  | @items diameter segments hdiameter =>
    have hnumber : ToolJob.ofTree? diameter = none := by
      cases diameter <;> first | rfl | cases hdiameter
    simp [ofMany?, itemsAs?, list?, hnumber]

theorem ofWrapped?_list (items : List Tree) : ofWrapped? (.list items) = none := rfl

theorem ofMany?_map (members : List (String × Tree)) : ofMany? (.map members) = none := rfl

theorem not_many_and_one {t : Tree} : ¬ (Form.many.Fits t ∧ Form.one.Fits t) := by
  rintro ⟨hmany, hone⟩
  obtain ⟨tool, htool⟩ := Option.isSome_iff_exists.1 ((ToolJob.isSome_ofTree?_iff t).2 hone)
  have hsome := Form.isSome_ofMany?_iff.2 hmany
  rw [ofMany?_eq_none_of_ofTree? htool] at hsome
  cases hsome

theorem not_many_and_wrapped {t : Tree} : ¬ (Form.many.Fits t ∧ Form.wrapped.Fits t) := by
  rintro ⟨⟨items, rfl, -⟩, members, tools, heq, -⟩
  cases heq

theorem one_and_wrapped_iff {t : Tree} :
    Form.one.Fits t ∧ Form.wrapped.Fits t ↔ ∃ members, t = .map members ∧ IsAmbiguous members := by
  constructor
  · rintro ⟨hone, members, tools, rfl, honly, htools⟩
    cases hone with
    | members hdiameters hdiameter hsegments =>
      exact ⟨members, rfl, ⟨_, hdiameters, hdiameter⟩, hsegments, tools, honly, htools⟩
  · rintro ⟨members, rfl, ⟨diameter, hdiameters, hdiameter⟩, hsegments, tools, honly, htools⟩
    exact ⟨.members hdiameters hdiameter hsegments, members, tools, rfl, honly, htools⟩

/-- Only a map can have two forms. -/
theorem exists_two_forms_iff {t : Tree} :
    (∃ f g, f ≠ g ∧ Form.Fits f t ∧ Form.Fits g t) ↔
      ∃ members, t = .map members ∧ IsAmbiguous members := by
  rw [← one_and_wrapped_iff]
  constructor
  · rintro ⟨f, g, hne, hf, hg⟩
    -- A list of tool jobs has no other form, so only the other two can meet.
    cases f <;> cases g
    case many.one => exact (not_many_and_one ⟨hf, hg⟩).elim
    case one.many => exact (not_many_and_one ⟨hg, hf⟩).elim
    case many.wrapped => exact (not_many_and_wrapped ⟨hf, hg⟩).elim
    case wrapped.many => exact (not_many_and_wrapped ⟨hg, hf⟩).elim
    case one.wrapped => exact ⟨hf, hg⟩
    case wrapped.one => exact ⟨hg, hf⟩
    all_goals exact (hne rfl).elim
  · rintro ⟨hone, hwrapped⟩
    exact ⟨.one, .wrapped, by decide, hone, hwrapped⟩

/-! ### The order of the forms -/

/-- If no two values are found, the order in which they are looked for does not matter. -/
theorem findSome?_eq_of_perm {α β : Type} {f : α → Option β} {l l' : List α} (h : l.Perm l')
    (hunique : ∀ a b, (f a).isSome → (f b).isSome → a = b) : l.findSome? f = l'.findSome? f := by
  cases hl' : l'.findSome? f with
  | none =>
    rw [List.findSome?_eq_none_iff] at hl' ⊢
    exact fun a ha => hl' a (h.mem_iff.1 ha)
  | some value =>
    obtain ⟨a, ha, hvalue⟩ := List.exists_of_findSome?_eq_some hl'
    -- In either order something is found, and there is only one place where it can be.
    have hsome : (l.findSome? f).isSome :=
      List.findSome?_isSome_iff.2 ⟨a, h.mem_iff.2 ha, by simp [hvalue]⟩
    obtain ⟨other, hother⟩ := Option.isSome_iff_exists.1 hsome
    obtain ⟨b, -, hb⟩ := List.exists_of_findSome?_eq_some hother
    obtain rfl := hunique a b (by simp [hvalue]) (by simp [hb])
    rw [hother, ← hb, hvalue]

/-- A tree that has at most one form is read as the same drill job in every order. -/
theorem readIn_eq_of_not_isAmbiguous {t : Tree}
    (h : ¬ ∃ members, t = .map members ∧ IsAmbiguous members) {order : List Form}
    (horder : order.Perm [.many, .one, .wrapped]) : readIn order t = ofTree? t := by
  rw [ofTree?_eq_readIn]
  refine findSome?_eq_of_perm horder fun f g hf hg => ?_
  by_contra hne
  rw [Form.isSome_read?_iff] at hf hg
  exact h (exists_two_forms_iff.1 ⟨f, g, hne, hf, hg⟩)

/-! ### Maps with two forms -/

/-- A map that is a tool job is that tool job alone, whatever tool jobs are in it. -/
theorem ofTree?_of_filter_eq {members members' : List (String × Tree)} {tool : ToolJob}
    (h : ToolJob.ofTree? (.map members) = some tool)
    (hothers : members'.filter (fun m => m.1 ≠ "tools") =
      members.filter fun m => m.1 ≠ "tools") :
    ofTree? (.map members') = some ⟨[tool]⟩ := by
  have hdiameter := valuesOf_of_filter_eq (show "diameter" ≠ "tools" by decide) hothers
  have hsegments := valuesOf_of_filter_eq (show "segments" ≠ "tools" by decide) hothers
  have hsame : ToolJob.ofTree? (.map members') = some tool := by
    simpa only [ToolJob.ofTree?, hdiameter, hsegments] using h
  rw [ofTree?, ofMany?_map, ofOne?, hsame]
  rfl

/-- A list has at most one of the first two forms, and a map one of the last two or both. If it has
both, it is the tool job that it is without the tool jobs in it. Every other tree is read as the
same drill job whatever form is tried first. -/
theorem forms_of_tree (t : Tree) :
    (∀ items, t = .list items →
      (ofMany? t = none ∨ ofOne? t = none) ∧ ofWrapped? t = none) ∧
    (∀ members, t = .map members → ofMany? t = none) ∧
    ((∃ f g : Form, f ≠ g ∧ (f.read? t).isSome ∧ (g.read? t).isSome) ↔
      ∃ members, t = .map members ∧ IsAmbiguous members) ∧
    (∀ members, t = .map members → IsAmbiguous members →
      ∃ tool inside, ToolJob.ofTree? t = some tool ∧ ofWrapped? t = some inside ∧
        ofTree? t = some ⟨[tool]⟩ ∧
        ∀ members', members'.filter (fun m => m.1 ≠ "tools") =
          members.filter (fun m => m.1 ≠ "tools") → ofTree? (.map members') = some ⟨[tool]⟩) ∧
    ((¬ ∃ members, t = .map members ∧ IsAmbiguous members) →
      ∀ order : List Form, order.Perm [.many, .one, .wrapped] → readIn order t = ofTree? t) := by
  refine ⟨?_, ?_, ?_, ?_, fun h order => readIn_eq_of_not_isAmbiguous h⟩
  · rintro items rfl
    refine ⟨?_, ofWrapped?_list items⟩
    cases htool : ToolJob.ofTree? (.list items) with
    | none => exact .inr (by rw [ofOne?, htool]; rfl)
    | some tool => exact .inl (ofMany?_eq_none_of_ofTree? htool)
  · rintro members rfl
    exact ofMany?_map members
  · simp only [Form.isSome_read?_iff]
    exact exists_two_forms_iff
  · rintro members rfl h
    obtain ⟨hone, hwrapped⟩ := one_and_wrapped_iff.2 ⟨members, rfl, h⟩
    obtain ⟨tool, htool⟩ := Option.isSome_iff_exists.1 ((ToolJob.isSome_ofTree?_iff _).2 hone)
    obtain ⟨inside, hinside⟩ :=
      Option.isSome_iff_exists.1 ((Form.isSome_read?_iff .wrapped _).2 hwrapped)
    exact ⟨tool, inside, htool, hinside, ofTree?_of_filter_eq htool rfl,
      fun members' => ofTree?_of_filter_eq htool⟩

/-- A tool of 3 mm with a tool of 1 mm in it. The tool in it is lost, and would be the only one if
tool jobs in a map were looked for first. -/
theorem forms_of_tree_tool_in_tool :
    let members : List (String × Tree) :=
      [("tools", .list [.list [.int 1]]), ("diameter", .int 3)]
    let outer : ToolJob := ⟨.ofInt 3, []⟩
    let inner : ToolJob := ⟨.ofInt 1, []⟩
    IsAmbiguous members ∧ ofTree? (.map members) = some ⟨[outer]⟩ ∧
      readIn [.wrapped, .many, .one] (.map members) = some ⟨[inner]⟩ ∧ inner ≠ outer := by
  intro members outer inner
  have hinner : ToolJob.Fits (.list [.int 1]) := .items trivial (.inl rfl)
  have hambiguous : IsAmbiguous members :=
    ⟨⟨_, rfl, trivial⟩, .inl rfl, _, rfl, _, rfl, by simpa using hinner⟩
  obtain ⟨tool, inside, htool, -, hread, -⟩ := (forms_of_tree _).2.2.2.1 members rfl hambiguous
  obtain rfl : outer = tool := Option.some.inj htool
  exact ⟨hambiguous, hread, rfl, by decide +kernel⟩

end DrillJob

end DrillPost

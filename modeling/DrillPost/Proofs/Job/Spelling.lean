import DrillPost.Job.Json
import DrillPost.Proofs.Json.Literal
import DrillPost.Proofs.Gcode.Word
import Mathlib.Data.List.Forall2
import Mathlib.Data.List.Perm.Basic

/-!
# Spellings of a drill job

One drill job can be written as many trees. `DrillJob.IsSpelled` says which: the tools as a list, a
map with that list in it, or a single tool alone; tools and segments as maps of their parts, in any
order and among any other members, or as lists of their parts; and whole numbers with or without a
point. Whatever the spelling, what is read is the job (`DrillJob.exists_ofTree?`).

The spellings of the parts are put together by two lemmas: one for lists
(`Tree.IsReadAs.list`), and one that finds the parts of a map wherever they stand
(`Tree.valuesOf_of_perm`).
-/

namespace DrillPost

/-! ### Equal jobs -/

/-- The same holes in the same order. -/
def Segment.Equal (s t : Segment) : Prop :=
  List.Forall₂ (fun h k => h.equal k = true) s.holes t.holes

/-- The same diameter, and the same segments in the same order. -/
structure ToolJob.Equal (t u : ToolJob) : Prop where
  diameter : t.diameter.equal u.diameter = true
  segments : List.Forall₂ Segment.Equal t.segments u.segments

/-- The same tool jobs in the same order. -/
def DrillJob.Equal (d e : DrillJob) : Prop := List.Forall₂ ToolJob.Equal d.tools e.tools

/-! ### Spellings -/

/-- The value is a whole number. -/
def Binary64.IsWhole (x : Binary64) (n : Int) : Prop :=
  ∃ negative magnitude, x = .finite negative magnitude ∧
    signedUnits negative magnitude = n * Magnitude.unitsPerOne

/-- A finite value is written as a real number, and also as an integer if it is whole. -/
inductive Binary64.IsSpelled (x : Binary64) : Tree → Prop
  | real (h : x.isFinite = true) : IsSpelled x (.real x)
  | int {n : Int} (h : x.IsWhole n) : IsSpelled x (.int n)

namespace Tree

variable {α : Type}

/-- The tree is the list of the spelled values. -/
def IsListOf (spelled : α → Tree → Prop) (values : List α) (t : Tree) : Prop :=
  ∃ items, t = .list items ∧ List.Forall₂ spelled values items

/-- The tree is the list of the spelled values, or is left out because there are none. -/
def IsListOrNone (spelled : α → Tree → Prop) (values : List α) (given : List Tree) : Prop :=
  (values = [] ∧ given = []) ∨ ∃ t, given = [t] ∧ IsListOf spelled values t

end Tree

inductive Hole.IsSpelled (h : Hole) : Tree → Prop
  | pair {x y : Tree} (hx : h.x.IsSpelled x) (hy : h.y.IsSpelled y) : IsSpelled h (.list [x, y])

inductive Segment.IsSpelled (s : Segment) : Tree → Prop
  | members {holes : List Tree} {others members : List (String × Tree)}
      (hholes : Tree.IsListOrNone Hole.IsSpelled s.holes holes)
      (hothers : ∀ m ∈ others, m.1 ≠ "holes")
      (hmembers : members.Perm (holes.map (Prod.mk "holes") ++ others)) :
      IsSpelled s (.map members)
  | items {holes : List Tree} (hholes : Tree.IsListOrNone Hole.IsSpelled s.holes holes) :
      IsSpelled s (.list holes)

inductive ToolJob.IsSpelled (t : ToolJob) : Tree → Prop
  | members {diameter : Tree} {segments : List Tree} {others members : List (String × Tree)}
      (hdiameter : t.diameter.IsSpelled diameter)
      (hsegments : Tree.IsListOrNone Segment.IsSpelled t.segments segments)
      (hothers : ∀ m ∈ others, m.1 ≠ "diameter" ∧ m.1 ≠ "segments")
      (hmembers : members.Perm
        (("diameter", diameter) :: (segments.map (Prod.mk "segments") ++ others))) :
      IsSpelled t (.map members)
  | items {diameter : Tree} {segments : List Tree} (hdiameter : t.diameter.IsSpelled diameter)
      (hsegments : Tree.IsListOrNone Segment.IsSpelled t.segments segments) :
      IsSpelled t (.list (diameter :: segments))

inductive DrillJob.IsSpelled (d : DrillJob) : Tree → Prop
  | many {t : Tree} (htools : Tree.IsListOf ToolJob.IsSpelled d.tools t) : IsSpelled d t
  | wrapped {tools : Tree} {others members : List (String × Tree)}
      (htools : Tree.IsListOf ToolJob.IsSpelled d.tools tools)
      (hothers : ∀ m ∈ others, m.1 ≠ "tools" ∧ m.1 ≠ "diameter")
      (hmembers : members.Perm (("tools", tools) :: others)) : IsSpelled d (.map members)
  | one {tool : ToolJob} {t : Tree} (htools : d.tools = [tool]) (htool : tool.IsSpelled t) :
      IsSpelled d t

/-! ### Numbers -/

namespace Binary64

theorem isWhole_ofNat {n : Nat} (hn : n < 0x20000000000000) : (ofNat n).IsWhole n := by
  obtain ⟨hnearest, hvalue⟩ := Json.nearest?_one hn
  refine ⟨_, _, Json.ofRatio_eq hnearest, ?_⟩
  have hunits := (Json.significandMagnitude n).toRat_mul_unitsPerOne
  rw [hvalue] at hunits
  rw [signedUnits, if_neg Bool.false_ne_true]
  exact_mod_cast hunits.symm

/-- A whole number is kept exactly, but for the sign of a zero. -/
theorem IsWhole.ofInt_equal {x : Binary64} {n : Int} (h : x.IsWhole n) :
    (ofInt n).equal x = true := by
  obtain ⟨negative, m, rfl, hunits⟩ := h
  have hpos : (0 : Int) < Magnitude.unitsPerOne := by exact_mod_cast Magnitude.unitsPerOne_pos
  -- A magnitude has no sign, so its units are those of the absolute value.
  have habs : m.units = n.natAbs * Magnitude.unitsPerOne := by
    have heq := congrArg Int.natAbs hunits
    rw [Int.natAbs_mul, Int.natAbs_natCast] at heq
    rw [← heq]
    cases negative <;> simp [signedUnits]
  have hvalue : m.toRat = (n.natAbs : ℚ) / (1 : ℕ) := by
    rw [Magnitude.toRat, habs, Nat.cast_mul, Nat.cast_one, div_one,
      mul_div_cancel_right₀ _ Magnitude.unitsPerOne_pos.ne']
  have hnearest : Magnitude.nearest? n.natAbs 1 = some m := by
    rw [Magnitude.nearest?_eq_some_iff Nat.one_pos, ← hvalue]
    exact m.isNearest_toRat
  rw [ofInt, Json.ofRatio_eq hnearest, equal_finite, beq_iff_eq, hunits]
  rw [signedUnits, habs]
  push_cast
  rcases lt_or_ge n 0 with hlt | hge
  · rw [if_pos (by simpa using hlt), abs_of_neg hlt]
    ring
  · rw [if_neg (by simpa using hge), abs_of_nonneg hge]

end Binary64

/-! ### Reading spelled parts -/

namespace Tree

variable {α : Type}

/-- What is read of the tree is the value. -/
def IsReadAs (read? : Tree → Option α) (equal : α → α → Prop) (value : α) (t : Tree) : Prop :=
  ∃ result, read? t = some result ∧ equal result value

/-- A list of trees that are read as values is read as the list of the values. -/
theorem IsReadAs.list {read? : Tree → Option α} {equal : α → α → Prop} {values : List α}
    {items : List Tree} (h : List.Forall₂ (IsReadAs read? equal) values items) :
    IsReadAs (itemsAs? read?) (List.Forall₂ equal) values (.list items) := by
  unfold IsReadAs itemsAs? list?
  rw [Option.bind_some]
  induction h with
  | nil => exact ⟨[], rfl, .nil⟩
  | cons hitem hitems ih =>
    obtain ⟨result, hresult, heq⟩ := hitem
    obtain ⟨results, hresults, heqs⟩ := ih
    refine ⟨result :: results, ?_, .cons heq heqs⟩
    simp [hresult, hresults]

section Lists

variable {spelled : α → Tree → Prop} {read? : Tree → Option α} {equal : α → α → Prop}
  (hread : ∀ {value t}, spelled value t → IsReadAs read? equal value t) {values : List α}

include hread

theorem IsListOf.isReadAs {t : Tree} (h : IsListOf spelled values t) :
    IsReadAs (itemsAs? read?) (List.Forall₂ equal) values t := by
  obtain ⟨items, rfl, hitems⟩ := h
  exact .list (hitems.imp fun _ _ => hread)

/-- A list that is left out is read as the empty list. -/
theorem IsListOrNone.exists_onlyValue? {given : List Tree}
    (h : IsListOrNone spelled values given) :
    ∃ results, onlyValue? [] (itemsAs? read?) given = some results ∧
      List.Forall₂ equal results values := by
  rcases h with ⟨rfl, rfl⟩ | ⟨t, rfl, ht⟩
  · exact ⟨[], rfl, .nil⟩
  · exact ht.isReadAs hread

end Lists

theorem IsListOrNone.length_le {spelled : α → Tree → Prop} {values : List α} {given : List Tree}
    (h : IsListOrNone spelled values given) : given.length ≤ 1 := by
  rcases h with ⟨-, rfl⟩ | ⟨t, rfl, -⟩ <;> simp

/-- A member that is there at most once is found wherever it stands among the others. -/
theorem valuesOf_of_perm {name : String} {given : List Tree}
    {others members : List (String × Tree)} (hlength : given.length ≤ 1)
    (hothers : ∀ m ∈ others, m.1 ≠ name)
    (h : members.Perm (given.map (Prod.mk name) ++ others)) : valuesOf name members = given := by
  have hothers : others.filter (fun m => m.1 = name) = [] := by
    simpa using fun a b hmem => hothers (a, b) hmem
  have hgiven : (given.map (Prod.mk name)).filter (fun m => m.1 = name) =
      given.map (Prod.mk name) := by
    simp
  have hperm : (valuesOf name members).Perm given := by
    have hvalues := (h.filter fun m => decide (m.1 = name)).map Prod.snd
    rw [List.filter_append, hothers, hgiven, List.append_nil, List.map_map] at hvalues
    simpa [valuesOf] using hvalues
  match given, hlength, hperm with
  | [], _, hperm => exact hperm.eq_nil
  | [t], _, hperm => exact hperm.eq_singleton

end Tree

open DrillPost.Tree

/-! ### Numbers and holes -/

theorem Binary64.IsSpelled.isReadAs {x : Binary64} {t : Tree} (h : x.IsSpelled t) :
    IsReadAs Tree.real? (fun y x => y.equal x = true) x t := by
  cases h with
  | real h => exact ⟨x, rfl, equal_self_of_isFinite h⟩
  | int h => exact ⟨_, rfl, h.ofInt_equal⟩

theorem Hole.IsSpelled.isReadAs {h : Hole} {t : Tree} (ht : h.IsSpelled t) :
    IsReadAs Hole.ofTree? (fun h k => h.equal k = true) h t := by
  obtain ⟨hx, hy⟩ := ht
  obtain ⟨x, hx, hxeq⟩ := hx.isReadAs
  obtain ⟨y, hy, hyeq⟩ := hy.isReadAs
  refine ⟨⟨x, y⟩, ?_, ?_⟩
  · rw [Hole.ofTree?, hx, hy]
  · simp [Hole.equal, hxeq, hyeq]

/-! ### Segments -/

theorem Segment.IsSpelled.isReadAs {s : Segment} {t : Tree} (h : s.IsSpelled t) :
    IsReadAs Segment.ofTree? Segment.Equal s t := by
  cases h with
  | members hholes hothers hmembers =>
    obtain ⟨holes, hread, heq⟩ := hholes.exists_onlyValue? Hole.IsSpelled.isReadAs
    refine ⟨⟨holes⟩, ?_, heq⟩
    rw [Segment.ofTree?, valuesOf_of_perm hholes.length_le hothers hmembers, hread]
    rfl
  | items hholes =>
    obtain ⟨holes, hread, heq⟩ := hholes.exists_onlyValue? Hole.IsSpelled.isReadAs
    refine ⟨⟨holes⟩, ?_, heq⟩
    rw [Segment.ofTree?, hread]
    rfl

/-! ### Tool jobs -/

namespace ToolJob

variable {t : ToolJob}

theorem exists_ofParts? {diameter : Tree} {segments : List Tree}
    (hdiameter : t.diameter.IsSpelled diameter)
    (hsegments : IsListOrNone Segment.IsSpelled t.segments segments) :
    ∃ u, ofParts? diameter segments = some u ∧ u.Equal t := by
  obtain ⟨x, hx, hxeq⟩ := hdiameter.isReadAs
  obtain ⟨l, hl, hleq⟩ := hsegments.exists_onlyValue? Segment.IsSpelled.isReadAs
  refine ⟨⟨x, l⟩, ?_, hxeq, hleq⟩
  rw [ofParts?, hx, hl]

theorem IsSpelled.isReadAs {tree : Tree} (h : t.IsSpelled tree) :
    IsReadAs ToolJob.ofTree? ToolJob.Equal t tree := by
  cases h with
  | @members diameter segments others members hdiameter hsegments hothers hmembers =>
    obtain ⟨u, hu, heq⟩ := exists_ofParts? hdiameter hsegments
    refine ⟨u, ?_, heq⟩
    have hdiameters : valuesOf "diameter" members = [diameter] := by
      apply valuesOf_of_perm (by simp) _ hmembers
      intro m hm
      rcases List.mem_append.1 hm with hm | hm
      · obtain ⟨segment, -, rfl⟩ := List.mem_map.1 hm
        simp
      · exact (hothers m hm).1
    have hsegmentLists : valuesOf "segments" members = segments := by
      have hperm := hmembers.trans List.perm_middle.symm
      apply valuesOf_of_perm hsegments.length_le _ hperm
      rintro m (_ | ⟨_, hm⟩)
      · simp
      · exact (hothers m hm).2
    simpa only [ToolJob.ofTree?, hdiameters, hsegmentLists] using hu
  | items hdiameter hsegments => exact exists_ofParts? hdiameter hsegments

end ToolJob

/-! ### Drill jobs -/

namespace DrillJob

variable {d : DrillJob}

theorem exists_ofMany? {t : Tree} (h : IsListOf ToolJob.IsSpelled d.tools t) :
    IsReadAs ofMany? DrillJob.Equal d t := by
  obtain ⟨tools, htools, heq⟩ := h.isReadAs ToolJob.IsSpelled.isReadAs
  refine ⟨⟨tools⟩, ?_, heq⟩
  rw [ofMany?, htools]
  rfl

/-- A tool job alone is never a list of tool jobs: in a list it begins with a number. -/
theorem ofMany?_eq_none {tool : ToolJob} {t : Tree} (h : tool.IsSpelled t) : ofMany? t = none := by
  cases h with
  | members => rfl
  | @items diameter segments hdiameter =>
    have hnumber : ToolJob.ofTree? diameter = none := by
      cases hdiameter <;> rfl
    simp [ofMany?, itemsAs?, list?, hnumber]

/-- Every spelling of a drill job is read as the job, from a tree and from a text. -/
theorem exists_ofTree? {t : Tree} (h : d.IsSpelled t) :
    ∃ e, ofTree? t = some e ∧ e.Equal d ∧
      ∀ text r, Json.readTree text.toList = .ok r → r.value = t → Json.skipBlank r.rest = [] →
        ofJson text = .ok e := by
  have hread : IsReadAs ofTree? DrillJob.Equal d t := by
    cases h with
    | many htools =>
      obtain ⟨e, he, heq⟩ := exists_ofMany? htools
      exact ⟨e, by simp [ofTree?, he], heq⟩
    | @wrapped tools others members htools hothers hmembers =>
      obtain ⟨e, he, heq⟩ := exists_ofMany? htools
      refine ⟨e, ?_, heq⟩
      have htools : valuesOf "tools" members = [tools] :=
        valuesOf_of_perm (by simp) (fun m hm => (hothers m hm).1) hmembers
      -- Without a diameter the map is no tool job, whatever else is in it.
      have hdiameter : valuesOf "diameter" members = [] := by
        apply valuesOf_of_perm (by simp) _ hmembers
        rintro m (_ | ⟨_, hm⟩)
        · simp
        · exact (hothers m hm).2
      have hmany : ofMany? (.map members) = none := rfl
      have hone : ofOne? (.map members) = none := by
        simp [ofOne?, ToolJob.ofTree?, hdiameter]
      simp [ofTree?, hmany, hone, ofWrapped?, htools, he]
    | one htools htool =>
      obtain ⟨u, hu, heq⟩ := htool.isReadAs
      refine ⟨⟨[u]⟩, ?_, ?_⟩
      · rw [ofTree?, ofMany?_eq_none htool, ofOne?, hu]
        rfl
      · rw [DrillJob.Equal, htools]
        exact .cons heq .nil
  obtain ⟨e, he, heq⟩ := hread
  refine ⟨e, he, heq, ?_⟩
  intro text r hr hvalue hrest
  rw [ofJson, hr]
  simp [hvalue, he, hrest]

/-- Two tool jobs in a map, with parts out of order, other members, and whole numbers as integers;
a coordinate of minus zero comes back as zero. -/
theorem exists_ofTree?_two_tools :
    let minusZero : Binary64 := .finite true .zero
    let three : Binary64 := .ofNat 3
    let ten : Binary64 := .ofNat 10
    let tenth : Binary64 := Decimal.toBinary64 false ⟨1, -1⟩
    let d : DrillJob := ⟨[⟨three, [⟨[⟨ten, minusZero⟩]⟩, ⟨[]⟩]⟩, ⟨tenth, []⟩]⟩
    let first : Tree := .map [("segments", .list [.list [.list [.list [.int 10, .int 0]]],
      .map [("depth", .null)]]), ("tools", .null), ("diameter", .int 3)]
    let t : Tree := .map [("unit", .text "mm"), ("tools", .list [first, .list [.real tenth]])]
    d.IsSpelled t ∧ ∃ e, ofTree? t = some e ∧ e.Equal d := by
  intro minusZero three ten tenth d first t
  have hzero : minusZero.IsWhole 0 := ⟨true, .zero, rfl, by decide⟩
  have hthree : three.IsWhole 3 := Binary64.isWhole_ofNat (by decide)
  have hten : ten.IsWhole 10 := Binary64.isWhole_ofNat (by decide)
  have htenth : tenth.isFinite = true := by decide +kernel
  -- From here on the numbers are not to be computed again.
  clear_value minusZero three ten tenth
  have hhole : Hole.IsSpelled ⟨ten, minusZero⟩ (.list [.int 10, .int 0]) :=
    .pair (.int hten) (.int hzero)
  have hsegment : Segment.IsSpelled ⟨[⟨ten, minusZero⟩]⟩
      (.list [.list [.list [.int 10, .int 0]]]) :=
    .items (.inr ⟨_, rfl, _, rfl, .cons hhole .nil⟩)
  have hempty : Segment.IsSpelled ⟨[]⟩ (.map [("depth", .null)]) :=
    .members (.inl ⟨rfl, rfl⟩) (by simp) (.refl _)
  have hfirst : ToolJob.IsSpelled ⟨three, [⟨[⟨ten, minusZero⟩]⟩, ⟨[]⟩]⟩ first := by
    have hperm : ∀ a b c : String × Tree, List.Perm ([a, b] ++ [c]) ([c] ++ [a, b]) :=
      fun _ _ _ => List.perm_append_comm
    exact .members (.int hthree) (.inr ⟨_, rfl, _, rfl, .cons hsegment (.cons hempty .nil)⟩)
      (by simp) (hperm _ ("tools", .null) _)
  have hsecond : ToolJob.IsSpelled ⟨tenth, []⟩ (.list [.real tenth]) :=
    .items (.real htenth) (.inl ⟨rfl, rfl⟩)
  have hspelled : d.IsSpelled t :=
    .wrapped ⟨_, rfl, .cons hfirst (.cons hsecond .nil)⟩ (by simp) (.swap _ ("unit", _) [])
  obtain ⟨e, he, heq, -⟩ := exists_ofTree? hspelled
  exact ⟨hspelled, e, he, heq⟩

end DrillJob

end DrillPost

import DrillPost.Job.Json
import DrillPost.Proofs.Json.Compact

/-!
# Jobs written in JSON

What is written in compact JSON is read back as it was, as long as its numbers are short: holes,
segments and tool jobs by their own readers, and a drill job by way of its tree
(`read_compact_toTree`). Then not even the sign of a zero is lost.

A drill job is written as an object with the list of its tools in it, and this list alone is read as
the same job.
-/

namespace DrillPost

open Json

/-! ### Short numbers -/

/-- Both coordinates are printed as short literals. -/
def Hole.IsShort (h : Hole) : Prop := Json.IsShort h.x ∧ Json.IsShort h.y

/-- All coordinates are printed as short literals. -/
def Segment.IsShort (s : Segment) : Prop := ∀ h ∈ s.holes, h.IsShort

/-- All numbers are printed as short literals. -/
def ToolJob.IsShort (t : ToolJob) : Prop :=
  Json.IsShort t.diameter ∧ ∀ s ∈ t.segments, s.IsShort

/-- All numbers are printed as short literals. -/
def DrillJob.IsShort (d : DrillJob) : Prop := ∀ t ∈ d.tools, t.IsShort

instance Hole.decidableIsShort (h : Hole) : Decidable h.IsShort :=
  inferInstanceAs (Decidable (_ ∧ _))

instance Segment.decidableIsShort (s : Segment) : Decidable s.IsShort :=
  inferInstanceAs (Decidable (∀ h ∈ s.holes, _))

instance ToolJob.decidableIsShort (t : ToolJob) : Decidable t.IsShort :=
  inferInstanceAs (Decidable (_ ∧ _))

instance DrillJob.decidableIsShort (d : DrillJob) : Decidable d.IsShort :=
  inferInstanceAs (Decidable (∀ t ∈ d.tools, _))

/-! ### Values on their own -/

section Values

variable {α : Type} {s rest : List Char}

/-- An item that a list must have is read where it stands. -/
theorem needItem_eq_ok {item : Reader α} (found : Nat) {t : Tail s} {value : α}
    (hnext : nextItem (found == 0) s = .ok (some t)) (h : Reads (item t.rest) value rest)
    (expected : String) :
    ∃ notLonger, needItem item found expected s = .ok (value, ⟨rest, notLonger⟩) := by
  obtain ⟨shorter, hread⟩ := (Tail.reads_thenRead.2 h).eq_ok
  refine ⟨Nat.le_of_lt shorter, ?_⟩
  rw [needItem, readItem?, hnext]
  dsimp only
  rw [hread]
  rfl

theorem Hole.reads_readPair {h : Hole} (hshort : h.IsShort) (rest : List Char) :
    Reads (readPair (itemsText [.real h.x, .real h.y] ++ rest)) h rest := by
  obtain ⟨c, r, hc, hbegins⟩ := exists_writeCompact_eq_cons (.real h.x)
  obtain ⟨d, q, hd, hbegins'⟩ := exists_writeCompact_eq_cons (.real h.y)
  let second := ',' :: d :: (q ++ ']' :: rest)
  have htext : itemsText [.real h.x, .real h.y] ++ rest = c :: (r ++ second) := by
    rw [itemsText, writeItems, writeItems, hc, hd]
    simp [second]
  have hx := readsCompact_readReal hshort.1 second (forall_mem_head?_cons (by decide) _)
  have hy := readsCompact_readReal hshort.2 (']' :: rest) (forall_mem_head?_cons (by decide) _)
  obtain ⟨t, hnext, ht⟩ := nextItem_first hbegins (r ++ second)
  obtain ⟨u, hnext', hu⟩ := nextItem_comma hbegins' (q ++ ']' :: rest)
  rw [hc, List.cons_append, ← ht] at hx
  rw [hd, List.cons_append, ← hu] at hy
  obtain ⟨notLonger, hfirst⟩ := needItem_eq_ok 0 hnext hx "an array of length 2"
  obtain ⟨notLonger', hsecond⟩ := needItem_eq_ok 1 hnext' hy "an array of length 2"
  rw [htext, readPair, hfirst]
  dsimp only
  rw [hsecond]
  exact Tail.reads_thenRead.2 (reads_map.2 ⟨(), reads_closeList rest, rfl⟩)

theorem Hole.readsCompact_read {h : Hole} (hshort : h.IsShort) :
    ReadsCompact Hole.read h.toTree h := by
  intro rest _
  obtain ⟨shorter, hnext⟩ := (reads_nextChar_cons (c := '[') (by decide)
    (itemsText [.real h.x, .real h.y] ++ rest)).eq_some
  rw [toTree, writeCompact_list, List.cons_append, Hole.read, hnext]
  dsimp only
  rw [if_pos rfl]
  exact Read.reads_thenRead.2 (reads_readPair hshort rest)

/-- What is written of each value in a list is read as the value. -/
theorem forall₂_map {read : Reader α} {toTree : α → Tree} {values : List α}
    (h : ∀ value ∈ values, ReadsCompact read (toTree value) value) :
    List.Forall₂ (ReadsCompact read) (values.map toTree) values := by
  rw [List.forall₂_map_left_iff]
  exact List.forall₂_same.2 h

theorem Segment.readsCompact_read {s : Segment} (hshort : s.IsShort) :
    ReadsCompact Segment.read s.toTree s := by
  have hholes : ReadsCompact (readList Hole.read) (.list (s.holes.map Hole.toTree)) s.holes :=
    .list (forall₂_map fun h hh => Hole.readsCompact_read (hshort h hh))
  have hfields : ReadsObject field none [("holes", .list (s.holes.map Hole.toTree))]
      (some s.holes) := .cons rfl (hholes.map some) (.nil _ _)
  exact .record fun rest => reads_map.2 ⟨some s.holes, hfields rest, rfl⟩

theorem ToolJob.readsCompact_read {t : ToolJob} (hshort : t.IsShort) :
    ReadsCompact ToolJob.read t.toTree t := by
  have hsegments : ReadsCompact (readList Segment.read)
      (.list (t.segments.map Segment.toTree)) t.segments :=
    .list (forall₂_map fun s hs => Segment.readsCompact_read (hshort.2 s hs))
  have hfields : ReadsObject field ⟨none, none⟩ [("diameter", .real t.diameter),
      ("segments", .list (t.segments.map Segment.toTree))] ⟨some t.diameter, some t.segments⟩ :=
    .cons rfl ((readsCompact_readReal hshort.1).map _)
      (.cons rfl (hsegments.map fun l => Fields.mk (some t.diameter) (some l)) (.nil _ _))
  refine .record fun rest => ?_
  obtain ⟨shorter, hread⟩ := (hfields rest).eq_ok
  refine ⟨shorter, ?_⟩
  show readFields _ = _
  rw [readFields, hread]
  rfl

end Values

/-! ### Trees -/

theorem Hole.readsCompact_tree {h : Hole} (hshort : h.IsShort) (depth : Nat) :
    ReadsCompact (readTreeWithin (depth + 1)) h.toTree h.toTree :=
  readsCompact_list (List.forall_mem_cons.2 ⟨readsCompact_real hshort.1 depth,
    List.forall_mem_singleton.2 (readsCompact_real hshort.2 depth)⟩)

theorem Segment.readsCompact_tree {s : Segment} (hshort : s.IsShort) (depth : Nat) :
    ReadsCompact (readTreeWithin (depth + 3)) s.toTree s.toTree := by
  refine readsCompact_map (List.forall_mem_singleton.2 (readsCompact_list ?_))
  exact List.forall_mem_map.2 fun h hh => Hole.readsCompact_tree (hshort h hh) depth

theorem ToolJob.readsCompact_tree {t : ToolJob} (hshort : t.IsShort) (depth : Nat) :
    ReadsCompact (readTreeWithin (depth + 5)) t.toTree t.toTree := by
  refine readsCompact_map (List.forall_mem_cons.2 ⟨readsCompact_real hshort.1 _,
    List.forall_mem_singleton.2 (readsCompact_list ?_)⟩)
  exact List.forall_mem_map.2 fun s hs => Segment.readsCompact_tree (hshort.2 s hs) depth

theorem DrillJob.readsCompact_tools {d : DrillJob} (hshort : d.IsShort) (depth : Nat) :
    ReadsCompact (readTreeWithin (depth + 6)) (.list (d.tools.map ToolJob.toTree))
      (.list (d.tools.map ToolJob.toTree)) := by
  refine readsCompact_list ?_
  exact List.forall_mem_map.2 fun t ht => ToolJob.readsCompact_tree (hshort t ht) depth

theorem DrillJob.readsCompact_tree {d : DrillJob} (hshort : d.IsShort) (depth : Nat) :
    ReadsCompact (readTreeWithin (depth + 7)) d.toTree d.toTree :=
  readsCompact_map (List.forall_mem_singleton.2 (readsCompact_tools hshort depth))

/-! ### Jobs of trees -/

theorem mapM_map_eq_some {α : Type} {toTree : α → Tree} {ofTree? : Tree → Option α}
    (h : ∀ a, ofTree? (toTree a) = some a) (values : List α) :
    (values.map toTree).mapM ofTree? = some values := by
  induction values with
  | nil => rfl
  | cons a values ih =>
    rw [List.map_cons, List.mapM_cons, h, ih]
    rfl

theorem Tree.itemsAs?_map {α : Type} {toTree : α → Tree} {ofTree? : Tree → Option α}
    (h : ∀ a, ofTree? (toTree a) = some a) (values : List α) :
    Tree.itemsAs? ofTree? (.list (values.map toTree)) = some values :=
  mapM_map_eq_some h values

theorem Hole.ofTree?_toTree (h : Hole) : Hole.ofTree? h.toTree = some h := rfl

theorem Segment.ofTree?_toTree (s : Segment) : Segment.ofTree? s.toTree = some s := by
  show (Tree.itemsAs? Hole.ofTree? (.list (s.holes.map Hole.toTree))).map Segment.mk = some s
  rw [Tree.itemsAs?_map Hole.ofTree?_toTree]
  rfl

theorem ToolJob.ofTree?_toTree (t : ToolJob) : ToolJob.ofTree? t.toTree = some t := by
  show ToolJob.ofParts? (.real t.diameter) [.list (t.segments.map Segment.toTree)] = some t
  rw [ToolJob.ofParts?, Tree.real?, Tree.onlyValue?, Tree.itemsAs?_map Segment.ofTree?_toTree]

namespace DrillJob

theorem ofMany?_map_toTree (d : DrillJob) :
    ofMany? (.list (d.tools.map ToolJob.toTree)) = some d := by
  rw [ofMany?, Tree.itemsAs?_map ToolJob.ofTree?_toTree]
  rfl

theorem ofTree?_tools (d : DrillJob) :
    ofTree? (.list (d.tools.map ToolJob.toTree)) = some d := by
  rw [ofTree?, ofMany?_map_toTree]
  rfl

/-- The map of a job is no list, and no tool job because it has no diameter. -/
theorem ofTree?_toTree (d : DrillJob) : ofTree? d.toTree = some d := ofMany?_map_toTree d

/-- A text that is the compact tree of a job is read as the job. -/
theorem ofJson_compact {tree : Tree} (h : ReadsCompact readTree tree tree) {d : DrillJob}
    (hd : ofTree? tree = some d) : ofJson (compact tree) = .ok d := by
  have hread := h [] nofun
  rw [List.append_nil, ← String.toList_ofList (l := writeCompact tree)] at hread
  obtain ⟨shorter, hread⟩ := hread.eq_ok
  rw [ofJson, compact, hread]
  dsimp only
  rw [hd]
  rfl

end DrillJob

/-! ### Round trips -/

/-- Jobs with short numbers are read back from their compact texts, the drill job also from the list
of its tools alone. -/
theorem read_compact_toTree (drill : DrillJob) (tool : ToolJob) (segment : Segment) (hole : Hole) :
    (drill.IsShort → DrillJob.ofJson (compact drill.toTree) = .ok drill ∧
      ∃ tools, compact drill.toTree = "\x7b\"tools\":" ++ tools ++ "\x7d" ∧
        DrillJob.ofJson tools = .ok drill) ∧
    (tool.IsShort → readText ToolJob.read (compact tool.toTree) = .ok tool) ∧
    (segment.IsShort → readText Segment.read (compact segment.toTree) = .ok segment) ∧
    (hole.IsShort → readText Hole.read (compact hole.toTree) = .ok hole) := by
  refine ⟨fun h => ⟨?_, ?_⟩, fun h => (ToolJob.readsCompact_read h).readText_eq,
    fun h => (Segment.readsCompact_read h).readText_eq,
    fun h => (Hole.readsCompact_read h).readText_eq⟩
  · exact DrillJob.ofJson_compact (DrillJob.readsCompact_tree h 120) drill.ofTree?_toTree
  · refine ⟨compact (.list (drill.tools.map ToolJob.toTree)), ?_,
      DrillJob.ofJson_compact (DrillJob.readsCompact_tools h 121) drill.ofTree?_tools⟩
    rw [← String.toList_inj]
    simp [compact, DrillJob.toTree, writeCompact_map, membersText, writeMembers, quote, escape]

/-- Zeros keep their signs, and numbers may have exponents. -/
theorem read_compact_toTree_exponents :
    let hole : Hole := ⟨.finite true .zero, .ofRatio false 1 1000000⟩
    let segment : Segment := ⟨[hole, ⟨.ofNat 3, .ofRatio true 1 8⟩]⟩
    let tool : ToolJob := ⟨.ofNat 10000000000000000000000, [segment, ⟨[]⟩]⟩
    let drill : DrillJob := ⟨[tool, ⟨.zero, []⟩]⟩
    DrillJob.ofJson (compact drill.toTree) = .ok drill ∧
      readText ToolJob.read (compact tool.toTree) = .ok tool ∧
      readText Segment.read (compact segment.toTree) = .ok segment ∧
      readText Hole.read (compact hole.toTree) = .ok hole := by
  intro hole segment tool drill
  obtain ⟨hdrill, htool, hsegment, hhole⟩ := read_compact_toTree drill tool segment hole
  have hshort : drill.IsShort := by decide +kernel
  have hshort' : tool.IsShort := hshort tool List.mem_cons_self
  have hshort'' : segment.IsShort := hshort'.2 segment List.mem_cons_self
  exact ⟨(hdrill hshort).1, htool hshort', hsegment hshort'',
    hhole (hshort'' hole List.mem_cons_self)⟩

end DrillPost

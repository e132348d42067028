import DrillPost.Proofs.Text.Reading
import DrillPost.Proofs.Toml.Parts
import DrillPost.Toml.Document
import Mathlib.Tactic.SplitIfs

/-!
# What stands at a place

The node of a document is put together from what many lines say, but every scalar in it still means
what is read at its place in the text (`Node.isPlaced_of_ofText?`). Reading a value makes such a
node, and a change of tables only moves nodes: a change that keeps them so where a path ends keeps
them so where the path begins (`Change.Keeps.descend`).
-/

namespace DrillPost.Toml

/-- Every scalar in the node is what is read at its place. -/
inductive Node.IsPlaced : Node → Prop
  | scalar {span : Span} {value : Scalar} (h : Reads (readScalar span.start) value span.stop) :
      IsPlaced (.scalar span value)
  | array {span : Span} {items : List Node} (h : ∀ n ∈ items, n.IsPlaced) :
      IsPlaced (.array span items)
  | tables {span : Option Span} {items : List Node} (h : ∀ n ∈ items, n.IsPlaced) :
      IsPlaced (.tables span items)
  | table {origin : Origin} {span : Option Span} {members : List (Key × Node)}
      (h : ∀ m ∈ members, m.2.IsPlaced) : IsPlaced (.table origin span members)

def Members.ArePlaced (members : Members) : Prop := ∀ m ∈ members, m.2.IsPlaced

variable {α : Type} {members before after : Members} {path : List Key}

theorem Node.IsPlaced.forall_items {span : Option Span} {items : List Node}
    (h : (Node.tables span items).IsPlaced) : ∀ n ∈ items, n.IsPlaced := by
  cases h with
  | tables h => exact h

theorem Node.IsPlaced.forall_members {origin : Origin} {span : Option Span}
    (h : (Node.table origin span members).IsPlaced) : members.ArePlaced := by
  cases h with
  | table h => exact h

/-- The parts of a placed node are placed. -/
theorem Node.IsPlaced.of_parts? {n part : Node} {parts : Parts Node} {name : String}
    {position : Nat} (h : n.IsPlaced) (hparts : n.parts? = some parts)
    (hpart : parts name position = some part) : part.IsPlaced := by
  have hmembers : ∀ members : Members, members.ArePlaced →
      Parts.ofMembers (members.map named).reverse name position = some part → part.IsPlaced := by
    intro members hmembers hpart
    obtain ⟨before, after, hsplit, -⟩ := List.lookup_eq_some_iff.1 hpart
    have hmem : (name, part) ∈ (members.map named).reverse :=
      hsplit ▸ List.mem_append_right before List.mem_cons_self
    obtain ⟨m, hm, heq⟩ := List.mem_map.1 (List.mem_reverse.1 hmem)
    cases heq
    exact hmembers m hm
  cases h with
  | @scalar span value h =>
    cases value with
    | moment =>
      cases hparts
      cases hpart
    | bool | int | real | text => cases hparts
  | array h | tables h =>
    cases hparts
    exact h part (List.mem_of_getElem? hpart)
  | table h =>
    cases hparts
    exact hmembers _ h hpart

namespace Members

theorem ArePlaced.nil : ArePlaced [] := List.forall_mem_nil _

theorem arePlaced_append : ArePlaced (before ++ after) ↔ before.ArePlaced ∧ after.ArePlaced :=
  List.forall_mem_append

theorem arePlaced_cons {m : Key × Node} :
    ArePlaced (m :: members) ↔ m.2.IsPlaced ∧ members.ArePlaced :=
  List.forall_mem_cons

theorem splitAt?_eq_some {name : String} {m : Key × Node}
    (h : members.splitAt? name = some (before, m, after)) : members = before ++ m :: after := by
  induction members generalizing before with
  | nil => cases h
  | cons first members ih =>
    unfold splitAt? at h
    split_ifs at h
    · cases h
      rfl
    · obtain ⟨⟨before', found, after'⟩, hsplit, heq⟩ := Option.map_eq_some_iff.1 h
      cases heq
      rw [ih hsplit, List.cons_append]

/-- Where placed members are split, all parts are placed, and so is whatever is put in between. -/
theorem ArePlaced.split {name : String} {m : Key × Node} (h : members.ArePlaced)
    (hsplit : members.splitAt? name = some (before, m, after)) :
    m.2.IsPlaced ∧ ArePlaced (before ++ after) ∧
      ∀ key node, node.IsPlaced → ArePlaced (before ++ (key, node) :: after) := by
  rw [splitAt?_eq_some hsplit, arePlaced_append, arePlaced_cons] at h
  obtain ⟨hbefore, hm, hafter⟩ := h
  exact ⟨hm, arePlaced_append.2 ⟨hbefore, hafter⟩, fun key node hnode =>
    arePlaced_append.2 ⟨hbefore, arePlaced_cons.2 ⟨hnode, hafter⟩⟩⟩

theorem ArePlaced.concat {key : Key} {node : Node} (h : members.ArePlaced) (hnode : node.IsPlaced) :
    ArePlaced (members ++ [(key, node)]) :=
  arePlaced_append.2 ⟨h, arePlaced_cons.2 ⟨hnode, .nil⟩⟩

end Members

open Members (ArePlaced)

/-! ### Changes -/

/-- Placed members stay placed, and what is handed out is as it should be. -/
def Keeps (change : Members → Option (Members × α)) (P : α → Prop) : Prop :=
  ∀ ⦃members : Members⦄ ⦃result : Members × α⦄, members.ArePlaced →
    change members = some result → result.1.ArePlaced ∧ P result.2

theorem Keeps.changeLast {change : Members → Option (Members × α)} {P : α → Prop}
    (h : Keeps change P) {items : List Node} {result : List Node × α}
    (hitems : ∀ n ∈ items, n.IsPlaced) (hresult : changeLast change items = some result) :
    (∀ n ∈ result.1, n.IsPlaced) ∧ P result.2 := by
  fun_induction Toml.changeLast change items generalizing result with
  | case1 => cases hresult
  | case2 origin span members =>
    obtain ⟨changed, hchanged, rfl⟩ := Option.map_eq_some_iff.1 hresult
    obtain ⟨hplaced, hP⟩ := h (List.forall_mem_singleton.1 hitems).forall_members hchanged
    exact ⟨List.forall_mem_singleton.2 (.table hplaced), hP⟩
  | case3 => cases hresult
  | case4 item items _ _ ih =>
    obtain ⟨hitem, hitems⟩ := List.forall_mem_cons.1 hitems
    obtain ⟨changed, hchanged, rfl⟩ := Option.map_eq_some_iff.1 hresult
    obtain ⟨hplaced, hP⟩ := ih hitems hchanged
    exact ⟨List.forall_mem_cons.2 ⟨hitem, hplaced⟩, hP⟩

/-- What a change keeps where a path ends is kept where the path begins. -/
theorem Keeps.descend {change : Change α} {P : α → Prop}
    (h : ∀ byDottedKey, Keeps (change byDottedKey) P) (dotted : Bool) (path : List Key)
    (byDottedKey : Bool) : Keeps (descend dotted change path byDottedKey) P := by
  induction path generalizing byDottedKey with
  | nil => exact h byDottedKey
  | cons key path ih =>
    intro members result hmembers hresult
    unfold Toml.descend at hresult
    split at hresult
    · obtain ⟨inner, hinner, rfl⟩ := Option.map_eq_some_iff.1 hresult
      obtain ⟨hplaced, hP⟩ := ih _ .nil hinner
      exact ⟨hmembers.concat (.table hplaced), hP⟩
    · next before old node after hsplit =>
      obtain ⟨hnode, -, hput⟩ := hmembers.split hsplit
      dsimp only at hresult
      split at hresult
      · cases hresult
      · cases hresult
      · next span items =>
        obtain ⟨changed, hchanged, rfl⟩ := Option.map_eq_some_iff.1 hresult
        obtain ⟨hplaced, hP⟩ := (ih false).changeLast hnode.forall_items hchanged
        exact ⟨hput _ _ (.tables hplaced), hP⟩
      · next origin span inner =>
        split_ifs at hresult
        obtain ⟨changed, hchanged, rfl⟩ := Option.map_eq_some_iff.1 hresult
        obtain ⟨hplaced, hP⟩ := ih _ hnode.forall_members hchanged
        exact ⟨hput _ _ (.table hplaced), hP⟩

theorem Keeps.atHeader {change : Key → Change α} {P : α → Prop}
    (h : ∀ key byDottedKey, Keeps (change key byDottedKey) P) (path : List Key) :
    Keeps (atHeader change path) P := by
  intro members result hmembers hresult
  unfold Toml.atHeader at hresult
  split at hresult
  · cases hresult
  · exact Keeps.descend (h _) false _ false hmembers hresult

theorem keeps_addNew {viaPath byDottedKey : Bool} {key : Key} {value : Node}
    (hvalue : value.IsPlaced) : Keeps (addNew viaPath key value byDottedKey) fun _ => True := by
  intro members result hmembers hresult
  unfold addNew at hresult
  split_ifs at hresult
  cases hresult
  exact ⟨hmembers.concat hvalue, trivial⟩

theorem arePlaced_of_assign {value : Node} {result : Members} (hvalue : value.IsPlaced)
    (hmembers : members.ArePlaced) (h : assign path value members = some result) :
    result.ArePlaced := by
  unfold assign at h
  split at h
  · cases h
  · obtain ⟨changed, hchanged, rfl⟩ := Option.map_eq_some_iff.1 h
    exact (Keeps.descend (fun _ => keeps_addNew hvalue) true _ false hmembers hchanged).1

theorem keeps_takeImplied (key : Key) (byDottedKey : Bool) :
    Keeps (takeImplied key byDottedKey) ArePlaced := by
  intro members result hmembers hresult
  unfold takeImplied at hresult
  split at hresult
  · cases hresult
    exact ⟨hmembers, .nil⟩
  · next hsplit =>
    cases hresult
    obtain ⟨htable, hothers, -⟩ := hmembers.split hsplit
    exact ⟨hothers, htable.forall_members⟩
  · cases hresult

theorem keeps_putTable (key : Key) {table : Node} (htable : table.IsPlaced) (byDottedKey : Bool) :
    Keeps (putTable key table byDottedKey) fun _ => True := by
  intro members result hmembers hresult
  cases hresult
  exact ⟨hmembers.concat htable, trivial⟩

theorem keeps_openTables (key : Key) (byDottedKey : Bool) :
    Keeps (openTables key byDottedKey) fun _ => True := by
  intro members result hmembers hresult
  unfold openTables at hresult
  split at hresult
  · cases hresult
    exact ⟨hmembers.concat (.tables (List.forall_mem_nil _)), trivial⟩
  · cases hresult
    exact ⟨hmembers, trivial⟩
  · cases hresult

theorem keeps_pushTable (key : Key) {table : Node} (htable : table.IsPlaced) (byDottedKey : Bool) :
    Keeps (pushTable key table byDottedKey) fun _ => True := by
  intro members result hmembers hresult
  unfold pushTable at hresult
  split at hresult
  · next hsplit =>
    cases hresult
    obtain ⟨htables, -, hput⟩ := hmembers.split hsplit
    have hitems := List.forall_mem_append.2
      ⟨htables.forall_items, List.forall_mem_singleton.2 htable⟩
    exact ⟨hput _ _ (.tables hitems), trivial⟩
  · cases hresult

/-! ### Values -/

theorem value_of_tail_thenRead {s : List Char} {t : Tail s} {read : Reader α} {x : Read α s}
    (h : t.thenRead read = some x) : ∃ y, read t.rest = some y ∧ x.value = y.value := by
  obtain ⟨y, hy, rfl⟩ := Option.map_eq_some_iff.1 h
  exact ⟨y, hy, rfl⟩

theorem value_of_read_thenRead {β : Type} {s : List Char} {first : Read β s} {read : Reader α}
    {x : Read α s} (h : first.thenRead read = some x) :
    ∃ y, read first.rest = some y ∧ x.value = y.value := by
  obtain ⟨y, hy, rfl⟩ := Option.map_eq_some_iff.1 h
  exact ⟨y, hy, rfl⟩

section Values

variable {item : Reader Node} (hitem : ∀ s x, item s = some x → x.value.IsPlaced)

include hitem

theorem isPlaced_of_readItems {s : List Char} {x : Read (List Node) s}
    (h : readItems item s = some x) : ∀ n ∈ x.value, n.IsPlaced := by
  rw [readItems] at h
  split at h
  · cases h
  · split_ifs at h
    · cases h
      exact List.forall_mem_nil _
    · split at h
      · cases h
      · next first hfirst =>
        obtain ⟨y, hy, hvalue⟩ := value_of_tail_thenRead hfirst
        have hplaced : first.value.IsPlaced := hvalue ▸ hitem _ y hy
        split at h
        · cases h
        · next d _ =>
          split_ifs at h
          · cases h
            exact List.forall_mem_singleton.2 hplaced
          · obtain ⟨others, hothers, rfl⟩ := Option.map_eq_some_iff.1 h
            have hshorter := d.shorter
            exact List.forall_mem_cons.2 ⟨hplaced, isPlaced_of_readItems hothers⟩
termination_by s.length

theorem isPlaced_of_readMember {s : List Char} {x : Read (List Key × Node) s}
    (h : readMember item s = some x) : x.value.2.IsPlaced := by
  unfold readMember at h
  split at h
  · cases h
  · split at h
    · cases h
    · obtain ⟨y, hy, rfl⟩ := Option.map_eq_some_iff.1 h
      obtain ⟨z, hz, hvalue⟩ := value_of_read_thenRead hy
      have hplaced : y.value.IsPlaced := hvalue ▸ hitem _ z hz
      exact hplaced

theorem arePlaced_of_readMoreMembers {s : List Char} {members : Members} {x : Read Members s}
    (hmembers : members.ArePlaced) (h : readMoreMembers item members s = some x) :
    x.value.ArePlaced := by
  rw [readMoreMembers] at h
  split at h
  · cases h
  · split_ifs at h
    · cases h
      exact hmembers
    · split at h
      · cases h
      · next m hm =>
        obtain ⟨y, hy, hvalue⟩ := value_of_read_thenRead hm
        have hmember : m.value.2.IsPlaced := hvalue ▸ isPlaced_of_readMember hitem hy
        split at h
        · cases h
        · next added hadded =>
          obtain ⟨others, hothers, rfl⟩ := Option.map_eq_some_iff.1 h
          have hshorter := m.shorter
          have hplaced : others.value.ArePlaced :=
            arePlaced_of_readMoreMembers (arePlaced_of_assign hmember hmembers hadded) hothers
          exact hplaced
termination_by s.length

theorem arePlaced_of_readMembers {s : List Char} {x : Read Members s}
    (h : readMembers item s = some x) : x.value.ArePlaced := by
  unfold readMembers at h
  dsimp only at h
  split at h
  · cases h
  · split_ifs at h
    · obtain ⟨y, hy, hvalue⟩ := value_of_tail_thenRead h
      rw [hvalue]
      exact arePlaced_of_readMoreMembers hitem .nil hy
    · split at h
      · cases h
      · next m hm =>
        obtain ⟨y, hy, hmvalue⟩ := value_of_tail_thenRead hm
        have hmember : m.value.2.IsPlaced := hmvalue ▸ isPlaced_of_readMember hitem hy
        split at h
        · cases h
        · next added hadded =>
          obtain ⟨others, hothers, hvalue⟩ := value_of_read_thenRead h
          rw [hvalue]
          exact arePlaced_of_readMoreMembers hitem (arePlaced_of_assign hmember .nil hadded) hothers

end Values

theorem isPlaced_of_readValueWithin (depth : Nat) (s : List Char) (x : Read Node s)
    (h : readValueWithin depth s = some x) : x.value.IsPlaced := by
  induction depth generalizing s with
  | zero =>
    unfold readValueWithin at h
    split at h
    · cases h
    · cases h
    · obtain ⟨y, hy, rfl⟩ := Option.map_eq_some_iff.1 h
      exact .scalar ⟨y.shorter, hy⟩
  | succ depth ih =>
    unfold readValueWithin at h
    split at h
    · obtain ⟨y, hy, rfl⟩ := Option.map_eq_some_iff.1 h
      exact .array (isPlaced_of_readItems ih hy)
    · obtain ⟨y, hy, rfl⟩ := Option.map_eq_some_iff.1 h
      exact .table (arePlaced_of_readMembers ih hy)
    · obtain ⟨y, hy, rfl⟩ := Option.map_eq_some_iff.1 h
      exact .scalar ⟨y.shorter, hy⟩

/-! ### Documents -/

/-- The value that a statement gives a key is what is read at its place. -/
def Statement.IsPlaced : Statement → Prop
  | .value _ node => node.IsPlaced
  | .table .. | .item .. => True

theorem exists_of_readHeader {closing : List Char} {make : List Key → Span → Statement}
    {start s : List Char} {x : Read Statement s} (h : readHeader closing make start s = some x) :
    ∃ keys span, x.value = make keys span := by
  unfold readHeader at h
  split at h
  · cases h
  · split at h
    · cases h
    · obtain ⟨t, -, rfl⟩ := Option.map_eq_some_iff.1 h
      exact ⟨_, _, rfl⟩

theorem isPlaced_of_readStatement {s : List Char} {x : Read Statement s}
    (h : readStatement s = some x) : x.value.IsPlaced := by
  unfold readStatement at h
  split at h
  · obtain ⟨y, hy, rfl⟩ := Option.map_eq_some_iff.1 h
    obtain ⟨keys, span, hvalue⟩ := exists_of_readHeader hy
    have hplaced : y.value.IsPlaced := hvalue ▸ trivial
    exact hplaced
  · obtain ⟨y, hy, rfl⟩ := Option.map_eq_some_iff.1 h
    obtain ⟨keys, span, hvalue⟩ := exists_of_readHeader hy
    have hplaced : y.value.IsPlaced := hvalue ▸ trivial
    exact hplaced
  · split at h
    · cases h
    · next m hm =>
      obtain ⟨t, -, rfl⟩ := Option.map_eq_some_iff.1 h
      have hplaced := isPlaced_of_readMember (isPlaced_of_readValueWithin maxDepth) hm
      exact hplaced

theorem isPlaced_of_readStatements {s : List Char} {statements : List Statement}
    (h : readStatements s = some statements) : ∀ x ∈ statements, x.IsPlaced := by
  rw [readStatements] at h
  split at h
  · cases h
    exact List.forall_mem_nil _
  · split_ifs at h
    · split at h
      · cases h
      · split_ifs at h with hshorter
        exact isPlaced_of_readStatements h
    · split at h
      · cases h
      · next x hx =>
        obtain ⟨y, hy, hvalue⟩ := value_of_tail_thenRead hx
        have hplaced : x.value.IsPlaced := hvalue ▸ isPlaced_of_readStatement hy
        obtain ⟨others, hothers, rfl⟩ := Option.map_eq_some_iff.1 h
        have hshorter := x.shorter
        exact List.forall_mem_cons.2 ⟨hplaced, isPlaced_of_readStatements hothers⟩
termination_by s.length

namespace Document

/-- Whatever has been said is what is read at its place. -/
structure IsPlaced (d : Document) : Prop where
  root : d.root.ArePlaced
  members : d.members.ArePlaced

variable {d e : Document}

theorem IsPlaced.finish (h : d.IsPlaced) {result : Members} (hresult : d.finish = some result) :
    result.ArePlaced := by
  unfold Document.finish at hresult
  split at hresult
  · cases hresult
    exact h.members
  · next path isItem _ =>
    obtain ⟨changed, hchanged, rfl⟩ := Option.map_eq_some_iff.1 hresult
    have htable : (Node.table .header (some d.span) d.members).IsPlaced := .table h.members
    refine (Keeps.atHeader (P := fun _ => True) (fun key byDottedKey => ?_) path h.root hchanged).1
    cases isItem with
    | true => exact keeps_pushTable key htable byDottedKey
    | false => exact keeps_putTable key htable byDottedKey

theorem IsPlaced.add (h : d.IsPlaced) {statement : Statement} (hstatement : statement.IsPlaced)
    (hadd : d.add statement = some e) : e.IsPlaced := by
  cases statement with
  | value path node =>
    obtain ⟨members, hmembers, heq⟩ := Option.bind_eq_some_iff.1 hadd
    cases heq
    exact ⟨h.root, arePlaced_of_assign hstatement h.members hmembers⟩
  | table path span =>
    obtain ⟨root, hroot, hrest⟩ := Option.bind_eq_some_iff.1 hadd
    obtain ⟨changed, hchanged, heq⟩ := Option.bind_eq_some_iff.1 hrest
    cases heq
    obtain ⟨hplaced, hmembers⟩ := Keeps.atHeader keeps_takeImplied path (h.finish hroot) hchanged
    exact ⟨hplaced, hmembers⟩
  | item path span =>
    obtain ⟨root, hroot, hrest⟩ := Option.bind_eq_some_iff.1 hadd
    obtain ⟨changed, hchanged, heq⟩ := Option.bind_eq_some_iff.1 hrest
    cases heq
    exact ⟨(Keeps.atHeader keeps_openTables path (h.finish hroot) hchanged).1, .nil⟩

theorem IsPlaced.foldlM_add (h : d.IsPlaced) {statements : List Statement}
    (hstatements : ∀ x ∈ statements, x.IsPlaced) (he : statements.foldlM Document.add d = some e) :
    e.IsPlaced := by
  induction statements generalizing d with
  | nil =>
    cases he
    exact h
  | cons statement statements ih =>
    obtain ⟨hstatement, hstatements⟩ := List.forall_mem_cons.1 hstatements
    obtain ⟨next, hnext, he⟩ := Option.bind_eq_some_iff.1 he
    exact ih (h.add hstatement hnext) hstatements he

end Document

/-- Every scalar of a document is what is read at its place. -/
theorem Node.isPlaced_of_ofText? {text : String} {n : Node} (h : ofText? text = some n) :
    n.IsPlaced := by
  unfold ofText? at h
  dsimp only at h
  split at h
  · cases h
  · next statements hstatements =>
    split at h
    · cases h
    · next d hd =>
      obtain ⟨members, hmembers, rfl⟩ := Option.map_eq_some_iff.1 h
      have hempty : (Document.empty text.toList).IsPlaced := ⟨.nil, .nil⟩
      have hplaced := hempty.foldlM_add (isPlaced_of_readStatements hstatements) hd
      exact .table (hplaced.finish hmembers)

end DrillPost.Toml

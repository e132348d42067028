import DrillPost.Proofs.Files.Naming
import Mathlib.Tactic.SplitIfs

/-!
# Paths of names inside directories

Paths can be written in many ways: slashes may be doubled, and a single dot names nothing unless it
begins the path. `Path.components` is what is left of a path when this is taken away, and paths with
the same components are the same. A path is inside a directory (`Path.IsInside`) if it has a file
name and its parent is the same path as the directory. That is what a name is that follows the
directory (`Path.BeginsPiece.isInside_append`).

What follows the file name of a path is a trail of slashes and dots (`Path.IsTrail`). The file name
and the parent are what they are without it (`Path.Alike.of_trail`), and so is the path without its
extension (`Path.BeginsPiece.withoutExtension_append`), unless its stem is a dot: then the trail
tells how many dots are left.
-/

namespace DrillPost

namespace Path

variable {before last name stem tail : Bytes} {p q directory : Path}

/-! ### Components -/

/-- A piece that names nothing where it does not begin a path. -/
def IsBlankPiece (piece : Bytes) : Prop := piece = [] ∨ piece = [dot]

/-- The pieces that name something. -/
def named (pieces : List Bytes) : List Bytes :=
  pieces.filter fun piece => piece ≠ [] ∧ piece ≠ [dot]

/-- The head of a path and the pieces after it that name something. -/
def components (p : Path) : Bytes × List Bytes :=
  (p.head, named (splitSlash (p.bytes.drop p.head.length)))

theorem named_append (pieces more : List Bytes) :
    named (pieces ++ more) = named pieces ++ named more :=
  List.filter_append ..

theorem named_eq_nil {pieces : List Bytes} (h : ∀ piece ∈ pieces, IsBlankPiece piece) :
    named pieces = [] := by
  apply List.filter_eq_nil_iff.2
  intro piece hpiece
  rcases h piece hpiece with rfl | rfl <;> simp

theorem named_splitSlash_append (a b : Bytes) :
    named (splitSlash (a ++ slash :: b)) = named (splitSlash a) ++ named (splitSlash b) := by
  rw [splitSlash_append_slash, named_append]

theorem named_trimPieces (pieces : List Bytes) : named (trimPieces pieces) = named pieces := by
  obtain ⟨rest, hrest, hblank⟩ := exists_append_trimPieces pieces
  have hnamed := congrArg named hrest
  rw [named_append, named_eq_nil hblank, List.append_nil] at hnamed
  exact hnamed.symm

theorem slash_not_mem_of_mem_splitSlash {b piece : Bytes} (h : piece ∈ splitSlash b) :
    slash ∉ piece := by
  induction b generalizing piece with
  | nil => simp_all [splitSlash]
  | cons c b ih =>
    rw [splitSlash] at h
    split at h
    · simp_all
    · next first rest hsplit =>
      rw [hsplit] at ih
      split_ifs at h with hc
      · rcases List.mem_cons.1 h with rfl | h
        · exact List.not_mem_nil
        · exact ih h
      · rcases List.mem_cons.1 h with rfl | h
        · have hfirst := ih List.mem_cons_self
          simp [hfirst, Ne.symm hc]
        · exact ih (List.mem_cons_of_mem _ h)

theorem splitSlash_joinSlash {pieces : List Bytes} (hne : pieces ≠ [])
    (h : ∀ piece ∈ pieces, slash ∉ piece) : splitSlash (joinSlash pieces) = pieces := by
  induction pieces with
  | nil => exact absurd rfl hne
  | cons piece pieces ih =>
    rw [List.forall_mem_cons] at h
    cases pieces with
    | nil => simpa [joinSlash] using splitSlash_eq_singleton h.1
    | cons next pieces =>
      have hcons : next :: pieces ≠ [] := List.cons_ne_nil next pieces
      rw [joinSlash_cons hcons, splitSlash_append_slash, splitSlash_eq_singleton h.1,
        ih hcons h.2, List.singleton_append]

/-! ### Heads -/

/-- The head is found in front of the first slash that is not the first byte. -/
theorem head_append_slash {a : Bytes} (hne : a ≠ []) (b : Bytes) :
    (Path.mk (a ++ slash :: b)).head = (Path.mk a).head := by
  obtain ⟨piece, pieces, hpieces⟩ := List.exists_cons_of_ne_nil (splitSlash_ne_nil a)
  have hfirst : (a ++ slash :: b).head? = a.head? := by
    cases a with
    | nil => exact absurd rfl hne
    | cons c a => rfl
  simp only [head, isAbsolute, hfirst, splitSlash_append_slash, hpieces, List.cons_append,
    List.head?_cons]

theorem length_head_le (p : Path) : p.head.length ≤ p.bytes.length := by
  have hlength := p.length_head_add
  omega

theorem drop_head_append_slash {a : Bytes} (hne : a ≠ []) (b : Bytes) :
    splitSlash ((a ++ slash :: b).drop (Path.mk (a ++ slash :: b)).head.length) =
      splitSlash (a.drop (Path.mk a).head.length) ++ splitSlash b := by
  rw [head_append_slash hne, List.drop_append_of_le_length (length_head_le ⟨a⟩),
    splitSlash_append_slash]

theorem components_append_slash {a : Bytes} (hne : a ≠ []) :
    (Path.mk (a ++ [slash])).components = (Path.mk a).components := by
  have hblank : named (splitSlash []) = [] := rfl
  rw [components, components, drop_head_append_slash hne, named_append, hblank, List.append_nil,
    head_append_slash hne]

/-- A path has no head, or it is absolute, or its first piece is a dot. -/
theorem head_cases (p : Path) :
    p.head = [] ∨ p.head = [slash] ∨ p.head = [dot] ∧ EndsPiece [dot] p.bytes := by
  unfold head
  split_ifs with habsolute hdot
  · exact .inr (.inl rfl)
  · have hbegins : [[dot]] <+: splitSlash p.bytes :=
      List.singleton_prefix_iff_head?_eq_some.2 hdot
    exact .inr (.inr ⟨rfl, endsPiece_joinSlash (List.cons_ne_nil _ _) hbegins⟩)
  · exact .inl rfl

theorem head_head (p : Path) : (Path.mk p.head).head = p.head := by
  rcases p.head_cases with h | h | ⟨h, -⟩ <;> rw [h] <;> rfl

/-- The head adds no piece that names something after the dot. -/
theorem components_snd (p : Path) : p.components.2 = named (splitSlash p.bytes) := by
  have hbytes := p.head_append_drop
  have hslash : ∀ rest, named (splitSlash (slash :: rest)) = named (splitSlash rest) :=
    named_splitSlash_append []
  show named (splitSlash (p.bytes.drop p.head.length)) = _
  rcases p.head_cases with h | h | ⟨h, hdot | ⟨rest, hdot⟩⟩
  · rw [h, List.length_nil, List.drop_zero]
  · rw [h, List.singleton_append] at hbytes
    rw [h, ← hslash, hbytes]
  · rw [h, hdot]
    rfl
  · rw [h, hdot, named_splitSlash_append]
    exact hslash rest

/-- The first pieces of a path have the head of the path. -/
theorem head_withPieces {pieces : List Bytes}
    (h : pieces <+: splitSlash (p.bytes.drop p.head.length)) :
    (p.withPieces pieces).head = p.head := by
  cases pieces with
  | nil =>
    have hnil : p.withPieces [] = ⟨p.head⟩ := by simp [withPieces, joinSlash]
    rw [hnil, head_head]
  | cons piece pieces =>
    rcases endsPiece_withPieces (List.cons_ne_nil piece pieces) h with heq | ⟨rest, heq⟩
    · exact congrArg (fun b => (Path.mk b).head) heq.symm
    · rw [withPieces] at heq
      by_cases hne : p.head ++ joinSlash (piece :: pieces) = []
      · -- The path would be absolute, and its head the slash.
        rw [hne, List.nil_append] at heq
        have hslash : p.head = [slash] := by simp [head, isAbsolute, heq]
        simp [hslash] at hne
      · rw [withPieces, ← head_append_slash hne rest, ← heq]

theorem components_withPieces {pieces : List Bytes}
    (h : pieces <+: splitSlash (p.bytes.drop p.head.length)) :
    (p.withPieces pieces).components = (p.head, named pieces) := by
  rw [components, head_withPieces h, withPieces, List.drop_left]
  cases pieces with
  | nil => rfl
  | cons piece pieces =>
    rw [splitSlash_joinSlash (List.cons_ne_nil piece pieces)]
    exact fun other hother => slash_not_mem_of_mem_splitSlash (h.subset hother)

/-! ### Names inside directories -/

/-- The path has a file name, and its parent is the directory. -/
structure IsInside (p directory : Path) (name : Bytes) : Prop where
  fileName?_eq : p.fileName? = some name
  exists_parent : ∃ parent, p.parent? = some parent ∧ parent.components = directory.components

theorem trimPieces_concat (init : List Bytes) (hne : last ≠ []) (hdot : last ≠ [dot]) :
    trimPieces (init ++ [last]) = init ++ [last] := by
  simp [trimPieces, hne, hdot]

/-- What pieces end in after the blank ones are taken away is no blank piece. -/
theorem not_isBlankPiece_of_getLast? {pieces : List Bytes}
    (h : (trimPieces pieces).getLast? = some last) : ¬ IsBlankPiece last := by
  rw [trimPieces, List.getLast?_reverse] at h
  have hnot := List.head?_dropWhile_not (fun piece => piece == [] || piece == [dot]) pieces.reverse
  rw [h] at hnot
  simpa [IsBlankPiece] using hnot

/-- Two dots, or one, are not a file name. -/
theorem isDots_of_fileName? (h : p.fileName? = some name) : isDots name = false := by
  obtain ⟨hlast, hdots⟩ := Option.filter_eq_some_iff.1 h
  have hblank := not_isBlankPiece_of_getLast? hlast
  rw [IsBlankPiece, not_or] at hblank
  simpa [isDots, hblank.2] using hdots

theorem exists_parent? (h : p.fileName? = some name) : ∃ parent, p.parent? = some parent := by
  have hpieces : p.pieces ≠ [] := by
    intro hnil
    rw [fileName?, hnil] at h
    cases h
  exact ⟨_, if_pos hpieces⟩

namespace BeginsPiece

theorem head_eq (h : BeginsPiece before) (hslash : slash ∉ last) (hdot : last ≠ [dot]) :
    (Path.mk before).head = (Path.mk (before ++ last)).head := by
  obtain ⟨rest, -, hbefore⟩ := h.exists_head_append hslash hdot
  obtain rfl | ⟨init, rfl⟩ := h
  · have hnil : (Path.mk ([] ++ last)).head = [] := (List.append_eq_nil_iff.1 hbefore.symm).1
    rw [hnil]
    rfl
  · rw [List.append_assoc, List.singleton_append]
    by_cases hne : init = []
    · subst hne
      simp [head, isAbsolute]
    · rw [head_append_slash hne, head_append_slash hne]

/-- The pieces of a path that ends in a piece are those of what stands before it, and it. -/
theorem exists_split (h : BeginsPiece before) (hslash : slash ∉ last) (hdot : last ≠ [dot]) :
    ∃ init, splitSlash (before.drop (Path.mk before).head.length) = init ++ [[]] ∧
      splitSlash ((before ++ last).drop (Path.mk (before ++ last)).head.length) =
        init ++ [last] := by
  obtain ⟨rest, hrest, hbefore⟩ := h.exists_head_append hslash hdot
  obtain ⟨init, hinit⟩ := hrest.exists_splitSlash
  have hnil := hinit [] List.not_mem_nil
  rw [List.append_nil] at hnil
  refine ⟨init, ?_, ?_⟩
  · rw [h.head_eq hslash hdot, ← hnil]
    generalize (Path.mk (before ++ last)).head = head at hbefore ⊢
    rw [hbefore, List.drop_left]
  · rw [← hinit last hslash]
    generalize (Path.mk (before ++ last)).head = head at hbefore ⊢
    rw [hbefore, List.append_assoc, List.drop_left]

/-- The parent of a path that ends in a name is what stands before the name, without the blank
pieces at its end. -/
theorem exists_parent?_append (h : BeginsPiece before) (hslash : slash ∉ last) (hne : last ≠ [])
    (hdot : last ≠ [dot]) :
    ∃ parent, (Path.mk (before ++ last)).parent? = some parent ∧
      parent.components = (Path.mk before).components ∧ parent.bytes <+: before := by
  obtain ⟨init, hinit, hsplit⟩ := h.exists_split hslash hdot
  have hhead := h.head_eq hslash hdot
  have hpieces : (Path.mk (before ++ last)).pieces = init ++ [last] := by
    rw [pieces, hsplit, trimPieces_concat init hne hdot]
  have hparent : (Path.mk (before ++ last)).parent? =
      some ((Path.mk before).withPieces (trimPieces init)) := by
    simp [parent?, hpieces, withPieces, hhead]
  have hstarts : trimPieces init <+:
      splitSlash (before.drop (Path.mk before).head.length) := by
    rw [hinit]
    exact (isPrefix_trimPieces init).trans (List.prefix_append init [[]])
  have hblank : named [[]] = [] := rfl
  refine ⟨_, hparent, ?_, isPrefix_withPieces hstarts⟩
  rw [components_withPieces hstarts, named_trimPieces, components, hinit, named_append, hblank,
    List.append_nil]

theorem isInside_append (h : BeginsPiece before) (hslash : slash ∉ last) (hne : last ≠ [])
    (hdots : isDots last = false)
    (hdirectory : (Path.mk before).components = directory.components) :
    IsInside ⟨before ++ last⟩ directory last := by
  obtain ⟨hdot, hdots⟩ : last ≠ [dot] ∧ last ≠ [dot, dot] := by simpa [isDots] using hdots
  obtain ⟨parent, hparent, hcomponents, -⟩ := h.exists_parent?_append hslash hne hdot
  refine ⟨?_, parent, hparent, hcomponents.trans hdirectory⟩
  rw [h.fileName?_append hslash hne hdot, if_neg hdots]

end BeginsPiece

/-- What stands before a joined name is the directory. -/
theorem exists_join_components (directory : Path) :
    ∃ before, BeginsPiece before ∧ (Path.mk before).components = directory.components ∧
      directory.bytes <+: before ∧
      ∀ name, slash ∉ name → directory.join ⟨name⟩ = ⟨before ++ name⟩ := by
  obtain ⟨before, hbefore, rfl | ⟨hne, rfl⟩, hjoin⟩ := directory.exists_join_bytes
  · exact ⟨_, hbefore, rfl, List.prefix_rfl, hjoin⟩
  · exact ⟨_, hbefore, components_append_slash hne, List.prefix_append _ _, hjoin⟩

/-! ### Trails -/

/-- Slashes, and dots between them and at the end. -/
inductive IsTrail : Bytes → Prop
  | nil : IsTrail []
  | concat {tail piece : Bytes} (h : IsTrail tail) (hpiece : IsBlankPiece piece) :
      IsTrail (tail ++ slash :: piece)

theorem IsBlankPiece.take {piece : Bytes} (h : IsBlankPiece piece) (n : Nat) :
    IsBlankPiece (piece.take n) := by
  rcases h with rfl | rfl
  · exact .inl (List.take_nil ..)
  · cases n with
    | zero => exact .inl rfl
    | succ n => exact .inr (congrArg (dot :: ·) (List.take_nil ..))

/-- A trail may be cut anywhere. -/
theorem IsTrail.take (h : IsTrail tail) (n : Nat) : IsTrail (tail.take n) := by
  induction h with
  | nil =>
    rw [List.take_nil]
    exact .nil
  | @concat tail piece h hpiece ih =>
    rw [List.take_append]
    cases hn : n - tail.length with
    | zero =>
      rw [List.take_zero, List.append_nil]
      exact ih
    | succ m =>
      rw [List.take_of_length_le (by omega), List.take_succ_cons]
      exact h.concat (hpiece.take m)

/-- The paths have one head and the same pieces, up to the last that names something. -/
structure Alike (p q : Path) : Prop where
  head_eq : p.head = q.head
  pieces_eq : p.pieces = q.pieces

namespace Alike

theorem fileName?_eq (h : Alike p q) : p.fileName? = q.fileName? := by
  rw [fileName?, fileName?, h.pieces_eq]

theorem parent?_eq (h : Alike p q) : p.parent? = q.parent? := by
  simp only [parent?, withPieces, h.head_eq, h.pieces_eq]

theorem endAtStem_eq (h : Alike p q) (hstem : q.stem? = some stem) :
    p.endAtStem = q.endAtStem := by
  have hsame : p.stem? = q.stem? := by rw [stem?, stem?, h.fileName?_eq]
  simp only [endAtStem, hsame, hstem, withPieces, h.head_eq, h.pieces_eq]

/-- A trail changes neither the head nor the pieces. -/
theorem of_trail {a : Bytes} (hne : a ≠ []) (htail : IsTrail tail) :
    Alike ⟨a ++ tail⟩ ⟨a⟩ := by
  induction htail with
  | nil => rw [List.append_nil]; exact ⟨rfl, rfl⟩
  | @concat tail piece _ hpiece ih =>
    have hne' : a ++ tail ≠ [] := List.append_ne_nil_of_left_ne_nil hne tail
    have hslash : slash ∉ piece := by rcases hpiece with rfl | rfl <;> decide
    rw [← List.append_assoc]
    refine ⟨(head_append_slash hne' piece).trans ih.head_eq, ?_⟩
    rw [← ih.pieces_eq, pieces, pieces, drop_head_append_slash hne', splitSlash_eq_singleton hslash]
    rcases hpiece with rfl | rfl <;> simp [trimPieces]

end Alike

/-- A path with a file name ends in it, and in a trail after it. -/
theorem exists_fileName?_append (h : p.fileName? = some name) :
    ∃ before tail, p = ⟨before ++ (name ++ tail)⟩ ∧ BeginsPiece before ∧ slash ∉ name ∧
      name ≠ [] ∧ IsTrail tail := by
  obtain ⟨bytes⟩ := p
  induction hlength : bytes.length using Nat.strongRecOn generalizing bytes with
  | ind length ih =>
  obtain ⟨before, last, rfl, hbefore, hslash⟩ := exists_lastPiece bytes
  by_cases hblank : IsBlankPiece last
  · obtain rfl | ⟨a, rfl⟩ := hbefore
    · -- Nothing stands before a last piece that names nothing.
      rcases hblank with rfl | rfl <;> cases h
    rw [List.append_assoc, List.singleton_append] at h ⊢
    by_cases hne : a = []
    · subst hne
      rcases hblank with rfl | rfl <;> cases h
    · have halike := Alike.of_trail hne (IsTrail.nil.concat hblank)
      rw [List.nil_append] at halike
      rw [halike.fileName?_eq] at h
      have hshorter : a.length < length := by
        rw [← hlength]
        simp only [List.length_append, List.length_cons]
        omega
      obtain ⟨before, tail, hpath, hbegins, hname, hnonempty, htail⟩ := ih _ hshorter a h rfl
      obtain rfl : a = before ++ (name ++ tail) := congrArg Path.bytes hpath
      exact ⟨before, tail ++ slash :: last, by simp, hbegins, hname, hnonempty,
        htail.concat hblank⟩
  · rw [IsBlankPiece, not_or] at hblank
    rw [hbefore.fileName?_append hslash hblank.1 hblank.2] at h
    split_ifs at h
    cases h
    exact ⟨before, [], by simp, hbefore, hslash, hblank.1, .nil⟩

/-- What stands before the file name of a path that ends in it begins a piece. -/
theorem beginsPiece_of_fileName? (h : (Path.mk (before ++ name)).fileName? = some name) :
    BeginsPiece before ∧ slash ∉ name ∧ name ≠ [] := by
  obtain ⟨front, tail, hpath, hfront, hslash, hne, htail⟩ := exists_fileName?_append h
  have hbytes : before ++ name = front ++ (name ++ tail) := congrArg Path.bytes hpath
  refine ⟨?_, hslash, hne⟩
  cases htail with
  | nil =>
    rw [List.append_nil] at hbytes
    rwa [List.append_cancel_right hbytes]
  | @concat tail piece _ hpiece =>
    -- The name would end in a piece that names nothing.
    have hname : name <:+ before ++ name := List.suffix_append before name
    have htrail : slash :: piece <:+ before ++ name := by
      rw [hbytes, ← List.append_assoc, ← List.append_assoc]
      exact List.suffix_append _ _
    rcases List.suffix_or_suffix_of_suffix htrail hname with hends | hends
    · exact absurd (hends.subset List.mem_cons_self) hslash
    · have hdots := isDots_of_fileName? h
      rcases List.suffix_cons_iff.1 hends with rfl | hends
      · exact absurd List.mem_cons_self hslash
      · rcases hpiece with rfl | rfl
        · exact absurd (List.suffix_nil.1 hends) hne
        · rcases List.suffix_cons_iff.1 hends with rfl | hends
          · cases hdots
          · exact absurd (List.suffix_nil.1 hends) hne

/-! ### Extensions -/

theorem splitExtension_append (hne : stem ≠ []) {extension : Bytes} (h : dot ∉ extension) :
    splitExtension (stem ++ dot :: extension) = (stem, some extension) := by
  have hreverse : (stem ++ dot :: extension).reverse = extension.reverse ++ dot :: stem.reverse := by
    simp
  have hall : ∀ b ∈ extension.reverse, decide (b ≠ dot) = true := by
    intro b hb
    apply decide_eq_true
    rintro rfl
    exact h (List.mem_reverse.1 hb)
  have hafter : (stem ++ dot :: extension).reverse.takeWhile (fun b => decide (b ≠ dot)) =
      extension.reverse := by
    rw [hreverse, List.takeWhile_append_of_pos hall]
    simp
  have hbefore : (stem ++ dot :: extension).reverse.dropWhile (fun b => decide (b ≠ dot)) =
      dot :: stem.reverse := by
    rw [hreverse, List.dropWhile_append_of_pos hall]
    simp
  rw [splitExtension, hafter, hbefore]
  simp [hne]

/-- A name with an extension is two dots only where its stem is one and nothing follows the other. -/
theorem isDots_append_dot (hne : stem ≠ []) (rest : Bytes) :
    isDots (stem ++ dot :: rest) = false ↔ ¬ (stem = [dot] ∧ rest = []) := by
  cases stem with
  | nil => exact absurd rfl hne
  | cons b stem => cases stem <;> simp [isDots]

/-- A path that ends in its stem, or in the stem and an extension, is cut after the stem, whatever
follows the file name. -/
theorem BeginsPiece.endAtStem_append_trail (hbefore : BeginsPiece before) (hslash : slash ∉ name)
    (hne : name ≠ []) (hdots : isDots name = false) (htail : IsTrail tail)
    (hstem : (splitExtension name).1 = stem) (hbegins : stem <+: name) :
    (Path.mk (before ++ (name ++ tail))).endAtStem = ⟨before ++ stem⟩ := by
  obtain ⟨hdot, hdots⟩ : name ≠ [dot] ∧ name ≠ [dot, dot] := by simpa [isDots] using hdots
  have halike := Alike.of_trail (List.append_ne_nil_of_right_ne_nil before hne) htail
  rw [List.append_assoc] at halike
  have hfile := hbefore.fileName?_append hslash hne hdot
  rw [if_neg hdots] at hfile
  have hstem? : (Path.mk (before ++ name)).stem? = some stem := by
    rw [stem?, hfile, Option.map_some, hstem]
  rw [halike.endAtStem_eq hstem?]
  exact hbefore.endAtStem_append hslash hne hdot hdots hstem hbegins

/-- Two dots are no file name, so no stem is found in them. -/
theorem BeginsPiece.endAtStem_dots (hbefore : BeginsPiece before) :
    (Path.mk (before ++ [dot, dot])).endAtStem = ⟨before ++ [dot, dot]⟩ := by
  rw [endAtStem, stem?, hbefore.fileName?_append (by decide) (by decide) (by decide)]
  rfl

/-- As many bytes as the extension has are cut off the end of a path: from the trail after the file
name first, and then from the extension. -/
theorem take_length_sub (before stem extension tail : Bytes) :
    (before ++ (stem ++ dot :: extension ++ tail)).take
        ((before ++ (stem ++ dot :: extension ++ tail)).length - extension.length) =
      before ++ (stem ++ dot :: extension.take tail.length ++
        tail.take (tail.length - extension.length)) := by
  have hassoc : before ++ (stem ++ dot :: extension ++ tail) =
      (before ++ stem ++ [dot]) ++ (extension ++ tail) := by simp
  have hlength : (before ++ (stem ++ dot :: extension ++ tail)).length - extension.length =
      (before ++ stem ++ [dot]).length + tail.length := by
    simp only [List.length_append, List.length_cons, List.length_nil]
    omega
  rw [hlength, hassoc, List.take_length_add_append, List.take_append]
  simp

/-- Without its extension a path is cut after its stem, whatever follows the file name. Where the
stem is a dot and nothing follows, the dot before the extension stays, and the path ends in two. -/
theorem BeginsPiece.withoutExtension_append (hbefore : BeginsPiece before)
    (hslash : slash ∉ name) (hne : name ≠ []) (hdots : isDots name = false) (htail : IsTrail tail)
    (hstem : (splitExtension name).1 = stem) :
    (Path.mk (before ++ (name ++ tail))).withoutExtension =
      ⟨before ++ if stem = [dot] ∧ tail = [] then [dot, dot] else stem⟩ := by
  obtain ⟨hdot, hdots'⟩ : name ≠ [dot] ∧ name ≠ [dot, dot] := by simpa [isDots] using hdots
  have hfile : (Path.mk (before ++ (name ++ tail))).fileName? = some name := by
    have halike := Alike.of_trail (List.append_ne_nil_of_right_ne_nil before hne) htail
    rw [List.append_assoc] at halike
    rw [halike.fileName?_eq, hbefore.fileName?_append hslash hne hdot, if_neg hdots']
  rw [withoutExtension, extension?, hfile, Option.bind_some]
  cases hsplit : splitExtension name with
  | mk first extension? =>
  rw [hsplit] at hstem
  obtain rfl : stem = first := hstem.symm
  cases extension? with
  | none =>
    obtain rfl := splitExtension_eq_none hsplit
    rw [if_neg fun h => hdot h.1]
    simp only [Option.getD_none, List.length_nil, Nat.sub_zero, List.take_length]
    exact hbefore.endAtStem_append_trail hslash hne hdots htail (by rw [hsplit]) List.prefix_rfl
  | some extension =>
    have hnonempty := stem_ne_nil hsplit
    obtain ⟨rfl, hnodot⟩ := splitExtension_eq_some hsplit
    rw [Option.getD_some, take_length_sub]
    split_ifs with h
    · obtain ⟨rfl, rfl⟩ := h
      simpa using hbefore.endAtStem_dots
    have hslash' : slash ∉ stem ++ dot :: extension.take tail.length := by
      simp only [List.mem_append, List.mem_cons, not_or] at hslash ⊢
      exact ⟨hslash.1, hslash.2.1, fun hmem => hslash.2.2 (List.mem_of_mem_take hmem)⟩
    have hnodot' : dot ∉ extension.take tail.length :=
      fun hmem => hnodot (List.mem_of_mem_take hmem)
    have hdots' : isDots (stem ++ dot :: extension.take tail.length) = false := by
      rw [isDots_append_dot hnonempty] at hdots ⊢
      rintro ⟨hone, hnothing⟩
      rcases List.take_eq_nil_iff.1 hnothing with htail | hextension
      · exact h ⟨hone, List.length_eq_zero_iff.1 htail⟩
      · exact hdots ⟨hone, hextension⟩
    apply hbefore.endAtStem_append_trail hslash' (by simp) hdots' (htail.take _)
      (by rw [splitExtension_append hnonempty hnodot']) (List.prefix_append _ _)

/-- Without its extension a path ends in a part of its last piece. What is left out begins with a
dot, or there is no dot in it. -/
theorem BeginsPiece.exists_withoutExtension (h : BeginsPiece before) (hslash : slash ∉ last)
    (hne : last ≠ []) (hdots : isDots last = false) :
    ∃ stem rest, last = stem ++ rest ∧ (rest.head? = some dot ∨ dot ∉ rest) ∧ stem ≠ [] ∧
      stem ≠ [dot] ∧ (Path.mk (before ++ last)).withoutExtension = ⟨before ++ stem⟩ := by
  cases hsplit : splitExtension last with
  | mk stem extension? =>
  have hwithout := h.withoutExtension_append hslash hne hdots .nil (congrArg Prod.fst hsplit)
  rw [List.append_nil] at hwithout
  cases extension? with
  | none =>
    obtain rfl := splitExtension_eq_none hsplit
    have hdot : stem ≠ [dot] := by
      rintro rfl
      cases hdots
    rw [if_neg fun hone => hdot hone.1] at hwithout
    exact ⟨stem, [], by simp, .inr List.not_mem_nil, hne, hdot, hwithout⟩
  | some extension =>
    have hstem := stem_ne_nil hsplit
    obtain ⟨rfl, hnodot⟩ := splitExtension_eq_some hsplit
    by_cases hone : stem = [dot]
    · subst hone
      exact ⟨[dot, dot], extension, rfl, .inr hnodot, by simp, by simp, hwithout⟩
    · rw [if_neg fun h => hone h.1] at hwithout
      exact ⟨stem, dot :: extension, rfl, .inl rfl, hstem, hone, hwithout⟩

end Path

end DrillPost

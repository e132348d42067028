import DrillPost.Proofs.Files.Resolve
import Mathlib.Logic.Relation

/-!
# Making directories and files

The directories above a path are made one after the other (`FileSystem.makes_createDirectories`).
The names of the parent of a path are the first names of the path (`Path.names_parent?`), so they
have names of that path, and nothing else changes (`FileSystem.Makes.moreDirectories`). A path that
can be written and has a file name
leads to that name (`FileSystem.Leads.eq_fileName?`). What is written to a path is there in place of
nothing or of a file (`FileSystem.writeFile_eq_ok`), and it is what is read from the path from then
on (`FileSystem.readFile_writeFile`).
-/

namespace DrillPost

namespace Path

/-! ### Pieces and names -/

theorem splitSlash_ne_nil (b : Bytes) : splitSlash b ≠ [] := by
  obtain ⟨init, last, h⟩ := exists_splitSlash_append b
  have hb := h [] List.not_mem_nil
  rw [List.append_nil] at hb
  rw [hb]
  exact List.append_ne_nil_of_right_ne_nil init (List.cons_ne_nil _ [])

theorem splitSlash_append_slash (a b : Bytes) :
    splitSlash (a ++ slash :: b) = splitSlash a ++ splitSlash b := by
  induction a with
  | nil =>
    show splitSlash (slash :: b) = [[]] ++ splitSlash b
    rw [splitSlash]
    cases hb : splitSlash b with
    | nil => exact absurd hb (splitSlash_ne_nil b)
    | cons piece pieces => exact if_pos rfl
  | cons c a ih =>
    rw [List.cons_append, splitSlash, splitSlash, ih]
    cases ha : splitSlash a with
    | nil => exact absurd ha (splitSlash_ne_nil a)
    | cons piece pieces =>
      dsimp only [List.cons_append]
      split <;> rfl

theorem joinSlash_cons {pieces : List Bytes} (h : pieces ≠ []) (piece : Bytes) :
    joinSlash (piece :: pieces) = piece ++ slash :: joinSlash pieces := by
  rw [joinSlash, List.intercalate_cons_of_ne_nil h, List.append_assoc]
  rfl

theorem joinSlash_append {a b : List Bytes} (ha : a ≠ []) (hb : b ≠ []) :
    joinSlash (a ++ b) = joinSlash a ++ slash :: joinSlash b := by
  induction a with
  | nil => exact absurd rfl ha
  | cons piece a ih =>
    cases a with
    | nil =>
      rw [List.singleton_append, joinSlash_cons hb, joinSlash, joinSlash,
        List.intercalate_singleton]
    | cons piece' a =>
      have hne : piece' :: a ≠ [] := List.cons_ne_nil piece' a
      rw [List.cons_append, joinSlash_cons (List.append_ne_nil_of_left_ne_nil hne b), ih hne,
        joinSlash_cons hne, List.append_assoc]
      rfl

theorem joinSlash_splitSlash (b : Bytes) : joinSlash (splitSlash b) = b := by
  induction b with
  | nil => rfl
  | cons c b ih =>
    rw [splitSlash]
    cases hb : splitSlash b with
    | nil => exact absurd hb (splitSlash_ne_nil b)
    | cons piece pieces =>
      rw [hb] at ih
      dsimp only
      by_cases hc : c = slash
      · rw [if_pos hc, joinSlash_cons (List.cons_ne_nil piece pieces), ih, hc]
        rfl
      · rw [if_neg hc, joinSlash, List.intercalate_cons_cons_left]
        exact congrArg (c :: ·) ih

theorem names_append_slash (a b : Bytes) :
    (Path.mk (a ++ slash :: b)).names = (Path.mk a).names ++ (Path.mk b).names := by
  rw [names, splitSlash_append_slash, List.filter_append]
  rfl

/-! ### Parents -/

/-- The bytes end after a piece: what follows is nothing, or a slash and more. -/
def EndsPiece (a b : Bytes) : Prop := b = a ∨ ∃ rest, b = a ++ slash :: rest

theorem EndsPiece.names {a b : Bytes} (h : EndsPiece a b) :
    (Path.mk a).names <+: (Path.mk b).names := by
  rcases h with rfl | ⟨rest, rfl⟩
  · exact List.prefix_rfl
  · rw [names_append_slash]
    exact List.prefix_append _ _

theorem EndsPiece.append_left {a b : Bytes} (h : EndsPiece a b) (c : Bytes) :
    EndsPiece (c ++ a) (c ++ b) := by
  rcases h with rfl | ⟨rest, rfl⟩
  · exact .inl rfl
  · exact .inr ⟨rest, (List.append_assoc c a _).symm⟩

/-- The first pieces, joined, are where a piece ends. -/
theorem endsPiece_joinSlash {pieces : List Bytes} {b : Bytes} (hne : pieces ≠ [])
    (h : pieces <+: splitSlash b) : EndsPiece (joinSlash pieces) b := by
  obtain ⟨rest, hrest⟩ := h
  have hb := joinSlash_splitSlash b
  rw [← hrest] at hb
  cases rest with
  | nil =>
    rw [List.append_nil] at hb
    exact .inl hb.symm
  | cons piece rest =>
    rw [joinSlash_append hne (List.cons_ne_nil piece rest)] at hb
    exact .inr ⟨_, hb.symm⟩

theorem head_append_drop (p : Path) : p.head ++ p.bytes.drop p.head.length = p.bytes := by
  suffices h : p.head <+: p.bytes by
    obtain ⟨rest, hrest⟩ := h
    rw [← hrest, List.drop_left]
  unfold head isAbsolute
  cases hbytes : p.bytes with
  | nil => decide
  | cons c rest =>
    split
    · next hslash =>
      rw [List.head?_cons, beq_iff_eq, Option.some_inj] at hslash
      rw [hslash]
      exact ⟨rest, rfl⟩
    · split
      · next hdot =>
        -- The first piece is a dot, so the first byte is.
        have hjoin := joinSlash_splitSlash (c :: rest)
        cases hpieces : splitSlash (c :: rest) with
        | nil =>
          rw [hpieces] at hdot
          cases hdot
        | cons piece pieces =>
          rw [hpieces, List.head?_cons, Option.some_inj] at hdot
          rw [hpieces, hdot, joinSlash, List.intercalate_cons_cons_left] at hjoin
          exact ⟨_, hjoin⟩
      · exact List.nil_prefix

theorem endsPiece_withPieces {p : Path} {pieces : List Bytes} (hne : pieces ≠ [])
    (h : pieces <+: splitSlash (p.bytes.drop p.head.length)) :
    EndsPiece (p.withPieces pieces).bytes p.bytes := by
  have hends := (endsPiece_joinSlash hne h).append_left p.head
  rwa [head_append_drop] at hends

theorem names_head (p : Path) : (Path.mk p.head).names <+: p.names := by
  have hnil : (Path.mk []).names = [] := rfl
  unfold head
  split
  · exact (show (Path.mk [slash]).names = [] from rfl) ▸ List.nil_prefix
  · split
    · next hdot =>
      have hsplit : [[dot]] <+: splitSlash p.bytes :=
        List.singleton_prefix_iff_head?_eq_some.2 hdot
      exact (endsPiece_joinSlash (List.cons_ne_nil _ _) hsplit).names
    · exact hnil ▸ List.nil_prefix

theorem isPrefix_withPieces {p : Path} {pieces : List Bytes}
    (h : pieces <+: splitSlash (p.bytes.drop p.head.length)) :
    (p.withPieces pieces).bytes <+: p.bytes := by
  cases pieces with
  | nil =>
    refine ⟨p.bytes.drop p.head.length, ?_⟩
    simpa [withPieces, joinSlash] using p.head_append_drop
  | cons piece pieces =>
    rcases endsPiece_withPieces (List.cons_ne_nil piece pieces) h with heq | ⟨rest, heq⟩
    · exact ⟨[], by rw [heq, List.append_nil]⟩
    · exact ⟨slash :: rest, heq.symm⟩

theorem isPrefix_parent? {p q : Path} (h : p.parent? = some q) : q.bytes <+: p.bytes := by
  unfold parent? at h
  split at h
  · cases h
    apply isPrefix_withPieces
    exact (isPrefix_trimPieces _).trans ((List.dropLast_prefix _).trans (isPrefix_trimPieces _))
  · split at h <;> cases h
    exact List.nil_prefix

/-- A path that begins another can be followed if the other can. -/
theorem fault?_of_isPrefix {p q : Path} (h : p.bytes <+: q.bytes) (hne : p.bytes ≠ [])
    (hq : q.fault? = none) : p.fault? = none := by
  have hlength := h.length_le
  unfold fault? at hq ⊢
  split at hq
  · cases hq
  next hzero =>
  split at hq
  · cases hq
  split at hq
  · cases hq
  next hlong =>
  rw [if_neg fun hmem => hzero (h.subset hmem), if_neg hne, if_neg (by omega)]

/-- The names of the parent of a path are the first of its names. -/
theorem names_parent? {p q : Path} (h : p.parent? = some q) : q.names <+: p.names := by
  unfold parent? at h
  split at h
  · cases h
    have hpieces : trimPieces p.pieces.dropLast <+: splitSlash (p.bytes.drop p.head.length) :=
      (isPrefix_trimPieces _).trans ((List.dropLast_prefix _).trans (isPrefix_trimPieces _))
    cases hparent : trimPieces p.pieces.dropLast with
    | nil =>
      have hnames := names_head p
      rw [withPieces, joinSlash, List.intercalate_nil, List.append_nil]
      exact hnames
    | cons piece pieces =>
      rw [hparent] at hpieces
      exact (endsPiece_withPieces (List.cons_ne_nil piece pieces) hpieces).names
  · split at h
    · cases h
      exact List.nil_prefix
    · cases h

/-- The path is that of the parent, or lies above the parent. -/
def IsAbove (above p : Path) : Prop := ∃ levels, p.aboveParent? levels = some above

theorem IsAbove.of_parent? {p parent : Path} (h : p.parent? = some parent) : parent.IsAbove p :=
  ⟨0, h⟩

theorem IsAbove.trans {p q r : Path} (h : r.IsAbove q) (h' : q.IsAbove p) : r.IsAbove p := by
  obtain ⟨levels, h⟩ := h
  obtain ⟨levels', h'⟩ := h'
  induction levels' generalizing p with
  | zero => exact ⟨levels + 1, by rw [aboveParent?, show p.parent? = some q from h']; exact h⟩
  | succ levels' ih =>
    obtain ⟨parent, hparent, habove⟩ := Option.bind_eq_some_iff.1 h'
    obtain ⟨more, hmore⟩ := ih habove
    exact ⟨more + 1, Option.bind_eq_some_iff.2 ⟨parent, hparent, hmore⟩⟩

theorem IsAbove.names {above p : Path} (h : above.IsAbove p) : above.names <+: p.names := by
  obtain ⟨levels, h⟩ := h
  induction levels generalizing p with
  | zero => exact names_parent? h
  | succ levels ih =>
    obtain ⟨parent, hparent, habove⟩ := Option.bind_eq_some_iff.1 h
    exact (ih habove).trans (names_parent? hparent)

/-! ### File names -/

/-- What is left out at the end names nothing. -/
theorem exists_append_trimPieces (pieces : List Bytes) :
    ∃ rest, pieces = trimPieces pieces ++ rest ∧ ∀ piece ∈ rest, piece = [] ∨ piece = [dot] := by
  refine ⟨(pieces.reverse.takeWhile fun piece => piece == [] || piece == [dot]).reverse, ?_, ?_⟩
  · rw [trimPieces, ← List.reverse_append, List.takeWhile_append_dropWhile, List.reverse_reverse]
  · intro piece hpiece
    have hnothing := List.all_takeWhile (p := fun piece => piece == [] || piece == [dot])
      (l := pieces.reverse)
    rw [List.all_eq_true] at hnothing
    simpa using hnothing piece (List.mem_reverse.1 hpiece)

/-- The head adds no name after the others. -/
theorem names_drop_head (p : Path) :
    (Path.mk (p.bytes.drop p.head.length)).names <:+ p.names := by
  have hbytes := p.head_append_drop
  generalize p.bytes.drop p.head.length = rest at *
  have hhead := names_head p
  unfold head at hbytes hhead
  split at hbytes
  · have hnames := names_append_slash [] rest
    rw [List.nil_append, show slash :: rest = p.bytes from hbytes] at hnames
    exact ⟨_, hnames.symm⟩
  · split at hbytes
    · next hdot =>
      have hsplit : [[dot]] <+: splitSlash p.bytes :=
        List.singleton_prefix_iff_head?_eq_some.2 hdot
      rcases endsPiece_joinSlash (List.cons_ne_nil _ _) hsplit with hends | ⟨rest', hends⟩
      · have hrest : rest = [] := List.append_right_eq_self.1 (hbytes.trans hends)
        rw [hrest]
        exact List.nil_suffix
      · have hrest : rest = slash :: rest' := List.append_cancel_left (hbytes.trans hends)
        have hnames : (Path.mk rest).names = (Path.mk rest').names := by
          rw [hrest]
          exact names_append_slash [] rest'
        have hp : p.names = (Path.mk (joinSlash [[dot]])).names ++ (Path.mk rest').names := by
          rw [← names_append_slash, ← hends]
        rw [hnames, hp]
        exact List.suffix_append _ _
    · have hrest : rest = p.bytes := hbytes
      subst hrest
      exact List.suffix_rfl

/-- The last name of a path with a file name is that, unless a dot follows. -/
theorem getLast?_names {p : Path} {file : Bytes} (h : p.fileName? = some file) :
    p.names.getLast? = some file ∨ p.names.getLast? = some [dot] := by
  obtain ⟨hlast, -⟩ := Option.filter_eq_some_iff.1 h
  have hfile : file ≠ [] := ne_nil_of_getLast?_trimPieces hlast
  obtain ⟨init, hinit⟩ := List.getLast?_eq_some_iff.1 hlast
  obtain ⟨rest, hrest, hnothing⟩ :=
    exists_append_trimPieces (splitSlash (p.bytes.drop p.head.length))
  obtain ⟨before, hbefore⟩ := names_drop_head p
  have hnames : p.names = before ++ init.filter (· ≠ []) ++ [file] ++ rest.filter (· ≠ []) := by
    have hsingle : [file].filter (· ≠ []) = [file] := by simp [hfile]
    rw [← hbefore, names, hrest, show trimPieces _ = init ++ [file] from hinit, List.filter_append,
      List.filter_append, hsingle]
    simp only [List.append_assoc]
  rw [hnames]
  cases hdots : (rest.filter (· ≠ [])).getLast? with
  | none =>
    rw [List.getLast?_eq_none_iff.1 hdots, List.append_nil, List.getLast?_concat]
    exact .inl rfl
  | some last =>
    obtain ⟨hmem, hne⟩ := List.mem_filter.1 (List.mem_of_getLast? hdots)
    rw [List.getLast?_append, hdots]
    rcases hnothing last hmem with rfl | rfl
    · exact absurd rfl (of_decide_eq_true hne)
    · exact .inr rfl

end Path

namespace FileSystem

variable {fs fs' fs'' : FileSystem} {host : Host} {p : Path} {directory : Location} {name : Bytes}

theorem Leads.eq_fileName? {file : Bytes} (h : fs.Leads host p directory name)
    (hfile : p.fileName? = some file) : name = file := by
  obtain ⟨-, -, -, hname⟩ := resolveParent_eq_ok h.resolveParent_eq
  rcases Path.getLast?_names hfile with hlast | hlast
  · rw [hlast] at hname
    exact hname.symm
  · have hdots := h.isDots_eq
    rw [hlast] at hname
    rw [← hname] at hdots
    cases hdots

/-! ### Directories -/

/-- Directories with some of the names are there where nothing was, and nothing else has
changed. -/
def MoreDirectories (fs : FileSystem) (names : List Bytes) (fs' : FileSystem) : Prop :=
  ∀ place, fs'.lookup? place = fs.lookup? place ∨
    fs.lookup? place = none ∧ ∃ name directory mode, place = name :: directory ∧ name ∈ names ∧
      fs'.lookup? place = some (.directory mode)

namespace MoreDirectories

variable {names names' : List Bytes}

theorem refl (fs : FileSystem) (names : List Bytes) : MoreDirectories fs names fs :=
  fun _ => .inl rfl

theorem trans (h : MoreDirectories fs names fs') (h' : MoreDirectories fs' names fs'') :
    MoreDirectories fs names fs'' := by
  intro place
  rcases h place with heq | ⟨hnone, name, directory, mode, hplace, hname, hmade⟩
  · rw [← heq]
    exact h' place
  · -- What was made first is no longer a place where nothing is.
    rcases h' place with heq' | ⟨hnone', -⟩
    · exact .inr ⟨hnone, name, directory, mode, hplace, hname, heq'.trans hmade⟩
    · rw [hmade] at hnone'
      cases hnone'

theorem mono (h : MoreDirectories fs names fs') (hnames : names ⊆ names') :
    MoreDirectories fs names' fs' := by
  intro place
  rcases h place with heq | ⟨hnone, name, directory, mode, hplace, hname, hmade⟩
  · exact .inl heq
  · exact .inr ⟨hnone, name, directory, mode, hplace, hnames hname, hmade⟩

end MoreDirectories

theorem createDirectory_eq_ok (h : fs.createDirectory host p = .ok fs') :
    ∃ directory name, fs.resolveParent host p = .ok (directory, name) ∧ isDots name = false ∧
      name.length ≤ maxNameLength ∧ fs.lookup? (name :: directory) = none ∧
      fs' = fs.insert (name :: directory) (.directory (host.newMode 0o777)) := by
  unfold createDirectory at h
  split at h
  · cases h
  next directory name hparent =>
  split at h
  · cases h
  next hdots =>
  split at h
  · cases h
  next hlength =>
  split at h
  · cases h
  next hnone =>
  cases h
  exact ⟨directory, name, hparent, Bool.eq_false_iff.2 hdots, Nat.not_lt.1 hlength,
    Option.not_isSome_iff_eq_none.1 hnone, rfl⟩

theorem moreDirectories_createDirectory (h : fs.createDirectory host p = .ok fs') :
    MoreDirectories fs p.names fs' := by
  obtain ⟨directory, name, hparent, hdots, -, hnone, rfl⟩ := createDirectory_eq_ok h
  obtain ⟨-, -, -, hname⟩ := resolveParent_eq_ok hparent
  have hmem : name ∈ p.names := by
    cases hlast : p.names.getLast? with
    | none =>
      -- Without a name the path leads to a dot.
      rw [hlast] at hname
      rw [← hname] at hdots
      cases hdots
    | some last =>
      rw [hlast] at hname
      exact hname ▸ List.mem_of_getLast? hlast
  intro place
  by_cases hplace : place = name :: directory
  · rw [hplace, hnone, lookup?_insert_self]
    exact .inr ⟨rfl, name, directory, _, rfl, hmem, rfl⟩
  · exact .inl (lookup?_insert_of_ne hplace fs _)

/-- A directory is made, and its path is one of those asked for. -/
def MakesOne (host : Host) (asked : Path → Prop) (fs fs' : FileSystem) : Prop :=
  ∃ p, asked p ∧ fs.createDirectory host p = .ok fs'

/-- Directories are made, one after the other. -/
abbrev Makes (host : Host) (asked : Path → Prop) : FileSystem → FileSystem → Prop :=
  Relation.ReflTransGen (MakesOne host asked)

variable {asked : Path → Prop}

theorem makes_ensureDirectory (fs : FileSystem) (host : Host) (hp : asked p) :
    Makes host asked fs (fs.ensureDirectory host p).1 := by
  unfold ensureDirectory
  cases hmake : fs.createDirectory host p with
  | ok made => exact .single ⟨p, hp, hmake⟩
  | error fault => exact .refl

/-- Whether or not all can be made, what has been made is asked for, if parents of what is asked for
are. -/
theorem makes_createDirectories (fs : FileSystem) (host : Host) {p : Path} (hp : asked p)
    (hparent : ∀ q r, asked q → q.parent? = some r → asked r) :
    Makes host asked fs (fs.createDirectories host p).1 := by
  have hensure := makes_ensureDirectory fs host hp
  unfold createDirectories
  split
  · exact .refl
  split
  · -- Something above the path is missing, and the path's own directory is made after it.
    split
    · exact .refl
    · next parent heq =>
      have hparents := makes_createDirectories fs host (hparent p parent hp heq) hparent
      split
      · next made hmade =>
        rw [hmade] at hparents
        exact hparents.trans (makes_ensureDirectory made host hp)
      · next made fault hmade =>
        rw [hmade] at hparents
        exact hparents
  · exact hensure
termination_by p.bytes.length
decreasing_by exact Path.length_parent?_lt ‹_›

/-- What is made has names of the paths that are asked for. -/
theorem Makes.moreDirectories {names : List Bytes} (h : Makes host asked fs fs')
    (hasked : ∀ p, asked p → p.names ⊆ names) : MoreDirectories fs names fs' := by
  induction h with
  | refl => exact .refl fs names
  | tail _ hone ih =>
    obtain ⟨p, hp, hmake⟩ := hone
    exact ih.trans ((moreDirectories_createDirectory hmake).mono (hasked p hp))

/-! ### Files -/

/-- What is written to a path is at the place that the path leads to, where no directory was. A file
that was there keeps its permission bits. -/
theorem writeFile_eq_ok {content : Bytes} (h : fs.writeFile host p content = .ok fs') :
    ∃ directory name mode, fs.Leads host p directory name ∧
      fs.isDirectory (name :: directory) = false ∧
      mode = (fs.lookup? (name :: directory)).elim (host.newMode 0o666) Entry.mode ∧
      fs' = fs.insert (name :: directory) (.file mode content) := by
  unfold writeFile at h
  split at h
  · cases h
  next directory name hparent =>
  split at h
  · cases h
  next hplace =>
  split at h
  · cases h
  next hlength =>
  rw [not_or, Bool.not_eq_true, Bool.not_eq_true] at hplace
  have hleads : fs.Leads host p directory name :=
    ⟨hparent, hplace.1, Nat.not_lt.1 hlength, hplace.2⟩
  split at h
  · cases h
  · next mode before hlookup =>
    cases h
    refine ⟨directory, name, mode, hleads, ?_, by rw [hlookup]; rfl, rfl⟩
    rw [isDirectory, hlookup]
    rfl
  · next hlookup =>
    cases h
    exact ⟨directory, name, _, hleads, isDirectory_eq_false_of_lookup? hlookup,
      by rw [hlookup]; rfl, rfl⟩

/-- What leads to a place for a file can be written. -/
theorem Leads.writeFile_eq (h : fs.Leads host p directory name)
    (hfile : fs.isDirectory (name :: directory) = false) (content : Bytes) :
    fs.writeFile host p content = .ok (fs.insert (name :: directory)
      (.file ((fs.lookup? (name :: directory)).elim (host.newMode 0o666) Entry.mode) content)) := by
  have hlength : ¬ maxNameLength < name.length := Nat.not_lt.2 h.length_le
  unfold isDirectory at hfile
  rw [writeFile, h.resolveParent_eq]
  simp only [h.isDots_eq, h.endsInSlash_eq, hlength]
  cases hentry : fs.lookup? (name :: directory) with
  | none => rfl
  | some entry =>
    cases entry with
    | file mode before => rfl
    | directory mode =>
      rw [hentry] at hfile
      cases hfile

/-- What is written to a path is what is read from it. -/
theorem readFile_writeFile {content : Bytes} (h : fs.writeFile host p content = .ok fs') :
    fs'.readFile host p = .ok content := by
  obtain ⟨directory, name, mode, hleads, hfile, -, rfl⟩ := writeFile_eq_ok h
  have hkept : (fs.insert (name :: directory) (.file mode content)).Leads host p directory name :=
    hleads.mono fun here hhere => (isDirectory_insert_file hfile here).trans hhere
  have hlookup := lookup?_insert_self fs (name :: directory) (.file mode content)
  rw [readFile, hkept.resolve_eq_ok hlookup]
  dsimp only
  rw [hlookup]

end FileSystem

end DrillPost

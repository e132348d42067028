import DrillPost.Files.Operations
import Mathlib.Logic.Basic

/-!
# Where paths lead

Which location a path leads to depends on nothing but the directories of a file system
(`FileSystem.resolve_mono`, `FileSystem.Leads.mono`). A path leads to a file's place if a file could
be made there or is there already (`FileSystem.Leads`): then what is at the path is what is at that
place (`FileSystem.Leads.entry?_eq`), and a file that is moved to the path ends up there
(`FileSystem.moveFile_eq_ok`).

Paths that differ only in how their last name ends lead to places in one directory
(`Path.exists_names_append`).
-/

namespace DrillPost

namespace FileSystem

variable {fs fs' : FileSystem} {host : Host} {p : Path} {place directory : Location} {name : Bytes}

/-! ### Changes -/

theorem erase_eq_self (h : fs.lookup? place = none) : fs.erase place = fs := by
  rw [lookup?, Option.map_eq_none_iff, List.find?_eq_none] at h
  have hentries : fs.entries.filter (fun e => e.1 ≠ place) = fs.entries := by
    rw [List.filter_eq_self]
    intro e he
    have hne := h e he
    rw [decide_eq_true_eq] at hne
    exact decide_eq_true hne
  rw [erase, hentries]

theorem erase_insert (h : fs.lookup? place = none) (entry : Entry) :
    (fs.insert place entry).erase place = fs := by
  have hinsert : (fs.insert place entry).erase place = (fs.erase place).erase place := by
    rw [insert, erase, List.filter_cons_of_neg (by simp)]
    rfl
  rw [hinsert, erase_eq_self h, erase_eq_self h]

theorem lookup?_insert_self (fs : FileSystem) (place : Location) (entry : Entry) :
    (fs.insert place entry).lookup? place = some entry := by
  rw [lookup?_insert, if_pos rfl]

theorem lookup?_insert_of_ne {here : Location} (h : here ≠ place) (fs : FileSystem)
    (entry : Entry) : (fs.insert place entry).lookup? here = fs.lookup? here := by
  rw [lookup?_insert, if_neg h]

/-- A file is no directory, and a directory elsewhere stays one. -/
theorem isDirectory_insert_file {mode : Nat} {content : Bytes} (h : fs.isDirectory place = false)
    (here : Location) :
    (fs.insert place (.file mode content)).isDirectory here = fs.isDirectory here := by
  by_cases heq : here = place
  · rw [heq, h, isDirectory, lookup?_insert_self]
    rfl
  · rw [isDirectory, lookup?_insert_of_ne heq, isDirectory]

theorem isDirectory_eq_false_of_lookup? (h : fs.lookup? place = none) :
    fs.isDirectory place = false := by
  rw [isDirectory, h]
  rfl

/-! ### Following names -/

theorem entryFault?_eq_none_iff : fs.entryFault? place = none ↔ fs.isDirectory place = true := by
  unfold entryFault? isDirectory
  cases fs.lookup? place with
  | none => exact ⟨nofun, nofun⟩
  | some entry =>
    cases entry with
    | file mode content => exact ⟨nofun, nofun⟩
    | directory mode => exact ⟨fun _ => rfl, fun _ => rfl⟩

theorem isDirectory_of_enter_eq_ok (h : fs.enter place name = .ok directory) :
    fs.isDirectory place = true := by
  unfold enter at h
  split at h
  · cases h
  · next hnone => exact entryFault?_eq_none_iff.1 hnone

/-- What can be entered is entered alike wherever it is a directory. -/
theorem enter_mono (hdir : ∀ l, fs.isDirectory l = true → fs'.isDirectory l = true)
    (h : fs.enter place name = .ok directory) : fs'.enter place name = .ok directory := by
  have hplace := isDirectory_of_enter_eq_ok h
  unfold enter at h ⊢
  rw [entryFault?_eq_none_iff.2 (hdir _ hplace)]
  rwa [entryFault?_eq_none_iff.2 hplace] at h

/-- What names lead to does not change as long as the directories stay. -/
theorem follow_mono (hdir : ∀ l, fs.isDirectory l = true → fs'.isDirectory l = true)
    {names : List Bytes} (h : fs.follow place names = .ok directory) :
    fs'.follow place names = .ok directory := by
  induction names generalizing place with
  | nil => exact h
  | cons name names ih =>
    rw [follow] at h ⊢
    cases henter : fs.enter place name with
    | error fault =>
      rw [henter] at h
      cases h
    | ok inner =>
      rw [henter] at h
      rw [enter_mono hdir henter]
      exact ih h

theorem follow_concat {names : List Bytes} (h : fs.follow place names = .ok directory)
    (name : Bytes) : fs.follow place (names ++ [name]) = fs.enter directory name := by
  induction names generalizing place with
  | nil =>
    cases h
    rw [List.nil_append, follow]
    cases fs.enter directory name <;> rfl
  | cons first names ih =>
    rw [follow] at h
    rw [List.cons_append, follow]
    cases henter : fs.enter place first with
    | error fault =>
      rw [henter] at h
      cases h
    | ok inner =>
      rw [henter] at h
      exact ih h

/-- Names lead to a directory only from a directory. -/
theorem isDirectory_of_follow_eq_ok {names : List Bytes} (hinner : fs.isDirectory directory = true)
    (h : fs.follow place names = .ok directory) : fs.isDirectory place = true := by
  cases names with
  | nil =>
    cases h
    exact hinner
  | cons name names =>
    rw [follow] at h
    cases henter : fs.enter place name with
    | error fault =>
      rw [henter] at h
      cases h
    | ok next => exact isDirectory_of_enter_eq_ok henter

/-- The first names lead to where the others lead on from. -/
theorem exists_follow_of_append {names more : List Bytes}
    (h : fs.follow place (names ++ more) = .ok directory) :
    ∃ inner, fs.follow place names = .ok inner ∧ fs.follow inner more = .ok directory := by
  induction names generalizing place with
  | nil => exact ⟨place, rfl, h⟩
  | cons name names ih =>
    rw [List.cons_append, follow] at h
    rw [follow]
    cases henter : fs.enter place name with
    | error fault =>
      rw [henter] at h
      cases h
    | ok next =>
      rw [henter] at h
      exact ih h

/-- Names lead where the last of them leads from where the others lead. -/
theorem exists_follow_of_concat {names : List Bytes} {inner : Location}
    (h : fs.follow place (names ++ [name]) = .ok inner) :
    ∃ directory, fs.follow place names = .ok directory ∧ fs.enter directory name = .ok inner := by
  obtain ⟨directory, hfollow, hlast⟩ := exists_follow_of_append h
  refine ⟨directory, hfollow, ?_⟩
  rwa [← follow_concat (show fs.follow directory [] = .ok directory from rfl)]

/-! ### What paths lead to -/

/-- A path leads to the directory that its names lead to. -/
theorem resolve_of_follow (hfault : p.fault? = none)
    (hfollow : fs.follow (start host p) p.names = .ok place)
    (hplace : fs.isDirectory place = true) : fs.resolve host p = .ok place := by
  rw [resolve, hfault, hfollow]
  dsimp only
  unfold isDirectory at hplace
  cases hentry : fs.lookup? place with
  | none =>
    rw [hentry] at hplace
    cases hplace
  | some entry =>
    rw [hentry, Option.any_some] at hplace
    simp [hplace]

theorem resolve_eq_ok (h : fs.resolve host p = .ok place) :
    p.fault? = none ∧ fs.follow (start host p) p.names = .ok place := by
  unfold resolve at h
  split at h
  · cases h
  next hfault =>
  split at h
  · cases h
  next inner hfollow =>
  split at h
  · cases h
  · split at h <;> cases h
    exact ⟨hfault, hfollow⟩

/-- What a path leads to does not move as long as it is there and the directories stay. -/
theorem resolve_mono (hdir : ∀ l, fs.isDirectory l = true → fs'.isDirectory l = true)
    (hplace : fs'.lookup? place = fs.lookup? place) (h : fs.resolve host p = .ok place) :
    fs'.resolve host p = .ok place := by
  obtain ⟨hfault, hfollow⟩ := resolve_eq_ok h
  rw [resolve, hfault, hfollow] at h
  rw [resolve, hfault, follow_mono hdir hfollow]
  dsimp only at h ⊢
  rwa [hplace]

theorem isDirectoryAt_iff :
    fs.isDirectoryAt host p = true ↔
      ∃ place, fs.resolve host p = .ok place ∧ fs.isDirectory place = true := by
  unfold isDirectoryAt entry? isDirectory
  cases fs.resolve host p with
  | error fault => simp
  | ok place => simp

/-! ### Places for files -/

/-- The path leads to a name in a directory that a file can have. -/
structure Leads (fs : FileSystem) (host : Host) (p : Path) (directory : Location) (name : Bytes) :
    Prop where
  resolveParent_eq : fs.resolveParent host p = .ok (directory, name)
  isDots_eq : isDots name = false
  length_le : name.length ≤ maxNameLength
  endsInSlash_eq : p.endsInSlash = false

theorem resolveParent_eq_ok (h : fs.resolveParent host p = .ok (directory, name)) :
    p.fault? = none ∧ fs.follow (start host p) p.names.dropLast = .ok directory ∧
      fs.isDirectory directory = true ∧ p.names.getLast?.getD [dot] = name := by
  unfold resolveParent at h
  split at h
  · cases h
  next hfault =>
  split at h
  · cases h
  next place hfollow =>
  split at h
  · cases h
  next hentry =>
  cases h
  exact ⟨hfault, hfollow, entryFault?_eq_none_iff.1 hentry, rfl⟩

/-- The names of a path lead to the last of them in its directory. -/
theorem follow_of_resolveParent (h : fs.resolveParent host p = .ok (directory, name))
    (hdots : isDots name = false) (hlength : name.length ≤ maxNameLength) :
    fs.follow (start host p) p.names = .ok (name :: directory) := by
  obtain ⟨-, hfollow, hentry, hname⟩ := resolveParent_eq_ok h
  rw [isDots, Bool.or_eq_false_iff, beq_eq_false_iff_ne, beq_eq_false_iff_ne] at hdots
  -- A path without names would lead to a dot, so the last name is there and is this one.
  have hnames : p.names = p.names.dropLast ++ [name] := by
    cases hlast : p.names.getLast? with
    | none =>
      rw [hlast] at hname
      exact absurd hname.symm hdots.1
    | some last =>
      rw [hlast, Option.getD_some] at hname
      obtain ⟨init, hinit⟩ := List.getLast?_eq_some_iff.1 hlast
      rw [hinit, List.dropLast_concat, hname]
  rw [hnames, follow_concat hfollow, enter, entryFault?_eq_none_iff.2 hentry]
  dsimp only
  rw [if_neg hdots.1, if_neg hdots.2, if_neg (Nat.not_lt.2 hlength)]

theorem resolveParent_mono (hdir : ∀ l, fs.isDirectory l = true → fs'.isDirectory l = true)
    (h : fs.resolveParent host p = .ok (directory, name)) :
    fs'.resolveParent host p = .ok (directory, name) := by
  obtain ⟨hfault, hfollow, hentry, hname⟩ := resolveParent_eq_ok h
  rw [resolveParent, hfault, follow_mono hdir hfollow]
  dsimp only
  rw [entryFault?_eq_none_iff.2 (hdir _ hentry), hname]

namespace Leads

/-- Where a path leads does not change as long as the directories stay. -/
theorem mono (hdir : ∀ l, fs.isDirectory l = true → fs'.isDirectory l = true)
    (h : fs.Leads host p directory name) : fs'.Leads host p directory name :=
  ⟨resolveParent_mono hdir h.resolveParent_eq, h.isDots_eq, h.length_le, h.endsInSlash_eq⟩

theorem follow_eq (h : fs.Leads host p directory name) :
    fs.follow (start host p) p.names = .ok (name :: directory) :=
  follow_of_resolveParent h.resolveParent_eq h.isDots_eq h.length_le

theorem resolve_eq (h : fs.Leads host p directory name) :
    fs.resolve host p =
      if (fs.lookup? (name :: directory)).isSome then .ok (name :: directory)
      else .error .notFound := by
  obtain ⟨hfault, -⟩ := resolveParent_eq_ok h.resolveParent_eq
  rw [resolve, hfault, h.follow_eq]
  dsimp only
  cases fs.lookup? (name :: directory) with
  | none => rfl
  | some entry =>
    dsimp only
    rw [if_neg fun hslash => Bool.false_ne_true (h.endsInSlash_eq.symm.trans hslash.1)]
    rfl

theorem entry?_eq (h : fs.Leads host p directory name) :
    fs.entry? host p = fs.lookup? (name :: directory) := by
  unfold entry?
  rw [h.resolve_eq]
  cases hlookup : fs.lookup? (name :: directory) with
  | none => rfl
  | some entry => exact hlookup

theorem resolve_eq_ok (h : fs.Leads host p directory name) {entry : Entry}
    (hentry : fs.lookup? (name :: directory) = some entry) :
    fs.resolve host p = .ok (name :: directory) := by
  rw [h.resolve_eq, hentry]
  rfl

end Leads

/-- What is at a place can be moved to a path that leads to no directory. -/
theorem Leads.moveFile_eq (h : fs.Leads host p directory name)
    (hfile : fs.isDirectory (name :: directory) = false) {entry : Entry}
    (hentry : fs.lookup? place = some entry) :
    fs.moveFile host place p = .ok ((fs.erase place).insert (name :: directory) entry) := by
  have hlength : ¬ maxNameLength < name.length := Nat.not_lt.2 h.length_le
  rw [moveFile, h.resolveParent_eq]
  simp [hlength, h.isDots_eq, h.endsInSlash_eq, hfile, hentry]

/-- A file that was moved to a path has left its place for the one that the path leads to, where no
directory is. -/
theorem moveFile_eq_ok (h : fs.moveFile host place p = .ok fs') :
    ∃ directory name entry, fs.Leads host p directory name ∧
      fs.isDirectory (name :: directory) = false ∧ fs.lookup? place = some entry ∧
      fs' = (fs.erase place).insert (name :: directory) entry := by
  unfold moveFile at h
  split at h
  · cases h
  next directory name hparent =>
  split at h
  · cases h
  next hlength =>
  split at h
  · cases h
  next hplace =>
  rw [not_or, not_or, Bool.not_eq_true, Bool.not_eq_true, Bool.not_eq_true] at hplace
  split at h
  · next entry hentry =>
    cases h
    exact ⟨directory, name, entry,
      ⟨hparent, hplace.1, Nat.not_lt.1 hlength, hplace.2.1⟩, hplace.2.2, hentry, rfl⟩
  · cases h

end FileSystem

namespace Path

/-! ### Paths that end alike -/

/-- What is added to the end of a path without a slash is added to its last piece. -/
theorem exists_splitSlash_append (a : Bytes) :
    ∃ init last, ∀ b, slash ∉ b → splitSlash (a ++ b) = init ++ [last ++ b] := by
  induction a with
  | nil =>
    refine ⟨[], [], fun b hb => ?_⟩
    show splitSlash b = [b]
    induction b with
    | nil => rfl
    | cons c b ih =>
      have hc : c ≠ slash := fun heq => hb (heq ▸ List.mem_cons_self)
      rw [splitSlash, ih fun hm => hb (List.mem_cons_of_mem _ hm)]
      dsimp only
      rw [if_neg hc]
  | cons c a ih =>
    obtain ⟨init, last, ih⟩ := ih
    by_cases hc : c = slash
    · refine ⟨[] :: init, last, fun b hb => ?_⟩
      rw [List.cons_append, splitSlash, ih b hb]
      -- A slash ends a piece, and any other byte belongs to the first piece of what follows.
      cases init with
      | nil =>
        dsimp only [List.nil_append]
        rw [if_pos hc]
        rfl
      | cons piece init =>
        dsimp only [List.cons_append]
        rw [if_pos hc]
    · cases init with
      | nil =>
        refine ⟨[], c :: last, fun b hb => ?_⟩
        rw [List.cons_append, splitSlash, ih b hb]
        dsimp only [List.nil_append]
        rw [if_neg hc]
        rfl
      | cons piece init =>
        refine ⟨(c :: piece) :: init, last, fun b hb => ?_⟩
        rw [List.cons_append, splitSlash, ih b hb]
        dsimp only [List.cons_append]
        rw [if_neg hc]

/-- Paths that differ only in how their last name ends differ only in that name. -/
theorem exists_names_append (a : Bytes) :
    ∃ init last, ∀ b, slash ∉ b → b ≠ [] → (Path.mk (a ++ b)).names = init ++ [last ++ b] := by
  obtain ⟨init, last, h⟩ := exists_splitSlash_append a
  refine ⟨init.filter (· ≠ []), last, fun b hb hne => ?_⟩
  have hlast : [last ++ b].filter (· ≠ []) = [last ++ b] := by
    rw [List.filter_eq_self, List.forall_mem_singleton]
    exact decide_eq_true fun hnil => hne (List.append_eq_nil_iff.1 hnil).2
  rw [names, h b hb, List.filter_append, hlast]

end Path

end DrillPost

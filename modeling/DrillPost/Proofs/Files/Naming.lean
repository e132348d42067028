import DrillPost.Proofs.Files.Making
import DrillPost.Proofs.Settings.Saving

/-!
# The last piece of a path

A path is cut before its last piece: in front of the cut stand bytes after which a new piece begins
(`Path.BeginsPiece`). What follows the cut is the last name (`Path.BeginsPiece.names_append`), and a
path that is cut after its stem, or a name inside a directory, is another last piece after such a
cut (`Path.BeginsPiece.endAtStem_append`, `Path.exists_join`). A path that leads to a file is cut
before the name of that file (`FileSystem.Leads.exists_append`).
-/

namespace DrillPost

/-! ### Stems -/

theorem splitExtension_eq_none {name stem : Bytes} (h : splitExtension name = (stem, none)) :
    stem = name := by
  unfold splitExtension at h
  dsimp only at h
  split at h
  · exact (Prod.mk.inj h).1.symm
  · cases (Prod.mk.inj h).2

theorem stem_ne_nil {name stem extension : Bytes}
    (h : splitExtension name = (stem, some extension)) : stem ≠ [] := by
  unfold splitExtension at h
  dsimp only at h
  split at h
  · cases (Prod.mk.inj h).2
  · next hstem => rwa [(Prod.mk.inj h).1] at hstem

/-- A name begins with its stem. -/
theorem isPrefix_stem {name stem : Bytes} (h : (splitExtension name).1 = stem) (hne : name ≠ []) :
    stem <+: name ∧ stem ≠ [] := by
  cases hsplit : splitExtension name with
  | mk first extension? =>
  rw [hsplit] at h
  obtain rfl : first = stem := h
  cases extension? with
  | none =>
    rw [splitExtension_eq_none hsplit]
    exact ⟨List.prefix_rfl, hne⟩
  | some extension =>
    have hfirst := stem_ne_nil hsplit
    obtain ⟨rfl, -⟩ := splitExtension_eq_some hsplit
    exact ⟨List.prefix_append _ _, hfirst⟩

namespace Path

/-- A new piece begins after these bytes. -/
def BeginsPiece (before : Bytes) : Prop := before = [] ∨ ∃ rest, before = rest ++ [slash]

/-! ### Pieces -/

theorem splitSlash_eq_singleton {b : Bytes} (h : slash ∉ b) : splitSlash b = [b] := by
  induction b with
  | nil => rfl
  | cons c b ih =>
    have hc : c ≠ slash := fun heq => h (heq ▸ List.mem_cons_self)
    rw [splitSlash, ih fun hb => h (List.mem_cons_of_mem c hb)]
    dsimp only
    rw [if_neg hc]

theorem exists_lastPiece (b : Bytes) :
    ∃ before last, b = before ++ last ∧ BeginsPiece before ∧ slash ∉ last := by
  induction b with
  | nil => exact ⟨[], [], rfl, .inl rfl, List.not_mem_nil⟩
  | cons c b ih =>
    obtain ⟨before, last, rfl, hbefore | ⟨rest, rfl⟩, hlast⟩ := ih
    · subst before
      by_cases hc : c = slash
      · exact ⟨[c], last, rfl, .inr ⟨[], by simp [hc]⟩, hlast⟩
      · exact ⟨[], c :: last, rfl, .inl rfl, by simp [hlast, Ne.symm hc]⟩
    · exact ⟨c :: rest ++ [slash], last, rfl, .inr ⟨c :: rest, rfl⟩, hlast⟩

namespace BeginsPiece

variable {before last : Bytes}

theorem exists_splitSlash (h : BeginsPiece before) :
    ∃ init, ∀ b, slash ∉ b → splitSlash (before ++ b) = init ++ [b] := by
  obtain rfl | ⟨rest, rfl⟩ := h
  · exact ⟨[], fun b hb => splitSlash_eq_singleton hb⟩
  · refine ⟨splitSlash rest, fun b hb => ?_⟩
    rw [List.append_assoc, List.singleton_append, splitSlash_append_slash,
      splitSlash_eq_singleton hb]

theorem names_append (h : BeginsPiece before) (hslash : slash ∉ last) (hne : last ≠ []) :
    (Path.mk (before ++ last)).names = (Path.mk before).names ++ [last] := by
  obtain ⟨init, hsplit⟩ := h.exists_splitSlash
  have hbefore := hsplit [] List.not_mem_nil
  rw [List.append_nil] at hbefore
  simp [names, hsplit last hslash, hbefore, hne]

/-- The head of a path stands before its last piece. -/
theorem exists_head_append (h : BeginsPiece before) (hslash : slash ∉ last) (hdot : last ≠ [dot]) :
    ∃ rest, BeginsPiece rest ∧ before = (Path.mk (before ++ last)).head ++ rest := by
  obtain rfl | ⟨rest, rfl⟩ := h
  · refine ⟨[], .inl rfl, ?_⟩
    have hhead : last.head? ≠ some slash := fun hhead => hslash (List.mem_of_mem_head? hhead)
    simp [head, isAbsolute, splitSlash_eq_singleton hslash, hdot, hhead]
  have hbytes : rest ++ [slash] ++ last = rest ++ slash :: last := by simp
  rw [hbytes, head, isAbsolute]
  cases rest with
  | nil => exact ⟨[], .inl rfl, by simp⟩
  | cons c rest =>
    split
    · next hc =>
      have hc : c = slash := by simpa using hc
      exact ⟨rest ++ [slash], .inr ⟨rest, rfl⟩, by simp [hc]⟩
    split
    · next hpiece =>
      -- The first piece is a dot, and the slash after it stands before the last piece.
      obtain ⟨piece, pieces, hpieces⟩ := List.exists_cons_of_ne_nil (splitSlash_ne_nil (c :: rest))
      rw [splitSlash_append_slash, hpieces, List.cons_append, List.head?_cons] at hpiece
      have hbegins : [[dot]] <+: splitSlash (c :: rest) := by
        rw [hpieces, Option.some.inj hpiece]
        exact List.prefix_append [[dot]] pieces
      obtain heq | ⟨more, heq⟩ := endsPiece_joinSlash (List.cons_ne_nil _ _) hbegins
      · exact ⟨[slash], .inr ⟨[], rfl⟩, by rw [heq]; rfl⟩
      · refine ⟨slash :: more ++ [slash], .inr ⟨slash :: more, rfl⟩, ?_⟩
        rw [heq]
        simp [joinSlash]
    · exact ⟨c :: rest ++ [slash], .inr ⟨c :: rest, rfl⟩, rfl⟩

/-- The last piece can be replaced. -/
theorem exists_pieces (h : BeginsPiece before) (hslash : slash ∉ last) (hne : last ≠ [])
    (hdot : last ≠ [dot]) :
    ∃ init, (Path.mk (before ++ last)).pieces = init ++ [last] ∧
      ∀ stem, slash ∉ stem →
        (Path.mk (before ++ last)).withPieces (init ++ [stem]) = ⟨before ++ stem⟩ := by
  obtain ⟨rest, hrest, hbefore⟩ := h.exists_head_append hslash hdot
  generalize hhead : (Path.mk (before ++ last)).head = head at hbefore
  obtain ⟨init, hsplit⟩ := hrest.exists_splitSlash
  have hdrop : (before ++ last).drop head.length = rest ++ last := by
    rw [hbefore, List.append_assoc, List.drop_left]
  refine ⟨init, ?_, ?_⟩
  · rw [pieces, hhead, hdrop, hsplit last hslash, trimPieces]
    simp [hne, hdot]
  · intro stem hstem
    rw [withPieces, hhead, ← hsplit stem hstem, joinSlash_splitSlash, hbefore, List.append_assoc]

theorem fileName?_append (h : BeginsPiece before) (hslash : slash ∉ last) (hne : last ≠ [])
    (hdot : last ≠ [dot]) :
    (Path.mk (before ++ last)).fileName? = if last = [dot, dot] then none else some last := by
  obtain ⟨init, hpieces, -⟩ := h.exists_pieces hslash hne hdot
  rw [fileName?, hpieces, List.getLast?_concat]
  split <;> simp_all

/-- A path that ends in its stem, or in the stem and a dot, is cut after the stem. -/
theorem endAtStem_append (h : BeginsPiece before) (hslash : slash ∉ last) (hne : last ≠ [])
    (hdot : last ≠ [dot]) (hdots : last ≠ [dot, dot]) {stem : Bytes}
    (hstem : (splitExtension last).1 = stem) (hbegins : stem <+: last) :
    (Path.mk (before ++ last)).endAtStem = ⟨before ++ stem⟩ := by
  have hfile := h.fileName?_append hslash hne hdot
  rw [if_neg hdots] at hfile
  obtain ⟨init, hpieces, hwith⟩ := h.exists_pieces hslash hne hdot
  rw [endAtStem, stem?, hfile, Option.map_some, hstem, hpieces, List.dropLast_concat]
  exact hwith stem fun hmem => hslash (hbegins.subset hmem)

end BeginsPiece

/-- A name inside a directory follows the bytes of the directory, and a slash where one is
missing. -/
theorem exists_join_bytes (directory : Path) :
    ∃ before, BeginsPiece before ∧
      (before = directory.bytes ∨ directory.bytes ≠ [] ∧ before = directory.bytes ++ [slash]) ∧
      ∀ name, slash ∉ name → directory.join ⟨name⟩ = ⟨before ++ name⟩ := by
  have hrelative : ∀ {name : Bytes}, slash ∉ name → (Path.mk name).isAbsolute = false := by
    intro name hname
    have hhead : name.head? ≠ some slash := fun hhead => hname (List.mem_of_mem_head? hhead)
    simp [isAbsolute, hhead]
  by_cases h : directory.bytes = [] ∨ directory.bytes.getLast? = some slash
  · refine ⟨directory.bytes, ?_, .inl rfl, ?_⟩
    · exact h.imp_right List.getLast?_eq_some_iff.1
    · intro name hname
      rw [join, hrelative hname, if_neg Bool.false_ne_true, if_pos h]
  · refine ⟨directory.bytes ++ [slash], .inr ⟨_, rfl⟩, .inr ⟨fun hnil => h (.inl hnil), rfl⟩, ?_⟩
    intro name hname
    rw [join, hrelative hname, if_neg Bool.false_ne_true, if_neg h, List.append_assoc]
    rfl

/-- A name inside a directory is a last piece after the names of the directory. -/
theorem exists_join (directory : Path) :
    ∃ before, BeginsPiece before ∧ (Path.mk before).names = directory.names ∧
      ∀ name, slash ∉ name → directory.join ⟨name⟩ = ⟨before ++ name⟩ := by
  obtain ⟨before, hbefore, rfl | ⟨-, rfl⟩, hjoin⟩ := directory.exists_join_bytes
  · exact ⟨_, hbefore, rfl, hjoin⟩
  · refine ⟨_, hbefore, ?_, hjoin⟩
    rw [names_append_slash]
    exact List.append_nil _

end Path

namespace FileSystem

variable {fs : FileSystem} {host : Host} {p : Path} {directory : Location} {name : Bytes}

/-- A path that leads to a file ends in the name of the file. -/
theorem Leads.exists_append (h : fs.Leads host p directory name) :
    ∃ before, Path.BeginsPiece before ∧ p = ⟨before ++ name⟩ ∧ slash ∉ name ∧ name ≠ [] := by
  obtain ⟨before, last, hbytes, hbefore, hslash⟩ := Path.exists_lastPiece p.bytes
  obtain ⟨hfault, -, -, hname⟩ := resolveParent_eq_ok h.resolveParent_eq
  have hp : p = ⟨before ++ last⟩ := by rw [← hbytes]
  have hne : last ≠ [] := by
    rintro rfl
    rw [List.append_nil] at hbytes
    have hends := h.endsInSlash_eq
    obtain rfl | ⟨rest, rfl⟩ := hbefore
    · simp [Path.fault?, hbytes] at hfault
    · simp [Path.endsInSlash, hbytes] at hends
  rw [hp, hbefore.names_append hslash hne, List.getLast?_concat, Option.getD_some] at hname
  subst hname
  exact ⟨before, hbefore, hp, hslash, hne⟩

end FileSystem

end DrillPost

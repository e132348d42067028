import DrillPost.Job.Json
import DrillPost.Proofs.Job.Forms
import DrillPost.Proofs.Json.Agreement

/-!
# Tool jobs read directly

A tool job can be read from a text directly, or as the tree that a drill job is read from. Both ways
have the same holes, segments and tool jobs (`Hole.agrees_read`, `Segment.agrees_read`,
`ToolJob.agrees_read`), whatever else is in the text: what is passed over by one way is read by the
other and means nothing. So the direct way reads whatever is read as a tool job alone, and more only
where the text has no tree (`DrillJob.isReadAlone_iff`).

For the members of an object the two ways differ most: one reads a member when it comes, the other
looks for it by its name in the end. `ToolJob.foldlM_field?` compares them.
-/

namespace DrillPost

open Json

/-! ### Holes -/

namespace Hole

theorem ofTree?_list (items : List Tree) :
    Hole.ofTree? (.list items) =
      (items.head?.bind Tree.real?).bind fun x => (items.tail.head?.bind Tree.real?).bind fun y =>
        if items.tail.tail = [] then some ⟨x, y⟩ else none := by
  match items with
  | [] => rfl
  | [x] => simp [Hole.ofTree?]
  | [x, y] => cases hx : x.real? <;> cases hy : y.real? <;> simp [Hole.ofTree?, hx, hy]
  | _ :: _ :: _ :: _ => simp [Hole.ofTree?]

theorem gives_readPair {depth : Nat} {s rest : List Char} {items : List Tree}
    (h : ReadsTreeItems depth true s items rest) :
    Gives (readPair s) (Hole.ofTree? (.list items)) rest := by
  rw [readPair, ofTree?_list]
  rcases needItem_cases agrees_readReal 0 "an array of length 2" h with
    ⟨e, he, hx⟩ | ⟨⟨x, t⟩, hneed, hx, h⟩
  · rw [he, hx]
    exact ⟨e, rfl⟩
  · rw [hneed, hx, Option.bind_some]
    dsimp only
    rcases needItem_cases agrees_readReal 1 "an array of length 2" h with
      ⟨e, he, hy⟩ | ⟨y, hneed, hy, h⟩
    · rw [he, hy]
      exact ⟨e, rfl⟩
    · rw [hneed, hy, Option.bind_some]
      exact Part.gives_close (y.after t (Hole.mk x)) h

theorem agrees_read : Agrees Hole.read Hole.ofTree? := by
  apply agrees_of_list _ _ gives_readPair
  · exact fun _ => rfl
  · rintro (_ | _ | ⟨_ | _⟩ | _) <;> rfl
  · intro s c hnext hbracket
    rw [Hole.read, hnext]
    exact if_pos hbracket
  · intro s c hnext hne
    rw [Hole.read, hnext]
    exact ⟨_, if_neg hne⟩

end Hole

/-! ### Segments -/

namespace Segment

theorem gives_readItems {depth : Nat} {s rest : List Char} {items : List Tree}
    (h : ReadsTreeItems depth true s items rest) :
    Gives (readItems s) (Segment.ofTree? (.list items)) rest := by
  rw [readItems, Segment.ofTree?]
  rcases itemOr_cases [] (agrees_readList Hole.agrees_read) 0 h with
    ⟨e, he, hholes⟩ | ⟨⟨holes, t⟩, hitem, hholes, h⟩
  · rw [he, hholes]
    exact ⟨e, rfl⟩
  · rw [hitem, hholes, apply_ite (Option.map Segment.mk)]
    exact Part.gives_close (⟨⟨holes⟩, t⟩ : Part Segment s) h

/-- What a member means for the holes that are known. -/
def field? (holes : Option (List Hole)) (name : String) : Tree → Option (Option (List Hole)) :=
  if name = "holes" then setOnce? holes (Tree.itemsAs? Hole.ofTree?) some else fun _ => some holes

theorem fieldAgrees (holes : Option (List Hole)) (name : String) :
    FieldAgrees (field holes name) (field? holes name) := by
  unfold field field?
  split_ifs
  · exact fieldAgrees_setOnce (agrees_readList Hole.agrees_read)
  · exact fieldAgrees_ignoreField holes

/-- The holes of a segment are those of the only member with their name. -/
theorem foldlM_field? (members : List (String × Tree)) (holes : Option (List Hole)) :
    members.foldlM (fun holes m => field? holes m.1 m.2) holes =
      once? (Tree.itemsAs? Hole.ofTree?) holes (Tree.valuesOf "holes" members) := by
  induction members generalizing holes with
  | nil => rfl
  | cons m members ih =>
    obtain ⟨name, t⟩ := m
    rw [List.foldlM_cons]
    simp only [ih]
    by_cases hname : name = "holes"
    · subst hname
      rw [valuesOf_cons_self, once?_cons, field?, if_pos rfl]
      rfl
    · rw [valuesOf_cons_of_ne hname, field?, if_neg hname]
      rfl

theorem gives_readFields {depth : Nat} {s rest : List Char} {members : List (String × Tree)}
    (h : ReadsTreeMembers depth true [] s members rest) :
    Gives (readFields s) (Segment.ofTree? (.map members.reverse)) rest := by
  obtain ⟨added, rfl, hadded⟩ := exists_gives_readMembers fieldAgrees h
  have hgives := (hadded none).map fun holes => Segment.mk (holes.getD [])
  rw [foldlM_field?] at hgives
  rw [List.append_nil, List.reverse_reverse, Segment.ofTree?, ← getD_once?, Option.map_map]
  exact hgives

theorem agrees_read : Agrees read Segment.ofTree? := by
  apply record.agrees gives_readItems gives_readFields
  rintro (_ | _ | ⟨_ | _⟩ | _) <;> rfl

end Segment

/-! ### Tool jobs -/

namespace ToolJob

theorem ofParts?_eq (diameter : Tree) (segments : List Tree) :
    ofParts? diameter segments = diameter.real?.bind fun x =>
      (Tree.onlyValue? [] (Tree.itemsAs? Segment.ofTree?) segments).map (ToolJob.mk x) := by
  rw [ofParts?]
  cases diameter.real? with
  | none => rfl
  | some x => cases Tree.onlyValue? [] (Tree.itemsAs? Segment.ofTree?) segments <;> rfl

theorem ofTree?_list (items : List Tree) :
    ToolJob.ofTree? (.list items) = (items.head?.bind Tree.real?).bind fun x =>
      (Tree.onlyValue? [] (Tree.itemsAs? Segment.ofTree?) items.tail).map (ToolJob.mk x) := by
  cases items with
  | nil => rfl
  | cons diameter segments => exact ofParts?_eq diameter segments

theorem gives_readItems {depth : Nat} {s rest : List Char} {items : List Tree}
    (h : ReadsTreeItems depth true s items rest) :
    Gives (readItems s) (ToolJob.ofTree? (.list items)) rest := by
  rw [readItems, ofTree?_list]
  rcases needItem_cases agrees_readReal 0 "struct ToolJob with 2 elements" h with
    ⟨e, he, hx⟩ | ⟨⟨x, t⟩, hneed, hx, h⟩
  · rw [he, hx]
    exact ⟨e, rfl⟩
  · rw [hneed, hx, Option.bind_some]
    dsimp only
    rcases itemOr_cases [] (agrees_readList Segment.agrees_read) 1 h with
      ⟨e, he, hsegments⟩ | ⟨segments, hitem, hsegments, h⟩
    · rw [he, hsegments]
      exact ⟨e, rfl⟩
    · rw [hitem, hsegments, apply_ite (Option.map (ToolJob.mk x))]
      exact Part.gives_close (segments.after t (ToolJob.mk x)) h

/-- What a member means for the fields that are known. -/
def field? (fields : Fields) (name : String) : Tree → Option Fields :=
  if name = "diameter" then
    setOnce? fields.diameter Tree.real? fun x => { fields with diameter := some x }
  else if name = "segments" then
    setOnce? fields.segments (Tree.itemsAs? Segment.ofTree?) fun l =>
      { fields with segments := some l }
  else fun _ => some fields

theorem fieldAgrees (fields : Fields) (name : String) :
    FieldAgrees (field fields name) (field? fields name) := by
  unfold field field?
  split_ifs
  · exact fieldAgrees_setOnce agrees_readReal
  · exact fieldAgrees_setOnce (agrees_readList Segment.agrees_read)
  · exact fieldAgrees_ignoreField fields

/-- The fields of a tool job are those of the only members with their names. -/
theorem foldlM_field? (members : List (String × Tree)) (fields : Fields) :
    members.foldlM (fun fields m => field? fields m.1 m.2) fields =
      (once? Tree.real? fields.diameter (Tree.valuesOf "diameter" members)).bind fun diameter =>
        (once? (Tree.itemsAs? Segment.ofTree?) fields.segments
          (Tree.valuesOf "segments" members)).map fun segments => ⟨diameter, segments⟩ := by
  induction members generalizing fields with
  | nil => rfl
  | cons m members ih =>
    obtain ⟨name, t⟩ := m
    rw [List.foldlM_cons]
    simp only [ih]
    by_cases hdiameter : name = "diameter"
    · subst hdiameter
      rw [valuesOf_cons_self, valuesOf_cons_of_ne (by decide), once?_cons, field?, if_pos rfl]
      unfold setOnce?
      split_ifs
      · rfl
      · cases t.real? <;> rfl
    · by_cases hsegments : name = "segments"
      · subst hsegments
        rw [valuesOf_cons_self, valuesOf_cons_of_ne (by decide), field?, if_neg (by decide),
          if_pos rfl]
        simp only [once?_cons]
        unfold setOnce?
        -- What is wrong with the segments is wrong whatever the diameter is.
        split_ifs
        · cases once? Tree.real? fields.diameter (Tree.valuesOf "diameter" members) <;> rfl
        · cases t.itemsAs? Segment.ofTree? with
          | none => cases once? Tree.real? fields.diameter (Tree.valuesOf "diameter" members) <;> rfl
          | some l => rfl
      · rw [valuesOf_cons_of_ne hdiameter, valuesOf_cons_of_ne hsegments, field?, if_neg hdiameter,
          if_neg hsegments]
        rfl

/-- What has been read of the members of a tool job is a tool job if there is a diameter. -/
theorem ofTree?_map (members : List (String × Tree)) :
    ToolJob.ofTree? (.map members) =
      (members.foldlM (fun fields m => field? fields m.1 m.2) ⟨none, none⟩).bind fun fields =>
        fields.diameter.map fun diameter => ⟨diameter, fields.segments.getD []⟩ := by
  rw [foldlM_field?, ToolJob.ofTree?]
  rcases Tree.valuesOf "diameter" members with _ | ⟨diameter, _ | ⟨_, _⟩⟩
  · cases once? (Tree.itemsAs? Segment.ofTree?) none (Tree.valuesOf "segments" members) <;> rfl
  · dsimp only
    rw [ofParts?_eq, ← getD_once?, once?]
    cases diameter.real? with
    | none => rfl
    | some x =>
      cases once? (Tree.itemsAs? Segment.ofTree?) none (Tree.valuesOf "segments" members) <;> rfl
  · rfl

theorem gives_readFields {depth : Nat} {s rest : List Char} {members : List (String × Tree)}
    (h : ReadsTreeMembers depth true [] s members rest) :
    Gives (readFields s) (ToolJob.ofTree? (.map members.reverse)) rest := by
  obtain ⟨added, rfl, hadded⟩ := exists_gives_readMembers fieldAgrees h
  rw [List.append_nil, List.reverse_reverse, ofTree?_map, readFields]
  rcases (hadded ⟨none, none⟩).cases with ⟨e, he, hnone⟩ | ⟨fields, shorter, hread, hsome⟩
  · rw [he, hnone]
    exact ⟨e, rfl⟩
  · rw [hread, hsome, Option.bind_some]
    dsimp only
    cases fields.diameter with
    | none => exact ⟨_, rfl⟩
    | some diameter => exact reads_ok.2 ⟨rfl, rfl⟩

theorem agrees_read : Agrees read ToolJob.ofTree? := by
  apply record.agrees gives_readItems gives_readFields
  rintro (_ | _ | ⟨_ | _⟩ | _) <;> rfl

end ToolJob

/-! ### Drill jobs -/

namespace DrillJob

/-- The text is read as a drill job that is a tool job alone. -/
def IsReadAlone (text : String) (tool : ToolJob) : Prop :=
  ofJson text = .ok ⟨[tool]⟩ ∧ ∃ tree, readText readTree text = .ok tree ∧
    ofMany? tree = none ∧ ofOne? tree = some ⟨[tool]⟩

theorem ofJson_eq_ok_iff {text : String} {d : DrillJob} :
    ofJson text = .ok d ↔ ∃ tree, readText readTree text = .ok tree ∧ ofTree? tree = some d := by
  unfold ofJson readText
  cases readTree text.toList with
  | error e => simp
  | ok r =>
    dsimp only
    cases htree : ofTree? r.value with
    | none => split_ifs <;> simp [htree]
    | some job => split_ifs <;> simp [htree]

/-- A text is read as a tool job alone exactly if it has a tree and is read as the tool job
directly. -/
theorem isReadAlone_iff (text : String) (tool : ToolJob) :
    IsReadAlone text tool ↔
      readText ToolJob.read text = .ok tool ∧ ∃ tree, readText readTree text = .ok tree := by
  constructor
  · rintro ⟨-, tree, htree, -, hone⟩
    obtain ⟨other, htool, heq⟩ := Option.map_eq_some_iff.1 hone
    obtain rfl : other = tool := by simpa using heq
    exact ⟨(ToolJob.agrees_read.readText_eq_ok_iff htree).2 htool, tree, htree⟩
  · rintro ⟨hread, tree, htree⟩
    have htool := (ToolJob.agrees_read.readText_eq_ok_iff htree).1 hread
    have hmany := ofMany?_eq_none_of_ofTree? htool
    have hone : ofOne? tree = some ⟨[tool]⟩ := by rw [ofOne?, htool]; rfl
    refine ⟨ofJson_eq_ok_iff.2 ⟨tree, htree, ?_⟩, tree, htree, hmany, hone⟩
    rw [ofTree?, hmany, hone]
    rfl

/-- A key with an escape, a member that means nothing, a segment without its name, and a coordinate
of minus zero. -/
theorem isReadAlone_iff_escaped_key :
    let text := "\x7b\"x\": [[\"\\n\"], null], \"\\u0064iameter\": 3, " ++
      "\"segments\": [[[[10, -0]]]]\x7d"
    let tool : ToolJob := ⟨.ofNat 3, [⟨[⟨.ofNat 10, .finite true .zero⟩]⟩]⟩
    IsReadAlone text tool ∧ readText ToolJob.read text = .ok tool := by
  intro text tool
  have htool : (readText readTree text).toOption.bind ToolJob.ofTree? = some tool := by
    decide +kernel
  cases htree : readText readTree text with
  | error e =>
    rw [htree] at htool
    cases htool
  | ok tree =>
    rw [htree] at htool
    have hread := (ToolJob.agrees_read.readText_eq_ok_iff htree).2 htool
    exact ⟨(isReadAlone_iff text tool).2 ⟨hread, tree, htree⟩, hread⟩

end DrillJob

end DrillPost

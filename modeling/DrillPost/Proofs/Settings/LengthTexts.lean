import DrillPost.Proofs.Json.Text
import DrillPost.Proofs.Settings.Lengths

/-!
# Texts that give one length

For every short number there are texts in both formats that give a length as it and state nothing
else (`FileFormat.gives_lengthText`). So whatever is said of all texts that give a length as a
number is said of some, however the number is spelled.
-/

namespace DrillPost

/-! ### Objects of one member -/

namespace Json

def memberText (name : String) (value : List Char) : List Char :=
  '\x7b' :: (quote name ++ ':' :: (value ++ ['\x7d']))

variable {value rest : List Char}

theorem reads_memberText (name : String)
    (hvalue : Reads (skipValue (value ++ '\x7d' :: rest)) () ('\x7d' :: rest)) :
    Reads (readMembers readString noteMember true []
      (quote name ++ ':' :: (value ++ '\x7d' :: rest))) [(name, value ++ '\x7d' :: rest)] rest := by
  have hname := reads_readString name (':' :: (value ++ '\x7d' :: rest))
  obtain ⟨t, hnext, ht⟩ := nextMember_first (List.forall_mem_nil _)
    (name.toList.flatMap escape ++ '"' :: ':' :: (value ++ '\x7d' :: rest))
  have htext : quote name ++ ':' :: (value ++ '\x7d' :: rest) = [] ++ '"' ::
      (name.toList.flatMap escape ++ '"' :: ':' :: (value ++ '\x7d' :: rest)) := by
    simp [quote]
  rw [← ht] at hname
  rw [htext]
  exact reads_readMembers_iff.2 (.inr ⟨t, name, _, _, _, _, _, hnext, hname, rfl,
    reads_readColon _, reads_map.2 ⟨_, reads_here_iff.2 ⟨hvalue, rfl⟩, rfl⟩,
    gives_readMembers_last (List.forall_mem_nil _) rest readString noteMember false _⟩)

/-- The member is the only part, and the object is a record of whatever fields. -/
theorem parts?_memberText (name : String)
    (hvalue : Reads (skipValue (value ++ '\x7d' :: rest)) () ('\x7d' :: rest)) :
    Reads (skipValue (memberText name value ++ rest)) () rest ∧
      parts? (memberText name value ++ rest) =
          some (.ofMembers [(name, value ++ '\x7d' :: rest)]) ∧
        ∀ fields, IsRecord fields (memberText name value ++ rest) := by
  have hmembers := reads_memberText name hvalue
  have hnext := reads_nextChar_cons (c := '\x7b') (by decide)
    (quote name ++ ':' :: (value ++ '\x7d' :: rest))
  have htext : memberText name value ++ rest =
      '\x7b' :: (quote name ++ ':' :: (value ++ '\x7d' :: rest)) := by
    simp [memberText]
  rw [htext]
  have hnone := items?_eq_none hnext
  have hsome := members?_eq_some hnext hmembers
  refine ⟨reads_skipValueIn_iff.2 ⟨_, _, hnext, ?_⟩, ?_, fun fields => ⟨?_, ?_⟩⟩
  · simpa using reads_skipFirstIn_of_readMembers hmembers
  · rw [parts?, hnone, hsome]
    rfl
  · rw [hnone]
    exact nofun
  · intro members heq
    rw [hsome] at heq
    obtain rfl := Option.some.inj heq
    exact List.pairwise_singleton _ _

end Json

/-! ### Documents of one member -/

theorem Parts.without_singleton {ν : Type} (name : String) (n : ν) :
    (Parts.ofMembers [(name, n)]).without name = .ofMembers [] := by
  funext other position
  unfold Parts.without Parts.ofMembers
  split_ifs with hname
  · rfl
  · rw [List.lookup_cons, beq_eq_false_iff_ne.2 hname]

variable {setting : LengthSetting}

/-- A document of one member in another says nothing else. -/
theorem Medium.gives_of_parts? {ν : Type} {m : Medium ν} {number encoder root : ν}
    (hparts : m.parts? root = some (.ofMembers [("encoder", encoder)]))
    (hfields : m.parts? encoder = some (.ofMembers [(setting.fieldName, number)])) :
    m.Gives setting number root ⟨.none, none⟩ := by
  have hnumber : Parts.ofMembers [(setting.fieldName, number)] setting.fieldName
      setting.position = some number := List.lookup_cons_self
  have hothers : m.overrides? ((Parts.ofMembers [(setting.fieldName, number)]).without
      setting.fieldName) = some .none := by
    rw [Parts.without_singleton]
    exact Medium.overrides?_nil
  exact .intro hparts rfl hfields hnumber hothers
    (Parts.read?_cons_of_ne (by decide) 1 : _ = some none)

theorem Form.isRegular_of_parts? {ν : Type} {f : Form ν} {encoder root : ν}
    (hparts : f.parts? root = some (.ofMembers [("encoder", encoder)]))
    (hroot : ∀ fields, f.IsRecord fields root) (hencoder : ∀ fields, f.IsRecord fields encoder) :
    f.IsRegular root := by
  refine ⟨hroot _, fun parts heq part hpart => ?_, fun parts heq part hpart => ?_⟩
  · obtain rfl := Option.some.inj (hparts.symm.trans heq)
    obtain rfl := Option.some.inj hpart
    exact hencoder _
  · obtain rfl := Option.some.inj (hparts.symm.trans heq)
    cases hpart

/-- A text that gives a length as a number, and states nothing else. -/
def FileFormat.lengthText (setting : LengthSetting) (number : List Char) : FileFormat → String
  | .json => String.ofList (Json.memberText "encoder" (Json.memberText setting.fieldName number))
  | .toml => String.ofList
      ('[' :: ("encoder".toList ++ [']', '\n'] ++
        (setting.fieldName.toList ++ [' ', '=', ' '] ++ number ++ ['\n'])))

variable {l : Json.Literal} {negative : Bool} {number : List Char}

theorem Json.gives_lengthText (h : l.IsShortNumber negative number) (setting : LengthSetting) :
    FileFormat.json.Gives setting number ⟨.none, none⟩
      (FileFormat.json.lengthText setting number) := by
  have hblanks : ∀ c ∈ ([] : List Char), isBlank c = true := List.forall_mem_nil _
  have hends : ∀ c ∈ (['\x7d', '\x7d'] : List Char).head?, EndsNumber c :=
    forall_mem_head?_cons (by decide) _
  obtain ⟨y, -, hread⟩ := exists_reads_readReal h hblanks hends
  obtain ⟨hencoder, hfields, hfieldsRecord⟩ :=
    parts?_memberText setting.fieldName (means_readReal hread).1
  have hvalue : Reads (skipValue (memberText setting.fieldName number ++ '\x7d' :: []))
      () ('\x7d' :: []) := hencoder
  obtain ⟨hroot, hparts, hrecord⟩ := parts?_memberText "encoder" hvalue
  rw [List.append_nil] at hroot hparts hrecord
  have htext : (FileFormat.json.lengthText setting number).toList =
      memberText "encoder" (memberText setting.fieldName number) := String.toList_ofList
  have hgives : medium.Gives setting ([] ++ (number ++ ['\x7d', '\x7d']))
      (FileFormat.json.lengthText setting number).toList ⟨.none, none⟩ := by
    rw [htext]
    exact Medium.gives_of_parts? hparts hfields
  refine .json ?_ hblanks hends hgives
  rw [FileFormat.IsRegular, htext]
  exact ⟨Form.isRegular_of_parts? hparts hrecord hfieldsRecord, [], hroot, rfl⟩

namespace Toml

theorem Assignment.isRead_of_literal {name : String} (hname : IsBareKey name) {text : List Char}
    {value : Scalar} (h : l.IsSpelled text) (hvalue : literalValue? negative l = some value) :
    IsRead ⟨name, signText negative ++ text, value⟩ := by
  have hread : ∀ rest, Reads (readNumeric (signText negative ++ text ++ '\n' :: rest)) value
      ('\n' :: rest) := by
    intro rest
    rw [List.append_assoc]
    exact reads_readNumeric_literal h hvalue (forall_mem_head?_cons (by decide) rest)
  obtain ⟨c, r, hcons, -, hbegins⟩ := h.exists_signed_eq_cons negative []
  rw [List.append_nil] at hcons
  rw [hcons] at hread ⊢
  exact isRead_of_number hname (Json.beginsNumber_iff.1 hbegins) hread

/-- The member is the only part of a table of one member, and the table is a record of whatever
fields. -/
theorem parts?_table (origin : Origin) (span : Option Span) {m : Key × Node} {name : String}
    (hm : m.1.name = name) :
    medium.parts? (.table origin span [m]) = some (.ofMembers [(name, m.2)]) ∧
      ∀ fields, IsRecord fields (.table origin span [m]) := by
  subst hm
  refine ⟨rfl, fun fields members heq => ?_⟩
  obtain rfl := Option.some.inj heq
  exact List.pairwise_singleton _ _

/-- The block of a line that gives a length. -/
def lengthBlock (setting : LengthSetting) (number : List Char) (value : Scalar) : Block :=
  ⟨"encoder", [⟨setting.fieldName, number, value⟩]⟩

theorem lengthText_eq (setting : LengthSetting) (number : List Char) (value : Scalar) :
    FileFormat.toml.lengthText setting number =
      String.ofList (documentText [lengthBlock setting number value]) := by
  rw [documentText, Block.text, lengthBlock, List.flatMap_singleton]
  rfl

theorem gives_lengthText (h : l.IsShortNumber negative number) (setting : LengthSetting) :
    FileFormat.toml.Gives setting number ⟨.none, none⟩
      (FileFormat.toml.lengthText setting number) := by
  obtain ⟨text, hspelled, rfl⟩ := h.exists_text
  obtain ⟨value, y, hvalue, -, -⟩ := exists_literalValue? h.toIsShort negative
  have hname : IsBareKey setting.fieldName := by cases setting <;> decide
  have hline := Assignment.isRead_of_literal hname hspelled hvalue
  have hblock : (lengthBlock setting (signText negative ++ text) value).IsRead :=
    ⟨(by decide : IsBareKey "encoder"), List.forall_mem_singleton.2 hline, List.nodup_singleton _⟩
  obtain ⟨span, tables, hroot, htables⟩ :=
    ofText?_documentText (List.forall_mem_singleton.2 hblock) (List.nodup_singleton _)
  rw [← lengthText_eq] at hroot
  obtain ⟨table, _, ⟨htable, span', members, hencoder, hmembers⟩, hnil, rfl⟩ :=
    List.forall₂_cons_left_iff.1 htables
  obtain rfl := List.forall₂_nil_left_iff.1 hnil
  obtain ⟨member, _, ⟨hmember, rest, hnumber⟩, hnil, rfl⟩ := List.forall₂_cons_left_iff.1 hmembers
  obtain rfl := List.forall₂_nil_left_iff.1 hnil
  obtain ⟨hparts, hrecord⟩ := parts?_table .header (some span) htable
  obtain ⟨hfields, hfieldsRecord⟩ := parts?_table .header (some span') hmember
  rw [← hencoder] at hfields hfieldsRecord
  rw [hnumber] at hfields
  refine .toml (fun n hn => ?_) hroot rfl (forall_mem_head?_cons (by decide) rest)
    (Medium.gives_of_parts? hparts hfields)
  obtain rfl := Option.some.inj (hroot.symm.trans hn)
  exact Form.isRegular_of_parts? hparts hrecord hfieldsRecord

end Toml

theorem FileFormat.gives_lengthText (h : l.IsShortNumber negative number) (format : FileFormat)
    (setting : LengthSetting) :
    format.Gives setting number ⟨.none, none⟩ (format.lengthText setting number) := by
  cases format with
  | json => exact Json.gives_lengthText h setting
  | toml => exact Toml.gives_lengthText h setting

end DrillPost

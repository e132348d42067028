/-!
# Bytes and text

`utf8` is the encoding of a text and `ofUtf8?` its inverse: `ofUtf8?_utf8` says that every text is
read back from its bytes. `lossy` shows bytes that may encode no text: each longest piece that could
begin a character but does not become one is shown as the replacement character.
-/

namespace DrillPost

/-- A sequence of octets: the content of a file, or a name in a file system. -/
abbrev Bytes := List UInt8

def utf8 (s : String) : Bytes := s.toList.flatMap String.utf8EncodeChar

/-- The text that bytes encode, if they encode one. -/
def ofUtf8? (b : Bytes) : Option String := String.fromUTF8? ⟨b.toArray⟩

theorem utf8_append (s t : String) : utf8 (s ++ t) = utf8 s ++ utf8 t := by
  simp [utf8]

@[simp] theorem utf8_empty : utf8 "" = [] := by simp [utf8]

/-- The bytes of a text are its encoding in core's sense. -/
theorem toByteArray_eq_utf8 (s : String) : s.toByteArray = ⟨(utf8 s).toArray⟩ := by
  apply ByteArray.ext
  rw [← String.utf8Encode_toList]
  simp [utf8, List.utf8Encode]

/-- Every text is read back from its encoding. -/
theorem ofUtf8?_utf8 (s : String) : ofUtf8? (utf8 s) = some s := by
  have h : (⟨(utf8 s).toArray⟩ : ByteArray) = s.toByteArray := (toByteArray_eq_utf8 s).symm
  unfold ofUtf8?
  rw [h, String.fromUTF8?, dif_pos s.isValidUTF8]
  exact congrArg some (String.toByteArray_inj.1 rfl)

/-! ### Showing bytes that are no text -/

/-- A character that has begun: the bits read so far, how many octets it still needs, and the range
that the next of them must lie in. -/
structure PartialChar where
  bits : Nat
  missing : Nat
  low : UInt8
  high : UInt8

namespace PartialChar

/-- What an octet begins: a character of its own, a character of several octets, or none. -/
def begin? (b : UInt8) : Option PartialChar :=
  if 0xC2 ≤ b ∧ b ≤ 0xDF then some ⟨b.toNat % 32, 1, 0x80, 0xBF⟩
  else if b = 0xE0 then some ⟨0, 2, 0xA0, 0xBF⟩
  else if b = 0xED then some ⟨13, 2, 0x80, 0x9F⟩
  else if 0xE1 ≤ b ∧ b ≤ 0xEF then some ⟨b.toNat % 16, 2, 0x80, 0xBF⟩
  else if b = 0xF0 then some ⟨0, 3, 0x90, 0xBF⟩
  else if 0xF1 ≤ b ∧ b ≤ 0xF3 then some ⟨b.toNat % 8, 3, 0x80, 0xBF⟩
  else if b = 0xF4 then some ⟨4, 3, 0x80, 0x8F⟩
  else none

/-- The bits with those of a further octet. -/
def extend (p : PartialChar) (b : UInt8) : Nat := p.bits * 64 + b.toNat % 64

end PartialChar

/-- The character that stands for bytes that encode none. -/
def replacement : Char := '\uFFFD'

/-- What an octet that belongs to no earlier character shows, and what it begins. -/
def beginChar (b : UInt8) : List Char × Option PartialChar :=
  if b < 0x80 then ([Char.ofNat b.toNat], none)
  else match PartialChar.begin? b with
    | some p => ([], some p)
    | none => ([replacement], none)

/-- What one more octet shows, and what is begun after it. -/
def decodeStep (begun : Option PartialChar) (b : UInt8) : List Char × Option PartialChar :=
  match begun with
  | none => beginChar b
  | some p =>
    if p.low ≤ b ∧ b ≤ p.high then
      if p.missing = 1 then ([Char.ofNat (p.extend b)], none)
      else ([], some ⟨p.extend b, p.missing - 1, 0x80, 0xBF⟩)
    else (replacement :: (beginChar b).1, (beginChar b).2)

/-- Decodes bytes that follow the beginning of a character, if one is given. -/
def lossyFrom : (begun : Option PartialChar) → Bytes → List Char
  | none, [] => []
  | some _, [] => [replacement]
  | begun, b :: r => (decodeStep begun b).1 ++ lossyFrom (decodeStep begun b).2 r

/-- Shows bytes as text, with the replacement character where they encode none. -/
def lossy (b : Bytes) : String := String.ofList (lossyFrom none b)

end DrillPost

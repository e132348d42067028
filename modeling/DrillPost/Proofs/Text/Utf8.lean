import DrillPost.Files.Path
import Mathlib.Logic.Basic

/-!
# Bytes of texts

Texts with the same bytes are the same text (`utf8_injective`), and a byte below `0x80` stands for
one character wherever it occurs (`toNat_eq_of_mem_utf8EncodeChar`). So the bytes of a text divide a
path only where the text has a slash.
-/

namespace DrillPost

theorem utf8_injective {s t : String} (h : utf8 s = utf8 t) : s = t := by
  have hs := ofUtf8?_utf8 s
  rw [h, ofUtf8?_utf8] at hs
  exact (Option.some.inj hs).symm

/-- Bytes that encode a text are the encoding of that text. -/
theorem utf8_of_ofUtf8? {b : Bytes} {s : String} (h : ofUtf8? b = some s) : utf8 s = b := by
  unfold ofUtf8? String.fromUTF8? at h
  split at h
  · next hvalid =>
    have hbytes : s.toByteArray = ⟨b.toArray⟩ := by
      rw [← Option.some.inj h]
      rfl
    rw [toByteArray_eq_utf8] at hbytes
    exact List.toArray_inj (ByteArray.mk.inj hbytes)
  · cases h

/-- Octets of longer encodings are not below `0x80`. -/
theorem toNat_eq_of_mem_utf8EncodeChar {c : Char} {b : UInt8} (h : b ∈ String.utf8EncodeChar c)
    (hb : b.toNat < 0x80) : c.toNat = b.toNat := by
  have htoNat : ∀ n, (UInt8.ofNat n).toNat = n % 256 := fun n => UInt8.toNat_ofNat'
  show c.val.toNat = b.toNat
  unfold String.utf8EncodeChar at h
  dsimp only at h
  split at h
  · next hle =>
    rw [List.mem_singleton] at h
    rw [h, htoNat]
    omega
  split at h
  · simp only [List.mem_cons, List.not_mem_nil, or_false] at h
    rcases h with rfl | rfl <;> rw [htoNat] at hb <;> omega
  split at h
  · simp only [List.mem_cons, List.not_mem_nil, or_false] at h
    rcases h with rfl | rfl | rfl <;> rw [htoNat] at hb <;> omega
  · simp only [List.mem_cons, List.not_mem_nil, or_false] at h
    rcases h with rfl | rfl | rfl | rfl <;> rw [htoNat] at hb <;> omega

theorem slash_not_mem_utf8 {s : String} (h : '/' ∉ s.toList) : slash ∉ utf8 s := by
  intro hmem
  obtain ⟨c, hc, hslash⟩ := List.mem_flatMap.1 hmem
  have hval : c.toNat = '/'.toNat := toNat_eq_of_mem_utf8EncodeChar hslash (by decide)
  rw [Char.toNat_inj.1 hval] at hc
  exact h hc

end DrillPost

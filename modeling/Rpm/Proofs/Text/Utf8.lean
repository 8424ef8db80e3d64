import Mathlib.Tactic.Common
import Rpm.Bytes.Terminated

/-!
The bytes of texts.

Characters of seven bits have one byte each, which is their number. All bytes of other characters
are greater than those.
-/

namespace Rpm

def utf8Bytes (cs : List Char) : List UInt8 := cs.flatMap String.utf8EncodeChar

/-- The byte of a character, if it has only one. -/
def byteOf (c : Char) : UInt8 := UInt8.ofNat c.toNat

lemma toUTF8_eq_utf8Encode (s : String) : s.toUTF8 = s.toList.utf8Encode := by
  rw [String.toUTF8_eq_toByteArray, String.utf8Encode_toList]

lemma toList_toUTF8 (s : String) : s.toUTF8.data.toList = utf8Bytes s.toList := by
  rw [toUTF8_eq_utf8Encode, List.utf8Encode]
  simp [utf8Bytes]

lemma utf8Bytes_append (x y : List Char) : utf8Bytes (x ++ y) = utf8Bytes x ++ utf8Bytes y :=
  List.flatMap_append

lemma utf8EncodeChar_of_lt {c : Char} (h : c.toNat < 128) :
    String.utf8EncodeChar c = [byteOf c] := by
  have h' : c.val.toNat ≤ 127 := by
    have : c.val.toNat = c.toNat := rfl
    omega
  simp only [String.utf8EncodeChar, if_pos h']
  rfl

lemma le_of_mem_utf8EncodeChar {c : Char} (h : 128 ≤ c.toNat) {b : UInt8}
    (hb : b ∈ String.utf8EncodeChar c) : 128 ≤ b.toNat := by
  have h' : ¬ c.val.toNat ≤ 127 := by
    have : c.val.toNat = c.toNat := rfl
    omega
  simp only [String.utf8EncodeChar, if_neg h'] at hb
  split at hb
  · simp only [List.mem_cons, List.not_mem_nil, or_false] at hb
    rcases hb with rfl | rfl <;> simp <;> omega
  · split at hb
    · simp only [List.mem_cons, List.not_mem_nil, or_false] at hb
      rcases hb with rfl | rfl | rfl <;> simp <;> omega
    · simp only [List.mem_cons, List.not_mem_nil, or_false] at hb
      rcases hb with rfl | rfl | rfl | rfl <;> simp <;> omega

lemma toNat_byteOf {c : Char} (h : c.toNat < 128) : (byteOf c).toNat = c.toNat := by
  simp only [byteOf, UInt8.toNat_ofNat']
  omega

lemma utf8Bytes_eq_map {cs : List Char} (h : ∀ c ∈ cs, c.toNat < 128) :
    utf8Bytes cs = cs.map byteOf := by
  induction cs with
  | nil => rfl
  | cons c cs ih =>
    rw [utf8Bytes, List.flatMap_cons, utf8EncodeChar_of_lt (h c (by simp)), List.map_cons,
      ← utf8Bytes, ih fun c' hc' => h c' (by simp [hc'])]
    rfl

lemma size_toUTF8_of_lt {s : String} (h : ∀ c ∈ s.toList, c.toNat < 128) :
    s.toUTF8.size = s.toList.length := by
  have hlength : s.toUTF8.data.toList.length = s.toList.length := by
    rw [toList_toUTF8, utf8Bytes_eq_map h, List.length_map]
  simpa using hlength

lemma byteOf_eq_zero_iff {c : Char} (h : c.toNat < 128) : byteOf c = 0 ↔ c = '\x00' := by
  rw [← UInt8.toNat_inj, toNat_byteOf h]
  constructor
  · intro hc
    exact Char.toNat_inj.mp hc
  · rintro rfl
    rfl

lemma zero_mem_utf8Bytes {cs : List Char} (h : (0 : UInt8) ∈ utf8Bytes cs) : '\x00' ∈ cs := by
  obtain ⟨c, hc, hb⟩ := List.mem_flatMap.mp h
  by_cases hlt : c.toNat < 128
  · rw [utf8EncodeChar_of_lt hlt, List.mem_singleton] at hb
    exact (byteOf_eq_zero_iff hlt).mp hb.symm ▸ hc
  · have := le_of_mem_utf8EncodeChar (Nat.le_of_not_lt hlt) hb
    exact absurd this (by decide)

lemma holdsNul_eq_false {s : String} (h : '\x00' ∉ s.toList) : holdsNul s = false := by
  rw [holdsNul, Bool.eq_false_iff, ne_eq, Array.contains_iff_mem, ← Array.mem_toList_iff,
    toList_toUTF8]
  exact fun hmem => h (zero_mem_utf8Bytes hmem)

end Rpm

import Mathlib.Tactic.Common
import Rpm.Archive.Member
import Rpm.Proofs.Bytes
import Rpm.Proofs.Digest
import Rpm.Proofs.Except

/-!
Member headers read back from the bytes that hold them.

A field is eight digits, none of which is a plus sign, so that its number is read back if it fits. The
name is read back if it holds no zero byte and its size fits into the field that says it; the zeros
behind it are the same on both sides, since the size of a header is counted from its magic number on
both.
-/

namespace Rpm.Archive

/-! ### Fields -/

lemma mem_hexDigits {width n : Nat} {tail : List Char} {c : Char}
    (h : c ∈ hexDigits width n tail) : c ∈ tail ∨ ∃ d < 16, c = hexDigit d := by
  induction width generalizing n tail with
  | zero => exact Or.inl h
  | succ width ih =>
    rcases ih h with htail | hdigit
    · rcases List.mem_cons.mp htail with rfl | htail
      · exact Or.inr ⟨n % 16, Nat.mod_lt n (by decide), rfl⟩
      · exact Or.inl htail
    · exact Or.inr hdigit

lemma exists_of_mem_fieldText {n : Nat} {c : Char} (h : c ∈ (fieldText n).toList) :
    ∃ d < 16, c = hexDigit d := by
  rw [fieldText, String.toList_ofList] at h
  exact (mem_hexDigits h).resolve_left (by simp)

@[simp] lemma size_fieldText (n : Nat) : (fieldText n).toUTF8.size = 8 := by
  have hascii : ∀ c ∈ (fieldText n).toList, c.toNat < 128 := by
    intro c hc
    obtain ⟨d, hd, rfl⟩ := exists_of_mem_fieldText hc
    exact (toNat_hexDigit hd).2
  rw [size_toUTF8_of_lt hascii, fieldText, String.toList_ofList, length_hexDigits]
  rfl

lemma hexDigit_ne_plus {d : Nat} (h : d < 16) : hexDigit d ≠ '+' := by
  revert d
  decide

/-- Whether a text of eight bytes says a number. -/
def Spells (text : String) (n : UInt32) : Prop :=
  text.toUTF8.size = 8 ∧ ofFieldText? text = some n

lemma spells_fieldText (n : Nat) : Spells (fieldText n) (UInt32.ofNat n) := by
  refine ⟨size_fieldText n, ?_⟩
  have hdigits : ofHexDigits? 0 (fieldText n).toList = some (n % 2 ^ 32) := by
    rw [fieldText, String.toList_ofList, ofHexDigits?_hexDigits, ofHexDigits?, Nat.mul_zero,
      Nat.zero_add, show 16 ^ 8 = 2 ^ 32 from rfl]
  have hwrap : UInt32.ofNat (n % 2 ^ 32) = UInt32.ofNat n := by
    rw [← UInt32.toNat_inj, UInt32.toNat_ofNat', UInt32.toNat_ofNat', Nat.mod_mod]
  unfold ofFieldText?
  split
  · rename_i digits hplus
    obtain ⟨d, hd, hc⟩ := exists_of_mem_fieldText (n := n) (c := '+') (by simp [hplus])
    exact absurd hc.symm (hexDigit_ne_plus hd)
  · simp only [hdigits, Option.map_some, hwrap]

lemma Spells.readField {text : String} {n : UInt32} (h : Spells text n) (rest : ByteArray)
    (failure : Option StreamError) :
    readField ⟨text.toUTF8 ++ rest, failure⟩ = .ok (n, ⟨rest, failure⟩) := by
  simp only [Archive.readField, Source.readExact_append rest failure h.1.symm, Except.mapError,
    bind, Except.bind, fromUTF8?_toUTF8, h.2]
  rfl

/-! ### Names -/

lemma ofTerminated?_terminated {s : String} (h : holdsNul s = false) :
    ofTerminated? (terminated s) = some s := by
  have hnul := nulFrom_terminated h ByteArray.empty ByteArray.empty
    (Nat.lt_succ_self s.utf8ByteSize)
  have hextract := extract_terminated s ByteArray.empty ByteArray.empty
  simp only [ByteArray.empty_append, ByteArray.append_empty, ByteArray.size_empty,
    Nat.zero_add] at hnul hextract
  simp only [ofTerminated?, size_terminated, Nat.add_sub_cancel, hnul, hextract, if_true,
    fromUTF8?_toUTF8]

/-- What is read as a terminated string is one, and the string holds no zero byte. -/
lemma eq_terminated_of_ofTerminated? {bytes : ByteArray} {s : String}
    (h : ofTerminated? bytes = some s) : holdsNul s = false ∧ bytes = terminated s := by
  simp only [ofTerminated?] at h
  split at h
  · rename_i hnul
    obtain ⟨-, -, hlast, hlt, hbefore⟩ := nulFrom_eq_some_iff.mp hnul
    have hs := toUTF8_of_fromUTF8? h
    have hsize : s.utf8ByteSize = bytes.size - 1 := by
      show s.toUTF8.size = _
      rw [hs, ByteArray.size_extract]
      omega
    constructor
    · refine holdsNul_of_byteAt fun i hi => ?_
      rw [hs, byteAt_extract _ (by omega), Nat.zero_add]
      exact hbefore i (Nat.zero_le i) (by omega)
    · rw [terminated, hs, ← hlast, push_byteAt_eq (by omega)]
  · contradiction

namespace MemberHeader

/-- Whether a header says its name such that a reader finds the same. -/
structure Legible (h : MemberHeader) : Prop where
  hasNul_eq : holdsNul h.name = false
  /-- The field for the size of the name counts its zero byte. -/
  size_lt : h.name.utf8ByteSize + 1 < 2 ^ 32

variable {h : MemberHeader}

lemma size_content (h : MemberHeader) :
    h.content.size = headerSize + (h.name.utf8ByteSize + 1) := by
  have hmagic : magic.size = 6 := by decide +kernel
  simp only [content, ByteArray.size_append, hmagic, size_terminated, fields,
    size_concat_map _ size_fieldText, headerSize, List.length_cons, List.length_nil]

def nameZeros (h : MemberHeader) : ByteArray :=
  replicateByte (paddingFor 4 (headerSize + (h.name.utf8ByteSize + 1))) 0

lemma bytes_eq (h : MemberHeader) :
    h.bytes = magic ++ (concat (h.fields.map fun n => (fieldText n).toUTF8) ++
      (terminated h.name ++ h.nameZeros)) := by
  rw [bytes, size_content, content, nameZeros]
  simp only [ByteArray.append_assoc]

lemma dvd_size_bytes (h : MemberHeader) : 4 ∣ h.bytes.size := by
  rw [bytes, ByteArray.size_append, size_replicateByte]
  exact dvd_add_paddingFor (by decide) _

lemma headerSize_lt_size_bytes (h : MemberHeader) : headerSize < h.bytes.size := by
  rw [bytes, ByteArray.size_append, size_content]
  omega

end MemberHeader

end Rpm.Archive

import Rpm.Bytes.Terminated
import Rpm.Hash.Algorithm
import Rpm.Proofs.Text.Utf8

/-!
Digests and their hexadecimal text.

The size of a digest is told by its algorithm, and its text has two characters of one byte each for
every byte, none of them zero.
-/

namespace Rpm

@[simp] lemma DigestAlgorithm.size_digest (a : DigestAlgorithm) (message : ByteArray) :
    (a.digest message).size = a.outputSize := by
  cases a with
  | md5 => simp [digest, Hash.Md5.digest, outputSize]
  | sha1 => simp [digest, Hash.Sha1.digest, outputSize]
  | sha256 => simp [digest, Hash.Sha256.digest, Hash.Sha256.Words.bytes, outputSize]
  | sha384 => simp [digest, Hash.Sha512.digest384, Hash.Sha512.Words.bytes, outputSize]
  | sha512 => simp [digest, Hash.Sha512.digest, Hash.Sha512.Words.bytes, outputSize]

lemma DigestAlgorithm.ofId?_eq_some_iff {n : UInt32} {a : DigestAlgorithm} :
    ofId? n = some a ↔ n = a.id := by
  constructor
  · intro h
    unfold ofId? at h
    split_ifs at h <;> cases h <;> assumption
  · rintro rfl
    exact a.ofId?_id

lemma toNat_hexDigit {n : Nat} (h : n < 16) :
    0 < (hexDigit n).toNat ∧ (hexDigit n).toNat < 128 := by
  revert n
  decide

lemma toList_hexText (bytes : ByteArray) :
    (hexText bytes).toList = bytes.data.toList.flatMap fun b =>
      [hexDigit (b.toNat / 16), hexDigit (b.toNat % 16)] := by
  have h : ∀ (bs : List UInt8) (s : String),
      (bs.foldl (fun s b => (s.push (hexDigit (b.toNat / 16))).push (hexDigit (b.toNat % 16)))
        s).toList = s.toList ++ bs.flatMap fun b =>
          [hexDigit (b.toNat / 16), hexDigit (b.toNat % 16)] := by
    intro bs
    induction bs with
    | nil => simp
    | cons b bs ih =>
      intro s
      rw [List.foldl_cons, ih]
      simp
  rw [hexText, ← Array.foldl_toList, h]
  rfl

lemma utf8Bytes_hexText (bytes : ByteArray) :
    (hexText bytes).toUTF8.data.toList = (hexText bytes).toList.map byteOf ∧
      ∀ c ∈ (hexText bytes).toList, 0 < c.toNat ∧ c.toNat < 128 := by
  have hrange : ∀ c ∈ (hexText bytes).toList, 0 < c.toNat ∧ c.toNat < 128 := by
    intro c hc
    rw [toList_hexText, List.mem_flatMap] at hc
    obtain ⟨b, -, hc⟩ := hc
    have hb := b.toNat_lt
    simp only [List.mem_cons, List.not_mem_nil, or_false] at hc
    rcases hc with rfl | rfl <;> exact toNat_hexDigit (by omega)
  rw [toList_toUTF8, utf8Bytes_eq_map fun c hc => (hrange c hc).2]
  exact ⟨rfl, hrange⟩

@[simp] lemma utf8ByteSize_hexText (bytes : ByteArray) :
    (hexText bytes).utf8ByteSize = 2 * bytes.size := by
  have hlength : (hexText bytes).toUTF8.size = 2 * bytes.size := by
    rw [size_toUTF8_of_lt fun c hc => ((utf8Bytes_hexText bytes).2 c hc).2, toList_hexText,
      List.length_flatMap]
    simp [List.map_const', Nat.mul_comm]
  exact hlength

@[simp] lemma holdsNul_hexText (bytes : ByteArray) : holdsNul (hexText bytes) = false := by
  obtain ⟨hbytes, hrange⟩ := utf8Bytes_hexText bytes
  rw [holdsNul, Bool.eq_false_iff, ne_eq, Array.contains_iff_mem, ← Array.mem_toList_iff, hbytes]
  intro hmem
  obtain ⟨c, hc, hzero⟩ := List.mem_map.mp hmem
  have := toNat_byteOf (hrange c hc).2
  rw [hzero] at this
  have hpos := (hrange c hc).1
  rw [← this] at hpos
  simp at hpos

end Rpm

import Mathlib.Tactic.Common
import Rpm.Lead
import Rpm.Proofs.Bytes
import Rpm.Proofs.Except
import Rpm.Proofs.Source

/-!
Leads read back from the 96 bytes that hold them.

All fields are read back as they are, except for the name, of which a reader gets what its field
holds.
-/

namespace Rpm.Lead

lemma size_nameField (name : String) : (nameField name).size = 66 := by
  have h : (name.toUTF8.extract 0 65).size ≤ 65 := by
    rw [ByteArray.size_extract]
    omega
  simp only [nameField, ByteArray.size_append, size_replicateByte]
  omega

lemma size_bytes (l : Lead) : l.bytes.size = Lead.size := by
  have hmagic : magic.size = 4 := rfl
  simp [bytes, size_nameField, hmagic, Lead.size]

def fields (l : Lead) : List ByteArray := [
  magic, bigEndian 1 l.major.toNat, bigEndian 1 l.minor.toNat, bigEndian 2 l.kind.toNat,
  bigEndian 2 l.architecture.toNat, nameField l.name, bigEndian 2 l.os.toNat,
  bigEndian 2 l.signatureType.toNat, replicateByte 16 0]

lemma bytes_eq_concat_fields (l : Lead) : l.bytes = concat l.fields := by
  simp [bytes, fields, ByteArray.append_assoc]

lemma extract_field (l : Lead) (k : Nat) (hk : k < l.fields.length) {i j : Nat}
    (hi : i = (concat (l.fields.take k)).size) (hj : j = i + l.fields[k].size) :
    l.bytes.extract i j = l.fields[k] :=
  l.bytes_eq_concat_fields ▸ extract_piece l.fields k hk hi hj

lemma ofNat_ofBigEndian (n : UInt16) : UInt16.ofNat (ofBigEndian (bigEndian 2 n.toNat)) = n := by
  rw [ofBigEndian_bigEndian_of_lt n.toNat_lt]
  simp

lemma extract_magic (l : Lead) : l.bytes.extract 0 4 = magic :=
  l.extract_field 0 (by simp [fields]) (by simp) (by simp [fields]; rfl)

lemma byteAt_major (l : Lead) : byteAt l.bytes 4 = l.major := by
  have hsize : magic.size = 4 := rfl
  have hmajor : l.bytes.extract 4 5 = bigEndian 1 l.major.toNat :=
    l.extract_field 1 (by simp [fields]) (by simp [fields, hsize]) (by simp [fields])
  have hbyte := byteAt_extract l.bytes (i := 4) (j := 5) (k := 0) (by omega)
  rw [← hbyte, hmajor]
  simp

lemma byteAt_minor (l : Lead) : byteAt l.bytes 5 = l.minor := by
  have hsize : magic.size = 4 := rfl
  have hminor : l.bytes.extract 5 6 = bigEndian 1 l.minor.toNat :=
    l.extract_field 2 (by simp [fields]) (by simp [fields, hsize]) (by simp [fields])
  have hbyte := byteAt_extract l.bytes (i := 5) (j := 6) (k := 0) (by omega)
  rw [← hbyte, hminor]
  simp

lemma ofBytes_bytes {l : Lead} (h : l.major = 3) :
    ofBytes l.bytes = .ok { l with name := nameOfField (nameField l.name) } := by
  have hsize : magic.size = 4 := rfl
  have hname := size_nameField l.name
  have hkind : l.bytes.extract 6 8 = bigEndian 2 l.kind.toNat :=
    l.extract_field 3 (by simp [fields]) (by simp [fields, hsize]) (by simp [fields])
  have harchitecture : l.bytes.extract 8 10 = bigEndian 2 l.architecture.toNat :=
    l.extract_field 4 (by simp [fields]) (by simp [fields, hsize]) (by simp [fields])
  have hfield : l.bytes.extract 10 76 = nameField l.name :=
    l.extract_field 5 (by simp [fields]) (by simp [fields, hsize]) (by simp [fields, hname])
  have hos : l.bytes.extract 76 78 = bigEndian 2 l.os.toNat :=
    l.extract_field 6 (by simp [fields]) (by simp [fields, hsize, hname]) (by simp [fields])
  have hsignature : l.bytes.extract 78 80 = bigEndian 2 l.signatureType.toNat :=
    l.extract_field 7 (by simp [fields]) (by simp [fields, hsize, hname]) (by simp [fields])
  simp only [ofBytes, l.extract_magic, l.byteAt_major, l.byteAt_minor, hkind, harchitecture, hfield,
    hos, hsignature, h, ofNat_ofBigEndian]
  simp

/-- A lead of the known version is read from a source, and what follows it is left. -/
lemma read_bytes {l : Lead} (h : l.major = 3) (rest : ByteArray) (failure : Option StreamError) :
    Lead.read ⟨l.bytes ++ rest, failure⟩ =
      .ok ({ l with name := nameOfField (nameField l.name) }, ⟨rest, failure⟩) := by
  simp only [Lead.read, Source.readExact_append rest failure l.size_bytes.symm, Except.mapError,
    bind, Except.bind, ofBytes_bytes h]
  rfl

lemma read_bytes_of_ne {l : Lead} (h : l.major ≠ 3) (rest : ByteArray)
    (failure : Option StreamError) :
    Lead.read ⟨l.bytes ++ rest, failure⟩ = .error (.unsupportedLeadVersion l.major l.minor) := by
  have hof : ofBytes l.bytes = .error (.unsupportedLeadVersion l.major l.minor) := by
    simp only [ofBytes, l.extract_magic, l.byteAt_major, l.byteAt_minor, ne_eq, not_true_eq_false,
      if_false, if_pos h]
  simp only [Lead.read, Source.readExact_append rest failure l.size_bytes.symm, Except.mapError,
    bind, Except.bind, hof]

lemma read_eq_ok {s s' : Source} {l : Lead} (hread : Lead.read s = .ok (l, s')) :
    ∃ data, data.size = Lead.size ∧ s.rest = data ++ s'.rest ∧ s'.failure = s.failure ∧
      ofBytes data = .ok l := by
  unfold Lead.read at hread
  obtain ⟨⟨data, s₁⟩, hdata, hread⟩ := bind_eq_ok_iff.mp hread
  obtain ⟨lead, hlead, hread⟩ := bind_eq_ok_iff.mp hread
  obtain ⟨rfl, rfl⟩ : lead = l ∧ s₁ = s' := by simpa using pure_eq_ok_iff.mp hread
  obtain ⟨hsize, hrest, hfailure⟩ := Source.readExact_eq_ok (mapError_eq_ok_iff.mp hdata)
  exact ⟨data, hsize, hrest, hfailure, hlead⟩

lemma takes_read {data : ByteArray} {l : Lead} (hsize : data.size = Lead.size)
    (hof : ofBytes data = .ok l) : Takes Lead.read data fun s => (l, s) := by
  refine (Takes.readExact hsize.symm .lead).andThen fun s => ?_
  simp only [hof]
  rfl

end Rpm.Lead

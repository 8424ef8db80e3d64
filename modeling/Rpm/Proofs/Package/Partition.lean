import Rpm.Package.Reader
import Rpm.Proofs.Lead
import Rpm.Proofs.Header.Section

/-!
Files taken apart.

A file that can be read is a lead, a signature section, as many bytes as bring it to a multiple of
eight, a metadata section, and the payload. Nothing of the payload is looked at: the same parts are
read whatever it is. A file that ends within them is cut off.
-/

namespace Rpm.Package

lemma exists_parts_of_read {s : Source} {p : Package} (h : Package.read s = .ok p) :
    ∃ lead padding, lead.size = Lead.size ∧ Lead.ofBytes lead = .ok p.lead ∧
      padding.size = signaturePadding p.signatureBytes.size ∧
      s = ⟨lead ++ p.signatureBytes ++ padding ++ p.headerBytes ++ p.payload.rest,
        p.payload.failure⟩ ∧
      (∃ prologue, Prologue.parse p.signatureBytes = .ok prologue ∧
        p.signatureBytes.size = prologue.sectionSize) ∧
      Header.parse p.signatureBytes = .ok p.signature ∧
      (∃ prologue, Prologue.parse p.headerBytes = .ok prologue ∧
        p.headerBytes.size = prologue.sectionSize) ∧
      Header.parse p.headerBytes = .ok p.header := by
  unfold Package.read at h
  obtain ⟨⟨lead, s₁⟩, hlead, h⟩ := bind_eq_ok_iff.mp h
  obtain ⟨⟨signature, signatureBytes, s₂⟩, hsignature, h⟩ := bind_eq_ok_iff.mp h
  obtain ⟨⟨padding, s₃⟩, hpadding, h⟩ := bind_eq_ok_iff.mp h
  obtain ⟨⟨header, headerBytes, s₄⟩, hheader, h⟩ := bind_eq_ok_iff.mp h
  obtain rfl := pure_eq_ok_iff.mp h
  obtain ⟨leadBytes, hsize, hrest₁, hfailure₁, hof⟩ := Lead.read_eq_ok hlead
  obtain ⟨hprologue, hrest₂, hfailure₂, hparse⟩ := Header.read_eq_ok hsignature
  obtain ⟨hsize', hrest₃, hfailure₃⟩ := Source.readExact_eq_ok (mapError_eq_ok_iff.mp hpadding)
  obtain ⟨hprologue', hrest₄, hfailure₄, hparse'⟩ := Header.read_eq_ok hheader
  have hrest : s.rest = leadBytes ++ signatureBytes ++ padding ++ headerBytes ++ s₄.rest := by
    rw [hrest₁, hrest₂, hrest₃, hrest₄]
    simp only [ByteArray.append_assoc]
  have hfailure : s.failure = s₄.failure := by
    rw [hfailure₄, hfailure₃, hfailure₂, hfailure₁]
  have hs : s = ⟨s.rest, s.failure⟩ := rfl
  refine ⟨leadBytes, padding, hsize, hof, hsize', ?_, hprologue, hparse, hprologue', hparse'⟩
  rwa [hrest, hfailure] at hs

lemma signaturePadding_lt (size : Nat) : signaturePadding size < 8 :=
  Nat.mod_lt _ (by omega)

/-- **A file is partitioned.** What can be read is a lead, both sections with what aligns the second
one, and a payload, one behind the other with nothing left out. Each header is what its section
holds. All of that depends only on the bytes in front of the payload, and a file that has not even
these is reported as cut off. -/
theorem read_partitions {s : Source} {p : Package} (h : Package.read s = .ok p) :
    ∃ lead padding, lead.size = 96 ∧ padding.size < 8 ∧
      8 ∣ (lead ++ p.signatureBytes ++ padding).size ∧
      s = ⟨lead ++ p.signatureBytes ++ padding ++ p.headerBytes ++ p.payload.rest,
        p.payload.failure⟩ ∧
      Lead.ofBytes lead = .ok p.lead ∧ Header.parse p.signatureBytes = .ok p.signature ∧
      Header.parse p.headerBytes = .ok p.header ∧
      Takes Package.read (lead ++ p.signatureBytes ++ padding ++ p.headerBytes)
        fun payload => { p with payload } := by
  obtain ⟨lead, padding, hlead, hof, hpadding, hs, ⟨first, hfirst, hsize⟩, hsignature,
    ⟨second, hsecond, hsize'⟩, hheader⟩ := exists_parts_of_read h
  have haligned : 8 ∣ (lead ++ p.signatureBytes ++ padding).size := by
    rw [ByteArray.size_append, ByteArray.size_append, hlead, hpadding]
    exact dvd_add_paddingFor (by omega) _
  have hread : Takes Package.read
      (lead ++ (p.signatureBytes ++ (padding ++ p.headerBytes))) fun payload =>
        { p with payload } := by
    refine (Lead.takes_read hlead hof).bind ?_
    refine (Header.takes_read hfirst hsize hsignature).bind ?_
    refine (Takes.readExact hpadding.symm (.header .padding)).bind ?_
    exact (Header.takes_read hsecond hsize' hheader).andThen fun _ => rfl
  refine ⟨lead, padding, hlead, hpadding ▸ signaturePadding_lt _, haligned, hs, hof, hsignature,
    hheader, ?_⟩
  simpa only [ByteArray.append_assoc] using hread

/-- A file of three bytes of payload and an empty metadata header, which says nothing but its
size. -/
def sizedFile : ByteArray :=
  (Lead.new .binary "noarch" "sized").bytes ++
    ⟨#[0x8e, 0xad, 0xe8, 1, 0, 0, 0, 0, 0, 0, 0, 1, 0, 0, 0, 4,
      0, 0, 3, 0xe8, 0, 0, 0, 4, 0, 0, 0, 0, 0, 0, 0, 1, 0, 0, 0, 19]⟩ ++
    ⟨#[0, 0, 0, 0]⟩ ++ ⟨#[0x8e, 0xad, 0xe8, 1, 0, 0, 0, 0, 0, 0, 0, 0, 0, 0, 0, 0]⟩ ++ ⟨#[1, 2, 3]⟩

theorem read_partitions_sizedFile :
    ∃ p, Package.read (Source.ofBytes sizedFile) = .ok p ∧ p.payload = Source.ofBytes ⟨#[1, 2, 3]⟩ ∧
      Takes Package.read (sizedFile.extract 0 152) fun payload => { p with payload } := by
  have hread : ∃ p, Package.read (Source.ofBytes sizedFile) = .ok p ∧
      (p.signatureBytes.size = 36 ∧ p.headerBytes.size = 16 ∧ p.payload.rest = ⟨#[1, 2, 3]⟩) :=
    exists_of_any (by decide +kernel)
  obtain ⟨p, hp, hsignature, hheader, hpayload⟩ := hread
  obtain ⟨lead, padding, hlead, hpadding, haligned, hs, -, -, -, htakes⟩ := read_partitions hp
  obtain ⟨hdata, hended⟩ := Source.mk.inj hs
  set front := lead ++ p.signatureBytes ++ padding ++ p.headerBytes with hfront
  -- Four bytes of padding are the only ones that fit.
  have hsize : front.size = 152 := by
    simp only [ByteArray.size_append, hlead, hsignature] at haligned
    rw [hfront]
    simp only [ByteArray.size_append, hlead, hsignature, hheader]
    omega
  have hcut : sizedFile.extract 0 152 = front := by
    rw [hdata, ByteArray.extract_append_eq_left hsize.symm]
  refine ⟨p, hp, ?_, ?_⟩
  · rw [← hpayload, Source.ofBytes, hended]
  · rw [hcut]
    exact htakes

end Rpm.Package

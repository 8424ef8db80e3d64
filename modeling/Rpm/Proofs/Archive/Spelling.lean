import Mathlib.Data.Nat.Digits.Defs
import Rpm.Proofs.Archive.Interleaving

/-!
How member headers may be spelled.

A header is written in one way: thirteen fields of eight lower-case digits, the name and zeros. It is
read in many: a digit may be of either case, a plus sign may stand in front of seven of them, and
anything may fill up the name. What is read is told by a grammar (`Spelling.WellFormed`) that does not
speak of how it is read, and a header that was read can always be written, since its name fits.
-/

namespace Rpm.Archive

/-! ### Digits -/

def hexAlphabet : List Char :=
  ['0', '1', '2', '3', '4', '5', '6', '7', '8', '9', 'a', 'b', 'c', 'd', 'e', 'f']

/-- Whether a character is a hexadecimal digit of either case. -/
def IsHexDigit (c : Char) : Prop := c.toLower ∈ hexAlphabet

instance : DecidablePred IsHexDigit := fun _ => inferInstanceAs (Decidable (_ ∈ _))

def digitValue (c : Char) : Nat := hexAlphabet.idxOf c.toLower

def numberOf (digits : List Char) : Nat := Nat.ofDigits 16 (digits.map digitValue).reverse

lemma digitValue_lt {c : Char} (h : IsHexDigit c) : digitValue c < 16 :=
  List.idxOf_lt_length_of_mem h

lemma numberOf_cons (c : Char) (cs : List Char) :
    numberOf (c :: cs) = 16 ^ cs.length * digitValue c + numberOf cs := by
  rw [numberOf, List.map_cons, Nat.ofDigits_reverse_cons, List.length_map, Nat.add_comm, numberOf]

lemma numberOf_lt {cs : List Char} (h : ∀ c ∈ cs, IsHexDigit c) :
    numberOf cs < 16 ^ cs.length := by
  have hdigits : ∀ d ∈ (cs.map digitValue).reverse, d < 16 := by
    intro d hd
    obtain ⟨c, hc, rfl⟩ := List.mem_map.mp (List.mem_reverse.mp hd)
    exact digitValue_lt (h c hc)
  have hlt := Nat.ofDigits_lt_base_pow_length (by decide) hdigits
  rwa [List.length_reverse, List.length_map] at hlt

lemma toNat_lt_of_isHexDigit {c : Char} (h : IsHexDigit c) : c.toNat < 128 := by
  by_contra hc
  have hlower : c.toLower = c := by
    unfold Char.toLower
    refine dif_neg fun hupper => hc ?_
    have hle : c.toNat ≤ 90 := UInt32.le_iff_toNat_le.mp hupper.2
    omega
  have hall : ∀ d ∈ hexAlphabet, d.toNat < 128 := by simp [hexAlphabet]
  exact hc (hall c (hlower ▸ h))

lemma hexValue?_eq (c : Char) :
    hexValue? c = if IsHexDigit c then some (digitValue c) else none := by
  have hsmall : ∀ n < 128, hexValue? (Char.ofNat n) =
      if IsHexDigit (Char.ofNat n) then some (digitValue (Char.ofNat n)) else none := by
    decide +kernel
  by_cases hc : c.toNat < 128
  · have h := hsmall c.toNat hc
    rwa [Char.ofNat_toNat] at h
  · rw [if_neg fun h => hc (toNat_lt_of_isHexDigit h)]
    have hlarge : ∀ {d : Char}, d.toNat < 128 → ¬c ≤ d := fun hd hle =>
      hc (Nat.lt_of_le_of_lt (UInt32.le_iff_toNat_le.mp hle) hd)
    simp only [hexValue?, hlarge (show ('9').toNat < 128 by decide),
      hlarge (show ('f').toNat < 128 by decide), hlarge (show ('F').toNat < 128 by decide),
      and_false, if_false]

/-- Digits are read as the number that they denote, behind that which is in front of them. -/
lemma ofHexDigits?_eq_some_iff {n m : Nat} {cs : List Char} : ofHexDigits? n cs = some m ↔
    (∀ c ∈ cs, IsHexDigit c) ∧ 16 ^ cs.length * n + numberOf cs = m := by
  induction cs generalizing n with
  | nil => simp [ofHexDigits?, numberOf]
  | cons c cs ih =>
    rw [ofHexDigits?, hexValue?_eq, List.forall_mem_cons]
    by_cases hc : IsHexDigit c
    · have hnumber : 16 ^ cs.length * (16 * n + digitValue c) + numberOf cs =
          16 ^ (c :: cs).length * n + numberOf (c :: cs) := by
        rw [numberOf_cons, List.length_cons]
        ring
      rw [if_pos hc, and_iff_right hc, ← hnumber]
      exact ih
    · rw [if_neg hc]
      exact iff_of_false (by simp) fun h => hc h.1.1

/-! ### Fields -/

/-- Whether a text is made of digits, with or without a plus sign in front of them. -/
def HoldsDigits (text : String) (digits : List Char) : Prop :=
  (text.toList = digits ∨ text.toList = '+' :: digits) ∧ ∀ c ∈ digits, IsHexDigit c

/-- Whether a text says a number as the field of a header may: in eight digits, or in seven behind a
plus sign. -/
def SaysField (text : String) (n : Nat) : Prop :=
  text.toList.length = 8 ∧ ∃ digits, HoldsDigits text digits ∧ numberOf digits = n

namespace HoldsDigits

variable {text : String} {digits : List Char}

lemma length_le (h : HoldsDigits text digits) : digits.length ≤ text.toList.length := by
  rcases h.1 with htext | htext
  · rw [htext]
  · rw [htext, List.length_cons]
    exact Nat.le_succ _

lemma size_toUTF8 (h : HoldsDigits text digits) : text.toUTF8.size = text.toList.length := by
  refine size_toUTF8_of_lt fun c hc => ?_
  rcases h.1 with htext | htext
  · exact toNat_lt_of_isHexDigit (h.2 c (htext ▸ hc))
  · rcases List.mem_cons.mp (htext ▸ hc) with rfl | hc
    · decide
    · exact toNat_lt_of_isHexDigit (h.2 c hc)

lemma numberOf_lt (h : HoldsDigits text digits) (hlength : text.toList.length = 8) :
    numberOf digits < 2 ^ 32 :=
  calc numberOf digits
      < 16 ^ digits.length := Archive.numberOf_lt h.2
    _ ≤ 16 ^ 8 := Nat.pow_le_pow_right (by decide) (hlength ▸ h.length_le)
    _ = 2 ^ 32 := by decide

end HoldsDigits

lemma ofFieldText?_eq_some_iff {text : String} {n : UInt32} : ofFieldText? text = some n ↔
    ∃ digits, HoldsDigits text digits ∧ UInt32.ofNat (numberOf digits) = n := by
  have hread : ∀ digits, (ofHexDigits? 0 digits).map UInt32.ofNat = some n ↔
      (∀ c ∈ digits, IsHexDigit c) ∧ UInt32.ofNat (numberOf digits) = n := by
    intro digits
    simp only [Option.map_eq_some_iff, ofHexDigits?_eq_some_iff, Nat.mul_zero, Nat.zero_add]
    constructor
    · rintro ⟨m, ⟨hdigits, rfl⟩, hn⟩
      exact ⟨hdigits, hn⟩
    · rintro ⟨hdigits, hn⟩
      exact ⟨_, ⟨hdigits, rfl⟩, hn⟩
  unfold ofFieldText?
  split
  · rename_i digits hplus
    rw [hread]
    constructor
    · rintro ⟨hdigits, hn⟩
      exact ⟨digits, ⟨.inr hplus, hdigits⟩, hn⟩
    · rintro ⟨digits', ⟨htext | htext, hdigits⟩, hn⟩
      · -- A plus sign is no digit.
        have hmem : '+' ∈ digits' := by simp [← htext, hplus]
        exact absurd (hdigits _ hmem) (by decide)
      · obtain ⟨-, rfl⟩ := List.cons.inj (hplus.symm.trans htext)
        exact ⟨hdigits, hn⟩
  · rename_i hplus
    rw [hread]
    constructor
    · rintro ⟨hdigits, hn⟩
      exact ⟨_, ⟨.inl rfl, hdigits⟩, hn⟩
    · rintro ⟨digits, ⟨htext | htext, hdigits⟩, hn⟩
      · exact htext ▸ ⟨hdigits, hn⟩
      · exact absurd htext (hplus digits)

/-- **The texts of fields** that are read are those of the grammar. -/
lemma spells_iff {text : String} {n : UInt32} : Spells text n ↔ SaysField text n.toNat := by
  rw [Spells, SaysField, ofFieldText?_eq_some_iff]
  constructor
  · rintro ⟨hsize, digits, hdigits, rfl⟩
    have hlength := hdigits.size_toUTF8.symm.trans hsize
    exact ⟨hlength, digits, hdigits,
      (UInt32.toNat_ofNat_of_lt (hdigits.numberOf_lt hlength)).symm⟩
  · rintro ⟨hlength, digits, hdigits, hn⟩
    exact ⟨hdigits.size_toUTF8.trans hlength, digits, hdigits, by rw [hn, UInt32.ofNat_toNat]⟩

lemma SaysField.lt {text : String} {n : Nat} (h : SaysField text n) : n < 2 ^ 32 := by
  obtain ⟨hlength, digits, hdigits, rfl⟩ := h
  exact hdigits.numberOf_lt hlength

lemma SaysField.spells {text : String} {n : Nat} (h : SaysField text n) :
    Spells text (UInt32.ofNat n) :=
  spells_iff.mpr ((UInt32.toNat_ofNat_of_lt h.lt).symm ▸ h)

lemma saysField_iff {text : String} {n : Nat} :
    SaysField text n ↔ n < 2 ^ 32 ∧ Spells text (UInt32.ofNat n) := by
  constructor
  · exact fun h => ⟨h.lt, h.spells⟩
  · rintro ⟨hlt, h⟩
    exact UInt32.toNat_ofNat_of_lt hlt ▸ spells_iff.mp h

instance (text : String) (n : UInt32) : Decidable (Spells text n) :=
  inferInstanceAs (Decidable (_ ∧ _))

instance (text : String) : DecidablePred (SaysField text) := fun _ =>
  decidable_of_iff _ saysField_iff.symm

lemma forall_lt_of_saysFields {texts : List String} {ns : List Nat}
    (h : List.Forall₂ SaysField texts ns) : ∀ n ∈ ns, n < 2 ^ 32 := by
  induction h with
  | nil => simp
  | cons hfirst _ ih => exact List.forall_mem_cons.mpr ⟨hfirst.lt, ih⟩

/-! ### Headers -/

/-- A header as it may stand behind its magic number: the texts of its fields, its name, and what
fills up the name. -/
structure Spelling where
  texts : List String
  name : String
  padding : ByteArray

namespace Spelling

def bytes (t : Spelling) : ByteArray :=
  concat (t.texts.map String.toUTF8) ++ (terminated t.name ++ t.padding)

/-- Whether a header is spelled well, with these numbers in its fields: there are thirteen, and the
twelfth is the size of the name with its zero byte, which is the only one in it. -/
structure WellFormed (t : Spelling) (ns : List Nat) : Prop where
  saysFields : List.Forall₂ SaysField t.texts ns
  length_eq : ns.length = 13
  hasNul_eq : holdsNul t.name = false
  size_eq : ns[11]? = some (t.name.utf8ByteSize + 1)
  size_padding : t.padding.size = paddingFor 4 (headerSize + (t.name.utf8ByteSize + 1))

end Spelling

namespace MemberHeader

variable {h : MemberHeader} {t : Spelling} {ns : List Nat} {s s' : Source}

lemma fields_ofNumbers {ns : List UInt32} {name : String} (hlength : ns.length = 13)
    (hsize : (ns.getD 11 0).toNat = name.utf8ByteSize + 1) :
    (ofNumbers ns name).fields = ns.map UInt32.toNat := by
  match ns, hlength with
  | [_, _, _, _, _, _, _, _, _, _, _, _, _], _ => simp_all [ofNumbers, fields]

/-- **What is spelled well** is read, and what follows it is left. -/
lemma read_spelling (ht : t.WellFormed ns) (rest : ByteArray) (failure : Option StreamError) :
    MemberHeader.read ⟨t.bytes ++ rest, failure⟩ =
      .ok (ofNumbers (ns.map UInt32.ofNat) t.name, ⟨rest, failure⟩) := by
  have hspells : List.Forall₂ Spells t.texts (ns.map UInt32.ofNat) :=
    List.forall₂_map_right_iff.mpr (ht.saysFields.imp fun _ _ => SaysField.spells)
  have hlength : t.texts.length = 13 := ht.saysFields.length_eq.trans ht.length_eq
  have hsize : ((ns.map UInt32.ofNat).getD 11 0).toNat = t.name.utf8ByteSize + 1 := by
    have hlt := forall_lt_of_saysFields ht.saysFields _ (List.mem_of_getElem? ht.size_eq)
    rw [List.getD_eq_getElem?_getD, List.getElem?_map, ht.size_eq]
    exact UInt32.toNat_ofNat_of_lt hlt
  rw [Spelling.bytes, ByteArray.append_assoc, ByteArray.append_assoc]
  exact read_of_spells hlength hspells ht.hasNul_eq hsize ht.size_padding.symm rest failure

/-- **What is read** was spelled well, and was all that was taken. -/
lemma exists_spelling (hread : MemberHeader.read s = .ok (h, s')) :
    ∃ t : Spelling, t.WellFormed h.fields ∧ t.name = h.name ∧
      s = ⟨t.bytes ++ s'.rest, s'.failure⟩ := by
  obtain ⟨bytes, rfl, -⟩ := sequential_read s h s' hread
  rw [read_eq, bind_eq_ok_iff] at hread
  obtain ⟨⟨ns, s₁⟩, hfields, hname⟩ := hread
  obtain ⟨texts, hspells, hlength, hfront⟩ := readFields_eq_ok hfields
  obtain ⟨hheader, hnul, hsize, padding, hpadding, hback⟩ := readName_eq_ok hname
  have hnumbers : h.fields = ns.map UInt32.toNat := by
    rw [hheader]
    exact fields_ofNumbers hlength hsize
  refine ⟨⟨texts, h.name, padding⟩, ⟨?_, rfl, hnul, rfl, ?_⟩, rfl, ?_⟩
  · rw [hnumbers]
    exact List.forall₂_map_right_iff.mpr (hspells.imp fun _ _ => spells_iff.mp)
  · rw [hpadding, nameZeros, size_replicateByte]
  · rw [Spelling.bytes, ByteArray.append_assoc, ByteArray.append_assoc, ← hback, ← hfront]

/-- Whether a header is written as the magic number and these bytes, and read back from them whatever
follows. -/
structure WrittenAs (h : MemberHeader) (body : ByteArray) : Prop where
  write_eq : ∀ sink : Sink, sink.room (magic ++ body).size = (magic ++ body).size →
    h.write sink = ({ sink with accepted := sink.accepted ++ (magic ++ body) },
      .ok (magic ++ body).size)
  read_eq : ∀ rest failure,
    MemberHeader.read ⟨body ++ rest, failure⟩ = .ok (h, ⟨rest, failure⟩)

/-- What is written of a header behind its magic number. -/
def body (h : MemberHeader) : ByteArray :=
  concat (h.fields.map fun n => (fieldText n).toUTF8) ++ (terminated h.name ++ h.nameZeros)

lemma writtenAs_body (hl : h.Legible) : h.WrittenAs h.body where
  write_eq sink hroom := by
    rw [body, ← h.bytes_eq] at hroom ⊢
    simp only [write, hl.hasNul_eq, Bool.false_eq_true, if_false, Sink.write_eq, hroom, if_true,
      extract_of_size_le (Nat.le_refl _)]
  read_eq rest failure := by
    rw [body, ByteArray.append_assoc, ByteArray.append_assoc]
    exact read_bytes hl rest failure

/-- A header is read exactly if what is there begins with one that is spelled well. -/
lemma exists_read_iff : (∃ h s', MemberHeader.read s = .ok (h, s')) ↔
    ∃ (t : Spelling) (ns : List Nat) (rest : ByteArray),
      t.WellFormed ns ∧ s.rest = t.bytes ++ rest := by
  constructor
  · rintro ⟨h, s', hread⟩
    obtain ⟨t, ht, -, hs⟩ := exists_spelling hread
    exact ⟨t, h.fields, s'.rest, ht, congrArg Source.rest hs⟩
  · rintro ⟨t, ns, rest, ht, hrest⟩
    have hread := read_spelling ht rest s.failure
    rw [← hrest] at hread
    exact ⟨_, _, hread⟩

/-- What is read is the header that the spelling says, and what is left is what follows it. -/
lemma read_eq_ok_iff : MemberHeader.read s = .ok (h, s') ↔
    ∃ t : Spelling, t.WellFormed h.fields ∧ t.name = h.name ∧
      s = ⟨t.bytes ++ s'.rest, s'.failure⟩ := by
  constructor
  · exact exists_spelling
  · rintro ⟨t, ht, hname, rfl⟩
    rw [read_spelling ht, hname, ofNumbers_fields]

/-- **Header codec.** A legible header is written as its magic number, its fields and its name, with
zeros up to a multiple of four, and is read back from what stands behind the magic number, whatever
follows. A header is read exactly if one that is spelled well is there; it is the one that is spelled,
it ends where the spelling does, and it can be written and read back. -/
theorem read_iff_wellFormed :
    (∀ h : MemberHeader, h.Legible → ∃ body zeros, h.WrittenAs body ∧
      magic ++ body = h.content ++ replicateByte zeros 0 ∧
      h.content.size = 110 + h.name.utf8ByteSize + 1 ∧ zeros < 4 ∧ 4 ∣ (magic ++ body).size) ∧
    (∀ s, (∃ h s', MemberHeader.read s = .ok (h, s')) ↔
      ∃ (t : Spelling) (ns : List Nat) (rest : ByteArray),
        t.WellFormed ns ∧ s.rest = t.bytes ++ rest) ∧
    (∀ s h s', MemberHeader.read s = .ok (h, s') ↔
      ∃ t : Spelling, t.WellFormed h.fields ∧ t.name = h.name ∧
        s = ⟨t.bytes ++ s'.rest, s'.failure⟩) ∧
    ∀ s h s', MemberHeader.read s = .ok (h, s') → ∃ body, h.WrittenAs body := by
  refine ⟨fun h hl => ?_, fun s => exists_read_iff, fun s h s' => read_eq_ok_iff,
    fun s h s' hread => ⟨h.body, writtenAs_body (legible_of_read hread)⟩⟩
  have hbytes : magic ++ h.body = h.bytes := h.bytes_eq.symm
  exact ⟨h.body, paddingFor 4 h.content.size, writtenAs_body hl, hbytes, h.size_content,
    Nat.mod_lt _ (by decide), hbytes ▸ h.dvd_size_bytes⟩

/-- A header with digits of both cases and plus signs in its fields, and no zeros behind its name. -/
def looseSpelling : Spelling where
  texts := ["+0000000", "000081a4", "+0000000", "00000000", "+0000001", "5F3759Df", "0000000A",
    "00000000", "00000000", "00000000", "00000000", "+0000003", "FFFFFFFF"]
  name := "ab"
  padding := "070".toUTF8

def looseHeader : MemberHeader :=
  { MemberHeader.file "ab" 0o644 10 with mtime := 0x5f3759df, checksum := 0xffffffff }

theorem read_iff_wellFormed_looseSpelling :
    looseSpelling.WellFormed looseHeader.fields ∧
    MemberHeader.read ⟨looseSpelling.bytes ++ magic, some .other⟩ =
      .ok (looseHeader, ⟨magic, some .other⟩) ∧
    looseHeader.Legible ∧ ∃ body zeros, looseHeader.WrittenAs body ∧
      magic ++ body = looseHeader.content ++ replicateByte zeros 0 ∧ zeros < 4 := by
  have hl : looseHeader.Legible := ⟨by decide +kernel, by decide +kernel⟩
  have hsays : ∀ p ∈ looseSpelling.texts.zip looseHeader.fields, SaysField p.1 p.2 := by
    decide +kernel
  have hwell : looseSpelling.WellFormed looseHeader.fields :=
    ⟨List.forall₂_iff_zip.mpr ⟨rfl, fun hp => hsays _ hp⟩, rfl, by decide +kernel,
      by decide +kernel, by decide +kernel⟩
  obtain ⟨hwrite, -, hread, -⟩ := read_iff_wellFormed
  obtain ⟨body, zeros, hwritten, hbytes, -, hzeros, -⟩ := hwrite looseHeader hl
  exact ⟨hwell, (hread _ _ _).mpr ⟨looseSpelling, hwell, rfl, rfl⟩, hl, body, zeros, hwritten,
    hbytes, hzeros⟩

end MemberHeader

end Rpm.Archive

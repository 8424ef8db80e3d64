import Mathlib.Tactic.Common
import Rpm.Header
import Rpm.Proofs.Bytes
import Rpm.Proofs.Except
import Rpm.Proofs.Source

/-!
The frame of a header section.

A section is put together from index records and a data store (`sectionBytes`). A reader takes it
apart again into the same records and the same store, as long as their numbers are within its
limits, and does not look at what follows.
-/

namespace Rpm

def sectionBytes (records : List IndexRecord) (store : ByteArray) : ByteArray :=
  sectionMagic ++ bigEndian 4 records.length ++ bigEndian 4 store.size ++
    concat (records.map IndexRecord.bytes) ++ store

/-- Whether a section stays within the limits of readers: the number of its index records and the
size of its store, as its prologue says them. -/
structure WithinLimits (data : ByteArray) : Prop where
  entryCount : ofBigEndian (data.extract 8 12) ≤ mostIndexEntries
  storeSize : ofBigEndian (data.extract 12 16) ≤ mostStoreSize

lemma size_sectionMagic : sectionMagic.size = 8 := rfl

@[simp] lemma size_sectionBytes (records : List IndexRecord) (store : ByteArray) :
    (sectionBytes records store).size = 16 + 16 * records.length + store.size := by
  simp only [sectionBytes, ByteArray.size_append, size_bigEndian, size_sectionMagic,
    size_concat_map IndexRecord.bytes IndexRecord.size_bytes]

/-! ### Records -/

namespace IndexRecord

/-- Whether the numbers of a record fit into its fields. -/
structure InRange (r : IndexRecord) : Prop where
  offset_ge : -2 ^ 31 ≤ r.offset
  offset_lt : r.offset < 2 ^ 31
  count_lt : r.count < 2 ^ 32

lemma wrapSigned_lt (n : Int) : wrapSigned n < 2 ^ 32 := by
  unfold wrapSigned
  omega

lemma toSigned_wrapSigned {n : Int} (hge : -2 ^ 31 ≤ n) (hlt : n < 2 ^ 31) :
    toSigned (wrapSigned n) = n := by
  unfold toSigned wrapSigned
  split <;> omega

lemma ofBytes_eq_extract (data : ByteArray) (pos : Nat) :
    ofBytes data pos = ofBytes (data.extract pos (pos + 16)) 0 := by
  simp [ofBytes, extract_extract_of_le]

lemma ofBytes_bytes {r : IndexRecord} (hr : r.InRange) : ofBytes r.bytes 0 = r := by
  have hpieces : r.bytes = concat [bigEndian 4 r.tag.toNat, bigEndian 4 r.typeId.toNat,
      bigEndian 4 (wrapSigned r.offset), bigEndian 4 r.count] := by
    simp [bytes, ByteArray.append_assoc]
  have htag : r.bytes.extract 0 (0 + 4) = bigEndian 4 r.tag.toNat :=
    hpieces ▸ extract_piece _ 0 (by simp) (by simp) (by simp)
  have htype : r.bytes.extract (0 + 4) (0 + 8) = bigEndian 4 r.typeId.toNat :=
    hpieces ▸ extract_piece _ 1 (by simp) (by simp) (by simp)
  have hoffset : r.bytes.extract (0 + 8) (0 + 12) = bigEndian 4 (wrapSigned r.offset) :=
    hpieces ▸ extract_piece _ 2 (by simp) (by simp) (by simp)
  have hcount : r.bytes.extract (0 + 12) (0 + 16) = bigEndian 4 r.count :=
    hpieces ▸ extract_piece _ 3 (by simp) (by simp) (by simp)
  obtain ⟨tag, typeId, offset, count⟩ := r
  obtain ⟨hge, hlt, hc⟩ := hr
  rw [ofBytes, htag, htype, hoffset, hcount]
  simp only at hge hlt hc
  rw [ofBigEndian_bigEndian_of_lt tag.toNat_lt, ofBigEndian_bigEndian_of_lt typeId.toNat_lt,
    ofBigEndian_bigEndian_of_lt (wrapSigned_lt offset), ofBigEndian_bigEndian_of_lt hc,
    toSigned_wrapSigned hge hlt]
  simp

end IndexRecord

/-! ### The prologue -/

lemma extract_entryCount (records : List IndexRecord) (store rest : ByteArray) :
    (sectionBytes records store ++ rest).extract 8 12 = bigEndian 4 records.length := by
  simp only [sectionBytes, ByteArray.append_assoc]
  rw [← ByteArray.append_assoc (a := sectionMagic)]
  exact extract_middle (by simp [size_sectionMagic]) (by simp [size_sectionMagic])

lemma extract_storeSize (records : List IndexRecord) (store rest : ByteArray) :
    (sectionBytes records store ++ rest).extract 12 16 = bigEndian 4 store.size := by
  rw [sectionBytes, ByteArray.append_assoc, ByteArray.append_assoc]
  exact extract_middle (by simp [size_sectionMagic]) (by simp [size_sectionMagic])

lemma withinLimits_sectionBytes_iff {records : List IndexRecord} {store : ByteArray}
    (hcount : records.length < 2 ^ 32) (hstore : store.size < 2 ^ 32) :
    WithinLimits (sectionBytes records store) ↔
      records.length ≤ mostIndexEntries ∧ store.size ≤ mostStoreSize := by
  have h₁ := extract_entryCount records store ByteArray.empty
  have h₂ := extract_storeSize records store ByteArray.empty
  rw [ByteArray.append_empty] at h₁ h₂
  constructor
  · rintro ⟨h, h'⟩
    rw [h₁, ofBigEndian_bigEndian_of_lt hcount] at h
    rw [h₂, ofBigEndian_bigEndian_of_lt hstore] at h'
    exact ⟨h, h'⟩
  · rintro ⟨h, h'⟩
    exact ⟨by rwa [h₁, ofBigEndian_bigEndian_of_lt hcount],
      by rwa [h₂, ofBigEndian_bigEndian_of_lt hstore]⟩

namespace Prologue

lemma parse_sectionBytes_eq {records : List IndexRecord} {store : ByteArray} (rest : ByteArray)
    (hcount : records.length < 2 ^ 32) (hstore : store.size < 2 ^ 32) :
    parse (sectionBytes records store ++ rest) =
      if mostIndexEntries < records.length then .error (.headerTooLarge .indexEntries)
      else if mostStoreSize < store.size then .error (.headerTooLarge .storeSize)
      else .ok ⟨records.length, store.size⟩ := by
  have hmagic : (sectionBytes records store ++ rest).extract 0 4 = sectionMagic.extract 0 4 := by
    have h : (sectionBytes records store ++ rest).extract 0 8 = sectionMagic := by
      simp only [sectionBytes, ByteArray.append_assoc]
      exact ByteArray.extract_append_eq_left rfl
    rw [← h, extract_extract_of_le _ (by omega)]
  have hsize : ¬ (sectionBytes records store ++ rest).size < 16 := by
    simp only [ByteArray.size_append, size_sectionBytes]
    omega
  have hcount' : ofBigEndian (bigEndian 4 records.length) = records.length :=
    ofBigEndian_bigEndian_of_lt hcount
  have hstore' : ofBigEndian (bigEndian 4 store.size) = store.size :=
    ofBigEndian_bigEndian_of_lt hstore
  unfold parse
  simp only [extract_entryCount, extract_storeSize, hcount', hstore', hmagic]
  rw [if_neg hsize, if_neg (by simp)]

lemma parse_eq_ok_iff {data : ByteArray} {p : Prologue} : parse data = .ok p ↔
    16 ≤ data.size ∧ data.extract 0 4 = sectionMagic.extract 0 4 ∧ WithinLimits data ∧
      p = ⟨ofBigEndian (data.extract 8 12), ofBigEndian (data.extract 12 16)⟩ := by
  simp only [parse]
  constructor
  · intro h
    split_ifs at h with hsize hmagic hcount hstore
    exact ⟨by omega, not_ne_iff.mp hmagic, ⟨by omega, by omega⟩, (Except.ok.inj h).symm⟩
  · rintro ⟨hsize, hmagic, ⟨hcount, hstore⟩, rfl⟩
    rw [if_neg (by omega), if_neg (not_ne_iff.mpr hmagic), if_neg (by omega), if_neg (by omega)]

lemma parse_sectionBytes {records : List IndexRecord} {store : ByteArray} (rest : ByteArray)
    (hcount : records.length ≤ mostIndexEntries) (hstore : store.size ≤ mostStoreSize) :
    parse (sectionBytes records store ++ rest) = .ok ⟨records.length, store.size⟩ := by
  rw [parse_sectionBytes_eq rest (by unfold mostIndexEntries at hcount; omega)
    (by unfold mostStoreSize at hstore; omega), if_neg (by omega), if_neg (by omega)]

lemma parse_extract {data : ByteArray} (h : 16 ≤ data.size) :
    parse (data.extract 0 16) = parse data := by
  have hsize : (data.extract 0 16).size = 16 := size_extract_of_le h
  unfold parse
  rw [extract_extract_of_le _ (by omega), extract_extract_of_le _ (by omega),
    extract_extract_of_le _ (by omega), hsize,
    if_neg (show ¬ data.size < 16 by omega)]
  simp

lemma parse_congr {data other : ByteArray} (h : 16 ≤ data.size) (h' : 16 ≤ other.size)
    (hsame : other.extract 0 16 = data.extract 0 16) : parse other = parse data := by
  rw [← parse_extract h', hsame, parse_extract h]

lemma le_sectionSize (p : Prologue) : 16 ≤ p.sectionSize := by
  unfold sectionSize storeStart
  omega

lemma split_section {data : ByteArray} {p : Prologue} (hsize : data.size = p.sectionSize) :
    16 = (data.extract 0 16).size ∧ p.sectionSize - 16 = (data.extract 16 data.size).size ∧
      data.extract 0 16 ++ data.extract 16 data.size = data := by
  have h16 : 16 ≤ data.size := hsize ▸ p.le_sectionSize
  refine ⟨?_, ?_, ?_⟩
  · rw [size_extract_of_le h16]
  · rw [size_extract_of_le (Nat.le_refl _), hsize]
  · rw [extract_append_extract_of_le _ (Nat.zero_le 16) h16, extract_of_size_le (Nat.le_refl _)]

end Prologue

/-! ### The whole section -/

/-- **A section is taken apart** into its records and its store, whatever follows it. -/
lemma parseEntries_sectionBytes {records : List IndexRecord} {store : ByteArray}
    (region : UInt32) (rest : ByteArray) (hcount : records.length ≤ mostIndexEntries)
    (hstore : store.size ≤ mostStoreSize) (hrecords : ∀ r ∈ records, r.InRange) :
    parseEntries (sectionBytes records store ++ rest) region =
      decodeRecords store (dropRegion region records) := by
  set front := sectionMagic ++ bigEndian 4 records.length ++ bigEndian 4 store.size with hfront
  have hsize : front.size = 16 := by
    rw [hfront]
    simp [size_sectionMagic]
  have hcut : sectionBytes records store ++ rest =
      front ++ concat (records.map IndexRecord.bytes) ++ (store ++ rest) := by
    simp only [sectionBytes, hfront, ByteArray.append_assoc]
  have hindex : ((List.range records.length).map fun i =>
      IndexRecord.ofBytes (sectionBytes records store ++ rest) (16 + 16 * i)) = records := by
    have h := map_range_extract IndexRecord.bytes (IndexRecord.ofBytes · 0) IndexRecord.size_bytes
      records (fun r hr => IndexRecord.ofBytes_bytes (hrecords r hr)) front (store ++ rest)
    rw [← hcut, hsize] at h
    simpa only [← IndexRecord.ofBytes_eq_extract] using h
  have hdata : (sectionBytes records store ++ rest).extract (16 + 16 * records.length)
      (16 + 16 * records.length + store.size) = store := by
    rw [hcut, ← ByteArray.append_assoc]
    refine extract_middle ?_ ?_ <;>
      simp only [ByteArray.size_append, hsize,
        size_concat_map IndexRecord.bytes IndexRecord.size_bytes]
  have hlong : ¬ (sectionBytes records store ++ rest).size <
      16 + 16 * records.length + store.size := by
    simp only [ByteArray.size_append, size_sectionBytes]
    omega
  unfold parseEntries
  rw [Prologue.parse_sectionBytes rest hcount hstore]
  simp only [bind, Except.bind, Prologue.sectionSize, Prologue.storeStart, hindex, hdata]
  rw [if_neg hlong]

/-- Reading from a source takes exactly the section, and gives the header that it holds if it can be
read. -/
lemma Header.read_append {ns : Namespace} {data : ByteArray} {p : Prologue}
    (hp : Prologue.parse data = .ok p) (hsize : data.size = p.sectionSize) (rest : ByteArray)
    (failure : Option StreamError) :
    (Header.read ⟨data ++ rest, failure⟩ : Except Error (Header ns × ByteArray × Source)) =
      (Header.parse data).map fun h => (h, data, ⟨rest, failure⟩) := by
  have h16 : 16 ≤ data.size := hsize ▸ p.le_sectionSize
  obtain ⟨hfront, hback, hjoin⟩ := Prologue.split_section hsize
  have hcut : data ++ rest = data.extract 0 16 ++ (data.extract 16 data.size ++ rest) := by
    rw [← ByteArray.append_assoc, hjoin]
  unfold Header.read
  rw [hcut, Source.readExact_append _ _ hfront]
  simp only [Except.mapError, bind, Except.bind, Prologue.parse_extract h16, hp,
    Source.readExact_append _ _ hback, hjoin]
  cases (Header.parse data : Except Error (Header ns)) <;> rfl

/-- What is read is the section that stood in front, as long as its prologue says, and the header
that it holds. -/
lemma Header.read_eq_ok {ns : Namespace} {s s' : Source} {h : Header ns} {data : ByteArray}
    (hread : Header.read s = .ok (h, data, s')) :
    (∃ p, Prologue.parse data = .ok p ∧ data.size = p.sectionSize) ∧
      s.rest = data ++ s'.rest ∧ s'.failure = s.failure ∧ Header.parse data = .ok h := by
  unfold Header.read at hread
  obtain ⟨⟨prologue, s₁⟩, hprologue, hread⟩ := bind_eq_ok_iff.mp hread
  obtain ⟨p, hp, hread⟩ := bind_eq_ok_iff.mp hread
  obtain ⟨⟨rest, s₂⟩, hrest, hread⟩ := bind_eq_ok_iff.mp hread
  obtain ⟨g, hparse, hread⟩ := bind_eq_ok_iff.mp hread
  obtain ⟨rfl, rfl, rfl⟩ : g = h ∧ prologue ++ rest = data ∧ s₂ = s' := by
    simpa using pure_eq_ok_iff.mp hread
  obtain ⟨h16, hfront, hfailure⟩ := Source.readExact_eq_ok (mapError_eq_ok_iff.mp hprologue)
  obtain ⟨hlong, hback, hfailure'⟩ := Source.readExact_eq_ok (mapError_eq_ok_iff.mp hrest)
  have hsize : (prologue ++ rest).size = p.sectionSize := by
    have := p.le_sectionSize
    rw [ByteArray.size_append]
    omega
  have hparse' : Prologue.parse (prologue ++ rest) = .ok p := by
    rw [← Prologue.parse_extract (hsize ▸ p.le_sectionSize),
      ByteArray.extract_append_eq_left h16.symm]
    exact hp
  exact ⟨⟨p, hparse', hsize⟩, by rw [hfront, hback, ByteArray.append_assoc],
    hfailure'.trans hfailure, hparse⟩

/-- A header takes its section: the prologue first, and then as much as that says. -/
lemma Header.takes_read {ns : Namespace} {data : ByteArray} {p : Prologue} {h : Header ns}
    (hp : Prologue.parse data = .ok p) (hsize : data.size = p.sectionSize)
    (hparse : Header.parse data = .ok h) : Takes Header.read data fun s => (h, data, s) := by
  have h16 : 16 ≤ data.size := hsize ▸ p.le_sectionSize
  obtain ⟨hfront, hback, hjoin⟩ := Prologue.split_section hsize
  have hrest : Takes (fun s : Source =>
      (s.readExact (p.sectionSize - 16)).mapError (readError .indexOrStore) >>= fun rest =>
        (Header.parse (data.extract 0 16 ++ rest.1) : Except Error (Header ns)) >>= fun h =>
          pure (h, data.extract 0 16 ++ rest.1, rest.2))
      (data.extract 16 data.size) fun s => (h, data, s) := by
    refine (Takes.readExact hback (.header _)).andThen fun s => ?_
    simp only [hjoin, hparse]
    rfl
  rw [← hjoin]
  refine (Takes.readExact hfront (.header _)).bind ?_
  simp only [Prologue.parse_extract h16, hp, hjoin]
  exact hrest

end Rpm

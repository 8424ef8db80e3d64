import Rpm.Proofs.Header.Bounds
import Rpm.Proofs.Header.Reachability

/-!
The sections that a reader accepts.

A reader takes sections from anyone, so that it is to accept nothing but what it can make sense of:
offsets and counts may be anything, and values may overlap. What it accepts is described here by the
prologue, the index and the store alone, and the entries are those that the records say.
-/

namespace Rpm

variable {data : ByteArray} {region : UInt32} {entries : List Entry}

/-! ### Parts of a section -/

/-- The size of the section at the front of the data, as its prologue says it. -/
def sectionSize (data : ByteArray) : Nat :=
  16 + 16 * ofBigEndian (data.extract 8 12) + ofBigEndian (data.extract 12 16)

def sectionStore (data : ByteArray) : ByteArray :=
  data.extract (16 + 16 * ofBigEndian (data.extract 8 12)) (sectionSize data)

/-- Whether a section is one that can be read: the data begins with its magic number and its version,
has no more of it than readers take, and is not shorter, and each record but that of the region says
something of the store. -/
structure WellFormedSection (data : ByteArray) (region : UInt32) : Prop where
  magic_eq : data.extract 0 4 = ⟨#[0x8e, 0xad, 0xe8, 1]⟩
  limits : WithinLimits data
  sectionSize_le : sectionSize data ≤ data.size
  wellFormed : ∀ r ∈ dropRegion region (sectionRecords data), r.WellFormed (sectionStore data)

lemma Prologue.sectionSize_of_parse {p : Prologue} (hp : parse data = .ok p) :
    p.sectionSize = Rpm.sectionSize data := by
  obtain ⟨-, -, -, rfl⟩ := parse_eq_ok_iff.mp hp
  simp only [sectionSize, storeStart, Rpm.sectionSize]

lemma parseEntries_of_parse {p : Prologue} (hp : Prologue.parse data = .ok p) :
    parseEntries data region =
      if data.size < sectionSize data then .error (.headerTruncated .indexOrStore)
      else decodeRecords (sectionStore data) (dropRegion region (sectionRecords data)) := by
  have hcount := Prologue.entryCount_of_parse hp
  have hstart : p.storeStart = 16 + 16 * ofBigEndian (data.extract 8 12) := by
    rw [Prologue.storeStart, hcount]
  unfold parseEntries
  rw [hp]
  simp only [bind, Except.bind, Prologue.sectionSize_of_parse hp, hcount, hstart, sectionStore,
    sectionRecords]
  split_ifs <;> rfl

lemma parseEntries_eq_ok_iff : parseEntries data region = .ok entries ↔
    data.extract 0 4 = sectionMagic.extract 0 4 ∧ WithinLimits data ∧
      sectionSize data ≤ data.size ∧
        decodeRecords (sectionStore data) (dropRegion region (sectionRecords data)) =
          .ok entries := by
  constructor
  · intro h
    obtain ⟨p, hp, -⟩ := bind_eq_ok_iff.mp h
    rw [parseEntries_of_parse hp] at h
    split_ifs at h with hsize
    obtain ⟨-, hmagic, hlimits, -⟩ := Prologue.parse_eq_ok_iff.mp hp
    exact ⟨hmagic, hlimits, Nat.le_of_not_lt hsize, h⟩
  · rintro ⟨hmagic, hlimits, hsize, h⟩
    have h16 : 16 ≤ data.size := by
      unfold sectionSize at hsize
      omega
    rw [parseEntries_of_parse (Prologue.parse_eq_ok_iff.mpr ⟨h16, hmagic, hlimits, rfl⟩),
      if_neg (Nat.not_lt.mpr hsize), h]

/-! ### Accepting -/

lemma exists_decodeRecords_iff {store : ByteArray} {records : List IndexRecord} :
    (∃ entries, decodeRecords store records = .ok entries) ↔
      ∀ r ∈ records, r.WellFormed store := by
  simp only [← exists_decodeValue_iff, decodeRecords_eq_ok_iff]
  induction records with
  | nil => simp
  | cons r records ih =>
    rw [List.forall_mem_cons, ← ih]
    constructor
    · rintro ⟨entries, h⟩
      obtain ⟨e, rest, ⟨-, hv⟩, hrest, -⟩ := List.forall₂_cons_left_iff.mp h
      exact ⟨⟨_, hv⟩, rest, hrest⟩
    · rintro ⟨⟨v, hv⟩, rest, hrest⟩
      exact ⟨⟨r.tag, v⟩ :: rest, .cons ⟨rfl, hv⟩ hrest⟩

/-- **Exactly the well-formed sections are accepted.** -/
lemma exists_parseEntries_iff :
    (∃ entries, parseEntries data region = .ok entries) ↔ WellFormedSection data region := by
  simp only [parseEntries_eq_ok_iff, exists_and_left, exists_decodeRecords_iff]
  exact ⟨fun ⟨hmagic, hlimits, hsize, hrecords⟩ => ⟨hmagic, hlimits, hsize, hrecords⟩,
    fun ⟨hmagic, hlimits, hsize, hrecords⟩ => ⟨hmagic, hlimits, hsize, hrecords⟩⟩

lemma forall₂_says_of_parseEntries (h : parseEntries data region = .ok entries) :
    List.Forall₂ (fun r e => r.tag = e.tag ∧ r.Says (sectionStore data) e.value)
      (dropRegion region (sectionRecords data)) entries := by
  obtain ⟨-, -, -, hrecords⟩ := parseEntries_eq_ok_iff.mp h
  simpa only [decodeRecords_eq_ok_iff, decodeValue_eq_ok_iff] using hrecords

/-! ### Around a section -/

lemma le_sectionSize (data : ByteArray) : 16 ≤ sectionSize data := by
  unfold sectionSize
  omega

lemma parseEntries_congr {other : ByteArray} (hsize : sectionSize data ≤ data.size)
    (hsize' : sectionSize data ≤ other.size)
    (hsame : other.extract 0 (sectionSize data) = data.extract 0 (sectionSize data)) :
    parseEntries other region = parseEntries data region := by
  have h16 := le_sectionSize data
  have hprologue : Prologue.parse other = Prologue.parse data :=
    Prologue.parse_congr (Nat.le_trans h16 hsize) (Nat.le_trans h16 hsize')
      (extract_congr hsame h16 0)
  have hcount : other.extract 8 12 = data.extract 8 12 := extract_congr hsame (by omega) 8
  have hsection : sectionSize other = sectionSize data := by
    rw [sectionSize, sectionSize, hcount, extract_congr hsame h16 12]
  have hstore : sectionStore other = sectionStore data := by
    rw [sectionStore, sectionStore, hsection, hcount, extract_congr hsame (Nat.le_refl _)]
  have hrecords : sectionRecords other = sectionRecords data := by
    rw [sectionRecords, sectionRecords, hcount]
    refine List.map_congr_left fun i hi => ?_
    have hlt := List.mem_range.mp hi
    rw [IndexRecord.ofBytes_eq_extract, extract_congr hsame (by unfold sectionSize; omega),
      ← IndexRecord.ofBytes_eq_extract]
  cases hp : Prologue.parse data with
  | error e =>
    unfold parseEntries
    rw [hprologue, hp]
    rfl
  | ok p =>
    rw [parseEntries_of_parse hp, parseEntries_of_parse (hprologue.trans hp), hsection, hstore,
      hrecords, if_neg (Nat.not_lt.mpr hsize), if_neg (Nat.not_lt.mpr hsize')]

lemma parseEntries_extract_append (hsize : sectionSize data ≤ data.size) (rest : ByteArray) :
    parseEntries (data.extract 0 (sectionSize data) ++ rest) region = parseEntries data region := by
  have hfront : (data.extract 0 (sectionSize data)).size = sectionSize data :=
    size_extract_of_le hsize
  refine parseEntries_congr hsize ?_ (ByteArray.extract_append_eq_left hfront.symm)
  rw [ByteArray.size_append, hfront]
  exact Nat.le_add_right _ _

/-- What is left of an accepted section where the data ends within it is told to be cut short, and
where. -/
lemma parseEntries_extract (h : WellFormedSection data region) {n : Nat} (hn : n < sectionSize data) :
    parseEntries (data.extract 0 n) region =
      .error (.headerTruncated (if n < 16 then .prologue else .indexOrStore)) := by
  have hsize : (data.extract 0 n).size = n :=
    size_extract_of_le (Nat.le_trans (Nat.le_of_lt hn) h.sectionSize_le)
  by_cases h16 : n < 16
  · unfold parseEntries Prologue.parse
    rw [hsize, if_pos h16, if_pos h16]
    rfl
  · have hdata : 16 ≤ data.size := Nat.le_trans (le_sectionSize data) h.sectionSize_le
    have hp := Prologue.parse_eq_ok_iff.mpr ⟨hdata, h.magic_eq, h.limits, rfl⟩
    have hsame : (data.extract 0 n).extract 0 16 = data.extract 0 16 := by
      rw [extract_extract_of_le _ (by omega), Nat.zero_add]
    have hp' : Prologue.parse (data.extract 0 n) = Prologue.parse data :=
      Prologue.parse_congr hdata (by omega) hsame
    have hsection : sectionSize (data.extract 0 n) = sectionSize data := by
      rw [sectionSize, sectionSize, extract_congr hsame (by omega) 8,
        extract_congr hsame (Nat.le_refl _) 12]
    rw [parseEntries_of_parse (hp'.trans hp), hsection, hsize, if_pos hn, if_neg h16]

/-- **The reader of sections** never cuts beyond the data. It accepts exactly the well-formed
sections, and the entries are what the records say. What follows a section does not count, and
whatever an accepted one is cut down to is told to be cut short. -/
theorem parseEntries_iff_wellFormed (data : ByteArray) (region : UInt32) :
    (Checked.entries data region).run = some (parseEntries data region) ∧
      ((∃ entries, parseEntries data region = .ok entries) ↔ WellFormedSection data region) ∧
      (∀ entries, parseEntries data region = .ok entries →
        List.Forall₂ (fun r e => r.tag = e.tag ∧ r.Says (sectionStore data) e.value)
          (dropRegion region (sectionRecords data)) entries) ∧
      (sectionSize data ≤ data.size → ∀ rest,
        parseEntries (data.extract 0 (sectionSize data) ++ rest) region =
          parseEntries data region) ∧
      (WellFormedSection data region → ∀ n < sectionSize data,
        parseEntries (data.extract 0 n) region =
          .error (.headerTruncated (if n < 16 then .prologue else .indexOrStore))) :=
  ⟨congrArg ExceptT.run (Checked.entries_eq data region), exists_parseEntries_iff,
    fun _ => forall₂_says_of_parseEntries, parseEntries_extract_append,
    fun h _ => parseEntries_extract h⟩

/-- A section with values that overlap and start anywhere, and a record of the region that points
nowhere. -/
def overlapping : ByteArray :=
  sectionBytes [⟨63, 7, -5, 2 ^ 32 - 1⟩, ⟨1006, 4, 1, 1⟩, ⟨1000, 6, 1, 99⟩, ⟨1006, 8, 0, 2⟩,
    ⟨9, 77, 3, 2⟩] ("ab".toUTF8.push 0 ++ "c".toUTF8.push 0)

/-- The entries that the records of this section say. -/
def overlappingEntries : List Entry := [
  ⟨1006, .int32 [0x62006300]⟩, ⟨1000, .string "b"⟩, ⟨1006, .stringArray ["ab", "c"]⟩,
  ⟨9, .unknown 77 ⟨#[0x63, 0]⟩⟩]

lemma parseEntries_overlapping : parseEntries overlapping 63 = .ok overlappingEntries := by
  decide +kernel

theorem parseEntries_iff_wellFormed_overlapping :
    WellFormedSection overlapping 63 ∧
      (∀ rest, parseEntries (overlapping.extract 0 101 ++ rest) 63 = .ok overlappingEntries) ∧
      parseEntries (overlapping.extract 0 100) 63 = .error (.headerTruncated .indexOrStore) := by
  have hsize : sectionSize overlapping = 101 := by decide +kernel
  obtain ⟨-, haccept, -, hrest, hcut⟩ := parseEntries_iff_wellFormed overlapping 63
  have hwell := haccept.mp ⟨_, parseEntries_overlapping⟩
  refine ⟨hwell, fun rest => ?_, hcut hwell 100 (by rw [hsize]; decide)⟩
  rw [← parseEntries_overlapping, ← hrest hwell.sectionSize_le rest, hsize]

end Rpm

import Mathlib.Order.Bounds.Basic
import Rpm.Proofs.Header.RoundTrip

/-!
Where the values of a section stand.

Values are placed one after another, each at the first position that its alignment allows. So a
section is known byte by byte: its prologue, its records, the values with zeros where one had to be
moved, and at the end the record of the region that points back over the index.
-/

namespace Rpm

variable {region : UInt32} {entries : List Entry} {data store : ByteArray}

/-! ### Positions -/

lemma isLeast_size_aligned {alignment : Nat} (hpos : 0 < alignment) (store : ByteArray) :
    IsLeast {k | store.size ≤ k ∧ alignment ∣ k} (Layout.aligned alignment store).size := by
  have hlt := Layout.size_aligned_lt hpos store
  have hdvd := dvd_add_paddingFor hpos store.size
  have hsize : (Layout.aligned alignment store).size =
      store.size + paddingFor alignment store.size := by
    rw [Layout.aligned, ByteArray.size_append, size_replicateByte]
  rw [hsize] at hlt ⊢
  refine ⟨⟨Nat.le_add_right _ _, hdvd⟩, ?_⟩
  rintro k ⟨hk, hdvd'⟩
  -- An earlier position would be less than one alignment in front of this one.
  by_contra hless
  have hle := Nat.le_of_dvd (by omega) (Nat.dvd_sub hdvd hdvd')
  omega

namespace Value

lemma ofId?_typeId {v : Value} (hv : v.Unambiguous) : ValueType.ofId? v.typeId = v.type? := by
  cases v with
  | unknown id bytes => exact ValueType.ofId?_eq_none_iff.mpr hv
  | _ => rfl

lemma alignment_eq {v : Value} {t : ValueType} (hv : v.Unambiguous)
    (ht : ValueType.ofId? v.typeId = some t) : v.alignment = t.alignment := by
  rw [ofId?_typeId hv] at ht
  rw [alignment, ht]

end Value

/-! ### Values one after another -/

/-- Whether records say of some values where they stand in a store, one after another from a position
on up to another: each at the first position that its alignment allows, with zeros in front of it. -/
inductive Arranged (store : ByteArray) : Nat → List IndexRecord → List Entry → Nat → Prop
  | nil (pos : Nat) : Arranged store pos [] [] pos
  | cons {pos start stop : Nat} {e : Entry} {records : List IndexRecord} {entries : List Entry}
    (first : IsLeast {k | pos ≤ k ∧ e.value.alignment ∣ k} start)
    (zero : ∀ k, pos ≤ k → k < start → byteAt store k = 0)
    (value : store.extract start (start + e.value.bytes.size) = e.value.bytes)
    (rest : Arranged store (start + e.value.bytes.size) records entries stop) :
    Arranged store pos (⟨e.tag, e.value.typeId, start, e.value.count⟩ :: records) (e :: entries) stop

namespace Arranged

variable {pos stop : Nat} {records : List IndexRecord}

lemma le (h : Arranged store pos records entries stop) : pos ≤ stop := by
  induction h with
  | nil => exact Nat.le_refl _
  | cons first _ _ _ ih => exact Nat.le_trans first.1.1 (Nat.le_trans (Nat.le_add_right _ _) ih)

lemma map_eq (h : Arranged store pos records entries stop) :
    records.map (fun r => (r.tag, r.typeId, r.count)) =
      entries.map fun e => (e.tag, e.value.typeId, e.value.count) := by
  induction h with
  | nil => rfl
  | cons _ _ _ _ ih => rw [List.map_cons, List.map_cons, ih]

lemma of_mem_zip (h : Arranged store pos records entries stop) :
    ∀ x ∈ records.zip entries, x.1.typeId = x.2.value.typeId ∧
      (x.2.value.alignment : Int) ∣ x.1.offset ∧ (pos : Int) ≤ x.1.offset ∧
      x.1.offset + x.2.value.bytes.size ≤ stop := by
  induction h with
  | nil => simp
  | cons first _ _ rest ih =>
    obtain ⟨hpos, hdvd⟩ := first.1
    have hstop := rest.le
    intro x hx
    rcases List.mem_cons.mp hx with rfl | hx
    · exact ⟨rfl, Int.natCast_dvd_natCast.mpr hdvd, by simpa using hpos, by simp only; omega⟩
    · obtain ⟨htype, halignment, hle, hge⟩ := ih x hx
      exact ⟨htype, halignment, by omega, hge⟩

lemma pairwise (h : Arranged store pos records entries stop) : (records.zip entries).Pairwise
    fun (x y : IndexRecord × Entry) => x.1.offset + (x.2.value.bytes.size : Int) ≤ y.1.offset := by
  induction h with
  | nil => exact .nil
  | cons _ _ _ rest ih =>
    refine List.pairwise_cons.mpr ⟨fun y hy => ?_, ih⟩
    simpa using (rest.of_mem_zip y hy).2.2.1

lemma byteAt_eq_zero (h : Arranged store pos records entries stop) {k : Nat} (hpos : pos ≤ k)
    (hstop : k < stop) (houtside : ∀ x ∈ records.zip entries,
      ¬(x.1.offset ≤ k ∧ k < x.1.offset + x.2.value.bytes.size)) : byteAt store k = 0 := by
  induction h with
  | nil => omega
  | @cons pos start stop e records entries _ zero _ _ ih =>
    have hfirst := houtside _ List.mem_cons_self
    simp only [not_and, not_lt] at hfirst
    by_cases hk : k < start
    · exact zero k hpos hk
    · have hbehind : start + e.value.bytes.size ≤ k := by
        have := hfirst (by omega)
        omega
      exact ih hbehind hstop fun x hx => houtside x (List.mem_cons_of_mem _ hx)

end Arranged

namespace Layout

/-- **Placing** arranges values behind those that are there, whatever comes after them. -/
lemma arranged_of_foldlM {l l' : Layout} (hp : entries.foldlM (place region) l = .ok l') :
    ∃ records tail, l'.records.toList = l.records.toList ++ records ∧ l'.store = l.store ++ tail ∧
      ∀ after, Arranged (l'.store ++ after) l.store.size records entries l'.store.size := by
  induction entries generalizing l with
  | nil =>
    rw [List.foldlM_nil, pure_eq_ok_iff] at hp
    exact ⟨[], ByteArray.empty, by simp [hp], by simp [hp], fun after => hp ▸ .nil _⟩
  | cons e entries ih =>
    rw [List.foldlM_cons, bind_eq_ok_iff] at hp
    obtain ⟨m, hm, hp⟩ := hp
    obtain ⟨records, tail, hrecords, hstore, harranged⟩ := ih hp
    obtain ⟨-, -, -, -, rfl⟩ := place_eq_ok_iff.mp hm
    set padding := replicateByte (paddingFor e.value.alignment l.store.size) 0 with hpadding
    have haligned : aligned e.value.alignment l.store = l.store ++ padding := rfl
    simp only [haligned, Array.toList_push, List.append_assoc, List.singleton_append] at hrecords
    simp only [haligned, ByteArray.append_assoc] at hstore
    refine ⟨_, _, hrecords, hstore, fun after => .cons ?_ ?_ ?_ ?_⟩
    · rw [← haligned]
      exact isLeast_size_aligned e.value.alignment_pos l.store
    · intro k hpos hk
      obtain ⟨j, rfl⟩ := Nat.exists_eq_add_of_le hpos
      rw [ByteArray.size_append] at hk
      have hj : j < padding.size := by omega
      rw [hstore, ByteArray.append_assoc, byteAt_append_right, ByteArray.append_assoc,
        byteAt_append_left hj]
      exact byteAt_replicateByte_zero _ _
    · have hcut : l'.store ++ after = l.store ++ padding ++ e.value.bytes ++ (tail ++ after) := by
        simp only [hstore, ByteArray.append_assoc]
      rw [hcut]
      exact extract_middle rfl rfl
    · have hrest := harranged after
      rwa [haligned, ByteArray.size_append] at hrest

end Layout

/-! ### The whole section -/

/-- How entries are laid out in a section: its records and its store, whose numbers all fit into
their fields. The first record and the end of the store are those of the region. -/
structure SectionLayout (region : UInt32) (placed : List Entry) (data : ByteArray)
    (records : List IndexRecord) (store : ByteArray) : Prop where
  data_eq : data = sectionBytes records store
  length_eq : records.length = placed.length + 1
  length_lt : records.length < 2 ^ 32
  size_lt : store.size < 2 ^ 32
  inRange : ∀ r ∈ records, r.InRange
  head_eq : records.head? = some ⟨region, ValueType.bin.id, (store.size - 16 : Nat), 16⟩
  trailer_eq : ∃ last : IndexRecord, last.InRange ∧ 16 ≤ store.size ∧
    last = ⟨region, ValueType.bin.id, -(16 * records.length : Nat), 16⟩ ∧
    store.extract (store.size - 16) store.size = last.bytes
  map_eq : records.tail.map (fun r => (r.tag, r.typeId, r.count)) =
    placed.map fun e => (e.tag, e.value.typeId, e.value.count)
  arranged : Arranged store 0 records.tail placed (store.size - 16)
  aligned : ∀ x ∈ records.tail.zip placed, (x.2.value.alignment : Int) ∣ x.1.offset ∧
    (x.2.value.Unambiguous → ∀ t, ValueType.ofId? x.1.typeId = some t →
      (t.alignment : Int) ∣ x.1.offset)
  apart : (records.tail.zip placed).Pairwise
    fun (x y : IndexRecord × Entry) => x.1.offset + (x.2.value.bytes.size : Int) ≤ y.1.offset
  byteAt_eq_zero : ∀ k < store.size - 16, (∀ x ∈ records.tail.zip placed,
    ¬(x.1.offset ≤ k ∧ k < x.1.offset + x.2.value.bytes.size)) → byteAt store k = 0

/-- **A rendered section** has a record for each entry and one for the region in front of them, and a
store in which the values stand in this order, as close as their alignments allow, with zeros between
them and the value of the region behind. A value of unknown type may start anywhere, so that a record
says where values of its type may start only if the value does not carry the number of a known type
by mistake. -/
theorem sectionLayout_of_render {sort : Bool}
    (rendered : renderEntries entries sort region = .ok data) :
    ∃ placed records store, (sort = false → placed = entries) ∧
      (sort = true → StablySorted entries placed) ∧
      SectionLayout region placed data records store := by
  set placed := if sort then sortedByTag entries else entries with hplaced
  obtain ⟨l, hl, hs⟩ := bind_eq_ok_iff.mp rendered
  obtain ⟨hstore, hcount, hdata⟩ := Layout.section_eq_ok_iff.mp hs
  have holds : l.Holds ([] ++ placed) := Layout.holds_empty.foldlM hl
  obtain ⟨records, tail, hrecords, -, harranged⟩ := Layout.arranged_of_foldlM hl
  obtain rfl : l.records.toList = records := hrecords
  have hlength : l.records.size = placed.length := holds.size_eq
  have hsize : (l.store ++ (l.trailer region).bytes).size - 16 = l.store.size := by simp
  have hall := harranged (l.trailer region).bytes
  refine ⟨placed, l.regionRecord region :: l.records.toList,
    l.store ++ (l.trailer region).bytes, by simp +contextual [hplaced], ?_, ?_⟩
  · rintro rfl
    exact stablySorted_sortedByTag entries
  · exact {
      data_eq := hdata
      length_eq := by simp [hlength]
      length_lt := by simp; omega
      size_lt := by simp; omega
      inRange := by
        intro r hr
        rcases List.mem_cons.mp hr with rfl | hr
        · exact ⟨by simp only [Layout.regionRecord]; omega, by simp only [Layout.regionRecord]; omega,
            by simp [Layout.regionRecord]⟩
        · exact holds.inRange r (Array.mem_toList_iff.mp hr)
      head_eq := by rw [hsize]; rfl
      trailer_eq := by
        refine ⟨l.trailer region, ⟨?_, ?_, ?_⟩, by simp, by simp [Layout.trailer], ?_⟩
        · simp only [Layout.trailer]; omega
        · simp only [Layout.trailer]; omega
        · simp [Layout.trailer]
        · rw [hsize]
          exact extract_size_append (ByteArray.size_append)
      map_eq := hall.map_eq
      arranged := by rw [hsize]; exact hall
      aligned := fun x hx => by
        obtain ⟨htype, hdvd, -⟩ := hall.of_mem_zip x hx
        refine ⟨hdvd, fun known t ht => ?_⟩
        rw [htype] at ht
        exact Value.alignment_eq known ht ▸ hdvd
      apart := hall.pairwise
      byteAt_eq_zero := fun k hk houtside => by
        rw [hsize] at hk
        exact hall.byteAt_eq_zero (Nat.zero_le k) hk houtside }

theorem sectionLayout_of_render_mixedEntries :
    ∃ data placed records store, renderEntries mixedEntries true 63 = .ok data ∧
      StablySorted mixedEntries placed ∧ SectionLayout 63 placed data records store ∧
      records.length = 5 := by
  obtain ⟨data, rendered, -⟩ := exists_render true mixedEntries_placeable (by decide)
    (by decide +kernel)
  obtain ⟨placed, records, store, -, hsorted, hlayout⟩ := sectionLayout_of_render rendered
  refine ⟨data, placed, records, store, rendered, hsorted rfl, hlayout, ?_⟩
  rw [hlayout.length_eq, (hsorted rfl).perm.length_eq]
  rfl

/-- A byte, and behind it a value of unknown type that carries the number of 32-bit values. -/
def mislabelledEntries : List Entry := [⟨1, .char ⟨#[0]⟩⟩, ⟨2, .unknown 4 ⟨#[1, 2, 3, 4]⟩⟩]

/-- The record of this value is one of 32-bit values that start at the second byte. -/
theorem not_aligned_mislabelledEntries :
    ∃ records store, renderEntries mislabelledEntries false 63 = .ok (sectionBytes records store) ∧
      ∃ r ∈ records.tail, ValueType.ofId? r.typeId = some .int32 ∧
        ¬(ValueType.int32.alignment : Int) ∣ r.offset := by
  have hrendered : renderEntries mislabelledEntries false 63 = .ok (sectionBytes
      [⟨63, 7, 5, 16⟩, ⟨1, 1, 0, 1⟩, ⟨2, 4, 1, 4⟩]
      (⟨#[0, 1, 2, 3, 4]⟩ ++ (⟨63, 7, -48, 16⟩ : IndexRecord).bytes)) := by
    decide +kernel
  exact ⟨_, _, hrendered, ⟨2, 4, 1, 4⟩, by simp, rfl, by decide⟩

end Rpm

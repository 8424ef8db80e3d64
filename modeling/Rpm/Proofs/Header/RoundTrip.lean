import Mathlib.Data.List.Forall2
import Rpm.Proofs.Header.Layout
import Rpm.Proofs.Header.Value

/-!
Headers read back from the sections that hold them.

While a section is laid out, the records so far describe the entries so far, in every store that
begins with what has been placed. This is kept when one more value is placed, so that it holds of
the whole section; the value of the region stands behind all others.
-/

namespace Rpm

variable {region : UInt32} {entries : List Entry} {data : ByteArray}

/-! ### Records and entries -/

/-- Whether a record says of an entry the tag, and where in a store its value is: it is read from
there, if its type tells how. -/
structure IndexRecord.Describes (store : ByteArray) (r : IndexRecord) (e : Entry) : Prop where
  tag_eq : r.tag = e.tag
  decode_eq : e.value.Unambiguous → decodeValue store r = .ok e.value

/-- Reading records into an array puts their entries behind those that are there. -/
lemma foldlM_decodeValue (store : ByteArray) (records : List IndexRecord) (read : Array Entry) :
    records.foldlM (fun (entries : Array Entry) r => do
      let value ← decodeValue store r
      return entries.push ⟨r.tag, value⟩) read =
      (decodeRecords store records).map (read ++ ·.toArray) := by
  induction records generalizing read with
  | nil => simp [decodeRecords, pure, Except.pure, Except.map]
  | cons r records ih =>
    rw [decodeRecords, List.foldlM_cons, List.foldlM_cons]
    cases decodeValue store r with
    | error e => rfl
    | ok v =>
      refine (ih (read.push ⟨r.tag, v⟩)).trans (Eq.trans ?_
        (congrArg (fun x => (x.map Array.toList).map (read ++ ·.toArray))
          (ih (#[].push ⟨r.tag, v⟩)).symm))
      cases decodeRecords store records <;> simp [Except.map]

lemma decodeRecords_cons (store : ByteArray) (r : IndexRecord) (records : List IndexRecord) :
    decodeRecords store (r :: records) = (do
      let value ← decodeValue store r
      return ⟨r.tag, value⟩ :: (← decodeRecords store records)) := by
  rw [decodeRecords, List.foldlM_cons]
  cases decodeValue store r with
  | error e => rfl
  | ok v =>
    refine (congrArg (·.map Array.toList)
      (foldlM_decodeValue store records (#[].push ⟨r.tag, v⟩))).trans ?_
    cases decodeRecords store records <;> simp [Except.map, bind, Except.bind, pure, Except.pure]

lemma decodeRecords_eq_ok_iff {store : ByteArray} {records : List IndexRecord} :
    decodeRecords store records = .ok entries ↔
      List.Forall₂ (fun r e => r.tag = e.tag ∧ decodeValue store r = .ok e.value) records
        entries := by
  induction records generalizing entries with
  | nil => simp [decodeRecords, pure, Except.pure, Except.map, eq_comm]
  | cons r records ih =>
    rw [decodeRecords_cons, List.forall₂_cons_left_iff]
    simp only [bind_eq_ok_iff, pure_eq_ok_iff]
    constructor
    · rintro ⟨v, hv, rest, hrest, rfl⟩
      exact ⟨⟨r.tag, v⟩, rest, ⟨rfl, hv⟩, ih.mp hrest, rfl⟩
    · rintro ⟨e, rest, ⟨htag, hv⟩, hrest, rfl⟩
      exact ⟨e.value, hv, rest, ih.mpr hrest, by rw [htag]⟩

lemma decodeRecords_of_describes {store : ByteArray} {records : List IndexRecord}
    (h : List.Forall₂ (IndexRecord.Describes store) records entries)
    (known : ∀ e ∈ entries, e.value.Unambiguous) : decodeRecords store records = .ok entries := by
  refine decodeRecords_eq_ok_iff.mpr ?_
  induction h with
  | nil => exact .nil
  | cons hr _ ih =>
    exact .cons ⟨hr.tag_eq, hr.decode_eq (known _ (by simp))⟩
      (ih fun e he => known e (by simp [he]))

/-! ### Placing values -/

namespace Layout

/-- Whether the records describe the entries, in every store that begins with this one. -/
structure Holds (l : Layout) (entries : List Entry) : Prop where
  inRange : ∀ r ∈ l.records, r.InRange
  describes : ∀ after,
    List.Forall₂ (IndexRecord.Describes (l.store ++ after)) l.records.toList entries

lemma holds_empty : Holds {} [] :=
  ⟨by simp, fun _ => .nil⟩

lemma Holds.size_eq {l : Layout} (h : l.Holds entries) : l.records.size = entries.length := by
  simpa using (h.describes ByteArray.empty).length_eq

lemma Holds.place {l l' : Layout} {e : Entry} (h : l.Holds entries)
    (hp : place region l e = .ok l') : l'.Holds (entries ++ [e]) := by
  obtain ⟨-, hsize, hnul, hcount, rfl⟩ := place_eq_ok_iff.mp hp
  refine ⟨fun r hr => ?_, fun after => ?_⟩
  · rcases Array.mem_push.mp hr with hr | rfl
    · exact h.inRange r hr
    · exact ⟨by simp only; omega, by simp only; omega, hcount⟩
  · have hbefore := h.describes
      (replicateByte (paddingFor e.value.alignment l.store.size) 0 ++ (e.value.bytes ++ after))
    have hstore : aligned e.value.alignment l.store ++ e.value.bytes ++ after =
        l.store ++ (replicateByte (paddingFor e.value.alignment l.store.size) 0 ++
          (e.value.bytes ++ after)) := by
      simp only [aligned, ByteArray.append_assoc]
    have hlast : IndexRecord.Describes (aligned e.value.alignment l.store ++ e.value.bytes ++ after)
        ⟨e.tag, e.value.typeId, (aligned e.value.alignment l.store).size, e.value.count⟩ e :=
      ⟨rfl, fun known => decodeValue_bytes e.tag known hnul _ after⟩
    rw [Array.toList_push]
    rw [← hstore] at hbefore
    exact List.rel_append hbefore (.cons hlast .nil)

lemma Holds.foldlM {l l' : Layout} {before : List Entry} (h : l.Holds before)
    (hp : entries.foldlM (Layout.place region) l = .ok l') : l'.Holds (before ++ entries) := by
  induction entries generalizing l before with
  | nil =>
    rw [List.foldlM_nil, pure_eq_ok_iff] at hp
    rw [List.append_nil]
    exact hp ▸ h
  | cons e entries ih =>
    rw [List.foldlM_cons, bind_eq_ok_iff] at hp
    obtain ⟨m, hm, hp⟩ := hp
    have hnext := ih (h.place hm) hp
    rwa [List.append_assoc, List.singleton_append] at hnext

end Layout

/-! ### The whole section -/

lemma exists_sectionBytes_of_render {sort : Bool}
    (rendered : renderEntries entries sort region = .ok data) :
    ∃ records store, data = sectionBytes records store ∧ records.length = entries.length + 1 ∧
      records.length < 2 ^ 32 ∧ store.size < 2 ^ 32 ∧ (∀ r ∈ records, r.InRange) ∧
      List.Forall₂ (IndexRecord.Describes store) (dropRegion region records)
        (if sort then sortedByTag entries else entries) := by
  set ordered := if sort then sortedByTag entries else entries with hordered
  have hperm : ordered.Perm entries := perm_of_sort sort entries
  obtain ⟨l, hl, hs⟩ := bind_eq_ok_iff.mp rendered
  obtain ⟨hstore, hcount, rfl⟩ := Layout.section_eq_ok_iff.mp hs
  have holds : l.Holds ([] ++ ordered) := Layout.holds_empty.foldlM hl
  rw [List.nil_append] at holds
  have hlength : l.records.size = entries.length := holds.size_eq.trans hperm.length_eq
  refine ⟨_, _, rfl, by simp [hlength], by simp; omega, by simp; omega, fun r hr => ?_, ?_⟩
  · rcases List.mem_cons.mp hr with rfl | hr
    · exact ⟨by simp only [Layout.regionRecord]; omega, by simp only [Layout.regionRecord]; omega,
        by simp [Layout.regionRecord]⟩
    · exact holds.inRange r (Array.mem_toList_iff.mp hr)
  · have hdrop : dropRegion region (l.regionRecord region :: l.records.toList) =
        l.records.toList := by
      simp [dropRegion, IndexRecord.isRegion, Layout.regionRecord]
    rw [hdrop]
    exact holds.describes _

lemma tag_ne_of_render {sort : Bool} (rendered : renderEntries entries sort region = .ok data) :
    ∀ e ∈ entries, e.tag ≠ region := by
  obtain ⟨l, hl, -⟩ := bind_eq_ok_iff.mp rendered
  exact fun e he => Layout.tag_ne_of_foldlM hl e ((perm_of_sort sort entries).mem_iff.mpr he)

lemma size_bytes_le_of_render {sort : Bool}
    (rendered : renderEntries entries sort region = .ok data) (limits : WithinLimits data) :
    ∀ e ∈ entries, e.value.bytes.size ≤ mostStoreSize := by
  obtain ⟨l, hl, hs⟩ := bind_eq_ok_iff.mp rendered
  obtain ⟨hstore, hcount, rfl⟩ := Layout.section_eq_ok_iff.mp hs
  have hlimit := ((withinLimits_sectionBytes_iff (by simp; omega) (by simp; omega)).mp limits).2
  rw [ByteArray.size_append] at hlimit
  intro e he
  have := (Layout.size_le_of_foldlM hl).2 e ((perm_of_sort sort entries).mem_iff.mpr he)
  omega

/-- Whatever is read from a rendered section, it has as many entries as were rendered, with the same
tags, and with the same values where the type tells how they are to be read. -/
lemma forall₂_of_parseEntries {sort : Bool} {read : List Entry} {rest : ByteArray}
    (rendered : renderEntries entries sort region = .ok data) (limits : WithinLimits data)
    (hread : parseEntries (data ++ rest) region = .ok read) :
    List.Forall₂ (fun e' e : Entry => e'.tag = e.tag ∧ (e.value.Unambiguous → e'.value = e.value))
      read (if sort then sortedByTag entries else entries) := by
  obtain ⟨records, store, rfl, -, hcount, hstore, hrange, hdescribes⟩ :=
    exists_sectionBytes_of_render rendered
  obtain ⟨hcount', hstore'⟩ := (withinLimits_sectionBytes_iff hcount hstore).mp limits
  rw [parseEntries_sectionBytes region rest hcount' hstore' hrange, decodeRecords_eq_ok_iff] at hread
  have hboth := List.forall₂_iff_get.mp hread
  have hboth' := List.forall₂_iff_get.mp hdescribes
  refine List.forall₂_iff_get.mpr ⟨hboth.1.symm.trans hboth'.1, fun i h₁ h₂ => ?_⟩
  have h₃ : i < (dropRegion region records).length := hboth.1 ▸ h₁
  obtain ⟨htag, hvalue⟩ := hboth.2 i h₃ h₁
  obtain ⟨htag', hvalue'⟩ := hboth'.2 i h₃ h₂
  refine ⟨htag.symm.trans htag', fun known => ?_⟩
  exact Except.ok.inj (hvalue.symm.trans (hvalue' known))

lemma parseEntries_append_of_render {sort : Bool}
    (rendered : renderEntries entries sort region = .ok data) (limits : WithinLimits data)
    (known : ∀ e ∈ entries, e.value.Unambiguous) (rest : ByteArray) :
    parseEntries (data ++ rest) region = .ok (if sort then sortedByTag entries else entries) := by
  obtain ⟨records, store, rfl, -, hcount, hstore, hrange, hdescribes⟩ :=
    exists_sectionBytes_of_render rendered
  obtain ⟨hcount', hstore'⟩ := (withinLimits_sectionBytes_iff hcount hstore).mp limits
  rw [parseEntries_sectionBytes region rest hcount' hstore' hrange]
  exact decodeRecords_of_describes hdescribes fun e he =>
    known e ((perm_of_sort sort entries).mem_iff.mp he)

/-- **Header codec round trip.** What was rendered is read back: the same entries in their order,
or in stable ascending order if they were sorted, and never the region. -/
theorem parseEntries_of_render {sort : Bool}
    (rendered : renderEntries entries sort region = .ok data) (limits : WithinLimits data)
    (known : ∀ e ∈ entries, e.value.Unambiguous) :
    ∃ read, parseEntries data region = .ok read ∧ (sort = false → read = entries) ∧
      (sort = true → StablySorted entries read) ∧ ∀ e ∈ read, e.tag ≠ region := by
  have hparse := parseEntries_append_of_render rendered limits known ByteArray.empty
  rw [ByteArray.append_empty] at hparse
  have htags := tag_ne_of_render rendered
  cases sort with
  | false => exact ⟨entries, hparse, fun _ => rfl, by simp, htags⟩
  | true =>
    have hsorted := stablySorted_sortedByTag entries
    exact ⟨_, hparse, by simp, fun _ => hsorted,
      fun e he => htags e (hsorted.perm.mem_iff.mp he)⟩

/-- Two tags with two values each: one of them of an unknown type, one without elements. -/
def mixedEntries : List Entry := [
  ⟨1000, .string "name"⟩, ⟨7, .unknown 12 ⟨#[1, 2]⟩⟩, ⟨1000, .int64 []⟩, ⟨7, .i18nString ["", "a"]⟩]

lemma mixedEntries_placeable : ∀ e ∈ mixedEntries, e.Placeable 63 := by
  intro e he
  simp only [mixedEntries, List.mem_cons, List.not_mem_nil, or_false] at he
  rcases he with rfl | rfl | rfl | rfl <;> exact ⟨by decide, by decide +kernel⟩

theorem parseEntries_of_render_mixedEntries :
    ∃ data read, renderEntries mixedEntries true 63 = .ok data ∧
      parseEntries data 63 = .ok read ∧ StablySorted mixedEntries read := by
  obtain ⟨data, rendered, limits⟩ := exists_render true mixedEntries_placeable (by decide)
    (by decide +kernel)
  have known : ∀ e ∈ mixedEntries, e.value.Unambiguous := by
    simp [mixedEntries, Value.Unambiguous]
  obtain ⟨read, hread, -, hsorted, -⟩ := parseEntries_of_render rendered limits known
  exact ⟨data, read, rendered, hread, hsorted rfl⟩

end Rpm

import Mathlib.Tactic.Common
import Rpm.Proofs.Header.Decoding
import Rpm.Proofs.Header.RoundTrip

/-!
Readers that stay within the bytes.

A row that is cut at positions beyond its end gives a shorter piece, so that the reader of sections
says nothing about where it cuts. Here is the same reader again, with each cut checked: it has no
result at all if a piece would not lie within its row. That it always has one, and the same, means that
no numbers in a section lead out of it.
-/

namespace Rpm

/-- A reader of which every cut is checked. Without a result, a piece was beyond its row. -/
abbrev Checked := ExceptT Error Option

namespace Checked

variable {α β : Type}

/-- The piece of a row from a position on up to another, which both have to lie in it. -/
def cut (bytes : ByteArray) (start stop : Nat) : Checked ByteArray :=
  if start ≤ stop ∧ stop ≤ bytes.size then pure (bytes.extract start stop) else ExceptT.mk none

/-- The first of some elements, of which there has to be one. -/
def first : List α → Checked α
  | [] => ExceptT.mk none
  | a :: _ => pure a

/-! ### The reader -/

def prologue (data : ByteArray) : Checked Prologue :=
  if data.size < 16 then throw (.headerTruncated .prologue)
  else do
    let magic ← cut data 0 4
    if magic ≠ sectionMagic.extract 0 4 then throw .badHeaderMagic
    else do
      let entryCount := ofBigEndian (← cut data 8 12)
      let storeSize := ofBigEndian (← cut data 12 16)
      if entryCount > mostIndexEntries then throw (.headerTooLarge .indexEntries)
      else if storeSize > mostStoreSize then throw (.headerTooLarge .storeSize)
      else return ⟨entryCount, storeSize⟩

def record (index : ByteArray) (i : Nat) : Checked IndexRecord := do
  let bytes ← cut index (16 * i) (16 * i + 16)
  return {
    tag := UInt32.ofNat (ofBigEndian (← cut bytes 0 4))
    typeId := UInt32.ofNat (ofBigEndian (← cut bytes 4 8))
    offset := IndexRecord.toSigned (ofBigEndian (← cut bytes 8 12))
    count := ofBigEndian (← cut bytes 12 16) }

def numbers (store : ByteArray) (width count pos : Nat) : Checked (List Nat) :=
  (List.range count).mapM fun i => do
    return ofBigEndian (← cut store (pos + width * i) (pos + width * i + width))

def strings (tag : UInt32) (store : ByteArray) : Nat → Nat → Array String → Checked (List String)
  | 0, _, read => return read.toList
  | count + 1, pos, read =>
    match nulFrom store (store.size - pos) pos with
    | none => throw (.stringUnterminated tag)
    | some stop => do
      match String.fromUTF8? (← cut store pos stop) with
      | none => throw (.stringNotUtf8 tag)
      | some s => do
        let _rest ← cut store (stop + 1) store.size
        strings tag store count (stop + 1) (read.push s)

def value (store : ByteArray) (r : IndexRecord) : Checked Value :=
  if r.offset < 0 || r.offset > store.size then throw (.entryOutOfBounds r.tag)
  else if r.offset.toNat + r.count * elementSize r.typeId > store.size then
    throw (.entryOutOfBounds r.tag)
  else do
    let pos := r.offset.toNat
    let _rest ← cut store pos store.size
    match ValueType.ofId? r.typeId with
    | some .null => return .null
    | some .char => return .char (← cut store pos (pos + r.count))
    | some .int8 => return .int8 (← cut store pos (pos + r.count))
    | some .bin => return .bin (← cut store pos (pos + r.count))
    | some .int16 => return .int16 ((← numbers store 2 r.count pos).map UInt16.ofNat)
    | some .int32 => return .int32 ((← numbers store 4 r.count pos).map UInt32.ofNat)
    | some .int64 => return .int64 ((← numbers store 8 r.count pos).map UInt64.ofNat)
    | some .string => return .string (← first (← strings r.tag store 1 pos #[]))
    | some .stringArray => return .stringArray (← strings r.tag store r.count pos #[])
    | some .i18nString => return .i18nString (← strings r.tag store r.count pos #[])
    | none => return .unknown r.typeId (← cut store pos (pos + r.count))

def entries (data : ByteArray) (region : UInt32) : Checked (List Entry) := do
  let p ← prologue data
  if data.size < p.sectionSize then throw (.headerTruncated .indexOrStore)
  else do
    let index ← cut data 16 p.storeStart
    let store ← cut data p.storeStart p.sectionSize
    let records ← (List.range p.entryCount).mapM (record index)
    (dropRegion region records).mapM fun r => do return ⟨r.tag, ← value store r⟩

/-! ### Its cuts -/

/-- What a checked reader gives if all its cuts are within their rows. -/
def within (x : Except Error α) : Checked α := ExceptT.mk (some x)

lemma within_bind (x : Except Error α) {f : α → Checked β} {g : α → Except Error β}
    (h : ∀ a, x = .ok a → f a = within (g a)) : within x >>= f = within (x >>= g) := by
  cases x with
  | error e => rfl
  | ok a => exact h a rfl

lemma mapM_eq_pure {f : α → Checked β} {g : α → β} {xs : List α}
    (h : ∀ x ∈ xs, f x = pure (g x)) : xs.mapM f = pure (xs.map g) := by
  induction xs with
  | nil => rfl
  | cons x xs ih =>
    rw [List.mapM_cons, h x (by simp), ih fun y hy => h y (by simp [hy])]
    rfl

lemma cut_eq_pure {bytes : ByteArray} {start stop : Nat} (h : start ≤ stop)
    (h' : stop ≤ bytes.size) : cut bytes start stop = pure (bytes.extract start stop) :=
  if_pos ⟨h, h'⟩

lemma prologue_eq (data : ByteArray) : prologue data = within (Prologue.parse data) := by
  unfold prologue Prologue.parse
  by_cases hsize : data.size < 16
  · rw [if_pos hsize, if_pos hsize]
    rfl
  · rw [if_neg hsize, if_neg hsize, cut_eq_pure (by omega) (by omega),
      cut_eq_pure (by omega) (by omega), cut_eq_pure (by omega) (by omega)]
    simp only [pure_bind]
    split_ifs <;> rfl

lemma record_eq (data : ByteArray) {stop i : Nat} (hi : 16 + 16 * i + 16 ≤ stop)
    (hstop : stop ≤ data.size) :
    record (data.extract 16 stop) i = pure (IndexRecord.ofBytes data (16 + 16 * i)) := by
  have hindex : (data.extract 16 stop).size = stop - 16 := size_extract_of_le hstop
  have hpiece : (data.extract 16 stop).extract (16 * i) (16 * i + 16) =
      data.extract (16 + 16 * i) (16 + 16 * i + 16) := by
    rw [extract_extract_of_le _ (by omega), ← Nat.add_assoc]
  have hsize : (data.extract (16 + 16 * i) (16 + 16 * i + 16)).size = 16 :=
    size_extract_add (by omega)
  rw [record, cut_eq_pure (by omega) (by omega), hpiece, pure_bind,
    cut_eq_pure (by omega) (by omega), cut_eq_pure (by omega) (by omega),
    cut_eq_pure (by omega) (by omega), cut_eq_pure (by omega) (by omega),
    IndexRecord.ofBytes_eq_extract]
  rfl

lemma numbers_eq {store : ByteArray} {width count pos : Nat}
    (h : pos + width * count ≤ store.size) :
    numbers store width count pos = pure (readNumbers store width count pos) := by
  refine mapM_eq_pure fun i hi => ?_
  rw [cut_eq_pure (Nat.le_add_right _ _) (add_mul_add_le (List.mem_range.mp hi) h), pure_bind]

lemma strings_eq (tag : UInt32) {store : ByteArray} (count : Nat) {pos : Nat} (read : Array String) :
    strings tag store count pos read = within (readStrings tag store count pos read) := by
  induction count generalizing pos read with
  | zero => rfl
  | succ count ih =>
    unfold strings readStrings
    cases hnul : nulFrom store (store.size - pos) pos with
    | none => rfl
    | some stop =>
      obtain ⟨hle, -, -, hlt, -⟩ := nulFrom_eq_some_iff.mp hnul
      simp only [cut_eq_pure hle (Nat.le_of_lt hlt), pure_bind]
      cases String.fromUTF8? (store.extract pos stop) with
      | none => rfl
      | some s => simp only [cut_eq_pure hlt (Nat.le_refl _), pure_bind, ih]

lemma value_eq (store : ByteArray) (r : IndexRecord) :
    value store r = within (decodeValue store r) := by
  unfold value decodeValue
  by_cases hoffset : (r.offset < 0 || r.offset > store.size) = true
  · rw [if_pos hoffset, if_pos hoffset]
    rfl
  by_cases hsize : r.offset.toNat + r.count * elementSize r.typeId > store.size
  · rw [if_neg hoffset, if_neg hoffset, if_pos hsize, if_pos hsize]
    rfl
  rw [if_neg hoffset, if_neg hoffset, if_neg hsize, if_neg hsize]
  set pos := r.offset.toNat with hpos
  simp only [cut_eq_pure (show pos ≤ store.size by omega) (Nat.le_refl _), pure_bind]
  unfold elementSize at hsize
  cases hid : ValueType.ofId? r.typeId with
  | none =>
    simp only [hid] at hsize ⊢
    rw [cut_eq_pure (Nat.le_add_right _ _) (by omega)]
    rfl
  | some t =>
    cases t with
    | null => rfl
    | char | int8 | bin =>
      simp only [hid, ValueType.elementSize?, Option.getD_some] at hsize ⊢
      rw [cut_eq_pure (Nat.le_add_right _ _) (by omega)]
      rfl
    | int16 | int32 | int64 =>
      simp only [hid, ValueType.elementSize?, Option.getD_some] at hsize ⊢
      rw [numbers_eq (by omega)]
      rfl
    | string =>
      simp only [strings_eq]
      cases hread : readStrings r.tag store 1 pos #[] with
      | error e => rfl
      | ok read =>
        -- One string was asked for, so that there is a first one.
        obtain ⟨strings, rfl, hlength, -⟩ := (readStrings_eq_ok_iff (by omega)).mp hread
        obtain ⟨s, rfl⟩ := List.length_eq_one_iff.mp hlength
        rfl
    | stringArray | i18nString =>
      simp only [strings_eq]
      cases readStrings r.tag store r.count pos #[] <;> rfl

lemma mapM_value_eq (store : ByteArray) (records : List IndexRecord) :
    (records.mapM fun r => do return ⟨r.tag, ← value store r⟩ : Checked (List Entry)) =
      within (decodeRecords store records) := by
  induction records with
  | nil => rfl
  | cons r records ih =>
    rw [List.mapM_cons, ih, decodeRecords_cons, value_eq]
    cases decodeValue store r with
    | error e => rfl
    | ok v => cases decodeRecords store records <;> rfl

/-- **The reader of sections stays within the data**: with each cut checked it is still the same. -/
lemma entries_eq (data : ByteArray) (region : UInt32) :
    entries data region = within (parseEntries data region) := by
  rw [entries, prologue_eq]
  refine within_bind _ fun p _ => ?_
  by_cases hsize : data.size < p.sectionSize
  · rw [if_pos hsize, if_pos hsize]
    rfl
  rw [if_neg hsize, if_neg hsize]
  unfold Prologue.sectionSize at hsize ⊢
  have hstart : p.storeStart = 16 + 16 * p.entryCount := rfl
  have hrecords : (List.range p.entryCount).mapM (record (data.extract 16 p.storeStart)) =
      pure ((List.range p.entryCount).map fun i => IndexRecord.ofBytes data (16 + 16 * i)) := by
    refine mapM_eq_pure fun i hi => record_eq data ?_ (by omega)
    have := List.mem_range.mp hi
    omega
  rw [cut_eq_pure (by omega) (by omega), pure_bind, cut_eq_pure (by omega) (by omega), pure_bind,
    hrecords, pure_bind, mapM_value_eq]

end Checked

end Rpm

import Mathlib.Tactic.Common
import Rpm.Proofs.Except
import Rpm.Proofs.Header.Value

/-!
What a record says of a store.

A value is read exactly if it stands in the store at the offset of the record, and only values of some
forms can be read: no string in them holds a zero byte, and their types tell how they were read. So it
is also known which records have a value, whoever wrote them and however they overlap.
-/

namespace Rpm

variable {bytes store : ByteArray} {pos count : Nat}

/-! ### Pieces of a row -/

/-- Whether a piece stands in a row from a position on. -/
def StandsAt (bytes : ByteArray) (pos : Nat) (piece : ByteArray) : Prop :=
  ∃ before after, bytes = before ++ piece ++ after ∧ before.size = pos

lemma standsAt_iff {piece : ByteArray} : StandsAt bytes pos piece ↔
    pos + piece.size ≤ bytes.size ∧ bytes.extract pos (pos + piece.size) = piece := by
  constructor
  · rintro ⟨before, after, rfl, rfl⟩
    exact ⟨by simp only [ByteArray.size_append]; omega, extract_middle rfl rfl⟩
  · rintro ⟨hsize, hpiece⟩
    refine ⟨bytes.extract 0 pos, bytes.extract (pos + piece.size) bytes.size, ?_, ?_⟩
    · have hfront := extract_append_extract_of_le bytes (Nat.zero_le pos)
        (Nat.le_add_right pos piece.size)
      have hall := extract_append_extract_of_le bytes (Nat.zero_le (pos + piece.size)) hsize
      rw [← hfront, hpiece, extract_of_size_le (Nat.le_refl _)] at hall
      exact hall.symm
    · exact size_extract_of_le (Nat.le_trans (Nat.le_add_right _ _) hsize)

lemma standsAt_extract {stop : Nat} (h : pos ≤ stop) (h' : stop ≤ bytes.size) :
    StandsAt bytes pos (bytes.extract pos stop) := by
  have hsize : pos + (bytes.extract pos stop).size = stop := by
    rw [size_extract_of_le h', Nat.add_sub_of_le h]
  rw [standsAt_iff, hsize]
  exact ⟨h', rfl⟩

lemma standsAt_append_iff {a b : ByteArray} :
    StandsAt bytes pos (a ++ b) ↔ StandsAt bytes pos a ∧ StandsAt bytes (pos + a.size) b := by
  constructor
  · rintro ⟨before, after, rfl, rfl⟩
    exact ⟨⟨before, b ++ after, by simp only [ByteArray.append_assoc], rfl⟩,
      ⟨before ++ a, after, by simp only [ByteArray.append_assoc], ByteArray.size_append⟩⟩
  · simp only [standsAt_iff, ByteArray.size_append, ← Nat.add_assoc]
    rintro ⟨⟨-, ha⟩, hsize, hb⟩
    have hboth := extract_append_extract_of_le bytes (Nat.le_add_right pos a.size)
      (Nat.le_add_right (pos + a.size) b.size)
    exact ⟨hsize, by rw [← hboth, ha, hb]⟩

/-! ### Numbers -/

lemma add_mul_add_le {width size i : Nat} (hi : i < count) (h : pos + width * count ≤ size) :
    pos + width * i + width ≤ size := by
  have hnext : width * (i + 1) ≤ width * count := Nat.mul_le_mul_left width hi
  rw [Nat.mul_succ] at hnext
  omega

lemma concat_map_readNumbers {width : Nat} (h : pos + width * count ≤ store.size) :
    concat ((readNumbers store width count pos).map (bigEndian width)) =
      store.extract pos (pos + width * count) := by
  induction count with
  | zero => simp [readNumbers]
  | succ count ih =>
    rw [Nat.mul_succ] at h
    have hpiece : (store.extract (pos + width * count) (pos + width * count + width)).size =
        width := size_extract_add (by omega)
    have hfront := ih (by omega)
    simp only [readNumbers, List.range_succ, List.map_append, List.map_cons, List.map_nil,
      concat_append, concat_cons, concat_nil, ByteArray.append_empty,
      bigEndian_ofBigEndian hpiece] at hfront ⊢
    rw [hfront, extract_append_extract_of_le _ (Nat.le_add_right _ _) (Nat.le_add_right _ _),
      Nat.mul_succ, Nat.add_assoc]

lemma lt_of_mem_readNumbers {width n : Nat} (h : pos + width * count ≤ store.size)
    (hn : n ∈ readNumbers store width count pos) : n < 256 ^ width := by
  obtain ⟨i, hi, rfl⟩ := List.mem_map.mp hn
  exact ofBigEndian_lt (size_extract_add (add_mul_add_le (List.mem_range.mp hi) h))

lemma standsAt_readNumbers {α : Type} (toNat : α → Nat) (ofNat : Nat → α) {width : Nat}
    (hinv : ∀ n < 256 ^ width, toNat (ofNat n) = n) (h : pos + width * count ≤ store.size) :
    StandsAt store pos (concat (((readNumbers store width count pos).map ofNat).map
      fun x => bigEndian width (toNat x))) := by
  have hback : ((readNumbers store width count pos).map ofNat).map
      (fun x => bigEndian width (toNat x)) =
        (readNumbers store width count pos).map (bigEndian width) := by
    rw [List.map_map]
    refine List.map_congr_left fun n hn => ?_
    rw [Function.comp, hinv n (lt_of_mem_readNumbers h hn)]
  rw [hback, concat_map_readNumbers h]
  exact standsAt_extract (Nat.le_add_right _ _) h

/-! ### Strings -/

/-- Whether some strings stand in a store one after another, from a position on: each with a zero
byte behind it, and none in it. -/
structure StringsAt (store : ByteArray) (pos : Nat) (strings : List String) : Prop where
  hasNul_eq : ∀ s ∈ strings, holdsNul s = false
  standsAt : StandsAt store pos (concat (strings.map terminated))

lemma stringsAt_cons_iff {s : String} {strings : List String} : StringsAt store pos (s :: strings) ↔
    holdsNul s = false ∧ StandsAt store pos (terminated s) ∧
      StringsAt store (pos + s.utf8ByteSize + 1) strings := by
  have hnext : pos + s.utf8ByteSize + 1 = pos + (terminated s).size := by
    rw [size_terminated, Nat.add_assoc]
  rw [hnext]
  constructor
  · rintro ⟨hnul, hstands⟩
    rw [List.map_cons, concat_cons, standsAt_append_iff] at hstands
    exact ⟨hnul s (by simp), hstands.1, fun t ht => hnul t (by simp [ht]), hstands.2⟩
  · rintro ⟨hs, hstands, hnul, hrest⟩
    refine ⟨List.forall_mem_cons.mpr ⟨hs, hnul⟩, ?_⟩
    rw [List.map_cons, concat_cons, standsAt_append_iff]
    exact ⟨hstands, hrest⟩

lemma standsAt_terminated {fuel stop : Nat} {s : String} (hnul : nulFrom store fuel pos = some stop)
    (hs : String.fromUTF8? (store.extract pos stop) = some s) :
    pos + s.utf8ByteSize = stop ∧ holdsNul s = false ∧ StandsAt store pos (terminated s) := by
  obtain ⟨hle, -, hzero, hlt, hbefore⟩ := nulFrom_eq_some_iff.mp hnul
  have hbytes : s.toUTF8 = store.extract pos stop := toUTF8_of_fromUTF8? hs
  have hsize : pos + s.utf8ByteSize = stop := by
    have : s.toUTF8.size = s.utf8ByteSize := rfl
    rw [hbytes, ByteArray.size_extract] at this
    omega
  refine ⟨hsize, holdsNul_of_byteAt fun i hi => ?_, standsAt_iff.mpr ⟨?_, ?_⟩⟩
  · rw [hbytes, byteAt_extract _ (by omega)]
    exact hbefore _ (by omega) (by omega)
  · rw [size_terminated]
    omega
  · have hend : pos + (terminated s).size = stop + 1 := by
      rw [size_terminated]
      omega
    have hlong : (store.extract pos (stop + 1)).size = stop + 1 - pos := size_extract_of_le hlt
    have hlast := push_byteAt_eq (show 0 < (store.extract pos (stop + 1)).size by omega)
    rw [hlong, extract_extract_of_le _ (by omega), byteAt_extract _ (by omega),
      show pos + (stop + 1 - pos - 1) = stop by omega, hzero, Nat.add_zero] at hlast
    rw [hend, terminated, hbytes]
    exact hlast.symm

/-- **Strings are read** exactly if as many stand there. -/
lemma readStrings_eq_ok_iff {tag : UInt32} {before : Array String} {read : List String}
    (hpos : pos ≤ store.size) : readStrings tag store count pos before = .ok read ↔
      ∃ strings, read = before.toList ++ strings ∧ strings.length = count ∧
        StringsAt store pos strings := by
  constructor
  · intro h
    induction count generalizing pos before with
    | zero =>
      obtain rfl := Except.ok.inj h
      exact ⟨[], by simp, rfl, by simp, standsAt_iff.mpr ⟨hpos, by simp⟩⟩
    | succ count ih =>
      unfold readStrings at h
      cases hnul : nulFrom store (store.size - pos) pos with
      | none => simp [hnul] at h
      | some stop =>
        cases hs : String.fromUTF8? (store.extract pos stop) with
        | none => simp [hnul, hs] at h
        | some s =>
          simp only [hnul, hs] at h
          obtain ⟨-, -, -, hlt, -⟩ := nulFrom_eq_some_iff.mp hnul
          obtain ⟨rfl, hfirst⟩ := standsAt_terminated hnul hs
          obtain ⟨strings, rfl, hlength, hrest⟩ := ih hlt h
          exact ⟨s :: strings, by simp, by rw [List.length_cons, hlength],
            stringsAt_cons_iff.mpr ⟨hfirst.1, hfirst.2, hrest⟩⟩
  · rintro ⟨strings, rfl, rfl, hnul, before', after, rfl, rfl⟩
    exact readStrings_terminated tag hnul before' after before

/-! ### Values -/

namespace IndexRecord

/-- Whether a record says of a value that it is in a store. A null value and a single string are
there only once, whatever the record says. -/
structure Says (store : ByteArray) (r : IndexRecord) (v : Value) : Prop where
  unambiguous : v.Unambiguous
  hasNul_eq : v.hasNul = false
  typeId_eq : v.typeId = r.typeId
  count_eq : v.count = r.count ∨ v.type? = some .null ∨ v.type? = some .string
  offset_nonneg : 0 ≤ r.offset
  standsAt : StandsAt store r.offset.toNat v.bytes

/-- Whether a record says of a store something that can be read: its value lies in the store, and
where it is of strings there are as many. -/
def WellFormed (store : ByteArray) (r : IndexRecord) : Prop :=
  0 ≤ r.offset ∧ r.offset ≤ store.size ∧
    match ValueType.ofId? r.typeId with
    | some .null => True
    | some .char | some .int8 | some .bin | none => r.offset + r.count ≤ store.size
    | some .int16 => r.offset + 2 * r.count ≤ store.size
    | some .int32 => r.offset + 4 * r.count ≤ store.size
    | some .int64 => r.offset + 8 * r.count ≤ store.size
    | some .string => ∃ s, StringsAt store r.offset.toNat [s]
    | some .stringArray | some .i18nString =>
      ∃ strings : List String, strings.length = r.count ∧ StringsAt store r.offset.toNat strings

end IndexRecord

variable {r : IndexRecord} {v : Value}

/-- **Only what a record says is read.** -/
lemma says_of_decodeValue (h : decodeValue store r = .ok v) : r.Says store v := by
  unfold decodeValue at h
  split_ifs at h with hoffset hsize
  simp only [Bool.or_eq_true, decide_eq_true_eq, not_or, Int.not_lt] at hoffset
  obtain ⟨hnonneg, hle⟩ := hoffset
  have hpos : r.offset.toNat ≤ store.size := by omega
  unfold elementSize at hsize
  cases hid : ValueType.ofId? r.typeId with
  | none =>
    simp only [hid] at h hsize
    obtain rfl := Except.ok.inj h
    exact ⟨ValueType.ofId?_eq_none_iff.mp hid, rfl, rfl, .inl (by simp [Value.count]; omega), hnonneg,
      standsAt_extract (by omega) (by omega)⟩
  | some t =>
    have htype := ValueType.id_of_ofId? hid
    simp only [hid, ValueType.elementSize?] at h hsize
    cases t with
    | null =>
      obtain rfl := Except.ok.inj h
      exact ⟨trivial, rfl, htype, .inr (.inl rfl), hnonneg,
        standsAt_iff.mpr ⟨hpos, by simp [Value.bytes]⟩⟩
    | char | int8 | bin =>
      obtain rfl := Except.ok.inj h
      exact ⟨trivial, rfl, htype, .inl (by simp [Value.count] at hsize ⊢; omega), hnonneg,
        standsAt_extract (by omega) (by simp at hsize; omega)⟩
    | int16 =>
      obtain rfl := Except.ok.inj h
      exact ⟨trivial, rfl, htype, .inl (by simp [Value.count, readNumbers]), hnonneg,
        standsAt_readNumbers UInt16.toNat UInt16.ofNat (fun n hn => by simpa using hn)
          (by simp at hsize; omega)⟩
    | int32 =>
      obtain rfl := Except.ok.inj h
      exact ⟨trivial, rfl, htype, .inl (by simp [Value.count, readNumbers]), hnonneg,
        standsAt_readNumbers UInt32.toNat UInt32.ofNat (fun n hn => by simpa using hn)
          (by simp at hsize; omega)⟩
    | int64 =>
      obtain rfl := Except.ok.inj h
      exact ⟨trivial, rfl, htype, .inl (by simp [Value.count, readNumbers]), hnonneg,
        standsAt_readNumbers UInt64.toNat UInt64.ofNat (fun n hn => by simpa using hn)
          (by simp at hsize; omega)⟩
    | string =>
      obtain ⟨read, hread, rfl⟩ := map_eq_ok_iff.mp h
      obtain ⟨strings, rfl, hlength, hnul, hstands⟩ := (readStrings_eq_ok_iff hpos).mp hread
      obtain ⟨s, rfl⟩ := List.length_eq_one_iff.mp hlength
      exact ⟨trivial, hnul s (by simp), htype, .inr (.inr rfl), hnonneg,
        by simpa [Value.bytes] using hstands⟩
    | stringArray | i18nString =>
      obtain ⟨read, hread, rfl⟩ := map_eq_ok_iff.mp h
      obtain ⟨strings, rfl, hlength, hnul, hstands⟩ := (readStrings_eq_ok_iff hpos).mp hread
      exact ⟨trivial, by simpa [Value.hasNul] using hnul, htype, .inl hlength, hnonneg, hstands⟩

lemma decodeValue_count {t : ValueType} (ht : t = .null ∨ t = .string) (tag : UInt32) (offset : Int)
    (count count' : Nat) : decodeValue store ⟨tag, t.id, offset, count⟩ =
      decodeValue store ⟨tag, t.id, offset, count'⟩ := by
  rcases ht with rfl | rfl <;> simp [decodeValue, elementSize, ValueType.elementSize?]

/-- **All that a record says is read.** -/
lemma decodeValue_of_says (h : r.Says store v) : decodeValue store r = .ok v := by
  obtain ⟨tag, typeId, offset, count⟩ := r
  obtain ⟨hv, hnul, htype, hcount, hnonneg, before, after, rfl, hbefore⟩ := h
  simp only at htype hcount hnonneg hbefore
  obtain rfl : offset = before.size := by omega
  have hread := decodeValue_bytes tag hv hnul before after
  rcases hcount with hcount | hcount
  · rwa [htype, hcount] at hread
  · have hid : ∃ t : ValueType, (t = .null ∨ t = .string) ∧ v.typeId = t.id := by
      cases v <;> simp [Value.type?] at hcount
      · exact ⟨.null, .inl rfl, rfl⟩
      · exact ⟨.string, .inr rfl, rfl⟩
    obtain ⟨t, ht, hid⟩ := hid
    rw [← htype, hid, decodeValue_count ht tag before.size count v.count, ← hid]
    exact hread

lemma decodeValue_eq_ok_iff : decodeValue store r = .ok v ↔ r.Says store v :=
  ⟨says_of_decodeValue, decodeValue_of_says⟩

lemma exists_ite_eq_ok_iff {p : Prop} [Decidable p] {e : Error} {x : Except Error Value} :
    (∃ v, (if p then .error e else x) = .ok v) ↔ ¬p ∧ ∃ v, x = .ok v := by
  split_ifs with h <;> simp [h]

lemma exists_map_readStrings_iff {tag : UInt32} (f : List String → Value) (hpos : pos ≤ store.size) :
    (∃ v, (readStrings tag store count pos #[]).map f = .ok v) ↔
      ∃ strings : List String, strings.length = count ∧ StringsAt store pos strings := by
  simp only [map_eq_ok_iff, readStrings_eq_ok_iff hpos]
  constructor
  · rintro ⟨-, -, ⟨strings, -, hstrings⟩, -⟩
    exact ⟨strings, hstrings⟩
  · rintro ⟨strings, hstrings⟩
    exact ⟨_, _, ⟨strings, rfl, hstrings⟩, rfl⟩

/-- **The records that are read** are the well-formed ones. -/
lemma exists_decodeValue_iff : (∃ v, decodeValue store r = .ok v) ↔ r.WellFormed store := by
  have hoffset : ¬(r.offset < 0 ∨ r.offset > store.size) ↔ 0 ≤ r.offset ∧ r.offset ≤ store.size := by
    omega
  unfold decodeValue IndexRecord.WellFormed elementSize
  rw [exists_ite_eq_ok_iff, exists_ite_eq_ok_iff, Bool.or_eq_true, decide_eq_true_eq,
    decide_eq_true_eq, hoffset, and_assoc]
  refine and_congr_right fun hnonneg => and_congr_right fun hle => ?_
  have hpos : r.offset.toNat ≤ store.size := by omega
  cases ValueType.ofId? r.typeId with
  | none =>
    simp
    omega
  | some t =>
    cases t with
    | null => simpa [ValueType.elementSize?] using hle
    | char | int8 | bin | int16 | int32 | int64 =>
      simp [ValueType.elementSize?]
      omega
    | string =>
      simp only [exists_map_readStrings_iff _ hpos, List.length_eq_one_iff]
      simpa [ValueType.elementSize?] using fun _ _ => hle
    | stringArray | i18nString =>
      simp only [exists_map_readStrings_iff _ hpos]
      simpa [ValueType.elementSize?] using fun _ _ _ => hle

end Rpm

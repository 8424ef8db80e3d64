import Mathlib.Tactic.Common
import Rpm.Header.Section
import Rpm.Proofs.Bytes

/-!
Values in a data store.

A value is read back from any store that holds its bytes at the offset of its record, whatever
stands in front of them and behind them.
-/

namespace Rpm

/-- Whether the number of a value's type tells how the value is to be read: one of unknown type
does not carry the number of a known type. -/
def Value.Unambiguous : Value → Prop
  | .unknown id _ => 9 < id
  | _ => True

lemma ValueType.ofId?_eq_none_iff {id : UInt32} : ofId? id = none ↔ 9 < id := by
  unfold ofId?
  constructor
  · intro h
    by_contra hle
    have hcases : id = 0 ∨ id = 1 ∨ id = 2 ∨ id = 3 ∨ id = 4 ∨ id = 5 ∨ id = 6 ∨ id = 7 ∨ id = 8 ∨
        id = 9 := by
      simp only [← UInt32.toNat_inj, UInt32.lt_iff_toNat_lt] at hle ⊢
      simp at hle ⊢
      omega
    rcases hcases with rfl | rfl | rfl | rfl | rfl | rfl | rfl | rfl | rfl | rfl <;> simp at h
  · intro h
    have hne : ∀ k : UInt32, k ≤ 9 → id ≠ k := by
      rintro k hk rfl
      exact absurd hk (UInt32.not_le.mpr h)
    simp [hne]

/-! ### Numbers -/

lemma map_readNumbers {α : Type} (toNat : α → Nat) (ofNat : Nat → α) {width : Nat}
    (hlt : ∀ x, toNat x < 256 ^ width) (hinv : ∀ x, ofNat (toNat x) = x) (xs : List α)
    (before after : ByteArray) :
    (readNumbers (before ++ concat (xs.map fun x => bigEndian width (toNat x)) ++ after) width
      xs.length before.size).map ofNat = xs := by
  rw [readNumbers, List.map_map]
  exact map_range_extract (fun x => bigEndian width (toNat x)) (ofNat ∘ ofBigEndian)
    (fun x => size_bigEndian width _) xs
    (fun x _ => by rw [Function.comp, ofBigEndian_bigEndian_of_lt (hlt x), hinv]) before after

/-! ### Strings -/

lemma readStrings_terminated (tag : UInt32) {strings : List String}
    (h : ∀ s ∈ strings, holdsNul s = false) (before after : ByteArray) (read : Array String) :
    readStrings tag (before ++ concat (strings.map terminated) ++ after) strings.length
      before.size read = .ok (read.toList ++ strings) := by
  induction strings generalizing before read with
  | nil => simp [readStrings]
  | cons s strings ih =>
    have hs : holdsNul s = false := h s (by simp)
    have hcut : before ++ concat ((s :: strings).map terminated) ++ after =
        before ++ terminated s ++ (concat (strings.map terminated) ++ after) := by
      simp only [List.map_cons, concat_cons, ByteArray.append_assoc]
    have hnext := ih (fun t ht => h t (by simp [ht])) (before ++ terminated s) (read.push s)
    rw [ByteArray.append_assoc (b := concat _), ByteArray.size_append, size_terminated,
      ← Nat.add_assoc] at hnext
    rw [hcut, List.length_cons, readStrings,
      nulFrom_terminated hs before _ (by simp only [ByteArray.size_append, size_terminated]; omega)]
    simp only [extract_terminated, fromUTF8?_toUTF8, hnext]
    simp

/-! ### Values -/

lemma count_mul_elementSize_le {v : Value} (hv : v.Unambiguous) :
    v.count * elementSize v.typeId ≤ v.bytes.size := by
  have hnumbers : ∀ {α : Type} (toNat : α → Nat) (width : Nat) (xs : List α),
      (concat (xs.map fun x => bigEndian width (toNat x))).size = width * xs.length :=
    fun toNat width xs => size_concat_map _ (fun x => size_bigEndian width _) xs
  cases v with
  | unknown id bytes =>
    rw [Value.typeId, elementSize, ValueType.ofId?_eq_none_iff.mpr hv]
    simp [Value.count, Value.bytes]
  | int16 | int32 | int64 =>
    simp [Value.typeId, Value.count, Value.bytes, elementSize, ValueType.elementSize?, hnumbers,
      Nat.mul_comm]
  | _ => simp [Value.typeId, Value.count, Value.bytes, elementSize, ValueType.elementSize?]

/-- **A value is read back** from the place of its bytes in any store. -/
lemma decodeValue_bytes (tag : UInt32) {v : Value} (hv : v.Unambiguous) (hn : v.hasNul = false)
    (before after : ByteArray) :
    decodeValue (before ++ v.bytes ++ after) ⟨tag, v.typeId, before.size, v.count⟩ = .ok v := by
  have hsize := count_mul_elementSize_le hv
  have hoffset : ¬ ((before.size : Int) < 0 ∨
      (before.size : Int) > ((before ++ v.bytes ++ after).size : Nat)) := by
    simp only [ByteArray.size_append]
    omega
  have hfits : ¬ (before.size + v.count * elementSize v.typeId >
      (before ++ v.bytes ++ after).size) := by
    simp only [ByteArray.size_append]
    omega
  unfold decodeValue
  simp only [Bool.or_eq_true, decide_eq_true_eq, Int.toNat_natCast]
  rw [if_neg hoffset, if_neg hfits]
  cases v with
  | null => rfl
  | char bytes | int8 bytes | bin bytes =>
    simp only [Value.typeId, Value.count, Value.bytes, ValueType.ofId?_id]
    rw [extract_middle rfl rfl]
  | int16 values =>
    simp only [Value.typeId, Value.count, Value.bytes, ValueType.ofId?_id]
    rw [map_readNumbers UInt16.toNat UInt16.ofNat (fun x => x.toNat_lt) (fun x => by simp)]
  | int32 values =>
    simp only [Value.typeId, Value.count, Value.bytes, ValueType.ofId?_id]
    rw [map_readNumbers UInt32.toNat UInt32.ofNat (fun x => x.toNat_lt) (fun x => by simp)]
  | int64 values =>
    simp only [Value.typeId, Value.count, Value.bytes, ValueType.ofId?_id]
    rw [map_readNumbers UInt64.toNat UInt64.ofNat (fun x => x.toNat_lt) (fun x => by simp)]
  | string s =>
    have hs : holdsNul s = false := hn
    have hread := readStrings_terminated tag (show ∀ t ∈ [s], holdsNul t = false by simp [hs])
      before after #[]
    simp only [List.map_cons, List.map_nil, concat_cons, concat_nil, ByteArray.append_empty,
      List.length_singleton] at hread
    simp only [Value.typeId, Value.bytes, ValueType.ofId?_id, hread]
    rfl
  | stringArray strings | i18nString strings =>
    have hs : ∀ s ∈ strings, holdsNul s = false := by simpa [Value.hasNul] using hn
    simp only [Value.typeId, Value.count, Value.bytes, ValueType.ofId?_id,
      readStrings_terminated tag hs]
    rfl
  | unknown id bytes =>
    simp only [Value.typeId, Value.count, Value.bytes, ValueType.ofId?_eq_none_iff.mpr hv]
    rw [extract_middle rfl rfl]

end Rpm

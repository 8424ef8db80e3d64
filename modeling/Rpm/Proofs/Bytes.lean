import Mathlib.Tactic.Common
import Rpm.Bytes.BigEndian
import Rpm.Bytes.Stream
import Rpm.Bytes.Terminated

/-!
Rows of bytes cut out of longer ones.

A reader knows the positions of what it reads, and a writer puts rows one after another. The lemmas
here say that a piece is found again at the position at which the rows in front of it end.
-/

namespace Rpm

/-! ### Pieces of rows -/

lemma extract_middle {a b c : ByteArray} {i j : Nat} (hi : i = a.size) (hj : j = a.size + b.size) :
    (a ++ b ++ c).extract i j = b := by
  have h : (a ++ (b ++ c)).extract (a.size + 0) (a.size + b.size) = (b ++ c).extract 0 b.size :=
    ByteArray.extract_append_size_add
  rw [ByteArray.append_assoc, hi, hj]
  rw [Nat.add_zero] at h
  rw [h, ByteArray.extract_append_eq_left rfl]

lemma extract_size_append {a b : ByteArray} {j : Nat} (hj : j = a.size + b.size) :
    (a ++ b).extract a.size j = b :=
  ByteArray.extract_append_eq_right rfl hj

lemma extract_of_size_le {a : ByteArray} {j : Nat} (h : a.size ≤ j) : a.extract 0 j = a := by
  refine ByteArray.ext ?_
  rw [ByteArray.data_extract]
  exact Array.extract_eq_self_of_le h

lemma size_extract_of_le {a : ByteArray} {i j : Nat} (h : j ≤ a.size) :
    (a.extract i j).size = j - i := by
  rw [ByteArray.size_extract, Nat.min_eq_left h]

lemma size_extract_add {a : ByteArray} {i n : Nat} (h : i + n ≤ a.size) :
    (a.extract i (i + n)).size = n := by
  rw [size_extract_of_le h, Nat.add_sub_cancel_left]

lemma extract_append_of_le {a : ByteArray} (b : ByteArray) {j : Nat} (h : j ≤ a.size) :
    (a ++ b).extract 0 j = a.extract 0 j := by
  rw [ByteArray.extract_append]
  simp [Nat.sub_eq_zero_of_le h]

lemma extract_append_add (a b : ByteArray) (j : Nat) :
    (a ++ b).extract 0 (a.size + j) = a ++ b.extract 0 j := by
  rw [ByteArray.extract_append, extract_of_size_le (Nat.le_add_right _ _)]
  simp

lemma extract_extract_of_le (a : ByteArray) {i j k l : Nat} (h : i + l ≤ j) :
    (a.extract i j).extract k l = a.extract (i + k) (i + l) := by
  rw [ByteArray.extract_extract, Nat.min_eq_left h]

lemma extract_congr {a b : ByteArray} {n j : Nat} (h : a.extract 0 n = b.extract 0 n) (hj : j ≤ n)
    (i : Nat) : a.extract i j = b.extract i j := by
  have hpiece : ∀ c : ByteArray, (c.extract 0 n).extract i j = c.extract i j := fun c => by
    rw [extract_extract_of_le c (by omega), Nat.zero_add, Nat.zero_add]
  rw [← hpiece a, h, hpiece b]

lemma extract_append_extract_of_le (a : ByteArray) {i j k : Nat} (h : i ≤ j) (h' : j ≤ k) :
    a.extract i j ++ a.extract j k = a.extract i k := by
  rw [ByteArray.extract_append_extract, Nat.min_eq_left h, Nat.max_eq_right h']

lemma extract_piece (pieces : List ByteArray) (k : Nat) (hk : k < pieces.length) {i j : Nat}
    (hi : i = (concat (pieces.take k)).size) (hj : j = i + pieces[k].size) :
    (concat pieces).extract i j = pieces[k] := by
  have hsplit : pieces = pieces.take k ++ pieces[k] :: pieces.drop (k + 1) := by simp
  have hcut : concat pieces = concat (pieces.take k) ++ pieces[k] ++
      concat (pieces.drop (k + 1)) := by
    conv_lhs => rw [hsplit]
    rw [concat_append, concat_cons, ByteArray.append_assoc]
  rw [hcut]
  exact extract_middle hi (hi ▸ hj)

lemma size_concat_map {α : Type} (f : α → ByteArray) {width : Nat}
    (hf : ∀ x, (f x).size = width) (xs : List α) :
    (concat (xs.map f)).size = width * xs.length := by
  induction xs with
  | nil => rfl
  | cons x xs ih =>
    rw [List.map_cons, concat_cons, ByteArray.size_append, hf, ih, List.length_cons, Nat.mul_succ]
    omega

lemma extract_concat {α : Type} (f : α → ByteArray) {width : Nat} (hf : ∀ x, (f x).size = width)
    (xs : List α) (before after : ByteArray) {i : Nat} (hi : i < xs.length) :
    (before ++ concat (xs.map f) ++ after).extract (before.size + width * i)
      (before.size + width * i + width) = f xs[i] := by
  have hfront : (concat ((xs.take i).map f)).size = width * i := by
    rw [size_concat_map f hf, List.length_take, Nat.min_eq_left (Nat.le_of_lt hi)]
  have hpiece := extract_piece (before :: xs.map f ++ [after]) (i + 1) (by simp; omega)
    (i := before.size + width * i) (j := before.size + width * i + width)
    (by simp [← List.map_take, List.take_append, hfront, Nat.le_of_lt hi, Nat.sub_eq_zero_of_le])
    (by simp [hi, hf])
  simpa [List.getElem_append, hi, ByteArray.append_assoc] using hpiece

lemma map_range_extract {α : Type} (f : α → ByteArray) (g : ByteArray → α) {width : Nat}
    (hf : ∀ x, (f x).size = width) (xs : List α) (hg : ∀ x ∈ xs, g (f x) = x)
    (before after : ByteArray) :
    ((List.range xs.length).map fun i =>
      g ((before ++ concat (xs.map f) ++ after).extract (before.size + width * i)
        (before.size + width * i + width))) = xs := by
  refine List.ext_getElem (by simp) fun i h₁ h₂ => ?_
  rw [List.getElem_map, List.getElem_range, extract_concat f hf xs before after h₂]
  exact hg _ (List.getElem_mem h₂)

lemma dvd_add_paddingFor {alignment : Nat} (h : 0 < alignment) (size : Nat) :
    alignment ∣ size + paddingFor alignment size := by
  have hlt := Nat.mod_lt size h
  have hsum : size + (alignment - size % alignment) = alignment * (size / alignment + 1) := by
    have hdiv := Nat.div_add_mod size alignment
    rw [Nat.mul_add, Nat.mul_one]
    omega
  rw [paddingFor, Nat.dvd_iff_mod_eq_zero, Nat.add_mod_mod, hsum, Nat.mul_mod_right]

lemma isEmpty_iff {bytes : ByteArray} : bytes.isEmpty = true ↔ bytes = ByteArray.empty := by
  rw [ByteArray.isEmpty, beq_iff_eq, ByteArray.size_eq_zero_iff]

/-! ### Single bytes -/

lemma byteAt_of_size_le {a : ByteArray} {i : Nat} (h : a.size ≤ i) : byteAt a i = 0 := by
  rw [byteAt, dif_neg (Nat.not_lt.mpr h)]

lemma byteAt_toByteArray (bytes : List UInt8) (i : Nat) :
    byteAt bytes.toByteArray i = bytes.getD i 0 := by
  unfold byteAt
  split_ifs with h
  · rw [List.getElem_toByteArray, List.getD_eq_getElem?_getD, List.getElem?_eq_getElem]
    rfl
  · rw [List.size_toByteArray, Nat.not_lt] at h
    rw [List.getD_eq_getElem?_getD, List.getElem?_eq_none h]
    rfl

lemma byteAt_replicateByte_zero (count i : Nat) : byteAt (replicateByte count 0) i = 0 := by
  unfold byteAt
  split
  · exact Array.getElem_replicate _
  · rfl

lemma byteAt_append_left {a b : ByteArray} {i : Nat} (h : i < a.size) :
    byteAt (a ++ b) i = byteAt a i := by
  rw [byteAt, byteAt, dif_pos h, dif_pos (by rw [ByteArray.size_append]; omega),
    ByteArray.getElem_append_left h]

lemma byteAt_append_right (a b : ByteArray) (i : Nat) : byteAt (a ++ b) (a.size + i) = byteAt b i := by
  unfold byteAt
  by_cases h : i < b.size
  · rw [dif_pos h, dif_pos (by rw [ByteArray.size_append]; omega),
      ByteArray.getElem_append_right (Nat.le_add_right _ _)]
    simp
  · rw [dif_neg h, dif_neg (by rw [ByteArray.size_append]; omega)]

lemma byteAt_append_zeros (a : ByteArray) (count i : Nat) :
    byteAt (a ++ replicateByte count 0) i = byteAt a i := by
  rcases Nat.lt_or_ge i a.size with hi | hi
  · exact byteAt_append_left hi
  · obtain ⟨k, rfl⟩ := Nat.exists_eq_add_of_le hi
    rw [byteAt_append_right, byteAt_replicateByte_zero, byteAt_of_size_le hi]

lemma byteAt_push_left {a : ByteArray} {b : UInt8} {i : Nat} (h : i < a.size) :
    byteAt (a.push b) i = byteAt a i := by
  rw [← ByteArray.append_toByteArray_singleton, byteAt_append_left h]

lemma byteAt_push_size (a : ByteArray) (b : UInt8) : byteAt (a.push b) a.size = b := by
  rw [← ByteArray.append_toByteArray_singleton]
  exact byteAt_append_right a _ 0

lemma byteAt_extract (a : ByteArray) {i j k : Nat} (h : i + k < j) :
    byteAt (a.extract i j) k = byteAt a (i + k) := by
  unfold byteAt
  by_cases hk : i + k < a.size
  · rw [dif_pos hk, dif_pos (by rw [ByteArray.size_extract]; omega), ByteArray.getElem_extract]
  · rw [dif_neg hk, dif_neg (by rw [ByteArray.size_extract]; omega)]

lemma push_byteAt_eq {bytes : ByteArray} (h : 0 < bytes.size) :
    (bytes.extract 0 (bytes.size - 1)).push (byteAt bytes (bytes.size - 1)) = bytes := by
  have hlast : bytes.size - 1 < bytes.size := Nat.sub_lt h Nat.one_pos
  refine ByteArray.ext ?_
  rw [ByteArray.data_push, ByteArray.data_extract, byteAt, dif_pos hlast]
  exact (Array.push_extract_getElem hlast).trans (by simp [Nat.sub_add_cancel h])

@[simp] lemma byteAt_bigEndian_one (n : Nat) : byteAt (bigEndian 1 n) 0 = UInt8.ofNat n :=
  byteAt_push_size ByteArray.empty _

/-! ### Numbers -/

lemma exists_push_eq {bytes : ByteArray} {width : Nat} (h : bytes.size = width + 1) :
    ∃ (front : ByteArray) (b : UInt8), bytes = front.push b ∧ front.size = width :=
  ⟨_, _, (push_byteAt_eq (by omega)).symm, by rw [size_extract_of_le (by omega)]; omega⟩

lemma ofBigEndian_lt {bytes : ByteArray} {width : Nat} (h : bytes.size = width) :
    ofBigEndian bytes < 256 ^ width := by
  induction width generalizing bytes with
  | zero =>
    rw [ByteArray.size_eq_zero_iff.mp h]
    decide
  | succ width ih =>
    obtain ⟨front, b, rfl, hfront⟩ := exists_push_eq h
    have hlt := ih hfront
    have hb := b.toNat_lt
    rw [ofBigEndian_push, Nat.pow_succ]
    omega

lemma bigEndian_ofBigEndian {bytes : ByteArray} {width : Nat} (h : bytes.size = width) :
    bigEndian width (ofBigEndian bytes) = bytes := by
  induction width generalizing bytes with
  | zero => exact (ByteArray.size_eq_zero_iff.mp h).symm
  | succ width ih =>
    obtain ⟨front, b, rfl, hfront⟩ := exists_push_eq h
    have hdiv : (256 * ofBigEndian front + b.toNat) / 256 = ofBigEndian front := by
      have := b.toNat_lt
      omega
    have hmod : UInt8.ofNat (256 * ofBigEndian front + b.toNat) = b := by
      rw [← UInt8.toNat_inj, UInt8.toNat_ofNat']
      have := b.toNat_lt
      omega
    rw [ofBigEndian_push, bigEndian, hdiv, hmod, ih hfront]

/-! ### Strings -/

lemma fromUTF8?_toUTF8 (s : String) : String.fromUTF8? s.toUTF8 = some s := by
  unfold String.fromUTF8?
  rw [String.toUTF8_eq_toByteArray, dif_pos s.isValidUTF8]
  rfl

lemma toUTF8_of_fromUTF8? {bytes : ByteArray} {s : String} (h : String.fromUTF8? bytes = some s) :
    s.toUTF8 = bytes := by
  unfold String.fromUTF8? at h
  split at h
  · obtain rfl := Option.some.inj h
    rfl
  · contradiction

lemma nulFrom_eq_some_iff {bytes : ByteArray} {fuel pos stop : Nat} :
    nulFrom bytes fuel pos = some stop ↔
      pos ≤ stop ∧ stop < pos + fuel ∧ byteAt bytes stop = 0 ∧ stop < bytes.size ∧
        ∀ i, pos ≤ i → i < stop → byteAt bytes i ≠ 0 := by
  induction fuel generalizing pos with
  | zero =>
    constructor
    · intro h
      simp [nulFrom] at h
    · rintro ⟨h₁, h₂, -⟩
      omega
  | succ fuel ih =>
    unfold nulFrom
    by_cases hp : pos < bytes.size
    · have hat : byteAt bytes pos = bytes[pos] := by rw [byteAt, dif_pos hp]
      rw [dif_pos hp, ← hat]
      by_cases hz : byteAt bytes pos = 0
      · rw [if_pos hz]
        constructor
        · intro h
          obtain rfl : pos = stop := by simpa using h
          exact ⟨Nat.le_refl _, by omega, hz, hp, fun i h₁ h₂ => by omega⟩
        · rintro ⟨h₁, -, -, -, h₅⟩
          have : ¬ pos < stop := fun h => h₅ pos (Nat.le_refl _) h hz
          rw [show pos = stop by omega]
      · rw [if_neg hz, ih]
        constructor
        · rintro ⟨h₁, h₂, h₃, h₄, h₅⟩
          refine ⟨by omega, by omega, h₃, h₄, fun i hi hs => ?_⟩
          rcases Nat.eq_or_lt_of_le hi with rfl | hlt
          · exact hz
          · exact h₅ i hlt hs
        · rintro ⟨h₁, h₂, h₃, h₄, h₅⟩
          have hne : pos ≠ stop := by
            rintro rfl
            exact hz h₃
          exact ⟨by omega, by omega, h₃, h₄, fun i hi hs => h₅ i (by omega) hs⟩
    · rw [dif_neg hp]
      constructor
      · intro h
        simp at h
      · rintro ⟨h₁, -, -, h₄, -⟩
        omega

lemma byteAt_ne_zero {s : String} (h : holdsNul s = false) {i : Nat} (hi : i < s.utf8ByteSize) :
    byteAt s.toUTF8 i ≠ 0 := by
  intro hz
  have hi' : i < s.toUTF8.size := hi
  rw [byteAt, dif_pos hi'] at hz
  have hmem : (0 : UInt8) ∈ s.toUTF8.data := hz ▸ Array.getElem_mem hi'
  rw [holdsNul, Array.contains_iff_mem.mpr hmem] at h
  exact absurd h (by simp)

lemma holdsNul_of_byteAt {s : String} (h : ∀ i < s.utf8ByteSize, byteAt s.toUTF8 i ≠ 0) :
    holdsNul s = false := by
  rw [holdsNul, Bool.eq_false_iff]
  intro hcontains
  obtain ⟨i, hi, hzero⟩ := Array.mem_iff_getElem.mp (Array.contains_iff_mem.mp hcontains)
  refine h i hi ?_
  rw [byteAt, dif_pos (show i < s.toUTF8.size from hi)]
  exact hzero

lemma nulFrom_terminated {s : String} (h : holdsNul s = false) (before after : ByteArray)
    {fuel : Nat} (hfuel : s.utf8ByteSize < fuel) :
    nulFrom (before ++ terminated s ++ after) fuel before.size =
      some (before.size + s.utf8ByteSize) := by
  have hat : ∀ i ≤ s.utf8ByteSize, byteAt (before ++ terminated s ++ after) (before.size + i) =
      byteAt (terminated s) i := by
    intro i hi
    rw [ByteArray.append_assoc, byteAt_append_right,
      byteAt_append_left (by rw [size_terminated]; omega)]
  rw [nulFrom_eq_some_iff]
  refine ⟨by omega, by omega, ?_, ?_, fun i hi hs => ?_⟩
  · rw [hat _ (Nat.le_refl _)]
    exact byteAt_push_size s.toUTF8 0
  · simp only [ByteArray.size_append, size_terminated]
    omega
  · obtain ⟨k, rfl⟩ := Nat.exists_eq_add_of_le hi
    have hk : k < s.toUTF8.size := show k < s.utf8ByteSize by omega
    rw [hat k (by omega), terminated, byteAt_push_left hk]
    exact byteAt_ne_zero h hk

lemma extract_terminated (s : String) (before after : ByteArray) :
    (before ++ terminated s ++ after).extract before.size (before.size + s.utf8ByteSize) =
      s.toUTF8 := by
  have h : before ++ terminated s ++ after = before ++ s.toUTF8 ++ ([0].toByteArray ++ after) := by
    rw [terminated, ← ByteArray.append_toByteArray_singleton]
    simp only [ByteArray.append_assoc]
  rw [h]
  exact extract_middle rfl rfl

/-! ### Streams -/

lemma Source.readExact_append {a : ByteArray} (rest : ByteArray) (failure : Option StreamError)
    {n : Nat} (h : n = a.size) :
    Source.readExact ⟨a ++ rest, failure⟩ n = .ok (a, ⟨rest, failure⟩) := by
  subst h
  rw [Source.readExact, if_pos (by simp), Source.skip, ByteArray.extract_append_eq_left rfl]
  simp only
  rw [extract_size_append (ByteArray.size_append)]

lemma Source.readExact_eq_ok {s s' : Source} {n : Nat} {bytes : ByteArray}
    (h : s.readExact n = .ok (bytes, s')) :
    bytes.size = n ∧ s.rest = bytes ++ s'.rest ∧ s'.failure = s.failure := by
  unfold Source.readExact at h
  split at h
  · rename_i hn
    obtain ⟨rfl, rfl⟩ := Prod.mk.inj (Except.ok.inj h)
    refine ⟨?_, ?_, rfl⟩
    · exact size_extract_of_le hn
    · rw [Source.skip, ByteArray.extract_append_extract]
      simp [hn]
  · contradiction

lemma Sink.room_le (s : Sink) (n : Nat) : s.room n ≤ n := by
  unfold Sink.room
  split <;> omega

/-- Behind bytes that fitted, there is room for the rest of what there was room for. -/
lemma Sink.room_add {s : Sink} {bytes : ByteArray} (h : s.room bytes.size = bytes.size) (n : Nat) :
    s.room (bytes.size + n) =
      bytes.size + Sink.room { s with accepted := s.accepted ++ bytes } n := by
  obtain ⟨accepted, limit, flushFails⟩ := s
  cases limit with
  | none => rfl
  | some limit =>
    simp only [Sink.room, ByteArray.size_append] at h ⊢
    omega

lemma Sink.room_add_of_ne {s : Sink} {m : Nat} (h : s.room m ≠ m) (n : Nat) :
    s.room (m + n) = s.room m := by
  obtain ⟨accepted, limit, flushFails⟩ := s
  cases limit with
  | none => exact absurd rfl h
  | some limit =>
    simp only [Sink.room] at h ⊢
    omega

/-- A sink takes of some bytes what it has room for, and fails if that is not all. -/
lemma Sink.write_eq (s : Sink) (bytes : ByteArray) :
    ByteSink.write s bytes =
      ({ s with accepted := s.accepted ++ bytes.extract 0 (s.room bytes.size) },
        if s.room bytes.size = bytes.size then .ok () else .error .other) := by
  simp only [ByteSink.write, Sink.write]
  split_ifs with h
  · rw [extract_of_size_le (Nat.le_of_eq h.symm)]
  · rfl

lemma Sink.write_eq_ok {s s' : Sink} {bytes : ByteArray}
    (h : ByteSink.write s bytes = (s', .ok ())) :
    s' = { s with accepted := s.accepted ++ bytes } := by
  rw [Sink.write_eq] at h
  obtain ⟨rfl, hroom⟩ := Prod.mk.inj h
  split_ifs at hroom with hall
  rw [extract_of_size_le (Nat.le_of_eq hall.symm)]

lemma Sink.write_of_limit {s : Sink} (h : s.limit = none) (bytes : ByteArray) :
    ByteSink.write s bytes = ({ s with accepted := s.accepted ++ bytes }, .ok ()) := by
  simp [ByteSink.write, Sink.write, Sink.room, h]

end Rpm

import Mathlib.Data.List.TakeWhile
import Rpm.Proofs.Lead
import Rpm.Proofs.Text.Lossy
import Rpm.Proofs.Text.Utf8

/-!
What comes back of the name of a lead.

The field has room for 65 bytes of a name and ends at its first zero byte, so a name is cut there.
What a reader gets is written in the same way again, whatever the first cut was within.
-/

namespace Rpm.Lead

open Text

/-- The characters in front of the first zero character. -/
def beforeNul (cs : List Char) : List Char := cs.takeWhile (· ≠ '\x00')

/-- The lead with as much of its name as the field holds. -/
def shortened (l : Lead) : Lead :=
  { l with name := String.ofList (cutAfter 65 (beforeNul l.name.toList)) }

/-! ### Names without zeros -/

lemma nul_notMem_beforeNul (cs : List Char) : '\x00' ∉ beforeNul cs := fun h => by
  simpa using List.mem_takeWhile_imp h

lemma beforeNul_of_notMem {cs : List Char} (h : '\x00' ∉ cs) : beforeNul cs = cs := by
  rw [beforeNul, List.takeWhile_eq_self_iff]
  intro c hc
  simpa using ne_of_mem_of_not_mem hc h

lemma exists_utf8Encode_eq_append (cs : List Char) :
    ∃ back, cs.utf8Encode = (beforeNul cs).utf8Encode ++ back := by
  refine ⟨(cs.dropWhile (· ≠ '\x00')).utf8Encode, ?_⟩
  rw [beforeNul, ← List.utf8Encode_append, List.takeWhile_append_dropWhile]

lemma byteAt_utf8Encode_ne_zero {cs : List Char} (h : '\x00' ∉ cs) {i : Nat}
    (hi : i < cs.utf8Encode.size) : byteAt cs.utf8Encode i ≠ 0 := by
  have hne := byteAt_ne_zero (s := String.ofList cs) (i := i) (holdsNul_eq_false (by simpa using h))
  rw [String.toUTF8_eq_toByteArray, String.toByteArray_ofList] at hne
  exact hne hi

/-- Behind the bytes in front of the first zero character is a zero byte, or nothing. -/
lemma byteAt_size_beforeNul (cs : List Char) :
    byteAt cs.utf8Encode (beforeNul cs).utf8Encode.size = 0 := by
  induction cs with
  | nil => rfl
  | cons c cs ih =>
    by_cases hc : c = '\x00'
    · have hcons : beforeNul (c :: cs) = [] := List.takeWhile_cons_of_neg (by simpa using hc)
      rw [hcons, hc, List.utf8Encode_cons, List.utf8Encode_nil,
        byteAt_append_left (show ByteArray.empty.size < ['\x00'].utf8Encode.size by decide)]
      rfl
    · have hcons : beforeNul (c :: cs) = c :: beforeNul cs :=
        List.takeWhile_cons_of_pos (by simpa using hc)
      rw [hcons, List.utf8Encode_cons (l := cs), List.utf8Encode_cons (l := beforeNul cs),
        ByteArray.size_append, byteAt_append_right, ih]

/-! ### The field -/

variable (name : String)

/-- The first zero byte of a field is behind what is kept of the characters in front of the first
zero character. -/
lemma nulFrom_nameField :
    nulFrom (nameField name) (nameField name).size 0 =
      some (min 65 (beforeNul name.toList).utf8Encode.size) := by
  obtain ⟨back, hback⟩ := exists_utf8Encode_eq_append name.toList
  have hsize : (name.toUTF8.extract 0 65).size ≤ 65 := by
    rw [ByteArray.size_extract]
    omega
  have hbyte : ∀ i < 65, byteAt (nameField name) i = byteAt name.toList.utf8Encode i := by
    intro i hi
    rw [nameField, byteAt_append_zeros, byteAt_extract _ (by omega), Nat.zero_add,
      toUTF8_eq_utf8Encode]
  rw [nulFrom_eq_some_iff, size_nameField]
  refine ⟨Nat.zero_le _, by omega, ?_, by omega, fun i _ hi => ?_⟩
  · rcases Nat.lt_or_ge (beforeNul name.toList).utf8Encode.size 65 with hshort | hlong
    · rw [Nat.min_eq_right (by omega), hbyte _ hshort, byteAt_size_beforeNul]
    · rw [Nat.min_eq_left hlong, nameField, byteAt_append_zeros, byteAt_of_size_le hsize]
  · rw [hbyte i (by omega), hback, byteAt_append_left (by omega)]
    exact byteAt_utf8Encode_ne_zero (nul_notMem_beforeNul _) (by omega)

lemma extract_nameField :
    (nameField name).extract 0 (min 65 (beforeNul name.toList).utf8Encode.size) =
      (beforeNul name.toList).utf8Encode.extract 0 65 := by
  obtain ⟨back, hback⟩ := exists_utf8Encode_eq_append name.toList
  have hwhole : (beforeNul name.toList).utf8Encode.size ≤ name.toUTF8.size := by
    rw [toUTF8_eq_utf8Encode, hback, ByteArray.size_append]
    omega
  rw [nameField, extract_append_of_le _ (by rw [ByteArray.size_extract]; omega),
    extract_extract_of_le _ (by omega), Nat.zero_add, Nat.zero_add, toUTF8_eq_utf8Encode, hback,
    extract_append_of_le _ (Nat.min_le_right _ _)]
  rcases Nat.lt_or_ge 65 (beforeNul name.toList).utf8Encode.size with hlong | hshort
  · rw [Nat.min_eq_left (by omega)]
  · rw [Nat.min_eq_right hshort, extract_of_size_le (Nat.le_refl _), extract_of_size_le hshort]

/-- **The name in a field** is as much as there is room for of what is in front of the first zero.
-/
lemma nameOfField_nameField :
    nameOfField (nameField name) = String.ofList (cutAfter 65 (beforeNul name.toList)) := by
  rw [nameOfField, nulFrom_nameField, Option.getD_some, extract_nameField, lossy_extract]

/-! ### Leads -/

variable {l : Lead}

lemma shortened_of_size_le (hsize : l.name.utf8ByteSize ≤ 65) (hnul : '\x00' ∉ l.name.toList) :
    l.shortened = l := by
  have hfits : l.name.toList.utf8Encode.size ≤ 65 := by
    rw [String.utf8Encode_toList]
    exact hsize
  rw [shortened, beforeNul_of_notMem hnul, cutAfter_of_size_le hfits, String.ofList_toList]

lemma shortened_shortened (l : Lead) : l.shortened.shortened = l.shortened := by
  have hnul : '\x00' ∉ cutAfter 65 (beforeNul l.name.toList) := fun h =>
    (mem_of_mem_cutAfter h).elim (nul_notMem_beforeNul _) (by decide)
  simp only [shortened, String.toList_ofList, beforeNul_of_notMem hnul, cutAfter_cutAfter]

lemma read_bytes_shortened (h : l.major = 3) (rest : ByteArray) (failure : Option StreamError) :
    Lead.read ⟨l.bytes ++ rest, failure⟩ = .ok (l.shortened, ⟨rest, failure⟩) := by
  rw [read_bytes h, nameOfField_nameField]
  rfl

lemma write_of_room {sink : Sink} (h : sink.room size = size) :
    l.write sink = ({ sink with accepted := sink.accepted ++ l.bytes }, .ok ()) := by
  rw [← l.size_bytes] at h
  simp only [write, Sink.write_eq, h, extract_of_size_le (Nat.le_refl _), if_true]
  rfl

/-- **A lead that is written is read back with its name shortened, and stays so.**

The lead and what a reader gets of it are both written in 96 bytes, and what is read from either is
the shortened lead. A name of at most 65 bytes without zeros is not changed. -/
theorem read_write_stable (h : l.major = 3) :
    (l.name.utf8ByteSize ≤ 65 → '\x00' ∉ l.name.toList → l.shortened = l) ∧
      ∀ written ∈ [l, l.shortened], ∃ bytes : ByteArray, bytes.size = 96 ∧
        (∀ sink : Sink, sink.room 96 = 96 →
          written.write sink = ({ sink with accepted := sink.accepted ++ bytes }, .ok ())) ∧
        ∀ (rest : ByteArray) (failure : Option StreamError),
          Lead.read ⟨bytes ++ rest, failure⟩ = .ok (l.shortened, ⟨rest, failure⟩) := by
  refine ⟨shortened_of_size_le, fun written hwritten => ?_⟩
  refine ⟨written.bytes, written.size_bytes, fun sink hroom => write_of_room hroom,
    fun rest failure => ?_⟩
  obtain rfl | rfl : written = l ∨ written = l.shortened := by simpa using hwritten
  · exact read_bytes_shortened h rest failure
  · rw [read_bytes_shortened (l := l.shortened) h, shortened_shortened]

/-- The second byte of `é` has no room, and the replacement character that stands for its first one
is cut in the second field. -/
theorem read_write_stable_splitName :
    let name := String.ofList (List.replicate 64 'x' ++ ['é', '\x00', 'y'])
    let kept := String.ofList (List.replicate 64 'x' ++ ['\ufffd'])
    let l := Lead.new .source "noarch" name
    l.major = 3 ∧ l.shortened = Lead.new .source "noarch" kept ∧ name.utf8ByteSize = 68 ∧
      kept.utf8ByteSize = 67 ∧
      ∀ written ∈ [l, l.shortened], ∃ bytes : ByteArray, bytes.size = 96 ∧
        (∀ sink : Sink, sink.room 96 = 96 →
          written.write sink = ({ sink with accepted := sink.accepted ++ bytes }, .ok ())) ∧
        ∀ (rest : ByteArray) (failure : Option StreamError),
          Lead.read ⟨bytes ++ rest, failure⟩ = .ok (l.shortened, ⟨rest, failure⟩) := by
  have hkept : cutAfter 65 (beforeNul (List.replicate 64 'x' ++ ['é', '\x00', 'y'])) =
      List.replicate 64 'x' ++ ['\ufffd'] := by decide
  refine ⟨rfl, ?_, by decide, by decide, (read_write_stable rfl).2⟩
  simp only [shortened, Lead.new, String.toList_ofList, hkept]

end Rpm.Lead

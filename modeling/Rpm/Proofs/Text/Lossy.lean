import Mathlib.Tactic.Common
import Rpm.Proofs.Bytes
import Rpm.Text.Lossy

/-!
Text that is cut behind some of its bytes.

All characters in front of the cut are read as they are. Where the cut is within a character, its
bytes in front of it are a row that could begin one, and become a single replacement character. Cut
again at the same place, what was read stays as it is.
-/

namespace Rpm.Text

/-- What is left of characters of which so many bytes are kept: a character that is split becomes
the replacement character. -/
def cutAfter : Nat → List Char → List Char
  | _, [] => []
  | room, c :: cs =>
    if c.utf8Size ≤ room then c :: cutAfter (room - c.utf8Size) cs
    else if room = 0 then [] else [replacement]

/-! ### Positions -/

lemma utf8DecodeChar?_append_right (a b : ByteArray) (i : Nat) :
    (a ++ b).utf8DecodeChar? (a.size + i) = b.utf8DecodeChar? i := by
  rw [ByteArray.utf8DecodeChar?_eq_utf8DecodeChar?_extract, ByteArray.size_append,
    ByteArray.extract_append_size_add, ← ByteArray.utf8DecodeChar?_eq_utf8DecodeChar?_extract]

lemma size_append_le_iff (a b : ByteArray) (i : Nat) :
    (a ++ b).size ≤ a.size + i ↔ b.size ≤ i := by
  rw [ByteArray.size_append, Nat.add_le_add_iff_left]

lemma brokenLength_append_right (a b : ByteArray) (i : Nat) :
    brokenLength (a ++ b) (a.size + i) = brokenLength b i := by
  simp only [brokenLength, Nat.add_assoc, byteAt_append_right, size_append_le_iff]

lemma lossyFrom_append_right (a b : ByteArray) (fuel i : Nat) :
    lossyFrom (a ++ b) fuel (a.size + i) = lossyFrom b fuel i := by
  induction fuel generalizing i with
  | zero => rfl
  | succ fuel ih =>
    simp only [lossyFrom, size_append_le_iff, utf8DecodeChar?_append_right,
      brokenLength_append_right, Nat.add_assoc, ih]

lemma lossyFrom_of_size_le {bytes : ByteArray} {i : Nat} (h : bytes.size ≤ i) (fuel : Nat) :
    lossyFrom bytes fuel i = [] := by
  cases fuel with
  | zero => rfl
  | succ fuel => exact if_pos h

/-! ### One character -/

variable {c : Char} {k : Nat}

lemma size_utf8Encode_singleton (c : Char) : [c].utf8Encode.size = c.utf8Size := by
  rw [List.utf8Encode_singleton, List.size_toByteArray, String.length_utf8EncodeChar]

lemma size_extract_utf8Encode (hk : k ≤ c.utf8Size) : ([c].utf8Encode.extract 0 k).size = k :=
  size_extract_of_le (by rwa [size_utf8Encode_singleton])

lemma lossyFrom_cons (c : Char) (rest : ByteArray) (fuel : Nat) :
    lossyFrom ([c].utf8Encode ++ rest) (fuel + 1) 0 = c :: lossyFrom rest fuel 0 := by
  have hpos := c.utf8Size_pos
  have hsize : ¬([c].utf8Encode ++ rest).size ≤ 0 := by
    rw [ByteArray.size_append, size_utf8Encode_singleton]
    omega
  have htail := lossyFrom_append_right [c].utf8Encode rest fuel 0
  rw [size_utf8Encode_singleton, Nat.add_zero] at htail
  rw [lossyFrom, if_neg hsize, List.utf8DecodeChar?_utf8Encode_singleton_append]
  simp only [Nat.zero_add, htail]

lemma utf8DecodeChar?_extract (hk : k < c.utf8Size) :
    ([c].utf8Encode.extract 0 k).utf8DecodeChar? 0 = none := by
  cases hd : ([c].utf8Encode.extract 0 k).utf8DecodeChar? 0 with
  | none => rfl
  | some d =>
    have hwhole : [c].utf8Encode.extract 0 k ++ [c].utf8Encode.extract k [c].utf8Encode.size =
        [c].utf8Encode := by
      rw [extract_append_extract_of_le _ (Nat.zero_le k) (by rw [size_utf8Encode_singleton]; omega)]
      exact extract_of_size_le (Nat.le_refl _)
    have happend := ByteArray.utf8DecodeChar?_append_eq_some hd
      ([c].utf8Encode.extract k [c].utf8Encode.size)
    rw [hwhole, List.utf8DecodeChar?_utf8Encode_singleton] at happend
    obtain rfl := Option.some.inj happend
    have hfits := ByteArray.le_size_of_utf8DecodeChar?_eq_some hd
    rw [size_extract_utf8Encode (Nat.le_of_lt hk)] at hfits
    omega

/-- Whether two bytes can stand at the front of a character of three or four bytes. -/
structure Leads (first second : UInt8) : Prop where
  ge : 0xe0 ≤ first
  lt : first < 0xf5
  canFollow_eq : canFollow first second = true

lemma leads_of_utf8Size_eq_three (h : c.utf8Size = 3) :
    ∃ x y z, String.utf8EncodeChar c = [x, y, z] ∧ Leads x y := by
  obtain ⟨hge, hle⟩ := Char.utf8Size_eq_three_iff.mp h
  have hge' : 2047 < c.val.toNat := hge
  have hle' : c.val.toNat ≤ 65535 := hle
  have hvalid : c.val.toNat < 55296 ∨ 57343 < c.val.toNat := c.valid.imp_right And.left
  have hchars : String.utf8EncodeChar c = [UInt8.ofNat (c.val.toNat / 4096 % 16 + 224),
      UInt8.ofNat (c.val.toNat / 64 % 64 + 128), UInt8.ofNat (c.val.toNat % 64 + 128)] := by
    rw [String.utf8EncodeChar, if_neg (by omega), if_neg (by omega), if_pos hle']
  refine ⟨_, _, _, hchars, ?_, ?_, ?_⟩
  · simp only [UInt8.le_iff_toNat_le, UInt8.toNat_ofNat', UInt8.reduceToNat]
    omega
  · simp only [UInt8.lt_iff_toNat_lt, UInt8.toNat_ofNat', UInt8.reduceToNat]
    omega
  · simp only [canFollow, isContinuation, ← UInt8.toNat_inj, UInt8.le_iff_toNat_le,
      UInt8.toNat_ofNat', UInt8.reduceToNat]
    split_ifs <;> simp only [Bool.and_eq_true, decide_eq_true_eq] <;> omega

lemma leads_of_utf8Size_eq_four (h : c.utf8Size = 4) :
    ∃ x y z w, String.utf8EncodeChar c = [x, y, z, w] ∧ Leads x y ∧ 0xf0 ≤ x ∧
      isContinuation z = true := by
  have hge : 65535 < c.val.toNat := Char.utf8Size_eq_four_iff.mp h
  have hlt : c.val.toNat < 1114112 := by
    rcases c.valid with hvalid | hvalid
    · exact Nat.lt_trans hvalid (by decide)
    · exact hvalid.2
  have hchars : String.utf8EncodeChar c = [UInt8.ofNat (c.val.toNat / 262144 % 8 + 240),
      UInt8.ofNat (c.val.toNat / 4096 % 64 + 128), UInt8.ofNat (c.val.toNat / 64 % 64 + 128),
      UInt8.ofNat (c.val.toNat % 64 + 128)] := by
    rw [String.utf8EncodeChar, if_neg (by omega), if_neg (by omega), if_neg (by omega)]
  refine ⟨_, _, _, _, hchars, ⟨?_, ?_, ?_⟩, ?_, ?_⟩
  · simp only [UInt8.le_iff_toNat_le, UInt8.toNat_ofNat', UInt8.reduceToNat]
    omega
  · simp only [UInt8.lt_iff_toNat_lt, UInt8.toNat_ofNat', UInt8.reduceToNat]
    omega
  · simp only [canFollow, isContinuation, ← UInt8.toNat_inj, UInt8.le_iff_toNat_le,
      UInt8.toNat_ofNat', UInt8.reduceToNat]
    split_ifs <;> simp only [Bool.and_eq_true, decide_eq_true_eq] <;> omega
  · simp only [UInt8.le_iff_toNat_le, UInt8.toNat_ofNat', UInt8.reduceToNat]
    omega
  · simp only [isContinuation, UInt8.le_iff_toNat_le, UInt8.toNat_ofNat', UInt8.reduceToNat,
      Bool.and_eq_true, decide_eq_true_eq]
    omega

lemma leads_getD (h : 3 ≤ c.utf8Size) :
    Leads ((String.utf8EncodeChar c).getD 0 0) ((String.utf8EncodeChar c).getD 1 0) := by
  have hmost := c.utf8Size_le_four
  rcases (show c.utf8Size = 3 ∨ c.utf8Size = 4 by omega) with hsize | hsize
  · obtain ⟨x, y, z, hchars, hleads⟩ := leads_of_utf8Size_eq_three hsize
    rwa [hchars]
  · obtain ⟨x, y, z, w, hchars, hleads, -⟩ := leads_of_utf8Size_eq_four hsize
    rwa [hchars]

lemma brokenLength_of_leads {bytes : ByteArray} {i : Nat} (hsize : i + 1 < bytes.size)
    (h : Leads (byteAt bytes i) (byteAt bytes (i + 1))) :
    brokenLength bytes i =
      if byteAt bytes i < 0xf0 || bytes.size ≤ i + 2 || !isContinuation (byteAt bytes (i + 2))
      then 2 else 3 := by
  have hge : ¬byteAt bytes i < 0xe0 := UInt8.not_lt.mpr h.ge
  have hlt : ¬0xf5 ≤ byteAt bytes i := UInt8.not_le.mpr h.lt
  simp only [brokenLength, hge, hlt, Nat.not_le.mpr hsize, h.canFollow_eq, decide_false,
    Bool.not_true, Bool.or_false, Bool.false_eq_true, if_false]

/-- **A part of a character is one row** that could begin it. -/
lemma brokenLength_extract (hpos : 0 < k) (hk : k < c.utf8Size) :
    brokenLength ([c].utf8Encode.extract 0 k) 0 = k := by
  have hsize := size_extract_utf8Encode (Nat.le_of_lt hk)
  have hbyte : ∀ i < k,
      byteAt ([c].utf8Encode.extract 0 k) i = (String.utf8EncodeChar c).getD i 0 := by
    intro i hi
    rw [byteAt_extract _ (by omega), Nat.zero_add, List.utf8Encode_singleton, byteAt_toByteArray]
  have hmost := c.utf8Size_le_four
  rcases (show k = 1 ∨ 2 ≤ k by omega) with rfl | htwo
  · simp [brokenLength, hsize]
  have hleads := leads_getD (show 3 ≤ c.utf8Size by omega)
  rw [← hbyte 0 hpos, ← hbyte 1 htwo] at hleads
  rw [brokenLength_of_leads (by omega) hleads, hsize]
  rcases (show k = 2 ∨ k = 3 by omega) with rfl | rfl
  · simp
  · obtain ⟨x, y, z, w, hchars, -, hge, hthird⟩ :=
      leads_of_utf8Size_eq_four (show c.utf8Size = 4 by omega)
    rw [hbyte 0 hpos, hbyte 2 (by omega), hchars]
    simp [hthird, hge]

/-! ### Texts -/

variable {cs : List Char} {room : Nat}

lemma size_utf8Encode_cons (c : Char) (cs : List Char) :
    (c :: cs).utf8Encode.size = c.utf8Size + cs.utf8Encode.size := by
  rw [List.utf8Encode_cons, ByteArray.size_append, size_utf8Encode_singleton]

/-- A cut within a character leaves one replacement character, and one in front of it nothing. -/
lemma lossyFrom_extract_of_lt (h : room < c.utf8Size) {fuel : Nat} (hfuel : room ≤ fuel) :
    lossyFrom ([c].utf8Encode.extract 0 room) fuel 0 = if room = 0 then [] else [replacement] := by
  have hsize := size_extract_utf8Encode (Nat.le_of_lt h)
  by_cases hroom : room = 0
  · rw [if_pos hroom, lossyFrom_of_size_le (by omega)]
  · obtain ⟨fuel, rfl⟩ := Nat.exists_eq_add_of_lt (show 0 < fuel by omega)
    rw [if_neg hroom, lossyFrom, if_neg (by omega), utf8DecodeChar?_extract h]
    simp only [brokenLength_extract (Nat.pos_of_ne_zero hroom) h]
    rw [lossyFrom_of_size_le (by omega)]

/-- **A text that is cut** is read with a replacement character for the character that is split. -/
lemma lossyFrom_extract (cs : List Char) {room fuel : Nat}
    (hfuel : (cs.utf8Encode.extract 0 room).size ≤ fuel) :
    lossyFrom (cs.utf8Encode.extract 0 room) fuel 0 = cutAfter room cs := by
  induction cs generalizing room fuel with
  | nil => exact lossyFrom_of_size_le (by simp) fuel
  | cons c cs ih =>
    have hpos := c.utf8Size_pos
    rw [List.utf8Encode_cons] at hfuel ⊢
    by_cases hfits : c.utf8Size ≤ room
    · -- the character is kept, and the cut is in what follows it
      obtain ⟨left, rfl⟩ := Nat.exists_eq_add_of_le hfits
      rw [← size_utf8Encode_singleton c, extract_append_add] at hfuel ⊢
      rw [ByteArray.size_append, size_utf8Encode_singleton] at hfuel
      obtain ⟨fuel, rfl⟩ := Nat.exists_eq_add_of_lt (show 0 < fuel by omega)
      rw [Nat.zero_add, lossyFrom_cons, ih (by omega), cutAfter, size_utf8Encode_singleton,
        if_pos hfits, Nat.add_sub_cancel_left]
    · -- the cut is within the character, and nothing behind it is kept
      have hlt : room < c.utf8Size := Nat.lt_of_not_le hfits
      have hle : room ≤ [c].utf8Encode.size := by
        rw [size_utf8Encode_singleton]
        exact Nat.le_of_lt hlt
      rw [extract_append_of_le _ hle] at hfuel ⊢
      rw [size_extract_utf8Encode (Nat.le_of_lt hlt)] at hfuel
      rw [lossyFrom_extract_of_lt hlt (by omega), cutAfter, if_neg hfits]

lemma lossy_extract (cs : List Char) (room : Nat) :
    lossy (cs.utf8Encode.extract 0 room) = String.ofList (cutAfter room cs) := by
  rw [lossy, lossyFrom_extract cs (Nat.le_refl _)]

/-! ### What is kept -/

lemma cutAfter_of_size_le (h : cs.utf8Encode.size ≤ room) : cutAfter room cs = cs := by
  induction cs generalizing room with
  | nil => rfl
  | cons c cs ih =>
    rw [size_utf8Encode_cons] at h
    rw [cutAfter, if_pos (by omega), ih (by omega)]

lemma mem_of_mem_cutAfter (h : c ∈ cutAfter room cs) : c ∈ cs ∨ c = replacement := by
  induction cs generalizing room with
  | nil => exact .inl h
  | cons d cs ih =>
    rw [cutAfter] at h
    split_ifs at h with hfits hroom
    · rcases List.mem_cons.mp h with rfl | h
      · exact .inl List.mem_cons_self
      · exact (ih h).imp_left (List.mem_cons_of_mem d)
    · exact absurd h List.not_mem_nil
    · exact .inr (List.mem_singleton.mp h)

/-- **A second cut changes nothing**, though the replacement character may be longer than what was
left of the character that it stands for. -/
lemma cutAfter_cutAfter (cs : List Char) (room : Nat) :
    cutAfter room (cutAfter room cs) = cutAfter room cs := by
  induction cs generalizing room with
  | nil => rfl
  | cons c cs ih =>
    rw [cutAfter]
    split_ifs with hfits hroom
    · rw [cutAfter, if_pos hfits, ih]
    · rfl
    · rw [cutAfter, if_neg hroom]
      split_ifs <;> rfl

end Rpm.Text

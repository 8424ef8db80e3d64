import Mathlib.Data.String.Basic
import Rpm.Proofs.Text.Utf8

/-!
The order of texts and that of their bytes.

A greater character has a greater first byte, or one at the first place where its bytes differ, and no
character begins with all bytes of another. So texts are in the same order as their bytes.
-/

namespace Rpm

lemma utf8EncodeChar_append_lt {c d : Char} (h : c < d) (x y : List UInt8) :
    String.utf8EncodeChar c ++ x < String.utf8EncodeChar d ++ y := by
  have hlt : c.val.toNat < d.val.toNat := h
  have hmost : d.val.toNat < 0x110000 := by
    rcases d.valid with hd | hd
    · exact Nat.lt_trans hd (by decide)
    · exact hd.2
  -- The bytes of a character are its digits to the base 64, behind a mark in each.
  have hdigit : ∀ n : Nat, n / 4096 = n / 64 / 64 := fun n => by omega
  have hdigit' : ∀ n : Nat, n / 262144 = n / 64 / 64 / 64 := fun n => by omega
  simp only [String.utf8EncodeChar, hdigit, hdigit']
  split_ifs <;>
    simp only [List.cons_append, List.nil_append, List.cons_lt_cons_iff, UInt8.lt_iff_toNat_lt,
      ← UInt8.toNat_inj, UInt8.toNat_ofNat'] <;>
    omega

lemma utf8Bytes_lt {cs ds : List Char} (h : cs < ds) : utf8Bytes cs < utf8Bytes ds := by
  induction cs generalizing ds with
  | nil =>
    cases ds with
    | nil => exact absurd h (List.lt_irrefl [])
    | cons d ds =>
      have hne : utf8Bytes (d :: ds) ≠ [] := by simp [utf8Bytes, String.utf8EncodeChar_ne_nil]
      obtain ⟨b, bs, hb⟩ := List.exists_cons_of_ne_nil hne
      rw [hb]
      exact List.nil_lt_cons b bs
  | cons c cs ih =>
    cases ds with
    | nil => exact absurd h (List.not_lt_nil _)
    | cons d ds =>
      rcases List.cons_lt_cons_iff.mp h with hlt | ⟨rfl, hlt⟩
      · exact utf8EncodeChar_append_lt hlt _ _
      · exact List.append_left_lt (ih hlt)

/-- **Texts are ordered as their bytes are.** -/
lemma toUTF8_lt {s t : String} (h : s < t) : s.toUTF8.data.toList < t.toUTF8.data.toList := by
  rw [toList_toUTF8, toList_toUTF8]
  exact utf8Bytes_lt (String.lt_iff_toList_lt.mp h)

end Rpm

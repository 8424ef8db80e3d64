import Mathlib.Tactic.Common

/-!
Decimal digits and the numbers that they denote.

A number has many rows of digits, which differ in the zeros in front. Without these there is one, and
that is how the number is written.
-/

namespace Rpm

variable {digits : List Char}

/-- Digits without superfluous zeros in front: one zero is left if there is nothing else. -/
def significant (digits : List Char) : List Char :=
  match digits.dropWhile (· = '0') with
  | [] => ['0']
  | c :: cs => c :: cs

lemma significant_zero (digits : List Char) : significant ('0' :: digits) = significant digits := rfl

lemma significant_cons {c : Char} (hc : c ≠ '0') (digits : List Char) :
    significant (c :: digits) = c :: digits := by
  rw [significant, List.dropWhile_cons_of_neg (by simpa using hc)]

lemma toDigits_of_isDigit {c : Char} (hc : c.isDigit = true) :
    c.toNat - '0'.toNat < 10 ∧ Nat.toDigits 10 (c.toNat - '0'.toNat) = [c] := by
  obtain ⟨hge, hle⟩ : 48 ≤ c.toNat ∧ c.toNat ≤ 57 := Char.isDigit_iff_toNat.mp hc
  have hlt : c.toNat - '0'.toNat < 10 := by
    rw [show '0'.toNat = 48 from rfl]
    omega
  have hchar : ∀ n < 10, Nat.toDigits 10 n = [Char.ofNat (48 + n)] := by decide
  have hsum : 48 + (c.toNat - '0'.toNat) = c.toNat := by
    rw [show '0'.toNat = 48 from rfl]
    omega
  rw [hchar _ hlt, hsum, Char.ofNat_toNat]
  exact ⟨hlt, rfl⟩

lemma toDigits_append {n : Nat} (hn : 0 < n) (hdigits : ∀ c ∈ digits, c.isDigit = true) :
    Nat.toDigits 10 n ++ digits = Nat.toDigits 10 (Nat.ofDigitChars 10 digits n) := by
  induction digits generalizing n with
  | nil => rw [List.append_nil, Nat.ofDigitChars_nil]
  | cons c digits ih =>
    obtain ⟨hc, hrest⟩ := List.forall_mem_cons.mp hdigits
    obtain ⟨hlt, hchar⟩ := toDigits_of_isDigit hc
    calc Nat.toDigits 10 n ++ c :: digits
        = (Nat.toDigits 10 n ++ Nat.toDigits 10 (c.toNat - '0'.toNat)) ++ digits := by
          rw [hchar, List.append_assoc, List.singleton_append]
      _ = Nat.toDigits 10 (10 * n + (c.toNat - '0'.toNat)) ++ digits := by
          rw [Nat.toDigits_append_toDigits (by decide) hn hlt]
      _ = Nat.toDigits 10 (Nat.ofDigitChars 10 (c :: digits) n) := by
          rw [ih (by omega) hrest, Nat.ofDigitChars_cons]

/-- **A number is written without superfluous zeros.** -/
lemma toDigits_ofDigitChars (hdigits : ∀ c ∈ digits, c.isDigit = true) :
    Nat.toDigits 10 (Nat.ofDigitChars 10 digits 0) = significant digits := by
  induction digits with
  | nil => rfl
  | cons c digits ih =>
    obtain ⟨hc, hrest⟩ := List.forall_mem_cons.mp hdigits
    by_cases hzero : c = '0'
    · subst hzero
      rw [Nat.ofDigitChars_cons, significant_zero]
      exact ih hrest
    · obtain ⟨-, hchar⟩ := toDigits_of_isDigit hc
      have hpos : 0 < c.toNat - '0'.toNat := by
        refine Nat.pos_of_ne_zero fun hnone => hzero ?_
        rw [hnone] at hchar
        exact (List.singleton_inj.mp hchar).symm
      rw [Nat.ofDigitChars_cons, Nat.mul_zero, Nat.zero_add, ← toDigits_append hpos hrest, hchar,
        significant_cons hzero, List.singleton_append]

end Rpm

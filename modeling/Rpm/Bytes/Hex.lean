import Rpm.Bytes.Basic

/-!
Hexadecimal text: bytes and numbers written in lower-case digits, and numbers read in either case.
-/

namespace Rpm

def hexDigit (n : Nat) : Char := Char.ofNat (if n < 10 then 48 + n else 87 + n)

def hexText (bytes : ByteArray) : String :=
  bytes.data.foldl (fun s b => (s.push (hexDigit (b.toNat / 16))).push (hexDigit (b.toNat % 16))) ""

def hexValue? (c : Char) : Option Nat :=
  if '0' ≤ c ∧ c ≤ '9' then some (c.toNat - 48)
  else if 'a' ≤ c ∧ c ≤ 'f' then some (c.toNat - 87)
  else if 'A' ≤ c ∧ c ≤ 'F' then some (c.toNat - 55)
  else none

theorem hexValue?_hexDigit {n : Nat} (h : n < 16) : hexValue? (hexDigit n) = some n := by
  revert n
  decide

/-- The last `width` hexadecimal digits of a number, most significant first, in front of others. -/
def hexDigits : Nat → Nat → List Char → List Char
  | 0, _, tail => tail
  | width + 1, n, tail => hexDigits width (n / 16) (hexDigit (n % 16) :: tail)

@[simp] theorem length_hexDigits (width n : Nat) (tail : List Char) :
    (hexDigits width n tail).length = width + tail.length := by
  induction width generalizing n tail with
  | zero => simp [hexDigits]
  | succ width ih => simp [hexDigits, ih]; omega

/-- The number that hexadecimal digits denote, after the digits of another number. -/
def ofHexDigits? : Nat → List Char → Option Nat
  | n, [] => some n
  | n, c :: cs =>
    match hexValue? c with
    | none => none
    | some d => ofHexDigits? (16 * n + d) cs

theorem ofHexDigits?_hexDigits (width n start : Nat) (tail : List Char) :
    ofHexDigits? start (hexDigits width n tail) =
      ofHexDigits? (16 ^ width * start + n % 16 ^ width) tail := by
  induction width generalizing n tail with
  | zero => simp [hexDigits, Nat.mod_one]
  | succ width ih =>
    rw [hexDigits, ih, ofHexDigits?, hexValue?_hexDigit (Nat.mod_lt n (by decide))]
    have split : n % 16 ^ (width + 1) = 16 * (n / 16 % 16 ^ width) + n % 16 := by
      rw [Nat.pow_succ, Nat.mul_comm (16 ^ width) 16, Nat.mod_mul]
      omega
    have scale : 16 ^ (width + 1) * start = 16 * (16 ^ width * start) := by
      rw [Nat.pow_succ, Nat.mul_comm (16 ^ width) 16, Nat.mul_assoc]
    simp only [split, scale]
    congr 1
    omega

end Rpm

import Rpm.Bytes.Basic

/-!
Whole numbers written as bytes.

A number of a given width is the row of its last base-256 digits, most significant first
(`bigEndian`) or least significant first (`littleEndian`). Reading such a row back gives the
number modulo 256 to the width, and writing back what was read gives the same row.
-/

namespace Rpm

/-- The last `width` base-256 digits of a number, most significant first. -/
def bigEndian : Nat → Nat → ByteArray
  | 0, _ => ByteArray.empty
  | width + 1, n => (bigEndian width (n / 256)).push (UInt8.ofNat n)

/-- The number whose base-256 digits are the given bytes, most significant first. -/
def ofBigEndian (bytes : ByteArray) : Nat :=
  bytes.data.foldl (fun n b => 256 * n + b.toNat) 0

@[simp] theorem size_bigEndian (width n : Nat) : (bigEndian width n).size = width := by
  induction width generalizing n with
  | zero => rfl
  | succ width ih => simp [bigEndian, ih]

@[simp] theorem ofBigEndian_empty : ofBigEndian ByteArray.empty = 0 := rfl

@[simp] theorem ofBigEndian_push (bytes : ByteArray) (b : UInt8) :
    ofBigEndian (bytes.push b) = 256 * ofBigEndian bytes + b.toNat := by
  simp [ofBigEndian, ByteArray.data_push]

theorem ofBigEndian_bigEndian (width n : Nat) :
    ofBigEndian (bigEndian width n) = n % 256 ^ width := by
  induction width generalizing n with
  | zero => simp [bigEndian, Nat.mod_one]
  | succ width ih =>
    have byte : (UInt8.ofNat n).toNat = n % 256 := by simp
    rw [bigEndian, ofBigEndian_push, ih, byte, Nat.pow_succ, Nat.mul_comm (256 ^ width) 256,
      Nat.mod_mul]
    omega

theorem ofBigEndian_bigEndian_of_lt {width n : Nat} (h : n < 256 ^ width) :
    ofBigEndian (bigEndian width n) = n := by
  rw [ofBigEndian_bigEndian, Nat.mod_eq_of_lt h]

/-- The last `width` base-256 digits of a number, least significant first. -/
def littleEndian : Nat → Nat → ByteArray
  | 0, _ => ByteArray.empty
  | width + 1, n => ByteArray.empty.push (UInt8.ofNat n) ++ littleEndian width (n / 256)

@[simp] theorem size_littleEndian (width n : Nat) : (littleEndian width n).size = width := by
  induction width generalizing n with
  | zero => rfl
  | succ width ih => simp [littleEndian, ih]; omega

def ofLittleEndian (bytes : ByteArray) : Nat :=
  bytes.data.foldr (fun b n => b.toNat + 256 * n) 0

@[inline] def wordAt (bytes : ByteArray) (i : Nat) : UInt32 :=
  ((byteAt bytes i).toUInt32 <<< 24) ||| ((byteAt bytes (i + 1)).toUInt32 <<< 16) |||
    ((byteAt bytes (i + 2)).toUInt32 <<< 8) ||| (byteAt bytes (i + 3)).toUInt32

@[inline] def littleWordAt (bytes : ByteArray) (i : Nat) : UInt32 :=
  ((byteAt bytes (i + 3)).toUInt32 <<< 24) ||| ((byteAt bytes (i + 2)).toUInt32 <<< 16) |||
    ((byteAt bytes (i + 1)).toUInt32 <<< 8) ||| (byteAt bytes i).toUInt32

end Rpm

/-!
Rows of bytes: single bytes, runs of equal bytes, and rows put one after another.
-/

namespace Rpm

-- Mathlib reads `2 ^ n` as a power in a monoid, and Batteries has an instance of its own for the
-- equality of rows. The modules that run import neither, and those with proofs do: here both are
-- told to take the instances of the core library, so that a definition and a statement about it
-- speak of the same power and of the same test. Both are scoped to this namespace; the default is
-- for powers of numerals, whose types are not known when their instance is looked for.
scoped instance (priority := high) corePow {α : Type} [NatPow α] : Pow α Nat := instPowNat
attribute [default_instance 20000] corePow
scoped instance (priority := high) decEqByteArray : DecidableEq ByteArray :=
  ByteArray.instDecidableEq

/-- The byte at a position, zero past the end. -/
@[inline] def byteAt (bytes : ByteArray) (i : Nat) : UInt8 :=
  if h : i < bytes.size then bytes[i] else 0

def replicateByte (count : Nat) (b : UInt8) : ByteArray :=
  ⟨Array.replicate count b⟩

@[simp] theorem size_replicateByte (count : Nat) (b : UInt8) :
    (replicateByte count b).size = count := by
  simp [replicateByte, ByteArray.size]

def concat (rows : List ByteArray) : ByteArray := rows.foldl (· ++ ·) ByteArray.empty

theorem foldl_append (rows : List ByteArray) (start : ByteArray) :
    rows.foldl (· ++ ·) start = start ++ concat rows := by
  induction rows generalizing start with
  | nil => simp [concat]
  | cons row rows ih =>
    have h : concat (row :: rows) = row ++ concat rows := by
      rw [concat, List.foldl_cons, ih, ByteArray.empty_append]
    rw [List.foldl_cons, ih, h, ByteArray.append_assoc]

@[simp] theorem concat_nil : concat [] = ByteArray.empty := rfl

@[simp] theorem concat_cons (row : ByteArray) (rows : List ByteArray) :
    concat (row :: rows) = row ++ concat rows := by
  rw [concat, List.foldl_cons, foldl_append, ByteArray.empty_append]

@[simp] theorem concat_append (a b : List ByteArray) : concat (a ++ b) = concat a ++ concat b := by
  induction a with
  | nil => simp
  | cons row rows ih => simp [ih, ByteArray.append_assoc]

/-- The zeros that fill a row of `size` bytes up to a multiple of `alignment`. -/
def paddingFor (alignment size : Nat) : Nat := (alignment - size % alignment) % alignment

end Rpm

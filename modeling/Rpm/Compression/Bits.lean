import Rpm.Bytes.BigEndian

/-!
Bytes as rows of bits.

In a row that runs low, the least significant bit of a byte comes first; in one that runs high,
the most significant bit. Past the end there are zeros.
-/

namespace Rpm.Compression

@[inline] def lowBitAt (bytes : ByteArray) (pos : Nat) : Nat :=
  ((byteAt bytes (pos / 8)) >>> (UInt8.ofNat (pos % 8)) &&& 1).toNat

@[inline] def highBitAt (bytes : ByteArray) (pos : Nat) : Nat :=
  ((byteAt bytes (pos / 8)) >>> (UInt8.ofNat (7 - pos % 8)) &&& 1).toNat

/-- The number of `n ≤ 25` bits at a position of the row that runs low, its low bit first. -/
def lowBitsAt (bytes : ByteArray) (pos n : Nat) : Nat :=
  ((littleWordAt bytes (pos / 8)).toNat >>> (pos % 8)) % 2 ^ n

/-- The number of `n ≤ 25` bits at a position of the row that runs high, its high bit first. -/
def highBitsAt (bytes : ByteArray) (pos n : Nat) : Nat :=
  ((wordAt bytes (pos / 8)).toNat >>> (32 - pos % 8 - n)) % 2 ^ n

/-- A row that runs high, in the making: whole bytes, and the bits of the next one. -/
structure BitRow where
  bytes : ByteArray := ByteArray.empty
  pending : Nat := 0
  count : Nat := 0

namespace BitRow

def settle : Nat → BitRow → BitRow
  | 0, r => r
  | fuel + 1, r =>
    if r.count < 8 then r
    else
      let shift := r.count - 8
      settle fuel
        { bytes := r.bytes.push (UInt8.ofNat (r.pending >>> shift))
          pending := r.pending % 2 ^ shift
          count := shift }

def put (r : BitRow) (n v : Nat) : BitRow :=
  settle ((r.count + n) / 8)
    { r with pending := r.pending * 2 ^ n + v % 2 ^ n, count := r.count + n }

def finish (r : BitRow) : ByteArray :=
  if r.count = 0 then r.bytes else (r.put (8 - r.count) 0).bytes

end BitRow

end Rpm.Compression

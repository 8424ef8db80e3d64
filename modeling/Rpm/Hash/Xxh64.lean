import Rpm.Bytes.BigEndian

/-!
The 64-bit xxHash of a message, with seed zero.
-/

namespace Rpm.Hash.Xxh64

def prime1 : UInt64 := 0x9e3779b185ebca87
def prime2 : UInt64 := 0xc2b2ae3d27d4eb4f
def prime3 : UInt64 := 0x165667b19e3779f9
def prime4 : UInt64 := 0x85ebca77c2b2ae63
def prime5 : UInt64 := 0x27d4eb2f165667c5

@[inline] def rotl64 (x n : UInt64) : UInt64 := (x <<< n) ||| (x >>> (64 - n))

def longAt (bytes : ByteArray) (i : Nat) : UInt64 :=
  ((littleWordAt bytes (i + 4)).toUInt64 <<< 32) ||| (littleWordAt bytes i).toUInt64

@[inline] def round (lane word : UInt64) : UInt64 := rotl64 (lane + word * prime2) 31 * prime1

/-- Takes stripes of 32 bytes into the four lanes, from a position on. -/
def stripes (bytes : ByteArray) : Nat → Nat → UInt64 → UInt64 → UInt64 → UInt64 →
    UInt64 × UInt64 × UInt64 × UInt64
  | 0, _, a, b, c, d => (a, b, c, d)
  | count + 1, i, a, b, c, d =>
    stripes bytes count (i + 32) (round a (longAt bytes i)) (round b (longAt bytes (i + 8)))
      (round c (longAt bytes (i + 16))) (round d (longAt bytes (i + 24)))

def merge (h lane : UInt64) : UInt64 := (h ^^^ round 0 lane) * prime1 + prime4

/-- Takes the bytes that fill no stripe, from a position on: first long words, then one word, then
single bytes. -/
def tail (bytes : ByteArray) : Nat → Nat → UInt64 → UInt64
  | 0, _, h => h
  | fuel + 1, i, h =>
    if i + 8 ≤ bytes.size then
      tail bytes fuel (i + 8) (rotl64 (h ^^^ round 0 (longAt bytes i)) 27 * prime1 + prime4)
    else if i + 4 ≤ bytes.size then
      let word := (littleWordAt bytes i).toUInt64
      tail bytes fuel (i + 4) (rotl64 (h ^^^ (word * prime1)) 23 * prime2 + prime3)
    else if i < bytes.size then
      tail bytes fuel (i + 1) (rotl64 (h ^^^ ((byteAt bytes i).toUInt64 * prime5)) 11 * prime1)
    else h

def hash (bytes : ByteArray) : UInt64 :=
  let count := bytes.size / 32
  let h :=
    if count = 0 then prime5
    else
      let (a, b, c, d) := stripes bytes count 0 (prime1 + prime2) prime2 0 (0 - prime1)
      merge (merge (merge (merge
        (rotl64 a 1 + rotl64 b 7 + rotl64 c 12 + rotl64 d 18) a) b) c) d
  let h := tail bytes 32 (32 * count) (h + UInt64.ofNat bytes.size)
  let h := (h ^^^ (h >>> 33)) * prime2
  let h := (h ^^^ (h >>> 29)) * prime3
  h ^^^ (h >>> 32)

end Rpm.Hash.Xxh64

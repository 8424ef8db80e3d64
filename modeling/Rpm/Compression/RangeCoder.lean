import Rpm.Bytes.BigEndian

/-!
Adaptive binary range coding.

Each bit is coded against the probability that it is zero, out of 2048, and moves that
probability towards itself. The decoder takes another byte when its range has become narrow, just
before it needs it.
-/

namespace Rpm.Compression

structure RangeDecoder where
  range : UInt32
  code : UInt32
  pos : Nat
  probs : Array UInt32

namespace RangeDecoder

@[inline] def normalize (bytes : ByteArray) (d : RangeDecoder) : RangeDecoder :=
  if d.range < 0x1000000 then
    { d with
      range := d.range <<< 8
      code := (d.code <<< 8) ||| (byteAt bytes d.pos).toUInt32
      pos := d.pos + 1 }
  else d

def bit (bytes : ByteArray) (i : Nat) (d : RangeDecoder) : Nat × RangeDecoder :=
  let ⟨range, code, pos, probs⟩ := normalize bytes d
  let p := probs.getD i 1024
  let bound := (range >>> 11) * p
  if code < bound then (0, ⟨bound, code, pos, probs.setIfInBounds i (p + ((2048 - p) >>> 5))⟩)
  else (1, ⟨range - bound, code - bound, pos, probs.setIfInBounds i (p - (p >>> 5))⟩)

def evenBit (bytes : ByteArray) (d : RangeDecoder) : Nat × RangeDecoder :=
  let ⟨range, code, pos, probs⟩ := normalize bytes d
  let half := range >>> 1
  if code < half then (0, ⟨half, code, pos, probs⟩) else (1, ⟨half, code - half, pos, probs⟩)

def evenBits (bytes : ByteArray) : Nat → Nat → RangeDecoder → Nat × RangeDecoder
  | 0, v, d => (v, d)
  | n + 1, v, d =>
    let (b, d) := evenBit bytes d
    evenBits bytes n (2 * v + b) d

/-- Decodes `n` bits, high bit first, down a tree of probabilities that starts at `base`; `node`
is the node reached so far, and 1 the root. -/
def tree (bytes : ByteArray) (base : Nat) : Nat → Nat → RangeDecoder → Nat × RangeDecoder
  | 0, node, d => (node, d)
  | n + 1, node, d =>
    let (b, d) := bit bytes (base + node) d
    tree bytes base n (2 * node + b) d

def reverseTree (bytes : ByteArray) (base : Nat) :
    Nat → Nat → Nat → Nat → RangeDecoder → Nat × RangeDecoder
  | 0, _, _, v, d => (v, d)
  | n + 1, node, weight, v, d =>
    let (b, d) := bit bytes (base + node) d
    reverseTree bytes base n (2 * node + b) (2 * weight) (v + weight * b) d

/-- A decoder that starts at a position, past the five bytes of its first code. -/
def start (bytes : ByteArray) (pos : Nat) (probs : Array UInt32) : RangeDecoder :=
  ⟨0xffffffff, wordAt bytes (pos + 1), pos + 5, probs⟩

end RangeDecoder

/-- An encoder: the low end of its interval, the bytes a carry could still change, and what has
been written. -/
structure RangeEncoder where
  low : Nat := 0
  range : UInt32 := 0xffffffff
  cache : Nat := 0
  cacheSize : Nat := 1
  out : ByteArray := ByteArray.empty
  probs : Array UInt32

namespace RangeEncoder

/-- Moves the top byte of the low end out, once no carry can reach it. -/
def shiftLow (e : RangeEncoder) : RangeEncoder :=
  if e.low < 0xff000000 || e.low ≥ 0x100000000 then
    let carry := e.low / 0x100000000
    let out := e.out.push (UInt8.ofNat (e.cache + carry)) ++
      replicateByte (e.cacheSize - 1) (UInt8.ofNat (0xff + carry))
    { e with
      out := out
      cache := e.low / 0x1000000 % 256
      cacheSize := 1
      low := e.low % 0x1000000 * 256 }
  else { e with cacheSize := e.cacheSize + 1, low := e.low % 0x1000000 * 256 }

def bit (i b : Nat) (e : RangeEncoder) : RangeEncoder :=
  let p := e.probs.getD i 1024
  let bound := (e.range >>> 11) * p
  let e :=
    if b = 0 then
      { e with range := bound, probs := e.probs.setIfInBounds i (p + ((2048 - p) >>> 5)) }
    else
      { e with
        low := e.low + bound.toNat
        range := e.range - bound
        probs := e.probs.setIfInBounds i (p - (p >>> 5)) }
  if e.range < 0x1000000 then shiftLow { e with range := e.range <<< 8 } else e

def tree (base v : Nat) : Nat → Nat → RangeEncoder → RangeEncoder
  | 0, _, e => e
  | n + 1, node, e =>
    let b := v / 2 ^ n % 2
    tree base v n (2 * node + b) (bit (base + node) b e)

def finish (e : RangeEncoder) : ByteArray := (Nat.repeat shiftLow 5 e).out

end RangeEncoder

end Rpm.Compression

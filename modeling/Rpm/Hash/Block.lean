import Rpm.Bytes.BigEndian

/-!
Digests that work block by block.

A message is padded to whole blocks with a one bit, zeros and its bit length, and a compression
function is folded over the blocks.
-/

namespace Rpm.Hash

/-- The message, a one bit, as many zeros as make the blocks whole, and the encoded length. -/
def pad (blockSize : Nat) (encodedLength message : ByteArray) : ByteArray :=
  let used := (message.size + 1 + encodedLength.size) % blockSize
  message.push 0x80 ++ replicateByte ((blockSize - used) % blockSize) 0 ++ encodedLength

/-- Folds `compress` over `count` blocks, the first of which starts at `start`. -/
def foldBlocks {S : Type} (blockSize : Nat) (compress : S → ByteArray → Nat → S)
    (bytes : ByteArray) : Nat → S → Nat → S
  | 0, s, _ => s
  | count + 1, s, start =>
    foldBlocks blockSize compress bytes count (compress s bytes start) (start + blockSize)

def absorb {S : Type} (blockSize : Nat) (compress : S → ByteArray → Nat → S) (s : S)
    (padded : ByteArray) : S :=
  foldBlocks blockSize compress padded (padded.size / blockSize) s 0

/-- Rotation of a word to the left, by fewer than 32 places and at least one. -/
@[inline] def rotl (x n : UInt32) : UInt32 := (x <<< n) ||| (x >>> (32 - n))

@[inline] def rotr (x n : UInt32) : UInt32 := (x >>> n) ||| (x <<< (32 - n))

@[inline] def rotr64 (x n : UInt64) : UInt64 := (x >>> n) ||| (x <<< (64 - n))

end Rpm.Hash

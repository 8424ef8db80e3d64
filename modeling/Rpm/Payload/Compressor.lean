import Rpm.Compression.Bzip2
import Rpm.Compression.Gzip
import Rpm.Compression.Lzma
import Rpm.Compression.Xz
import Rpm.Compression.Zstd
import Rpm.Payload.Flags

/-!
Compressing and decompressing with a coding.

A compressor takes data piece by piece and gives out some bytes at each piece, and the last ones at
the end.
-/

namespace Rpm

/-- A way to compress data that arrives in pieces. -/
structure Compressor where
  State : Type
  start : State
  /-- Takes a piece, and gives out what can be said by then. -/
  write : State → ByteArray → State × ByteArray
  /-- Gives out what is left to say. -/
  finish : State → ByteArray

namespace Compressor

def runFrom (c : Compressor) (state : c.State) : List ByteArray → ByteArray
  | [] => c.finish state
  | piece :: pieces =>
    let (state, out) := c.write state piece
    out ++ c.runFrom state pieces

def run (c : Compressor) (pieces : List ByteArray) : ByteArray := c.runFrom c.start pieces

def identity : Compressor where
  State := Unit
  start := ()
  write := fun _ piece => ((), piece)
  finish := fun _ => ByteArray.empty

/-- Compresses all pieces together at the end. -/
def atOnce (compress : ByteArray → ByteArray) : Compressor where
  State := ByteArray
  start := ByteArray.empty
  write := fun held piece => (held ++ piece, ByteArray.empty)
  finish := compress

end Compressor

namespace Coding

def compressor : Coding → Compressor
  | none => .identity
  | gzip => .atOnce Compression.Gzip.compress
  | bzip2 => .atOnce Compression.Bzip2.compress
  | lzma => .atOnce Compression.Lzma.compress
  | xz => .atOnce Compression.Xz.compress
  | zstd => .atOnce Compression.Zstd.compress

def decompressBytes : Coding → ByteArray → Source
  | none => Source.ofBytes
  | gzip => Compression.Gzip.decompress
  | bzip2 => Compression.Bzip2.decompress
  | lzma => Compression.Lzma.decompress false
  | xz => Compression.Xz.decompress
  | zstd => Compression.Zstd.decompress

def decompress (c : Coding) (s : Source) : Source :=
  match c with
  | none => s
  | _ => Compression.throughSource c.decompressBytes s

end Coding

end Rpm

import Rpm.Compression.Bits
import Rpm.Compression.Flaw
import Rpm.Compression.Huffman

/-!
The deflate format, least significant bit first.

A stream is a row of blocks: bytes stored as they are, or symbols of a prefix code that stand for
bytes and for copies of earlier output.
-/

namespace Rpm.Compression.Inflate

/-- Where decoding stands: the next bit, the output, and the flaw that stopped it. -/
structure Progress where
  pos : Nat
  out : ByteArray
  flaw : Option Flaw := none

def lengthBase : Array Nat := #[
  3, 4, 5, 6, 7, 8, 9, 10, 11, 13, 15, 17, 19, 23, 27, 31, 35, 43, 51, 59, 67, 83, 99, 115, 131,
  163, 195, 227, 258]

def lengthExtra : Array Nat := #[
  0, 0, 0, 0, 0, 0, 0, 0, 1, 1, 1, 1, 2, 2, 2, 2, 3, 3, 3, 3, 4, 4, 4, 4, 5, 5, 5, 5, 0]

def distanceBase : Array Nat := #[
  1, 2, 3, 4, 5, 7, 9, 13, 17, 25, 33, 49, 65, 97, 129, 193, 257, 385, 513, 769, 1025, 1537, 2049,
  3073, 4097, 6145, 8193, 12289, 16385, 24577]

def distanceExtra : Array Nat := #[
  0, 0, 0, 0, 1, 1, 2, 2, 3, 3, 4, 4, 5, 5, 6, 6, 7, 7, 8, 8, 9, 9, 10, 10, 11, 11, 12, 12, 13, 13]

def missingWord (bytes : ByteArray) (pos : Nat) : Flaw :=
  if pos + 15 > 8 * bytes.size then .truncated else .corrupt

@[inline] def readSymbol (code : PrefixCode) (bytes : ByteArray) (pos : Nat) :
    Except Flaw (Nat × Nat) :=
  match code.read (lowBitAt bytes) pos with
  | none => .error (missingWord bytes pos)
  | some (symbol, next) =>
    if next > 8 * bytes.size then .error .truncated else .ok (symbol, next)

/-- Reads a copy whose length has the given symbol: its length, its distance and the position
after it. -/
def readCopy (distances : PrefixCode) (bytes : ByteArray) (symbol pos : Nat) :
    Except Flaw (Nat × Nat × Nat) := do
  let some base := lengthBase[symbol - 257]? | throw .corrupt
  let extra := lengthExtra.getD (symbol - 257) 0
  let length := base + lowBitsAt bytes pos extra
  let (d, pos) ← readSymbol distances bytes (pos + extra)
  let some base := distanceBase[d]? | throw .corrupt
  let extra := distanceExtra.getD d 0
  if pos + extra > 8 * bytes.size then throw .truncated
  return (length, base + lowBitsAt bytes pos extra, pos + extra)

/-- Decodes symbols up to the end of their block. Output before `base` belongs to other streams
and is not copied from. -/
def symbols (bytes : ByteArray) (base : Nat) (literals distances : PrefixCode) :
    Nat → Nat → ByteArray → Progress
  | 0, pos, out => ⟨pos, out, some .truncated⟩
  | fuel + 1, pos, out =>
    match readSymbol literals bytes pos with
    | .error f => ⟨pos, out, some f⟩
    | .ok (symbol, pos) =>
      if symbol < 256 then
        symbols bytes base literals distances fuel pos (out.push (UInt8.ofNat symbol))
      else if symbol = 256 then ⟨pos, out, none⟩
      else
        match readCopy distances bytes symbol pos with
        | .error f => ⟨pos, out, some f⟩
        | .ok (length, distance, pos) =>
          if distance > out.size - base then ⟨pos, out, some .corrupt⟩
          else symbols bytes base literals distances fuel pos (copyBack distance length out)

def lengthOrder : List Nat := [16, 17, 18, 0, 8, 7, 9, 6, 10, 5, 11, 4, 12, 3, 13, 2, 14, 1, 15]

def readLengths (bytes : ByteArray) (code : PrefixCode) (total : Nat) :
    Nat → Nat → Array Nat → Except Flaw (Array Nat × Nat)
  | 0, _, _ => .error .truncated
  | fuel + 1, pos, lengths =>
    if lengths.size ≥ total then
      if lengths.size = total then .ok (lengths, pos) else .error .corrupt
    else
      match readSymbol code bytes pos with
      | .error f => .error f
      | .ok (symbol, pos) =>
        if symbol < 16 then readLengths bytes code total fuel pos (lengths.push symbol)
        else
          let (width, least) :=
            if symbol = 16 then (2, 3) else if symbol = 17 then (3, 3) else (7, 11)
          if symbol = 16 && lengths.size = 0 then .error .corrupt
          else if pos + width > 8 * bytes.size then .error .truncated
          else
            let value := if symbol = 16 then lengths.getD (lengths.size - 1) 0 else 0
            let run := Array.replicate (least + lowBitsAt bytes pos width) value
            readLengths bytes code total fuel (pos + width) (lengths ++ run)

/-- A code must use all words, unless it has at most one. -/
def usable (code : PrefixCode) : Bool :=
  match code.slack with
  | none => false
  | some left => left = 0 || code.symbols.size ≤ 1

def readCodes (bytes : ByteArray) (pos : Nat) :
    Except Flaw (PrefixCode × PrefixCode × Nat) := do
  if pos + 14 > 8 * bytes.size then throw .truncated
  let literalCount := 257 + lowBitsAt bytes pos 5
  let distanceCount := 1 + lowBitsAt bytes (pos + 5) 5
  let orderCount := 4 + lowBitsAt bytes (pos + 10) 4
  let pos := pos + 14
  if pos + 3 * orderCount > 8 * bytes.size then throw .truncated
  let first := (lengthOrder.take orderCount).zipIdx.foldl
    (fun lengths (symbol, i) => lengths.setIfInBounds symbol (lowBitsAt bytes (pos + 3 * i) 3))
    (Array.replicate 19 0)
  let code := PrefixCode.ofLengths 7 first
  if !usable code then throw .corrupt
  let total := literalCount + distanceCount
  let (lengths, pos) ← readLengths bytes code total (total + 1) (pos + 3 * orderCount) #[]
  let literals := PrefixCode.ofLengths 15 (lengths.extract 0 literalCount)
  let distances := PrefixCode.ofLengths 15 (lengths.extract literalCount total)
  if usable literals && usable distances then return (literals, distances, pos)
  else throw .corrupt

def fixedLiterals : PrefixCode :=
  .ofLengths 15 (Array.replicate 144 8 ++ Array.replicate 112 9 ++ Array.replicate 24 7 ++
    Array.replicate 8 8)

def fixedDistances : PrefixCode := .ofLengths 15 (Array.replicate 30 5)

def stored (bytes : ByteArray) (pos : Nat) (out : ByteArray) : Progress :=
  let start := (pos + 7) / 8
  let length := lowBitsAt bytes (8 * start) 16
  if start + 4 > bytes.size then ⟨pos, out, some .truncated⟩
  else if length + lowBitsAt bytes (8 * start + 16) 16 ≠ 0xffff then ⟨pos, out, some .corrupt⟩
  else
    let data := bytes.extract (start + 4) (start + 4 + length)
    ⟨8 * (start + 4 + length), out ++ data, if data.size = length then none else some .truncated⟩

def block (bytes : ByteArray) (base kind pos : Nat) (out : ByteArray) : Progress :=
  let fuel := 8 * bytes.size + 1 - pos
  if kind = 0 then stored bytes pos out
  else if kind = 1 then symbols bytes base fixedLiterals fixedDistances fuel pos out
  else if kind = 2 then
    match readCodes bytes pos with
    | .error f => ⟨pos, out, some f⟩
    | .ok (literals, distances, pos) => symbols bytes base literals distances fuel pos out
  else ⟨pos, out, some .corrupt⟩

def blocks (bytes : ByteArray) (base : Nat) : Nat → Nat → ByteArray → Progress
  | 0, pos, out => ⟨pos, out, some .truncated⟩
  | fuel + 1, pos, out =>
    if pos + 3 > 8 * bytes.size then ⟨pos, out, some .truncated⟩
    else
      let last := lowBitAt bytes pos = 1
      let p := block bytes base (lowBitsAt bytes (pos + 1) 2) (pos + 3) out
      if last || p.flaw.isSome then p else blocks bytes base fuel p.pos p.out

def stream (bytes : ByteArray) (start : Nat) (out : ByteArray) : Progress :=
  blocks bytes out.size (8 * (bytes.size - start) + 1) (8 * start) out

end Rpm.Compression.Inflate

import Rpm.Compression.Bits
import Rpm.Compression.Crc
import Rpm.Compression.Flaw
import Rpm.Compression.Huffman

/-!
The bzip2 format, most significant bit first.

A stream is a row of blocks. The bytes of a block have their runs shortened, are permuted by
sorting their rotations, and are written as positions in a list that moves each byte it names to
its front, under several prefix codes in turn.
-/

namespace Rpm.Compression.Bzip2

def readBits (bytes : ByteArray) (pos n : Nat) : Except Flaw (Nat × Nat) :=
  if pos + n > 8 * bytes.size then .error .truncated
  else .ok (highBitsAt bytes pos n, pos + n)

def expect (bytes : ByteArray) : List UInt8 → Nat → Except Flaw Nat
  | [], pos => .ok pos
  | b :: rest, pos => do
    let (n, pos) ← readBits bytes pos 8
    if n = b.toNat then expect bytes rest pos else throw .corrupt

/-- The bytes that occur in a block, from the map at a position: one bit for each sixteen bytes,
then one for each byte of those that are marked. -/
def readAlphabet (bytes : ByteArray) (pos : Nat) : Except Flaw (List UInt8 × Nat) := do
  let (groups, pos) ← readBits bytes pos 16
  (List.range 16).foldlM (fun (alphabet, pos) i => do
    if groups >>> (15 - i) % 2 = 0 then return (alphabet, pos)
    let (members, pos) ← readBits bytes pos 16
    let used := (List.range 16).filter fun j => members >>> (15 - j) % 2 = 1
    return (alphabet ++ used.map (fun j => UInt8.ofNat (16 * i + j)), pos)) ([], pos)

def moveToFront {α : Type} : Nat → List α → Option (α × List α)
  | _, [] => none
  | 0, x :: xs => some (x, x :: xs)
  | n + 1, x :: xs =>
    match moveToFront n xs with
    | some (y, y' :: ys) => some (y, y' :: x :: ys)
    | _ => none

def readUnary (bytes : ByteArray) (most : Nat) : Nat → Nat → Nat → Except Flaw (Nat × Nat)
  | 0, _, _ => .error .corrupt
  | fuel + 1, n, pos => do
    let (bit, pos) ← readBits bytes pos 1
    if bit = 0 then return (n, pos)
    if n + 1 ≥ most then throw .corrupt
    readUnary bytes most fuel (n + 1) pos

/-- Reads which code each fifty symbols use. -/
def readSelectors (bytes : ByteArray) (codes : Nat) :
    Nat → List Nat → Array Nat → Nat → Except Flaw (Array Nat × Nat)
  | 0, _, selectors, pos => .ok (selectors, pos)
  | count + 1, order, selectors, pos => do
    let (n, pos) ← readUnary bytes codes (codes + 1) 0 pos
    let some (code, order) := moveToFront n order | throw .corrupt
    readSelectors bytes codes count order (selectors.push code) pos

/-- Reads one code length: steps up and down from the length before. -/
def readLength (bytes : ByteArray) : Nat → Nat → Nat → Except Flaw (Nat × Nat)
  | 0, _, _ => .error .truncated
  | fuel + 1, length, pos => do
    if length < 1 || length > 20 then throw .corrupt
    let (more, pos) ← readBits bytes pos 1
    if more = 0 then return (length, pos)
    let (down, pos) ← readBits bytes pos 1
    readLength bytes fuel (if down = 1 then length - 1 else length + 1) pos

def readLengths (bytes : ByteArray) :
    Nat → Nat → Array Nat → Nat → Except Flaw (Array Nat × Nat)
  | 0, _, lengths, pos => .ok (lengths, pos)
  | count + 1, length, lengths, pos => do
    let (length, pos) ← readLength bytes (8 * bytes.size + 1 - pos) length pos
    readLengths bytes count length (lengths.push length) pos

def readCodes (bytes : ByteArray) (size : Nat) :
    Nat → Array PrefixCode → Nat → Except Flaw (Array PrefixCode × Nat)
  | 0, codes, pos => .ok (codes, pos)
  | count + 1, codes, pos => do
    let (length, pos) ← readBits bytes pos 5
    let (lengths, pos) ← readLengths bytes size length #[] pos
    readCodes bytes size count (codes.push (.ofLengths 20 lengths)) pos

/-- What a block's symbols need: the codes, the code of each fifty, the symbol that ends the
block and the most bytes that it may hold. -/
structure Tables where
  codes : Array PrefixCode
  selectors : Array Nat
  last : Nat
  capacity : Nat

def readSymbol (bytes : ByteArray) (t : Tables) (n pos : Nat) : Except Flaw (Nat × Nat) :=
  match t.selectors[n / 50]? with
  | none => .error .corrupt
  | some selector =>
    match (t.codes.getD selector default).read (highBitAt bytes) pos with
    | none => .error (if pos + 20 > 8 * bytes.size then .truncated else .corrupt)
    | some (symbol, next) =>
      if next > 8 * bytes.size then .error .truncated else .ok (symbol, next)

def pushRun (front : List UInt8) (run : Nat) (out : ByteArray) : ByteArray :=
  if run = 0 then out else out ++ replicateByte run (front.headD 0)

/-- Decodes the symbols of a block to its permuted bytes. The digits of a run so far denote `run`,
and the next one weighs `weight`. -/
def readPermuted (bytes : ByteArray) (t : Tables) :
    Nat → Nat → Nat → List UInt8 → Nat → Nat → ByteArray → Except Flaw (ByteArray × Nat)
  | 0, _, _, _, _, _, _ => .error .truncated
  | fuel + 1, n, pos, order, run, weight, out => do
    let (symbol, pos) ← readSymbol bytes t n pos
    if symbol ≤ 1 then
      if weight ≥ 2 * 1024 * 1024 then throw .corrupt
      readPermuted bytes t fuel (n + 1) pos order (run + (symbol + 1) * weight) (2 * weight) out
    else
      if out.size + run > t.capacity then throw .corrupt
      let out := pushRun order run out
      if symbol = t.last then return (out, pos)
      if out.size ≥ t.capacity then throw .corrupt
      let some (b, order) := moveToFront (symbol - 1) order | throw .corrupt
      readPermuted bytes t fuel (n + 1) pos order 0 1 (out.push b)

def startsOf (permuted : ByteArray) : Array Nat :=
  let counts := permuted.foldl (fun c b => c.setIfInBounds b.toNat (c.getD b.toNat 0 + 1))
    (Array.replicate 256 0)
  (counts.foldl (fun (starts, sum) n => (starts.push sum, sum + n)) (#[], 0)).1

/-- For each row of the sorted rotations, the row of the rotation one byte further on. -/
def successors (permuted : ByteArray) : Array Nat :=
  (permuted.foldl (fun (next, starts, i) b =>
    let row := starts.getD b.toNat 0
    (next.setIfInBounds row i, starts.setIfInBounds b.toNat (row + 1), i + 1))
    (Array.replicate permuted.size 0, startsOf permuted, 0)).1

def unsort (permuted : ByteArray) (next : Array Nat) : Nat → Nat → ByteArray → ByteArray
  | 0, _, out => out
  | count + 1, row, out =>
    unsort permuted next count (next.getD row 0) (out.push (byteAt permuted row))

/-- Lengthens the runs again: after four equal bytes comes the number of further ones. -/
def expandRuns (bytes : ByteArray) (out : ByteArray) : ByteArray :=
  (bytes.foldl (fun (out, last, seen) b =>
    if seen = 4 then (out ++ replicateByte b.toNat last, last, 0)
    else if seen > 0 && b = last then (out.push b, b, seen + 1)
    else (out.push b, b, 1)) (out, (0 : UInt8), (0 : Nat))).1

/-- Where the decoding of a stream stands: the next bit, the output, the check over the blocks,
and the flaw that stopped it. -/
structure Progress where
  pos : Nat
  out : ByteArray
  check : UInt32 := 0
  flaw : Option Flaw := none

/-- Reads a block after its magic number, to its bytes with their runs still shortened, and the
check that is recorded for it. -/
def readBlock (bytes : ByteArray) (capacity pos : Nat) :
    Except Flaw (ByteArray × Nat × Nat) := do
  let (high, pos) ← readBits bytes pos 16
  let (low, pos) ← readBits bytes pos 16
  let (randomised, pos) ← readBits bytes pos 1
  if randomised = 1 then throw .corrupt
  let (origin, pos) ← readBits bytes pos 24
  let (alphabet, pos) ← readAlphabet bytes pos
  if alphabet.isEmpty then throw .corrupt
  let (codeCount, pos) ← readBits bytes pos 3
  if codeCount < 2 || codeCount > 6 then throw .corrupt
  let (selectorCount, pos) ← readBits bytes pos 15
  if selectorCount < 1 then throw .corrupt
  let (selectors, pos) ← readSelectors bytes codeCount selectorCount (List.range codeCount) #[] pos
  let (codes, pos) ← readCodes bytes (alphabet.length + 2) codeCount #[] pos
  let tables : Tables := ⟨codes, selectors, alphabet.length + 1, capacity⟩
  let (permuted, pos) ←
    readPermuted bytes tables (8 * bytes.size + 1 - pos) 0 pos alphabet 0 1 ByteArray.empty
  if origin ≥ permuted.size then throw .corrupt
  let next := successors permuted
  return (unsort permuted next permuted.size (next.getD origin 0) ByteArray.empty,
    65536 * high + low, pos)

def blocks (bytes : ByteArray) (capacity : Nat) : Nat → Progress → Progress
  | 0, p => { p with flaw := some .truncated }
  | fuel + 1, p =>
    if highBitsAt bytes p.pos 8 = 0x17 && p.pos + 8 ≤ 8 * bytes.size then
      let last : Except Flaw Nat := do
        let pos ← expect bytes [0x17, 0x72, 0x45, 0x38, 0x50, 0x90] p.pos
        let (high, pos) ← readBits bytes pos 16
        let (low, pos) ← readBits bytes pos 16
        if 65536 * high + low = p.check.toNat then return pos else throw .corrupt
      match last with
      | .error f => { p with flaw := some f }
      | .ok pos => { p with pos := pos }
    else
      let next : Except Flaw (ByteArray × Nat × Nat) := do
        let pos ← expect bytes [0x31, 0x41, 0x59, 0x26, 0x53, 0x59] p.pos
        readBlock bytes capacity pos
      match next with
      | .error f => { p with flaw := some f }
      | .ok (shortened, check, pos) =>
        let base := p.out.size
        let out := expandRuns shortened p.out
        let found := Crc.crc32High (out.extract base out.size)
        if found.toNat = check then
          let check := ((p.check <<< 1) ||| (p.check >>> 31)) ^^^ found
          blocks bytes capacity fuel ⟨pos, out, check, none⟩
        else ⟨pos, out, p.check, some .corrupt⟩

def streams (bytes : ByteArray) : Nat → Nat → ByteArray → Source
  | 0, _, out => decoded out (some .truncated)
  | fuel + 1, start, out =>
    let header : Except Flaw (Nat × Nat) := do
      let pos ← expect bytes [0x42, 0x5a, 0x68] (8 * start)
      let (level, pos) ← readBits bytes pos 8
      if level < 0x31 || level > 0x39 then throw .corrupt
      return (100000 * (level - 0x30), pos)
    match header with
    | .error f => decoded out (some f)
    | .ok (capacity, pos) =>
      let base := out.size
      let p := blocks bytes capacity (8 * bytes.size) ⟨pos, out, 0, none⟩
      if p.flaw.isSome then
        if p.out.size = base then decoded p.out p.flaw else decodedAhead p.out p.flaw
      else
        let next := (p.pos + 7) / 8
        if next ≥ bytes.size then decoded p.out none else streams bytes fuel next p.out

def decompress (bytes : ByteArray) : Source := streams bytes (bytes.size + 1) 0 ByteArray.empty

def shortenRuns (bytes : ByteArray) : ByteArray :=
  let close := fun (out : ByteArray) (last : UInt8) (seen : Nat) =>
    if seen < 4 then out ++ replicateByte seen last
    else (out ++ replicateByte 4 last).push (UInt8.ofNat (seen - 4))
  let (out, last, seen) := bytes.foldl (fun (out, last, seen) b =>
    if seen > 0 && b = last && seen < 255 then (out, last, seen + 1)
    else (close out last seen, b, 1)) (ByteArray.empty, (0 : UInt8), 0)
  close out last seen

/-- Whether the rotation that starts at `i` comes no later than the one that starts at `j`, seen
from their `count` next bytes. -/
def rotationLe (bytes : ByteArray) : Nat → Nat → Nat → Bool
  | 0, _, _ => true
  | count + 1, i, j =>
    let x := byteAt bytes (i % bytes.size)
    let y := byteAt bytes (j % bytes.size)
    if x = y then rotationLe bytes count (i + 1) (j + 1) else x < y

def sortedRotations (bytes : ByteArray) : List Nat :=
  (List.range bytes.size).mergeSort (rotationLe bytes bytes.size)

/-- The digits of a run length, the ones first: each is one or two, and weighs twice the one
before. -/
def runDigits : Nat → Nat → List Nat
  | 0, _ => []
  | fuel + 1, n => if n = 0 then [] else (n - 1) % 2 :: runDigits fuel ((n - 1) / 2)

def symbolsOf (alphabet : List UInt8) (permuted : List UInt8) : List Nat :=
  let (_, run, symbols) := permuted.foldl (fun (order, run, symbols) b =>
    let i := order.idxOf b
    if i = 0 then (order, run + 1, symbols)
    else (b :: order.erase b, 0, (i + 1) :: (runDigits run run).reverse ++ symbols))
    (alphabet, 0, [])
  ((alphabet.length + 1) :: (runDigits run run).reverse ++ symbols).reverse

def widthFor (size : Nat) : Nat := (List.range 10).find? (fun w => size ≤ 2 ^ w) |>.getD 10

def putBlock (row : BitRow) (data : ByteArray) (check : UInt32) : BitRow :=
  let bytes := shortenRuns data
  let rotations := sortedRotations bytes
  let permuted := rotations.map fun i => byteAt bytes ((i + bytes.size - 1) % bytes.size)
  let alphabet := ((List.range 256).map UInt8.ofNat).filter fun b => permuted.contains b
  let symbols := symbolsOf alphabet permuted
  let width := widthFor (alphabet.length + 2)
  let selectors := (symbols.length + 49) / 50
  let marks := (List.range 16).map fun i => alphabet.any fun b => b.toNat / 16 = i
  let row := [(24, 0x314159), (24, 0x265359), (32, check.toNat), (1, 0),
    (24, rotations.idxOf 0)].foldl (fun row (n, v) => row.put n v) row
  let row := marks.foldl (fun row m => row.put 1 (if m then 1 else 0)) row
  let row := ((List.range 256).filter fun n => marks.getD (n / 16) false).foldl
    (fun row n => row.put 1 (if alphabet.contains (UInt8.ofNat n) then 1 else 0)) row
  let row := ((row.put 3 2).put 15 selectors).put selectors 0
  let row := (List.range 2).foldl (fun row _ => (row.put 5 width).put (alphabet.length + 2) 0) row
  symbols.foldl (fun row s => row.put width s) row

/-- How many bytes go into one block: few, so that sorting their rotations is quick. -/
def blockLength : Nat := 96

def putBlocks (data : ByteArray) : Nat → Nat → UInt32 → BitRow → BitRow
  | 0, _, _, row => row
  | fuel + 1, pos, check, row =>
    if pos ≥ data.size then ((row.put 24 0x177245).put 24 0x385090).put 32 check.toNat
    else
      let chunk := data.extract pos (pos + blockLength)
      let found := Crc.crc32High chunk
      putBlocks data fuel (pos + blockLength) (((check <<< 1) ||| (check >>> 31)) ^^^ found)
        (putBlock row chunk found)

def compress (data : ByteArray) : ByteArray :=
  (putBlocks data (data.size + 1) 0 0 { bytes := ⟨#[0x42, 0x5a, 0x68, 0x39]⟩ }).finish

end Rpm.Compression.Bzip2

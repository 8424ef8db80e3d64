import Rpm.Compression.Fse
import Rpm.Hash.Xxh64

/-!
The Zstandard format: frames of blocks.

A compressed block is a run of literals, prefix coded with weights instead of lengths, and a list
of sequences that say how many literals to take and what to copy from earlier output.
-/

namespace Rpm.Compression.Zstd

/-! ### Literals -/

/-- A prefix code as a table over its longest words: each entry is a symbol and the length of its
word. -/
structure LiteralCode where
  log : Nat
  entries : Array (Nat × Nat)
  deriving Inhabited

/-- The code of symbols with the given weights. A symbol of weight `w > 0` takes `2 ^ (w - 1)`
entries, and lighter ones come first; the last symbol fills the table up. -/
def LiteralCode.ofWeights (weights : List Nat) : Except Flaw LiteralCode := do
  if weights.any (· > 12) then throw .corrupt
  let total : Nat := weights.foldl (fun sum w => sum + 2 ^ w / 2) 0
  if total = 0 then throw .corrupt
  let log := total.log2 + 1
  if log > 12 then throw .corrupt
  let free := 2 ^ log - total
  if 2 ^ free.log2 ≠ free then throw .corrupt
  let weights := weights ++ [free.log2 + 1]
  let lightest := weights.countP (· = 1)
  if lightest < 2 || lightest % 2 = 1 || weights.length > 256 then throw .corrupt
  let entries := (List.range log).foldl (fun entries i =>
    weights.zipIdx.foldl (fun entries (w, symbol) =>
      if w = i + 1 then entries ++ Array.replicate (2 ^ i) (symbol, log - i) else entries) entries)
    #[]
  return ⟨log, entries⟩

/-- Decodes weights from two states in turn, until the row gives out. -/
def weightsFrom (t : FseTable) : Nat → Nat → Nat → BackRow → List Nat → Except Flaw (List Nat)
  | 0, _, _, _, _ => .error .corrupt
  | fuel + 1, i, j, r, weights =>
    let weights := (t.state i).symbol :: weights
    let (i, r) := t.next i r
    if r.overdrawn then .ok ((t.state j).symbol :: weights).reverse
    else weightsFrom t fuel j i r weights

def readCode (bytes : ByteArray) (start stop : Nat) : Except Flaw (LiteralCode × Nat) := do
  if start ≥ stop then throw .corrupt
  let head := (byteAt bytes start).toNat
  if head ≥ 128 then
    let count := head - 127
    let next := start + 1 + (count + 1) / 2
    if next > stop then throw .corrupt
    let weights := (List.range count).map fun i =>
      let b := (byteAt bytes (start + 1 + i / 2)).toNat
      if i % 2 = 0 then b / 16 else b % 16
    return (← LiteralCode.ofWeights weights, next)
  else
    let next := start + 1 + head
    if next > stop then throw .corrupt
    let (t, pos) ← FseTable.readTable bytes (start + 1) next 6 255
    let r ← BackRow.ofRange bytes pos next
    let (i, r) := t.first r
    let (j, r) := t.first r
    if r.overdrawn then throw .corrupt
    let weights ← weightsFrom t 256 i j r []
    return (← LiteralCode.ofWeights weights, next)

def decodeLiterals (code : LiteralCode) : Nat → BackRow → ByteArray → ByteArray × BackRow
  | 0, r, out => (out, r)
  | count + 1, r, out =>
    let (symbol, width) := code.entries.getD (r.bitsBelow r.left code.log) (0, 0)
    decodeLiterals code count
      { r with left := r.left - width, overdrawn := r.overdrawn || r.left < width }
      (out.push (UInt8.ofNat symbol))

def literalRow (code : LiteralCode) (bytes : ByteArray) (start stop count : Nat)
    (out : ByteArray) : Except Flaw ByteArray := do
  let r ← BackRow.ofRange bytes start stop
  let (out, r) := decodeLiterals code count r out
  if r.overdrawn || r.left ≠ 0 then throw .corrupt
  return out

/-- Decodes literals from one row, or from four whose sizes stand in front of them. -/
def literalRows (code : LiteralCode) (bytes : ByteArray) (four : Bool) (start stop count : Nat) :
    Except Flaw ByteArray := do
  if !four then return ← literalRow code bytes start stop count ByteArray.empty
  if start + 6 > stop || count < 6 then throw .corrupt
  let size (i : Nat) := ofLittleEndian (bytes.extract (start + 2 * i) (start + 2 * i + 2))
  let a := start + 6
  let b := a + size 0
  let c := b + size 1
  let d := c + size 2
  if d > stop then throw .corrupt
  let each := (count + 3) / 4
  if 3 * each > count then throw .corrupt
  let out ← literalRow code bytes a b each ByteArray.empty
  let out ← literalRow code bytes b c each out
  let out ← literalRow code bytes c d each out
  literalRow code bytes d stop (count - 3 * each) out

/-! ### Sequences -/

structure Tables where
  literals : FseTable
  offsets : FseTable
  copies : FseTable

/-- What a block may rely on from the blocks before it: the literal code, the tables and the last
three offsets. -/
structure Memory where
  code : Option LiteralCode := none
  literals : Option FseTable := none
  offsets : Option FseTable := none
  copies : Option FseTable := none
  recent : Nat × Nat × Nat := (1, 4, 8)

def literalShares : Array Int := #[
  4, 3, 2, 2, 2, 2, 2, 2, 2, 2, 2, 2, 2, 1, 1, 1, 2, 2, 2, 2, 2, 2, 2, 2, 2, 3, 2, 1, 1, 1, 1, 1,
  -1, -1, -1, -1]

def copyShares : Array Int := #[
  1, 4, 3, 2, 2, 2, 2, 2, 2, 1, 1, 1, 1, 1, 1, 1, 1, 1, 1, 1, 1, 1, 1, 1, 1, 1, 1, 1, 1, 1, 1, 1,
  1, 1, 1, 1, 1, 1, 1, 1, 1, 1, 1, 1, 1, 1, -1, -1, -1, -1, -1, -1, -1]

def offsetShares : Array Int := #[
  1, 1, 1, 1, 1, 1, 2, 2, 2, 1, 1, 1, 1, 1, 1, 1, 1, 1, 1, 1, 1, 1, 1, 1, -1, -1, -1, -1, -1]

def literalBase : Array (Nat × Nat) := #[
  (16, 1), (18, 1), (20, 1), (22, 1), (24, 2), (28, 2), (32, 3), (40, 3), (48, 4), (64, 6),
  (128, 7), (256, 8), (512, 9), (1024, 10), (2048, 11), (4096, 12), (8192, 13), (16384, 14),
  (32768, 15), (65536, 16)]

def copyBase : Array (Nat × Nat) := #[
  (35, 1), (37, 1), (39, 1), (41, 1), (43, 2), (47, 2), (51, 3), (59, 3), (67, 4), (83, 4), (99, 5),
  (131, 7), (259, 8), (515, 9), (1027, 10), (2051, 11), (4099, 12), (8195, 13), (16387, 14),
  (32771, 15), (65539, 16)]

/-- Reads one of the three tables as its two mode bits say: the shares that every decoder knows, a
single symbol, a description, or the table of the block before. -/
def readTable (bytes : ByteArray) (stop mode mostLog mostSymbol standardLog : Nat)
    (standard : Array Int) (before : Option FseTable) (pos : Nat) :
    Except Flaw (FseTable × Nat) :=
  match mode with
  | 0 => .ok (.ofShares standardLog standard, pos)
  | 1 =>
    if pos ≥ stop || (byteAt bytes pos).toNat > mostSymbol then .error .corrupt
    else .ok (.single (byteAt bytes pos).toNat, pos + 1)
  | 2 => FseTable.readTable bytes pos stop mostLog mostSymbol
  | _ =>
    match before with
    | none => .error .corrupt
    | some t => .ok (t, pos)

def resolveOffset (value literals : Nat) (recent : Nat × Nat × Nat) : Nat × (Nat × Nat × Nat) :=
  let (a, b, c) := recent
  if value > 3 then (value - 3, (value - 3, a, b))
  else
    match value + (if literals = 0 then 1 else 0) with
    | 1 => (a, recent)
    | 2 => (b, (b, a, c))
    | 3 => (c, (c, a, b))
    | _ => (a - 1, (a - 1, a, b))

/-- Decodes and carries out the sequences of a block. `i`, `j` and `k` are the states of literal
counts, offsets and copy lengths, and `used` the literals taken so far. -/
def runSequences (t : Tables) (base : Nat) (literals : ByteArray) :
    Nat → Nat → Nat → Nat → BackRow → Nat → (Nat × Nat × Nat) → ByteArray →
    Except Flaw (ByteArray × (Nat × Nat × Nat))
  | 0, _, _, _, r, used, recent, out =>
    if r.overdrawn || r.left ≠ 0 then .error .corrupt
    else .ok (out ++ literals.extract used literals.size, recent)
  | count + 1, i, j, k, r, used, recent, out =>
    let offsetWidth := (t.offsets.state j).symbol
    let copySymbol := (t.copies.state k).symbol
    let literalSymbol := (t.literals.state i).symbol
    let (v, r) := r.readLong offsetWidth
    let value := 2 ^ offsetWidth + v
    let (copyStart, copyWidth) :=
      if copySymbol < 32 then (copySymbol + 3, 0) else copyBase.getD (copySymbol - 32) (0, 0)
    let (v, r) := r.read copyWidth
    let length := copyStart + v
    let (literalStart, literalWidth) :=
      if literalSymbol < 16 then (literalSymbol, 0)
      else literalBase.getD (literalSymbol - 16) (0, 0)
    let (v, r) := r.read literalWidth
    let taken := literalStart + v
    let (i, j, k, r) :=
      if count = 0 then (i, j, k, r)
      else
        let (i, r) := t.literals.next i r
        let (k, r) := t.copies.next k r
        let (j, r) := t.offsets.next j r
        (i, j, k, r)
    let (offset, recent) := resolveOffset value taken recent
    if used + taken > literals.size then .error .corrupt
    else
      let out := out ++ literals.extract used (used + taken)
      if offset = 0 || offset > out.size - base then .error .corrupt
      else
        runSequences t base literals count i j k r (used + taken) recent
          (copyBack offset length out)

/-! ### Blocks -/

def readLiterals (bytes : ByteArray) (start stop most : Nat) (m : Memory) :
    Except Flaw (ByteArray × Memory × Nat) := do
  if start + 2 > stop then throw .corrupt
  let head := (byteAt bytes start).toNat
  let format := head / 4 % 4
  let number (n : Nat) := ofLittleEndian (bytes.extract start (start + n))
  if head % 4 < 2 then
    let (width, count) :=
      if format % 2 = 0 then (1, head / 8)
      else if format = 1 then (2, number 2 / 16) else (3, number 3 / 16)
    let data := start + width
    if data > stop || count > most then throw .corrupt
    if head % 4 = 0 then
      if data + count > stop then throw .corrupt
      return (bytes.extract data (data + count), m, data + count)
    if data ≥ stop then throw .corrupt
    return (replicateByte count (byteAt bytes data), m, data + 1)
  let (width, count, packed) :=
    if format < 2 then (3, number 3 / 16 % 1024, number 3 / 2 ^ 14)
    else if format = 2 then (4, number 4 / 16 % 16384, number 4 / 2 ^ 18)
    else (5, number 5 / 16 % 2 ^ 18, number 5 / 2 ^ 22)
  let data := start + width
  let next := data + packed
  if next > stop || count > most then throw .corrupt
  let (code, row) ←
    if head % 4 = 2 then readCode bytes data next
    else
      match m.code with
      | none => throw .corrupt
      | some code => pure (code, data)
  let literals ← literalRows code bytes (format ≠ 0) row next count
  return (literals, { m with code := some code }, next)

def compressedBlock (bytes : ByteArray) (base start stop most : Nat) (m : Memory)
    (out : ByteArray) : Except Flaw (ByteArray × Memory) := do
  let (literals, m, pos) ← readLiterals bytes start stop most m
  if pos ≥ stop then throw .corrupt
  let head := (byteAt bytes pos).toNat
  let (width, count) :=
    if head < 128 then (1, head)
    else if head < 255 then (2, (head - 128) * 256 + (byteAt bytes (pos + 1)).toNat)
    else (3, ofLittleEndian (bytes.extract (pos + 1) (pos + 3)) + 0x7f00)
  let pos := pos + width
  if pos > stop then throw .corrupt
  if count = 0 then
    if pos ≠ stop then throw .corrupt
    return (out ++ literals, m)
  if pos ≥ stop then throw .corrupt
  let modes := (byteAt bytes pos).toNat
  if modes % 4 ≠ 0 then throw .corrupt
  let (literalTable, pos) ←
    readTable bytes stop (modes / 64) 9 35 6 literalShares m.literals (pos + 1)
  let (offsetTable, pos) ← readTable bytes stop (modes / 16 % 4) 8 31 5 offsetShares m.offsets pos
  let (copyTable, pos) ← readTable bytes stop (modes / 4 % 4) 9 52 6 copyShares m.copies pos
  let r ← BackRow.ofRange bytes pos stop
  let (i, r) := literalTable.first r
  let (j, r) := offsetTable.first r
  let (k, r) := copyTable.first r
  let m := { m with
    literals := some literalTable, offsets := some offsetTable, copies := some copyTable }
  let before := out.size
  let (out, recent) ←
    runSequences ⟨literalTable, offsetTable, copyTable⟩ base literals count i j k r 0 m.recent out
  if out.size - before > most then throw .corrupt
  return (out, { m with recent := recent })

structure Progress where
  pos : Nat
  out : ByteArray
  flaw : Option Flaw := none

def blocks (bytes : ByteArray) (base most : Nat) : Nat → Nat → Memory → ByteArray → Progress
  | 0, pos, _, out => ⟨pos, out, some .truncated⟩
  | fuel + 1, pos, m, out =>
    if pos + 3 > bytes.size then ⟨pos, out, some .truncated⟩
    else
      let head := ofLittleEndian (bytes.extract pos (pos + 3))
      let last := head % 2 = 1
      let kind := head / 2 % 4
      let size := head / 8
      let start := pos + 3
      let stop := start + (if kind = 1 then 1 else size)
      if kind = 3 || size > most then ⟨pos, out, some .corrupt⟩
      else if stop > bytes.size then ⟨pos, out, some .truncated⟩
      else if kind = 2 then
        -- the output so far is kept for the case that the block is corrupt
        match compressedBlock bytes base start stop most m out with
        | .error f => ⟨pos, out, some f⟩
        | .ok (out, m) => if last then ⟨stop, out, none⟩ else blocks bytes base most fuel stop m out
      else
        let out :=
          if kind = 0 then out ++ bytes.extract start stop
          else out ++ replicateByte size (byteAt bytes start)
        if last then ⟨stop, out, none⟩ else blocks bytes base most fuel stop m out

structure FrameHeader where
  size : Nat
  window : Nat
  content : Option Nat
  checked : Bool

/-- Reads the frame header at a position, after the magic number. Windows beyond two gigabytes and
dictionaries are refused. -/
def readHeader (bytes : ByteArray) (start : Nat) : Except Flaw FrameHeader := do
  if start ≥ bytes.size then throw .truncated
  let head := (byteAt bytes start).toNat
  let single := head / 32 % 2 = 1
  let windowSize := if single then 0 else 1
  let dictionarySize := #[0, 1, 2, 4].getD (head % 4) 0
  let contentSize := if head / 64 = 0 then (if single then 1 else 0) else 2 ^ (head / 64)
  let size := 1 + windowSize + dictionarySize + contentSize
  if start + size > bytes.size then throw .truncated
  if head / 8 % 2 = 1 then throw .corrupt
  let w := (byteAt bytes (start + 1)).toNat
  let dictionary := start + 1 + windowSize
  let content := dictionary + dictionarySize
  if ofLittleEndian (bytes.extract dictionary content) ≠ 0 then throw .corrupt
  let recorded := ofLittleEndian (bytes.extract content (content + contentSize))
  let length? :=
    if contentSize = 0 then none
    else some (if contentSize = 2 then recorded + 256 else recorded)
  let window := if single then length?.getD 0 else 2 ^ (10 + w / 8) + 2 ^ (10 + w / 8) / 8 * (w % 8)
  if window > 2 ^ 31 then throw .corrupt
  return ⟨size, window, length?, head / 4 % 2 = 1⟩

def frame (bytes : ByteArray) (start : Nat) (out : ByteArray) : Progress :=
  match readHeader bytes start with
  | .error f => ⟨start, out, some f⟩
  | .ok h =>
    let base := out.size
    let most := min h.window 131072
    let p := blocks bytes base most (bytes.size + 1) (start + h.size) {} out
    if p.flaw.isSome then p
    else if h.content.any (· ≠ p.out.size - base) then { p with flaw := some .corrupt }
    else if !h.checked then p
    else if p.pos + 4 > bytes.size then { p with flaw := some .truncated }
    else
      let recorded := ofLittleEndian (bytes.extract p.pos (p.pos + 4))
      let found := (Hash.Xxh64.hash (p.out.extract base p.out.size)).toNat % 2 ^ 32
      if recorded = found then { p with pos := p.pos + 4 } else { p with flaw := some .corrupt }

def beginsLikeFrame (bytes : ByteArray) (pos : Nat) : Bool :=
  let given := bytes.extract pos (pos + 4)
  let agrees (magic : ByteArray) := given = magic.extract 0 given.size
  agrees (littleEndian 4 0xfd2fb528) ||
    (List.range 16).any fun i => agrees (littleEndian 4 (0x184d2a50 + i))

def frames (bytes : ByteArray) : Nat → Nat → ByteArray → Source
  | 0, _, out => decoded out (some .truncated)
  | fuel + 1, pos, out =>
    let magic := ofLittleEndian (bytes.extract pos (pos + 4))
    if !beginsLikeFrame bytes pos then decoded out (some .corrupt)
    else if pos + 5 > bytes.size then decoded out (some .truncated)
    else if magic = 0xfd2fb528 then
      let base := out.size
      let p := frame bytes (pos + 4) out
      if p.flaw.isSome then
        if p.out.size = base then decoded p.out p.flaw else decodedAhead p.out p.flaw
      else if p.pos = bytes.size then decoded p.out none
      else frames bytes fuel p.pos p.out
    else
      let next := pos + 8 + ofLittleEndian (bytes.extract (pos + 4) (pos + 8))
      if next > bytes.size then decoded out (some .truncated)
      else if next = bytes.size then decoded out none
      else frames bytes fuel next out

def decompress (bytes : ByteArray) : Source := frames bytes (bytes.size + 1) 0 ByteArray.empty

def rawBlocks (data : ByteArray) : Nat → Nat → ByteArray → ByteArray
  | 0, _, out => out
  | fuel + 1, pos, out =>
    let next := pos + 131072
    let last := next ≥ data.size
    let chunk := data.extract pos next
    let out := out ++ littleEndian 3 (8 * chunk.size + (if last then 1 else 0)) ++ chunk
    if last then out else rawBlocks data fuel next out

def compress (data : ByteArray) : ByteArray :=
  rawBlocks data (data.size + 1) 0 (littleEndian 4 0xfd2fb528 ++ ⟨#[0, 0x38]⟩)

end Rpm.Compression.Zstd

import Rpm.Compression.Crc
import Rpm.Compression.Lzma
import Rpm.Hash.Sha256

/-!
The xz format: streams of blocks, each a chain of filters over LZMA2 data and a check of what it
holds, with an index of the blocks at the end.
-/

namespace Rpm.Compression.Xz

/-- A flaw, and whether it was met while looking past bytes that had not been handed out. -/
structure Break where
  flaw : Flaw
  ahead : Bool := true

/-! ### LZMA2 -/

/-- What the next chunk may rely on: the parameters and probabilities in force, and where the
dictionary starts, once a chunk has set them. -/
structure Chunks where
  pos : Nat
  out : ByteArray
  properties : Option Lzma.Properties := none
  state : Option Lzma.State := none
  base : Option Nat := none
  stopped : Option Break := none

def Chunks.stop (c : Chunks) (flaw : Flaw) (ahead : Bool := true) : Chunks :=
  { c with stopped := some ⟨flaw, ahead⟩ }

def storedChunk (bytes : ByteArray) (c : Chunks) : Chunks :=
  if c.pos + 2 > bytes.size then c.stop .truncated
  else
    let size := ofBigEndian (bytes.extract c.pos (c.pos + 2)) + 1
    let start := c.pos + 2
    let data := bytes.extract start (start + size)
    let c := { c with out := c.out ++ data, pos := start + size }
    if data.size < size then c.stop .truncated else c

def symbolChunk (bytes : ByteArray) (control base : Nat) (c : Chunks) : Chunks :=
  if c.pos + 4 > bytes.size then c.stop .truncated
  else
    let size := 65536 * (control % 32) + ofBigEndian (bytes.extract c.pos (c.pos + 2)) + 1
    let packed := ofBigEndian (bytes.extract (c.pos + 2) (c.pos + 4)) + 1
    let start := c.pos + 4
    let given := if control ≥ 0xc0 then 1 else 0
    let properties :=
      if given = 1 then Lzma.Properties.ofByte? (byteAt bytes start).toNat else c.properties
    if start + given > bytes.size then c.stop .truncated
    else
      match properties with
      | none => c.stop .corrupt
      | some p =>
        let start := start + given
        let fresh := control ≥ 0xa0 || c.state.isNone
        if packed < 5 then c.stop .corrupt
        else if start < bytes.size && byteAt bytes start ≠ 0 then c.stop .corrupt
        else if start + 5 > bytes.size then c.stop .truncated
        else
          let s : Lzma.State :=
            match fresh, c.state with
            | false, some s => { s with decoder := .start bytes start s.decoder.probs }
            | _, _ => { decoder := .start bytes start (Lzma.freshProbs p) }
          let limit := min bytes.size (start + packed)
          let c := { c with state := none }
          let r := Lzma.decode bytes limit p base (some (c.out.size + size)) (size + 1) s c.out
          let c := { c with
            out := r.out, pos := start + packed, properties := some p, state := some r.state }
          match r.flaw with
          | some .truncated =>
            c.stop (if start + packed ≤ bytes.size then .corrupt else .truncated) false
          | some .corrupt => c.stop .corrupt false
          | none => if r.state.decoder.pos = start + packed then c else c.stop .corrupt false

def chunks (bytes : ByteArray) : Nat → Chunks → Chunks
  | 0, c => c.stop .truncated
  | fuel + 1, c =>
    if c.pos ≥ bytes.size then c.stop .truncated
    else
      let control := (byteAt bytes c.pos).toNat
      let c := { c with pos := c.pos + 1 }
      if control = 0 then c
      else
        let c :=
          if control ≥ 0xe0 || control = 1 then
            { c with base := some c.out.size, properties := none }
          else c
        match c.base with
        | none => c.stop .corrupt
        | some base =>
          if control ≥ 0x80 then
            let c := symbolChunk bytes control base c
            if c.stopped.isSome then c else chunks bytes fuel c
          else if control > 2 then c.stop .corrupt
          else
            let c := storedChunk bytes c
            if c.stopped.isSome then c else chunks bytes fuel c

/-! ### Numbers, checks and filters -/

/-- Reads a number of seven bits a byte, low bits first, in at most nine bytes and as few as
possible. -/
def readNumber (bytes : ByteArray) (limit : Nat) : Nat → Nat → Nat → Nat → Except Flaw (Nat × Nat)
  | 0, _, _, _ => .error .corrupt
  | fuel + 1, shift, v, pos =>
    if pos ≥ limit then .error .truncated
    else
      let b := (byteAt bytes pos).toNat
      let v := v + b % 128 * 2 ^ shift
      if b ≥ 128 then readNumber bytes limit fuel (shift + 7) v (pos + 1)
      else if b = 0 && shift > 0 then .error .corrupt
      else .ok (v, pos + 1)

def checkSize (id : Nat) : Nat :=
  #[0, 4, 4, 4, 8, 8, 8, 16, 16, 16, 32, 32, 32, 64, 64, 64].getD id 0

def check? (id : Nat) (content : ByteArray) : Option ByteArray :=
  match id with
  | 0 => some ByteArray.empty
  | 1 => some (littleEndian 4 (Crc.crc32 content).toNat)
  | 4 => some (littleEndian 8 (Crc.crc64 content).toNat)
  | 10 => some (Hash.Sha256.digest content)
  | _ => none

/-- Bytes that each were stored as the difference from the one `distance` places before. -/
def undoDelta (distance : Nat) (data : ByteArray) : ByteArray :=
  data.foldl (fun out b =>
    out.push (b + if out.size < distance then 0 else byteAt out (out.size - distance)))
    ByteArray.empty

/-- Reads the filters of a block: the distances of the delta filters in front of LZMA2. -/
def readFilters (bytes : ByteArray) (limit : Nat) : Nat → Nat → Except Flaw (List Nat × Nat)
  | 0, _ => .error .corrupt
  | count + 1, pos => do
    let (id, pos) ← readNumber bytes limit 9 0 0 pos
    let (size, pos) ← readNumber bytes limit 9 0 0 pos
    if size ≠ 1 || pos + 1 > limit then throw .corrupt
    if id = 0x21 then
      if count ≠ 0 || byteAt bytes pos > 40 then throw .corrupt
      return ([], pos + 1)
    if id ≠ 3 then throw .corrupt
    let (rest, next) ← readFilters bytes limit count (pos + 1)
    return (((byteAt bytes pos).toNat + 1) :: rest, next)

/-! ### Blocks, index and streams -/

structure BlockHeader where
  size : Nat
  packed : Option Nat
  unpacked : Option Nat
  deltas : List Nat

def readSize (bytes : ByteArray) (limit : Nat) (present : Bool) (pos : Nat) :
    Except Flaw (Option Nat × Nat) := do
  if !present then return (none, pos)
  let (n, pos) ← readNumber bytes limit 9 0 0 pos
  return (some n, pos)

def readBlockHeader (bytes : ByteArray) (start : Nat) : Except Flaw BlockHeader := do
  let size := 4 * (byteAt bytes start).toNat + 4
  if start + size > bytes.size then throw .truncated
  let limit := start + size - 4
  let recorded := ofLittleEndian (bytes.extract limit (limit + 4))
  if recorded ≠ (Crc.crc32 (bytes.extract start limit)).toNat then throw .corrupt
  let flags := (byteAt bytes (start + 1)).toNat
  if flags / 4 % 16 ≠ 0 then throw .corrupt
  let inside (r : Except Flaw (Option Nat × Nat)) := r.mapError fun _ => Flaw.corrupt
  let (packed, pos) ← inside (readSize bytes limit (flags / 64 % 2 = 1) (start + 2))
  let (unpacked, pos) ← inside (readSize bytes limit (flags / 128 = 1) pos)
  if packed = some 0 then throw .corrupt
  let (deltas, pos) ← (readFilters bytes limit (flags % 4 + 1) pos).mapError fun _ => Flaw.corrupt
  if (List.range (limit - pos)).any fun i => byteAt bytes (pos + i) ≠ 0 then throw .corrupt
  return ⟨size, packed, unpacked, deltas⟩

structure Progress where
  pos : Nat
  out : ByteArray
  /-- The unpadded and the unpacked size of each block, the last one first. -/
  records : List (Nat × Nat) := []
  stopped : Option Break := none

def Progress.stop (p : Progress) (flaw : Flaw) (ahead : Bool := true) : Progress :=
  { p with stopped := some ⟨flaw, ahead⟩ }

def closeBlock (bytes : ByteArray) (checkId start dataEnd : Nat) (h : BlockHeader)
    (content : ByteArray) (p : Progress) : Progress :=
  let packed := dataEnd - start - h.size
  let padded := (dataEnd + 3) / 4 * 4
  let checkEnd := padded + checkSize checkId
  let recorded := bytes.extract padded checkEnd
  let sizesAgree := h.packed.all (· = packed) && h.unpacked.all (· = content.size)
  let paddingIsZero := (List.range (padded - dataEnd)).all fun i => byteAt bytes (dataEnd + i) = 0
  if !sizesAgree || !paddingIsZero then p.stop .corrupt
  else if checkEnd > bytes.size then p.stop .truncated
  else if (check? checkId content).all (· = recorded) then
    { p with
      pos := checkEnd
      records := (h.size + packed + checkSize checkId, content.size) :: p.records }
  else p.stop .corrupt

def block (bytes : ByteArray) (checkId : Nat) (p : Progress) : Progress :=
  match readBlockHeader bytes p.pos with
  | .error f => p.stop f
  | .ok h =>
    let start := p.pos
    let c := chunks bytes (bytes.size + 1) { pos := start + h.size, out := ByteArray.empty }
    let content := h.deltas.foldr undoDelta c.out
    let p := { p with out := p.out ++ content }
    match c.stopped with
    | some stopped => { p with stopped := some stopped }
    | none => closeBlock bytes checkId start c.pos h content p

/-- Reads the records of an index and compares them with the blocks. -/
def readRecords (bytes : ByteArray) : List (Nat × Nat) → Nat → Except Flaw Nat
  | [], pos => .ok pos
  | (unpadded, unpacked) :: rest, pos => do
    let (a, pos) ← readNumber bytes bytes.size 9 0 0 pos
    let (b, pos) ← readNumber bytes bytes.size 9 0 0 pos
    if a = unpadded && b = unpacked then readRecords bytes rest pos else throw .corrupt

def readIndex (bytes : ByteArray) (flags : ByteArray) (records : List (Nat × Nat)) (start : Nat) :
    Except Flaw Nat := do
  let (count, pos) ← readNumber bytes bytes.size 9 0 0 (start + 1)
  if count ≠ records.length then throw .corrupt
  let pos ← readRecords bytes records pos
  let padded := start + (pos - start + 3) / 4 * 4
  if padded + 4 > bytes.size then throw .truncated
  if (List.range (padded - pos)).any fun i => byteAt bytes (pos + i) ≠ 0 then throw .corrupt
  let recorded := ofLittleEndian (bytes.extract padded (padded + 4))
  if recorded ≠ (Crc.crc32 (bytes.extract start padded)).toNat then throw .corrupt
  let footer := padded + 4
  if footer + 12 > bytes.size then throw .truncated
  let tail := bytes.extract (footer + 4) (footer + 10)
  if (bytes.extract (footer + 10) (footer + 12)).data ≠ #[0x59, 0x5a] then throw .corrupt
  if ofLittleEndian (bytes.extract footer (footer + 4)) ≠ (Crc.crc32 tail).toNat then throw .corrupt
  if tail.extract 4 6 ≠ flags then throw .corrupt
  if 4 * (ofLittleEndian (tail.extract 0 4) + 1) ≠ padded + 4 - start then throw .corrupt
  return footer + 12

def blocks (bytes : ByteArray) (flags : ByteArray) : Nat → Progress → Progress
  | 0, p => p.stop .truncated
  | fuel + 1, p =>
    if p.pos ≥ bytes.size then p.stop .truncated
    else if byteAt bytes p.pos = 0 then
      match readIndex bytes flags p.records.reverse p.pos with
      | .error f => p.stop f
      | .ok pos => { p with pos := pos }
    else
      let p := block bytes (byteAt flags 1).toNat p
      if p.stopped.isSome then p else blocks bytes flags fuel p

def readHeader (bytes : ByteArray) (start : Nat) : Except Flaw ByteArray := do
  if start + 12 > bytes.size then throw .truncated
  if (bytes.extract start (start + 6)).data ≠ #[0xfd, 0x37, 0x7a, 0x58, 0x5a, 0] then throw .corrupt
  let flags := bytes.extract (start + 6) (start + 8)
  let recorded := ofLittleEndian (bytes.extract (start + 8) (start + 12))
  if recorded ≠ (Crc.crc32 flags).toNat then throw .corrupt
  if byteAt flags 0 ≠ 0 || byteAt flags 1 ≥ 16 then throw .corrupt
  return flags

def zerosFrom (bytes : ByteArray) : Nat → Nat → Nat
  | 0, _ => 0
  | fuel + 1, pos =>
    if pos < bytes.size && byteAt bytes pos = 0 then zerosFrom bytes fuel (pos + 1) + 1 else 0

/-- Decodes streams, with multiples of four zero bytes after each, up to the end of the data. -/
def streams (bytes : ByteArray) : Nat → Progress → Progress
  | 0, p => p.stop .truncated
  | fuel + 1, p =>
    match readHeader bytes p.pos with
    | .error f => p.stop f
    | .ok flags =>
      let p := blocks bytes flags (bytes.size + 1) { p with pos := p.pos + 12, records := [] }
      if p.stopped.isSome then p
      else
        let zeros := zerosFrom bytes (bytes.size - p.pos) p.pos
        if zeros % 4 ≠ 0 then p.stop .corrupt
        else if p.pos + zeros = bytes.size then p
        else streams bytes fuel { p with pos := p.pos + zeros }

/-- The source of what xz data stands for. Data that does not begin like an xz stream is taken
for a stand-alone LZMA stream, which nothing may follow. -/
def decompress (bytes : ByteArray) : Source :=
  if bytes.size > 0 && byteAt bytes 0 ≠ 0xfd then Lzma.decompress true bytes
  else
    let p := streams bytes (bytes.size + 1) { pos := 0, out := ByteArray.empty }
    match p.stopped with
    | none => decoded p.out none
    | some ⟨flaw, true⟩ => decodedAhead p.out (some flaw)
    | some ⟨flaw, false⟩ => decoded p.out (some flaw)

/-! ### Writing -/

def number : Nat → Nat → ByteArray
  | 0, _ => ByteArray.empty
  | fuel + 1, n =>
    if n < 128 then littleEndian 1 n else littleEndian 1 (128 + n % 128) ++ number fuel (n / 128)

def padded (bytes : ByteArray) : ByteArray :=
  bytes ++ replicateByte ((4 - bytes.size % 4) % 4) 0

def checked (bytes : ByteArray) : ByteArray := bytes ++ littleEndian 4 (Crc.crc32 bytes).toNat

def storedChunks (data : ByteArray) : Nat → Nat → ByteArray → ByteArray
  | 0, _, out => out
  | fuel + 1, pos, out =>
    if pos ≥ data.size then out.push 0
    else
      let chunk := data.extract pos (pos + 65536)
      storedChunks data fuel (pos + 65536)
        (out ++ littleEndian 1 (if pos = 0 then 1 else 2) ++ bigEndian 2 (chunk.size - 1) ++ chunk)

def compress (data : ByteArray) : ByteArray :=
  let flags : ByteArray := ⟨#[0, 1]⟩
  let header : ByteArray := ⟨#[0xfd, 0x37, 0x7a, 0x58, 0x5a, 0]⟩ ++ checked flags
  let blockHeader := checked ⟨#[2, 0, 0x21, 1, 22, 0, 0, 0]⟩
  let packed := storedChunks data (data.size + 1) 0 ByteArray.empty
  let check := littleEndian 4 (Crc.crc32 data).toNat
  let block := if data.size = 0 then ByteArray.empty else blockHeader ++ padded packed ++ check
  let record :=
    if data.size = 0 then number 9 0
    else number 9 1 ++ number 9 (blockHeader.size + packed.size + 4) ++ number 9 data.size
  let index := checked (padded (littleEndian 1 0 ++ record))
  let tail := littleEndian 4 (index.size / 4 - 1) ++ flags
  header ++ block ++ index ++ littleEndian 4 (Crc.crc32 tail).toNat ++ tail ++ ⟨#[0x59, 0x5a]⟩

end Rpm.Compression.Xz

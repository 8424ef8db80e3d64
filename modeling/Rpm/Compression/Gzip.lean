import Rpm.Compression.Crc
import Rpm.Compression.Inflate

/-!
The gzip format: members, each a header, a deflate stream, and a check of what it holds.

Whatever follows a member has to be another member.
-/

namespace Rpm.Compression.Gzip

/-- Header fields longer than this are refused. -/
def longestField : Nat := 65535

def skipField (bytes : ByteArray) (start : Nat) : Nat → Nat → Except Flaw Nat
  | 0, _ => .error .truncated
  | fuel + 1, pos =>
    if pos ≥ bytes.size then .error .truncated
    else if byteAt bytes pos = 0 then .ok (pos + 1)
    else if pos - start ≥ longestField then .error .corrupt
    else skipField bytes start fuel (pos + 1)

def skipHeader (bytes : ByteArray) (start : Nat) : Except Flaw Nat := do
  if start + 10 > bytes.size then throw .truncated
  if byteAt bytes start ≠ 0x1f || byteAt bytes (start + 1) ≠ 0x8b then throw .corrupt
  if byteAt bytes (start + 2) ≠ 8 then throw .corrupt
  let flags := byteAt bytes (start + 3)
  if flags &&& 0xe0 ≠ 0 then throw .corrupt
  let mut pos := start + 10
  if flags &&& 4 ≠ 0 then
    if pos + 2 > bytes.size then throw .truncated
    pos := pos + 2 + ofLittleEndian (bytes.extract pos (pos + 2))
    if pos > bytes.size then throw .truncated
  if flags &&& 8 ≠ 0 then pos ← skipField bytes pos (bytes.size + 1 - pos) pos
  if flags &&& 16 ≠ 0 then pos ← skipField bytes pos (bytes.size + 1 - pos) pos
  if flags &&& 2 ≠ 0 then
    if pos + 2 > bytes.size then throw .truncated
    let check := (Crc.crc32 (bytes.extract start pos)).toNat % 65536
    if ofLittleEndian (bytes.extract pos (pos + 2)) ≠ check then throw .corrupt
    pos := pos + 2
  return pos

/-- The output of a member in which corruption was found: it is handed out a window at a time,
and the window with the corruption is not. -/
def wholeWindows (base : Nat) (out : ByteArray) : ByteArray :=
  out.extract 0 (base + (out.size - base) / 32768 * 32768)

def member (bytes : ByteArray) (start : Nat) (out : ByteArray) : Inflate.Progress :=
  match skipHeader bytes start with
  | .error f => ⟨start, out, some f⟩
  | .ok body =>
    let base := out.size
    let p := Inflate.stream bytes body out
    match p.flaw with
    | some .corrupt => { p with out := wholeWindows base p.out }
    | some .truncated => p
    | none =>
      let pos := (p.pos + 7) / 8
      if pos + 8 > bytes.size then { p with flaw := some .truncated }
      else
        let content := p.out.extract base p.out.size
        let agrees := ofLittleEndian (bytes.extract pos (pos + 4)) = (Crc.crc32 content).toNat &&
          ofLittleEndian (bytes.extract (pos + 4) (pos + 8)) = content.size % 2 ^ 32
        { p with pos := pos + 8, flaw := if agrees then none else some .corrupt }

def members (bytes : ByteArray) : Nat → Nat → ByteArray → Source
  | 0, _, out => decoded out (some .truncated)
  | fuel + 1, start, out =>
    let p := member bytes start out
    if p.flaw.isSome then decoded p.out p.flaw
    else if p.pos = bytes.size then decoded p.out none
    else members bytes fuel p.pos p.out

def decompress (bytes : ByteArray) : Source := members bytes (bytes.size + 1) 0 ByteArray.empty

def storedBlock (last : Bool) (data : ByteArray) : ByteArray :=
  (ByteArray.empty.push (if last then 1 else 0)) ++ littleEndian 2 data.size ++
    littleEndian 2 (0xffff - data.size) ++ data

def storedBlocks (data : ByteArray) : Nat → Nat → ByteArray → ByteArray
  | 0, _, out => out
  | fuel + 1, pos, out =>
    let next := pos + 0xffff
    if next ≥ data.size then out ++ storedBlock true (data.extract pos data.size)
    else storedBlocks data fuel next (out ++ storedBlock false (data.extract pos next))

/-- One member that holds the data in stored blocks. -/
def compress (data : ByteArray) : ByteArray :=
  let header : ByteArray := ⟨#[0x1f, 0x8b, 8, 0, 0, 0, 0, 0, 0, 0xff]⟩
  storedBlocks data (data.size + 1) 0 header ++ littleEndian 4 (Crc.crc32 data).toNat ++
    littleEndian 4 data.size

end Rpm.Compression.Gzip

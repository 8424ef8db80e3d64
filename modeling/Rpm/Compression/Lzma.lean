import Rpm.Compression.Flaw
import Rpm.Compression.RangeCoder

/-!
LZMA: bytes and copies of earlier output, range coded under a state of the last few of them.

`decode` runs the symbols of one range coded stretch. The stand-alone format puts a header in
front of one such stretch.
-/

namespace Rpm.Compression.Lzma

/-- The three parameters of a stretch: bits of the previous byte and of the position that select
the literal probabilities, and bits of the position that select the others. -/
structure Properties where
  literalContext : Nat
  literalPosition : Nat
  position : Nat
  deriving Inhabited

def Properties.ofByte? (b : Nat) : Option Properties :=
  let p : Properties := ⟨b % 9, b / 9 % 5, b / 45⟩
  if b < 225 && p.literalContext + p.literalPosition ≤ 4 then some p else none

/-! ### Where the probabilities are -/

def isMatch : Nat := 0
def isRep : Nat := 192
def isRep0 : Nat := 204
def isRep1 : Nat := 216
def isRep2 : Nat := 228
def isRep0Long : Nat := 240
def distanceSlot : Nat := 432
def distanceSpecial : Nat := 688
def distanceAlign : Nat := 816
def matchLength : Nat := 832
def repLength : Nat := 1376
def literal : Nat := 1920

def freshProbs (p : Properties) : Array UInt32 :=
  Array.replicate (literal + 768 * 2 ^ (p.literalContext + p.literalPosition)) 1024

/-- What the symbols of a stretch depend on: the decoder, the kinds of the last few symbols, and
the distances of the last four copies, each less by one. -/
structure State where
  decoder : RangeDecoder
  kind : Nat := 0
  rep0 : Nat := 0
  rep1 : Nat := 0
  rep2 : Nat := 0
  rep3 : Nat := 0

def readLength (bytes : ByteArray) (base positionState : Nat) (d : RangeDecoder) :
    Nat × RangeDecoder :=
  let (b, d) := d.bit bytes base
  if b = 0 then
    let (n, d) := d.tree bytes (base + 2 + 8 * positionState) 3 1
    (n - 8 + 2, d)
  else
    let (b, d) := d.bit bytes (base + 1)
    if b = 0 then
      let (n, d) := d.tree bytes (base + 130 + 8 * positionState) 3 1
      (n - 8 + 10, d)
    else
      let (n, d) := d.tree bytes (base + 258) 8 1
      (n - 256 + 18, d)

def readDistance (bytes : ByteArray) (length : Nat) (d : RangeDecoder) : Nat × RangeDecoder :=
  let (slot, d) := d.tree bytes (distanceSlot + 64 * (min length 5 - 2)) 6 1
  let slot := slot - 64
  if slot < 4 then (slot, d)
  else
    let extra := slot / 2 - 1
    let base := (2 + slot % 2) * 2 ^ extra
    if slot < 14 then
      let (v, d) := d.reverseTree bytes (distanceSpecial + base - slot - 1) extra 1 1 0
      (base + v, d)
    else
      let (high, d) := d.evenBits bytes (extra - 4) 0
      let (low, d) := d.reverseTree bytes distanceAlign 4 1 1 0
      (base + 16 * high + low, d)

/-- Decodes a literal against the byte that the last copy would go on with: while they agree, its
bits select the probabilities. -/
def readMatched (bytes : ByteArray) (base matched : Nat) :
    Nat → Nat → RangeDecoder → Nat × RangeDecoder
  | 0, node, d => (node, d)
  | n + 1, node, d =>
    let m := matched / 2 ^ n % 2
    let (b, d) := d.bit bytes (base + 256 * (1 + m) + node)
    if m = b then readMatched bytes base matched n (2 * node + b) d
    else d.tree bytes base n (2 * node + b)

def readLiteral (bytes : ByteArray) (p : Properties) (base : Nat) (s : State) (out : ByteArray) :
    Nat × RangeDecoder :=
  let before := if out.size > base then (byteAt out (out.size - 1)).toNat else 0
  let context := ((out.size - base) % 2 ^ p.literalPosition) * 2 ^ p.literalContext +
    before / 2 ^ (8 - p.literalContext)
  let probs := literal + 768 * context
  if s.kind < 7 then s.decoder.tree bytes probs 8 1
  else readMatched bytes probs (byteAt out (out.size - s.rep0 - 1)).toNat 8 1 s.decoder

inductive Symbol where
  | literal (b : UInt8)
  | copy (distance length : Nat)
  | stop

def readRep (bytes : ByteArray) (positionState : Nat) (s : State) : Symbol × State :=
  let long (s : State) (d : RangeDecoder) : Symbol × State :=
    let (n, d) := readLength bytes repLength positionState d
    (.copy (s.rep0 + 1) n, { s with decoder := d, kind := if s.kind < 7 then 8 else 11 })
  let (b, d) := s.decoder.bit bytes (isRep0 + s.kind)
  if b = 0 then
    let (b, d) := d.bit bytes (isRep0Long + 16 * s.kind + positionState)
    if b = 0 then
      (.copy (s.rep0 + 1) 1, { s with decoder := d, kind := if s.kind < 7 then 9 else 11 })
    else long s d
  else
    let (b, d) := d.bit bytes (isRep1 + s.kind)
    if b = 0 then long { s with rep0 := s.rep1, rep1 := s.rep0 } d
    else
      let (b, d) := d.bit bytes (isRep2 + s.kind)
      if b = 0 then long { s with rep0 := s.rep2, rep1 := s.rep0, rep2 := s.rep1 } d
      else long { s with rep0 := s.rep3, rep1 := s.rep0, rep2 := s.rep1, rep3 := s.rep2 } d

def readSymbol (bytes : ByteArray) (p : Properties) (base : Nat) (s : State) (out : ByteArray) :
    Symbol × State :=
  let positionState := (out.size - base) % 2 ^ p.position
  let (b, d) := s.decoder.bit bytes (isMatch + 16 * s.kind + positionState)
  if b = 0 then
    let (n, d) := readLiteral bytes p base { s with decoder := d } out
    let kind := if s.kind < 4 then 0 else if s.kind < 10 then s.kind - 3 else s.kind - 6
    (.literal (UInt8.ofNat n), { s with decoder := d, kind := kind })
  else
    let (b, d) := d.bit bytes (isRep + s.kind)
    if b = 1 then readRep bytes positionState { s with decoder := d }
    else
      let (n, d) := readLength bytes matchLength positionState d
      let (distance, d) := readDistance bytes n d
      let s := { s with
        decoder := d, kind := if s.kind < 7 then 7 else 10
        rep0 := distance, rep1 := s.rep0, rep2 := s.rep1, rep3 := s.rep2 }
      if distance = 0xffffffff then (.stop, s) else (.copy (distance + 1) n, s)

structure Outcome where
  state : State
  out : ByteArray
  flaw : Option Flaw := none

/-- The end of a stretch: its range is brought up to date, and nothing may be left of its code. -/
def close (bytes : ByteArray) (limit : Nat) (s : State) (out : ByteArray) : Outcome :=
  let d := s.decoder.normalize bytes
  let s := { s with decoder := d }
  if d.pos > limit then ⟨s, out, some .truncated⟩
  else if d.code = 0 then ⟨s, out, none⟩
  else ⟨s, out, some .corrupt⟩

/-- Decodes symbols until there are `total` bytes of output, or to the symbol that stops an
output of unknown size. No input is taken from `limit` on, and nothing is copied from before
`base`. -/
def decode (bytes : ByteArray) (limit : Nat) (p : Properties) (base : Nat) (total : Option Nat) :
    Nat → State → ByteArray → Outcome
  | 0, s, out => ⟨s, out, some .corrupt⟩
  | fuel + 1, s, out =>
    if total = some out.size then close bytes limit s out
    else
      let (symbol, next) := readSymbol bytes p base s out
      if next.decoder.pos > limit then ⟨next, out, some .truncated⟩
      else
        match symbol with
        | .literal b => decode bytes limit p base total fuel next (out.push b)
        | .stop =>
          if total.isSome then ⟨next, out, some .corrupt⟩ else close bytes limit next out
        | .copy distance length =>
          if distance > out.size - base then ⟨next, out, some .corrupt⟩
          else if total.any (out.size + length > ·) then
            ⟨next, copyBack distance (total.getD 0 - out.size) out, some .corrupt⟩
          else decode bytes limit p base total fuel next (copyBack distance length out)

/-- A bound on the symbols that `n` bytes can code: no bit narrows the range by less than one part
in seventy. -/
def mostSymbols (n : Nat) : Nat := 400 * (n + 8)

/-! ### The stand-alone format -/

/-- Dictionary sizes that a careful reader takes: a power of two, or one and a half. -/
def usualDictionary (n : Nat) : Bool :=
  n = 0xffffffff || (List.range 32).any fun k => n = 2 ^ k || n = 2 ^ k + 2 ^ (k - 1)

/-- The source of what a stand-alone stream stands for; whatever follows it is not looked at. A
careful reader refuses unusual dictionaries and sizes, since it has to guess the format. -/
def decompress (careful : Bool) (bytes : ByteArray) : Source :=
  if bytes.size = 0 then decoded bytes (some .truncated)
  else
    match Properties.ofByte? (byteAt bytes 0).toNat with
    | none => decoded ByteArray.empty (some .corrupt)
    | some p =>
      let dictionary := ofLittleEndian (bytes.extract 1 5)
      let size := ofLittleEndian (bytes.extract 5 13)
      let total := if size = 2 ^ 64 - 1 then none else some size
      if bytes.size < 5 then decoded ByteArray.empty (some .truncated)
      else if careful && !usualDictionary dictionary then decoded ByteArray.empty (some .corrupt)
      else if bytes.size < 13 then decoded ByteArray.empty (some .truncated)
      else if careful && total.any (· ≥ 2 ^ 38) then decoded ByteArray.empty (some .corrupt)
      else if bytes.size < 18 then
        decoded ByteArray.empty
          (some (if bytes.size > 13 && byteAt bytes 13 ≠ 0 then .corrupt else .truncated))
      else if byteAt bytes 13 ≠ 0 then decoded ByteArray.empty (some .corrupt)
      else
        let s : State := { decoder := .start bytes 13 (freshProbs p) }
        let r := decode bytes bytes.size p 0 total (mostSymbols bytes.size) s ByteArray.empty
        decoded r.out r.flaw

/-- The parameters that the encoder uses: three bits of the previous byte select a literal's
probabilities. -/
def plain : Properties := ⟨3, 0, 0⟩

def putLiterals (data : ByteArray) : Nat → Nat → RangeEncoder → RangeEncoder
  | 0, _, e => e
  | count + 1, pos, e =>
    let before := if pos = 0 then 0 else (byteAt data (pos - 1)).toNat
    let e := e.bit isMatch 0
    putLiterals data count (pos + 1)
      (e.tree (literal + 768 * (before / 32)) (byteAt data pos).toNat 8 1)

def compress (data : ByteArray) : ByteArray :=
  let header := (littleEndian 1 3) ++ littleEndian 4 0x10000 ++ littleEndian 8 data.size
  header ++ (putLiterals data data.size 0 { probs := freshProbs plain }).finish

end Rpm.Compression.Lzma

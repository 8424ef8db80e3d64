import Rpm.Compression.Bits
import Rpm.Compression.Flaw

/-!
Tables of finite state entropy codes, and the bit rows they are read from.

Such a row is read from its end: its last byte holds a one bit above which there is nothing. Each
state of a table stands for a symbol, and says how many bits lead from it to the next state.
-/

namespace Rpm.Compression

/-- A row of bits that is read backwards, from `start` up to the bit `left`. Reads that go past
the beginning give zeros and are remembered. -/
structure BackRow where
  bytes : ByteArray
  start : Nat
  left : Nat
  overdrawn : Bool := false

namespace BackRow

def highestBit (b : UInt8) : Nat := (b.toNat).log2

def ofRange (bytes : ByteArray) (start stop : Nat) : Except Flaw BackRow :=
  if stop ≤ start || stop > bytes.size then .error .corrupt
  else
    let last := byteAt bytes (stop - 1)
    if last = 0 then .error .corrupt
    else .ok ⟨bytes, start, 8 * (stop - 1 - start) + highestBit last, false⟩

def bitsBelow (r : BackRow) (left n : Nat) : Nat :=
  if n ≤ left then lowBitsAt r.bytes (8 * r.start + (left - n)) n
  else lowBitsAt r.bytes (8 * r.start) left * 2 ^ (n - left)

def read (r : BackRow) (n : Nat) : Nat × BackRow :=
  (r.bitsBelow r.left n,
    { r with left := r.left - n, overdrawn := r.overdrawn || r.left < n })

/-- Reads the next `n ≤ 50` bits. -/
def readLong (r : BackRow) (n : Nat) : Nat × BackRow :=
  if n ≤ 25 then r.read n
  else
    let (high, r) := r.read (n - 16)
    let (low, r) := r.read 16
    (high * 65536 + low, r)

end BackRow

/-- A state of a table: its symbol, and the bits that lead to the next state, to be added to its
base. -/
structure FseState where
  symbol : Nat
  width : Nat
  base : Nat
  deriving Inhabited

structure FseTable where
  log : Nat
  states : Array FseState
  deriving Inhabited

namespace FseTable

def single (symbol : Nat) : FseTable := ⟨0, #[⟨symbol, 0, 0⟩]⟩

/-- Spreads `count` states of a symbol, in steps over the low part of the table. -/
def spread (size low symbol : Nat) : Nat → Nat → Nat → Array Nat → Nat × Array Nat
  | 0, _, pos, cells => (pos, cells)
  | _, 0, pos, cells => (pos, cells)
  | fuel + 1, count + 1, pos, cells =>
    let next (pos : Nat) := (pos + size / 2 + size / 8 + 3) % size
    let rec skip : Nat → Nat → Nat
      | 0, pos => pos
      | fuel + 1, pos => if pos < low then pos else skip fuel (next pos)
    spread size low symbol fuel count (skip size (next pos)) (cells.setIfInBounds pos symbol)

/-- The table of the given shares of its states, where a share of -1 is a single state at the end
of the table. -/
def ofShares (log : Nat) (shares : Array Int) : FseTable :=
  let size := 2 ^ log
  let indexed := shares.toList.zipIdx
  let (cells, low) := indexed.foldl (fun (cells, low) (share, symbol) =>
    if share = -1 then (cells.setIfInBounds (low - 1) symbol, low - 1) else (cells, low))
    (Array.replicate size 0, size)
  let (_, cells) := indexed.foldl (fun (pos, cells) (share, symbol) =>
    if share > 0 then spread size low symbol share.toNat share.toNat pos cells else (pos, cells))
    (0, cells)
  let starts := shares.map fun share => if share = -1 then 1 else share.toNat
  let (states, _) := cells.foldl (fun (states, next) symbol =>
    let n := next.getD symbol 1
    let width := log - n.log2
    (states.push ⟨symbol, width, n * 2 ^ width - size⟩, next.setIfInBounds symbol (n + 1)))
    (Array.emptyWithCapacity size, starts)
  ⟨log, states⟩

/-- Reads shares from a row that runs low: each takes as many bits as the states that are left
ask for, and a share of none is followed by the number of further ones. -/
def readShares (bytes : ByteArray) (limit most : Nat) :
    Nat → Nat → Nat → Array Int → Except Flaw (Array Int × Nat)
  | 0, _, _, _ => .error .corrupt
  | fuel + 1, pos, left, shares =>
    if left = 0 then .ok (shares, pos)
    else if shares.size > most then .error .corrupt
    else
      let width := (left + 1).log2 + 1
      let v := lowBitsAt bytes pos width
      let short := 2 ^ width - 1 - (left + 1)
      let low := v % 2 ^ (width - 1)
      let (v, used) :=
        if low < short then (low, width - 1)
        else if v ≥ 2 ^ (width - 1) then (v - short, width) else (v, width)
      let pos := pos + used
      if pos > limit then .error .corrupt
      else if v = 0 then readShares bytes limit most fuel pos (left - 1) (shares.push (-1))
      else if v = 1 then
        let rec zeros : Nat → Nat → Array Int → Nat × Array Int
          | 0, pos, shares => (pos, shares)
          | fuel + 1, pos, shares =>
            let n := lowBitsAt bytes pos 2
            let shares := shares ++ Array.replicate n (0 : Int)
            if n = 3 then zeros fuel (pos + 2) shares else (pos + 2, shares)
        let (pos, shares) := zeros 200 pos (shares.push 0)
        readShares bytes limit most fuel pos left shares
      else if v - 1 > left then .error .corrupt
      else readShares bytes limit most fuel pos (left - (v - 1)) (shares.push (Int.ofNat (v - 1)))

def readTable (bytes : ByteArray) (start stop mostLog mostSymbol : Nat) :
    Except Flaw (FseTable × Nat) := do
  if start ≥ stop || stop > bytes.size then throw .corrupt
  let log := 5 + lowBitsAt bytes (8 * start) 4
  if log > mostLog then throw .corrupt
  let (shares, pos) ←
    readShares bytes (8 * stop) mostSymbol (2 ^ log + 300) (8 * start + 4) (2 ^ log) #[]
  if shares.size > mostSymbol + 1 then throw .corrupt
  return (ofShares log shares, (pos + 7) / 8)

@[inline] def state (t : FseTable) (i : Nat) : FseState := t.states.getD i default

def first (t : FseTable) (r : BackRow) : Nat × BackRow := r.read t.log

def next (t : FseTable) (i : Nat) (r : BackRow) : Nat × BackRow :=
  let s := t.state i
  let (v, r) := r.read s.width
  (s.base + v, r)

end FseTable

end Rpm.Compression

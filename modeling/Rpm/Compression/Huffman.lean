/-!
Canonical prefix codes.

A code is given by the length of each symbol's code word. Words of one length are consecutive
numbers in the order of their symbols, and the first word of a length follows the last one of
the length before.
-/

namespace Rpm.Compression

/-- A canonical prefix code: how many words there are of each length, and the symbols in the
order of their words. -/
structure PrefixCode where
  counts : Array Nat
  symbols : Array Nat
  deriving Inhabited

namespace PrefixCode

def countLengths (longest : Nat) (lengths : Array Nat) : Array Nat :=
  lengths.foldl
    (fun counts l => if l = 0 then counts else counts.setIfInBounds l (counts.getD l 0 + 1))
    (Array.replicate (longest + 1) 0)

def symbolsOfLength (lengths : Array Nat) (l : Nat) : List Nat :=
  (List.range lengths.size).filter fun s => lengths.getD s 0 = l

/-- The code with the given word lengths, where zero means that a symbol has no word. -/
def ofLengths (longest : Nat) (lengths : Array Nat) : PrefixCode where
  counts := countLengths longest lengths
  symbols := ((List.range longest).flatMap fun l => symbolsOfLength lengths (l + 1)).toArray

/-- The share of all words of the longest length that the code leaves free, or nothing if it
asks for more than there are. -/
def slack (code : PrefixCode) : Option Nat :=
  (code.counts.toList.drop 1).foldl
    (fun left n => left.bind fun l => if n ≤ 2 * l then some (2 * l - n) else none) (some 1)

/-- Reads one symbol with `bit`, starting at the bit `pos`: `length` bits have given the word
`word`; the words of this length begin at `first`, and their symbols at `index`. -/
@[specialize] def walk (code : PrefixCode) (bit : Nat → Nat) : Nat → Nat → Nat → Nat → Nat → Nat →
    Option (Nat × Nat)
  | 0, _, _, _, _, _ => none
  | fuel + 1, pos, length, word, first, index =>
    let word := 2 * word + bit pos
    let count := code.counts.getD length 0
    if word < first + count then
      some (code.symbols.getD (index + (word - first)) 0, pos + 1)
    else walk code bit fuel (pos + 1) (length + 1) word (2 * (first + count)) (index + count)

/-- Reads one symbol at the bit `pos`: the symbol and the position after its word. There is none
if no word of the code stands there. -/
@[inline] def read (code : PrefixCode) (bit : Nat → Nat) (pos : Nat) : Option (Nat × Nat) :=
  walk code bit (code.counts.size - 1) pos 1 0 0 0

end PrefixCode

end Rpm.Compression

import Rpm.Hash.Block

/-!
The SHA-1 digest.
-/

namespace Rpm.Hash.Sha1

structure Words where
  a : UInt32
  b : UInt32
  c : UInt32
  d : UInt32
  e : UInt32

def start : Words := ⟨0x67452301, 0xefcdab89, 0x98badcfe, 0x10325476, 0xc3d2e1f0⟩

/-- Extends the sixteen words of a block by `count` more, each made of four earlier ones. -/
def extend : Nat → Array UInt32 → Array UInt32
  | 0, w => w
  | count + 1, w =>
    let n := w.size
    let x := w.getD (n - 3) 0 ^^^ w.getD (n - 8) 0 ^^^ w.getD (n - 14) 0 ^^^ w.getD (n - 16) 0
    extend count (w.push (rotl x 1))

def schedule (bytes : ByteArray) (i : Nat) : Array UInt32 :=
  let block := (List.range 16).foldl (fun w j => w.push (wordAt bytes (i + 4 * j)))
    (Array.emptyWithCapacity 80)
  extend 64 block

def mix (j : Nat) (b c d : UInt32) : UInt32 :=
  if j < 20 then ((b &&& c) ||| ((~~~ b) &&& d)) + 0x5a827999
  else if j < 40 then (b ^^^ c ^^^ d) + 0x6ed9eba1
  else if j < 60 then ((b &&& c) ||| (b &&& d) ||| (c &&& d)) + 0x8f1bbcdc
  else (b ^^^ c ^^^ d) + 0xca62c1d6

def rounds (w : Array UInt32) : Nat → Nat → Words → Words
  | 0, _, s => s
  | count + 1, j, s =>
    let t := rotl s.a 5 + mix j s.b s.c s.d + s.e + w.getD j 0
    rounds w count (j + 1) ⟨t, s.a, rotl s.b 30, s.c, s.d⟩

def compress (s : Words) (bytes : ByteArray) (i : Nat) : Words :=
  let t := rounds (schedule bytes i) 80 0 s
  ⟨s.a + t.a, s.b + t.b, s.c + t.c, s.d + t.d, s.e + t.e⟩

def digest (message : ByteArray) : ByteArray :=
  let s := absorb 64 compress start (pad 64 (bigEndian 8 (8 * message.size)) message)
  [s.a, s.b, s.c, s.d, s.e].foldl (fun out w => out ++ bigEndian 4 w.toNat) ByteArray.empty

end Rpm.Hash.Sha1

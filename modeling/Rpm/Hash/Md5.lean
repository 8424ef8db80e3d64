import Rpm.Hash.Block

/-!
The MD5 digest.
-/

namespace Rpm.Hash.Md5

structure Words where
  a : UInt32
  b : UInt32
  c : UInt32
  d : UInt32

def start : Words := ⟨0x67452301, 0xefcdab89, 0x98badcfe, 0x10325476⟩

/-- Whole parts of 2^32 times the absolute sines of 1, 2, … 64. -/
def roundConstants : Array UInt32 := #[
  0xd76aa478, 0xe8c7b756, 0x242070db, 0xc1bdceee, 0xf57c0faf, 0x4787c62a, 0xa8304613, 0xfd469501,
  0x698098d8, 0x8b44f7af, 0xffff5bb1, 0x895cd7be, 0x6b901122, 0xfd987193, 0xa679438e, 0x49b40821,
  0xf61e2562, 0xc040b340, 0x265e5a51, 0xe9b6c7aa, 0xd62f105d, 0x02441453, 0xd8a1e681, 0xe7d3fbc8,
  0x21e1cde6, 0xc33707d6, 0xf4d50d87, 0x455a14ed, 0xa9e3e905, 0xfcefa3f8, 0x676f02d9, 0x8d2a4c8a,
  0xfffa3942, 0x8771f681, 0x6d9d6122, 0xfde5380c, 0xa4beea44, 0x4bdecfa9, 0xf6bb4b60, 0xbebfbc70,
  0x289b7ec6, 0xeaa127fa, 0xd4ef3085, 0x04881d05, 0xd9d4d039, 0xe6db99e5, 0x1fa27cf8, 0xc4ac5665,
  0xf4292244, 0x432aff97, 0xab9423a7, 0xfc93a039, 0x655b59c3, 0x8f0ccc92, 0xffeff47d, 0x85845dd1,
  0x6fa87e4f, 0xfe2ce6e0, 0xa3014314, 0x4e0811a1, 0xf7537e82, 0xbd3af235, 0x2ad7d2bb, 0xeb86d391]

def mix (j : Nat) (b c d : UInt32) : UInt32 :=
  if j < 16 then (b &&& c) ||| ((~~~ b) &&& d)
  else if j < 32 then (d &&& b) ||| ((~~~ d) &&& c)
  else if j < 48 then b ^^^ c ^^^ d
  else c ^^^ (b ||| (~~~ d))

def wordIndex (j : Nat) : Nat :=
  if j < 16 then j
  else if j < 32 then (5 * j + 1) % 16
  else if j < 48 then (3 * j + 5) % 16
  else (7 * j) % 16

/-- Rotation amounts: four for each quarter, in turn. -/
def rotations : Array UInt32 := #[7, 12, 17, 22, 5, 9, 14, 20, 4, 11, 16, 23, 6, 10, 15, 21]

def rounds (bytes : ByteArray) (i : Nat) : Nat → Nat → Words → Words
  | 0, _, s => s
  | count + 1, j, s =>
    let f := s.a + mix j s.b s.c s.d + roundConstants.getD j 0 +
      littleWordAt bytes (i + 4 * wordIndex j)
    let turned := rotl f (rotations.getD (4 * (j / 16) + j % 4) 0)
    rounds bytes i count (j + 1) ⟨s.d, s.b + turned, s.b, s.c⟩

def compress (s : Words) (bytes : ByteArray) (i : Nat) : Words :=
  let t := rounds bytes i 64 0 s
  ⟨s.a + t.a, s.b + t.b, s.c + t.c, s.d + t.d⟩

def digest (message : ByteArray) : ByteArray :=
  let s := absorb 64 compress start (pad 64 (littleEndian 8 (8 * message.size)) message)
  [s.a, s.b, s.c, s.d].foldl (fun out w => out ++ littleEndian 4 w.toNat) ByteArray.empty

end Rpm.Hash.Md5

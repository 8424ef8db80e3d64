/-!
Cyclic redundancy checks of 32 and 64 bits.

The reflected checks divide the message by a polynomial, the least significant bit of each byte
first; the plain one takes the most significant bit first. All start from ones and are inverted
at the end.
-/

namespace Rpm.Compression.Crc

/-- Divides one more bit out of a reflected 32-bit remainder. -/
def shift32 (c : UInt32) : UInt32 :=
  if c &&& 1 = 1 then (c >>> 1) ^^^ 0xedb88320 else c >>> 1

def shift64 (c : UInt64) : UInt64 :=
  if c &&& 1 = 1 then (c >>> 1) ^^^ 0xc96c5795d7870f42 else c >>> 1

/-- Divides one more bit out of a remainder whose high bit goes first. -/
def shiftHigh (c : UInt32) : UInt32 :=
  if c &&& 0x80000000 = 0 then c <<< 1 else (c <<< 1) ^^^ 0x04c11db7

def table32 : Array UInt32 :=
  (Array.range 256).map fun n => Nat.repeat shift32 8 (UInt32.ofNat n)

def table64 : Array UInt64 :=
  (Array.range 256).map fun n => Nat.repeat shift64 8 (UInt64.ofNat n)

def tableHigh : Array UInt32 :=
  (Array.range 256).map fun n => Nat.repeat shiftHigh 8 (UInt32.ofNat n <<< 24)

/-- The reflected 32-bit check of gzip and xz. -/
def crc32 (bytes : ByteArray) : UInt32 :=
  ~~~ bytes.foldl (fun c b => table32.getD ((c ^^^ b.toUInt32) &&& 0xff).toNat 0 ^^^ (c >>> 8))
    0xffffffff

def crc64 (bytes : ByteArray) : UInt64 :=
  ~~~ bytes.foldl (fun c b => table64.getD ((c ^^^ b.toUInt64) &&& 0xff).toNat 0 ^^^ (c >>> 8))
    0xffffffffffffffff

/-- The high-bit-first 32-bit check of bzip2. -/
def crc32High (bytes : ByteArray) : UInt32 :=
  ~~~ bytes.foldl
    (fun c b => table32High ((c >>> 24) ^^^ b.toUInt32) ^^^ (c <<< 8)) 0xffffffff
where
  table32High (i : UInt32) : UInt32 := tableHigh.getD (i &&& 0xff).toNat 0

end Rpm.Compression.Crc

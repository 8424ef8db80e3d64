import Rpm.Crypto.Modular
import Rpm.Hash.Sha512

/-!
Signatures on the Edwards curve over the integers modulo 2^255 - 19.
-/

namespace Rpm.Crypto.Ed25519

def prime : Nat := 2 ^ 255 - 19

def order : Nat := 2 ^ 252 + 27742317777372353535851937790883648493

def twiceConstant : Nat :=
  2 * 37095705934669439343138083508754565189542113879843219016388785533085940283555 % prime

/-- A point in extended coordinates: `x = X / Z`, `y = Y / Z` and `T = X Y / Z`. -/
structure Point where
  X : Nat
  Y : Nat
  Z : Nat
  T : Nat

def Point.zero : Point := ⟨0, 1, 1, 0⟩

def Point.base : Point :=
  let x := 15112221349535400772501151409588531511454012693041857206046113283949847762202
  let y := 46316835694926478169428394003475163141307993866256225615783033603165251855960
  ⟨x, y, 1, x * y % prime⟩

def Point.add (p q : Point) : Point :=
  let a := (p.Y + prime - p.X) * (q.Y + prime - q.X) % prime
  let b := (p.Y + p.X) * (q.Y + q.X) % prime
  let c := p.T * twiceConstant % prime * q.T % prime
  let d := 2 * p.Z * q.Z % prime
  let e := (b + prime - a) % prime
  let f := (d + prime - c) % prime
  let g := (d + c) % prime
  let h := (b + a) % prime
  ⟨e * f % prime, g * h % prime, f * g % prime, e * h % prime⟩

def Point.times (n : Nat) (p : Point) : Point :=
  if n = 0 then .zero
  else
    let half := Point.times (n / 2) (p.add p)
    if n % 2 = 1 then half.add p else half
termination_by n
decreasing_by omega

/-- The 32 bytes of a point: `y`, with the lowest bit of `x` as the highest one. -/
def Point.bytes (p : Point) : ByteArray :=
  let inverse := powMod prime p.Z (prime - 2)
  littleEndian 32 (p.Y * inverse % prime + p.X * inverse % prime % 2 * 2 ^ 255)

/-- The secret scalar of a hashed seed: a multiple of eight in the upper half of 255 bits. -/
def scalar (hashed : ByteArray) : Nat :=
  let n := ofLittleEndian (hashed.extract 0 32)
  2 ^ 254 + n % 2 ^ 254 / 8 * 8

def sign (seed publicKey message : ByteArray) : ByteArray × ByteArray :=
  let hashed := Hash.Sha512.digest seed
  let a := scalar hashed
  let r := ofLittleEndian (Hash.Sha512.digest (hashed.extract 32 64 ++ message)) % order
  let point := (Point.base.times r).bytes
  let k := ofLittleEndian (Hash.Sha512.digest (point ++ publicKey ++ message)) % order
  (point, littleEndian 32 ((r + k * a) % order))

end Rpm.Crypto.Ed25519

import Rpm.Crypto.Ed25519
import Rpm.Crypto.Rsa

/-!
OpenPGP secret keys.

Only the first packet of a transferable key is read: a secret key of version 4 that is not
encrypted, either an RSA key or an Ed25519 key.
-/

namespace Rpm.OpenPgp

inductive Secret where
  | rsa (key : Crypto.Rsa.SecretKey)
  | ed25519 (seed publicKey : ByteArray)

/-- A secret key: the body of its public packet, the number of its public key algorithm, and its
secret part. -/
structure SecretKey where
  publicBody : ByteArray
  algorithm : UInt8
  secret : Secret

/-- The body of the packet at the front of the data, if it is a secret key. -/
def secretKeyBody? (bytes : ByteArray) : Option ByteArray :=
  let head := (byteAt bytes 0).toNat
  let first := (byteAt bytes 1).toNat
  let body (start size : Nat) : Option ByteArray :=
    if start + size ≤ bytes.size then some (bytes.extract start (start + size)) else none
  if head = 0xc5 then
    if first < 192 then body 2 first
    else if first < 224 then body 3 ((first - 192) * 256 + (byteAt bytes 2).toNat + 192)
    else if first = 255 then body 6 (ofBigEndian (bytes.extract 2 6))
    else none
  else if head = 0x94 then body 2 first
  else if head = 0x95 then body 3 (ofBigEndian (bytes.extract 1 3))
  else if head = 0x96 then body 5 (ofBigEndian (bytes.extract 1 5))
  else none

/-- Reads a number: the count of its bits, and its bytes. -/
def readNumber? (bytes : ByteArray) (pos : Nat) : Option (ByteArray × Nat) :=
  let size := (ofBigEndian (bytes.extract pos (pos + 2)) + 7) / 8
  if pos + 2 + size ≤ bytes.size then
    some (bytes.extract (pos + 2) (pos + 2 + size), pos + 2 + size)
  else none

def leftPadded (size : Nat) (bytes : ByteArray) : ByteArray :=
  replicateByte (size - bytes.size) 0 ++ bytes

/-- The name of the curve of Ed25519 keys, with its length. -/
def curveName : ByteArray := ⟨#[9, 0x2b, 6, 1, 4, 1, 0xda, 0x47, 0x0f, 1]⟩

def SecretKey.ofBytes? (bytes : ByteArray) : Option SecretKey := do
  let body ← secretKeyBody? bytes
  if byteAt body 0 ≠ 4 then none
  let algorithm := byteAt body 5
  if algorithm = 1 ∨ algorithm = 2 ∨ algorithm = 3 then
    let (n, pos) ← readNumber? body 6
    let (_, pos) ← readNumber? body pos
    if pos ≥ body.size ∨ byteAt body pos ≠ 0 then none
    let (d, _) ← readNumber? body (pos + 1)
    some ⟨body.extract 0 pos, algorithm, .rsa ⟨ofBigEndian n, ofBigEndian d⟩⟩
  else if algorithm = 22 then
    let pos := 6 + curveName.size
    if body.extract 6 pos ≠ curveName then none
    let (q, pos) ← readNumber? body pos
    if q.size ≠ 33 ∨ pos ≥ body.size ∨ byteAt body pos ≠ 0 then none
    let (seed, _) ← readNumber? body (pos + 1)
    if seed.size > 32 then none
    some ⟨body.extract 0 pos, algorithm, .ed25519 (leftPadded 32 seed) (q.extract 1 33)⟩
  else none

def SecretKey.fingerprint (k : SecretKey) : ByteArray :=
  Hash.Sha1.digest (bigEndian 1 0x99 ++ bigEndian 2 k.publicBody.size ++ k.publicBody)

def SecretKey.keyId (k : SecretKey) : ByteArray := k.fingerprint.extract 12 20

end Rpm.OpenPgp

import Rpm.OpenPgp.Key

/-!
OpenPGP signature packets of version 4 over binary documents.

The packet names the fingerprint of its key and the time it was made in its signed part, and the
number of the key outside of it.
-/

namespace Rpm.OpenPgp

/-- A number as its count of bits and its bytes, without leading zeros. -/
def encodeNumber (bytes : ByteArray) : ByteArray :=
  let n := ofBigEndian bytes
  if n = 0 then bigEndian 2 0
  else bigEndian 2 (n.log2 + 1) ++ Crypto.naturalBytes n

def subpacket (type : Nat) (content : ByteArray) : ByteArray :=
  bigEndian 1 (content.size + 1) ++ bigEndian 1 type ++ content

/-- The part of a signature that is signed along with the document. -/
def signedPart (key : SecretKey) (algorithm : DigestAlgorithm) (seconds : Nat) : ByteArray :=
  let subpackets :=
    subpacket 33 (bigEndian 1 4 ++ key.fingerprint) ++ subpacket 2 (bigEndian 4 seconds)
  bigEndian 2 0x0400 ++ bigEndian 1 key.algorithm.toNat ++ bigEndian 1 algorithm.id.toNat ++
    bigEndian 2 subpackets.size ++ subpackets

def signDigest? (key : SecretKey) (algorithm : DigestAlgorithm) (digest : ByteArray) :
    Option ByteArray :=
  match key.secret with
  | .rsa k =>
    (Crypto.Rsa.sign? k algorithm digest).map fun n => encodeNumber (Crypto.naturalBytes n)
  | .ed25519 seed publicKey =>
    let (r, s) := Crypto.Ed25519.sign seed publicKey digest
    some (encodeNumber r ++ encodeNumber s)

def encodeLength (n : Nat) : ByteArray :=
  if n < 192 then bigEndian 1 n
  else if n < 8384 then bigEndian 2 (n - 192 + 0xc000)
  else bigEndian 1 255 ++ bigEndian 4 n

def sign? (key : SecretKey) (algorithm : DigestAlgorithm) (seconds : Nat) (document : ByteArray) :
    Option ByteArray := do
  let signed := signedPart key algorithm seconds
  let trailer := bigEndian 2 0x04ff ++ bigEndian 4 signed.size
  let digest := algorithm.digest (document ++ signed ++ trailer)
  let numbers ← signDigest? key algorithm digest
  let unsigned := subpacket 16 key.keyId
  let body := signed ++ bigEndian 2 unsigned.size ++ unsigned ++ digest.extract 0 2 ++ numbers
  return bigEndian 1 0xc2 ++ encodeLength body.size ++ body

end Rpm.OpenPgp

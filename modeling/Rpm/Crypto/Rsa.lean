import Rpm.Crypto.Modular
import Rpm.Hash.Algorithm

/-!
RSA signatures of digests, padded as PKCS #1 version 1.5 says.
-/

namespace Rpm.Crypto.Rsa

structure SecretKey where
  modulus : Nat
  exponent : Nat

def SecretKey.size (k : SecretKey) : Nat := (k.modulus.log2 + 8) / 8

/-- The encoding that names an algorithm in front of its digest. -/
def digestInfo : DigestAlgorithm → ByteArray
  | .md5 => ⟨#[0x30, 0x20, 0x30, 0x0c, 0x06, 0x08, 0x2a, 0x86, 0x48, 0x86, 0xf7, 0x0d, 0x02, 0x05,
      0x05, 0x00, 0x04, 0x10]⟩
  | .sha1 => ⟨#[0x30, 0x21, 0x30, 0x09, 0x06, 0x05, 0x2b, 0x0e, 0x03, 0x02, 0x1a, 0x05, 0x00, 0x04,
      0x14]⟩
  | .sha256 => ⟨#[0x30, 0x31, 0x30, 0x0d, 0x06, 0x09, 0x60, 0x86, 0x48, 0x01, 0x65, 0x03, 0x04,
      0x02, 0x01, 0x05, 0x00, 0x04, 0x20]⟩
  | .sha384 => ⟨#[0x30, 0x41, 0x30, 0x0d, 0x06, 0x09, 0x60, 0x86, 0x48, 0x01, 0x65, 0x03, 0x04,
      0x02, 0x02, 0x05, 0x00, 0x04, 0x30]⟩
  | .sha512 => ⟨#[0x30, 0x51, 0x30, 0x0d, 0x06, 0x09, 0x60, 0x86, 0x48, 0x01, 0x65, 0x03, 0x04,
      0x02, 0x03, 0x05, 0x00, 0x04, 0x40]⟩

/-- The signature of a digest, as a number; there is none if the modulus is too small. -/
def sign? (k : SecretKey) (algorithm : DigestAlgorithm) (digest : ByteArray) : Option Nat :=
  let info := digestInfo algorithm ++ digest
  if k.size < info.size + 11 then none
  else
    let padding := replicateByte (k.size - info.size - 3) 0xff
    let block := bigEndian 2 1 ++ padding ++ bigEndian 1 0 ++ info
    some (powMod k.modulus (ofBigEndian block) k.exponent)

end Rpm.Crypto.Rsa

import Rpm.Header
import Rpm.OpenPgp.Signature

/-!
Signing packages with an OpenPGP key.

There are two signatures: one of the metadata header, and one of the header and the compressed
payload behind it. The tags that they are stored under depend on the algorithm of the key.
-/

namespace Rpm

/-- The tags of the signature of the header and of the signature of header and payload, for the
number of a public key algorithm. -/
def signatureTags (algorithm : UInt8) : Except Error (Tag .signature × Tag .signature) :=
  if algorithm = 1 ∨ algorithm = 2 ∨ algorithm = 3 then
    .ok (SignatureTag.rsaHeader, SignatureTag.pgp)
  else if algorithm = 17 ∨ algorithm = 19 ∨ algorithm = 22 then
    .ok (SignatureTag.dsaHeader, SignatureTag.gpg)
  else .error (.unsupported s!"signing with public key algorithm {algorithm.toNat}")

/-- A signer of a package: its key and settings, and what it has seen of the package. -/
structure Signer where
  key : OpenPgp.SecretKey
  algorithm : DigestAlgorithm
  seconds : Nat
  headerTag : Tag .signature
  fullTag : Tag .signature
  header : ByteArray := ByteArray.empty
  full : ByteArray := ByteArray.empty

namespace Signer

/-- The whole seconds of a time in milliseconds, as far as a field of 32 bits can say. -/
def secondsOf (milliseconds : Int) : Nat := (milliseconds / 1000 % 2 ^ 32).toNat

/-- A signer that has seen nothing yet. Without a digest algorithm nothing can be signed. -/
def new (key : OpenPgp.SecretKey) (algorithm : Option DigestAlgorithm) (milliseconds : Int) :
    Except Error Signer := do
  let (headerTag, fullTag) ← signatureTags key.algorithm
  match algorithm with
  | none => throw .openPgp
  | some algorithm =>
    return { key, algorithm, seconds := secondsOf milliseconds, headerTag, fullTag }

def feedHeader (s : Signer) (bytes : ByteArray) : Signer :=
  { s with header := s.header ++ bytes, full := s.full ++ bytes }

def feedPayload (s : Signer) (piece : ByteArray) : Signer :=
  { s with full := s.full ++ piece }

def sign (s : Signer) (document : ByteArray) : Except Error ByteArray :=
  match OpenPgp.sign? s.key s.algorithm s.seconds document with
  | none => .error .openPgp
  | some packet => .ok packet

def finish (s : Signer) (h : Header .signature) : Except Error (Header .signature) := do
  let header ← s.sign s.header
  let full ← s.sign s.full
  let h ← h.set s.headerTag (.bin header)
  h.set s.fullTag (.bin full)

end Signer

end Rpm

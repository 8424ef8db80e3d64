import Rpm.Archive.Cursor
import Rpm.Lead
import Rpm.Package.Writer
import Rpm.Payload.Compressor
import Rpm.Signature.Processing

/-!
Reading package files.

The lead and both headers are read at once; the payload stays in the source. What the signature
header says of the rest can be checked against it.
-/

namespace Rpm

/-- A package file: its headers, the bytes they were read from, and the payload behind them. -/
structure Package where
  lead : Lead
  signature : Header .signature
  signatureBytes : ByteArray
  header : Header .metadata
  headerBytes : ByteArray
  payload : Source

/-- What was found to agree with the rest of a package: entries of its signature header, and the
digest of its payload in the metadata header if there is one. -/
structure Verified where
  signatureTags : List (Tag .signature)
  payloadDigest : Bool

namespace Package

def read (s : Source) : Except Error Package := do
  let (lead, s) ← Lead.read s
  let (signature, signatureBytes, s) ← Header.read s
  let (_, s) ← (s.readExact (signaturePadding signatureBytes.size)).mapError
    (Header.readError .padding)
  let (header, headerBytes, s) ← Header.read s
  return { lead, signature, signatureBytes, header, headerBytes, payload := s }

/-- The coding of the payload, which is gzip unless the header names one. The payload has to be a
cpio archive. -/
def coding (p : Package) : Except Error Coding := do
  match ← p.header.getString MetadataTag.payloadFormat with
  | none | some "cpio" => pure ()
  | some format => throw (.unsupportedPayloadFormat format)
  match ← p.header.getString MetadataTag.payloadCompressor with
  | none => return Coding.default
  | some name => Coding.parse name

def payloadFlags (p : Package) : Except Error (Option PayloadFlags) := do
  match ← p.header.getString MetadataTag.payloadFlags with
  | none => return none
  | some flags => return some (← PayloadFlags.parse (← p.coding) flags)

def archive (p : Package) : Except Error Source := do
  return (← p.coding).decompress p.payload

def members (p : Package) : Except Error (List Archive.Member) := do
  let archive ← p.archive
  (Archive.Cursor.ofSource archive).members.mapError fun
    | .header e => .archive e
    | .data e => .stream e

/-! ### Verification -/

/-- The digests of the payload that the header allows, and their algorithm, if there are any. -/
def payloadDigests (p : Package) : Except Error (Option (List String × DigestAlgorithm)) := do
  match ← p.header.getStrings MetadataTag.payloadDigest with
  | none => return none
  | some digests =>
    let id := (← p.header.getUInt32 MetadataTag.payloadDigestAlgo).getD DigestAlgorithm.default.id
    match DigestAlgorithm.ofId? id with
    | some algorithm => return some (digests, algorithm)
    | none => throw (.unsupported s!"payload digest algorithm {id.toNat}")

/-- The entries of a signature header that can be checked. -/
def verifiableTags : List (Tag .signature) :=
  [SignatureTag.size, SignatureTag.longSize, SignatureTag.md5, SignatureTag.sha1Header,
    SignatureTag.sha256Header]

def verifiers : List StandardProcessor :=
  [.size 0, .md5 { algorithm := .md5 }, .sha1 { algorithm := .sha1 },
    .sha256 { algorithm := .sha256 }]

def recomputed (header : ByteArray) (pieces : List ByteArray) :
    Except Error (Header .signature) := do
  let s : SignatureProcessing StandardProcessor := { processors := verifiers }
  let s ← s.feedHeader header
  let s ← pieces.foldlM (fun s piece => s.feedPayload piece) s
  s.finish.2

/-- Compares the entries with some tags, and returns the tags that there are. -/
def compare (expected computed : Header .signature) :
    List (Tag .signature) → Except Error (List (Tag .signature))
  | [] => .ok []
  | tag :: tags =>
    match expected.get tag with
    | none => compare expected computed tags
    | some value =>
      if computed.get tag ≠ some value then .error (.digestMismatch tag.id)
      else (compare expected computed tags).map (tag :: ·)

/-- Checks what the headers say against a payload that arrives in pieces. -/
def checkPieces (p : Package) (digests : Option (List String × DigestAlgorithm))
    (pieces : List ByteArray) : Except Error Verified := do
  let computed ← recomputed p.headerBytes pieces
  let signatureTags ← compare p.signature computed verifiableTags
  match digests with
  | none => return { signatureTags, payloadDigest := false }
  | some (allowed, algorithm) =>
    if allowed.contains (algorithm.digestHex (concat pieces)) then
      return { signatureTags, payloadDigest := true }
    else throw (.digestMismatch MetadataTag.payloadDigest.id)

/-- Checks the sizes and digests of a package. -/
def verify (p : Package) : Except Error Verified := do
  let digests ← p.payloadDigests
  let payload ← p.payload.readAll.mapError (.streamDuring .readingPayload)
  p.checkPieces digests [payload]

end Package

end Rpm

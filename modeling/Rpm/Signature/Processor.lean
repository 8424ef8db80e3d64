import Rpm.Hash.Algorithm
import Rpm.Signature.Signer

/-!
Makers of signature headers.

A processor sees the metadata header of a package and then its compressed payload, and adds to the
signature header what it makes of them: a size, a digest or a signature.
-/

namespace Rpm

class SignatureProcessor (σ : Type) where
  /-- Takes the size of the uncompressed archive. -/
  init : σ → UInt64 → σ
  /-- Takes the metadata header. -/
  feedHeader : σ → ByteArray → σ
  /-- Takes a piece of the compressed payload. -/
  feedPayload : σ → ByteArray → σ
  /-- Adds entries to the signature header. -/
  finish : σ → Header .signature → Except Error (Header .signature)

inductive StandardProcessor where
  /-- The size of header and payload together. -/
  | size (total : Nat)
  /-- The size of the archive, once it is given. -/
  | payloadSize (archiveSize : Option UInt64)
  | sha1 (digester : Digester)
  | sha256 (digester : Digester)
  /-- The MD5 digest of header and payload together. -/
  | md5 (digester : Digester)
  | signer (signer : Signer)

/-- Sets a size under one tag, or under another if it does not fit into 32 bits. -/
def Header.setSize {ns : Namespace} (h : Header ns) (tag longTag : Tag ns) (n : Nat) :
    Except Error (Header ns) :=
  if n < 2 ^ 32 then h.set tag (UInt32.ofNat n) else h.set longTag (UInt64.ofNat n)

namespace StandardProcessor

def defaults : List StandardProcessor := [
  size 0,
  payloadSize none,
  sha1 { algorithm := .sha1 },
  sha256 { algorithm := .sha256 },
  md5 { algorithm := .md5 }]

def init : StandardProcessor → UInt64 → StandardProcessor
  | payloadSize _, n => payloadSize (some n)
  | p, _ => p

/-- All but the size of the archive depend on the header. -/
def feedHeader : StandardProcessor → ByteArray → StandardProcessor
  | size total, bytes => size (total + bytes.size)
  | payloadSize n, _ => payloadSize n
  | sha1 d, bytes => sha1 (d.update bytes)
  | sha256 d, bytes => sha256 (d.update bytes)
  | md5 d, bytes => md5 (d.update bytes)
  | signer s, bytes => signer (s.feedHeader bytes)

/-- Digests of the header alone do not depend on the payload. -/
def feedPayload : StandardProcessor → ByteArray → StandardProcessor
  | size total, piece => size (total + piece.size)
  | payloadSize n, _ => payloadSize n
  | sha1 d, _ => sha1 d
  | sha256 d, _ => sha256 d
  | md5 d, piece => md5 (d.update piece)
  | signer s, piece => signer (s.feedPayload piece)

def finish (p : StandardProcessor) (h : Header .signature) : Except Error (Header .signature) :=
  match p with
  | size total => h.setSize SignatureTag.size SignatureTag.longSize total
  | payloadSize none => .error (.protocol .sizeNotGiven)
  | payloadSize (some n) =>
    h.setSize SignatureTag.payloadSize SignatureTag.longArchiveSize n.toNat
  | sha1 d => h.set SignatureTag.sha1Header (hexText d.finish)
  | sha256 d => h.set SignatureTag.sha256Header (hexText d.finish)
  | md5 d => h.set SignatureTag.md5 (.bin d.finish)
  | signer s => s.finish h

end StandardProcessor

instance : SignatureProcessor StandardProcessor where
  init := StandardProcessor.init
  feedHeader := StandardProcessor.feedHeader
  feedPayload := StandardProcessor.feedPayload
  finish := StandardProcessor.finish

end Rpm

import Rpm.Hash.Algorithm
import Rpm.Header

/-!
Observers of payloads.

While a payload is put together, its processors are given each piece of the archive and each piece
of the compressed payload. At the end they add what they make of them to a header.
-/

namespace Rpm

class PayloadProcessor (σ : Type) where
  /-- Takes a piece of the archive. -/
  feedRaw : σ → ByteArray → σ
  /-- Takes a piece of the compressed payload. -/
  feedPayload : σ → ByteArray → σ
  /-- Adds entries to a header. -/
  finish : σ → Header .metadata → Except Error (Header .metadata)

/-- The digests of an archive and of the payload that it is compressed to. -/
structure PayloadDigester where
  algorithm : DigestAlgorithm
  raw : Digester := { algorithm }
  compressed : Digester := { algorithm }

namespace PayloadDigester

def default : PayloadDigester := { algorithm := .default }

def feedRaw (p : PayloadDigester) (piece : ByteArray) : PayloadDigester :=
  { p with raw := p.raw.update piece }

def feedPayload (p : PayloadDigester) (piece : ByteArray) : PayloadDigester :=
  { p with compressed := p.compressed.update piece }

open MetadataTag in
def finish (p : PayloadDigester) (h : Header .metadata) : Except Error (Header .metadata) := do
  let h ← h.set payloadDigest (.stringArray [hexText p.compressed.finish])
  let h ← h.set payloadDigestAlt (.stringArray [hexText p.raw.finish])
  h.set payloadDigestAlgo p.algorithm.id

end PayloadDigester

instance : PayloadProcessor PayloadDigester where
  feedRaw := PayloadDigester.feedRaw
  feedPayload := PayloadDigester.feedPayload
  finish := PayloadDigester.finish

end Rpm

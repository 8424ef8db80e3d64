import Rpm.Lead
import Rpm.Payload.Recorder
import Rpm.Signature.Processing

/-!
Writing package files.

A package file is a lead, a signature header filled up to a multiple of eight bytes, a metadata
header and a compressed payload. The signature header is made of the rest, so that nothing is
written before all of it is known.
-/

namespace Rpm

/-- The zeros between the two headers: they fill up what is in front of them to a multiple of eight
bytes. -/
def signaturePadding (signatureSize : Nat) : Nat := paddingFor 8 (Lead.size + signatureSize)

structure PackageParts where
  lead : Lead
  signature : ByteArray
  header : ByteArray
  payload : ByteArray

namespace PackageParts

/-- The bytes of the file in the pieces in which they are written, and what a failure to write each
is called. -/
def pieces (p : PackageParts) : List ((StreamError → Error) × ByteArray) := [
  (.stream, p.lead.bytes),
  (.streamDuring .writingSignature, p.signature),
  (.streamDuring .writingSignature, replicateByte (signaturePadding p.signature.size) 0),
  (.streamDuring .writingHeader, p.header),
  (.streamDuring .copyingPayload, p.payload)]

def bytes (p : PackageParts) : ByteArray := concat (p.pieces.map (·.2))

end PackageParts

def writePieces {τ : Type} [ByteSink τ] (sink : τ) :
    List ((StreamError → Error) × ByteArray) → τ × Except Error Unit
  | [] => (sink, .ok ())
  | (failure, piece) :: pieces =>
    match ByteSink.write sink piece with
    | (sink, .error e) => (sink, .error (failure e))
    | (sink, .ok ()) => writePieces sink pieces

structure Writer (τ σ : Type) where
  sink : τ
  lead : Lead
  header : Header .metadata := .empty
  payload : Option FinishedPayload := none
  processing : SignatureProcessing σ
  finished : Bool := false

namespace Writer

variable {τ σ : Type} [ByteSink τ] [SignatureProcessor σ]

def new (sink : τ) (lead : Lead) : Writer τ StandardProcessor :=
  { sink, lead, processing := .defaults }

def addProcessor (w : Writer τ σ) (p : σ) : Except Error (Writer τ σ) :=
  if w.finished then .error .writerFinished
  else return { w with processing := ← w.processing.add p }

/-- The metadata header of the file: that of the caller, with the entries that describe the payload
set over it. -/
def fileHeader (header : Header .metadata) (payload : FinishedPayload) :
    Except Error (Header .metadata) := do
  let h ← header.set MetadataTag.payloadFormat "cpio"
  let h ← h.set MetadataTag.payloadCompressor payload.flags.coding.name
  let h ← h.set MetadataTag.payloadFlags payload.flags.display
  return h.extend payload.header

def signatureHeader (processing : SignatureProcessing σ) (header : ByteArray)
    (payload : FinishedPayload) : Except Error (Header .signature) := do
  let s ← processing.init (UInt64.ofNat payload.archiveSize)
  let s ← s.feedHeader header
  let s ← if payload.bytes.isEmpty then pure s else s.feedPayload payload.bytes
  s.finish.2

def parts (w : Writer τ σ) (payload : FinishedPayload) : Except Error PackageParts := do
  let header ← (← fileHeader w.header payload).render true
  let signature ← (← signatureHeader w.processing header payload).render true
  return { lead := w.lead, signature, header, payload := payload.bytes }

/-- Writes the file, and checks that as much of the payload was there as was recorded. -/
def emit (sink : τ) (parts : PackageParts) (payloadSize : Nat) : τ × Except Error Unit :=
  match writePieces sink parts.pieces with
  | (sink, .error e) => (sink, .error e)
  | (sink, .ok ()) =>
    if parts.payload.size ≠ payloadSize then
      (sink, .error (.payloadTruncated parts.payload.size payloadSize))
    else
      let (sink, r) := ByteSink.flush sink
      (sink, r.mapError (.streamDuring .flushing))

/-- Writes the package. A writer without a payload can be given one and tried again; in all other
cases it is finished then. -/
def finish (w : Writer τ σ) : Writer τ σ × Except Error Unit :=
  if w.finished then (w, .error .writerFinished)
  else
    match w.payload with
    | none => (w, .error .payloadNotSet)
    | some payload =>
      let done := { w with payload := none, processing := .empty, finished := true }
      match w.parts payload with
      | .error e => (done, .error e)
      | .ok parts =>
        let (sink, r) := emit w.sink parts payload.payloadSize
        ({ done with sink }, r)

end Writer

end Rpm

import Rpm.Archive.Member

/-!
Writing an archive, member by member.
-/

namespace Rpm.Archive

/-- An archive in the making: where it goes to, and how many bytes of it are complete. -/
structure Builder (τ : Type) where
  sink : τ
  offset : Nat := 0

namespace Builder

variable {τ : Type} [ByteSink τ]

/-- Writes bytes, and counts them once they are all written. -/
def put (b : Builder τ) (bytes : ByteArray) : Builder τ × Except ArchiveError Unit :=
  match ByteSink.write b.sink bytes with
  | (sink, .error e) => ({ b with sink }, .error (.stream e))
  | (sink, .ok ()) => (⟨sink, b.offset + bytes.size⟩, .ok ())

def putHeader (b : Builder τ) (header : MemberHeader) : Builder τ × Except ArchiveError Unit :=
  match header.write b.sink with
  | (sink, .error e) => ({ b with sink }, .error e)
  | (sink, .ok n) => (⟨sink, b.offset + n⟩, .ok ())

/-- Copies the data of a member: as many bytes as its header says. Bytes that a source gives before
it fails or ends are written, but not counted. -/
def putData (b : Builder τ) (header : MemberHeader) (data : Source) :
    Builder τ × Except ArchiveError Unit :=
  let size := header.fileSize.toNat
  let part := data.take size
  match ByteSink.write b.sink part.rest with
  | (sink, .error e) => ({ b with sink }, .error (.stream e))
  | (sink, .ok ()) =>
    match part.failure with
    | some e => ({ b with sink }, .error (.stream e))
    | none =>
      if part.rest.size ≠ size then
        ({ b with sink }, .error (.dataSizeMismatch header.name size part.rest.size))
      else (⟨sink, b.offset + size⟩, .ok ())

/-- Appends a member; the number is that of the bytes it takes in the archive. -/
def append (b : Builder τ) (header : MemberHeader) (data : Source) :
    Builder τ × Except ArchiveError Nat :=
  let start := b.offset
  match b.putHeader header with
  | (b, .error e) => (b, .error e)
  | (b, .ok ()) =>
    match b.putData header data with
    | (b, .error e) => (b, .error e)
    | (b, .ok ()) =>
      match b.put (replicateByte (paddingFor 4 header.fileSize.toNat) 0) with
      | (b, .error e) => (b, .error e)
      | (b, .ok ()) => (b, .ok (b.offset - start))

def finish (b : Builder τ) : Builder τ × Except ArchiveError Unit :=
  match b.putHeader .trailer with
  | (b, .error e) => (b, .error e)
  | (b, .ok ()) =>
    let (sink, r) := ByteSink.flush b.sink
    ({ b with sink }, r.mapError .stream)

end Builder

end Rpm.Archive

import Rpm.Archive.Builder
import Rpm.Payload.Compressor
import Rpm.Payload.Path
import Rpm.Payload.Processor

/-!
Putting a payload together.

A recorder appends files to an archive, which goes piece by piece through a compressor. Each piece
of the archive and of the compressed payload is shown to the processors. Files are numbered in the
order in which they are added.
-/

namespace Rpm

/-- A compressed payload in the making. What the compressor gives out is held back for as long as one
operation takes. Bytes of the archive and of the payload are counted apart. -/
structure PayloadStream (c : Compressor) (σ : Type) where
  state : c.State := c.start
  buffer : ByteArray := ByteArray.empty
  payload : ByteArray := ByteArray.empty
  archiveSize : Nat := 0
  payloadSize : Nat := 0
  processors : List σ := []

/-- A payload that is complete: its bytes, how many there are of the archive and were given out of
it, the flags it is compressed with, and what its processors made of it. -/
structure FinishedPayload where
  bytes : ByteArray
  archiveSize : Nat
  payloadSize : Nat
  flags : PayloadFlags
  header : Header .metadata

namespace PayloadStream

variable {c : Compressor} {σ : Type} [PayloadProcessor σ]

def emit (p : PayloadStream c σ) (piece : ByteArray) : PayloadStream c σ :=
  { p with
    payload := p.payload ++ piece
    payloadSize := p.payloadSize + piece.size
    processors := p.processors.map fun q => PayloadProcessor.feedPayload q piece }

/-- Moves what was held back to the payload. If there is nothing, nobody is shown anything. -/
def drain (p : PayloadStream c σ) : PayloadStream c σ :=
  if p.buffer.isEmpty then p else { p.emit p.buffer with buffer := ByteArray.empty }

def write (p : PayloadStream c σ) (piece : ByteArray) : PayloadStream c σ :=
  let processors := p.processors.map fun q => PayloadProcessor.feedRaw q piece
  let (state, out) := c.write p.state piece
  drain { p with
    state, processors
    buffer := p.buffer ++ out
    archiveSize := p.archiveSize + piece.size }

def finishProcessors (processors : List σ) : Except Error (Header .metadata) :=
  processors.foldlM (fun h q => PayloadProcessor.finish q h) Header.empty

def finish (p : PayloadStream c σ) (flags : PayloadFlags) : Except Error FinishedPayload := do
  let p := p.emit (p.buffer ++ c.finish p.state)
  let header ← finishProcessors p.processors
  return { bytes := p.payload, archiveSize := p.archiveSize, payloadSize := p.payloadSize, flags,
           header }

end PayloadStream

instance {c : Compressor} {σ : Type} [PayloadProcessor σ] : ByteSink (PayloadStream c σ) where
  write p bytes := (p.write bytes, .ok ())
  flush p := (p, .ok ())

structure PayloadEntry where
  path : String
  inode : UInt32
  /-- The size of the content: for symbolic links that of the target. -/
  size : Nat
  digest : Option ByteArray

/-- A stored file: its size, and the bytes at its front. All bytes after those are zero. -/
structure StoredFile where
  front : ByteArray
  size : Nat := front.size

namespace StoredFile

def content (f : StoredFile) : ByteArray :=
  f.front.extract 0 f.size ++ replicateByte (f.size - f.front.size) 0

@[simp] theorem size_content (f : StoredFile) : f.content.size = f.size := by
  simp [content]
  omega

end StoredFile

/-- What is needed to go on with a payload. Once it is finished, there is no archive left. -/
structure Recorder (σ : Type) where
  flags : PayloadFlags
  fileDigest : DigestAlgorithm
  nextInode : UInt32 := 1
  archive : Option (Archive.Builder (PayloadStream flags.coding.compressor σ))

namespace Recorder

variable {σ : Type} [PayloadProcessor σ]

/-- A recorder of an empty payload. If flags are given, they have to be those of the coding. -/
def new (c : Coding) (flags : Option PayloadFlags) (fileDigest : DigestAlgorithm) :
    Except Error (Recorder σ) :=
  let flags := flags.getD (PayloadFlags.ofCoding c)
  if flags.coding ≠ c then
    .error (.invalidFlags c s!"{flags.coding.name} flags {flags.display}")
  else if !flags.usable then .error (.stream .other)
  else .ok { flags, fileDigest, archive := some ⟨{}, 0⟩ }

/-- Adds a processor, which is possible only as long as the archive is empty. -/
def addProcessor (r : Recorder σ) (processor : σ) : Except Error (Recorder σ) :=
  match r.archive with
  | none => .error .recorderFinished
  | some b =>
    if b.offset ≠ 0 then .error (.protocol .payloadProcessorsFirst)
    else
      let sink := { b.sink with processors := b.sink.processors ++ [processor] }
      .ok { r with archive := some { b with sink } }

/-- Appends a member under the next number. The number is used up even if that fails. -/
def append (r : Recorder σ) (header : Archive.MemberHeader) (data : ByteArray) :
    Recorder σ × Except Error UInt32 :=
  let inode := r.nextInode
  let r := { r with nextInode := inode + 1 }
  match r.archive with
  | none => (r, .error .recorderFinished)
  | some b =>
    match b.append { header with inode } (Source.ofBytes data) with
    | (b, .error e) => ({ r with archive := some b }, .error (.archive e))
    | (b, .ok _) => ({ r with archive := some b }, .ok inode)

def addContent (r : Recorder σ) (path : String) (file : StoredFile) (permissions mtime : UInt32) :
    Recorder σ × Except Error PayloadEntry :=
  match Path.normalize path with
  | .error e => (r, .error e)
  | .ok path =>
    if file.size ≥ 2 ^ 32 then (r, .error (.archive (.memberTooLarge path)))
    else
      let header := Archive.MemberHeader.file (Path.archiveName path) permissions
        (UInt32.ofNat file.size)
      let data := file.content
      match r.append { header with mtime } data with
      | (r, .error e) => (r, .error e)
      | (r, .ok inode) => (r, .ok ⟨path, inode, file.size, some (r.fileDigest.digest data)⟩)

def addFile (r : Recorder σ) (path : String) (data : ByteArray) (permissions mtime : UInt32) :
    Recorder σ × Except Error PayloadEntry :=
  r.addContent path { front := data } permissions mtime

/-- Adds a regular file from a source, which is read to its end first. -/
def addSource (r : Recorder σ) (path : String) (source : Source) (permissions mtime : UInt32) :
    Recorder σ × Except Error PayloadEntry :=
  if r.archive.isNone then (r, .error .recorderFinished)
  else
    match source.readAll with
    | .error e => (r, .error (.streamDuring .spooling e))
    | .ok data => r.addFile path data permissions mtime

def addStored (r : Recorder σ) (path : String) (file : Option StoredFile)
    (permissions mtime : UInt32) : Recorder σ × Except Error PayloadEntry :=
  match file with
  | none => (r, .error (.streamDuring .openingSource .notFound))
  | some file => r.addContent path file permissions mtime

def addDirectory (r : Recorder σ) (path : String) (permissions mtime : UInt32) :
    Recorder σ × Except Error PayloadEntry :=
  match Path.normalize path with
  | .error e => (r, .error e)
  | .ok path =>
    let header := Archive.MemberHeader.ofDirectory (Path.archiveName path) permissions
    match r.append { header with mtime } ByteArray.empty with
    | (r, .error e) => (r, .error e)
    | (r, .ok inode) => (r, .ok ⟨path, inode, 0, none⟩)

def isTarget (target : String) : Bool := !target.isEmpty && !holdsNul target

def addSymlink (r : Recorder σ) (path target : String) (mtime : UInt32) :
    Recorder σ × Except Error PayloadEntry :=
  match Path.normalize path with
  | .error e => (r, .error e)
  | .ok path =>
    if !isTarget target then (r, .error (.invalidPath target))
    else
      let size := target.utf8ByteSize
      let header := Archive.MemberHeader.symlink (Path.archiveName path) 0o777 (UInt32.ofNat size)
      match r.append { header with mtime } target.toUTF8 with
      | (r, .error e) => (r, .error e)
      | (r, .ok inode) => (r, .ok ⟨path, inode, size, none⟩)

/-- Ends the archive and completes the payload. Whatever comes of it, nothing can be added from
then on. -/
def finish (r : Recorder σ) : Recorder σ × Except Error FinishedPayload :=
  match r.archive with
  | none => (r, .error .recorderFinished)
  | some b =>
    let r := { r with archive := none }
    match b.finish with
    | (_, .error e) => (r, .error (.archive e))
    | (b, .ok ()) => (r, b.sink.finish r.flags)

end Recorder

end Rpm

import Rpm.Archive.Error
import Rpm.Bytes.Hex
import Rpm.Bytes.Stream
import Rpm.Bytes.Terminated

/-!
Members of archives in the new ASCII format.

A member is a header of 110 bytes, its name and a zero byte, its data, and zeros that fill up each
of the two to a multiple of four bytes. The header is a magic number and thirteen fields of eight
hexadecimal digits.
-/

namespace Rpm.Archive

def typeMask : UInt32 := 0o170000

def regularFile : UInt32 := 0o100000

def directory : UInt32 := 0o040000

def symbolicLink : UInt32 := 0o120000

def trailerName : String := "TRAILER!!!"

def magic : ByteArray := "070701".toUTF8

def headerSize : Nat := 110

/-- What an archive says of a member. -/
structure MemberHeader where
  inode : UInt32 := 0
  mode : UInt32 := 0
  uid : UInt32 := 0
  gid : UInt32 := 0
  nlink : UInt32 := 0
  mtime : UInt32 := 0
  fileSize : UInt32 := 0
  devMajor : UInt32 := 0
  devMinor : UInt32 := 0
  rdevMajor : UInt32 := 0
  rdevMinor : UInt32 := 0
  checksum : UInt32 := 0
  name : String
  deriving DecidableEq, Repr

/-! ### Fields -/

def fieldText (n : Nat) : String := String.ofList (hexDigits 8 n [])

/-- The number in the text of a field: hexadecimal digits of either case, after at most one plus
sign. -/
def ofFieldText? (s : String) : Option UInt32 :=
  let digits :=
    match s.toList with
    | '+' :: digits => digits
    | digits => digits
  (ofHexDigits? 0 digits).map UInt32.ofNat

def readField (s : Source) : Except ArchiveError (UInt32 × Source) := do
  let (bytes, s) ← (s.readExact 8).mapError .stream
  match String.fromUTF8? bytes with
  | none => throw .fieldNotText
  | some text =>
    match ofFieldText? text with
    | none => throw (.fieldNotHex text)
    | some n => return (n, s)

namespace MemberHeader

/-- The header of a regular file; type bits among the permissions do not count. -/
def file (name : String) (permissions fileSize : UInt32) : MemberHeader :=
  { mode := regularFile ||| (permissions &&& ~~~typeMask), nlink := 1, fileSize, name }

def ofDirectory (name : String) (permissions : UInt32) : MemberHeader :=
  { mode := directory ||| (permissions &&& ~~~typeMask), nlink := 2, name }

def symlink (name : String) (permissions targetSize : UInt32) : MemberHeader :=
  { mode := symbolicLink ||| (permissions &&& ~~~typeMask), nlink := 1, fileSize := targetSize,
    name }

def trailer : MemberHeader := { nlink := 1, name := trailerName }

def permissions (h : MemberHeader) : UInt32 := h.mode &&& ~~~typeMask

def fileType (h : MemberHeader) : UInt32 := h.mode &&& typeMask

def isFile (h : MemberHeader) : Bool := h.fileType = regularFile

def isDirectory (h : MemberHeader) : Bool := h.fileType = directory

def isSymlink (h : MemberHeader) : Bool := h.fileType = symbolicLink

/-- The numbers in the fields of a header, in their order. The last but one is the size of the name
with its zero byte. -/
def fields (h : MemberHeader) : List Nat :=
  [h.inode.toNat, h.mode.toNat, h.uid.toNat, h.gid.toNat, h.nlink.toNat, h.mtime.toNat,
    h.fileSize.toNat, h.devMajor.toNat, h.devMinor.toNat, h.rdevMajor.toNat, h.rdevMinor.toNat,
    h.name.utf8ByteSize + 1, h.checksum.toNat]

def content (h : MemberHeader) : ByteArray :=
  magic ++ concat (h.fields.map fun n => (fieldText n).toUTF8) ++ terminated h.name

def bytes (h : MemberHeader) : ByteArray :=
  h.content ++ replicateByte (paddingFor 4 h.content.size) 0

/-- Writes a header; the number is that of the bytes it has. -/
def write {τ : Type} [ByteSink τ] (h : MemberHeader) (sink : τ) :
    τ × Except ArchiveError Nat :=
  if holdsNul h.name then (sink, .error (.nameHoldsNul h.name))
  else
    match ByteSink.write sink h.bytes with
    | (sink, .error e) => (sink, .error (.stream e))
    | (sink, .ok ()) => (sink, .ok h.bytes.size)

/-- Reads a header from a source that is just behind the magic number. -/
def read (s : Source) : Except ArchiveError (MemberHeader × Source) := do
  let (inode, s) ← readField s
  let (mode, s) ← readField s
  let (uid, s) ← readField s
  let (gid, s) ← readField s
  let (nlink, s) ← readField s
  let (mtime, s) ← readField s
  let (fileSize, s) ← readField s
  let (devMajor, s) ← readField s
  let (devMinor, s) ← readField s
  let (rdevMajor, s) ← readField s
  let (rdevMinor, s) ← readField s
  let (nameSize, s) ← readField s
  let (checksum, s) ← readField s
  let (nameBytes, s) ← (s.readExact nameSize.toNat).mapError .stream
  match ofTerminated? nameBytes with
  | none => throw .nameNotText
  | some name =>
    let (_, s) ← (s.readExact (paddingFor 4 (headerSize + nameSize.toNat))).mapError .stream
    return (⟨inode, mode, uid, gid, nlink, mtime, fileSize, devMajor, devMinor, rdevMajor,
      rdevMinor, checksum, name⟩, s)

end MemberHeader

end Rpm.Archive

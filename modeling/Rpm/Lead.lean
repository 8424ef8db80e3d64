import Rpm.Bytes.BigEndian
import Rpm.Bytes.Stream
import Rpm.Bytes.Terminated
import Rpm.Error
import Rpm.Text.Lossy

/-!
The lead: the 96 bytes at the front of a package file.

It holds a few fields that older readers look at; a name of more than 65 bytes is cut.
-/

namespace Rpm

inductive PackageKind where
  | binary
  | source
  deriving DecidableEq, Repr

def PackageKind.code : PackageKind → UInt16
  | binary => 0
  | source => 1

/-- The names of architectures by their number. Names that are not here have the number zero. -/
def architectures : List (UInt16 × List String) := [
  (1, ["i386", "i486", "i586", "i686", "athlon", "pentium3", "pentium4", "x86_64", "amd64",
    "ia32e"]),
  (2, ["alpha", "alphaev5", "alphaev56", "alphaev6", "alphaev67"]),
  (3, ["sparc", "sparcv8", "sparcv9", "sparc64", "sparc64v"]),
  (4, ["mips", "mipsel", "mipsr6", "mipsr6el"]),
  (5, ["ppc", "ppc8260", "ppc8560", "ppc32dy4", "ppciseries", "ppcpseries"]),
  (6, ["m68k"]),
  (9, ["ia64"]),
  (11, ["mips64", "mips64el", "mips64r6", "mips64r6el"]),
  (12, ["armv3l", "armv4b", "armv4l", "armv5tel", "armv5tejl", "armv6l", "armv6hl", "armv7l",
    "armv7hl", "armv7hnl", "armv8l", "armv8hl"]),
  (14, ["s390"]),
  (15, ["s390x"]),
  (16, ["ppc64", "ppc64le", "ppc64p7", "ppc64iseries", "ppc64pseries"]),
  (17, ["sh", "sh3", "sh4", "sh4a"]),
  (19, ["aarch64"]),
  (22, ["riscv64"])]

def architectureCode (name : String) : UInt16 :=
  match architectures.find? fun (_, names) => names.contains name with
  | some (code, _) => code
  | none => 0

structure Lead where
  major : UInt8
  minor : UInt8
  kind : UInt16
  architecture : UInt16
  name : String
  os : UInt16
  signatureType : UInt16
  deriving DecidableEq, Repr

namespace Lead

/-- The lead of a package for Linux with a signature header, in the format that readers know. -/
def new (kind : PackageKind) (architecture name : String) : Lead where
  major := 3
  minor := 0
  kind := kind.code
  architecture := architectureCode architecture
  name := name
  os := 1
  signatureType := 5

def size : Nat := 96

def magic : ByteArray := ⟨#[0xed, 0xab, 0xee, 0xdb]⟩

/-- The field of 66 bytes that holds a name: at most 65 bytes of it, and zeros. -/
def nameField (name : String) : ByteArray :=
  let kept := name.toUTF8.extract 0 65
  kept ++ replicateByte (66 - kept.size) 0

def nameOfField (field : ByteArray) : String :=
  Text.lossy (field.extract 0 ((nulFrom field field.size 0).getD field.size))

def bytes (l : Lead) : ByteArray :=
  magic ++ bigEndian 1 l.major.toNat ++ bigEndian 1 l.minor.toNat ++ bigEndian 2 l.kind.toNat ++
    bigEndian 2 l.architecture.toNat ++ nameField l.name ++ bigEndian 2 l.os.toNat ++
    bigEndian 2 l.signatureType.toNat ++ replicateByte 16 0

def ofBytes (data : ByteArray) : Except Error Lead :=
  let major := byteAt data 4
  let minor := byteAt data 5
  if data.extract 0 4 ≠ magic then .error .badLeadMagic
  else if major ≠ 3 then .error (.unsupportedLeadVersion major minor)
  else .ok
    { major, minor
      kind := UInt16.ofNat (ofBigEndian (data.extract 6 8))
      architecture := UInt16.ofNat (ofBigEndian (data.extract 8 10))
      name := nameOfField (data.extract 10 76)
      os := UInt16.ofNat (ofBigEndian (data.extract 76 78))
      signatureType := UInt16.ofNat (ofBigEndian (data.extract 78 80)) }

def readError : StreamError → Error
  | .unexpectedEnd => .badLeadMagic
  | e => .stream e

def read (s : Source) : Except Error (Lead × Source) := do
  let (data, s) ← (s.readExact size).mapError readError
  let lead ← ofBytes data
  return (lead, s)

def write {τ : Type} [ByteSink τ] (l : Lead) (sink : τ) : τ × Except Error Unit :=
  let (sink, r) := ByteSink.write sink l.bytes
  (sink, r.mapError .stream)

end Lead

end Rpm

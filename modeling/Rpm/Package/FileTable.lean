import Rpm.Archive.Member
import Rpm.Header
import Rpm.Payload.Recorder

/-!
The arrays of a metadata header that describe the files of a package.

All have one element for each file, in the order of the payload, but for the names of directories:
there is one for each directory, in the order of the first file in it, and files refer to it by its
position.
-/

namespace Rpm

structure FileOptions where
  permissions : UInt32
  user : String := "root"
  group : String := "root"
  flags : UInt32 := 0
  /-- The time of the last change, if it is not that of the build. -/
  mtime : Option UInt32 := none
  deriving DecidableEq, Repr

/-- What a header says of a file. -/
structure FileRecord where
  directory : String
  baseName : String
  size : Nat
  mode : UInt16
  mtime : UInt32
  /-- The digest of a regular file in hexadecimal digits, and nothing for others. -/
  digest : String
  /-- The target of a symbolic link, and nothing for others. -/
  linkTo : String
  flags : UInt32
  user : String
  group : String
  inode : UInt32
  deriving DecidableEq, Repr

namespace FileRecord

def directoryOf (path : String) : String :=
  String.ofList (path.toList.reverse.dropWhile (· ≠ '/')).reverse

def baseNameOf (path : String) : String :=
  String.ofList (path.toList.reverse.takeWhile (· ≠ '/')).reverse

def ofEntry (entry : PayloadEntry) (fileType : UInt32) (linkTo : String) (options : FileOptions)
    (mtime : UInt32) : FileRecord where
  directory := directoryOf entry.path
  baseName := baseNameOf entry.path
  size := entry.size
  mode := (fileType ||| (options.permissions &&& ~~~Archive.typeMask)).toUInt16
  mtime := mtime
  digest := (entry.digest.map hexText).getD ""
  linkTo := linkTo
  flags := options.flags
  user := options.user
  group := options.group
  inode := entry.inode

end FileRecord

/-- The strings of a list in the order in which they first occur. -/
def firstOccurrences (strings : List String) : List String :=
  strings.foldl (fun seen s => if seen.contains s then seen else seen ++ [s]) []

def directories (files : List FileRecord) : List String :=
  firstOccurrences (files.map (·.directory))

def totalSize (files : List FileRecord) : Nat := files.foldr (fun f n => f.size + n) 0

namespace Header

/-- Sets the sizes of files, with more bits if one of them needs that. -/
def setFileSizes (h : Header .metadata) (files : List FileRecord) :
    Except Error (Header .metadata) :=
  if files.all fun f => f.size < 2 ^ 32 then
    h.set MetadataTag.fileSizes (.int32 (files.map fun f => UInt32.ofNat f.size))
  else h.set MetadataTag.longFileSizes (.int64 (files.map fun f => UInt64.ofNat f.size))

open MetadataTag in
/-- Sets the arrays that describe files, if there are any. -/
def setFiles (h : Header .metadata) (files : List FileRecord) (algorithm : DigestAlgorithm) :
    Except Error (Header .metadata) :=
  if files.isEmpty then .ok h
  else do
    let directories := directories files
    let h ← h.setFileSizes files
    let h ← h.set fileModes (.int16 (files.map (·.mode)))
    let h ← h.set fileRdevs (.int16 (files.map fun _ => 0))
    let h ← h.set fileMtimes (.int32 (files.map (·.mtime)))
    let h ← h.set fileDigests (.stringArray (files.map (·.digest)))
    let h ← h.set fileLinkTos (.stringArray (files.map (·.linkTo)))
    let h ← h.set fileFlags (.int32 (files.map (·.flags)))
    let h ← h.set fileUserName (.stringArray (files.map (·.user)))
    let h ← h.set fileGroupName (.stringArray (files.map (·.group)))
    let h ← h.set fileVerifyFlags (.int32 (files.map fun _ => 0xffffffff))
    let h ← h.set fileDevices (.int32 (files.map fun _ => 1))
    let h ← h.set fileInodes (.int32 (files.map (·.inode)))
    let h ← h.set fileLangs (.stringArray (files.map fun _ => ""))
    let h ← h.set fileDigestAlgo algorithm.id
    let h ← h.set dirIndexes
      (.int32 (files.map fun f => UInt32.ofNat (directories.idxOf f.directory)))
    let h ← h.set baseNames (.stringArray (files.map (·.baseName)))
    h.set dirNames (.stringArray directories)

end Header

end Rpm

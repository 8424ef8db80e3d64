import Rpm.Archive.Cursor
import Rpm.Payload.Recorder
import Rpm.Proofs.Bytes

/-!
What a recorder is asked for.

A recorder is asked to add a processor, or a file of some kind. From what a file is asked for with
follow its member, its entry and what is wrong with it, if anything is; so the recorder is not spoken
of here.
-/

namespace Rpm

open Archive

/-! ### Modes -/

lemma or_and_and (bits others mask mask' : UInt32) :
    (bits ||| (others &&& mask)) &&& mask' = (bits &&& mask') ||| (others &&& (mask &&& mask')) := by
  refine UInt32.toBitVec_inj.mp (BitVec.eq_of_getLsbD_eq fun i hi => ?_)
  simp only [UInt32.toBitVec_and, UInt32.toBitVec_or, BitVec.getLsbD_and, BitVec.getLsbD_or,
    Bool.and_or_distrib_right, Bool.and_assoc]

lemma or_and_not_and (bits others mask : UInt32) :
    (bits ||| (others &&& ~~~mask)) &&& mask = bits &&& mask := by
  rw [or_and_and]
  simp

/-! ### Sizes in fields -/

lemma toNat_ofNat_le (n : Nat) : (UInt32.ofNat n).toNat ≤ n := by
  rw [UInt32.toNat_ofNat']
  exact Nat.mod_le _ _

lemma size_extract_ofNat (data : ByteArray) :
    (data.extract 0 (UInt32.ofNat data.size).toNat).size = (UInt32.ofNat data.size).toNat := by
  have hle := toNat_ofNat_le data.size
  rw [ByteArray.size_extract]
  omega

lemma extract_ofNat {data : ByteArray} (hsize : data.size < 2 ^ 32) :
    data.extract 0 (UInt32.ofNat data.size).toNat = data := by
  have hnat : (UInt32.ofNat data.size).toNat = data.size := UInt32.toNat_ofNat_of_lt hsize
  rw [hnat, ByteArray.extract_zero_size]

/-! ### Files -/

/-- What a file in a payload can be. -/
inductive FileKind where
  | regular
  | directory
  | symbolicLink
  deriving DecidableEq

namespace FileKind

/-- The type bits of a mode. -/
def bits : FileKind → UInt32
  | regular => regularFile
  | directory => Archive.directory
  | symbolicLink => Archive.symbolicLink

lemma bits_eq_regularFile_iff (kind : FileKind) : kind.bits = regularFile ↔ kind = regular := by
  cases kind <;> decide

end FileKind

/-- A file that a recorder is asked to add: a path in any spelling, and what the archive is to say of
the file and to hold. -/
structure FileRequest where
  path : String
  kind : FileKind
  permissions : UInt32
  mtime : UInt32
  content : ByteArray

namespace FileRequest

/-- The member of a file, but for its number. -/
def member (q : FileRequest) (path : String) : Member where
  header :=
    { mode := q.kind.bits ||| (q.permissions &&& ~~~typeMask)
      nlink := if q.kind = .directory then 2 else 1
      mtime := q.mtime
      fileSize := UInt32.ofNat q.content.size
      name := Path.archiveName path }
  data := q.content.extract 0 (UInt32.ofNat q.content.size).toNat

/-- The entry of a file. -/
def entry (q : FileRequest) (fileDigest : DigestAlgorithm) (path : String) (inode : UInt32) :
    PayloadEntry where
  path := path
  inode := inode
  size := q.content.size
  digest := if q.kind = .regular then some (fileDigest.digest q.content) else none

/-- Whether a file was added as it was asked for, under a number. -/
structure AddedAs (q : FileRequest) (fileDigest : DigestAlgorithm) (inode : UInt32)
    (e : PayloadEntry) : Prop where
  path : Path.normalize q.path = .ok e.path
  eq_entry : e = q.entry fileDigest e.path inode
  /-- Only the target of a symbolic link could be larger than a member may be. -/
  size_lt : q.kind ≠ .symbolicLink → q.content.size < 2 ^ 32

variable (q : FileRequest) (path : String)

lemma fileType_member : (q.member path).header.fileType = q.kind.bits := by
  have hbits : q.kind.bits &&& typeMask = q.kind.bits := by cases q.kind <;> rfl
  exact (or_and_not_and _ _ _).trans hbits

/-- The type bits are not among the permissions, which are otherwise those that were given. -/
lemma permissions_member :
    (q.member path).header.permissions = q.permissions &&& ~~~typeMask := by
  have hbits : q.kind.bits = q.kind.bits &&& ~~~(~~~typeMask) := by cases q.kind <;> rfl
  simp only [MemberHeader.permissions, member]
  rw [hbits, UInt32.or_comm, or_and_not_and, UInt32.and_assoc, UInt32.and_self]

lemma data_member (hsize : q.content.size < 2 ^ 32) : (q.member path).data = q.content :=
  extract_ofNat hsize

lemma size_data_member : (q.member path).data.size = (q.member path).header.fileSize.toNat :=
  size_extract_ofNat q.content

end FileRequest

/-! ### Calls -/

/-- A call of a recorder that is not to be finished yet. -/
inductive RecorderCall (σ : Type) where
  | addProcessor (processor : σ)
  | addFile (path : String) (data : ByteArray) (permissions mtime : UInt32)
  | addSource (path : String) (source : Source) (permissions mtime : UInt32)
  | addDirectory (path : String) (permissions mtime : UInt32)
  | addSymlink (path target : String) (mtime : UInt32)

namespace RecorderCall

variable {σ : Type}

def processor? : RecorderCall σ → Option σ
  | addProcessor processor => some processor
  | _ => none

def request? : RecorderCall σ → Option FileRequest
  | addProcessor _ => none
  | addFile path data permissions mtime => some ⟨path, .regular, permissions, mtime, data⟩
  | addSource path source permissions mtime =>
    some ⟨path, .regular, permissions, mtime, source.rest⟩
  | addDirectory path permissions mtime =>
    some ⟨path, .directory, permissions, mtime, ByteArray.empty⟩
  | addSymlink path target mtime => some ⟨path, .symbolicLink, 0o777, mtime, target.toUTF8⟩

def pathFault? (path : String) : Option Error :=
  match Path.normalize path with
  | .error e => some e
  | .ok _ => none

def fileFault? (path : String) (data : ByteArray) : Option Error :=
  match Path.normalize path with
  | .error e => some e
  | .ok path => if data.size ≥ 2 ^ 32 then some (.archive (.memberTooLarge path)) else none

def sourceFault? (path : String) (source : Source) : Option Error :=
  match source.failure with
  | some e => some (.streamDuring .spooling e)
  | none => fileFault? path source.rest

def targetFault? (path target : String) : Option Error :=
  match Path.normalize path with
  | .error e => some e
  | .ok _ => if Recorder.isTarget target then none else some (.invalidPath target)

/-- What is wrong with a call, after a file was added or before that. -/
def fault? (started : Bool) : RecorderCall σ → Option Error
  | addProcessor _ => if started then some (.protocol .payloadProcessorsFirst) else none
  | addFile path data _ _ => fileFault? path data
  | addSource path source _ _ => sourceFault? path source
  | addDirectory path _ _ => pathFault? path
  | addSymlink path target _ => targetFault? path target

lemma processor?_eq_none {c : RecorderCall σ} {q : FileRequest} (h : c.request? = some q) :
    c.processor? = none := by
  cases c with
  | addProcessor processor => contradiction
  | _ => rfl

end RecorderCall

end Rpm

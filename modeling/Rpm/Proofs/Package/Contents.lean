import Rpm.Package.Builder
import Rpm.Proofs.Payload.Recording

/-!
What a builder puts into a payload, and what it says of it.

From the path and the settings of a file follow the member that it becomes in the archive and the
record that the header has of it. The number of both is that of the place of the file.
-/

namespace Rpm

open Archive

/-! ### Sources -/

namespace FileSource

/-- The content of a file: that of a symbolic link is its target. -/
def content : FileSource → ByteArray
  | data bytes => bytes
  | stored none => ByteArray.empty
  | stored (some file) => file.content
  | directory => ByteArray.empty
  | symlink target => target.toUTF8

def kind : FileSource → FileKind
  | data _ | stored _ => .regular
  | directory => .directory
  | symlink _ => .symbolicLink

/-- The permissions of a member: those that are given, but all symbolic links have the same. -/
def memberPermissions (permissions : UInt32) : FileSource → UInt32
  | symlink _ => 0o777
  | _ => permissions

variable (source : FileSource)

lemma bits_kind : source.kind.bits = source.fileType := by
  cases source <;> rfl

lemma toUTF8_linkTo : source.linkTo.toUTF8 =
    if source.fileType = symbolicLink then source.content else ByteArray.empty := by
  cases source <;> rfl

/-- Only the target of a symbolic link could be larger than a member may be. -/
lemma size_content_lt (hregular : source.fileType = regularFile → source.content.size < 2 ^ 32)
    (hlinkTo : source.linkTo.utf8ByteSize < 2 ^ 32) : source.content.size < 2 ^ 32 := by
  cases source with
  | data | stored => exact hregular rfl
  | directory => exact Nat.two_pow_pos 32
  | symlink target => exact hlinkTo

end FileSource

/-! ### Files -/

namespace PackageFile

variable (file : PackageFile) (path : String) (buildTime : UInt32)

def mtime : UInt32 := file.options.mtime.getD buildTime

/-- What a recorder is asked for with a file. -/
def request : FileRequest where
  path := path
  kind := file.source.kind
  permissions := file.source.memberPermissions file.options.permissions
  mtime := file.mtime buildTime
  content := file.source.content

/-- The member that a file becomes, but for the number. -/
def member : Member := (file.request path buildTime).member path

def record (algorithm : DigestAlgorithm) (inode : UInt32) : FileRecord :=
  .ofEntry ((file.request path buildTime).entry algorithm path inode) file.source.fileType
    file.source.linkTo file.options (file.mtime buildTime)

lemma fileType_member : (file.member path buildTime).header.fileType = file.source.fileType :=
  (FileRequest.fileType_member _ path).trans file.source.bits_kind

lemma hexText_digest_entry (algorithm : DigestAlgorithm) (inode : UInt32) :
    ((((file.request path buildTime).entry algorithm path inode).digest).map hexText).getD "" =
      if file.source.fileType = regularFile then algorithm.digestHex file.source.content
      else "" := by
  obtain ⟨source, options⟩ := file
  cases source <;> rfl

end PackageFile

namespace PackageBuilder

open Recorder

variable {flags : PayloadFlags} {fileDigest : DigestAlgorithm} {processors : List PayloadDigester}
  {members : List Member} {r : Recorder PayloadDigester} {file : PackageFile} {path : String}
  {buildTime : UInt32} {files : List (String × PackageFile)} {records : List FileRecord}

lemma exists_added_record (path : String) (file : PackageFile) (buildTime : UInt32) :
    ∃ fault?, Added flags fileDigest processors members (file.request path buildTime) fault?
      (record (filled flags fileDigest processors members) path file (file.mtime buildTime)) := by
  obtain ⟨source, options⟩ := file
  cases source with
  | data bytes => exact ⟨_, added_addFile path bytes _ _⟩
  | stored stored =>
    cases stored with
    | none => exact ⟨some _, .failed rfl⟩
    | some stored =>
      have hadded : Added flags fileDigest processors members _ _ _ :=
        added_addFile path stored.content options.permissions (options.mtime.getD buildTime)
      rw [← addContent_eq] at hadded
      exact ⟨_, hadded⟩
  | directory => exact ⟨_, added_addDirectory path _ _⟩
  | symlink target => exact ⟨_, added_addSymlink path target _⟩

lemma eq_of_record (hpath : Path.normalize path = .ok path) {entry : PayloadEntry}
    (h : record (filled flags fileDigest processors members) path file (file.mtime buildTime) =
      (r, .ok entry)) :
    r = filled flags fileDigest processors (members ++ [file.member path buildTime]) ∧
      entry = (file.request path buildTime).entry fileDigest path
        (UInt32.ofNat (members.length + 1)) ∧
      (file.source.fileType = regularFile → file.source.content.size < 2 ^ 32) := by
  obtain ⟨fault?, hadded⟩ : ∃ fault?, Added flags fileDigest processors members
    (file.request path buildTime) fault? _ := exists_added_record path file buildTime
  rw [h] at hadded
  cases hadded with
  | added hfault hadded =>
    obtain rfl : path = entry.path := Except.ok.inj (hpath.symm.trans hadded.path)
    refine ⟨rfl, hadded.eq_entry, fun htype => hadded.size_lt fun hkind => ?_⟩
    have hlink : file.source.fileType = symbolicLink := by
      rw [← file.source.bits_kind]
      exact congrArg FileKind.bits hkind
    exact absurd (htype.symm.trans hlink) (by decide)

lemma recordAll_cons_eq_ok {r' : Recorder PayloadDigester}
    (h : recordAll r buildTime ((path, file) :: files) = .ok (r', records)) :
    ∃ added entry rest, record r path file (file.mtime buildTime) = (added, .ok entry) ∧
      recordAll added buildTime files = .ok (r', rest) ∧
      records = FileRecord.ofEntry entry file.source.fileType file.source.linkTo file.options
        (file.mtime buildTime) :: rest := by
  rw [recordAll] at h
  simp only at h
  split at h
  · simp at h
  · rename_i added entry hrecord
    obtain ⟨⟨r'', rest⟩, hrest, hpure⟩ := bind_eq_ok_iff.mp h
    obtain ⟨rfl, rfl⟩ := Prod.mk.inj (pure_eq_ok_iff.mp hpure)
    exact ⟨added, entry, rest, hrecord, hrest, rfl⟩

/-- **Adding files** puts the member of each into the archive, and gives the record of each, under the
numbers of their places. -/
lemma recordAll_filled (hpaths : ∀ f ∈ files, Path.normalize f.1 = .ok f.1)
    (h : recordAll (filled flags fileDigest processors members) buildTime files =
      .ok (r, records)) :
    r = filled flags fileDigest processors
        (members ++ files.map fun f => f.2.member f.1 buildTime) ∧
      records = (files.mapIdx fun i f =>
        f.2.record f.1 buildTime fileDigest (UInt32.ofNat (members.length + i + 1))) ∧
      ∀ f ∈ files, f.2.source.fileType = regularFile → f.2.source.content.size < 2 ^ 32 := by
  -- The numbers of the other files begin behind the first one, hence for any members.
  induction files generalizing members records with
  | nil =>
    obtain ⟨rfl, rfl⟩ := Prod.mk.inj (Except.ok.inj h)
    simp
  | cons f files ih =>
    obtain ⟨path, file⟩ := f
    obtain ⟨added, entry, rest, hrecord, hrest, rfl⟩ := recordAll_cons_eq_ok h
    obtain ⟨rfl, rfl, hsize⟩ := eq_of_record (hpaths (path, file) (by simp)) hrecord
    obtain ⟨rfl, rfl, hsizes⟩ := ih (fun f hf => hpaths f (by simp [hf])) hrest
    refine ⟨by simp, ?_, fun f hf => ?_⟩
    · simp only [List.mapIdx_cons, List.length_append, List.length_singleton, Nat.add_zero]
      refine congrArg₂ _ rfl (congrArg₂ _ (funext fun i => ?_) rfl)
      rw [Nat.add_right_comm members.length 1 i, Nat.add_assoc members.length i 1]
    · rcases List.mem_cons.mp hf with rfl | hf
      · exact hsize
      · exact hsizes f hf

end PackageBuilder

end Rpm

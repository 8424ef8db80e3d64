import Rpm.Proofs.Package.Build

/-!
Modes of packaged files.

The mode of a file stands in a package twice: in an array of the metadata header, and in front of the
member. Both have the bits of its type, but the permissions come to them on two ways. The array has
room for sixteen bits, and a member for more; and the member of a symbolic link has the permissions
that all links have, whatever it was registered with. So the two modes are the same exactly for those
files whose permissions come out alike on both ways.
-/

namespace Rpm

open Archive Header Writer

/-! ### Words -/

lemma toUInt32_toUInt16_eq (n : UInt32) : n.toUInt16.toUInt32 = n &&& 0xffff := by
  refine UInt32.toNat_inj.mp ?_
  rw [UInt32.toNat_and]
  exact (Nat.and_two_pow_sub_one_eq_mod _ 16).symm

lemma toUInt32_toUInt16_eq_self_iff {n : UInt32} : n.toUInt16.toUInt32 = n ↔ n < 0x10000 := by
  rw [UInt32.toUInt32_toUInt16, ← UInt32.toNat_inj, UInt32.lt_iff_toNat_lt, UInt32.toNat_mod]
  exact Nat.mod_eq_iff_lt (by decide)

lemma or_lt {a b : UInt32} (ha : a < 0x10000) (hb : b < 0x10000) : a ||| b < 0x10000 := by
  rw [UInt32.lt_iff_toNat_lt] at ha hb ⊢
  rw [UInt32.toNat_or]
  exact Nat.or_lt_two_pow (n := 16) ha hb

/-! ### Two ways to a mode -/

/-- Permissions are cut to sixteen bits in an array, of which four are those of the type. -/
lemma toUInt32_mode {fileType : UInt32} (htype : fileType &&& 0xffff = fileType)
    (permissions : UInt32) :
    (fileType ||| (permissions &&& ~~~typeMask)).toUInt16.toUInt32 =
      fileType ||| (permissions &&& 0o7777) := by
  have hmask : ~~~typeMask &&& 0xffff = 0o7777 := by decide
  rw [toUInt32_toUInt16_eq, or_and_and, htype, hmask]

lemma mode_lt_iff {fileType permissions : UInt32} (htype : fileType < 0x10000) :
    fileType ||| (permissions &&& ~~~typeMask) < 0x10000 ↔ permissions < 0x10000 := by
  constructor
  · intro hmode
    have hsplit : (permissions &&& typeMask) ||| (permissions &&& ~~~typeMask) = permissions := by
      refine UInt32.toBitVec_inj.mp (BitVec.eq_of_getLsbD_eq fun i hi => ?_)
      simp only [UInt32.toBitVec_and, UInt32.toBitVec_or, UInt32.toBitVec_not, BitVec.getLsbD_and,
        BitVec.getLsbD_or, BitVec.getLsbD_not, hi, decide_true, Bool.true_and]
      cases typeMask.toBitVec.getLsbD i <;> simp
    rw [← hsplit]
    exact or_lt (UInt32.lt_of_le_of_lt UInt32.and_le_right (by decide))
      (UInt32.lt_of_le_of_lt UInt32.right_le_or hmode)
  · intro hpermissions
    exact or_lt htype (UInt32.lt_of_le_of_lt UInt32.and_le_left hpermissions)

lemma linkMode_eq_iff {permissions : UInt32} :
    symbolicLink ||| (permissions &&& 0o7777) = symbolicLink ||| (0o777 &&& ~~~typeMask) ↔
      permissions &&& 0o7777 = 0o777 := by
  have hlink : symbolicLink &&& 0o7777 = 0 := by decide
  have hmask : (0o7777 : UInt32) &&& 0o7777 = 0o7777 := by decide
  have husual : (symbolicLink ||| (0o777 &&& ~~~typeMask)) &&& 0o7777 = 0o777 := by decide
  constructor
  · intro h
    have hmasked := congrArg (· &&& 0o7777) h
    simp only [or_and_and, hlink, hmask, husual, UInt32.zero_or] at hmasked
    exact hmasked
  · intro h
    rw [h]
    decide

namespace PackageFile

/-- Whether the permissions of a file come to its member as they come to the header. Those of a
symbolic link have to be the ones that links have anyway, and others must not need more bits than the
header has. -/
def KeepsMode (file : PackageFile) : Prop :=
  match file.source with
  | .symlink _ => file.options.permissions &&& 0o7777 = 0o777
  | _ => file.options.permissions < 0x10000

variable (file : PackageFile) (path : String) (buildTime : UInt32) (algorithm : DigestAlgorithm)
  (inode : UInt32)

/-- **The modes of a file** in a header and in front of its member are the same exactly if its
permissions come to both alike. -/
lemma mode_record_eq_iff : (file.record path buildTime algorithm inode).mode.toUInt32 =
    (file.member path buildTime).header.mode ↔ file.KeepsMode := by
  obtain ⟨source, options⟩ := file
  cases source with
  | data | stored =>
    exact toUInt32_toUInt16_eq_self_iff.trans
      (mode_lt_iff (show regularFile < 0x10000 by decide))
  | directory =>
    exact toUInt32_toUInt16_eq_self_iff.trans
      (mode_lt_iff (show Archive.directory < 0x10000 by decide))
  | symlink target =>
    have hlink : symbolicLink &&& 0xffff = symbolicLink := by decide
    have hrecord := toUInt32_mode hlink options.permissions
    exact (Eq.congr_left hrecord).trans linkMode_eq_iff

end PackageFile

/-! ### All files -/

/-- Whether a header has a mode for each file of a package, and an archive a member, such that the
mode is that of the member exactly where the permissions come to both alike. -/
structure Header.ModesOf (h : Header .metadata) (files : List (String × PackageFile))
    (members : List Member) : Prop where
  length_eq : members.length = files.length
  get_eq : ∃ modes, modes.length = members.length ∧
    h.get MetadataTag.fileModes = (if members = [] then none else some (.int16 modes)) ∧
    ∀ (i : Nat) (path : String) (file : PackageFile) (m : Member) (mode : UInt16),
      files[i]? = some (path, file) → members[i]? = some m → modes[i]? = some mode →
        m.header.name = "." ++ path ∧ (mode.toUInt32 = m.header.mode ↔ file.KeepsMode)

namespace PackageBuilder

variable {b : PackageBuilder} {files : List (String × PackageFile)} {buildTime : UInt32}
  {algorithm : DigestAlgorithm} {h : Header .metadata}

lemma modesOf_of_hasFiles (hh : h.HasFiles (recordsOf files buildTime algorithm) algorithm) :
    h.ModesOf files (membersOf files buildTime) := by
  refine ⟨length_membersOf, (recordsOf files buildTime algorithm).map (·.mode), by simp, ?_, ?_⟩
  · split
    · rename_i hnone
      rw [recordsOf_eq_nil_iff.mpr hnone] at hh
      exact hh.get_eq_none (by decide)
    · rename_i hsome
      exact hh.get_eq_some (mt recordsOf_eq_nil_iff.mp hsome) (by decide) (by decide) rfl
  · intro i path file m mode hfile hm hmode
    rw [getElem?_membersOf, hfile] at hm
    rw [List.getElem?_map, recordsOf, List.getElem?_mapIdx, hfile] at hmode
    obtain rfl := Option.some.inj hm
    obtain rfl := Option.some.inj hmode
    exact ⟨rfl, file.mode_record_eq_iff path buildTime _ _⟩

/-- What a package was written with: the header that says the modes of its files, and a payload that
was compressed from an archive of their members. -/
lemma exists_modesOf_of_build {sink : Sink} (hpaths : ∀ f ∈ b.files, Path.normalize f.1 = .ok f.1)
    (written : (b.build sink).2 = .ok ()) :
    ∃ (parts : PackageParts) (header : Header .metadata) (members : List Member)
      (pieces : List ByteArray),
      (b.build sink).1.accepted = sink.accepted ++ parts.bytes ∧
      header.render true = .ok parts.header ∧ parts.payload = b.coding.compressor.run pieces ∧
      concat pieces = archiveBytes members ∧ header.ModesOf b.files members := by
  obtain ⟨payload, header, w, parts, hcontent, -, hparts, rfl, -, hfile⟩ := exists_of_build written
  obtain ⟨h, sig, hh, hheader, -, -, -, hpayload⟩ := parts_eq_ok hparts
  obtain ⟨flags, evr, buildTime, hflags, recorded, hmetadata, -⟩ := content_eq_ok hpaths hcontent
  obtain ⟨-, -, hdigests⟩ := Recorder.finish_eq_ok recorded
  obtain ⟨pieces, hpieces, hbytes, -⟩ := Recorder.finish_holding recorded
  have hfiles := hasFiles_fileHeader (hasFiles_metadataHeader hmetadata) hdigests hh
  exact ⟨parts, h, membersOf b.files buildTime, pieces, hfile, hheader,
    by rw [hpayload, hbytes, hflags], hpieces, modesOf_of_hasFiles hfiles⟩

/-- **Modes of a built package.** The metadata header has a mode for each file, and the archive that
the payload is compressed from has a member for it, both in the same order. The mode is that of the
member exactly for files whose permissions come to both alike: those of a symbolic link are the ones
that all links have, and those of other files have no more than sixteen bits. Within the limits of
readers, this is what is read of the package. -/
theorem modes_of_build {built : PackageBuilder} {registrations : List Registration} {sink : Sink}
    (unregistered : b.files = []) (registered : b.addFiles registrations = .ok built)
    (written : (built.build sink).2 = .ok ()) :
    (∃ (parts : PackageParts) (header : Header .metadata) (members : List Member)
      (pieces : List ByteArray),
      (built.build sink).1.accepted = sink.accepted ++ parts.bytes ∧
      header.render true = .ok parts.header ∧ parts.payload = built.coding.compressor.run pieces ∧
      concat pieces = archiveBytes members ∧ header.ModesOf built.files members) ∧
    (built.coding.Inverts → sink.accepted = ByteArray.empty →
      (∀ parts, built.parts = .ok parts →
        WithinLimits parts.signature ∧ WithinLimits parts.header) →
      ∃ p members, Package.read (Source.ofBytes (built.build sink).1.accepted) = .ok p ∧
        p.members = .ok members ∧ p.header.ModesOf built.files members) := by
  have hpaths := normalize_of_addFiles unregistered registered
  refine ⟨exists_modesOf_of_build hpaths written, fun inverts fresh limits => ?_⟩
  obtain ⟨p, buildTime, hread, hmembers, hfiles, -⟩ :=
    exists_members_of_build hpaths inverts fresh written limits
  exact ⟨p, _, hread, hmembers, modesOf_of_hasFiles hfiles⟩

/-! ### A package with unusual permissions -/

/-- A directory, a link that is to be read and written only, and a tool with a permission that has
seventeen bits. -/
def oddRegistrations : List Registration := [
  ⟨"/opt", .directory, { permissions := 0o755 }⟩,
  ⟨"/opt/link", .symlink "tool", { permissions := 0o644 }⟩,
  ⟨"/opt/tool", .data "tool".toUTF8, { permissions := 0o200755 }⟩]

def oddPackage : PackageBuilder :=
  { toolBuilder with files := oddRegistrations.map fun r => (r.path, ⟨r.source, r.options⟩) }

lemma addFiles_oddRegistrations : toolBuilder.addFiles oddRegistrations = .ok oddPackage := by
  have h₁ : Path.normalize "/opt" = .ok "/opt" := by decide +kernel
  have h₂ : Path.normalize "/opt/link" = .ok "/opt/link" := by decide +kernel
  have h₃ : Path.normalize "/opt/tool" = .ok "/opt/tool" := by decide +kernel
  have htarget : Recorder.isTarget "tool" = true := by decide +kernel
  have hgt : compare "/opt/link" "/opt" = .gt := by decide +kernel
  have hgt' : compare "/opt/tool" "/opt" = .gt := by decide +kernel
  have hgt'' : compare "/opt/tool" "/opt/link" = .gt := by decide +kernel
  simp only [addFiles, oddRegistrations, List.foldlM_cons, List.foldlM_nil, addFile, h₁, h₂, h₃,
    htarget, hgt, hgt', hgt'', bind, Except.bind, pure, Except.pure, insertFile, toolBuilder,
    oddPackage, Bool.not_true, Bool.false_eq_true, if_false, List.map_cons, List.map_nil]

lemma dependenciesOf_oddPackage (evr : Version) (kind : DependencyKind) :
    oddPackage.dependenciesOf evr kind = toolPackage.dependenciesOf evr kind := by
  cases kind <;> rfl

lemma content_oddPackage : ∃ content, oddPackage.content = .ok content ∧
    (content.1.flags = emptyRecorder.flags ∧ content.1.bytes.size < 2 ^ 31 ∧
      content.1.archiveSize < 2 ^ 32 ∧ content.1.payloadSize = content.1.bytes.size) ∧
    (∀ e ∈ content.2.entries, e.tag ≠ Namespace.metadata.region ∧ e.value.hasNul = false) ∧
    content.2.entries.length ≤ 100 ∧ roomFor content.2.entries ≤ 1000 := by
  refine exists_of_any ?_
  simp only [content, metadataHeader, setDependencies, dependenciesOf_oddPackage,
    canonical_toolPackage]
  decide +kernel

lemma written_oddPackage : (oddPackage.build ({} : Sink)).2 = .ok () ∧
    ∀ parts, oddPackage.parts = .ok parts →
      WithinLimits parts.signature ∧ WithinLimits parts.header := by
  obtain ⟨⟨payload, header⟩, hcontent, ⟨hflags, hsize⟩, hplaceable, hsmall⟩ := content_oddPackage
  exact written_of_small rfl hcontent hflags hsize
    (fun e he => ⟨(hplaceable e he).1, (hplaceable e he).2⟩) hsmall

theorem modes_of_build_oddPackage :
    ∃ p members, Package.read (Source.ofBytes (oddPackage.build ({} : Sink)).1.accepted) = .ok p ∧
      p.members = .ok members ∧ p.header.ModesOf oddPackage.files members := by
  obtain ⟨written, limits⟩ := written_oddPackage
  obtain ⟨-, hread⟩ := modes_of_build rfl addFiles_oddRegistrations written
  exact hread Coding.inverts_none rfl limits

/-- The header of this package has the permissions that were given for the link, of which its member
knows nothing, and for the tool those of the seventeen bits that fit. -/
theorem modes_differ_oddPackage :
    toolBuilder.addFiles oddRegistrations = .ok oddPackage ∧
      (oddPackage.build ({} : Sink)).2 = .ok () ∧
      ∃ p members, Package.read (Source.ofBytes (oddPackage.build ({} : Sink)).1.accepted) = .ok p ∧
        p.members = .ok members ∧
        p.header.get MetadataTag.fileModes = some (.int16 [0o040755, 0o120644, 0o100755]) ∧
        members.map (·.header.mode) = [0o040755, 0o120777, 0o300755] := by
  obtain ⟨written, limits⟩ := written_oddPackage
  have hpaths := normalize_of_addFiles rfl addFiles_oddRegistrations
  obtain ⟨p, buildTime, hread, hmembers, hfiles, -⟩ :=
    exists_members_of_build hpaths Coding.inverts_none rfl written limits
  have hne : recordsOf oddPackage.files buildTime oddPackage.fileDigest ≠ [] := by
    simp [recordsOf, oddPackage, oddRegistrations]
  have hmodes : (membersOf oddPackage.files buildTime).map (·.header.mode) =
      [0o040755, 0o120777, 0o300755] := by
    show [Archive.directory ||| (0o755 &&& ~~~typeMask), symbolicLink ||| (0o777 &&& ~~~typeMask),
      regularFile ||| (0o200755 &&& ~~~typeMask)] = _
    decide
  exact ⟨addFiles_oddRegistrations, written, p, _, hread, hmembers,
    hfiles.get_eq_some hne (by decide) (by decide) rfl, hmodes⟩

end PackageBuilder

end Rpm

import Rpm.Proofs.Package.Contents
import Rpm.Proofs.Package.FileTable
import Rpm.Proofs.Package.Registration
import Rpm.Proofs.Package.RoundTrip
import Rpm.Proofs.Text.Order

/-!
Built packages read back.

The members of the payload and the arrays of the header are made of the same files, in the same order.
Within the limits of readers, all names and numbers of members fit into their fields, so that the
archive is read as it was put together, and each element of an array stands where the member of its
file does.
-/

namespace Rpm

open Archive Header Writer

/-! ### What is read of one file -/

/-- Whether a header says of the file at a place what its member says, and both what the file was
registered as. -/
structure FileAgrees (h : Header .metadata) (algorithm : DigestAlgorithm) (i : Nat) (path : String)
    (file : PackageFile) (m : Member) : Prop where
  name : m.header.name = "." ++ path
  data : m.data = file.source.content
  fileType : m.header.fileType = file.source.fileType
  path : ∃ d directory base, h.numberAt MetadataTag.dirIndexes i = some d ∧
    h.textAt MetadataTag.dirNames d.toNat = some directory ∧
    h.textAt MetadataTag.baseNames i = some base ∧ directory ++ base = path
  size : h.numberAt MetadataTag.fileSizes i = some m.header.fileSize ∧
    m.header.fileSize.toNat = m.data.size
  mtime : h.numberAt MetadataTag.fileMtimes i = some m.header.mtime
  inode : h.numberAt MetadataTag.fileInodes i = some m.header.inode ∧ m.header.inode.toNat = i + 1
  linkTo : ∃ target, h.textAt MetadataTag.fileLinkTos i = some target ∧
    target.toUTF8 = if m.header.isSymlink then m.data else ByteArray.empty
  digest : h.textAt MetadataTag.fileDigests i =
    some (if m.header.isFile then algorithm.digestHex m.data else "")

/-- Whether the header and the payload of a package describe some files, each in its place. -/
structure Package.HoldsFiles (p : Package) (algorithm : DigestAlgorithm)
    (files : List (String × PackageFile)) (members : List Member) : Prop where
  members_eq : p.members = .ok members
  length_eq : members.length = files.length
  count_eq : ∀ tag ∈ perFileTags, (p.header.get tag).map Value.count =
    if members = [] then none else some members.length
  longFileSizes : p.header.get MetadataTag.longFileSizes = none
  dirNames : ∃ directories, directories.Nodup ∧ p.header.get MetadataTag.dirNames =
    if members = [] then none else some (.stringArray directories)
  agrees : ∀ i path file m, files[i]? = some (path, file) → members[i]? = some m →
    FileAgrees p.header algorithm i path file m

/-! ### Codings -/

/-- Whether a coding decompresses to what it compressed, in whatever pieces that arrived. -/
def Coding.Inverts (c : Coding) : Prop :=
  ∀ pieces, c.decompress (Source.ofBytes (c.compressor.run pieces)) = Source.ofBytes (concat pieces)

lemma Coding.inverts_none : Coding.none.Inverts :=
  fun pieces => congrArg Source.ofBytes (Compressor.run_identity pieces)

/-! ### Files and their members -/

namespace PackageFile

variable (file : PackageFile) {path : String} (buildTime : UInt32)

lemma size_data_member (path : String) : (file.member path buildTime).data.size =
    (file.member path buildTime).header.fileSize.toNat :=
  (file.request path buildTime).size_data_member path

lemma data_member (path : String) (hsize : file.source.content.size < 2 ^ 32) :
    (file.member path buildTime).data = file.source.content :=
  (file.request path buildTime).data_member path hsize

lemma sound_member (hpath : Path.normalize path = .ok path)
    (hsize : path.utf8ByteSize < 2 ^ 31) (inode : UInt32) :
    ((file.member path buildTime).withInode inode).Sound := by
  have hlength : path.utf8ByteSize + 2 < 2 ^ 32 := by omega
  exact Member.sound_withInode rfl hpath hlength (file.size_data_member buildTime path) inode

end PackageFile

namespace PackageBuilder

variable {files : List (String × PackageFile)} {buildTime : UInt32} {algorithm : DigestAlgorithm}
  {h : Header .metadata}

def recordsOf (files : List (String × PackageFile)) (buildTime : UInt32)
    (algorithm : DigestAlgorithm) : List FileRecord :=
  files.mapIdx fun i f => f.2.record f.1 buildTime algorithm (UInt32.ofNat (i + 1))

def membersOf (files : List (String × PackageFile)) (buildTime : UInt32) : List Member :=
  numbered (files.map fun f => f.2.member f.1 buildTime)

@[simp] lemma length_recordsOf : (recordsOf files buildTime algorithm).length = files.length :=
  List.length_mapIdx

@[simp] lemma length_membersOf : (membersOf files buildTime).length = files.length := by
  rw [membersOf, length_numbered, List.length_map]

lemma recordsOf_eq_nil_iff :
    recordsOf files buildTime algorithm = [] ↔ membersOf files buildTime = [] := by
  rw [← List.length_eq_zero_iff, ← List.length_eq_zero_iff, length_recordsOf, length_membersOf]

lemma size_lt_of_mem_recordsOf (hsizes : ∀ f ∈ files, f.2.source.content.size < 2 ^ 32) :
    ∀ f ∈ recordsOf files buildTime algorithm, f.size < 2 ^ 32 := by
  intro f hf
  obtain ⟨i, hi, rfl⟩ := List.mem_mapIdx.mp hf
  exact hsizes _ (List.getElem_mem hi)

lemma getElem?_membersOf (i : Nat) : (membersOf files buildTime)[i]? =
    files[i]?.map fun f => (f.2.member f.1 buildTime).withInode (UInt32.ofNat (i + 1)) := by
  rw [membersOf, getElem?_numbered, List.getElem?_map, Option.map_map]
  rfl

lemma sound_of_mem_membersOf (hpaths : ∀ f ∈ files, Path.normalize f.1 = .ok f.1)
    (hsizes : ∀ f ∈ files, f.1.utf8ByteSize < 2 ^ 31) :
    ∀ m ∈ membersOf files buildTime, m.Sound := by
  refine sound_of_mem_numbered fun m hm inode => ?_
  obtain ⟨f, hf, rfl⟩ := List.mem_map.mp hm
  exact f.2.sound_member buildTime (hpaths f hf) (hsizes f hf) inode

lemma fileAgrees_of_hasFiles (hh : h.HasFiles (recordsOf files buildTime algorithm) algorithm)
    (hsize : ∀ f ∈ files, f.2.source.content.size < 2 ^ 32) (hlength : files.length ≤ mostStoreSize)
    (hdirectories : (directories (recordsOf files buildTime algorithm)).length ≤ mostStoreSize)
    {i : Nat} {path : String} {file : PackageFile} (hfile : files[i]? = some (path, file)) :
    FileAgrees h algorithm i path file
      ((file.member path buildTime).withInode (UInt32.ofNat (i + 1))) := by
  set records := recordsOf files buildTime algorithm with hrecords
  have hrecord : records[i]? = some (file.record path buildTime algorithm (UInt32.ofNat (i + 1))) := by
    rw [hrecords, recordsOf, List.getElem?_mapIdx, hfile]
    rfl
  have hmem : (path, file) ∈ files := List.mem_of_getElem? hfile
  have hne : records ≠ [] := List.ne_nil_of_mem (List.mem_of_getElem? hrecord)
  have hlt : ∀ f ∈ records, f.size < 2 ^ 32 := size_lt_of_mem_recordsOf hsize
  set m : Member := (file.member path buildTime).withInode (UInt32.ofNat (i + 1)) with hm
  have hdata : m.data = file.source.content := file.data_member buildTime path (hsize _ hmem)
  have htype : m.header.fileType = file.source.fileType := file.fileType_member path buildTime
  exact {
    name := rfl
    data := hdata
    fileType := htype
    path := by
      obtain ⟨d, hd, hdirectory⟩ := hh.directory hrecord hdirectories
      refine ⟨d, _, _, hd, hdirectory, hh.text hrecord (by decide) (by decide) rfl, ?_⟩
      exact FileRecord.directoryOf_append_baseNameOf path
    size := by
      refine ⟨?_, (file.size_data_member buildTime path).symm⟩
      rw [numberAt_of_get (hh.get_fileSizes hne hlt), List.getElem?_map, hrecord]
      rfl
    mtime := (hh.number hrecord (by decide) (by decide) rfl).trans rfl
    inode := by
      have hi : i < files.length := (List.getElem?_eq_some_iff.mp hfile).1
      refine ⟨(hh.number hrecord (by decide) (by decide) rfl).trans rfl, ?_⟩
      exact UInt32.toNat_ofNat_of_lt (Nat.lt_of_le_of_lt hi (Nat.lt_of_le_of_lt hlength (by decide)))
    linkTo := by
      refine ⟨file.source.linkTo, (hh.text hrecord (by decide) (by decide) rfl).trans rfl, ?_⟩
      simp only [MemberHeader.isSymlink, htype, hdata, decide_eq_true_eq]
      exact file.source.toUTF8_linkTo
    digest := by
      refine (hh.text hrecord (by decide) (by decide) rfl).trans (congrArg some ?_)
      simp only [MemberHeader.isFile, htype, hdata, decide_eq_true_eq]
      exact file.hexText_digest_entry path buildTime algorithm _ }

/-- Within the limits of readers, there are not too many files, and no path or target is too long for
a member. -/
lemma size_lt_of_render (hh : h.HasFiles (recordsOf files buildTime algorithm) algorithm)
    {data : ByteArray} (rendered : h.render true = .ok data) (limits : WithinLimits data) :
    files.length ≤ mostStoreSize ∧
      (directories (recordsOf files buildTime algorithm)).length ≤ mostStoreSize ∧
      ∀ f ∈ files, f.1.utf8ByteSize < 2 ^ 31 ∧ f.2.source.linkTo.utf8ByteSize < 2 ^ 32 := by
  obtain ⟨hlength, hdirectories, hsmall⟩ := hh.small rendered limits
  rw [length_recordsOf] at hlength
  refine ⟨hlength, hdirectories, fun f hf => ?_⟩
  obtain ⟨i, hi⟩ := List.getElem?_of_mem hf
  have hrecord : f.2.record f.1 buildTime algorithm (UInt32.ofNat (i + 1)) ∈
      recordsOf files buildTime algorithm := by
    refine List.mem_of_getElem? (i := i) ?_
    rw [recordsOf, List.getElem?_mapIdx, hi]
    rfl
  obtain ⟨hdirectory, hbaseName, hlinkTo⟩ := hsmall _ hrecord
  have hpath : f.1.utf8ByteSize = (FileRecord.directoryOf f.1).utf8ByteSize +
      (FileRecord.baseNameOf f.1).utf8ByteSize := by
    rw [← String.utf8ByteSize_append, FileRecord.directoryOf_append_baseNameOf]
  simp only [PackageFile.record, FileRecord.ofEntry,
    FileRequest.entry] at hdirectory hbaseName hlinkTo
  unfold mostStoreSize at hdirectory hbaseName hlinkTo
  constructor <;> omega

/-! ### What is built -/

/-- What the file of a package is made of. -/
def parts (b : PackageBuilder) : Except Error PackageParts := do
  let (payload, header) ← b.content
  let processing ← b.signers.foldlM SignatureProcessing.add .defaults
  let lead := Lead.new .binary b.arch b.fullName
  let writer : Writer Sink StandardProcessor := { sink := {}, lead, header, processing }
  writer.parts payload

variable {b : PackageBuilder} {payload : FinishedPayload} {header : Header .metadata}

/-- A header is made of what was recorded, and the payload of what the recorder was left with. -/
lemma exists_of_content (h : b.content = .ok (payload, header)) :
    ∃ evr buildTime, ∃ r : Recorder PayloadDigester, ∃ records,
      Version.new b.epoch b.version (some b.release) = .ok evr ∧ r.finish.2 = .ok payload ∧
      b.metadataHeader evr buildTime records = .ok header := by
  unfold content at h
  simp only [bind_eq_ok_iff, pure_eq_ok_iff] at h
  obtain ⟨evr, hevr, buildTime, -, r, -, r', -, ⟨r'', records⟩, -, p, hp, g, hg, heq⟩ := h
  obtain ⟨rfl, rfl⟩ := Prod.mk.inj heq
  exact ⟨evr, buildTime, r'', records, hevr, hp, hg⟩

/-- The payload of a package holds the members of its files, and its header has their records. -/
lemma content_eq_ok (hpaths : ∀ f ∈ b.files, Path.normalize f.1 = .ok f.1)
    (h : b.content = .ok (payload, header)) :
    ∃ flags evr buildTime, flags.coding = b.coding ∧
      (Recorder.holding flags b.fileDigest [.default]
        (b.files.map fun f => f.2.member f.1 buildTime)).finish.2 = .ok payload ∧
      b.metadataHeader evr buildTime (recordsOf b.files buildTime b.fileDigest) = .ok header ∧
      ∀ f ∈ b.files, f.2.source.fileType = regularFile → f.2.source.content.size < 2 ^ 32 := by
  unfold content at h
  simp only [bind_eq_ok_iff, pure_eq_ok_iff] at h
  obtain ⟨evr, -, buildTime, -, r, hr, r', hr', ⟨r'', records⟩, hrecords, p, hp, g, hg, heq⟩ := h
  obtain ⟨rfl, rfl⟩ := Prod.mk.inj heq
  obtain ⟨flags, hflags, rfl⟩ := Recorder.eq_filled_of_new hr
  have hholding : (Recorder.holding flags b.fileDigest [] []).addProcessor
      { algorithm := .default } = .ok r' := hr'
  obtain ⟨-, rfl⟩ := Recorder.addProcessor_holding hholding
  obtain ⟨rfl, rfl, hsizes⟩ := recordAll_filled hpaths hrecords
  refine ⟨flags, evr, buildTime, hflags, hp, ?_, hsizes⟩
  simpa [recordsOf] using hg

lemma exists_of_build {sink : Sink} (written : (b.build sink).2 = .ok ()) :
    ∃ payload header, ∃ w : Writer Sink StandardProcessor, ∃ parts,
      b.content = .ok (payload, header) ∧ b.parts = .ok parts ∧ w.parts payload = .ok parts ∧
      w.header = header ∧ w.lead.major = 3 ∧
      (b.build sink).1.accepted = sink.accepted ++ parts.bytes := by
  unfold build at written ⊢
  cases hcontent : b.content with
  | error e => simp [hcontent] at written
  | ok result =>
    obtain ⟨payload, header⟩ := result
    simp only [hcontent] at written ⊢
    split at written
    · simp at written
    · rename_i w hw
      obtain ⟨processing, hprocessing, rfl⟩ := Writer.eq_of_addProcessors hw
      obtain ⟨parts, hparts, hfile⟩ := accepted_finish rfl written
      have hparts' : b.parts = .ok parts :=
        bind_eq_ok_iff.mpr ⟨_, hcontent, bind_eq_ok_iff.mpr ⟨processing, hprocessing, hparts⟩⟩
      exact ⟨payload, header, _, parts, rfl, hparts', hparts, rfl, rfl, hfile⟩

/-- **A built package is read back**: its payload as it was finished, and a header that is the same
map as the one that was rendered. -/
lemma exists_read_of_build {sink : Sink} (fresh : sink.accepted = ByteArray.empty)
    (written : (b.build sink).2 = .ok ())
    (limits : ∀ parts, b.parts = .ok parts →
      WithinLimits parts.signature ∧ WithinLimits parts.header) :
    ∃ payload header h p, b.content = .ok (payload, header) ∧ DigestsOnly payload.header ∧
      fileHeader header payload = .ok h ∧
      (∃ data, h.render true = .ok data ∧ WithinLimits data) ∧
      Package.read (Source.ofBytes (b.build sink).1.accepted) = .ok p ∧
      p.payload = Source.ofBytes payload.bytes ∧ ∀ tag, p.header.getRaw tag = h.getRaw tag := by
  obtain ⟨payload, header, w, parts, hcontent, hbuilt, hparts, rfl, hmajor, hfile⟩ :=
    exists_of_build written
  obtain ⟨evr, buildTime, r, records, -, recorded, hmetadata⟩ := exists_of_content hcontent
  obtain ⟨-, -, hdigests⟩ := Recorder.finish_eq_ok recorded
  obtain ⟨h, sig, hh, hheader, hsig, hsignature, hlead, hpayload⟩ := parts_eq_ok hparts
  obtain ⟨p, hread, -, -, hrest, -, hsorted⟩ :=
    Package.read_parts (hlead ▸ hmajor) hsignature hheader (limits parts hbuilt)
      (keptBySet_signatureHeader keptBySet_unambiguous unambiguous_empty hsig)
      (unambiguous_fileHeader (unambiguous_metadataHeader hmetadata) hdigests hh)
  refine ⟨payload, w.header, h, p, hcontent, hdigests, hh, ⟨_, hheader, (limits parts hbuilt).2⟩, ?_,
    hpayload ▸ hrest, lookup_of_stablySorted hsorted⟩
  rw [hfile, fresh, ByteArray.empty_append]
  exact hread

lemma getRaw_fileHeader_of_notMem (hdigests : DigestsOnly payload.header)
    (hfile : fileHeader header payload = .ok h) {t : UInt32} (hdigest : t ∉ payloadDigestTags)
    (hentry : t ∉ [MetadataTag.payloadFormat.id, MetadataTag.payloadCompressor.id,
      MetadataTag.payloadFlags.id]) : h.getRaw t = header.getRaw t := by
  rw [getRaw_fileHeader hdigests hfile, hdigests.getRaw_eq_none hdigest,
    lookup_eq_none_iff.mpr hentry]
  rfl

lemma hasFiles_fileHeader {records : List FileRecord} (hh : header.HasFiles records algorithm)
    (hdigests : DigestsOnly payload.header) (hfile : fileHeader header payload = .ok h) :
    h.HasFiles records algorithm := by
  have hdigest : ∀ t ∈ fileTags, t ∉ payloadDigestTags := notMem_of_all (by decide)
  have hentry : ∀ t ∈ fileTags, t ∉ [MetadataTag.payloadFormat.id,
      MetadataTag.payloadCompressor.id, MetadataTag.payloadFlags.id] := notMem_of_all (by decide)
  exact hh.of_getRaw_eq fun t ht =>
    getRaw_fileHeader_of_notMem hdigests hfile (hdigest t ht) (hentry t ht)

/-- The members of an archive are found in the payload that it was compressed to. -/
lemma members_eq_ok {p : Package} {c : Coding} {pieces : List ByteArray} {members : List Member}
    (hcoding : p.coding = .ok c) (inverts : c.Inverts)
    (hpayload : p.payload = Source.ofBytes (c.compressor.run pieces))
    (hpieces : concat pieces = archiveBytes members) (sound : ∀ m ∈ members, m.Sound) :
    p.members = .ok members := by
  have harchive : p.archive = .ok (Source.ofBytes (archiveBytes members)) := by
    rw [Package.archive, hcoding, ← hpieces, ← inverts pieces, ← hpayload]
    rfl
  rw [Package.members, harchive]
  exact congrArg (Except.mapError _) (Cursor.members_archiveBytes sound)

/-- What is read of a built package are the members of its files, and a header with their records.
None of the files is too large for a member, and the tables of files and directories are small. -/
lemma exists_members_of_build {sink : Sink}
    (hpaths : ∀ f ∈ b.files, Path.normalize f.1 = .ok f.1) (inverts : b.coding.Inverts)
    (fresh : sink.accepted = ByteArray.empty) (written : (b.build sink).2 = .ok ())
    (limits : ∀ parts, b.parts = .ok parts →
      WithinLimits parts.signature ∧ WithinLimits parts.header) :
    ∃ p buildTime, Package.read (Source.ofBytes (b.build sink).1.accepted) = .ok p ∧
      p.members = .ok (membersOf b.files buildTime) ∧
      p.header.HasFiles (recordsOf b.files buildTime b.fileDigest) b.fileDigest ∧
      (∀ f ∈ b.files, f.2.source.content.size < 2 ^ 32) ∧ b.files.length ≤ mostStoreSize ∧
      (directories (recordsOf b.files buildTime b.fileDigest)).length ≤ mostStoreSize := by
  obtain ⟨payload, header, h, p, hcontent, hdigests, hh, ⟨data, hrendered, hlimits⟩, hread, hrest,
    hraw⟩ := exists_read_of_build fresh written limits
  obtain ⟨flags, evr, buildTime, hflags, recorded, hmetadata, hregular⟩ :=
    content_eq_ok hpaths hcontent
  have hfiles := hasFiles_fileHeader (hasFiles_metadataHeader hmetadata) hdigests hh
  have hfiles' := hfiles.of_getRaw_eq fun t _ => hraw t
  obtain ⟨hlength, hdirectories, hsmall⟩ := size_lt_of_render hfiles hrendered hlimits
  -- A recorder takes targets of any size, but the header holds them, and its section is limited.
  have hsizes : ∀ f ∈ b.files, f.2.source.content.size < 2 ^ 32 := fun f hf =>
    f.2.source.size_content_lt (hregular f hf) (hsmall f hf).2
  obtain ⟨pieces, hpieces, hbytes, hpayloadFlags, -⟩ := Recorder.finish_holding recorded
  have hcoding : p.coding = .ok flags.coding := hpayloadFlags ▸
    Package.coding_eq hdigests fun tag => (hraw tag).trans (getRaw_fileHeader hdigests hh tag)
  have hmembers : p.members = .ok (membersOf b.files buildTime) := by
    refine members_eq_ok hcoding (hflags ▸ inverts) ?_ hpieces
      (sound_of_mem_membersOf hpaths fun f hf => (hsmall f hf).1)
    rw [hrest, hbytes]
  exact ⟨p, buildTime, hread, hmembers, hfiles', hsizes, hlength, hdirectories⟩

/-- Header and payload of a built package describe the same files, those of the builder. -/
lemma exists_holdsFiles_of_build {sink : Sink}
    (hpaths : ∀ f ∈ b.files, Path.normalize f.1 = .ok f.1) (inverts : b.coding.Inverts)
    (fresh : sink.accepted = ByteArray.empty) (written : (b.build sink).2 = .ok ())
    (limits : ∀ parts, b.parts = .ok parts →
      WithinLimits parts.signature ∧ WithinLimits parts.header) :
    ∃ p members, Package.read (Source.ofBytes (b.build sink).1.accepted) = .ok p ∧
      p.HoldsFiles b.fileDigest b.files members := by
  obtain ⟨p, buildTime, hread, hmembers, hfiles, hsizes, hlength, hdirectories⟩ :=
    exists_members_of_build hpaths inverts fresh written limits
  have hlt : ∀ f ∈ recordsOf b.files buildTime b.fileDigest, f.size < 2 ^ 32 :=
    size_lt_of_mem_recordsOf hsizes
  refine ⟨p, membersOf b.files buildTime, hread, ?_⟩
  exact {
    members_eq := hmembers
    length_eq := length_membersOf
    count_eq := fun tag htag => by
      rw [hfiles.count_eq hlt htag, length_recordsOf, length_membersOf]
      simp only [recordsOf_eq_nil_iff]
    longFileSizes := hfiles.get_longFileSizes hlt
    dirNames := by
      refine ⟨_, nodup_directories (recordsOf b.files buildTime b.fileDigest), ?_⟩
      rw [hfiles.get_dirNames]
      simp only [recordsOf_eq_nil_iff]
    agrees := fun i path file m hi hm => by
      rw [getElem?_membersOf, hi] at hm
      obtain rfl := Option.some.inj hm
      exact fileAgrees_of_hasFiles hfiles hsizes hlength hdirectories hi }

/-- What is registered with a builder that has no files stands under normalized paths. -/
lemma normalize_of_addFiles {built : PackageBuilder} {registrations : List Registration}
    (unregistered : b.files = []) (registered : b.addFiles registrations = .ok built) :
    ∀ f ∈ built.files, Path.normalize f.1 = .ok f.1 := by
  rintro ⟨path, file⟩ hf
  obtain ⟨-, -, hlast⟩ := addFiles_eq_ok unregistered registered
  obtain ⟨before, r, after, -, hr, -⟩ := (hlast path file).mp hf
  exact Path.normalize_normalize hr

/-- **Header and payload of a built package describe the same files**: one for each path that was
registered, in the order of the bytes of the paths, and with what was registered for it last. -/
theorem read_of_build {built : PackageBuilder} {registrations : List Registration} {sink : Sink}
    (unregistered : b.files = []) (registered : b.addFiles registrations = .ok built)
    (inverts : built.coding.Inverts) (fresh : sink.accepted = ByteArray.empty)
    (written : (built.build sink).2 = .ok ())
    (limits : ∀ parts, built.parts = .ok parts →
      WithinLimits parts.signature ∧ WithinLimits parts.header) :
    (built.files.Pairwise fun f g => f.1.toUTF8.data.toList < g.1.toUTF8.data.toList) ∧
      (∀ path file, (path, file) ∈ built.files ↔ LastOf registrations path file) ∧
      ∃ p members, Package.read (Source.ofBytes (built.build sink).1.accepted) = .ok p ∧
        p.HoldsFiles built.fileDigest built.files members := by
  obtain ⟨-, hordered, hlast⟩ := addFiles_eq_ok unregistered registered
  exact ⟨hordered.imp toUTF8_lt, hlast, exists_holdsFiles_of_build
    (normalize_of_addFiles unregistered registered) inverts fresh written limits⟩

/-- A small package that is neither signed nor compressed is written, within the limits of
readers. -/
lemma written_of_small (unsigned : b.signers = []) (hcontent : b.content = .ok (payload, header))
    (hflags : payload.flags = emptyRecorder.flags)
    (hsize : payload.bytes.size < 2 ^ 31 ∧ payload.archiveSize < 2 ^ 32 ∧
      payload.payloadSize = payload.bytes.size)
    (hplaceable : ∀ e ∈ header.entries, e.Placeable Namespace.metadata.region)
    (hsmall : header.entries.length ≤ 100 ∧ roomFor header.entries ≤ 1000) :
    (b.build ({} : Sink)).2 = .ok () ∧ ∀ parts, b.parts = .ok parts →
      WithinLimits parts.signature ∧ WithinLimits parts.header := by
  obtain ⟨evr, buildTime, r, records, -, recorded, -⟩ := exists_of_content hcontent
  obtain ⟨parts, hparts, limits, hfinish⟩ :=
    exists_parts_of_small (Lead.new .binary b.arch b.fullName) recorded hflags hsize hplaceable
      hsmall
  have hprocessing : b.signers.foldlM SignatureProcessing.add .defaults = .ok .defaults := by
    rw [unsigned]
    rfl
  have hparts' : b.parts = .ok parts :=
    bind_eq_ok_iff.mpr ⟨_, hcontent, bind_eq_ok_iff.mpr ⟨.defaults, hprocessing, hparts⟩⟩
  refine ⟨?_, fun parts' hother => Except.ok.inj (hparts'.symm.trans hother) ▸ limits⟩
  simp only [build, hcontent, unsigned]
  exact hfinish

/-! ### A package of three files -/

def toolBuilder : PackageBuilder where
  name := "tool"
  version := "1"
  release := "1"
  arch := "noarch"
  buildTime := 0
  coding := .none
  fileDigest := .md5

/-- Registrations of which one takes the place of another, under a path that is spelled otherwise. -/
def toolRegistrations : List Registration := [
  ⟨"opt/tool", .data ByteArray.empty, { permissions := 0o644 }⟩,
  ⟨"/opt/link", .symlink "tool", { permissions := 0o777 }⟩,
  ⟨"/opt//tool", .data "tool".toUTF8, { permissions := 0o755 }⟩,
  ⟨"./opt", .directory, { permissions := 0o755 }⟩]

def toolPackage : PackageBuilder :=
  { toolBuilder with
    files := [
      ("/opt", ⟨.directory, { permissions := 0o755 }⟩),
      ("/opt/link", ⟨.symlink "tool", { permissions := 0o777 }⟩),
      ("/opt/tool", ⟨.data "tool".toUTF8, { permissions := 0o755 }⟩)] }

lemma addFiles_toolRegistrations :
    toolBuilder.addFiles toolRegistrations = .ok toolPackage := by
  have h₁ : Path.normalize "opt/tool" = .ok "/opt/tool" := by decide +kernel
  have h₂ : Path.normalize "/opt/link" = .ok "/opt/link" := by decide +kernel
  have h₃ : Path.normalize "/opt//tool" = .ok "/opt/tool" := by decide +kernel
  have h₄ : Path.normalize "./opt" = .ok "/opt" := by decide +kernel
  have htarget : Recorder.isTarget "tool" = true := by decide +kernel
  have hlt : compare "/opt/link" "/opt/tool" = .lt := by decide +kernel
  have hgt : compare "/opt/tool" "/opt/link" = .gt := by decide +kernel
  have heq : compare "/opt/tool" "/opt/tool" = .eq := by decide +kernel
  have hlt' : compare "/opt" "/opt/link" = .lt := by decide +kernel
  simp only [addFiles, toolRegistrations, List.foldlM_cons, List.foldlM_nil, addFile, h₁, h₂, h₃,
    h₄, htarget, hlt, hgt, heq, hlt', bind, Except.bind, pure, Except.pure, insertFile, toolBuilder,
    toolPackage, Bool.not_true, Bool.false_eq_true, if_false]

lemma canonical_toolPackage (evr : Version) (kind : DependencyKind) :
    Dependency.canonical (toolPackage.dependenciesOf evr kind) =
      toolPackage.dependenciesOf evr kind := by
  cases kind with
  | require =>
    have hrequire : toolPackage.dependenciesOf evr .require = toolPackage.rpmlibRequirements := rfl
    rw [hrequire, Dependency.canonical, List.mergeSort_of_pairwise (by decide +kernel)]
    decide +kernel
  | provide =>
    have hprovide : toolPackage.dependenciesOf evr .provide =
      [Dependency.equals toolPackage.name evr.display] := rfl
    rw [hprovide, Dependency.canonical, List.mergeSort_singleton]
    rfl
  | _ => exact congrArg Dependency.dropRepeats List.mergeSort_nil

lemma content_toolPackage : ∃ content, toolPackage.content = .ok content ∧
    (content.1.flags = emptyRecorder.flags ∧ content.1.bytes.size < 2 ^ 31 ∧
      content.1.archiveSize < 2 ^ 32 ∧ content.1.payloadSize = content.1.bytes.size) ∧
    (∀ e ∈ content.2.entries, e.tag ≠ Namespace.metadata.region ∧ e.value.hasNul = false) ∧
    content.2.entries.length ≤ 100 ∧ roomFor content.2.entries ≤ 1000 := by
  refine exists_of_any ?_
  simp only [content, metadataHeader, setDependencies, canonical_toolPackage]
  decide +kernel

theorem read_of_build_toolPackage :
    ∃ p members, Package.read (Source.ofBytes (toolPackage.build ({} : Sink)).1.accepted) = .ok p ∧
      p.HoldsFiles .md5 toolPackage.files members ∧ members.length = 3 := by
  obtain ⟨⟨payload, header⟩, hcontent, ⟨hflags, hsize⟩, hplaceable, hsmall⟩ := content_toolPackage
  obtain ⟨written, limits⟩ := written_of_small rfl hcontent hflags hsize
    (fun e he => ⟨(hplaceable e he).1, (hplaceable e he).2⟩) hsmall
  obtain ⟨-, -, p, members, hread, hholds⟩ :=
    read_of_build rfl addFiles_toolRegistrations Coding.inverts_none rfl written limits
  exact ⟨p, members, hread, hholds, hholds.length_eq⟩

end PackageBuilder

end Rpm

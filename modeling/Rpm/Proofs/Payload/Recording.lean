import Mathlib.Data.List.Basic
import Rpm.Proofs.Archive.RoundTrip
import Rpm.Proofs.Payload.Path
import Rpm.Proofs.Payload.Request
import Rpm.Proofs.Payload.Stream

/-!
Recorders while files are added to them.

A recorder is told by its processors and by the members that it has: they went to the stream one after
another, each under the number of its place. Adding a file either adds one more member or changes
nothing, so that this is what every recorder is like until it is finished.
-/

namespace Rpm

open Archive Observation

/-! ### Members in pieces -/

namespace Archive.Member

/-- The pieces in which a member is written. -/
def pieces (m : Member) : List ByteArray :=
  [m.header.bytes, m.data, replicateByte (paddingFor 4 m.data.size) 0]

lemma concat_pieces (members : List Member) :
    concat (members.flatMap pieces) = concat (members.map bytes) := by
  induction members with
  | nil => rfl
  | cons m members ih =>
    simp only [List.flatMap_cons, concat_append, List.map_cons, concat_cons, ih, pieces, bytes,
      concat_nil, ByteArray.append_empty]

/-- A member under another number. -/
def withInode (m : Member) (inode : UInt32) : Member := { m with header.inode := inode }

/-- A member under the name of a normalized path is read back, whatever its number. -/
lemma sound_withInode {m : Member} {path : String} (hname : m.header.name = Path.archiveName path)
    (hpath : Path.normalize path = .ok path) (hlength : path.utf8ByteSize + 2 < 2 ^ 32)
    (hsize : m.data.size = m.header.fileSize.toNat) (inode : UInt32) :
    (m.withInode inode).Sound := by
  have hlength' : (Path.archiveName path).utf8ByteSize + 1 < 2 ^ 32 := by
    have hpoint : ".".utf8ByteSize = 1 := by decide
    rw [Path.archiveName, String.utf8ByteSize_append, hpoint]
    omega
  refine ⟨⟨?_, ?_⟩, fun heq => ?_, hsize⟩
  · exact hname ▸ Path.holdsNul_archiveName hpath
  · exact hname ▸ hlength'
  · exact Path.archiveName_ne_trailerName path (hname.symm.trans heq)

end Archive.Member

/-- Members under the numbers of their places, which begin with one. -/
def numbered (members : List Member) : List Member :=
  members.mapIdx fun i m => m.withInode (UInt32.ofNat (i + 1))

@[simp] lemma length_numbered (members : List Member) :
    (numbered members).length = members.length :=
  List.length_mapIdx

lemma numbered_concat (members : List Member) (m : Member) :
    numbered (members ++ [m]) =
      numbered members ++ [m.withInode (UInt32.ofNat (members.length + 1))] :=
  List.mapIdx_concat

lemma getElem?_numbered (members : List Member) (i : Nat) :
    (numbered members)[i]? = members[i]?.map fun m => m.withInode (UInt32.ofNat (i + 1)) :=
  List.getElem?_mapIdx

lemma sound_of_mem_numbered {members : List Member}
    (h : ∀ m ∈ members, ∀ inode, (m.withInode inode).Sound) : ∀ m ∈ numbered members, m.Sound := by
  intro m hm
  obtain ⟨i, hi, rfl⟩ := List.mem_mapIdx.mp hm
  exact h _ (List.getElem_mem hi) _

lemma StoredFile.content_front (bytes : ByteArray) :
    ({ front := bytes } : StoredFile).content = bytes := by
  rw [StoredFile.content, ByteArray.extract_zero_size, Nat.sub_self]
  exact ByteArray.append_empty

/-! ### What a recorder has -/

namespace Recorder

section Filled

variable {σ : Type} [PayloadProcessor σ] {flags : PayloadFlags} {fileDigest : DigestAlgorithm}
  {processors : List σ} {members : List Member} {r : Recorder σ}

/-- A recorder with some processors, to which members have been added. -/
def filled (flags : PayloadFlags) (fileDigest : DigestAlgorithm) (processors : List σ)
    (members : List Member) : Recorder σ where
  flags := flags
  fileDigest := fileDigest
  nextInode := UInt32.ofNat (members.length + 1)
  archive := some
    ⟨((numbered members).flatMap Member.pieces).foldl PayloadStream.write { processors },
      (concat ((numbered members).map Member.bytes)).size⟩

lemma append_of_builder {inode : UInt32} {size : Nat} {header : MemberHeader} {data : ByteArray}
    {b b' : Builder (PayloadStream flags.coding.compressor σ)}
    (h : b.append { header with inode } (Source.ofBytes data) = (b', .ok size)) :
    (⟨flags, fileDigest, inode, some b⟩ : Recorder σ).append header data =
      (⟨flags, fileDigest, inode + 1, some b'⟩, .ok inode) := by
  unfold append
  simp only [h]

/-- **Appending** adds one member. -/
lemma append_filled {header : MemberHeader} {data : ByteArray}
    (hnul : holdsNul header.name = false) (hsize : header.fileSize.toNat ≤ data.size) :
    (filled flags fileDigest processors members).append header data =
      (filled flags fileDigest processors
        (members ++ [⟨header, data.extract 0 header.fileSize.toNat⟩]),
        .ok (UInt32.ofNat (members.length + 1))) := by
  set m : Member := ⟨header, data.extract 0 header.fileSize.toNat⟩ with hm
  have hinode : UInt32.ofNat (members.length + 1) + 1 =
      UInt32.ofNat ((members ++ [m]).length + 1) := by
    rw [List.length_append, List.length_singleton, UInt32.ofNat_add (members.length + 1)]
    rfl
  set start : PayloadStream flags.coding.compressor σ := { processors }
  set before := ((numbered members).flatMap Member.pieces).foldl PayloadStream.write start
  set m' := m.withInode (UInt32.ofNat (members.length + 1))
  have hwritten : ((before.write m'.header.bytes).write m'.data).write
      (replicateByte (paddingFor 4 m'.data.size) 0) =
      ((numbered (members ++ [m])).flatMap Member.pieces).foldl PayloadStream.write start := by
    rw [numbered_concat, List.flatMap_append, List.foldl_append, List.flatMap_singleton]
    simp only [Member.pieces, List.foldl_cons, List.foldl_nil, before, m']
  have hsize' : (concat ((numbered members).map Member.bytes)).size + m'.bytes.size =
      (concat ((numbered (members ++ [m])).map Member.bytes)).size := by
    rw [numbered_concat, List.map_append, concat_append, ByteArray.size_append, List.map_singleton,
      concat_cons, concat_nil, ByteArray.append_empty]
  rw [filled, filled, ← hinode, ← hwritten, ← hsize']
  exact append_of_builder (Builder.append_of_write
    (d := ⟨{ header with inode := UInt32.ofNat (members.length + 1) }, Source.ofBytes data⟩)
    hnul hsize rfl rfl rfl)

/-- A recorder begins with nothing, and with the flags that are given or with the usual ones. -/
lemma new_eq_ok_iff {c : Coding} {given : Option PayloadFlags} :
    Recorder.new c given fileDigest = .ok r ↔
      (given.getD (.ofCoding c)).coding = c ∧ (given.getD (.ofCoding c)).usable ∧
        r = filled (given.getD (.ofCoding c)) fileDigest [] [] := by
  unfold Recorder.new
  generalize given.getD (.ofCoding c) = flags
  have hstart : (⟨flags, fileDigest, 1, some ⟨{}, 0⟩⟩ : Recorder σ) = filled flags fileDigest [] [] :=
    rfl
  simp only [hstart, ite_not, Bool.not_eq_true']
  split_ifs with hcoding husable
  · simp [husable]
  · simp [hcoding, husable, eq_comm]
  · simp [hcoding]

lemma eq_filled_of_new {c : Coding} {given : Option PayloadFlags}
    (h : Recorder.new c given fileDigest = .ok r) :
    ∃ flags, flags.coding = c ∧ r = filled flags fileDigest [] [] := by
  obtain ⟨hcoding, -, hr⟩ := new_eq_ok_iff.mp h
  exact ⟨_, hcoding, hr⟩

lemma addProcessor_filled (processor : σ) :
    (filled flags fileDigest processors members).addProcessor processor =
      if members = [] then .ok (filled flags fileDigest (processors ++ [processor]) [])
      else .error (.protocol .payloadProcessorsFirst) := by
  cases members with
  | nil => rfl
  | cons m members =>
    -- Every member takes some bytes, so that the offset is zero only in front of the first one.
    have hoffset : (concat ((numbered (m :: members)).map Member.bytes)).size ≠ 0 := by
      have := (m.withInode (UInt32.ofNat (0 + 1))).headerSize_lt_size_bytes
      rw [numbered, List.mapIdx_cons, List.map_cons, concat_cons, ByteArray.size_append]
      omega
    simp only [addProcessor, filled]
    rw [if_pos hoffset, if_neg (List.cons_ne_nil m members)]

lemma finish_of_builder {inode : UInt32}
    {b b' : Builder (PayloadStream flags.coding.compressor σ)} (h : b.finish = (b', .ok ())) :
    (⟨flags, fileDigest, inode, some b⟩ : Recorder σ).finish.2 = b'.sink.finish flags := by
  unfold finish
  simp only [h]

/-- **The payload of a recorder** is what its compressor makes of the archive with its members. All
processors have been shown both before they add to the header. -/
lemma finish_filled (flags : PayloadFlags) (fileDigest : DigestAlgorithm) (processors : List σ)
    (members : List Member) :
    ∃ pieces seen, concat pieces = archiveBytes (numbered members) ∧
      concat (archivePieces seen) = concat pieces ∧
      concat (payloadPieces seen) = flags.coding.compressor.run pieces ∧
      (filled flags fileDigest processors members).finish.2 =
        (PayloadStream.finishProcessors (processors.map (allShownTo seen))).map fun header =>
          { bytes := flags.coding.compressor.run pieces, archiveSize := (concat pieces).size,
            payloadSize := (flags.coding.compressor.run pieces).size, flags, header } := by
  set pieces := (numbered members).flatMap Member.pieces with hpieces
  have harchive : concat (pieces ++ [MemberHeader.trailer.bytes]) =
      archiveBytes (numbered members) := by
    rw [concat_append, hpieces, Member.concat_pieces, concat_cons, concat_nil,
      ByteArray.append_empty]
    rfl
  obtain ⟨_, haccounts⟩ := PayloadStream.exists_accounts flags.coding.compressor processors
    (pieces ++ [MemberHeader.trailer.bytes])
  obtain ⟨seen, hseen, hshown, hfinish⟩ := haccounts.finish flags
  refine ⟨pieces ++ [MemberHeader.trailer.bytes], seen, harchive, hseen, hshown, ?_⟩
  rw [filled, finish_of_builder (Builder.finish_of_write rfl rfl), ← hfinish, List.foldl_append]
  rfl

/-! ### Adding files -/

/-- What can come of adding a file: a failure that leaves the recorder as it is, or one more member
and the entry of the file. -/
inductive Added (flags : PayloadFlags) (fileDigest : DigestAlgorithm) (processors : List σ)
    (members : List Member) (q : FileRequest) (fault? : Option Error) :
    Recorder σ × Except Error PayloadEntry → Prop
  | failed {e : Error} (hfault : fault? = some e) :
    Added flags fileDigest processors members q fault?
      (filled flags fileDigest processors members, .error e)
  | added {e : PayloadEntry} (hfault : fault? = none)
    (hadded : q.AddedAs fileDigest (UInt32.ofNat (members.length + 1)) e) :
    Added flags fileDigest processors members q fault?
      (filled flags fileDigest processors (members ++ [q.member e.path]), .ok e)

variable {q : FileRequest} {fault? : Option Error} {path : String}

lemma Added.exists_filled {result : Recorder σ × Except Error PayloadEntry}
    (h : Added flags fileDigest processors members q fault? result) :
    ∃ members', result.1 = filled flags fileDigest processors members' := by
  cases h with
  | failed => exact ⟨members, rfl⟩
  | added => exact ⟨_, rfl⟩

lemma append_member (flags : PayloadFlags) (fileDigest : DigestAlgorithm) (processors : List σ)
    (members : List Member) (hpath : Path.normalize q.path = .ok path) :
    (filled flags fileDigest processors members).append (q.member path).header q.content =
      (filled flags fileDigest processors (members ++ [q.member path]),
        .ok (UInt32.ofNat (members.length + 1))) :=
  append_filled (Path.holdsNul_archiveName hpath) (toNat_ofNat_le q.content.size)

lemma added_member (hfault : fault? = none) (hpath : Path.normalize q.path = .ok path)
    (hsize : q.kind ≠ .symbolicLink → q.content.size < 2 ^ 32) :
    Added flags fileDigest processors members q fault?
      (filled flags fileDigest processors (members ++ [q.member path]),
        .ok (q.entry fileDigest path (UInt32.ofNat (members.length + 1)))) := by
  set e := q.entry fileDigest path (UInt32.ofNat (members.length + 1))
  have hadded : q.AddedAs fileDigest (UInt32.ofNat (members.length + 1)) e := ⟨hpath, rfl, hsize⟩
  exact .added hfault hadded

lemma added_addFile (path : String) (data : ByteArray) (permissions mtime : UInt32) :
    Added flags fileDigest processors members ⟨path, .regular, permissions, mtime, data⟩
      (RecorderCall.fileFault? path data)
      ((filled flags fileDigest processors members).addFile path data permissions mtime) := by
  unfold addFile addContent RecorderCall.fileFault?
  cases hpath : Path.normalize path with
  | error e => exact .failed rfl
  | ok normal =>
    simp only [StoredFile.content_front]
    split_ifs with hsize
    · exact .failed rfl
    · set q : FileRequest := ⟨path, .regular, permissions, mtime, data⟩
      have hheader : { MemberHeader.file (Path.archiveName normal) permissions
          (UInt32.ofNat data.size) with mtime } = (q.member normal).header := rfl
      have happend := append_member flags fileDigest processors members (q := q) hpath
      rw [hheader, happend]
      exact added_member (q := q) rfl hpath fun _ => Nat.lt_of_not_le hsize

/-- A stored file is added like its content. -/
lemma addContent_eq (r : Recorder σ) (path : String) (file : StoredFile)
    (permissions mtime : UInt32) :
    r.addContent path file permissions mtime = r.addFile path file.content permissions mtime := by
  simp only [addFile, addContent, StoredFile.content_front]
  simp only [file.size_content]

lemma added_addSource (path : String) (source : Source) (permissions mtime : UInt32) :
    Added flags fileDigest processors members ⟨path, .regular, permissions, mtime, source.rest⟩
      (RecorderCall.sourceFault? path source)
      ((filled flags fileDigest processors members).addSource path source permissions mtime) := by
  have hopen : (filled flags fileDigest processors members).archive.isNone = false := rfl
  simp only [addSource, hopen, Bool.false_eq_true, if_false]
  obtain ⟨rest, failure⟩ := source
  cases failure with
  | none => exact added_addFile path rest permissions mtime
  | some e => exact .failed rfl

lemma added_addDirectory (path : String) (permissions mtime : UInt32) :
    Added flags fileDigest processors members
      ⟨path, .directory, permissions, mtime, ByteArray.empty⟩ (RecorderCall.pathFault? path)
      ((filled flags fileDigest processors members).addDirectory path permissions mtime) := by
  unfold addDirectory RecorderCall.pathFault?
  cases hpath : Path.normalize path with
  | error e => exact .failed rfl
  | ok normal =>
    set q : FileRequest := ⟨path, .directory, permissions, mtime, ByteArray.empty⟩
    have hheader : { MemberHeader.ofDirectory (Path.archiveName normal) permissions with mtime } =
        (q.member normal).header := rfl
    have happend := append_member flags fileDigest processors members (q := q) hpath
    have hempty : q.content.size < 2 ^ 32 := Nat.two_pow_pos 32
    simp only [hheader]
    rw [happend]
    exact added_member (q := q) rfl hpath fun _ => hempty

lemma added_addSymlink (path target : String) (mtime : UInt32) :
    Added flags fileDigest processors members ⟨path, .symbolicLink, 0o777, mtime, target.toUTF8⟩
      (RecorderCall.targetFault? path target)
      ((filled flags fileDigest processors members).addSymlink path target mtime) := by
  unfold addSymlink RecorderCall.targetFault?
  cases hpath : Path.normalize path with
  | error e => exact .failed rfl
  | ok normal =>
    set q : FileRequest := ⟨path, .symbolicLink, 0o777, mtime, target.toUTF8⟩
    have hheader : { MemberHeader.symlink (Path.archiveName normal) 0o777
        (UInt32.ofNat target.utf8ByteSize) with mtime } = (q.member normal).header := rfl
    have happend := append_member flags fileDigest processors members (q := q) hpath
    cases htarget : isTarget target with
    | false => exact .failed rfl
    | true =>
      simp only [hheader, Bool.not_true, Bool.false_eq_true, if_false]
      rw [happend]
      exact added_member (q := q) rfl hpath fun hkind => absurd rfl hkind

end Filled

/-! ### Recorders with digesters -/

/-- A recorder with a digester for each algorithm, to which members have been added. -/
def holding (flags : PayloadFlags) (fileDigest : DigestAlgorithm)
    (algorithms : List DigestAlgorithm) (members : List Member) : Recorder PayloadDigester :=
  filled flags fileDigest (PayloadStream.digesters algorithms ByteArray.empty ByteArray.empty)
    members

variable {flags : PayloadFlags} {fileDigest : DigestAlgorithm} {algorithms : List DigestAlgorithm}
  {members : List Member} {r r' : Recorder PayloadDigester}

lemma addProcessor_holding {a : DigestAlgorithm}
    (h : (holding flags fileDigest algorithms members).addProcessor { algorithm := a } = .ok r') :
    members = [] ∧ r' = holding flags fileDigest (algorithms ++ [a]) [] := by
  rw [holding, addProcessor_filled] at h
  split_ifs at h with hnil
  refine ⟨hnil, ?_⟩
  obtain rfl := Except.ok.inj h
  rw [holding, PayloadStream.digesters, PayloadStream.digesters, List.map_append]
  rfl

/-! ### All recorders -/

/-- Recorders that are not finished, with the algorithms of their digesters: a new one, and what
adding digesters and files makes of it, whether files can be added or not. -/
inductive Recording : Recorder PayloadDigester → List DigestAlgorithm → Prop
  | new {c : Coding} {given : Option PayloadFlags} {fileDigest : DigestAlgorithm}
    {r : Recorder PayloadDigester} (h : Recorder.new c given fileDigest = .ok r) : Recording r []
  | addProcessor {r r' : Recorder PayloadDigester} {algorithms : List DigestAlgorithm}
    {a : DigestAlgorithm} (before : Recording r algorithms)
    (h : r.addProcessor { algorithm := a } = .ok r') : Recording r' (algorithms ++ [a])
  | addFile {r : Recorder PayloadDigester} {algorithms : List DigestAlgorithm}
    (before : Recording r algorithms) (path : String) (data : ByteArray)
    (permissions mtime : UInt32) : Recording (r.addFile path data permissions mtime).1 algorithms
  | addSource {r : Recorder PayloadDigester} {algorithms : List DigestAlgorithm}
    (before : Recording r algorithms) (path : String) (source : Source)
    (permissions mtime : UInt32) :
    Recording (r.addSource path source permissions mtime).1 algorithms
  | addStored {r : Recorder PayloadDigester} {algorithms : List DigestAlgorithm}
    (before : Recording r algorithms) (path : String) (file : Option StoredFile)
    (permissions mtime : UInt32) : Recording (r.addStored path file permissions mtime).1 algorithms
  | addDirectory {r : Recorder PayloadDigester} {algorithms : List DigestAlgorithm}
    (before : Recording r algorithms) (path : String) (permissions mtime : UInt32) :
    Recording (r.addDirectory path permissions mtime).1 algorithms
  | addSymlink {r : Recorder PayloadDigester} {algorithms : List DigestAlgorithm}
    (before : Recording r algorithms) (path target : String) (mtime : UInt32) :
    Recording (r.addSymlink path target mtime).1 algorithms

/-- **Every recorder** that is not finished is told by its digesters and its members. -/
lemma Recording.exists_holding (h : Recording r algorithms) :
    ∃ flags fileDigest members, r = holding flags fileDigest algorithms members := by
  induction h with
  | new h =>
    obtain ⟨flags, -, rfl⟩ := eq_filled_of_new h
    exact ⟨flags, _, [], rfl⟩
  | addProcessor _ h ih =>
    obtain ⟨flags, fileDigest, members, rfl⟩ := ih
    obtain ⟨-, rfl⟩ := addProcessor_holding h
    exact ⟨flags, fileDigest, [], rfl⟩
  | addFile _ path data permissions mtime ih =>
    obtain ⟨flags, fileDigest, members, rfl⟩ := ih
    exact ⟨flags, fileDigest, (added_addFile path data permissions mtime).exists_filled⟩
  | addSource _ path source permissions mtime ih =>
    obtain ⟨flags, fileDigest, members, rfl⟩ := ih
    exact ⟨flags, fileDigest, (added_addSource path source permissions mtime).exists_filled⟩
  | addStored _ path file permissions mtime ih =>
    obtain ⟨flags, fileDigest, members, rfl⟩ := ih
    refine ⟨flags, fileDigest, ?_⟩
    cases file with
    | none => exact ⟨members, rfl⟩
    | some file =>
      rw [Recorder.addStored, addContent_eq]
      exact (added_addFile path file.content permissions mtime).exists_filled
  | addDirectory _ path permissions mtime ih =>
    obtain ⟨flags, fileDigest, members, rfl⟩ := ih
    exact ⟨flags, fileDigest, (added_addDirectory path permissions mtime).exists_filled⟩
  | addSymlink _ path target mtime ih =>
    obtain ⟨flags, fileDigest, members, rfl⟩ := ih
    exact ⟨flags, fileDigest, (added_addSymlink path target mtime).exists_filled⟩

/-! ### Finishing -/

/-- The header of a payload is made of digests of the whole archive and of the whole payload. -/
lemma finish_holding {payload : FinishedPayload}
    (h : (holding flags fileDigest algorithms members).finish.2 = .ok payload) :
    ∃ pieces, concat pieces = archiveBytes (numbered members) ∧
      payload.bytes = flags.coding.compressor.run pieces ∧ payload.flags = flags ∧
      PayloadStream.finishProcessors (PayloadStream.digesters algorithms (concat pieces)
        payload.bytes) = .ok payload.header := by
  obtain ⟨pieces, seen, harchive, hseen, hshown, hfinish⟩ := finish_filled flags fileDigest
    (PayloadStream.digesters algorithms ByteArray.empty ByteArray.empty) members
  rw [PayloadStream.map_allShownTo_digesters hseen hshown, ← holding] at hfinish
  obtain ⟨header, hheader, rfl⟩ := map_eq_ok_iff.mp (hfinish.symm.trans h)
  exact ⟨pieces, harchive, rfl, rfl, hheader⟩

end Recorder

end Rpm

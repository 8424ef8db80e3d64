import Rpm.Package.Reader
import Rpm.Proofs.Lead
import Rpm.Proofs.Package.Writer

/-!
Package files read back as they were written.

A file is cut apart at the offsets at which its parts were joined. Both headers are found as the same
maps, the metadata header as the very bytes that the signature was made of, and the payload is all
that is left.
-/

namespace Rpm

open Header Writer

/-- Where the metadata header of a file starts. -/
def Package.headerOffset (p : Package) : Nat :=
  Lead.size + p.signatureBytes.size + signaturePadding p.signatureBytes.size

/-- The writer with a metadata header and a payload. -/
def Writer.loaded {τ σ : Type} (w : Writer τ σ) (header : Header .metadata)
    (payload : FinishedPayload) : Writer τ σ :=
  { w with header, payload := some payload }

/-- What is read from a file has to do with the header, the payload and the processors that the file
was written from. -/
structure Package.ReadBack (p : Package) (processing : SignatureProcessing StandardProcessor)
    (header : Header .metadata) (payload : FinishedPayload) (file : ByteArray) : Prop where
  /-- The signature header is the one that the processors made of these bytes of the metadata
  header. -/
  signature : ∃ sig, signatureHeader processing p.headerBytes payload = .ok sig ∧
    p.signature.same sig = true ∧ ∀ tag, p.signature.getRaw tag = sig.getRaw tag
  /-- These bytes are the rendering of the header of the file. -/
  rendered : ∃ h, fileHeader header payload = .ok h ∧ h.render true = .ok p.headerBytes ∧
    p.header.same h = true
  /-- The payload's own entries are set over those that describe it, and these over the caller's. -/
  getRaw_header : ∀ tag, p.header.getRaw tag = (payload.header.getRaw tag).or
    ((lookup tag (payloadEntries payload)).or (header.getRaw tag))
  dvd_headerOffset : 8 ∣ p.headerOffset
  extract_header : file.extract p.headerOffset (p.headerOffset + p.headerBytes.size) = p.headerBytes
  coding : p.coding = .ok payload.flags.coding
  payload : p.payload = Source.ofBytes payload.bytes

/-! ### The headers -/

variable {header : Header .metadata} {payload : FinishedPayload}

lemma distinct_payloadEntries (payload : FinishedPayload) :
    Distinct (⟨payloadEntries payload⟩ : Header .metadata) := by
  simp only [Distinct, payloadEntries, List.map_cons, List.map_nil]
  decide

lemma getRaw_fileHeader {h : Header .metadata} (hp : DigestsOnly payload.header)
    (hh : fileHeader header payload = .ok h) (tag : UInt32) :
    h.getRaw tag = (payload.header.getRaw tag).or
      ((lookup tag (payloadEntries payload)).or (header.getRaw tag)) := by
  rw [fileHeader_eq] at hh
  obtain rfl := Except.ok.inj hh
  rw [getRaw_extend hp.distinct, getRaw_extend (distinct_payloadEntries payload)]
  rfl

lemma distinct_fileHeader {h : Header .metadata} (hd : header.Distinct)
    (hh : fileHeader header payload = .ok h) : h.Distinct := by
  rw [fileHeader_eq] at hh
  obtain rfl := Except.ok.inj hh
  exact (hd.extend _).extend _

lemma unambiguous_of_fileHeader {h : Header .metadata} (hu : header.Unambiguous)
    (hp : payload.header.Unambiguous) (hh : fileHeader header payload = .ok h) :
    h.Unambiguous := by
  rw [fileHeader_eq] at hh
  obtain rfl := Except.ok.inj hh
  refine (hu.extend fun e he => ?_).extend hp
  simp only [payloadEntries, List.mem_cons, List.not_mem_nil, or_false] at he
  rcases he with rfl | rfl | rfl <;> trivial

lemma unambiguous_fileHeader {h : Header .metadata} (hu : header.Unambiguous)
    (hp : DigestsOnly payload.header) (hh : fileHeader header payload = .ok h) :
    h.Unambiguous :=
  unambiguous_of_fileHeader hu hp.unambiguous hh

lemma same_of_stablySorted {ns : Namespace} {h g : Header ns} (hd : h.Distinct)
    (hs : StablySorted h.entries g.entries) :
    g.same h = true ∧ ∀ tag, g.getRaw tag = h.getRaw tag := by
  have heq : ∀ tag, g.getRaw tag = h.getRaw tag := lookup_of_stablySorted hs
  have hd' : g.Distinct := (hs.perm.map Entry.tag).nodup_iff.mpr hd
  exact ⟨same_of_getRaw_eq hd' hs.perm.length_eq heq, heq⟩

lemma Package.coding_of_get {p : Package} {c : Coding}
    (hformat : p.header.get MetadataTag.payloadFormat = some (.string "cpio"))
    (hcompressor : p.header.get MetadataTag.payloadCompressor = some (.string c.name)) :
    p.coding = .ok c := by
  simp only [Package.coding, Header.getString, Header.typed, hformat, hcompressor, Value.asString?,
    Coding.parse, Coding.ofName?_name, bind, Except.bind]

lemma Package.coding_eq {p : Package} (hp : DigestsOnly payload.header)
    (h : ∀ tag, p.header.getRaw tag = (payload.header.getRaw tag).or
      ((lookup tag (payloadEntries payload)).or (header.getRaw tag))) :
    p.coding = .ok payload.flags.coding := by
  have hformat : p.header.get MetadataTag.payloadFormat = some (.string "cpio") := by
    rw [Header.get, h, hp.getRaw_eq_none (by decide)]
    rfl
  have hcompressor : p.header.get MetadataTag.payloadCompressor =
      some (.string payload.flags.coding.name) := by
    rw [Header.get, h, hp.getRaw_eq_none (by decide)]
    rfl
  exact Package.coding_of_get hformat hcompressor

/-! ### The file -/

lemma PackageParts.bytes_eq (parts : PackageParts) :
    parts.bytes = parts.lead.bytes ++ (parts.signature ++
      (replicateByte (signaturePadding parts.signature.size) 0 ++ (parts.header ++ parts.payload))) := by
  simp [PackageParts.bytes, PackageParts.pieces]

lemma PackageParts.extract_header (parts : PackageParts) {offset : Nat}
    (h : offset = Lead.size + parts.signature.size + signaturePadding parts.signature.size) :
    parts.bytes.extract offset (offset + parts.header.size) = parts.header := by
  have hcut : parts.bytes = parts.lead.bytes ++ parts.signature ++
      replicateByte (signaturePadding parts.signature.size) 0 ++ parts.header ++ parts.payload := by
    simp only [PackageParts.bytes_eq, ByteArray.append_assoc]
  rw [hcut]
  refine extract_middle ?_ ?_ <;>
    simp only [h, ByteArray.size_append, Lead.size_bytes, size_replicateByte]

/-- The bytes of a file in front of its payload. -/
def PackageParts.front (parts : PackageParts) : ByteArray :=
  parts.lead.bytes ++ (parts.signature ++
    (replicateByte (signaturePadding parts.signature.size) 0 ++ parts.header))

lemma PackageParts.bytes_eq_front (parts : PackageParts) :
    parts.bytes = parts.front ++ parts.payload := by
  simp only [bytes_eq, front, ByteArray.append_assoc]

lemma PackageParts.bytes_of_append {parts : PackageParts} {front : ByteArray}
    (h : parts.bytes = front ++ parts.payload) (other : ByteArray) :
    { parts with payload := other }.bytes = front ++ other := by
  rw [bytes_eq_front, ByteArray.append_left_inj] at h
  rw [bytes_eq_front, ← h]
  rfl

lemma PackageParts.size_header_le (parts : PackageParts) :
    parts.header.size + parts.payload.size ≤ parts.bytes.size := by
  simp only [bytes_eq, ByteArray.size_append]
  omega

/-- A file is cut apart where it was joined, and is read if its metadata header can be. -/
lemma Package.read_eq {parts : PackageParts} {h : Header .metadata} {sig : Header .signature}
    (hmajor : parts.lead.major = 3) (hsig : sig.render true = .ok parts.signature)
    (hheader : h.render true = .ok parts.header)
    (limits : WithinLimits parts.signature ∧ WithinLimits parts.header) (hu : sig.Unambiguous) :
    ∃ lead sig', StablySorted sig.entries sig'.entries ∧ ∀ payload,
      Package.read (Source.ofBytes { parts with payload }.bytes) =
        (Header.parse parts.header).map fun h' =>
          ⟨lead, sig', parts.signature, h', parts.header, Source.ofBytes payload⟩ := by
  set padding := replicateByte (signaturePadding parts.signature.size) 0 with hpadding
  refine ⟨{ parts.lead with name := Lead.nameOfField (Lead.nameField parts.lead.name) },
    ⟨sortedByTag sig.entries⟩, stablySorted_sortedByTag sig.entries, fun payload => ?_⟩
  have hread := read_append_of_render hsig limits.1 (padding ++ (parts.header ++ payload)) none
  have hread' := read_append_of_render hheader limits.2 payload none
  have hparse := parse_of_render hsig limits.1 hu
  have hskip : signaturePadding parts.signature.size = padding.size := by
    rw [hpadding, size_replicateByte]
  rw [PackageParts.bytes_eq]
  simp only [Package.read, Source.ofBytes, Lead.read_bytes hmajor, ← hpadding, hread, hparse, bind,
    Except.bind, Source.readExact_append _ _ hskip, Except.mapError, hread', Except.map]
  cases (Header.parse parts.header : Except Error (Header .metadata)) <;> rfl

/-- A file whose metadata header tells how it is to be read is taken apart into what it was joined
of. -/
lemma Package.read_parts {parts : PackageParts} {h : Header .metadata} {sig : Header .signature}
    (hmajor : parts.lead.major = 3) (hsig : sig.render true = .ok parts.signature)
    (hheader : h.render true = .ok parts.header)
    (limits : WithinLimits parts.signature ∧ WithinLimits parts.header)
    (hu : sig.Unambiguous) (hu' : h.Unambiguous) :
    ∃ p, Package.read (Source.ofBytes parts.bytes) = .ok p ∧ p.signatureBytes = parts.signature ∧
      p.headerBytes = parts.header ∧ p.payload = Source.ofBytes parts.payload ∧
      StablySorted sig.entries p.signature.entries ∧ StablySorted h.entries p.header.entries := by
  obtain ⟨lead, sig', hsorted, hread⟩ := Package.read_eq hmajor hsig hheader limits hu
  refine ⟨⟨lead, sig', parts.signature, ⟨sortedByTag h.entries⟩, parts.header,
    Source.ofBytes parts.payload⟩, (hread parts.payload).trans ?_, rfl, rfl, rfl, hsorted,
    stablySorted_sortedByTag h.entries⟩
  rw [parse_of_render hheader limits.2 hu']
  rfl

lemma Writer.eq_of_addProcessors {τ σ : Type} [ByteSink τ] [SignatureProcessor σ]
    {w w' : Writer τ σ} {processors : List σ} (h : processors.foldlM addProcessor w = .ok w') :
    ∃ processing, processors.foldlM SignatureProcessing.add w.processing = .ok processing ∧
      w' = { w with processing } := by
  induction processors generalizing w with
  | nil => exact ⟨w.processing, rfl, (pure_eq_ok_iff.mp h).symm⟩
  | cons p processors ih =>
    obtain ⟨v, hadd, h⟩ := bind_eq_ok_iff.mp h
    unfold addProcessor at hadd
    split at hadd
    · simp at hadd
    · obtain ⟨s, hs, hv⟩ := bind_eq_ok_iff.mp hadd
      obtain rfl := pure_eq_ok_iff.mp hv
      obtain ⟨processing, hprocessing, rfl⟩ := ih h
      exact ⟨processing, bind_eq_ok_iff.mpr ⟨s, hs, hprocessing⟩, rfl⟩

lemma Writer.of_addProcessors {τ σ : Type} [ByteSink τ] [SignatureProcessor σ] {w w' : Writer τ σ}
    {processors : List σ} (h : processors.foldlM addProcessor w = .ok w') :
    w'.sink = w.sink ∧ w'.lead = w.lead := by
  obtain ⟨processing, -, rfl⟩ := eq_of_addProcessors h
  exact ⟨rfl, rfl⟩

/-- **File round trip.** What a writer wrote without an error is read back as it was written. -/
theorem Package.read_of_finish {kind : PackageKind} {architecture name : String} {sink : Sink}
    {extra : List StandardProcessor} {w : Writer Sink StandardProcessor}
    {recorder : Recorder PayloadDigester} (fresh : sink.accepted = ByteArray.empty)
    (added : extra.foldlM addProcessor (Writer.new sink (Lead.new kind architecture name)) = .ok w)
    (distinct : header.Distinct) (recorded : recorder.finish.2 = .ok payload)
    (written : (w.loaded header payload).finish.2 = .ok ())
    (limits : ∀ parts, (w.loaded header payload).parts payload = .ok parts →
      WithinLimits parts.signature ∧ WithinLimits parts.header)
    (known : header.Unambiguous) :
    let file := (w.loaded header payload).finish.1.sink.accepted
    ∃ p, Package.read (Source.ofBytes file) = .ok p ∧
      p.ReadBack w.processing header payload file := by
  intro file
  obtain ⟨hsink, hlead⟩ := Writer.of_addProcessors added
  obtain ⟨-, -, hdigests⟩ := Recorder.finish_eq_ok recorded
  obtain ⟨parts, hparts, hfile⟩ := accepted_finish rfl written
  obtain ⟨h, sig, hh, hheader, hsig, hsignature, hpartsLead, hpayload⟩ := parts_eq_ok hparts
  have hbytes : file = parts.bytes := by
    rw [show file = _ from hfile, Writer.loaded, hsink, Writer.new, fresh, ByteArray.empty_append]
  have hmajor : parts.lead.major = 3 := by
    rw [hpartsLead, Writer.loaded, hlead]
    rfl
  obtain ⟨p, hread, hsigBytes, hheaderBytes, hrest, hsorted, hsorted'⟩ :=
    Package.read_parts hmajor hsignature hheader (limits parts hparts)
      (keptBySet_signatureHeader keptBySet_unambiguous unambiguous_empty hsig)
      (unambiguous_fileHeader known hdigests hh)
  have hsame := same_of_stablySorted
    (keptBySet_signatureHeader keptBySet_distinct distinct_empty hsig) hsorted
  have hsame' := same_of_stablySorted (distinct_fileHeader distinct hh) hsorted'
  have hraw : ∀ tag, p.header.getRaw tag = (payload.header.getRaw tag).or
      ((lookup tag (payloadEntries payload)).or (header.getRaw tag)) :=
    fun tag => (hsame'.2 tag).trans (getRaw_fileHeader hdigests hh tag)
  refine ⟨p, hbytes ▸ hread, ?_⟩
  exact {
    signature := ⟨sig, hheaderBytes ▸ hsig, hsame⟩
    rendered := ⟨h, hh, hheaderBytes ▸ hheader, hsame'.1⟩
    getRaw_header := hraw
    dvd_headerOffset := dvd_add_paddingFor (by decide) _
    extract_header := by
      rw [hbytes, hheaderBytes]
      exact parts.extract_header (by rw [Package.headerOffset, hsigBytes])
    coding := Package.coding_eq hdigests hraw
    payload := hpayload ▸ hrest }

/-! ### A package without files -/

/-- A recorder to which nothing is added but the usual digester. -/
def emptyRecorder : Recorder PayloadDigester where
  flags := { coding := .none }
  fileDigest := .default
  archive := some ⟨{ processors := [.default] }, 0⟩

/-- A header with a name and a value of a type that is not known. -/
def namedHeader : Header .metadata :=
  ⟨[⟨MetadataTag.name.id, .string "name"⟩, ⟨5000, .unknown 12 ⟨#[1, 2]⟩⟩]⟩

lemma placeable_namedHeader :
    ∀ e ∈ namedHeader.entries, e.Placeable Namespace.metadata.region := by
  intro e he
  simp only [namedHeader, List.mem_cons, List.not_mem_nil, or_false] at he
  rcases he with rfl | rfl <;> exact ⟨by decide, by decide +kernel⟩

lemma unambiguous_namedHeader : namedHeader.Unambiguous := by
  simp [Header.Unambiguous, namedHeader, Value.Unambiguous]

/-- A writer of a package with the default processors. -/
def namedWriter : Writer Sink StandardProcessor := .new {} (.new .binary "x86_64" "name")

lemma emptyRecorder_finish : ∃ payload, emptyRecorder.finish.2 = .ok payload ∧
    payload.bytes.size < 2 ^ 31 ∧ payload.archiveSize < 2 ^ 32 ∧
      payload.payloadSize = payload.bytes.size :=
  exists_of_any (by decide +kernel)

/-- What is said of a payload can be placed and takes little room, unless the text of its flags is
long. -/
lemma placeable_payloadEntries {payload : FinishedPayload}
    (hnul : holdsNul payload.flags.display = false)
    (hsize : payload.flags.display.utf8ByteSize ≤ 50) :
    (∀ e ∈ payloadEntries payload, e.Placeable Namespace.metadata.region) ∧
      roomFor (payloadEntries payload) ≤ 100 := by
  have hname : holdsNul payload.flags.coding.name = false ∧
      (terminated payload.flags.coding.name).size ≤ 10 := by
    cases payload.flags.coding <;> decide +kernel
  refine ⟨fun e he => ?_, ?_⟩
  · simp only [payloadEntries, List.mem_cons, List.not_mem_nil, or_false] at he
    rcases he with rfl | rfl | rfl
    · exact ⟨by decide, by decide +kernel⟩
    · exact ⟨show MetadataTag.payloadCompressor.id ≠ _ by decide, hname.1⟩
    · exact ⟨show MetadataTag.payloadFlags.id ≠ _ by decide, hnul⟩
  · have hformat : (terminated "cpio").size = 5 := by decide +kernel
    have hflags : (terminated payload.flags.display).size =
        payload.flags.display.utf8ByteSize + 1 := size_terminated _
    simp only [payloadEntries, roomFor, Value.bytes, hformat, hflags]
    omega

/-- A small header and a payload with flags that are short are written, within the limits of
readers. -/
lemma exists_parts_of_shortFlags (lead : Lead) (hdigests : DigestsOnly payload.header)
    (hnul : holdsNul payload.flags.display = false)
    (hshort : payload.flags.display.utf8ByteSize ≤ 50)
    (hcount : payload.payloadSize = payload.bytes.size)
    (hplaceable : ∀ e ∈ header.entries, e.Placeable Namespace.metadata.region)
    (hsmall : header.entries.length ≤ 100 ∧ roomFor header.entries ≤ 1000) :
    ∃ parts, ((Writer.new ({} : Sink) lead).loaded header payload).parts payload = .ok parts ∧
      (WithinLimits parts.signature ∧ WithinLimits parts.header) ∧
      ((Writer.new ({} : Sink) lead).loaded header payload).finish.2 = .ok () := by
  obtain ⟨hplaceable', hroom⟩ := placeable_payloadEntries hnul hshort
  have hfits := size_extend_le header ⟨payloadEntries payload⟩
  have hfits' := size_extend_le (header.extend ⟨payloadEntries payload⟩) payload.header
  have hdigestsFit := hdigests.size_le
  have hlength : (payloadEntries payload).length = 3 := rfl
  simp only at hfits
  obtain ⟨parts, hparts, hlimits⟩ :=
    exists_parts (w := (Writer.new ({} : Sink) lead).loaded header payload) rfl
      (fileHeader_eq header payload)
      (forall_mem_extend (forall_mem_extend hplaceable hplaceable') hdigests.placeable)
      (Nat.lt_of_le_of_lt (by omega) (show 106 < mostIndexEntries by decide))
      (Nat.le_trans (by omega) (show 1524 ≤ mostStoreSize by decide))
  exact ⟨parts, hparts, hlimits, finish_eq_ok rfl rfl hparts hcount rfl rfl⟩

/-- A small header and a payload that is not compressed are written, within the limits of readers. -/
lemma exists_parts_of_small (lead : Lead) {recorder : Recorder PayloadDigester}
    (recorded : recorder.finish.2 = .ok payload) (hflags : payload.flags = emptyRecorder.flags)
    (hsize : payload.bytes.size < 2 ^ 31 ∧ payload.archiveSize < 2 ^ 32 ∧
      payload.payloadSize = payload.bytes.size)
    (hplaceable : ∀ e ∈ header.entries, e.Placeable Namespace.metadata.region)
    (hsmall : header.entries.length ≤ 100 ∧ roomFor header.entries ≤ 1000) :
    ∃ parts, ((Writer.new ({} : Sink) lead).loaded header payload).parts payload = .ok parts ∧
      (WithinLimits parts.signature ∧ WithinLimits parts.header) ∧
      ((Writer.new ({} : Sink) lead).loaded header payload).finish.2 = .ok () := by
  obtain ⟨-, -, hdigests⟩ := Recorder.finish_eq_ok recorded
  refine exists_parts_of_shortFlags lead hdigests ?_ ?_ hsize.2.2 hplaceable hsmall
  · rw [hflags]
    decide +kernel
  · rw [hflags]
    decide +kernel

theorem Package.read_of_finish_emptyRecorder :
    ∃ payload p, emptyRecorder.finish.2 = .ok payload ∧
      Package.read (Source.ofBytes (namedWriter.loaded namedHeader payload).finish.1.sink.accepted) =
        .ok p ∧
      p.ReadBack namedWriter.processing namedHeader payload
        (namedWriter.loaded namedHeader payload).finish.1.sink.accepted := by
  obtain ⟨payload, recorded, hsize⟩ := emptyRecorder_finish
  obtain ⟨-, hflags, -⟩ := Recorder.finish_eq_ok recorded
  obtain ⟨parts, hparts, hlimits, written⟩ :=
    exists_parts_of_small namedWriter.lead recorded hflags hsize placeable_namedHeader
      (by decide +kernel)
  have added : ([] : List StandardProcessor).foldlM addProcessor
      (Writer.new {} (Lead.new .binary "x86_64" "name")) = .ok namedWriter := rfl
  obtain ⟨p, hread, hback⟩ := Package.read_of_finish rfl added
    (by simp only [Header.Distinct, namedHeader]; decide) recorded written
    (fun parts' hparts' => Except.ok.inj (hparts.symm.trans hparts') ▸ hlimits)
    (by simp [Header.Unambiguous, namedHeader, Value.Unambiguous])
  exact ⟨payload, p, recorded, hread, hback⟩

end Rpm

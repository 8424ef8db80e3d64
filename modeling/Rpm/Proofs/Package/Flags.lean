import Rpm.Proofs.Package.Limits
import Rpm.Proofs.Payload.Calls
import Rpm.Proofs.Payload.Flags

/-!
Payload flags in package files.

A recorder takes flags of its coding whatever they set. The text of the flags stands in the metadata
header, unless a processor of the payload says something else there. From it a reader gets the flags
back exactly if their coding has all that they set, and otherwise an error.
-/

namespace Rpm

open Header Writer

/-- Whether the processors of a payload leave to others how it is described. -/
def FinishedPayload.Silent (payload : FinishedPayload) : Prop :=
  ∀ e ∈ payloadEntries payload, payload.header.getRaw e.tag = none

variable {payload : FinishedPayload}

lemma DigestsOnly.silent (h : DigestsOnly payload.header) : payload.Silent := by
  intro e he
  simp only [payloadEntries, List.mem_cons, List.not_mem_nil, or_false] at he
  rcases he with rfl | rfl | rfl
  · exact h.getRaw_eq_none (show MetadataTag.payloadFormat.id ∉ _ by decide)
  · exact h.getRaw_eq_none (show MetadataTag.payloadCompressor.id ∉ _ by decide)
  · exact h.getRaw_eq_none (show MetadataTag.payloadFlags.id ∉ _ by decide)

lemma FinishedPayload.Silent.getRaw_fileHeader {header h : Header .metadata} (silent : payload.Silent)
    (hh : fileHeader header payload = .ok h) {e : Entry} (he : e ∈ payloadEntries payload) :
    h.getRaw e.tag = some e.value := by
  rw [fileHeader_eq] at hh
  obtain rfl := Except.ok.inj hh
  rw [getRaw_extend_of_none (silent e he), getRaw_extend (distinct_payloadEntries payload)]
  have hentry : (⟨payloadEntries payload⟩ : Header .metadata).getRaw e.tag = some e.value :=
    lookup_of_mem (distinct_payloadEntries payload) he
  rw [hentry]
  rfl

namespace Package

variable {p : Package} {w : Writer Sink StandardProcessor}

/-- From a header that describes flags, a reader gets them if their coding has all that they set. -/
lemma payloadFlags_of_get {f : PayloadFlags}
    (hformat : p.header.get MetadataTag.payloadFormat = some (.string "cpio"))
    (hcompressor : p.header.get MetadataTag.payloadCompressor = some (.string f.coding.name))
    (hflags : p.header.get MetadataTag.payloadFlags = some (.string f.display)) :
    p.payloadFlags =
      if f.fits then .ok (some f) else .error (.invalidFlags f.coding f.display) := by
  have hcoding := coding_of_get hformat hcompressor
  have hstring : p.header.getString MetadataTag.payloadFlags = .ok (some f.display) :=
    typed_eq_some_iff.mpr ⟨_, hflags, rfl⟩
  simp only [payloadFlags, hstring, hcoding, PayloadFlags.parse_display, bind, Except.bind]
  split_ifs <;> rfl

lemma parse_header_of_read {parts : PackageParts} {h : Header .metadata} {sig : Header .signature}
    (hsig : sig.render true = .ok parts.signature) (hheader : h.render true = .ok parts.header)
    (hu : sig.Unambiguous) (hread : Package.read (Source.ofBytes parts.bytes) = .ok p) :
    WithinLimits parts.header ∧ Header.parse parts.header = .ok p.header := by
  have hmajor : parts.lead.major = 3 := by
    by_contra hne
    exact absurd (hread.symm.trans (read_of_ne hne)) (by simp)
  have hlimits : WithinLimits parts.signature ∧ WithinLimits parts.header := by
    by_contra hnot
    obtain ⟨limit, hlarge⟩ := (tooLarge_read_iff hsig hheader hu).mpr ⟨hmajor, hnot⟩
    exact absurd (hread.symm.trans hlarge) (by simp)
  obtain ⟨lead, sig', -, heq⟩ := read_eq hmajor hsig hheader hlimits hu
  obtain ⟨h', hparse, rfl⟩ := map_eq_ok_iff.mp ((heq parts.payload).symm.trans hread)
  exact ⟨hlimits.2, hparse⟩

/-- **The flags of a file** are those of its payload, if their coding has all that they set. -/
lemma payloadFlags_of_finish (silent : payload.Silent) (fresh : w.sink.accepted = ByteArray.empty)
    (given : w.payload = some payload) (written : w.finish.2 = .ok ())
    (hread : Package.read (Source.ofBytes w.finish.1.sink.accepted) = .ok p) :
    p.payloadFlags = if payload.flags.fits then .ok (some payload.flags) else
      .error (.invalidFlags payload.flags.coding payload.flags.display) := by
  obtain ⟨parts, hparts, hfile⟩ := accepted_finish given written
  obtain ⟨header, sig, hfileHeader, hheader, hsig, hsignature, -⟩ := parts_eq_ok hparts
  rw [hfile, fresh, ByteArray.empty_append] at hread
  obtain ⟨hlimits, hparse⟩ := parse_header_of_read hsignature hheader
    (keptBySet_signatureHeader keptBySet_unambiguous unambiguous_empty hsig) hread
  have hget : ∀ (tag : UInt32) (s : String), ⟨tag, .string s⟩ ∈ payloadEntries payload →
      p.header.getRaw tag = some (.string s) := by
    intro tag s he
    have hraw : header.getRaw tag = some (.string s) := silent.getRaw_fileHeader hfileHeader he
    refine (getRaw_of_parse hheader hlimits hparse fun value hv => ?_).trans hraw
    obtain rfl := Option.some.inj (hraw.symm.trans hv)
    trivial
  exact payloadFlags_of_get (hget _ _ (by simp [payloadEntries])) (hget _ _ (by simp [payloadEntries]))
    (hget _ _ (by simp [payloadEntries]))

/-- A file that is within the limits of readers is read, if all its values tell how they are to be
read. -/
lemma exists_read_of_finish (fresh : w.sink.accepted = ByteArray.empty) (major : w.lead.major = 3)
    (given : w.payload = some payload) (written : w.finish.2 = .ok ())
    (known : w.header.Unambiguous ∧ payload.header.Unambiguous)
    (limits : ∀ parts, w.parts payload = .ok parts →
      WithinLimits parts.signature ∧ WithinLimits parts.header) :
    ∃ p, Package.read (Source.ofBytes w.finish.1.sink.accepted) = .ok p := by
  obtain ⟨parts, hparts, hfile⟩ := accepted_finish given written
  obtain ⟨header, sig, hfileHeader, hheader, hsig, hsignature, hlead, -⟩ := parts_eq_ok hparts
  obtain ⟨p, hread, -⟩ := read_parts (hlead ▸ major) hsignature hheader (limits parts hparts)
    (keptBySet_signatureHeader keptBySet_unambiguous unambiguous_empty hsig)
    (unambiguous_of_fileHeader known.1 known.2 hfileHeader)
  rw [hfile, fresh, ByteArray.empty_append]
  exact ⟨p, hread⟩

end Package

namespace Recorder

variable {σ : Type} [PayloadProcessor σ] {r : Recorder σ} {c : Coding} {given : Option PayloadFlags}
  {fileDigest : DigestAlgorithm}

/-- Whatever is added to a recorder, only its processors can fail at the end, and the payload has the
flags that the recorder began with. -/
lemma exists_finish_run (flags : PayloadFlags) (fileDigest : DigestAlgorithm)
    (calls : List (RecorderCall σ)) :
    ∃ (processors : List σ) (bytes : ByteArray) (archiveSize : Nat),
      ((filled flags fileDigest [] []).run calls).finish.2 =
        (PayloadStream.finishProcessors processors).map fun header =>
          ⟨bytes, archiveSize, bytes.size, flags, header⟩ := by
  obtain ⟨hrun, -⟩ := run_filled flags fileDigest ([] : List σ) [] calls
  set answers := (filled flags fileDigest ([] : List σ) []).answers calls
  obtain ⟨pieces, seen, -, -, -, hfinish⟩ := finish_filled flags fileDigest
    ([] ++ Answer.registered answers) ([] ++ membersOf (Answer.added answers))
  rw [← hrun] at hfinish
  exact ⟨_, _, _, hfinish⟩

lemma flags_of_run (fresh : Recorder.new c given fileDigest = .ok r)
    (calls : List (RecorderCall σ)) (recorded : (r.run calls).finish.2 = .ok payload) :
    payload.flags = given.getD (.ofCoding c) ∧ payload.flags.coding = c := by
  obtain ⟨hcoding, -, rfl⟩ := new_eq_ok_iff.mp fresh
  generalize given.getD (.ofCoding c) = flags at *
  obtain ⟨processors, bytes, archiveSize, hfinish⟩ := exists_finish_run flags fileDigest calls
  rw [hfinish] at recorded
  obtain ⟨header, -, rfl⟩ := map_eq_ok_iff.mp recorded
  exact ⟨rfl, hcoding⟩

end Recorder

/-- **Payload flags.** Whatever files are added to a recorder, and whatever else its header says: from
a package that is written with its payload, a reader gets the flags that the recorder was made with if
their coding has all that they set, and otherwise an error, as long as no processor of the payload
describes it in another way. A coding has all that flags set that are the usual ones, or that were
read from a text. And the package is read if it is within the limits of readers and all its values
tell how they are to be read. -/
theorem payloadFlags_of_recorded {σ : Type} [PayloadProcessor σ] {c : Coding}
    {given : Option PayloadFlags} {fileDigest : DigestAlgorithm} {r : Recorder σ}
    {w : Writer Sink StandardProcessor} (fresh : Recorder.new c given fileDigest = .ok r)
    (calls : List (RecorderCall σ)) (recorded : (r.run calls).finish.2 = .ok payload)
    (silent : payload.Silent) (unwritten : w.sink.accepted = ByteArray.empty)
    (loaded : w.payload = some payload) (written : w.finish.2 = .ok ()) :
    let flags := given.getD (.ofCoding c)
    let file := w.finish.1.sink.accepted
    (∀ p, Package.read (Source.ofBytes file) = .ok p →
      p.payloadFlags =
        if flags.fits then .ok (some flags) else .error (.invalidFlags c flags.display)) ∧
    (given = none ∨ (∃ s, PayloadFlags.parse c s = .ok flags) → flags.fits) ∧
    (w.lead.major = 3 → w.header.Unambiguous → payload.header.Unambiguous →
      (∀ parts, w.parts payload = .ok parts →
        WithinLimits parts.signature ∧ WithinLimits parts.header) →
      ∃ p, Package.read (Source.ofBytes file) = .ok p) := by
  intro flags file
  obtain ⟨hflags, hcoding⟩ := Recorder.flags_of_run fresh calls recorded
  refine ⟨fun p hread => ?_, ?_, fun major known known' limits => ?_⟩
  · rw [Package.payloadFlags_of_finish silent unwritten loaded written hread, hcoding, hflags]
  · rintro (rfl | ⟨s, hparse⟩)
    · exact PayloadFlags.fits_ofCoding c
    · exact PayloadFlags.fits_of_parse hparse
  · exact Package.exists_read_of_finish unwritten major loaded written ⟨known, known'⟩ limits

/-! ### A package with one file -/

/-- Flags that set all that their coding has. -/
def fullFlags : PayloadFlags :=
  { coding := .zstd, level := some 19, threads := some 4, windowLog := some 23 }

def oneFile : List (RecorderCall PayloadDigester) :=
  [.addProcessor .default, .addFile "/a" ⟨#[0]⟩ 0o644 0]

/-- A payload of digesters is written with a small header, unless the text of its flags is long. -/
lemma exists_written {f : PayloadFlags} (hnul : holdsNul f.display = false)
    (hshort : f.display.utf8ByteSize ≤ 50) (calls : List (RecorderCall PayloadDigester)) :
    ∃ payload, ((Recorder.filled f .sha256 [] []).run calls).finish.2 = .ok payload ∧
      ∃ parts, (namedWriter.loaded namedHeader payload).parts payload = .ok parts ∧
        (WithinLimits parts.signature ∧ WithinLimits parts.header) ∧
        (namedWriter.loaded namedHeader payload).finish.2 = .ok () := by
  obtain ⟨processors, bytes, archiveSize, hfinish⟩ := Recorder.exists_finish_run f .sha256 calls
  obtain ⟨header, hheader⟩ := PayloadStream.exists_finishProcessors processors
  rw [hheader] at hfinish
  refine ⟨_, hfinish, ?_⟩
  exact exists_parts_of_shortFlags namedWriter.lead (digestsOnly_finishProcessors hheader) hnul hshort
    rfl placeable_namedHeader (by decide +kernel)

theorem payloadFlags_of_recorded_fullFlags :
    ∃ (r : Recorder PayloadDigester) (payload : FinishedPayload) (p : Package),
      Recorder.new .zstd (some fullFlags) .sha256 = .ok r ∧
      (r.run oneFile).finish.2 = .ok payload ∧
      (namedWriter.loaded namedHeader payload).finish.2 = .ok () ∧
      Package.read (Source.ofBytes
        (namedWriter.loaded namedHeader payload).finish.1.sink.accepted) = .ok p ∧
      p.payloadFlags = .ok (some fullFlags) := by
  have fresh : Recorder.new .zstd (some fullFlags) .sha256 =
      .ok (Recorder.filled fullFlags .sha256 ([] : List PayloadDigester) []) :=
    Recorder.new_eq_ok_iff.mpr ⟨rfl, rfl, rfl⟩
  obtain ⟨payload, recorded, parts, hparts, hlimits, written⟩ :=
    exists_written (f := fullFlags) (by decide +kernel) (by decide +kernel) oneFile
  obtain ⟨-, -, hdigests⟩ := Recorder.finish_eq_ok recorded
  obtain ⟨hflags, -, hread⟩ := payloadFlags_of_recorded fresh oneFile recorded hdigests.silent
    (w := namedWriter.loaded namedHeader payload) rfl rfl written
  obtain ⟨p, hp⟩ := hread rfl unambiguous_namedHeader hdigests.unambiguous fun parts' hparts' =>
    Except.ok.inj (hparts.symm.trans hparts') ▸ hlimits
  exact ⟨_, payload, p, fresh, recorded, written, hp, (hflags p hp).trans (if_pos (by decide))⟩

/-- Flags with a level that their coding does not have. -/
def strongFlags : PayloadFlags := { coding := .gzip, level := some 10 }

/-- Flags can be recorded and written so that a reader does not take them. -/
theorem payloadFlags_strongFlags :
    ∃ (r : Recorder PayloadDigester) (payload : FinishedPayload) (p : Package),
      Recorder.new .gzip (some strongFlags) .sha256 = .ok r ∧
      (r.run oneFile).finish.2 = .ok payload ∧ payload.flags = strongFlags ∧
      (namedWriter.loaded namedHeader payload).finish.2 = .ok () ∧
      Package.read (Source.ofBytes
        (namedWriter.loaded namedHeader payload).finish.1.sink.accepted) = .ok p ∧
      p.payloadFlags = .error (.invalidFlags .gzip "10") := by
  have fresh : Recorder.new .gzip (some strongFlags) .sha256 =
      .ok (Recorder.filled strongFlags .sha256 ([] : List PayloadDigester) []) :=
    Recorder.new_eq_ok_iff.mpr ⟨rfl, rfl, rfl⟩
  obtain ⟨payload, recorded, parts, hparts, hlimits, written⟩ :=
    exists_written (f := strongFlags) (by decide +kernel) (by decide +kernel) oneFile
  obtain ⟨hflags, -⟩ := Recorder.flags_of_run fresh oneFile recorded
  obtain ⟨-, -, hdigests⟩ := Recorder.finish_eq_ok recorded
  obtain ⟨p, hp⟩ := Package.exists_read_of_finish rfl rfl rfl written
    ⟨unambiguous_namedHeader, hdigests.unambiguous⟩ fun parts' hparts' =>
      Except.ok.inj (hparts.symm.trans hparts') ▸ hlimits
  have hread := Package.payloadFlags_of_finish hdigests.silent rfl rfl written hp
  rw [hflags] at hread
  exact ⟨_, payload, p, fresh, recorded, hflags, written, hp,
    hread.trans ((if_neg (by decide)).trans (by decide +kernel))⟩

end Rpm

import Rpm.Proofs.Package.RoundTrip

/-!
Limits of writers and of readers.

A writer takes sections whose offsets and sizes fit into signed numbers of 32 bits. A reader takes
less: so many index records, of which the region has one, and so large a store, of which the region
has sixteen bytes. So what is written is refused for its size exactly if a header has more entries or
larger values than that, in the order and at the alignment in which they are placed.
-/

namespace Rpm

variable {region : UInt32} {entries : List Entry} {data : ByteArray}

/-! ### How much is written -/

/-- The size of a store of `size` bytes after values are placed in it. -/
def laidOut (size : Nat) : List Entry → Nat
  | [] => size
  | e :: entries =>
    laidOut (size + paddingFor e.value.alignment size + e.value.bytes.size) entries

/-- Whether a reader takes the section that entries are rendered to in this order. -/
structure Takeable (entries : List Entry) : Prop where
  length_lt : entries.length < mostIndexEntries
  size_le : laidOut 0 entries + 16 ≤ mostStoreSize

lemma Layout.size_store_of_foldlM {l l' : Layout}
    (hp : entries.foldlM (Layout.place region) l = .ok l') :
    l'.store.size = laidOut l.store.size entries := by
  induction entries generalizing l with
  | nil => rw [← pure_eq_ok_iff.mp hp, laidOut]
  | cons e entries ih =>
    rw [List.foldlM_cons, bind_eq_ok_iff] at hp
    obtain ⟨m, hm, hp⟩ := hp
    obtain ⟨-, -, -, -, rfl⟩ := Layout.place_eq_ok_iff.mp hm
    rw [ih hp, laidOut, aligned, ByteArray.size_append, ByteArray.size_append, size_replicateByte]

/-- **A rendered section is within the limits of readers** exactly if its entries are. -/
lemma withinLimits_iff_takeable {sort : Bool}
    (rendered : renderEntries entries sort region = .ok data) :
    WithinLimits data ↔ Takeable (if sort then sortedByTag entries else entries) := by
  obtain ⟨l, hl, hs⟩ := bind_eq_ok_iff.mp rendered
  obtain ⟨hstore, hcount, rfl⟩ := Layout.section_eq_ok_iff.mp hs
  have hlength := (Layout.holds_empty.foldlM hl).size_eq
  have hsize := Layout.size_store_of_foldlM hl
  rw [List.nil_append] at hlength
  rw [ByteArray.size_empty] at hsize
  rw [withinLimits_sectionBytes_iff (by simp; omega) (by simp; omega)]
  simp only [List.length_cons, Array.length_toList, hlength, ByteArray.size_append,
    IndexRecord.size_bytes, hsize]
  exact ⟨fun ⟨h₁, h₂⟩ => ⟨h₁, h₂⟩, fun ⟨h₁, h₂⟩ => ⟨h₁, h₂⟩⟩

/-! ### What a reader refuses -/

/-- Whether what is read is refused for its size. -/
def TooLarge {α : Type} (x : Except Error α) : Prop := ∃ limit, x = .error (.headerTooLarge limit)

section TooLarge

variable {α β : Type} {x : Except Error α}

lemma not_tooLarge_ok (a : α) : ¬TooLarge (.ok a : Except Error α) := by simp [TooLarge]

lemma tooLarge_map_iff {f : α → β} : TooLarge (x.map f) ↔ TooLarge x :=
  exists_congr fun _ => map_eq_error_iff

lemma not_tooLarge_bind {f : α → Except Error β} (hx : ¬TooLarge x) (hf : ∀ a, ¬TooLarge (f a)) :
    ¬TooLarge (x >>= f) := by
  cases x with
  | error e => exact fun ⟨limit, h⟩ => hx ⟨limit, congrArg Except.error (Except.error.inj h)⟩
  | ok a => exact hf a

end TooLarge

lemma not_tooLarge_readStrings (tag : UInt32) (store : ByteArray) (count pos : Nat)
    (read : Array String) : ¬TooLarge (readStrings tag store count pos read) := by
  induction count generalizing pos read with
  | zero => exact not_tooLarge_ok _
  | succ count ih =>
    unfold readStrings
    split
    · simp [TooLarge]
    · split
      · simp [TooLarge]
      · exact ih _ _

lemma not_tooLarge_decodeValue (store : ByteArray) (r : IndexRecord) :
    ¬TooLarge (decodeValue store r) := by
  have hstrings : ∀ {β : Type} (count pos : Nat) (f : List String → β),
      ¬TooLarge ((readStrings r.tag store count pos #[]).map f) := fun count pos f h =>
    not_tooLarge_readStrings _ _ _ _ _ (tooLarge_map_iff.mp h)
  unfold decodeValue
  split_ifs
  · simp [TooLarge]
  · simp [TooLarge]
  · dsimp only
    split
    all_goals first
      | exact not_tooLarge_ok _
      | exact hstrings _ _ _

lemma not_tooLarge_decodeRecords (store : ByteArray) (records : List IndexRecord) :
    ¬TooLarge (decodeRecords store records) := by
  induction records with
  | nil => exact not_tooLarge_ok _
  | cons r records ih =>
    rw [decodeRecords_cons]
    exact not_tooLarge_bind (not_tooLarge_decodeValue store r) fun value =>
      not_tooLarge_bind ih fun entries => not_tooLarge_ok _

lemma tooLarge_parse_of_render {sort : Bool}
    (rendered : renderEntries entries sort region = .ok data) (hlarge : ¬WithinLimits data)
    (rest : ByteArray) : TooLarge (Prologue.parse (data ++ rest)) := by
  obtain ⟨records, store, rfl, -, hcount, hstore, -⟩ := exists_sectionBytes_of_render rendered
  rw [withinLimits_sectionBytes_iff hcount hstore] at hlarge
  rw [Prologue.parse_sectionBytes_eq rest hcount hstore]
  split_ifs with h h'
  · exact ⟨_, rfl⟩
  · exact ⟨_, rfl⟩
  · exact absurd ⟨Nat.le_of_not_lt h, Nat.le_of_not_lt h'⟩ hlarge

/-- **A rendered section is refused for its size** exactly if it is beyond the limits. -/
lemma tooLarge_parseEntries_iff {sort : Bool}
    (rendered : renderEntries entries sort region = .ok data) (rest : ByteArray) :
    TooLarge (parseEntries (data ++ rest) region) ↔ ¬WithinLimits data := by
  constructor
  · intro hlarge limits
    obtain ⟨records, store, rfl, -, hcount, hstore, hrange, -⟩ :=
      exists_sectionBytes_of_render rendered
    obtain ⟨hcount', hstore'⟩ := (withinLimits_sectionBytes_iff hcount hstore).mp limits
    rw [parseEntries_sectionBytes region rest hcount' hstore' hrange] at hlarge
    exact not_tooLarge_decodeRecords _ _ hlarge
  · intro hlarge
    obtain ⟨limit, hlimit⟩ := tooLarge_parse_of_render rendered hlarge rest
    exact ⟨limit, by simp only [parseEntries, hlimit, bind, Except.bind]⟩

/-! ### Packages -/

namespace Header

variable {ns : Namespace} {h : Header ns}

lemma tooLarge_read_of_render (rendered : h.render true = .ok data) (hlarge : ¬WithinLimits data)
    (rest : ByteArray) (failure : Option StreamError) :
    ∃ limit, (Header.read ⟨data ++ rest, failure⟩ : Except Error (Header ns × ByteArray × Source)) =
      .error (.headerTooLarge limit) := by
  obtain ⟨limit, hlimit⟩ := tooLarge_parse_of_render rendered hlarge rest
  obtain ⟨records, store, rfl, -⟩ := exists_sectionBytes_of_render rendered
  have h16 : 16 ≤ (sectionBytes records store ++ rest).size := by
    rw [ByteArray.size_append, size_sectionBytes]
    omega
  refine ⟨limit, ?_⟩
  simp only [Header.read, Source.readExact, if_pos h16, Except.mapError, bind, Except.bind,
    Prologue.parse_extract h16, hlimit]

end Header

open Header Writer

lemma Package.read_of_ne {parts : PackageParts} (hmajor : parts.lead.major ≠ 3) :
    Package.read (Source.ofBytes parts.bytes) =
      .error (.unsupportedLeadVersion parts.lead.major parts.lead.minor) := by
  rw [PackageParts.bytes_eq]
  simp only [Package.read, Source.ofBytes, Lead.read_bytes_of_ne hmajor, bind, Except.bind]

/-- **A file is refused for its size** exactly if one of its headers is beyond the limits. -/
lemma Package.tooLarge_read_iff {parts : PackageParts} {h : Header .metadata}
    {sig : Header .signature} (hsig : sig.render true = .ok parts.signature)
    (hheader : h.render true = .ok parts.header) (hu : sig.Unambiguous) :
    TooLarge (Package.read (Source.ofBytes parts.bytes)) ↔
      parts.lead.major = 3 ∧ ¬(WithinLimits parts.signature ∧ WithinLimits parts.header) := by
  by_cases hmajor : parts.lead.major = 3
  case neg => simp [Package.read_of_ne hmajor, TooLarge, hmajor]
  rw [and_iff_right hmajor]
  by_cases hlimits : WithinLimits parts.signature ∧ WithinLimits parts.header
  · obtain ⟨lead, sig', -, hread⟩ := Package.read_eq hmajor hsig hheader hlimits hu
    have hparse := tooLarge_parseEntries_iff hheader ByteArray.empty
    rw [ByteArray.append_empty] at hparse
    rw [show Package.read (Source.ofBytes parts.bytes) = _ from hread parts.payload,
      tooLarge_map_iff, Header.parse, tooLarge_map_iff, hparse, not_iff_not]
    exact iff_of_true hlimits.2 hlimits
  · refine iff_of_true ?_ hlimits
    set padding := replicateByte (signaturePadding parts.signature.size) 0 with hpadding
    have hskip : signaturePadding parts.signature.size = padding.size := by
      rw [hpadding, size_replicateByte]
    rw [PackageParts.bytes_eq]
    by_cases hlimit : WithinLimits parts.signature
    · have hread := read_append_of_render hsig hlimit (padding ++ (parts.header ++ parts.payload))
        none
      have hparse := parse_of_render hsig hlimit hu
      obtain ⟨limit, hlarge⟩ := tooLarge_read_of_render hheader (fun h => hlimits ⟨hlimit, h⟩)
        parts.payload none
      refine ⟨limit, ?_⟩
      simp only [Package.read, Source.ofBytes, Lead.read_bytes hmajor, ← hpadding, hread, hparse,
        bind, Except.bind, Source.readExact_append _ _ hskip, Except.mapError, hlarge, Except.map]
    · obtain ⟨limit, hlarge⟩ := tooLarge_read_of_render hsig hlimit
        (padding ++ (parts.header ++ parts.payload)) none
      refine ⟨limit, ?_⟩
      simp only [Package.read, Source.ofBytes, Lead.read_bytes hmajor, ← hpadding, hlarge, bind,
        Except.bind]

/-- A package that is written is refused for its size exactly if one of its headers is beyond the
limits, unless it is refused for its lead at once. -/
lemma Writer.tooLarge_read_iff {w : Writer Sink StandardProcessor} {payload : FinishedPayload}
    (fresh : w.sink.accepted = ByteArray.empty) (given : w.payload = some payload)
    (written : w.finish.2 = .ok ()) :
    ∃ parts header sig, w.parts payload = .ok parts ∧ fileHeader w.header payload = .ok header ∧
      signatureHeader w.processing parts.header payload = .ok sig ∧
      (TooLarge (Package.read (Source.ofBytes w.finish.1.sink.accepted)) ↔ w.lead.major = 3 ∧
        ¬(Takeable (sortedByTag sig.entries) ∧ Takeable (sortedByTag header.entries))) := by
  obtain ⟨parts, hparts, hfile⟩ := accepted_finish given written
  obtain ⟨header, sig, hfileHeader, hheader, hsig, hsignature, hlead, -⟩ := parts_eq_ok hparts
  rw [fresh, ByteArray.empty_append] at hfile
  have hu := keptBySet_signatureHeader keptBySet_unambiguous unambiguous_empty hsig
  refine ⟨parts, header, sig, hparts, hfileHeader, hsig, ?_⟩
  rw [hfile, Package.tooLarge_read_iff hsignature hheader hu, hlead,
    withinLimits_iff_takeable hsignature, withinLimits_iff_takeable hheader]
  rfl

/-- **Limits.** A section that is rendered is within the limits of readers, and is not refused for its
size, exactly if it has fewer entries than a reader takes index records, and the values with the zeros
between them and the sixteen bytes of the region are no larger than a store may be. And a package that
is written is refused for its size exactly if one of its headers is not so, unless it is refused for
its lead at once. -/
theorem tooLarge_iff_not_takeable {sort : Bool}
    (rendered : renderEntries entries sort region = .ok data) :
    let placed := if sort then sortedByTag entries else entries
    (WithinLimits data ↔ Takeable placed) ∧
    (∀ rest, TooLarge (parseEntries (data ++ rest) region) ↔ ¬Takeable placed) ∧
    ∀ (w : Writer Sink StandardProcessor) (payload : FinishedPayload),
      w.sink.accepted = ByteArray.empty → w.payload = some payload → w.finish.2 = .ok () →
        ∃ parts header sig, w.parts payload = .ok parts ∧ fileHeader w.header payload = .ok header ∧
          signatureHeader w.processing parts.header payload = .ok sig ∧
          (TooLarge (Package.read (Source.ofBytes w.finish.1.sink.accepted)) ↔ w.lead.major = 3 ∧
            ¬(Takeable (sortedByTag sig.entries) ∧ Takeable (sortedByTag header.entries))) := by
  intro placed
  have hlimits : WithinLimits data ↔ Takeable placed := withinLimits_iff_takeable rendered
  exact ⟨hlimits, fun rest => (tooLarge_parseEntries_iff rendered rest).trans (not_congr hlimits),
    fun w payload fresh given written => Writer.tooLarge_read_iff fresh given written⟩

theorem tooLarge_iff_not_takeable_namedHeader :
    ∃ payload, emptyRecorder.finish.2 = .ok payload ∧
      (namedWriter.loaded namedHeader payload).finish.2 = .ok () ∧
      ¬TooLarge (Package.read (Source.ofBytes
        (namedWriter.loaded namedHeader payload).finish.1.sink.accepted)) := by
  obtain ⟨payload, recorded, hsize⟩ := emptyRecorder_finish
  obtain ⟨-, hflags, -⟩ := Recorder.finish_eq_ok recorded
  obtain ⟨parts, hparts, hlimits, written⟩ :=
    exists_parts_of_small namedWriter.lead recorded hflags hsize placeable_namedHeader
      (by decide +kernel)
  obtain ⟨header, sig, hfileHeader, hheader, hsig, hsignature, -⟩ := parts_eq_ok hparts
  obtain ⟨htakeable, -, hpackages⟩ := tooLarge_iff_not_takeable hsignature
  obtain ⟨htakeable', -, -⟩ := tooLarge_iff_not_takeable hheader
  obtain ⟨parts', header', sig', hparts', hfileHeader', hsig', hiff⟩ :=
    hpackages (namedWriter.loaded namedHeader payload) payload rfl rfl written
  obtain rfl : parts = parts' := Except.ok.inj (hparts.symm.trans hparts')
  obtain rfl : header = header' := Except.ok.inj (hfileHeader.symm.trans hfileHeader')
  obtain rfl : sig = sig' := Except.ok.inj (hsig.symm.trans hsig')
  exact ⟨payload, recorded, written, fun hlarge =>
    (hiff.mp hlarge).2 ⟨htakeable.mp hlimits.1, htakeable'.mp hlimits.2⟩⟩

/-- As many entries as a reader takes index records. -/
def manyEntries : List Entry := List.replicate mostIndexEntries ⟨1000, .null⟩

/-- With the record of the region, these are one record too many. -/
theorem tooLarge_manyEntries :
    ∃ data, renderEntries manyEntries false 63 = .ok data ∧ ¬WithinLimits data ∧
      TooLarge (parseEntries data 63) := by
  have hplaceable : ∀ e ∈ manyEntries, e.Placeable 63 := fun e he => by
    rw [List.eq_of_mem_replicate he]
    exact ⟨by decide, by decide⟩
  have hlength : manyEntries.length = mostIndexEntries := List.length_replicate
  have hroom : roomFor manyEntries ≤ mostIndexEntries * 7 := by
    have h : roomFor manyEntries ≤ manyEntries.length * (0 + 7) := roomFor_le fun e he => by
      rw [List.eq_of_mem_replicate he]
      exact Nat.le_refl 0
    rwa [hlength] at h
  have hmost : mostIndexEntries = 65535 := rfl
  obtain ⟨l, hl, hrecords, hstore⟩ := Layout.exists_foldlM (l := {}) hplaceable (by
    simp only [ByteArray.size_empty]
    omega)
  simp only [List.size_toArray, List.length_nil, ByteArray.size_empty] at hrecords hstore
  have rendered : renderEntries manyEntries false 63 = .ok _ :=
    bind_eq_ok_iff.mpr ⟨l, hl, Layout.section_eq_ok_iff.mpr ⟨by omega, by omega, rfl⟩⟩
  have hlimits : ¬WithinLimits _ := fun limits =>
    absurd ((withinLimits_iff_takeable rendered).mp limits).length_lt (by simp [hlength])
  have hlarge := (tooLarge_parseEntries_iff rendered ByteArray.empty).mpr hlimits
  rw [ByteArray.append_empty] at hlarge
  exact ⟨_, rendered, hlimits, hlarge⟩

end Rpm

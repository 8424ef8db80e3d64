import Rpm.Package.Writer
import Rpm.Proofs.Payload.Recorder
import Rpm.Proofs.Signature.Derivation

/-!
What a writer has written when it succeeds.

All pieces of the file are in the sink then, one after another, and each of them is what the caller's
header, the payload and the processors make it.
-/

namespace Rpm

open Header

/-! ### Sinks -/

lemma writePieces_eq (sink : Sink) (pieces : List ((StreamError → Error) × ByteArray)) :
    let all := concat (pieces.map (·.2))
    (writePieces sink pieces).1 =
        { sink with accepted := sink.accepted ++ all.extract 0 (sink.room all.size) } ∧
      ((writePieces sink pieces).2 = .ok () ↔ sink.room all.size = all.size) := by
  induction pieces generalizing sink with
  | nil => simp [writePieces, Nat.le_zero.mp (sink.room_le 0)]
  | cons piece pieces ih =>
    obtain ⟨failure, bytes⟩ := piece
    simp only [List.map_cons, concat_cons, ByteArray.size_append, writePieces, Sink.write_eq]
    by_cases h : sink.room bytes.size = bytes.size
    · obtain ⟨hsink, hok⟩ := ih { sink with accepted := sink.accepted ++ bytes }
      rw [if_pos h, Sink.room_add h, extract_append_add, ← ByteArray.append_assoc,
        extract_of_size_le (Nat.le_of_eq h.symm)]
      exact ⟨hsink, hok.trans (by omega)⟩
    · -- The sink is full within this piece, so that the others are not even tried.
      have hlt := Nat.lt_of_le_of_ne (sink.room_le _) h
      rw [if_neg h, Sink.room_add_of_ne h, extract_append_of_le _ (Nat.le_of_lt hlt)]
      refine ⟨rfl, ?_⟩
      simp only [reduceCtorEq, false_iff]
      omega

namespace Writer

variable {w : Writer Sink StandardProcessor} {payload : FinishedPayload} {parts : PackageParts}

/-- A file goes to a sink like one row of bytes, and the sink is completed if it took them all. -/
lemma emit_eq (sink : Sink) {size : Nat} (hsize : parts.payload.size = size) :
    (emit sink parts size).1 = { sink with
        accepted := sink.accepted ++ parts.bytes.extract 0 (sink.room parts.bytes.size) } ∧
      ((emit sink parts size).2 = .ok () ↔
        sink.room parts.bytes.size = parts.bytes.size ∧ sink.flushFails = false) ∧
      (sink.room parts.bytes.size = parts.bytes.size → sink.flushFails = true →
        (emit sink parts size).2 = .error (.streamDuring .flushing .other)) := by
  obtain ⟨hsink, hok⟩ := writePieces_eq sink parts.pieces
  rw [← PackageParts.bytes] at hsink hok
  unfold emit
  cases hw : writePieces sink parts.pieces with
  | mk s r =>
    rw [hw] at hsink hok
    obtain rfl : s = _ := hsink
    cases r with
    | error e =>
      have hne : sink.room parts.bytes.size ≠ parts.bytes.size := by simpa using hok
      simp [hne]
    | ok u =>
      have heq : sink.room parts.bytes.size = parts.bytes.size := hok.mp rfl
      cases hflush : sink.flushFails <;>
        simp [hsize, heq, ByteSink.flush, Sink.flush, Except.mapError]

/-- A file of which not all of the payload is there is not written without an error. -/
lemma size_eq_of_emit {sink : Sink} {size : Nat} (h : (emit sink parts size).2 = .ok ()) :
    parts.payload.size = size := by
  unfold emit at h
  split at h
  · contradiction
  · split at h
    · contradiction
    · rename_i hsize
      exact not_not.mp hsize

lemma accepted_emit {sink : Sink} {size : Nat} (h : (emit sink parts size).2 = .ok ()) :
    (emit sink parts size).1.accepted = sink.accepted ++ parts.bytes := by
  obtain ⟨hsink, hok, -⟩ := emit_eq sink (size_eq_of_emit h)
  rw [hsink, extract_of_size_le (Nat.le_of_eq (hok.mp h).1.symm)]

lemma accepted_finish (hp : w.payload = some payload) (h : w.finish.2 = .ok ()) :
    ∃ parts, w.parts payload = .ok parts ∧
      w.finish.1.sink.accepted = w.sink.accepted ++ parts.bytes := by
  unfold finish at h ⊢
  split at h
  · simp at h
  · rename_i hf
    simp only [hf, hp] at h ⊢
    cases hparts : w.parts payload with
    | error e => simp [hparts] at h
    | ok parts =>
      simp only [hparts] at h ⊢
      exact ⟨parts, rfl, accepted_emit h⟩

lemma parts_eq_ok (h : w.parts payload = .ok parts) :
    ∃ header sig, fileHeader w.header payload = .ok header ∧
      header.render true = .ok parts.header ∧
      signatureHeader w.processing parts.header payload = .ok sig ∧
      sig.render true = .ok parts.signature ∧ parts.lead = w.lead ∧
      parts.payload = payload.bytes := by
  simp only [Writer.parts, bind_eq_ok_iff, pure_eq_ok_iff] at h
  obtain ⟨header, hheader, data, hdata, sig, hsig, signature, hsignature, rfl⟩ := h
  exact ⟨header, sig, hheader, hdata, hsig, hsignature, rfl, rfl⟩

lemma finish_eq_ok (unfinished : w.finished = false) (hp : w.payload = some payload)
    (hparts : w.parts payload = .ok parts) (hsize : payload.payloadSize = payload.bytes.size)
    (hlimit : w.sink.limit = none) (hflush : w.sink.flushFails = false) : w.finish.2 = .ok () := by
  obtain ⟨_, _, -, -, -, -, -, hpayload⟩ := parts_eq_ok hparts
  have hroom : w.sink.room parts.bytes.size = parts.bytes.size := by rw [Sink.room, hlimit]
  simp only [finish, unfinished, hp, hparts, Bool.false_eq_true, if_false]
  exact (emit_eq _ (by rw [hpayload, hsize])).2.1.mpr ⟨hroom, hflush⟩

/-! ### The headers of a file -/

/-- The entries by which a file names the format and the coding of its payload. -/
def payloadEntries (payload : FinishedPayload) : List Entry := [
  ⟨MetadataTag.payloadFormat.id, .string "cpio"⟩,
  ⟨MetadataTag.payloadCompressor.id, .string payload.flags.coding.name⟩,
  ⟨MetadataTag.payloadFlags.id, .string payload.flags.display⟩]

/-- Describing a payload never fails, and sets these entries and those of the payload in turn. -/
lemma fileHeader_eq (header : Header .metadata) (payload : FinishedPayload) :
    fileHeader header payload =
      .ok ((header.extend ⟨payloadEntries payload⟩).extend payload.header) :=
  rfl

lemma keptBySet_signatureHeader {P : Header .signature → Prop} (kept : KeptBySet P)
    (start : P .empty) {processing : SignatureProcessing StandardProcessor} {header : ByteArray}
    {sig : Header .signature} (h : signatureHeader processing header payload = .ok sig) : P sig := by
  obtain ⟨s₁, -, h⟩ := bind_eq_ok_iff.mp h
  obtain ⟨s₂, -, h⟩ := bind_eq_ok_iff.mp h
  split at h
  · exact kept.processing start h
  · obtain ⟨s₃, -, h⟩ := bind_eq_ok_iff.mp h
    exact kept.processing start h

lemma feedHeader_defaults (archiveSize : UInt64) (header : ByteArray) :
    (SignatureProcessing.defaults.init archiveSize >>= fun s => s.feedHeader header) =
      .ok ⟨defaultsFed header.size archiveSize header header, .headerFed⟩ := by
  have hsize : 0 + header.size = header.size := Nat.zero_add _
  have hfed : ByteArray.empty ++ header = header := ByteArray.empty_append
  rw [← hsize]
  conv_rhs => rw [← hfed]
  rfl

lemma exists_phase_signatureHeader_defaults (payload : FinishedPayload) (header : ByteArray) :
    ∃ phase : Phase, phase.afterHeader = true ∧ signatureHeader .defaults header payload =
      (SignatureProcessing.finish ⟨defaultsFed (header.size + payload.bytes.size)
        (UInt64.ofNat payload.archiveSize) header (header ++ payload.bytes), phase⟩).2 := by
  unfold signatureHeader
  rw [← bind_assoc, feedHeader_defaults]
  by_cases hempty : payload.bytes.isEmpty
  · have hnone := isEmpty_iff.mp hempty
    refine ⟨.headerFed, rfl, ?_⟩
    rw [hnone, ByteArray.size_empty, Nat.add_zero, ByteArray.append_empty]
    rfl
  · refine ⟨.payloadFed, rfl, ?_⟩
    simp only [bind, Except.bind, if_neg hempty]
    rfl

lemma signatureHeader_defaults (payload : FinishedPayload) (header : ByteArray) :
    signatureHeader .defaults header payload =
      .ok ⟨derivedEntries (UInt64.ofNat payload.archiveSize) header payload.bytes⟩ := by
  obtain ⟨phase, hphase, hfed⟩ := exists_phase_signatureHeader_defaults payload header
  rw [hfed, finish_defaultsFed hphase]

lemma exists_parts {h : Header .metadata} (defaults : w.processing = .defaults)
    (hh : fileHeader w.header payload = .ok h)
    (he : ∀ e ∈ h.entries, e.Placeable Namespace.metadata.region)
    (hlength : h.entries.length < mostIndexEntries)
    (hroom : roomFor h.entries + 16 ≤ mostStoreSize) :
    ∃ parts, w.parts payload = .ok parts ∧ WithinLimits parts.signature ∧
      WithinLimits parts.header := by
  obtain ⟨header, hheader, hlimits⟩ := exists_render true he hlength hroom
  have hrender : h.render true = .ok header := hheader
  have hsig := signatureHeader_defaults payload header
  obtain ⟨signature, hsignature, hlimits'⟩ :=
    exists_render_derivedEntries (UInt64.ofNat payload.archiveSize) header payload.bytes
  refine ⟨⟨w.lead, signature, header, payload.bytes⟩, ?_, hlimits', hlimits⟩
  rw [← defaults] at hsig
  simp only [Writer.parts, hh, hrender, hsig, hsignature, bind, Except.bind]
  rfl

end Writer

end Rpm

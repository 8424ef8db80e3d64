import Rpm.Proofs.Payload.Accounting

/-!
Payloads whose digesters have been there from the start.

In whatever pieces an archive is written, each digester has seen all of it and all of the payload,
which is the archive itself if nothing is compressed. Digesters set the same tags one after another,
so that the header of the payload keeps what the last of them says.
-/

namespace Rpm

open Header Observation

/-- Without compression, the payload is the archive, in whatever pieces that arrives. -/
lemma Compressor.run_identity (pieces : List ByteArray) :
    Compressor.identity.run pieces = concat pieces := by
  unfold run
  induction pieces with
  | nil => rfl
  | cons piece pieces ih =>
    rw [concat_cons, ← ih]
    rfl

namespace PayloadStream

variable {algorithms : List DigestAlgorithm}

/-- Digesters that have seen an archive and a payload, one for each algorithm. -/
def digesters (algorithms : List DigestAlgorithm) (archive payload : ByteArray) :
    List PayloadDigester :=
  algorithms.map fun a => ⟨a, ⟨a, archive⟩, ⟨a, payload⟩⟩

/-- Digesters that have been shown everything have seen all of the archive and of the payload. -/
lemma map_allShownTo_digesters {seen : List Observation} {archive payload : ByteArray}
    (harchive : concat (archivePieces seen) = archive)
    (hpayload : concat (payloadPieces seen) = payload) :
    (digesters algorithms ByteArray.empty ByteArray.empty).map (allShownTo seen) =
      digesters algorithms archive payload := by
  simp only [digesters, List.map_map]
  refine List.map_congr_left fun a _ => ?_
  have hall := allShownTo_digester a ByteArray.empty ByteArray.empty seen
  rwa [ByteArray.empty_append, ByteArray.empty_append, harchive, hpayload] at hall

/-! ### Digests -/

lemma exists_finishProcessors (digesters : List PayloadDigester) :
    ∃ h, finishProcessors digesters = .ok h := by
  have hfold : ∀ start : Header .metadata,
      ∃ h, digesters.foldlM (fun h d => PayloadProcessor.finish d h) start = Except.ok h := by
    induction digesters with
    | nil => exact fun start => ⟨start, rfl⟩
    | cons d digesters ih =>
      intro start
      have hd : ∃ h, PayloadProcessor.finish d start = Except.ok h := ⟨_, rfl⟩
      obtain ⟨h, hd⟩ := hd
      obtain ⟨h', hrest⟩ := ih h
      exact ⟨h', bind_eq_ok_iff.mpr ⟨h, hd, hrest⟩⟩
  exact hfold .empty

lemma header_of_nil {archive payload : ByteArray} {h : Header .metadata}
    (hf : finishProcessors (digesters [] archive payload) = .ok h) : h = .empty :=
  (pure_eq_ok_iff.mp hf).symm

/-- The last digester sets its digest of the payload and its algorithm over those of the others. -/
lemma getRaw_of_concat {archive payload : ByteArray} {a : DigestAlgorithm} {h : Header .metadata}
    (hf : finishProcessors (digesters (algorithms ++ [a]) archive payload) = .ok h) :
    h.getRaw MetadataTag.payloadDigest.id = some (.stringArray [a.digestHex payload]) ∧
      h.getRaw MetadataTag.payloadDigestAlgo.id = some (.int32 [a.id]) := by
  rw [finishProcessors, digesters, List.map_append, List.foldlM_append] at hf
  obtain ⟨before, -, hlast⟩ := bind_eq_ok_iff.mp hf
  rw [List.map_singleton, List.foldlM_cons] at hlast
  obtain ⟨h', hh', hpure⟩ := bind_eq_ok_iff.mp hlast
  obtain rfl := pure_eq_ok_iff.mp hpure
  obtain ⟨hdigest, -, halgorithm⟩ := PayloadDigester.getRaw_of_finish hh'
  exact ⟨hdigest, halgorithm⟩

end PayloadStream

end Rpm

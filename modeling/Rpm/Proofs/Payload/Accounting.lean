import Mathlib.Data.List.Induction
import Rpm.Proofs.Payload.Recorder

/-!
What a stream has shown to its processors, and what it has counted.

A processor is told by the pieces that it has been shown. In whatever pieces an archive is written,
and however much the compressor holds back, the pieces of the archive that were shown make up the
archive, those of the payload make up the payload, and the payload is all that the compressor has
given out. Both sizes are those of what was shown.
-/

namespace Rpm

/-- A piece that a processor is shown. -/
inductive Observation where
  | archive (piece : ByteArray)
  | payload (piece : ByteArray)

namespace Observation

/-- The pieces of the archive among those that were shown. -/
def archivePieces (seen : List Observation) : List ByteArray :=
  seen.filterMap fun
    | archive piece => some piece
    | payload _ => none

/-- The pieces of the payload among those that were shown. -/
def payloadPieces (seen : List Observation) : List ByteArray :=
  seen.filterMap fun
    | archive _ => none
    | payload piece => some piece

variable {σ : Type} [PayloadProcessor σ]

def shownTo (q : σ) : Observation → σ
  | archive piece => PayloadProcessor.feedRaw q piece
  | payload piece => PayloadProcessor.feedPayload q piece

/-- A processor that has been shown these pieces, and nothing else. -/
def allShownTo (seen : List Observation) (q : σ) : σ := seen.foldl shownTo q

lemma allShownTo_append (seen more : List Observation) (q : σ) :
    allShownTo (seen ++ more) q = allShownTo more (allShownTo seen q) :=
  List.foldl_append

/-- What is shown of a piece and of what a compressor gives out for it: nothing of that if it is
empty. -/
def ofPiece (piece out : ByteArray) : List Observation :=
  if out.isEmpty then [archive piece] else [archive piece, payload out]

lemma concat_archivePieces_ofPiece (piece out : ByteArray) :
    concat (archivePieces (ofPiece piece out)) = piece := by
  by_cases hout : out.isEmpty <;> simp [ofPiece, hout, archivePieces]

lemma concat_payloadPieces_ofPiece (piece out : ByteArray) :
    concat (payloadPieces (ofPiece piece out)) = out := by
  by_cases hout : out.isEmpty
  · rw [ofPiece, if_pos hout, isEmpty_iff.mp hout]
    rfl
  · simp [ofPiece, hout, payloadPieces]

lemma concat_archivePieces_append (seen more : List Observation) :
    concat (archivePieces (seen ++ more)) =
      concat (archivePieces seen) ++ concat (archivePieces more) := by
  rw [archivePieces, List.filterMap_append, concat_append]
  rfl

lemma concat_payloadPieces_append (seen more : List Observation) :
    concat (payloadPieces (seen ++ more)) =
      concat (payloadPieces seen) ++ concat (payloadPieces more) := by
  rw [payloadPieces, List.filterMap_append, concat_append]
  rfl

/-! ### Digesters -/

lemma allShownTo_digester (a : DigestAlgorithm) (archive payload : ByteArray)
    (seen : List Observation) :
    allShownTo seen (⟨a, ⟨a, archive⟩, ⟨a, payload⟩⟩ : PayloadDigester) =
      ⟨a, ⟨a, archive ++ concat (archivePieces seen)⟩,
        ⟨a, payload ++ concat (payloadPieces seen)⟩⟩ := by
  induction seen generalizing archive payload with
  | nil =>
    have harchive : archive ++ concat (archivePieces []) = archive := ByteArray.append_empty
    have hpayload : payload ++ concat (payloadPieces []) = payload := ByteArray.append_empty
    rw [harchive, hpayload]
    rfl
  | cons o seen ih =>
    cases o with
    | archive piece =>
      have hpieces : archive ++ concat (archivePieces (.archive piece :: seen)) =
          archive ++ piece ++ concat (archivePieces seen) := by
        simp [archivePieces, ByteArray.append_assoc]
      rw [hpieces]
      exact ih (archive ++ piece) payload
    | payload piece =>
      have hpieces : payload ++ concat (payloadPieces (.payload piece :: seen)) =
          payload ++ piece ++ concat (payloadPieces seen) := by
        simp [payloadPieces, ByteArray.append_assoc]
      rw [hpieces]
      exact ih archive (payload ++ piece)

/-- Whether a processor that has been shown these pieces leaves the digests of a payload as they are
in a header. -/
def LeavesDigests (seen : List Observation) (q : σ) : Prop :=
  ∀ h h', PayloadProcessor.finish (allShownTo seen q) h = .ok h' →
    ∀ tag ∈ payloadDigestTags, h'.getRaw tag = h.getRaw tag

end Observation

/-- Processors of two kinds, side by side. -/
instance {α β : Type} [PayloadProcessor α] [PayloadProcessor β] : PayloadProcessor (α ⊕ β) where
  feedRaw q piece := q.map (PayloadProcessor.feedRaw · piece) (PayloadProcessor.feedRaw · piece)
  feedPayload q piece :=
    q.map (PayloadProcessor.feedPayload · piece) (PayloadProcessor.feedPayload · piece)
  finish q h := q.elim (PayloadProcessor.finish · h) (PayloadProcessor.finish · h)

open Observation

lemma Observation.allShownTo_inl {α β : Type} [PayloadProcessor α] [PayloadProcessor β]
    (seen : List Observation) (q : α) :
    allShownTo seen (Sum.inl q : α ⊕ β) = Sum.inl (allShownTo seen q) := by
  induction seen generalizing q with
  | nil => rfl
  | cons o seen ih => cases o <;> exact ih _

namespace PayloadStream

variable {c : Compressor} {σ : Type} [PayloadProcessor σ] {p : PayloadStream c σ}
  {processors : List σ} {pieces : List ByteArray} {seen : List Observation}

/-- Whether a stream stands between two operations, after pieces of an archive that began with these
processors, and its processors have been shown these pieces. -/
structure Accounts (p : PayloadStream c σ) (processors : List σ) (pieces : List ByteArray)
    (seen : List Observation) : Prop where
  drained : p.buffer = ByteArray.empty
  processors_eq : p.processors = processors.map (allShownTo seen)
  archive_eq : concat (archivePieces seen) = concat pieces
  payload_eq : concat (payloadPieces seen) = p.payload
  archiveSize_eq : p.archiveSize = (concat pieces).size
  payloadSize_eq : p.payloadSize = p.payload.size
  /-- What is missing of the payload is what the compressor gives out from its state on. -/
  run_eq : ∀ more, p.payload ++ c.runFrom p.state more = c.run (pieces ++ more)

lemma accounts_start (processors : List σ) :
    Accounts ({ processors } : PayloadStream c σ) processors [] [] where
  drained := rfl
  processors_eq := by
    have hnothing : (allShownTo [] : σ → σ) = id := rfl
    rw [hnothing, List.map_id]
  archive_eq := rfl
  payload_eq := rfl
  archiveSize_eq := rfl
  payloadSize_eq := rfl
  run_eq more := ByteArray.empty_append

lemma write_eq (drained : p.buffer = ByteArray.empty) (piece : ByteArray) :
    p.write piece =
      { state := (c.write p.state piece).1
        payload := p.payload ++ (c.write p.state piece).2
        archiveSize := p.archiveSize + piece.size
        payloadSize := p.payloadSize + (c.write p.state piece).2.size
        processors := p.processors.map (allShownTo (ofPiece piece (c.write p.state piece).2)) } := by
  unfold write drain ofPiece
  simp only [drained, ByteArray.empty_append]
  by_cases hout : (c.write p.state piece).2.isEmpty
  · have hnone := isEmpty_iff.mp hout
    simp only [hnone, ByteArray.append_empty, ByteArray.size_empty, Nat.add_zero]
    rfl
  · simp only [hout, Bool.false_eq_true, if_false, emit, List.map_map]
    rfl

/-- **One piece** is shown, counted and compressed once. -/
lemma Accounts.write (h : Accounts p processors pieces seen) (piece : ByteArray) :
    Accounts (p.write piece) processors (pieces ++ [piece])
      (seen ++ ofPiece piece (c.write p.state piece).2) := by
  have hconcat : concat (pieces ++ [piece]) = concat pieces ++ piece := by simp
  rw [write_eq h.drained]
  refine ⟨rfl, ?_, ?_, ?_, ?_, ?_, fun more => ?_⟩
  · simp only [h.processors_eq, List.map_map]
    refine List.map_congr_left fun q _ => ?_
    exact (allShownTo_append _ _ q).symm
  · rw [concat_archivePieces_append, h.archive_eq, concat_archivePieces_ofPiece, hconcat]
  · rw [concat_payloadPieces_append, h.payload_eq, concat_payloadPieces_ofPiece]
  · simp only [h.archiveSize_eq, hconcat, ByteArray.size_append]
  · simp only [h.payloadSize_eq, ByteArray.size_append]
  · have hnext := h.run_eq (piece :: more)
    rw [Compressor.runFrom, ← ByteArray.append_assoc] at hnext
    simp only [hnext, List.append_assoc, List.singleton_append]

/-- **All pieces** are. -/
lemma exists_accounts (c : Compressor) (processors : List σ) (pieces : List ByteArray) :
    ∃ seen, Accounts (pieces.foldl PayloadStream.write ({ processors } : PayloadStream c σ))
      processors pieces seen := by
  -- Pieces are added behind, where the stream goes on from the state that is left.
  induction pieces using List.reverseRecOn with
  | nil => exact ⟨[], accounts_start processors⟩
  | append_singleton pieces piece ih =>
    obtain ⟨seen, h⟩ := ih
    rw [List.foldl_append]
    exact ⟨_, h.write piece⟩

/-- What the compressor gives out at the end is shown as well, and is what was missing. -/
lemma Accounts.finish (h : Accounts p processors pieces seen) (flags : PayloadFlags) :
    ∃ seen, concat (archivePieces seen) = concat pieces ∧
      concat (payloadPieces seen) = c.run pieces ∧
      p.finish flags = (finishProcessors (processors.map (allShownTo seen))).map fun header =>
        { bytes := c.run pieces, archiveSize := (concat pieces).size,
          payloadSize := (c.run pieces).size, flags, header } := by
  have hlast : p.payload ++ c.finish p.state = c.run pieces := by
    have hnext := h.run_eq []
    rwa [Compressor.runFrom, List.append_nil] at hnext
  refine ⟨seen ++ [.payload (c.finish p.state)], ?_, ?_, ?_⟩
  · rw [concat_archivePieces_append, h.archive_eq]
    exact ByteArray.append_empty
  · rw [concat_payloadPieces_append, h.payload_eq, ← hlast]
    simp [payloadPieces]
  · have hprocessors : (p.emit (c.finish p.state)).processors =
        processors.map (allShownTo (seen ++ [.payload (c.finish p.state)])) := by
      simp only [emit, h.processors_eq, List.map_map]
      refine List.map_congr_left fun q _ => ?_
      exact (allShownTo_append seen [.payload (c.finish p.state)] q).symm
    have hsize : p.payloadSize + (c.finish p.state).size = (c.run pieces).size := by
      rw [h.payloadSize_eq, ← hlast, ByteArray.size_append]
    rw [PayloadStream.finish, h.drained, ByteArray.empty_append, ← hprocessors]
    simp only [emit, hlast, hsize, h.archiveSize_eq]
    rfl

/-! ### The digests in the header -/

/-- What a digester says stays in the header if the processors behind it leave it there. -/
lemma getRaw_of_finishProcessors {before after : List (PayloadDigester ⊕ σ)} {d : PayloadDigester}
    {header : Header .metadata} (leave : ∀ q ∈ after, LeavesDigests seen q)
    (h : finishProcessors ((before ++ Sum.inl d :: after).map (allShownTo seen)) = .ok header) :
    ∃ h₁ h₂, (allShownTo seen d).finish h₁ = .ok h₂ ∧
      ∀ tag ∈ payloadDigestTags, header.getRaw tag = h₂.getRaw tag := by
  rw [finishProcessors, List.map_append, List.map_cons, allShownTo_inl, List.foldlM_append] at h
  obtain ⟨h₁, -, h⟩ := bind_eq_ok_iff.mp h
  rw [List.foldlM_cons] at h
  obtain ⟨h₂, hfinish, hafter⟩ := bind_eq_ok_iff.mp h
  refine ⟨h₁, h₂, hfinish, ?_⟩
  refine foldlM_induction (P := fun g => ∀ tag ∈ payloadDigestTags, g.getRaw tag = h₂.getRaw tag)
    (fun _ _ => rfl) (fun g q g' hq hg hfinish tag htag => ?_) hafter
  obtain ⟨q, hmem, rfl⟩ := List.mem_map.mp hq
  rw [leave q hmem g g' hfinish tag htag, hg tag htag]

/-- **A payload accounts for its archive.** In whatever pieces an archive is written, and whatever
the compressor does with them, all processors have been shown the same pieces before they add to the
header: pieces of the archive that make it up, and pieces of the payload that make up what the
compressor has given out in all, which is the payload. The sizes are those of both, and so are the
digests, which stay in the header unless a processor that comes later sets them over. -/
theorem finish_foldl_write (c : Compressor) (processors : List (PayloadDigester ⊕ σ))
    (pieces : List ByteArray) (flags : PayloadFlags) :
    ∃ seen, concat (archivePieces seen) = concat pieces ∧
      concat (payloadPieces seen) = c.run pieces ∧
      (pieces.foldl PayloadStream.write ({ processors } : PayloadStream c _)).finish flags =
        ((finishProcessors (processors.map (allShownTo seen))).map fun header =>
          { bytes := c.run pieces, archiveSize := (concat pieces).size,
            payloadSize := (c.run pieces).size, flags, header }) ∧
      ∀ before a after header, processors = before ++ Sum.inl { algorithm := a } :: after →
        (∀ q ∈ after, LeavesDigests seen q) →
        finishProcessors (processors.map (allShownTo seen)) = .ok header →
          header.get MetadataTag.payloadDigest = some (.stringArray [a.digestHex (c.run pieces)]) ∧
          header.get MetadataTag.payloadDigestAlt =
            some (.stringArray [a.digestHex (concat pieces)]) ∧
          header.get MetadataTag.payloadDigestAlgo = some (.int32 [a.id]) := by
  obtain ⟨_, haccounts⟩ := exists_accounts c processors pieces
  obtain ⟨seen, harchive, hpayload, hfinish⟩ := haccounts.finish flags
  refine ⟨seen, harchive, hpayload, hfinish, fun before a after header hsplit leave hheader => ?_⟩
  rw [hsplit] at hheader
  obtain ⟨h₁, h₂, hdigester, hkept⟩ := getRaw_of_finishProcessors leave hheader
  have hshown := allShownTo_digester a ByteArray.empty ByteArray.empty seen
  rw [ByteArray.empty_append, ByteArray.empty_append, harchive, hpayload] at hshown
  rw [hshown] at hdigester
  obtain ⟨hdigest, halternative, halgorithm⟩ := PayloadDigester.getRaw_of_finish hdigester
  refine ⟨?_, ?_, ?_⟩
  · exact (hkept _ (by simp [payloadDigestTags])).trans hdigest
  · exact (hkept _ (by simp [payloadDigestTags])).trans halternative
  · exact (hkept _ (by simp [payloadDigestTags])).trans halgorithm

/-- A compressor that gives out a byte at once, and everything else at the end. -/
def hoarder : Compressor where
  State := ByteArray
  start := ByteArray.empty
  write held piece := (held ++ piece, if held.isEmpty then ⟨#[0x1f]⟩ else ByteArray.empty)
  finish held := held

/-- A digester behind another observer. -/
def observers : List (PayloadDigester ⊕ PayloadDigester) :=
  [.inr { algorithm := .md5 }, .inl { algorithm := .sha256 }]

theorem finish_foldl_write_hoarder :
    ∃ payload, ([⟨#[1, 2]⟩, ByteArray.empty, ⟨#[3]⟩].foldl PayloadStream.write
        ({ processors := observers } : PayloadStream hoarder _)).finish { coding := .gzip } =
          .ok payload ∧
      payload.bytes = ⟨#[0x1f, 1, 2, 3]⟩ ∧ payload.archiveSize = 3 ∧ payload.payloadSize = 4 ∧
      payload.header.get MetadataTag.payloadDigest =
        some (.stringArray [DigestAlgorithm.sha256.digestHex ⟨#[0x1f, 1, 2, 3]⟩]) := by
  obtain ⟨seen, -, -, hfinish, hdigests⟩ :=
    finish_foldl_write hoarder observers [⟨#[1, 2]⟩, ByteArray.empty, ⟨#[3]⟩] { coding := .gzip }
  have hok : ∃ payload, ([⟨#[1, 2]⟩, ByteArray.empty, ⟨#[3]⟩].foldl PayloadStream.write
      ({ processors := observers } : PayloadStream hoarder _)).finish { coding := .gzip } =
        .ok payload := ⟨_, rfl⟩
  obtain ⟨payload, hpayload⟩ := hok
  obtain ⟨header, hheader, rfl⟩ := map_eq_ok_iff.mp (hfinish.symm.trans hpayload)
  obtain ⟨hdigest, -, -⟩ := hdigests [.inr { algorithm := .md5 }] .sha256 [] header rfl
    (fun q hq => absurd hq List.not_mem_nil) hheader
  exact ⟨_, hpayload, rfl, rfl, rfl, hdigest⟩

end PayloadStream

end Rpm

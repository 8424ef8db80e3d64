import Mathlib.Data.List.Forall2
import Mathlib.Data.List.Perm.Basic
import Mathlib.Data.UInt
import Rpm.Proofs.Digest
import Rpm.Proofs.Header.Canonical
import Rpm.Proofs.Signature.Processing
import Rpm.Proofs.Signature.Protocol

/-!
The signature header as a function of the bytes.

Each default processor makes one entry, under a tag of its own, and what it has seen of a payload is
the bytes, not the pieces that they came in. So the order of the processors is only that of the
entries, and a sorted section does not show it.
-/

namespace Rpm

open Feed Header

/-! ### A run without a refusal -/

section

variable {σ : Type}

lemma foldlM_add (processors before : List σ) :
    processors.foldlM SignatureProcessing.add ⟨before, .created⟩ =
      .ok (⟨before ++ processors, .created⟩ : SignatureProcessing σ) := by
  induction processors generalizing before with
  | nil => rw [List.append_nil]; rfl
  | cons p processors ih =>
    have hnext := ih (before ++ [p])
    rw [List.append_assoc, List.singleton_append] at hnext
    exact hnext

variable [SignatureProcessor σ]

/-- The signature header that processors make, added in this order, of a size of an archive, a header
and a payload in pieces. -/
def derive (processors : List σ) (archiveSize : UInt64) (header : ByteArray)
    (pieces : List ByteArray) : Except Error (Header .signature) := do
  let s ← processors.foldlM SignatureProcessing.add SignatureProcessing.empty
  let s ← s.init archiveSize
  let s ← s.feedHeader header
  let s ← pieces.foldlM SignatureProcessing.feedPayload s
  s.finish.2

lemma exists_foldlM_feedPayload (pieces : List ByteArray) (processors : List σ) {phase : Phase}
    (after : phase.afterHeader = true) :
    ∃ last : Phase, last.afterHeader = true ∧
      pieces.foldlM SignatureProcessing.feedPayload ⟨processors, phase⟩ =
        .ok (⟨processors.map (allGivenTo (pieces.map .payload)), last⟩ : SignatureProcessing σ) := by
  induction pieces generalizing processors phase with
  | nil =>
    refine ⟨phase, after, ?_⟩
    rw [List.map_nil, map_allGivenTo_nil]
    rfl
  | cons piece pieces ih =>
    have hnext : Phase.payloadFed.afterHeader = true := rfl
    obtain ⟨last, hlast, hfold⟩ := ih (processors.map (SignatureProcessor.feedPayload · piece)) hnext
    refine ⟨last, hlast, ?_⟩
    rw [List.map_map] at hfold
    rw [List.foldlM_cons, SignatureProcessing.feedPayload, after]
    exact hfold

lemma derive_eq (processors : List σ) (archiveSize : UInt64) (header : ByteArray)
    (pieces : List ByteArray) :
    derive processors archiveSize header pieces =
      (processors.map
        (allGivenTo ([.size archiveSize, .header header] ++ pieces.map .payload))).foldlM
          (fun h p => SignatureProcessor.finish p h) Header.empty := by
  have hphase : Phase.headerFed.afterHeader = true := rfl
  obtain ⟨last, hlast, hpieces⟩ := exists_foldlM_feedPayload pieces
    (processors.map (allGivenTo [.size archiveSize, .header header])) hphase
  have hheader : (⟨processors.map (SignatureProcessor.init · archiveSize), .initialized⟩ :
      SignatureProcessing σ).feedHeader header =
        .ok ⟨processors.map (allGivenTo [.size archiveSize, .header header]), .headerFed⟩ := by
    simp only [SignatureProcessing.feedHeader, Phase.beforeHeader, List.map_map]
    rfl
  have hadded : processors.foldlM SignatureProcessing.add SignatureProcessing.empty =
      .ok (⟨processors, .created⟩ : SignatureProcessing σ) := foldlM_add processors []
  have hinit : (⟨processors, .created⟩ : SignatureProcessing σ).init archiveSize =
      .ok ⟨processors.map (SignatureProcessor.init · archiveSize), .initialized⟩ := rfl
  rw [← map_allGivenTo_append] at hpieces
  simp only [derive, hadded, hinit, hheader, hpieces, bind, Except.bind]
  exact congrArg Prod.snd (SignatureProcessing.finish_of_afterHeader hlast)

end

/-! ### What each processor makes -/

/-- Of two tags for a size, the second one if the size does not fit into 32 bits. -/
def fittingTag (tag longTag : Tag .signature) (n : Nat) : Tag .signature :=
  if n < 2 ^ 32 then tag else longTag

def sizeValue (n : Nat) : Value :=
  if n < 2 ^ 32 then .int32 [UInt32.ofNat n] else .int64 [UInt64.ofNat n]

def sizeEntry (tag longTag : Tag .signature) (n : Nat) : Entry :=
  ⟨(fittingTag tag longTag n).id, sizeValue n⟩

/-- The entries for a size of an archive, a header and a payload. -/
def derivedEntries (archiveSize : UInt64) (header payload : ByteArray) : List Entry := [
  sizeEntry SignatureTag.size SignatureTag.longSize (header.size + payload.size),
  sizeEntry SignatureTag.payloadSize SignatureTag.longArchiveSize archiveSize.toNat,
  ⟨SignatureTag.sha1Header.id, .string (DigestAlgorithm.sha1.digestHex header)⟩,
  ⟨SignatureTag.sha256Header.id, .string (DigestAlgorithm.sha256.digestHex header)⟩,
  ⟨SignatureTag.md5.id, .bin (DigestAlgorithm.md5.digest (header ++ payload))⟩]

/-- Whether a processor adds this entry to every header. -/
def StandardProcessor.Makes (p : StandardProcessor) (e : Entry) : Prop :=
  ∀ h : Header .signature, p.finish h = .ok (h.setRaw e.tag e.value)

lemma setSize_eq_setRaw {tag longTag : Tag .signature} (htype : tag.type = .int32)
    (hlong : longTag.type = .int64) (n : Nat) (h : Header .signature) :
    h.setSize tag longTag n =
      .ok (h.setRaw (sizeEntry tag longTag n).tag (sizeEntry tag longTag n).value) := by
  unfold Header.setSize sizeEntry fittingTag sizeValue
  split
  · exact set_eq_ok_iff.mpr ⟨by rw [htype]; rfl, rfl⟩
  · exact set_eq_ok_iff.mpr ⟨by rw [hlong]; rfl, rfl⟩

lemma forall₂_makes (archiveSize : UInt64) (header payload : ByteArray) :
    List.Forall₂ StandardProcessor.Makes
      (defaultsFed (header.size + payload.size) archiveSize header (header ++ payload))
      (derivedEntries archiveSize header payload) :=
  .cons (setSize_eq_setRaw rfl rfl _) <| .cons (setSize_eq_setRaw rfl rfl _) <|
    .cons (fun _ => rfl) <| .cons (fun _ => rfl) <| .cons (fun _ => rfl) .nil

lemma allGivenTo_pieces (pieces : List ByteArray) (p : StandardProcessor) :
    allGivenTo (pieces.map .payload) p = p.feedPayload (concat pieces) := by
  induction pieces generalizing p with
  | nil => exact p.feedPayload_empty.symm
  | cons piece pieces ih =>
    rw [concat_cons, ← p.feedPayload_feedPayload]
    exact ih (p.feedPayload piece)

lemma map_allGivenTo_defaults (archiveSize : UInt64) (header : ByteArray)
    (pieces : List ByteArray) :
    StandardProcessor.defaults.map
        (allGivenTo ([.size archiveSize, .header header] ++ pieces.map .payload)) =
      defaultsFed (header.size + (concat pieces).size) archiveSize header
        (header ++ concat pieces) := by
  have hgiven : ∀ p : StandardProcessor,
      allGivenTo ([.size archiveSize, .header header] ++ pieces.map .payload) p =
        ((p.init archiveSize).feedHeader header).feedPayload (concat pieces) := fun p =>
    List.foldl_append.trans (allGivenTo_pieces pieces _)
  rw [List.map_congr_left fun p _ => hgiven p]
  simp [StandardProcessor.defaults, defaultsFed, StandardProcessor.init,
    StandardProcessor.feedHeader, StandardProcessor.feedPayload, Digester.update]

/-! ### All processors together -/

lemma assign_of_notMem {tag : UInt32} {entries : List Entry} (h : tag ∉ entries.map Entry.tag)
    (value : Value) : assign tag value entries = entries ++ [⟨tag, value⟩] := by
  induction entries with
  | nil => rfl
  | cons e entries ih =>
    rw [List.map_cons, List.mem_cons, not_or] at h
    rw [assign, if_neg (Ne.symm h.1), ih h.2]
    rfl

lemma foldlM_finish_of_makes {ps : List StandardProcessor} {entries : List Entry}
    (hmakes : List.Forall₂ StandardProcessor.Makes ps entries) (before : List Entry)
    (hd : ((before ++ entries).map Entry.tag).Nodup) :
    ps.foldlM (fun h p => SignatureProcessor.finish p h) (⟨before⟩ : Header .signature) =
      .ok ⟨before ++ entries⟩ := by
  induction hmakes generalizing before with
  | nil => rw [List.append_nil]; rfl
  | @cons p e ps entries hp _ ih =>
    have hnew : e.tag ∉ before.map Entry.tag := by
      rw [List.map_append, List.map_cons] at hd
      intro hmem
      exact (List.nodup_append.mp hd).2.2 _ hmem _ List.mem_cons_self rfl
    have hset : (⟨before⟩ : Header .signature).setRaw e.tag e.value = ⟨before ++ [e]⟩ := by
      rw [Header.setRaw, assign_of_notMem hnew]
    have hstep : SignatureProcessor.finish p (⟨before⟩ : Header .signature) =
        .ok ⟨before ++ [e]⟩ := (hp _).trans (congrArg _ hset)
    rw [List.append_cons] at hd ⊢
    rw [List.foldlM_cons, hstep]
    exact ih (before ++ [e]) hd

lemma nodup_tag_derivedEntries (archiveSize : UInt64) (header payload : ByteArray) :
    ((derivedEntries archiveSize header payload).map Entry.tag).Nodup := by
  unfold derivedEntries sizeEntry fittingTag
  split <;> split <;> simp only [List.map_cons, List.map_nil] <;> decide

/-- **What the default processors make** of a header and the bytes of a payload. -/
lemma finish_defaultsFed {phase : Phase} (fed : phase.afterHeader = true) (archiveSize : UInt64)
    (header payload : ByteArray) :
    (SignatureProcessing.finish ⟨defaultsFed (header.size + payload.size) archiveSize header
      (header ++ payload), phase⟩).2 = .ok ⟨derivedEntries archiveSize header payload⟩ := by
  rw [SignatureProcessing.finish_of_afterHeader fed]
  exact foldlM_finish_of_makes (forall₂_makes archiveSize header payload) []
    (nodup_tag_derivedEntries archiveSize header payload)

/-! ### The section -/

lemma placeable_sizeEntry (tag longTag : Tag .signature) (n : Nat) {region : UInt32}
    (h : tag.id ≠ region) (hlong : longTag.id ≠ region) :
    (sizeEntry tag longTag n).Placeable region ∧
      (sizeEntry tag longTag n).value.bytes.size ≤ 8 := by
  unfold sizeEntry fittingTag sizeValue
  split
  · exact ⟨⟨h, rfl⟩, by simp [Value.bytes]⟩
  · exact ⟨⟨hlong, rfl⟩, by simp [Value.bytes]⟩

lemma exists_render_derivedEntries (archiveSize : UInt64) (header payload : ByteArray) :
    ∃ data, (⟨derivedEntries archiveSize header payload⟩ : Header .signature).render true =
      .ok data ∧ WithinLimits data := by
  obtain ⟨hsize, hsize'⟩ := placeable_sizeEntry SignatureTag.size SignatureTag.longSize
    (header.size + payload.size) (show _ ≠ Namespace.signature.region by decide) (by decide)
  obtain ⟨harchive, harchive'⟩ :=
    placeable_sizeEntry SignatureTag.payloadSize SignatureTag.longArchiveSize archiveSize.toNat
      (show _ ≠ Namespace.signature.region by decide) (by decide)
  have hplaceable : ∀ e ∈ derivedEntries archiveSize header payload,
      e.Placeable Namespace.signature.region := by
    intro e he
    simp only [derivedEntries, List.mem_cons, List.not_mem_nil, or_false] at he
    rcases he with rfl | rfl | rfl | rfl | rfl
    · exact hsize
    · exact harchive
    all_goals refine ⟨by simp only; decide, ?_⟩; simp [Value.hasNul, DigestAlgorithm.digestHex]
  have hdigest : ∀ (a : DigestAlgorithm) (message : ByteArray),
      (Value.bin (a.digest message)).bytes.size = a.outputSize ∧
        (Value.string (a.digestHex message)).bytes.size = 2 * a.outputSize + 1 := by
    simp [Value.bytes, DigestAlgorithm.digestHex]
  have hroom : roomFor (derivedEntries archiveSize header payload) ≤ 173 := by
    simp only [roomFor, derivedEntries, hdigest, DigestAlgorithm.outputSize]
    omega
  exact exists_render true hplaceable (show 5 < mostIndexEntries by decide)
    (by simp only [mostStoreSize]; omega)

/-- **The signature header is told by the bytes.** For every size of an archive, header and payload,
the default processors make these five entries and no others, whatever the order in which they were
added and the pieces in which the payload came; and there is one section that is rendered of all
those headers. -/
theorem render_derive (archiveSize : UInt64) (header payload : ByteArray) :
    ∃ data, ∀ processors pieces, processors.Perm StandardProcessor.defaults →
      concat pieces = payload →
        ∃ h, derive processors archiveSize header pieces = .ok h ∧
          h.entries.Perm (derivedEntries archiveSize header payload) ∧ h.render true = .ok data := by
  obtain ⟨data, hdata, -⟩ := exists_render_derivedEntries archiveSize header payload
  refine ⟨data, fun processors pieces hperm hpieces => ?_⟩
  -- What the processors make of it comes in their order.
  have hfed := hperm.map (allGivenTo ([.size archiveSize, .header header] ++ pieces.map .payload))
  rw [map_allGivenTo_defaults, hpieces] at hfed
  obtain ⟨entries, hmakes, hentries⟩ :=
    List.perm_comp_forall₂ hfed (forall₂_makes archiveSize header payload)
  have hd : (entries.map Entry.tag).Nodup :=
    (hentries.map Entry.tag).nodup_iff.mpr (nodup_tag_derivedEntries archiveSize header payload)
  have hderive : derive processors archiveSize header pieces = .ok ⟨entries⟩ :=
    (derive_eq processors archiveSize header pieces).trans (foldlM_finish_of_makes hmakes [] hd)
  refine ⟨⟨entries⟩, hderive, hentries, ?_⟩
  have hsorted := sortedByTag_eq_of_perm hd hentries
  rw [← hdata]
  simp only [Header.render, renderEntries, if_true, hsorted]

theorem render_derive_reversed :
    ∃ data h h',
      derive StandardProcessor.defaults.reverse (2 ^ 32) ⟨#[1]⟩
        [ByteArray.empty, ⟨#[2, 3]⟩, ByteArray.empty] = .ok h ∧
      derive StandardProcessor.defaults (2 ^ 32) ⟨#[1]⟩ [⟨#[2]⟩, ⟨#[3]⟩] = .ok h' ∧
      h.getRaw SignatureTag.longArchiveSize.id = some (.int64 [2 ^ 32]) ∧
      h.render true = .ok data ∧ h'.render true = .ok data := by
  obtain ⟨data, hderive⟩ := render_derive (2 ^ 32) ⟨#[1]⟩ ⟨#[2, 3]⟩
  obtain ⟨h, hh, -, hdata⟩ := hderive StandardProcessor.defaults.reverse
    [ByteArray.empty, ⟨#[2, 3]⟩, ByteArray.empty] (List.reverse_perm _) rfl
  obtain ⟨h', hh', -, hdata'⟩ :=
    hderive StandardProcessor.defaults [⟨#[2]⟩, ⟨#[3]⟩] (List.Perm.refl _) rfl
  have hlong : h.getRaw SignatureTag.longArchiveSize.id = some (.int64 [2 ^ 32]) := by
    obtain rfl := Except.ok.inj hh
    rfl
  exact ⟨data, h, h', hh, hh', hlong, hdata, hdata'⟩

end Rpm

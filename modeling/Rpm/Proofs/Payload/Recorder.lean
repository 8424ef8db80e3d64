import Mathlib.Data.List.Perm.Subperm
import Rpm.Payload.Recorder
import Rpm.Proofs.Digest
import Rpm.Proofs.Header.Mapping

/-!
What a finished payload says of itself.

The header of a payload that was recorded with digesters holds digests and nothing else.
-/

namespace Rpm

open Header

/-- The tags under which the digests of a payload are stored. -/
def payloadDigestTags : List UInt32 :=
  [MetadataTag.payloadDigest.id, MetadataTag.payloadDigestAlt.id, MetadataTag.payloadDigestAlgo.id]

namespace PayloadDigester

lemma finish_eq_ok {p : PayloadDigester} {h h' : Header .metadata} (hp : p.finish h = .ok h') :
    h' = ((h.setRaw MetadataTag.payloadDigest.id (.stringArray [hexText p.compressed.finish])).setRaw
      MetadataTag.payloadDigestAlt.id (.stringArray [hexText p.raw.finish])).setRaw
        MetadataTag.payloadDigestAlgo.id (.int32 [p.algorithm.id]) := by
  unfold PayloadDigester.finish at hp
  simp only [bind_eq_ok_iff, set_eq_ok_iff] at hp
  obtain ⟨h₁, ⟨-, rfl⟩, h₂, ⟨-, rfl⟩, -, rfl⟩ := hp
  rfl

/-- What a header says once a digester has added to it. -/
lemma getRaw_of_finish {p : PayloadDigester} {h h' : Header .metadata} (hp : p.finish h = .ok h') :
    h'.getRaw MetadataTag.payloadDigest.id = some (.stringArray [hexText p.compressed.finish]) ∧
      h'.getRaw MetadataTag.payloadDigestAlt.id = some (.stringArray [hexText p.raw.finish]) ∧
      h'.getRaw MetadataTag.payloadDigestAlgo.id = some (.int32 [p.algorithm.id]) := by
  obtain rfl := finish_eq_ok hp
  refine ⟨?_, ?_, ?_⟩
  · rw [getRaw_setRaw, if_neg (by decide), getRaw_setRaw, if_neg (by decide), getRaw_setRaw,
      if_pos rfl]
  · rw [getRaw_setRaw, if_neg (by decide), getRaw_setRaw, if_pos rfl]
  · rw [getRaw_setRaw, if_pos rfl]

end PayloadDigester

/-- Whether an entry is one that digesters can make. -/
structure Entry.IsDigest (e : Entry) : Prop where
  tag_mem : e.tag ∈ payloadDigestTags
  unambiguous : e.value.Unambiguous
  hasNul_eq : e.value.hasNul = false
  /-- The longest digest has 64 bytes. -/
  size_le : e.value.bytes.size ≤ 129

/-- Whether a header is one that digesters can make: it says nothing but digests, and no tag
twice. -/
structure DigestsOnly (h : Header .metadata) : Prop where
  distinct : h.Distinct
  digest : ∀ e ∈ h.entries, e.IsDigest

namespace DigestsOnly

variable {h h' : Header .metadata}

lemma empty : DigestsOnly .empty :=
  ⟨distinct_empty, by simp [Header.empty]⟩

lemma isDigest_hexText (a : DigestAlgorithm) (message : ByteArray) {tag : UInt32}
    (htag : tag ∈ payloadDigestTags) :
    (⟨tag, .stringArray [hexText (a.digest message)]⟩ : Entry).IsDigest := by
  refine ⟨htag, trivial, by simp [Value.hasNul], ?_⟩
  cases a <;> simp [Value.bytes, DigestAlgorithm.outputSize]

lemma finish {p : PayloadDigester} (hd : DigestsOnly h) (hp : p.finish h = .ok h') :
    DigestsOnly h' := by
  obtain rfl := PayloadDigester.finish_eq_ok hp
  refine ⟨((hd.distinct.setRaw _ _).setRaw _ _).setRaw _ _,
    forall_mem_setRaw (forall_mem_setRaw (forall_mem_setRaw hd.digest ?_) ?_) ?_⟩
  · exact isDigest_hexText _ _ (by simp [payloadDigestTags])
  · exact isDigest_hexText _ _ (by simp [payloadDigestTags])
  · exact ⟨by simp [payloadDigestTags], trivial, rfl, by simp [Value.bytes]⟩

lemma unambiguous (hd : DigestsOnly h) : h.Unambiguous := fun e he => (hd.digest e he).unambiguous

lemma getRaw_eq_none (hd : DigestsOnly h) {tag : UInt32} (ht : tag ∉ payloadDigestTags) :
    h.getRaw tag = none := by
  refine lookup_eq_none_iff.mpr fun hmem => ?_
  obtain ⟨e, he, rfl⟩ := List.mem_map.mp hmem
  exact ht (hd.digest e he).tag_mem

lemma placeable (hd : DigestsOnly h) : ∀ e ∈ h.entries, e.Placeable Namespace.metadata.region := by
  intro e he
  obtain ⟨htag, -, hnul, -⟩ := hd.digest e he
  refine ⟨fun heq => ?_, hnul⟩
  rw [heq] at htag
  revert htag
  decide

lemma size_le (hd : DigestsOnly h) : h.entries.length ≤ 3 ∧ roomFor h.entries ≤ 408 := by
  have hlength : h.entries.length ≤ 3 := by
    have hsub : h.entries.map Entry.tag ⊆ payloadDigestTags := fun tag htag => by
      obtain ⟨e, he, rfl⟩ := List.mem_map.mp htag
      exact (hd.digest e he).tag_mem
    simpa [payloadDigestTags] using (List.Nodup.subperm hd.distinct hsub).length_le
  have hroom := roomFor_le fun e he => (hd.digest e he).size_le
  omega

end DigestsOnly

lemma digestsOnly_finishProcessors {processors : List PayloadDigester} {h : Header .metadata}
    (hf : PayloadStream.finishProcessors processors = .ok h) : DigestsOnly h :=
  foldlM_induction DigestsOnly.empty (fun _ _ _ _ hb hp => hb.finish hp) hf

/-- What recording leaves behind: a recorder that was not finished before gives a payload with its
flags, whose header holds digests only. -/
lemma Recorder.finish_eq_ok {r : Recorder PayloadDigester} {payload : FinishedPayload}
    (hr : r.finish.2 = .ok payload) :
    r.archive.isSome = true ∧ payload.flags = r.flags ∧ DigestsOnly payload.header := by
  unfold Recorder.finish at hr
  split at hr
  · simp at hr
  · rename_i hopen
    split at hr
    · simp at hr
    · simp only [PayloadStream.finish, bind_eq_ok_iff, pure_eq_ok_iff] at hr
      obtain ⟨h, hh, rfl⟩ := hr
      exact ⟨by rw [hopen, Option.isSome_some], rfl, digestsOnly_finishProcessors hh⟩

end Rpm

import Rpm.Proofs.Header.Mapping
import Rpm.Signature.Processing

/-!
What signature processors make of a package.

Processors add to the signature header by setting values of known tags, and in no other way. So
whatever setting a value keeps holds of each signature header.
-/

namespace Rpm

variable {P : Header .signature → Prop} {h h' : Header .signature}

namespace Header

lemma KeptBySet.setSize (kept : KeptBySet P) {tag longTag : Tag .signature} {n : Nat} (start : P h)
    (hset : h.setSize tag longTag n = .ok h') : P h' := by
  unfold Header.setSize at hset
  split at hset
  · exact kept _ _ _ _ start hset
  · exact kept _ _ _ _ start hset

lemma KeptBySet.signer (kept : KeptBySet P) {s : Signer} (start : P h)
    (hs : s.finish h = .ok h') : P h' := by
  unfold Signer.finish at hs
  simp only [bind_eq_ok_iff] at hs
  obtain ⟨header, -, full, -, middle, hmiddle, hs⟩ := hs
  exact kept _ _ _ _ (kept _ _ _ _ start hmiddle) hs

lemma KeptBySet.processor (kept : KeptBySet P) {p : StandardProcessor} (start : P h)
    (hp : p.finish h = .ok h') : P h' := by
  cases p with
  | size total => exact kept.setSize start hp
  | payloadSize archiveSize =>
    cases archiveSize with
    | none => simp [StandardProcessor.finish] at hp
    | some n => exact kept.setSize start hp
  | sha1 | sha256 | md5 => exact kept _ _ _ _ start hp
  | signer s => exact kept.signer start hp

lemma KeptBySet.processing (kept : KeptBySet P) {s : SignatureProcessing StandardProcessor}
    (start : P .empty) (hs : s.finish.2 = .ok h) : P h := by
  unfold SignatureProcessing.finish at hs
  split at hs
  · simp at hs
  · exact foldlM_induction start (fun b p b' _ hb hp => kept.processor hb hp) hs

end Header

/-! ### Pieces of a payload -/

namespace StandardProcessor

lemma feedPayload_empty (p : StandardProcessor) : p.feedPayload ByteArray.empty = p := by
  cases p <;> simp [feedPayload, Signer.feedPayload]

lemma feedPayload_feedPayload (p : StandardProcessor) (a b : ByteArray) :
    (p.feedPayload a).feedPayload b = p.feedPayload (a ++ b) := by
  cases p with
  | size total => simp [feedPayload, Nat.add_assoc]
  | payloadSize | sha1 | sha256 => rfl
  | md5 d => simp [feedPayload, Digester.update_update]
  | signer s => simp [feedPayload, Signer.feedPayload, ByteArray.append_assoc]

end StandardProcessor

/-! ### The default processors -/

/-- The default processors after a header and the bytes of a payload. -/
def defaultsFed (total : Nat) (archiveSize : UInt64) (header seen : ByteArray) :
    List StandardProcessor := [
  .size total, .payloadSize (some archiveSize), .sha1 ⟨.sha1, header⟩, .sha256 ⟨.sha256, header⟩,
  .md5 ⟨.md5, seen⟩]

end Rpm

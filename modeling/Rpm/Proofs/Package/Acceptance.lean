import Rpm.Proofs.Package.Partition
import Rpm.Proofs.Package.Verification

/-!
Which files verify.

A file is taken apart at its sections, of which the last one and what follows it call for sizes and
digests. Whatever the headers hold, a file verifies exactly if each entry that can be checked is as
it is called for; otherwise the first one that is not is reported. Checks come in the order of the
verifiable tags, and that of the payload's own digest last. A tag has the value of its first entry.
-/

namespace Rpm.Package

open Header

variable {p : Package}

/-! ### Files taken apart -/

/-- Whether a package is all that stands in a file: its lead, both sections and its payload. -/
structure StandsIn (p : Package) (data : ByteArray) : Prop where
  parts : ∃ lead padding, Lead.ofBytes lead = .ok p.lead ∧ lead.size = Lead.size ∧
    padding.size = signaturePadding p.signatureBytes.size ∧
    data = lead ++ p.signatureBytes ++ padding ++ p.headerBytes ++ p.payload.rest
  signature : Header.parse p.signatureBytes = .ok p.signature
  header : Header.parse p.headerBytes = .ok p.header
  ended : p.payload.failure = none

lemma read_eq_ok {data : ByteArray} (h : Package.read (Source.ofBytes data) = .ok p) :
    p.StandsIn data := by
  obtain ⟨lead, padding, hlead, hof, hpadding, hs, -, hsignature, -, hheader⟩ :=
    exists_parts_of_read h
  obtain ⟨hdata, hended⟩ := Source.mk.inj hs
  exact ⟨⟨lead, padding, hof, hlead, hpadding, hdata⟩, hsignature, hheader, hended.symm⟩

/-! ### What is called for -/

/-- The entries that the metadata section and the payload of a file call for. -/
def derived (p : Package) : Header .signature := ⟨checkable p.headerBytes p.payload.rest⟩

/-- Whether everything that a file says of its metadata section and its payload is right. Of several
entries with one tag, the first one says it. -/
structure Agrees (p : Package) : Prop where
  signature : ∀ tag ∈ verifiableTags, Matches p.signature p.derived tag
  payload : p.header.get MetadataTag.payloadDigest = none ∨
    ∃ allowed a, p.Allows allowed a ∧ a.digestHex p.payload.rest ∈ allowed

/-- The first thing that is not right, where all that comes before it is. -/
inductive FirstMismatch (p : Package) : UInt32 → Prop
  | signature {before after : List (Tag .signature)} {tag : Tag .signature}
      (order : verifiableTags = before ++ tag :: after)
      (agree : ∀ t ∈ before, Matches p.signature p.derived t)
      (mismatch : ¬Matches p.signature p.derived tag) : FirstMismatch p tag.id
  | payload {allowed : List String} {a : DigestAlgorithm}
      (agree : ∀ t ∈ verifiableTags, Matches p.signature p.derived t)
      (allows : p.Allows allowed a) (mismatch : a.digestHex p.payload.rest ∉ allowed) :
      FirstMismatch p MetadataTag.payloadDigest.id

lemma FirstMismatch.not_agrees {tag : UInt32} (h : p.FirstMismatch tag) : ¬p.Agrees := by
  intro hagrees
  cases h with
  | signature order _ mismatch => exact mismatch (hagrees.signature _ (by simp [order]))
  | payload _ allows mismatch =>
    have hdigests := payloadDigests_of_allows allows
    rcases hagrees.payload with hnone | ⟨allowed, a, hallows, hmem⟩
    · rw [payloadDigests_of_none hnone] at hdigests
      simp at hdigests
    · -- The header says only once which digests there may be.
      rw [payloadDigests_of_allows hallows] at hdigests
      obtain ⟨rfl, rfl⟩ := Prod.mk.inj (Option.some.inj (Except.ok.inj hdigests))
      exact mismatch hmem

/-! ### Verification -/

lemma verify_eq (ended : p.payload.failure = none) {digests : Option (List String × DigestAlgorithm)}
    (hdigests : p.payloadDigests = .ok digests) :
    p.verify = p.checkPieces digests [p.payload.rest] := by
  simp only [verify, hdigests, Source.readAll, ended, Except.mapError, bind, Except.bind]

lemma checkPieces_eq (p : Package) (digests : Option (List String × DigestAlgorithm))
    {pieces : List ByteArray} (hpieces : concat pieces = p.payload.rest) :
    p.checkPieces digests pieces = (compare p.signature p.derived verifiableTags >>= fun tags =>
      match digests with
      | none => .ok ⟨tags, false⟩
      | some (allowed, a) =>
        if allowed.contains (a.digestHex p.payload.rest) then .ok ⟨tags, true⟩
        else .error (.digestMismatch MetadataTag.payloadDigest.id)) := by
  simp only [checkPieces, recomputed_eq, hpieces, bind, Except.bind, derived]
  rfl

/-- What verification says of a file in which something is not right. -/
def Rejected (p : Package) : Prop :=
  ¬p.Agrees ∧ ∃ e, p.verify = .error e ∧ ∀ tag, e = .digestMismatch tag → p.FirstMismatch tag

lemma FirstMismatch.rejected {tag : UInt32} (h : p.FirstMismatch tag)
    (hverify : p.verify = .error (.digestMismatch tag)) : p.Rejected := by
  refine ⟨h.not_agrees, _, hverify, fun tag' heq => ?_⟩
  obtain rfl := Error.digestMismatch.inj heq
  exact h

lemma rejected_of_payloadDigests {e : Error} (hdigests : p.payloadDigests = .error e)
    (he : ∀ tag, e ≠ .digestMismatch tag) : p.Rejected := by
  refine ⟨fun hagrees => ?_, e, ?_, fun tag heq => absurd heq (he tag)⟩
  · rcases hagrees.payload with hnone | ⟨allowed, a, hallows, -⟩
    · simp [payloadDigests_of_none hnone] at hdigests
    · simp [payloadDigests_of_allows hallows] at hdigests
  · simp only [verify, hdigests, bind, Except.bind]

/-- **A file verifies, or what is wrong first is reported.** -/
lemma verify_cases (ended : p.payload.failure = none) :
    (p.Agrees ∧ p.verify = .ok ⟨verifiableTags.filter p.signature.contains,
      p.header.contains MetadataTag.payloadDigest⟩) ∨ p.Rejected := by
  have hconcat : concat [p.payload.rest] = p.payload.rest := by simp
  have hverify : ∀ digests, p.payloadDigests = .ok digests → p.verify = _ := fun digests hdigests =>
    (verify_eq ended hdigests).trans (checkPieces_eq p digests hconcat)
  -- The header's digests of the payload are looked up before anything is compared, so that what is
  -- wrong with them comes first unless it is that the payload has none of them.
  rcases p.payloadDigests_cases with ⟨hnone, hdigests⟩ | ⟨allowed, a, hallows, hdigests⟩ |
    ⟨e, hdigests, he⟩
  · have hok := hverify none hdigests
    rcases compare_cases p.signature p.derived verifiableTags with
      ⟨hmatch, hcompare⟩ | ⟨before, tag, after, horder, hmatch, hnot, hcompare⟩
    · left
      refine ⟨⟨hmatch, .inl hnone⟩, ?_⟩
      rw [hok, hcompare, Header.contains, hnone]
      rfl
    · right
      exact (FirstMismatch.signature horder hmatch hnot).rejected (by rw [hok, hcompare]; rfl)
  · have hok := hverify (some (allowed, a)) hdigests
    rcases compare_cases p.signature p.derived verifiableTags with
      ⟨hmatch, hcompare⟩ | ⟨before, tag, after, horder, hmatch, hnot, hcompare⟩
    · by_cases hmem : a.digestHex p.payload.rest ∈ allowed
      · left
        have hpresent : p.header.contains MetadataTag.payloadDigest = true := by
          rcases hallows.digests with hd | hd <;> simp [Header.contains, hd]
        refine ⟨⟨hmatch, .inr ⟨allowed, a, hallows, hmem⟩⟩, ?_⟩
        rw [hok, hcompare, hpresent]
        exact if_pos (List.contains_iff_mem.mpr hmem)
      · right
        refine (FirstMismatch.payload hmatch hallows hmem).rejected ?_
        rw [hok, hcompare]
        exact if_neg (by simpa using hmem)
    · right
      exact (FirstMismatch.signature horder hmatch hnot).rejected (by rw [hok, hcompare]; rfl)
  · exact .inr (rejected_of_payloadDigests hdigests he)

/-! ### Payloads read in pieces -/

/-- Feeds a payload to processors, and to the digester of the payload if there is one, as a source
gives it out. A read that gives nothing is the last one. -/
def feedReads : List ByteArray → SignatureProcessing StandardProcessor → Option Digester →
    Except Error (SignatureProcessing StandardProcessor × Option Digester)
  | [], s, d => .ok (s, d)
  | piece :: reads, s, d =>
    if piece.isEmpty then .ok (s, d)
    else do
      let s ← s.feedPayload piece
      feedReads reads s (d.map (·.update piece))

/-- Checks the sizes and digests of a package of which the payload comes in these reads. -/
def verifyReads (p : Package) (reads : List ByteArray) : Except Error Verified := do
  let s : SignatureProcessing StandardProcessor := { processors := verifiers }
  let s ← s.feedHeader p.headerBytes
  let digests ← p.payloadDigests
  let (s, d) ← feedReads reads s (digests.map fun (_, algorithm) => { algorithm })
  let computed ← s.finish.2
  let signatureTags ← compare p.signature computed verifiableTags
  match digests, d with
  | some (allowed, _), some d =>
    if allowed.contains (hexText d.finish) then return { signatureTags, payloadDigest := true }
    else throw (.digestMismatch MetadataTag.payloadDigest.id)
  | _, _ => return { signatureTags, payloadDigest := false }

/-- The processors are fed all pieces, and the digester has seen them as one message. -/
lemma feedReads_eq {reads : List ByteArray} (hreads : ∀ piece ∈ reads, piece ≠ ByteArray.empty)
    (s : SignatureProcessing StandardProcessor) (d : Option Digester) :
    feedReads reads s d = (reads.foldlM SignatureProcessing.feedPayload s).map fun s =>
      (s, d.map (·.update (concat reads))) := by
  induction reads generalizing s d with
  | nil =>
    cases d with
    | none => rfl
    | some d => simp [feedReads, pure, Except.pure, Except.map]
  | cons piece reads ih =>
    obtain ⟨hpiece, hrest⟩ := List.forall_mem_cons.mp hreads
    have hnonempty : ¬piece.isEmpty = true := fun h => hpiece (isEmpty_iff.mp h)
    rw [feedReads, if_neg hnonempty, List.foldlM_cons]
    cases hs : s.feedPayload piece with
    | error e => simp [bind, Except.bind, Except.map]
    | ok s' =>
      simp only [bind, Except.bind, ih hrest]
      cases d with
      | none => rfl
      | some d => simp [Digester.update_update]

/-- **It does not matter how a payload is read.** -/
lemma verifyReads_eq (ended : p.payload.failure = none) {reads : List ByteArray}
    (hreads : ∀ piece ∈ reads, piece ≠ ByteArray.empty) (hconcat : concat reads = p.payload.rest) :
    p.verifyReads reads = p.verify := by
  obtain ⟨s, hs, hfed⟩ := bind_eq_ok_iff.mp (recomputed_eq p.headerBytes reads)
  obtain ⟨s', hs', hfinish⟩ := bind_eq_ok_iff.mp hfed
  have hloop : ∀ d, feedReads reads s d = .ok (s', d.map (·.update (concat reads))) := fun d => by
    rw [feedReads_eq hreads]
    exact map_eq_ok_iff.mpr ⟨s', hs', rfl⟩
  rw [hconcat] at hfinish hloop
  cases hdigests : p.payloadDigests with
  | error e => simp only [verifyReads, verify, hs, hdigests, bind, Except.bind]
  | ok digests =>
    rw [verify_eq ended hdigests, checkPieces_eq p digests (by simp)]
    simp only [verifyReads, hs, hdigests, hloop, hfinish, bind, Except.bind, derived]
    cases digests with
    | none => rfl
    | some digests =>
      obtain ⟨allowed, a⟩ := digests
      have hdigest : ({ algorithm := a } : Digester).update p.payload.rest = ⟨a, p.payload.rest⟩ := by
        rw [Digester.update, ByteArray.empty_append]
      simp only [Option.map_some, hdigest]
      rfl

/-- **What verifies is what agrees.** Of every file that can be read, the metadata section and the
payload are what stands behind the signature section. It verifies exactly if all sizes and digests
that can be checked agree with them, of whatever types the values are, and then all of those are
listed that are there. A mismatch is reported for the first one that does not agree. And it does not
matter in which reads the payload comes. -/
theorem verify_of_read {data : ByteArray} (hread : Package.read (Source.ofBytes data) = .ok p) :
    p.StandsIn data ∧
      ((∃ v, p.verify = .ok v) ↔ p.Agrees) ∧
      (∀ v, p.verify = .ok v → v = ⟨verifiableTags.filter p.signature.contains,
        p.header.contains MetadataTag.payloadDigest⟩) ∧
      (∀ tag, p.verify = .error (.digestMismatch tag) → p.FirstMismatch tag) ∧
      ∀ reads, (∀ piece ∈ reads, piece ≠ ByteArray.empty) → concat reads = p.payload.rest →
        p.verifyReads reads = p.verify := by
  have hstands := read_eq_ok hread
  have hreads : ∀ reads, (∀ piece ∈ reads, piece ≠ ByteArray.empty) →
      concat reads = p.payload.rest → p.verifyReads reads = p.verify :=
    fun _ => verifyReads_eq hstands.ended
  rcases verify_cases hstands.ended with ⟨hagrees, hok⟩ | ⟨hnot, e, herror, hfirst⟩
  · refine ⟨hstands, iff_of_true ⟨_, hok⟩ hagrees, fun v hv => ?_, fun tag htag => ?_, hreads⟩
    · exact Except.ok.inj (hv.symm.trans hok)
    · rw [hok] at htag
      contradiction
  · have hnone : ∀ v, p.verify ≠ .ok v := by simp [herror]
    refine ⟨hstands, iff_of_false (fun ⟨v, hv⟩ => hnone v hv) hnot, fun v hv => ?_,
      fun tag htag => ?_, hreads⟩
    · exact absurd hv (hnone v)
    · exact hfirst tag (Except.error.inj (herror.symm.trans htag))

theorem verify_of_read_sizedFile :
    ∃ p, Package.read (Source.ofBytes sizedFile) = .ok p ∧
      p.verify = .ok ⟨[SignatureTag.size], false⟩ ∧
      p.verifyReads [⟨#[1]⟩, ⟨#[2, 3]⟩] = .ok ⟨[SignatureTag.size], false⟩ := by
  have hread : ∃ p, Package.read (Source.ofBytes sizedFile) = .ok p ∧
      (p.signature.entries = [⟨1000, .int32 [19]⟩] ∧ p.header.entries = [] ∧
        p.headerBytes.size = 16 ∧ p.payload.rest = ⟨#[1, 2, 3]⟩) :=
    exists_of_any (by decide +kernel)
  obtain ⟨p, hp, hsignature, hheader, hsize, hpayload⟩ := hread
  obtain ⟨-, hiff, hlisted, -, hreads⟩ := verify_of_read hp
  have htotal : p.headerBytes.size + p.payload.rest.size = 19 := by
    rw [hsize, hpayload]
    rfl
  have hmatches : ∀ tag ∈ verifiableTags, Matches p.signature p.derived tag := by
    intro tag _ value hvalue
    have hmem := mem_of_lookup hvalue
    rw [hsignature, List.mem_singleton, Entry.mk.injEq] at hmem
    obtain ⟨hid, rfl⟩ := hmem
    have hlookup := (lookup_size p.headerBytes p.payload.rest).1
    rw [htotal] at hlookup
    rw [Header.get, hid]
    exact hlookup
  have hagrees : p.Agrees := ⟨hmatches, .inl (by rw [Header.get, Header.getRaw, hheader]; rfl)⟩
  obtain ⟨v, hv⟩ := hiff.mpr hagrees
  have hok : p.verify = .ok ⟨[SignatureTag.size], false⟩ := by
    have hsigned : p.signature = ⟨[⟨1000, .int32 [19]⟩]⟩ := congrArg Header.mk hsignature
    have hempty : p.header = ⟨[]⟩ := congrArg Header.mk hheader
    rw [hv, hlisted v hv, hsigned, hempty]
    rfl
  have hreads' := hreads [⟨#[1]⟩, ⟨#[2, 3]⟩] (by decide) (by rw [hpayload]; rfl)
  exact ⟨p, hp, hok, hreads'.trans hok⟩

end Rpm.Package

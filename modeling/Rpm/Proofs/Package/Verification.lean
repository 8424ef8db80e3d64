import Rpm.Package.Reader
import Rpm.Proofs.Package.RoundTrip
import Rpm.Proofs.Payload.Recording

/-!
Packages verified against what was written.

The default processors and the verifier make the same entries of the same header and payload, so that
all of them agree. The size among them is compared first, and is another one for every payload of
another length, so that such a payload never passes, whatever the digests say.
-/

namespace Rpm

open Header Writer

namespace Package

/-! ### What is checked -/

/-- The tag of the size of a header and a payload. -/
def sizeTag (total : Nat) : Tag .signature :=
  fittingTag SignatureTag.size SignatureTag.longSize total

/-- The entries that can be checked, as they are for a header and a payload. -/
def checkable (header payload : ByteArray) : List Entry := [
  sizeEntry SignatureTag.size SignatureTag.longSize (header.size + payload.size),
  ⟨SignatureTag.md5.id, .bin (DigestAlgorithm.md5.digest (header ++ payload))⟩,
  ⟨SignatureTag.sha1Header.id, .string (DigestAlgorithm.sha1.digestHex header)⟩,
  ⟨SignatureTag.sha256Header.id, .string (DigestAlgorithm.sha256.digestHex header)⟩]

lemma nodup_tag_checkable (header payload : ByteArray) :
    ((checkable header payload).map Entry.tag).Nodup := by
  unfold checkable sizeEntry fittingTag
  split <;> simp only [List.map_cons, List.map_nil] <;> decide

lemma recomputed_eq (header : ByteArray) (pieces : List ByteArray) :
    recomputed header pieces = .ok ⟨checkable header (concat pieces)⟩ := by
  set payload := concat pieces with hpayload
  have hheader : (⟨verifiers, .created⟩ : SignatureProcessing StandardProcessor).feedHeader header =
      .ok ⟨[.size (0 + header.size), .md5 ⟨.md5, ByteArray.empty ++ header⟩,
        .sha1 ⟨.sha1, ByteArray.empty ++ header⟩, .sha256 ⟨.sha256, ByteArray.empty ++ header⟩],
        .headerFed⟩ := rfl
  rw [Nat.zero_add, ByteArray.empty_append] at hheader
  obtain ⟨last, hlast, hpieces⟩ := exists_foldlM_feedPayload pieces
    [StandardProcessor.size header.size, .md5 ⟨.md5, header⟩, .sha1 ⟨.sha1, header⟩,
      .sha256 ⟨.sha256, header⟩] (rfl : Phase.headerFed.afterHeader = true)
  simp only [recomputed, hheader, hpieces, bind, Except.bind, List.map_cons, List.map_nil,
    allGivenTo_pieces, ← hpayload]
  have hmakes : List.Forall₂ StandardProcessor.Makes
      [.size (header.size + payload.size), .md5 ⟨.md5, header ++ payload⟩, .sha1 ⟨.sha1, header⟩,
        .sha256 ⟨.sha256, header⟩] (checkable header payload) :=
    .cons (setSize_eq_setRaw rfl rfl _) <| .cons (fun _ => rfl) <| .cons (fun _ => rfl) <|
      .cons (fun _ => rfl) .nil
  rw [SignatureProcessing.finish_of_afterHeader hlast]
  exact foldlM_finish_of_makes hmakes [] (nodup_tag_checkable header payload)

lemma lookup_derivedEntries (archiveSize : UInt64) (header payload : ByteArray)
    {tag : Tag .signature} (htag : tag ∈ verifiableTags) :
    lookup tag.id (derivedEntries archiveSize header payload) =
      lookup tag.id (checkable header payload) := by
  unfold derivedEntries checkable sizeEntry fittingTag sizeValue
  simp only [verifiableTags, List.mem_cons, List.not_mem_nil, or_false] at htag
  split <;> split <;> rcases htag with rfl | rfl | rfl | rfl | rfl <;> rfl

lemma get_signatureHeader {header : ByteArray} {payload : FinishedPayload} {sig : Header .signature}
    (h : signatureHeader .defaults header payload = .ok sig) {tag : Tag .signature}
    (htag : tag ∈ verifiableTags) :
    sig.get tag = lookup tag.id (checkable header payload.bytes) := by
  rw [signatureHeader_defaults] at h
  obtain rfl := Except.ok.inj h
  exact lookup_derivedEntries (UInt64.ofNat payload.archiveSize) header payload.bytes htag

/-! ### Comparing -/

variable {expected computed : Header .signature} {tags : List (Tag .signature)} {p : Package}

/-- Whether a tag has the value that was computed for it, or none. -/
def Matches (expected computed : Header .signature) (tag : Tag .signature) : Prop :=
  ∀ value, expected.get tag = some value → computed.get tag = some value

lemma compare_cons_of_matches {tag : Tag .signature} (h : Matches expected computed tag) :
    compare expected computed (tag :: tags) = if expected.contains tag
      then (compare expected computed tags).map (tag :: ·) else compare expected computed tags := by
  cases hv : expected.get tag with
  | none => simp [compare, Header.contains, hv]
  | some value => simp [compare, Header.contains, hv, h value hv]

lemma compare_cons_of_not_matches {tag : Tag .signature} (h : ¬Matches expected computed tag) :
    compare expected computed (tag :: tags) = .error (.digestMismatch tag.id) := by
  unfold Matches at h
  push Not at h
  obtain ⟨value, hv, hne⟩ := h
  simp [compare, hv, hne]

/-- Comparing goes through all tags, or stops at the first one that does not match. -/
lemma compare_cases (expected computed : Header .signature) (tags : List (Tag .signature)) :
    ((∀ tag ∈ tags, Matches expected computed tag) ∧
      compare expected computed tags = .ok (tags.filter expected.contains)) ∨
    ∃ before tag after, tags = before ++ tag :: after ∧
      (∀ t ∈ before, Matches expected computed t) ∧ ¬Matches expected computed tag ∧
      compare expected computed tags = .error (.digestMismatch tag.id) := by
  induction tags with
  | nil => exact .inl ⟨by simp, rfl⟩
  | cons t tags ih =>
    by_cases ht : Matches expected computed t
    · rw [compare_cons_of_matches ht, List.filter_cons]
      rcases ih with ⟨hmatch, hcompare⟩ | ⟨before, tag, after, hsplit, hmatch, hnot, hcompare⟩
      · left
        rw [hcompare]
        exact ⟨List.forall_mem_cons.mpr ⟨ht, hmatch⟩, by split <;> rfl⟩
      · right
        rw [hcompare, hsplit]
        exact ⟨t :: before, tag, after, rfl, List.forall_mem_cons.mpr ⟨ht, hmatch⟩, hnot,
          by split <;> rfl⟩
    · right
      exact ⟨[], t, tags, rfl, by simp, ht, compare_cons_of_not_matches ht⟩

lemma filter_contains {header payload : ByteArray}
    (h : ∀ tag ∈ verifiableTags, expected.get tag = lookup tag.id (checkable header payload)) :
    verifiableTags.filter expected.contains =
      [sizeTag (header.size + payload.size), SignatureTag.md5, SignatureTag.sha1Header,
        SignatureTag.sha256Header] := by
  have hcontains : ∀ tag ∈ verifiableTags,
      expected.contains tag = (lookup tag.id (checkable header payload)).isSome :=
    fun tag htag => congrArg Option.isSome (h tag htag)
  rw [List.filter_congr hcontains]
  by_cases htotal : header.size + payload.size < 2 ^ 32 <;>
    simp only [checkable, sizeEntry, sizeTag, fittingTag, htotal, if_true, if_false] <;> rfl

/-- The size stands under one of its tags, and under the other there is nothing. -/
lemma lookup_size (header payload : ByteArray) :
    lookup SignatureTag.size.id (checkable header payload) =
        (if header.size + payload.size < 2 ^ 32
          then some (.int32 [UInt32.ofNat (header.size + payload.size)]) else none) ∧
      lookup SignatureTag.longSize.id (checkable header payload) =
        if header.size + payload.size < 2 ^ 32
          then none else some (.int64 [UInt64.ofNat (header.size + payload.size)]) := by
  by_cases htotal : header.size + payload.size < 2 ^ 32 <;>
    simp only [checkable, sizeEntry, fittingTag, sizeValue, htotal, if_true, if_false] <;>
      exact ⟨rfl, rfl⟩

lemma lookup_sizeTag_ne {header other : ByteArray} {total : Nat} (htotal : total < 2 ^ 64)
    (hother : header.size + other.size < 2 ^ 64) (hne : header.size + other.size ≠ total) :
    lookup (sizeTag total).id (checkable header other) ≠ some (sizeValue total) := by
  by_cases hlt : total < 2 ^ 32
  · rw [sizeTag, fittingTag, sizeValue, if_pos hlt, if_pos hlt, (lookup_size header other).1]
    split
    · simp only [ne_eq, Option.some.injEq, Value.int32.injEq, List.cons.injEq, and_true,
        ← UInt32.toNat_inj, UInt32.toNat_ofNat']
      omega
    · simp
  · rw [sizeTag, fittingTag, sizeValue, if_neg hlt, if_neg hlt, (lookup_size header other).2]
    split
    · simp
    · simp only [ne_eq, Option.some.injEq, Value.int64.injEq, List.cons.injEq, and_true,
        ← UInt64.toNat_inj, UInt64.toNat_ofNat']
      omega

/-- **Another size is found out** before anything else is compared. -/
lemma compare_of_size_ne {header payload other : ByteArray}
    (h : ∀ tag ∈ verifiableTags, expected.get tag = lookup tag.id (checkable header payload))
    (hsize : header.size + payload.size < 2 ^ 64) (hsize' : header.size + other.size < 2 ^ 64)
    (hne : other.size ≠ payload.size) :
    compare expected ⟨checkable header other⟩ verifiableTags =
      .error (.digestMismatch (sizeTag (header.size + payload.size)).id) := by
  have hfirst := h SignatureTag.size (by decide)
  have hsecond := h SignatureTag.longSize (by decide)
  rw [(lookup_size header payload).1] at hfirst
  rw [(lookup_size header payload).2] at hsecond
  have hmismatch := lookup_sizeTag_ne hsize hsize' (fun heq => hne (Nat.add_left_cancel heq))
  -- Either the first tag is that of the size, or nothing is expected there and the second one is.
  by_cases hlt : header.size + payload.size < 2 ^ 32
  · rw [if_pos hlt] at hfirst
    rw [sizeTag, fittingTag, sizeValue, if_pos hlt, if_pos hlt] at hmismatch
    rw [sizeTag, fittingTag, if_pos hlt, verifiableTags, compare, hfirst]
    exact if_pos hmismatch
  · rw [if_neg hlt] at hfirst hsecond
    rw [sizeTag, fittingTag, sizeValue, if_neg hlt, if_neg hlt] at hmismatch
    rw [sizeTag, fittingTag, if_neg hlt, verifiableTags, compare, hfirst, compare, hsecond]
    exact if_pos hmismatch

/-! ### The digest of the payload -/

/-- Whether the header says that the payload has one of these digests of this algorithm, which is
the default one if none is named. -/
structure Allows (p : Package) (allowed : List String) (a : DigestAlgorithm) : Prop where
  digests : p.header.get MetadataTag.payloadDigest = some (.stringArray allowed) ∨
    p.header.get MetadataTag.payloadDigest = some (.i18nString allowed)
  algorithm : p.header.get MetadataTag.payloadDigestAlgo = some (.int32 [a.id]) ∨
    p.header.get MetadataTag.payloadDigestAlgo = none ∧ a = .default

lemma payloadDigests_of_none (h : p.header.get MetadataTag.payloadDigest = none) :
    p.payloadDigests = .ok none := by
  have hdigests : p.header.getStrings MetadataTag.payloadDigest = .ok none := typed_eq_none_iff.mpr h
  simp only [payloadDigests, hdigests, bind, Except.bind]
  rfl

lemma payloadDigests_of_allows {allowed : List String} {a : DigestAlgorithm}
    (h : p.Allows allowed a) : p.payloadDigests = .ok (some (allowed, a)) := by
  have hdigests : p.header.getStrings MetadataTag.payloadDigest = .ok (some allowed) := by
    rcases h.digests with hd | hd
    · exact typed_eq_some_iff.mpr ⟨_, hd, rfl⟩
    · exact typed_eq_some_iff.mpr ⟨_, hd, rfl⟩
  rcases h.algorithm with ha | ⟨ha, rfl⟩
  · have hid : p.header.getUInt32 MetadataTag.payloadDigestAlgo = .ok (some a.id) :=
      typed_eq_some_iff.mpr ⟨_, ha, rfl⟩
    simp only [payloadDigests, hdigests, hid, bind, Except.bind, Option.getD_some,
      DigestAlgorithm.ofId?_id]
    rfl
  · have hid : p.header.getUInt32 MetadataTag.payloadDigestAlgo = .ok none :=
      typed_eq_none_iff.mpr ha
    simp only [payloadDigests, hdigests, hid, bind, Except.bind, Option.getD_none,
      DigestAlgorithm.ofId?_id]
    rfl

lemma allows_of_ok {allowed : List String} {n : Option UInt32} {a : DigestAlgorithm}
    (hdigests : p.header.getStrings MetadataTag.payloadDigest = .ok (some allowed))
    (hid : p.header.getUInt32 MetadataTag.payloadDigestAlgo = .ok n)
    (ha : DigestAlgorithm.ofId? (n.getD DigestAlgorithm.default.id) = some a) :
    p.Allows allowed a := by
  constructor
  · obtain ⟨value, hvalue, hstrings⟩ := typed_eq_some_iff.mp hdigests
    rcases Value.asStrings?_eq_some_iff.mp hstrings with rfl | rfl
    · exact .inl hvalue
    · exact .inr hvalue
  · cases n with
    | none =>
      rw [Option.getD_none, DigestAlgorithm.ofId?_id] at ha
      exact .inr ⟨typed_eq_none_iff.mp hid, (Option.some.inj ha).symm⟩
    | some n =>
      rw [Option.getD_some, DigestAlgorithm.ofId?_eq_some_iff] at ha
      obtain ⟨value, hvalue, hnumber⟩ := typed_eq_some_iff.mp hid
      rw [Value.asUInt32?_eq_some_iff.mp hnumber, ha] at hvalue
      exact .inl hvalue

/-- There is no digest, there are some, or what is there is no list of digests of a known algorithm,
which has nothing to do with the payload. -/
lemma payloadDigests_cases (p : Package) :
    (p.header.get MetadataTag.payloadDigest = none ∧ p.payloadDigests = .ok none) ∨
    (∃ allowed a, p.Allows allowed a ∧ p.payloadDigests = .ok (some (allowed, a))) ∨
    ∃ e, p.payloadDigests = .error e ∧ ∀ tag, e ≠ .digestMismatch tag := by
  cases hdigests : p.header.getStrings MetadataTag.payloadDigest with
  | error e =>
    right; right
    obtain ⟨actual, rfl⟩ := typed_eq_error hdigests
    refine ⟨.tagTypeMismatch MetadataTag.payloadDigest.id .stringArray actual, ?_, by simp⟩
    simp only [payloadDigests, hdigests, bind, Except.bind]
  | ok digests =>
    cases digests with
    | none =>
      left
      have hnone := typed_eq_none_iff.mp hdigests
      exact ⟨hnone, payloadDigests_of_none hnone⟩
    | some allowed =>
      right
      cases hid : p.header.getUInt32 MetadataTag.payloadDigestAlgo with
      | error e =>
        right
        obtain ⟨actual, rfl⟩ := typed_eq_error hid
        refine ⟨.tagTypeMismatch MetadataTag.payloadDigestAlgo.id .int32 actual, ?_, by simp⟩
        simp only [payloadDigests, hdigests, hid, bind, Except.bind]
      | ok n =>
        cases ha : DigestAlgorithm.ofId? (n.getD DigestAlgorithm.default.id) with
        | none =>
          right
          have herror : ∃ operation, p.payloadDigests = .error (.unsupported operation) := by
            simp only [payloadDigests, hdigests, hid, ha, bind, Except.bind]
            exact ⟨_, rfl⟩
          obtain ⟨operation, herror⟩ := herror
          exact ⟨_, herror, by simp⟩
        | some a =>
          left
          have hallows := allows_of_ok hdigests hid ha
          exact ⟨allowed, a, hallows, payloadDigests_of_allows hallows⟩

/-- In a file whose header had no digest of the payload, there is one exactly if a digester made it,
and it is that of the payload. -/
lemma exists_payloadDigests {header h g : Header .metadata} {payload : FinishedPayload}
    {algorithms : List DigestAlgorithm} {archive data : ByteArray}
    (hd : header.get MetadataTag.payloadDigest = none) (hh : fileHeader header payload = .ok h)
    (hf : PayloadStream.finishProcessors
      (PayloadStream.digesters algorithms archive payload.bytes) = .ok payload.header)
    (rendered : h.render true = .ok data) (limits : WithinLimits data)
    (parsed : Header.parse data = .ok g) :
    ∃ digests, (∀ p : Package, p.header = g → p.payloadDigests = .ok digests) ∧
      (digests.isSome = true ↔ algorithms ≠ []) ∧
      ∀ allowed a, digests = some (allowed, a) →
        allowed.contains (a.digestHex payload.bytes) = true := by
  have hraw := getRaw_fileHeader (digestsOnly_finishProcessors hf) hh
  rcases algorithms.eq_nil_or_concat' with rfl | ⟨before, a, rfl⟩
  · have hnone : h.getRaw MetadataTag.payloadDigest.id = none := by
      rw [hraw, PayloadStream.header_of_nil hf]
      exact hd
    refine ⟨none, fun p hp => payloadDigests_of_none ?_, by simp, by simp⟩
    rw [Header.get, hp, getRaw_of_parse rendered limits parsed (by simp [hnone]), hnone]
  · obtain ⟨hdigest, halgorithm⟩ := PayloadStream.getRaw_of_concat hf
    have hsome : h.getRaw MetadataTag.payloadDigest.id =
        some (.stringArray [a.digestHex payload.bytes]) := by
      rw [hraw, hdigest]
      rfl
    have hsome' : h.getRaw MetadataTag.payloadDigestAlgo.id = some (.int32 [a.id]) := by
      rw [hraw, halgorithm]
      rfl
    refine ⟨some ([a.digestHex payload.bytes], a),
      fun p hp => payloadDigests_of_allows ⟨.inl ?_, .inl ?_⟩, by simp, ?_⟩
    · rw [Header.get, hp, getRaw_of_parse rendered limits parsed
        (by simp [hsome, Value.Unambiguous]), hsome]
    · rw [Header.get, hp, getRaw_of_parse rendered limits parsed
        (by simp [hsome', Value.Unambiguous]), hsome']
    · rintro allowed a' heq
      obtain ⟨rfl, rfl⟩ := Prod.mk.inj (Option.some.inj heq)
      simp

/-! ### The whole package -/

lemma verify_of_agree {payload : ByteArray} {digests : Option (List String × DigestAlgorithm)}
    (hsig : ∀ tag ∈ verifiableTags,
      p.signature.get tag = lookup tag.id (checkable p.headerBytes payload))
    (hpayload : p.payload = Source.ofBytes payload) (hdigests : p.payloadDigests = .ok digests)
    (hallowed : ∀ allowed a, digests = some (allowed, a) →
      allowed.contains (a.digestHex payload) = true) :
    p.verify = .ok ⟨[sizeTag (p.headerBytes.size + payload.size), SignatureTag.md5,
      SignatureTag.sha1Header, SignatureTag.sha256Header], digests.isSome⟩ := by
  have hcompare : compare p.signature ⟨checkable p.headerBytes payload⟩ verifiableTags =
      .ok (verifiableTags.filter p.signature.contains) := by
    rcases compare_cases p.signature ⟨checkable p.headerBytes payload⟩ verifiableTags with
      ⟨-, hcompare⟩ | ⟨before, tag, after, hsplit, -, hnot, -⟩
    · exact hcompare
    · have htag : tag ∈ verifiableTags := by simp [hsplit]
      exact absurd (fun value hv => (hsig tag htag).symm.trans hv) hnot
  have hconcat : concat [payload] = payload := by simp
  simp only [verify, hdigests, hpayload, Source.readAll, Source.ofBytes, Except.mapError, bind,
    Except.bind, checkPieces, recomputed_eq, hcompare, filter_contains hsig, hconcat]
  cases digests with
  | none => rfl
  | some digests =>
    obtain ⟨allowed, a⟩ := digests
    simp only [hallowed allowed a rfl, if_true]
    rfl

lemma verify_of_size_ne {payload other : ByteArray}
    {digests : Option (List String × DigestAlgorithm)}
    (hsig : ∀ tag ∈ verifiableTags,
      p.signature.get tag = lookup tag.id (checkable p.headerBytes payload))
    (hpayload : p.payload = Source.ofBytes other) (hdigests : p.payloadDigests = .ok digests)
    (hsize : p.headerBytes.size + payload.size < 2 ^ 64)
    (hsize' : p.headerBytes.size + other.size < 2 ^ 64) (hne : other.size ≠ payload.size) :
    p.verify =
      .error (.digestMismatch (sizeTag (p.headerBytes.size + payload.size)).id) := by
  have hconcat : concat [other] = other := by simp
  simp only [verify, hdigests, hpayload, Source.readAll, Source.ofBytes, Except.mapError, bind,
    Except.bind, checkPieces, recomputed_eq, hconcat, compare_of_size_ne hsig hsize hsize' hne]

/-- **Written packages verify.** A package with the default processors can be read if the caller's
header tells how its values are to be read. Whenever it can be read, it verifies, its size and the
three digests being there, and the digest of its payload if a digester was added; and with a payload
of another length it can be read as well, and does not verify. -/
theorem verify_of_finish {kind : PackageKind} {architecture name : String} {sink : Sink}
    {header : Header .metadata} {payload : FinishedPayload} {recorder : Recorder PayloadDigester}
    {algorithms : List DigestAlgorithm} {w : Writer Sink StandardProcessor}
    (fresh : sink.accepted = ByteArray.empty)
    (defaults : w = Writer.new sink (Lead.new kind architecture name))
    (recording : Recorder.Recording recorder algorithms)
    (recorded : recorder.finish.2 = .ok payload)
    (undigested : header.get MetadataTag.payloadDigest = none)
    (written : (w.loaded header payload).finish.2 = .ok ())
    (limits : ∀ parts, (w.loaded header payload).parts payload = .ok parts →
      WithinLimits parts.signature ∧ WithinLimits parts.header) :
    let file := (w.loaded header payload).finish.1.sink.accepted
    (header.Unambiguous → ∃ p, Package.read (Source.ofBytes file) = .ok p) ∧
    ∀ p, Package.read (Source.ofBytes file) = .ok p →
      (∃ v, p.verify = .ok v ∧
        v.signatureTags = [sizeTag (p.headerBytes.size + payload.bytes.size), SignatureTag.md5,
          SignatureTag.sha1Header, SignatureTag.sha256Header] ∧
        (v.payloadDigest = true ↔ algorithms ≠ [])) ∧
      ∀ front other, file = front ++ payload.bytes → other.size ≠ payload.bytes.size →
        file.size < 2 ^ 64 → (front ++ other).size < 2 ^ 64 →
        ∃ q, Package.read (Source.ofBytes (front ++ other)) = .ok q ∧ q.verify =
          .error (.digestMismatch (sizeTag (p.headerBytes.size + payload.bytes.size)).id) := by
  intro file
  subst defaults
  obtain ⟨flags, fileDigest, members, rfl⟩ := recording.exists_holding
  obtain ⟨pieces, -, -, -, hdigesters⟩ := Recorder.finish_holding recorded
  have honly := digestsOnly_finishProcessors hdigesters
  obtain ⟨parts, hparts, hfile⟩ := accepted_finish rfl written
  obtain ⟨h, sig, hh, hheader, hsig, hsignature, hlead, hpayload⟩ := parts_eq_ok hparts
  have hbytes : file = parts.bytes := by
    rw [show file = _ from hfile, Writer.loaded, Writer.new, fresh, ByteArray.empty_append]
  have hmajor : parts.lead.major = 3 := by
    rw [hlead]
    rfl
  obtain ⟨lead, sig', hsorted, hread⟩ := Package.read_eq hmajor hsignature hheader
    (limits parts hparts)
    (keptBySet_signatureHeader keptBySet_unambiguous unambiguous_empty hsig)
  have hread' : Package.read (Source.ofBytes file) = _ := hbytes ▸ hread parts.payload
  have hget : ∀ tag ∈ verifiableTags,
      sig'.get tag = lookup tag.id (checkable parts.header payload.bytes) := fun tag htag =>
    (lookup_of_stablySorted hsorted tag.id).trans (get_signatureHeader hsig htag)
  refine ⟨fun known => ?_, fun p hp => ?_⟩
  · rw [hread', parse_of_render hheader (limits parts hparts).2
      (unambiguous_fileHeader known honly hh)]
    exact ⟨_, rfl⟩
  · rw [hread'] at hp
    obtain ⟨g, hg, rfl⟩ := map_eq_ok_iff.mp hp
    obtain ⟨digests, hdigests, hsome, hallowed⟩ := exists_payloadDigests undigested hh hdigesters
      hheader (limits parts hparts).2 hg
    simp only
    refine ⟨⟨_, verify_of_agree hget (by rw [hpayload]) (hdigests _ rfl) hallowed, rfl, hsome⟩,
      fun front other hfront hne hsize hsize' => ?_⟩
    -- What stands in front of the payload is the same, so that the same headers are read.
    have hother : { parts with payload := other }.bytes = front ++ other :=
      PackageParts.bytes_of_append (by rw [← hbytes, hpayload, hfront]) other
    have hlarge := parts.size_header_le
    have hlarge' := { parts with payload := other }.size_header_le
    rw [hpayload, ← hbytes] at hlarge
    rw [hother] at hlarge'
    refine ⟨_, (hother ▸ hread other).trans (by rw [hg]; rfl), ?_⟩
    exact verify_of_size_ne hget rfl (hdigests _ rfl) (Nat.lt_of_le_of_lt hlarge hsize)
      (Nat.lt_of_le_of_lt hlarge' hsize') hne

/-! ### Packages without files -/

/-- A recorder to which nothing is added, not even a digester. -/
def plainRecorder : Recorder PayloadDigester := .holding { coding := .none } .default [] []

lemma recording_plainRecorder : Recorder.Recording plainRecorder [] := by
  have hnew : Recorder.new .none none .default = .ok plainRecorder := rfl
  exact .new hnew

lemma recording_emptyRecorder : Recorder.Recording emptyRecorder [.default] :=
  .addProcessor recording_plainRecorder rfl

theorem verify_of_finish_emptyRecorder :
    ∃ payload p v, emptyRecorder.finish.2 = .ok payload ∧
      Package.read (Source.ofBytes (namedWriter.loaded namedHeader payload).finish.1.sink.accepted) =
        .ok p ∧
      p.verify = .ok v ∧ v.payloadDigest = true := by
  obtain ⟨payload, recorded, hsize⟩ := emptyRecorder_finish
  obtain ⟨-, hflags, -⟩ := Recorder.finish_eq_ok recorded
  obtain ⟨parts, hparts, hlimits, written⟩ :=
    exists_parts_of_small namedWriter.lead recorded hflags hsize placeable_namedHeader
      (by decide +kernel)
  obtain ⟨hread, hverify⟩ := verify_of_finish (w := namedWriter) rfl rfl recording_emptyRecorder
    recorded rfl written fun parts' hparts' => Except.ok.inj (hparts.symm.trans hparts') ▸ hlimits
  obtain ⟨p, hp⟩ := hread (by simp [Header.Unambiguous, namedHeader, Value.Unambiguous])
  obtain ⟨⟨v, hv, -, hdigest⟩, -⟩ := hverify p hp
  exact ⟨payload, p, v, recorded, hp, hv, hdigest.mpr (by simp)⟩

/-- A header with a value that has the number of the type of strings, and is none. -/
def mislabelledHeader : Header .metadata := ⟨[⟨1, .unknown 6 ⟨#[0xff]⟩⟩]⟩

lemma plainRecorder_finish : ∃ payload, plainRecorder.finish.2 = .ok payload ∧
    payload.bytes.size < 2 ^ 31 ∧ payload.archiveSize < 2 ^ 32 ∧
      payload.payloadSize = payload.bytes.size :=
  exists_of_any (by decide +kernel)

/-- The entry is read as a string from its byte on, up to the end of the next entry. -/
lemma parse_mislabelledHeader {h : Header .metadata} {data : ByteArray}
    (hh : h = mislabelledHeader.extend ⟨[⟨MetadataTag.payloadFormat.id, .string "cpio"⟩,
      ⟨MetadataTag.payloadCompressor.id, .string "none"⟩,
      ⟨MetadataTag.payloadFlags.id, .string (plainRecorder.flags.display)⟩]⟩)
    (rendered : h.render true = .ok data) :
    (Header.parse data : Except Error (Header .metadata)) = .error (.stringNotUtf8 1) := by
  have hsorted : sortedByTag h.entries = h.entries :=
    List.mergeSort_of_pairwise (by subst hh; decide +kernel)
  have hplain : h.render false = .ok data := by
    rw [← rendered]
    simp only [Header.render, renderEntries, hsorted, Bool.false_eq_true, if_false, if_true]
  have hcheck : (h.render false >>= fun data =>
      (Header.parse data : Except Error (Header .metadata)).map fun _ => ()) =
      .error (.stringNotUtf8 1) := by
    subst hh
    decide +kernel
  rw [hplain] at hcheck
  cases hp : (Header.parse data : Except Error (Header .metadata)) with
  | ok g => simp [hp, bind, Except.bind, Except.map] at hcheck
  | error e => simpa [hp, bind, Except.bind, Except.map] using hcheck

/-- A package with such a value is written without an error, but cannot be read. -/
theorem read_of_finish_mislabelledHeader :
    ∃ payload, plainRecorder.finish.2 = .ok payload ∧
      mislabelledHeader.get MetadataTag.payloadDigest = none ∧
      (namedWriter.loaded mislabelledHeader payload).finish.2 = .ok () ∧
      (∀ parts, (namedWriter.loaded mislabelledHeader payload).parts payload = .ok parts →
        WithinLimits parts.signature ∧ WithinLimits parts.header) ∧
      Package.read (Source.ofBytes
        (namedWriter.loaded mislabelledHeader payload).finish.1.sink.accepted) =
          .error (.stringNotUtf8 1) := by
  obtain ⟨payload, recorded, hsize⟩ := plainRecorder_finish
  obtain ⟨pieces, -, -, hflags, hdigesters⟩ := Recorder.finish_holding recorded
  have hnone := PayloadStream.header_of_nil hdigesters
  have hplaceable :
      ∀ e ∈ mislabelledHeader.entries, e.Placeable Namespace.metadata.region := by
    intro e he
    obtain rfl := List.mem_singleton.mp he
    exact ⟨by decide, rfl⟩
  obtain ⟨parts, hparts, hlimits, written⟩ :=
    exists_parts_of_small namedWriter.lead recorded hflags hsize hplaceable (by decide +kernel)
  obtain ⟨parts', hparts', hfile⟩ := accepted_finish rfl written
  obtain rfl := Except.ok.inj (hparts.symm.trans hparts')
  obtain ⟨h, sig, hh, hheader, hsig, hsignature, hlead, -⟩ := parts_eq_ok hparts
  obtain ⟨lead, sig', -, hread⟩ := Package.read_eq (by rw [hlead]; rfl) hsignature hheader hlimits
    (keptBySet_signatureHeader keptBySet_unambiguous unambiguous_empty hsig)
  have hparse := parse_mislabelledHeader (by
    rw [fileHeader_eq, hnone, payloadEntries, hflags] at hh
    exact (Except.ok.inj hh).symm) hheader
  refine ⟨payload, recorded, rfl, written,
    fun parts' hparts' => Except.ok.inj (hparts.symm.trans hparts') ▸ hlimits, ?_⟩
  have hfile' : (namedWriter.loaded mislabelledHeader payload).finish.1.sink.accepted =
      parts.bytes := hfile.trans ByteArray.empty_append
  have hread' := hread parts.payload
  rw [hparse] at hread'
  rw [hfile']
  exact hread'

end Package

end Rpm

import Rpm.Proofs.Header.WellFormed

/-!
Header sections read from a stream.

A stream gives the prologue first, and then as much as that says, so that it can end in two places;
data that is there as a whole is measured once. Both readers come to the same header or the same error
for all data, and it does not matter in which pieces a stream gives it out.
-/

namespace Rpm

/-! ### Streams in pieces -/

/-- Reads until there are `n` bytes, from a stream that gives out one piece after another. A read gives
no more than a piece has, what it leaves of one comes next, and a read that gives nothing is at the
end of the stream. -/
def readPieces : List ByteArray → Nat → Except StreamError (ByteArray × List ByteArray)
  | [], n => if n = 0 then .ok (ByteArray.empty, []) else .error .unexpectedEnd
  | piece :: pieces, n =>
    if n = 0 then .ok (ByteArray.empty, piece :: pieces)
    else if piece.isEmpty then .error .unexpectedEnd
    else if n < piece.size then .ok (piece.extract 0 n, piece.extract n piece.size :: pieces)
    else do
      let (bytes, left) ← readPieces pieces (n - piece.size)
      return (piece ++ bytes, left)

/-- Whether every read of a stream gives something, but for the one at its end. -/
def GivesSomething (pieces : List ByteArray) : Prop := ∀ piece ∈ pieces, piece ≠ ByteArray.empty

/-- What was read from a stream in pieces, and what is left of it as one. -/
def joined (r : ByteArray × List ByteArray) : ByteArray × Source := (r.1, Source.ofBytes (concat r.2))

variable {pieces left : List ByteArray} {n : Nat} {bytes : ByteArray}

lemma GivesSomething.of_readPieces (hpieces : GivesSomething pieces)
    (hread : readPieces pieces n = .ok (bytes, left)) : GivesSomething left := by
  induction pieces generalizing n bytes with
  | nil =>
    rw [readPieces] at hread
    split_ifs at hread
    obtain ⟨-, rfl⟩ := Prod.mk.inj (Except.ok.inj hread)
    exact hpieces
  | cons piece pieces ih =>
    obtain ⟨hpiece, hrest⟩ := List.forall_mem_cons.mp hpieces
    rw [readPieces] at hread
    split_ifs at hread with hn hempty hlt
    · obtain ⟨-, rfl⟩ := Prod.mk.inj (Except.ok.inj hread)
      exact hpieces
    · obtain ⟨-, rfl⟩ := Prod.mk.inj (Except.ok.inj hread)
      refine List.forall_mem_cons.mpr ⟨fun hnone => ?_, hrest⟩
      have hsize : (piece.extract n piece.size).size = piece.size - n :=
        size_extract_of_le (Nat.le_refl _)
      rw [hnone, ByteArray.size_empty] at hsize
      omega
    · obtain ⟨⟨bytes', left'⟩, hread', heq⟩ := bind_eq_ok_iff.mp hread
      obtain ⟨-, rfl⟩ := Prod.mk.inj (pure_eq_ok_iff.mp heq)
      exact ih hrest hread'

lemma Source.readExact_append_add (a rest : ByteArray) (failure : Option StreamError) (k : Nat) :
    Source.readExact ⟨a ++ rest, failure⟩ (a.size + k) =
      (Source.readExact ⟨rest, failure⟩ k).map fun (bytes, s) => (a ++ bytes, s) := by
  simp only [Source.readExact, Source.skip, ByteArray.size_append]
  by_cases hk : k ≤ rest.size
  · rw [if_pos hk, if_pos (Nat.add_le_add_left hk _), extract_append_add,
      ByteArray.extract_append_size_add]
    rfl
  · rw [if_neg hk, if_neg (by omega)]
    rfl

/-- **Pieces do not matter** to a reader that wants exactly so many bytes. -/
lemma readPieces_eq (hpieces : GivesSomething pieces) (n : Nat) :
    (readPieces pieces n).map joined = (Source.ofBytes (concat pieces)).readExact n := by
  have hzero : ∀ data, (Source.ofBytes data).readExact 0 =
      .ok (ByteArray.empty, Source.ofBytes data) := fun data => by
    have hread := Source.readExact_append (a := ByteArray.empty) (n := 0) data none rfl
    rwa [ByteArray.empty_append] at hread
  induction pieces generalizing n with
  | nil =>
    rw [readPieces]
    split_ifs with hn
    · rw [hn, hzero]
      rfl
    · have hshort : ¬n ≤ (concat []).size := by simpa using hn
      rw [Source.readExact, Source.ofBytes, if_neg hshort]
      rfl
  | cons piece pieces ih =>
    obtain ⟨hpiece, hrest⟩ := List.forall_mem_cons.mp hpieces
    rw [readPieces, concat_cons]
    split_ifs with hn hempty hlt
    · rw [hn, hzero, ← concat_cons]
      rfl
    · exact absurd (isEmpty_iff.mp hempty) hpiece
    · have hcut : piece.extract 0 n ++ piece.extract n piece.size = piece := by
        rw [extract_append_extract_of_le _ (Nat.zero_le n) (Nat.le_of_lt hlt),
          extract_of_size_le (Nat.le_refl _)]
      have hsize : n = (piece.extract 0 n).size := by
        rw [size_extract_of_le (Nat.le_of_lt hlt), Nat.sub_zero]
      have hread := Source.readExact_append (piece.extract n piece.size ++ concat pieces) none hsize
      rw [← ByteArray.append_assoc, hcut] at hread
      rw [Source.ofBytes, hread, ← concat_cons]
      rfl
    · obtain ⟨k, rfl⟩ := Nat.exists_eq_add_of_le (Nat.le_of_not_lt hlt)
      rw [Nat.add_sub_cancel_left, Source.ofBytes, Source.readExact_append_add, ← Source.ofBytes,
        ← ih hrest k]
      cases readPieces pieces k <;> rfl

namespace Header

variable {ns : Namespace} {data : ByteArray}

/-- Reads a section from a stream in pieces: the header, the section's bytes and what is left. -/
def readFromPieces (pieces : List ByteArray) :
    Except Error (Header ns × ByteArray × List ByteArray) := do
  let (prologue, pieces) ← (readPieces pieces 16).mapError (readError .prologue)
  let p ← Prologue.parse prologue
  let (rest, pieces) ←
    (readPieces pieces (p.sectionSize - 16)).mapError (readError .indexOrStore)
  let data := prologue ++ rest
  let header ← parse data
  return (header, data, pieces)

lemma readFromPieces_eq (hpieces : GivesSomething pieces) :
    (readFromPieces pieces : Except Error (Header ns × ByteArray × List ByteArray)).map
      (Prod.map id joined) = Header.read (Source.ofBytes (concat pieces)) := by
  rw [Header.read, ← readPieces_eq hpieces, readFromPieces]
  cases hfront : readPieces pieces 16 with
  | error e => rfl
  | ok front =>
    obtain ⟨prologue, left⟩ := front
    simp only [Except.map, Except.mapError, bind, Except.bind, joined]
    cases Prologue.parse prologue with
    | error e => rfl
    | ok p =>
      simp only [← readPieces_eq (hpieces.of_readPieces hfront)]
      cases readPieces left (p.sectionSize - 16) with
      | error e => rfl
      | ok back =>
        obtain ⟨rest, left⟩ := back
        simp only [Except.map, joined]
        cases (Header.parse (prologue ++ rest) : Except Error (Header ns)) <;> rfl

/-! ### Streams and data -/

lemma parse_of_prologue_error {e : Error} (hp : Prologue.parse data = .error e) :
    (Header.parse data : Except Error (Header ns)) = .error e := by
  rw [Header.parse, parseEntries, hp]
  rfl

lemma parse_of_short {p : Prologue} (hp : Prologue.parse data = .ok p)
    (hsize : data.size < sectionSize data) :
    (Header.parse data : Except Error (Header ns)) = .error (.headerTruncated .indexOrStore) := by
  rw [Header.parse, parseEntries_of_parse hp, if_pos hsize]
  rfl

lemma parse_extract_sectionSize (hsize : sectionSize data ≤ data.size) :
    (Header.parse (data.extract 0 (sectionSize data)) : Except Error (Header ns)) =
      Header.parse data := by
  rw [Header.parse, Header.parse, ← parseEntries_extract_append hsize ByteArray.empty,
    ByteArray.append_empty]

lemma sectionSize_le_of_parse {h : Header ns} (hparse : Header.parse data = .ok h) :
    sectionSize data ≤ data.size := by
  obtain ⟨entries, hentries, -⟩ := map_eq_ok_iff.mp hparse
  exact (parseEntries_eq_ok_iff.mp hentries).2.2.1

lemma readExact_front (h16 : 16 ≤ data.size) : (Source.ofBytes data).readExact 16 =
    .ok (data.extract 0 16, (Source.ofBytes data).skip 16) := if_pos h16

lemma read_of_prologue_error {e : Error} (h16 : 16 ≤ data.size)
    (hp : Prologue.parse data = .error e) :
    (Header.read (Source.ofBytes data) : Except Error (Header ns × ByteArray × Source)) =
      .error e := by
  unfold Header.read
  rw [readExact_front h16]
  simp only [Except.mapError, bind, Except.bind, Prologue.parse_extract h16, hp]

/-- A stream that ends behind a prologue, but not behind all that it says, is cut off there. -/
lemma read_of_short {p : Prologue} (h16 : 16 ≤ data.size) (hp : Prologue.parse data = .ok p)
    (hsize : data.size < sectionSize data) :
    (Header.read (Source.ofBytes data) : Except Error (Header ns × ByteArray × Source)) =
      .error (.headerTruncated .indexOrStore) := by
  have hleft : ((Source.ofBytes data).skip 16).rest.size = data.size - 16 :=
    size_extract_of_le (Nat.le_refl _)
  have hlt : ¬p.sectionSize - 16 ≤ ((Source.ofBytes data).skip 16).rest.size := by
    rw [hleft, Prologue.sectionSize_of_parse hp]
    omega
  have hback : ((Source.ofBytes data).skip 16).readExact (p.sectionSize - 16) =
      .error .unexpectedEnd := if_neg hlt
  unfold Header.read
  rw [readExact_front h16]
  simp only [Except.mapError, bind, Except.bind, Prologue.parse_extract h16, hp, hback]
  rfl

/-- A stream that holds a whole section gives it out, and what it holds if it can be read. -/
lemma read_of_sectionSize_le {p : Prologue} (hp : Prologue.parse data = .ok p)
    (hsize : sectionSize data ≤ data.size) :
    (Header.read (Source.ofBytes data) : Except Error (Header ns × ByteArray × Source)) =
      (Header.parse data).map fun h => (h, data.extract 0 (sectionSize data),
        Source.ofBytes (data.extract (sectionSize data) data.size)) := by
  have h16 := le_sectionSize data
  have hfront : (data.extract 0 (sectionSize data)).size = sectionSize data :=
    size_extract_of_le hsize
  have hjoin : data.extract 0 (sectionSize data) ++ data.extract (sectionSize data) data.size =
      data := by
    rw [extract_append_extract_of_le _ (Nat.zero_le _) hsize, extract_of_size_le (Nat.le_refl _)]
  have hprologue : Prologue.parse (data.extract 0 (sectionSize data)) = Prologue.parse data :=
    Prologue.parse_congr (Nat.le_trans h16 hsize) (Nat.le_trans h16 (Nat.le_of_eq hfront.symm))
      (extract_extract_of_le _ (by omega))
  have hread := @read_append ns _ _ (hprologue.trans hp)
    (hfront.trans (Prologue.sectionSize_of_parse hp).symm)
    (data.extract (sectionSize data) data.size) none
  rwa [hjoin, parse_extract_sectionSize hsize] at hread

/-- **Reading from a stream** is reading the data that it gives out. -/
lemma read_eq (data : ByteArray) :
    (Header.read (Source.ofBytes data) : Except Error (Header ns × ByteArray × Source)) =
      (Header.parse data).map fun h => (h, data.extract 0 (sectionSize data),
        Source.ofBytes (data.extract (sectionSize data) data.size)) := by
  by_cases h16 : 16 ≤ data.size
  · cases hp : Prologue.parse data with
    | error e =>
      rw [read_of_prologue_error h16 hp, parse_of_prologue_error hp]
      rfl
    | ok p =>
      rcases Nat.lt_or_ge data.size (sectionSize data) with hsize | hsize
      · rw [read_of_short h16 hp hsize, parse_of_short hp hsize]
        rfl
      · exact read_of_sectionSize_le hp hsize
  · have hfront : (Source.ofBytes data).readExact 16 = .error .unexpectedEnd := if_neg h16
    have hp : Prologue.parse data = .error (.headerTruncated .prologue) :=
      if_pos (Nat.lt_of_not_le h16)
    rw [parse_of_prologue_error hp, Header.read, hfront]
    rfl

/-- **Streams and data hold the same headers.** Reading a section from a stream and from the data that
the stream gives out succeed together, with the same entries, and fail with the same error. The bytes
that come with the header are those of the section and hold it on their own, and what is behind them
is left in the stream. It does not matter in which pieces the stream comes. -/
theorem read_eq_parse {ns : Namespace} (data : ByteArray) :
    (Header.read (Source.ofBytes data) : Except Error (Header ns × ByteArray × Source)) =
      (Header.parse data).map (fun h => (h, data.extract 0 (sectionSize data),
        Source.ofBytes (data.extract (sectionSize data) data.size))) ∧
    (∀ h : Header ns, Header.parse data = .ok h →
      sectionSize data ≤ data.size ∧ Header.parse (data.extract 0 (sectionSize data)) = .ok h) ∧
    ∀ pieces, GivesSomething pieces → concat pieces = data →
      (readFromPieces pieces : Except Error (Header ns × ByteArray × List ByteArray)).map
        (Prod.map id joined) = Header.read (Source.ofBytes data) := by
  refine ⟨read_eq data, fun h hparse => ?_, fun pieces hpieces hconcat => ?_⟩
  · have hsize := sectionSize_le_of_parse hparse
    exact ⟨hsize, (parse_extract_sectionSize hsize).trans hparse⟩
  · rw [← hconcat]
    exact readFromPieces_eq hpieces

/-- A section with two bytes behind it, in pieces that end in its prologue and behind it. -/
def overlappingPieces : List ByteArray :=
  [overlapping.extract 0 7, overlapping.extract 7 101 ++ ⟨#[1]⟩, ⟨#[2]⟩]

lemma concat_overlappingPieces : concat overlappingPieces = overlapping ++ ⟨#[1, 2]⟩ := by
  have hsize : overlapping.size = 101 := by decide +kernel
  have hwhole := extract_of_size_le (Nat.le_of_eq hsize)
  rw [overlappingPieces, concat_cons, concat_cons, concat_cons, concat_nil, ByteArray.append_assoc,
    ← ByteArray.append_assoc, extract_append_extract_of_le _ (by decide) (by decide), hwhole]
  rfl

theorem read_eq_parse_overlapping :
    (readFromPieces overlappingPieces :
      Except Error (Header .metadata × ByteArray × List ByteArray)).map (Prod.map id joined) =
        .ok (⟨overlappingEntries⟩, overlapping, Source.ofBytes ⟨#[1, 2]⟩) ∧
      Header.parse overlapping = .ok (⟨overlappingEntries⟩ : Header .metadata) := by
  have hsize : sectionSize overlapping = overlapping.size ∧
      sectionSize (overlapping ++ ⟨#[1, 2]⟩) = overlapping.size := by decide +kernel
  have hpieces : GivesSomething overlappingPieces := by
    unfold GivesSomething
    decide +kernel
  have hentries : parseEntries (overlapping ++ ⟨#[1, 2]⟩) 63 = .ok overlappingEntries := by
    have hfront := @parseEntries_extract_append _ 63 (Nat.le_of_eq hsize.1) ⟨#[1, 2]⟩
    rwa [hsize.1, extract_of_size_le (Nat.le_refl _), parseEntries_overlapping] at hfront
  have hparse : Header.parse (overlapping ++ ⟨#[1, 2]⟩) =
      .ok (⟨overlappingEntries⟩ : Header .metadata) := map_eq_ok_iff.mpr ⟨_, hentries, rfl⟩
  have hfront : (overlapping ++ ⟨#[1, 2]⟩).extract 0 overlapping.size = overlapping :=
    ByteArray.extract_append_eq_left rfl
  have hback : (overlapping ++ ⟨#[1, 2]⟩).extract overlapping.size
      (overlapping ++ ⟨#[1, 2]⟩).size = ⟨#[1, 2]⟩ := extract_size_append ByteArray.size_append
  obtain ⟨hread, hsection, hsame⟩ := @read_eq_parse .metadata (overlapping ++ ⟨#[1, 2]⟩)
  rw [hparse, hsize.2, hfront, hback] at hread
  rw [hsize.2, hfront] at hsection
  exact ⟨(hsame _ hpieces concat_overlappingPieces).trans hread, (hsection _ hparse).2⟩

end Header

end Rpm

import Rpm.Proofs.Archive.Building

/-!
Archives that end too early.

A cut falls within one member, or within the trailer. All members in front of it are found as they
were. If so little is left of the one with the cut that its magic number is not whole, the archive
seems to end there; else the header cannot be read, or its data is short and the step over it fails.
That needs the field for the size of a name to say the truth, as it does for all names that it can
count.
-/

namespace Rpm.Archive

/-! ### One member -/

lemma MemberHeader.exists_consumes {h : MemberHeader} (hl : h.Legible) :
    ∃ bytes, h.bytes = magic ++ bytes ∧ Consumes MemberHeader.read bytes h := by
  obtain ⟨bytes, hbytes, hconsumes⟩ :=
    MemberHeader.sequential_read _ _ _ (MemberHeader.read_bytes hl ByteArray.empty none)
  simp only [ByteArray.append_empty] at hbytes
  exact ⟨bytes, by rw [h.bytes_eq, (Source.mk.inj hbytes).1], hconsumes⟩

lemma MemberHeader.extract_bytes (h : MemberHeader) : h.bytes.extract 0 headerSize =
    magic ++ concat (h.fields.map fun n => (fieldText n).toUTF8) := by
  have hmagic : magic.size = 6 := by decide +kernel
  rw [h.bytes_eq, ← ByteArray.append_assoc]
  refine ByteArray.extract_append_eq_left ?_
  rw [ByteArray.size_append, size_concat_map _ size_fieldText, hmagic]
  rfl

namespace Cursor

variable {c : Cursor} {h : MemberHeader} {m : Member} {members : List Member} {k : Nat}

lemma enter_cut (hl : h.Legible) (hk : k < h.bytes.size) :
    enter (Source.ofBytes (h.bytes.extract 0 k)) =
      (.closed, if k < 6 then .ok none else .error (.stream .unexpectedEnd)) := by
  obtain ⟨bytes, hbytes, hconsumes⟩ := MemberHeader.exists_consumes hl
  have hmagic : 6 = magic.size := by decide +kernel
  by_cases h6 : k < 6
  · have hshort : ¬6 ≤ (h.bytes.extract 0 k).size := by
      rw [ByteArray.size_extract]
      omega
    have hread : (Source.ofBytes (h.bytes.extract 0 k)).readExact 6 = .error .unexpectedEnd :=
      if_neg hshort
    simp only [enter, hread, if_pos h6]
  · obtain ⟨j, rfl⟩ := Nat.exists_eq_add_of_le (Nat.le_of_not_lt h6)
    have hj : j < bytes.size := by
      rw [hbytes, ByteArray.size_append] at hk
      omega
    have hcut : h.bytes.extract 0 (6 + j) = magic ++ bytes.extract 0 j := by
      rw [hbytes, hmagic, extract_append_add]
    simp only [Source.ofBytes, hcut, enter_magic, hconsumes.truncated j hj, Option.getD_none,
      if_neg h6]

lemma readAll_of_failure {s : Source} (hs : s.failure = none) (remaining padding : Nat) :
    (within s remaining padding).readAll =
      (.within (s.skip (min remaining s.rest.size)) (remaining - min remaining s.rest.size) padding,
        .ok (s.rest.extract 0 remaining)) := by
  simp only [readAll, Source.readAll, Source.take, hs, ite_self]

lemma next_of_short {s : Source} {remaining padding : Nat} (hs : s.failure = none)
    (hshort : s.rest.size < remaining + padding) :
    (within (s.skip (min remaining s.rest.size)) (remaining - min remaining s.rest.size)
      padding).next = (.closed, .error (.stream .unexpectedEnd)) := by
  refine next_of_finish_error ?_
  rw [finish_skip (Nat.min_le_left _ _) (Nat.min_le_right _ _), finish_within_eq,
    if_neg (Nat.not_le_of_lt hshort), hs, Option.getD_none]

lemma members_of_enter_error {s : Source} {e : ArchiveError} (h : (enter s).2 = .error e) :
    (ofSource s).members = .error (.header e) :=
  members_eq_iff.mpr (.badHeader ((next_of_finish rfl).trans (Prod.ext rfl h)))

lemma reads_of_enter_cut (hl : h.Legible) (hk : k < h.bytes.size)
    (hc : c.finish = (.between (Source.ofBytes (h.bytes.extract 0 k)), .ok ())) :
    Reads c (if k < 6 then .ok [] else .error (.header (.stream .unexpectedEnd))) := by
  have hnext := next_of_finish hc
  rw [enter_cut hl hk] at hnext
  split_ifs at hnext ⊢
  · exact .done hnext
  · exact .badHeader hnext

/-- **A member that is cut off** is not found, or makes the reading fail. -/
lemma reads_cut (hm : m.Sound) (hk : k < m.bytes.size)
    (hc : c.finish = (.between (Source.ofBytes (m.bytes.extract 0 k)), .ok ())) :
    Reads c (if k < 6 then .ok [] else .error (.header (.stream .unexpectedEnd))) := by
  rcases Nat.lt_or_ge k m.header.bytes.size with hlt | hge
  · rw [Member.bytes, extract_append_of_le _ (Nat.le_of_lt hlt)] at hc
    exact reads_of_enter_cut hm.legible hlt hc
  · obtain ⟨j, rfl⟩ := Nat.exists_eq_add_of_le hge
    have hheader := m.header.headerSize_lt_size_bytes
    have h6 : ¬m.header.bytes.size + j < 6 := by
      rw [headerSize] at hheader
      omega
    rw [if_neg h6]
    -- The header is found, and what is left of the data is read without an error.
    have hnext := next_of_finish hc
    rw [Member.bytes, extract_append_add, Source.ofBytes, enter_bytes hm.legible,
      if_neg hm.name_ne] at hnext
    refine .member hnext (readAll_of_failure rfl _ _) (.badHeader (next_of_short rfl ?_))
    rw [Member.bytes, ByteArray.size_append, ByteArray.size_append, size_replicateByte,
      hm.size_eq] at hk
    rw [ByteArray.size_extract]
    omega

end Cursor

/-! ### All members -/

/-- How many bytes there are in front of a member with this index, or in front of the trailer. -/
def start (members : List Member) (j : Nat) : Nat :=
  (concat ((members.take j).map Member.bytes)).size

lemma start_zero (members : List Member) : start members 0 = 0 := rfl

lemma start_succ (m : Member) (members : List Member) (j : Nat) :
    start (m :: members) (j + 1) = m.bytes.size + start members j := by
  simp only [start, List.take_succ_cons, List.map_cons, concat_cons, ByteArray.size_append]

/-- **What may come of reading an archive that is cut off** behind so many bytes. -/
structure CutsTo (members : List Member) (k : Nat) (r : Except MembersError (List Member)) :
    Prop where
  eq_or : r = .error (.header (.stream .unexpectedEnd)) ∨
    ∃ j ≤ members.length, r = .ok (members.take j)
  eq_ok_iff : ∀ j ≤ members.length,
    (r = .ok (members.take j) ↔ start members j ≤ k ∧ k < start members j + 6)

variable {m : Member} {members : List Member} {k : Nat}

lemma cutsTo_first (hfirst : ∀ j < members.length, k < start members (j + 1)) :
    CutsTo members k (if k < 6 then .ok [] else .error (.header (.stream .unexpectedEnd))) := by
  have hzero : members.take 0 = [] := rfl
  constructor
  · split_ifs
    · exact .inr ⟨0, Nat.zero_le _, rfl⟩
    · exact .inl rfl
  · intro j hj
    cases j with
    | zero => split_ifs with h6 <;> simp [start_zero, h6]
    | succ j =>
      have hlt := hfirst j hj
      have hne : members.take (j + 1) ≠ [] := by
        rw [← List.length_pos_iff, List.length_take]
        omega
      split_ifs <;> simp [Nat.not_le_of_lt hlt, hne.symm]

lemma CutsTo.cons {r : Except MembersError (List Member)} (h : CutsTo members k r) :
    CutsTo (m :: members) (m.bytes.size + k) (r.map (m :: ·)) := by
  constructor
  · rcases h.eq_or with rfl | ⟨j, hj, rfl⟩
    · exact .inl rfl
    · exact .inr ⟨j + 1, Nat.succ_le_succ hj, rfl⟩
  · intro j hj
    cases j with
    | zero =>
      have hlarge := m.headerSize_lt_size_bytes
      rw [headerSize] at hlarge
      rw [map_eq_ok_iff, start_zero]
      simp
      omega
    | succ j =>
      have hmap : r.map (m :: ·) = .ok ((m :: members).take (j + 1)) ↔
          r = .ok (members.take j) := by
        rw [map_eq_ok_iff]
        simp
      rw [hmap, h.eq_ok_iff j (Nat.le_of_succ_le_succ hj), start_succ]
      omega

/-- **Members in front of a cut** are found, and then the reading ends. -/
lemma Cursor.exists_reads_cut {c : Cursor} (hm : ∀ m ∈ members, m.Sound)
    (hk : k < (archiveBytes members).size)
    (hc : c.finish = (.between (Source.ofBytes ((archiveBytes members).extract 0 k)), .ok ())) :
    ∃ r, c.Reads r ∧ CutsTo members k r := by
  induction members generalizing c k with
  | nil =>
    rw [archiveBytes, List.map_nil, concat_nil, ByteArray.empty_append] at hk hc
    exact ⟨_, reads_of_enter_cut legible_trailer hk hc,
      cutsTo_first fun j hj => absurd hj (Nat.not_lt_zero j)⟩
  | cons m members ih =>
    have hbytes : archiveBytes (m :: members) = m.bytes ++ archiveBytes members := by
      simp only [archiveBytes, List.map_cons, concat_cons, ByteArray.append_assoc]
    rw [hbytes] at hk hc
    rcases Nat.lt_or_ge k m.bytes.size with hlt | hge
    · rw [extract_append_of_le _ (Nat.le_of_lt hlt)] at hc
      refine ⟨_, reads_cut (hm m (by simp)) hlt hc, cutsTo_first fun j _ => ?_⟩
      rw [start_succ]
      omega
    · obtain ⟨k, rfl⟩ := Nat.exists_eq_add_of_le hge
      rw [extract_append_add] at hc
      obtain ⟨entered, left, hnext, hread, hleft⟩ := exists_step (hm m (by simp)) hc
      rw [ByteArray.size_append] at hk
      obtain ⟨r, hr, hcuts⟩ := ih (fun m' hm' => hm m' (by simp [hm'])) (by omega) hleft
      exact ⟨_, .member hnext hread hr, hcuts.cons⟩

namespace Builder

variable {sink : Sink} {drafts : List Draft}

/-- **Archives that are cut off.** Of an archive that was built without an error, of members whose
names are not the trailer's and short enough for the field that says their size, every strict prefix
gives the first members as they were, or an error that says that it ends too early; and it gives the
first `j` members exactly if it ends where the next one, or the trailer, starts, or fewer than six
bytes behind. -/
theorem members_of_prefix (built : ({ sink } : Builder Sink).Builds drafts)
    (names : ∀ d ∈ drafts, d.header.name ≠ trailerName ∧ d.header.name.utf8ByteSize + 1 < 2 ^ 32) :
    let b : Builder Sink := { sink }
    ∃ archive, (b.appendAll drafts).finish.1.sink.accepted = sink.accepted ++ archive ∧
      ∀ k < archive.size,
        let r := (Cursor.ofSource (Source.ofBytes (archive.extract 0 k))).members
        (r = .error (.header (.stream .unexpectedEnd)) ∨
          ∃ j ≤ drafts.length, r = .ok ((drafts.take j).map Draft.member)) ∧
        ∀ j ≤ drafts.length, (r = .ok ((drafts.take j).map Draft.member) ↔
          (b.appendAll (drafts.take j)).offset ≤ k ∧
            k < (b.appendAll (drafts.take j)).offset + 6) := by
  intro b
  have sound : ∀ m ∈ drafts.map Draft.member, m.Sound := by
    intro m hm
    obtain ⟨d, hd, rfl⟩ := List.mem_map.mp hm
    obtain ⟨hnul, hsize⟩ := built.of_mem hd
    obtain ⟨hname, hlt⟩ := names d hd
    exact Draft.Sound.member ⟨⟨hnul, hlt⟩, hname, hsize⟩
  have hoffset : ∀ j, (b.appendAll (drafts.take j)).offset =
      start (drafts.map Draft.member) j := fun j => (built.offset_take j).trans (Nat.zero_add _)
  refine ⟨_, built.accepted_eq, fun k hk => ?_⟩
  obtain ⟨r, hr, hends, hiff⟩ := Cursor.exists_reads_cut sound hk (c := Cursor.ofSource _) rfl
  rw [List.length_map] at hends hiff
  simp only [Cursor.members_eq_iff.mpr hr, List.map_take, hoffset]
  exact ⟨hends, hiff⟩

def twoDrafts : List Draft := [
  ⟨MemberHeader.file "a" 0o644 5, Source.ofBytes "hello".toUTF8⟩,
  ⟨MemberHeader.file "b" 0o644 0, Source.ofBytes ByteArray.empty⟩]

theorem members_of_prefix_twoDrafts :
    let b : Builder Sink := { sink := {} }
    b.Builds twoDrafts ∧
    ∃ archive, (b.appendAll twoDrafts).finish.1.sink.accepted = ByteArray.empty ++ archive ∧
      ∀ k < archive.size, (Cursor.ofSource (Source.ofBytes (archive.extract 0 k))).members =
          .ok ((twoDrafts.take 1).map Draft.member) ↔
        (b.appendAll (twoDrafts.take 1)).offset ≤ k ∧
          k < (b.appendAll (twoDrafts.take 1)).offset + 6 := by
  have sound : ∀ d ∈ twoDrafts, d.Sound := by
    intro d hd
    simp only [twoDrafts, List.mem_cons, List.not_mem_nil, or_false] at hd
    rcases hd with rfl | rfl <;>
      exact ⟨⟨by decide +kernel, by decide +kernel⟩, by decide +kernel, by decide +kernel⟩
  have built := builds_of_limit (b := { sink := {} }) rfl rfl sound
  obtain ⟨archive, haccepted, hcut⟩ :=
    members_of_prefix built fun d hd => ⟨(sound d hd).name_ne, (sound d hd).legible.size_lt⟩
  exact ⟨built, archive, haccepted, fun k hk => (hcut k hk).2 1 (by decide)⟩

/-! ### Names that are too long -/

/-- A name of so many letters. -/
def longName (n : Nat) : String := String.ofList (List.replicate n 'a')

/-- An empty file with a name of so many letters. -/
def longDraft (n : Nat) : Draft := ⟨{ name := longName n }, Source.ofBytes ByteArray.empty⟩

lemma toList_toUTF8_longName (n : Nat) :
    (longName n).toUTF8.data.toList = List.replicate n (byteOf 'a') := by
  have hascii : ∀ c ∈ List.replicate n 'a', c.toNat < 128 := by
    intro c hc
    rw [List.eq_of_mem_replicate hc]
    decide
  rw [toList_toUTF8, longName, String.toList_ofList, utf8Bytes_eq_map hascii, List.map_replicate]

lemma utf8ByteSize_longName (n : Nat) : (longName n).utf8ByteSize = n := by
  have hlength := congrArg List.length (toList_toUTF8_longName n)
  rw [List.length_replicate, Array.length_toList] at hlength
  exact hlength

lemma holdsNul_longName (n : Nat) : holdsNul (longName n) = false := by
  rw [holdsNul, Bool.eq_false_iff, ne_eq, Array.contains_iff_mem, ← Array.mem_toList_iff,
    toList_toUTF8_longName]
  intro hzero
  exact absurd (List.eq_of_mem_replicate hzero) (by decide)

lemma builds_longDraft (n : Nat) : ({ sink := {} } : Builder Sink).Builds [longDraft n] := by
  have unbounded : ({} : Sink).limit = none := rfl
  have happend : ({ sink := {} } : Builder Sink).append (longDraft n).header (longDraft n).source =
      _ := append_of_limit unbounded (holdsNul_longName n) (Nat.zero_le _)
  constructor
  · intro before d after hsplit
    obtain ⟨rfl, rfl⟩ : before = [] ∧ d = longDraft n := by
      cases before with
      | nil => exact ⟨rfl, (List.cons.inj hsplit).1.symm⟩
      | cons => simp at hsplit
    exact ⟨_, congrArg Prod.snd happend⟩
  · rw [appendAll, List.foldl_cons, List.foldl_nil, happend, finish_of_limit]
    · rfl
    · rfl

/-- The field for the size of a name wraps around, so that a reader takes the name for one without
even its zero byte. -/
lemma read_of_size_eq {h : MemberHeader} (hsize : h.name.utf8ByteSize + 1 = 2 ^ 32)
    (failure : Option StreamError) :
    MemberHeader.read ⟨concat (h.fields.map fun n => (fieldText n).toUTF8), failure⟩ =
      .error .nameNotText := by
  have hfields : readFields 13 ⟨concat (h.fields.map fun n => (fieldText n).toUTF8), failure⟩ =
      .ok (h.fields.map UInt32.ofNat, ⟨ByteArray.empty, failure⟩) := by
    have hread := readFields_concat (spells_map h.fields) ByteArray.empty failure
    rwa [ByteArray.append_empty, List.length_map, List.map_map] at hread
  have hzero : (h.fields.map UInt32.ofNat).getD 11 0 = 0 := by
    show UInt32.ofNat (h.name.utf8ByteSize + 1) = 0
    rw [hsize]
    rfl
  rw [MemberHeader.read_eq, hfields]
  show MemberHeader.readName _ _ = _
  unfold MemberHeader.readName
  rw [hzero]
  rfl

lemma members_longDraft {n : Nat} (hn : n + 1 = 2 ^ 32) :
    (Cursor.ofSource (Source.ofBytes
      ((archiveBytes [(longDraft n).member]).extract 0 headerSize))).members =
        .error (.header .nameNotText) := by
  have hle := Nat.le_of_lt (longDraft n).member.header.headerSize_lt_size_bytes
  have hsize : (longDraft n).member.header.name.utf8ByteSize + 1 = 2 ^ 32 :=
    (congrArg (· + 1) (utf8ByteSize_longName n)).trans hn
  refine Cursor.members_of_enter_error ?_
  rw [archiveBytes, List.map_cons, concat_cons, Member.bytes, ByteArray.append_assoc,
    ByteArray.append_assoc, extract_append_of_le _ hle, MemberHeader.extract_bytes, Source.ofBytes,
    Cursor.enter_magic, read_of_size_eq hsize]

theorem members_of_prefix_longDraft :
    let d := longDraft (2 ^ 32 - 1)
    let b : Builder Sink := { sink := {} }
    b.Builds [d] ∧ holdsNul d.header.name = false ∧ d.header.name ≠ trailerName ∧
    ∃ archive, (b.appendAll [d]).finish.1.sink.accepted = ByteArray.empty ++ archive ∧
      headerSize < archive.size ∧
      (Cursor.ofSource (Source.ofBytes (archive.extract 0 headerSize))).members =
        .error (.header .nameNotText) := by
  have hname : (longName (2 ^ 32 - 1)).utf8ByteSize ≠ trailerName.utf8ByteSize := by
    rw [utf8ByteSize_longName]
    decide
  have built := builds_longDraft (2 ^ 32 - 1)
  refine ⟨built, holdsNul_longName _, fun h => hname (congrArg _ h), _, built.accepted_eq, ?_,
    members_longDraft (by decide)⟩
  have hlarge := (longDraft (2 ^ 32 - 1)).member.headerSize_lt_size_bytes
  rw [archiveBytes, List.map_cons, List.map_cons, concat_cons, ByteArray.size_append,
    ByteArray.size_append]
  omega

end Builder

end Rpm.Archive

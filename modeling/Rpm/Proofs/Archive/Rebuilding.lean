import Rpm.Proofs.Archive.Building

/-!
Archives made anew of the members of others.

However an archive is spelled, a member that is read of it is sound: its header has a name that can
be written, since it was read as one, and that is not the trailer's, since there the reading ends; and
all of its data was there, since otherwise the next step would have failed. So a builder takes all
members that were read, and the same ones are read of what it writes.
-/

namespace Rpm.Archive

namespace Cursor

variable {c c' entered left : Cursor} {header : MemberHeader} {data : ByteArray}
  {members : List Member}

lemma finish_of_next {r : Option MemberHeader} (h : c.next = (c', .ok r)) :
    ∃ front, c.finish = (front, .ok ()) := by
  rcases hfinish : c.finish with ⟨front, _ | _⟩
  · simp [next_of_finish_error hfinish] at h
  · exact ⟨front, rfl⟩

lemma Reads.finish_eq (h : Reads c (.ok members)) : ∃ front, c.finish = (front, .ok ()) := by
  generalize hr : Except.ok members = r at h
  cases h with
  | done next | member next => exact finish_of_next next
  | badHeader | badData => contradiction

lemma sound_of_readAll (hnext : c.next = (entered, .ok (some header)))
    (hread : entered.readAll = (left, .ok data)) {front : Cursor}
    (hleft : left.finish = (front, .ok ())) : Member.Sound ⟨header, data⟩ := by
  obtain ⟨s, body, bytes, -, henters, rfl⟩ := exists_enters_of_next hnext
  obtain ⟨rfl, hdata⟩ := Prod.mk.inj hread
  refine ⟨henters.legible, henters.name_ne, ?_⟩
  -- Data that is missing in the source would be missed on leaving the member.
  have hle : header.fileSize.toNat ≤ body.rest.size := by
    rw [finish_skip (Nat.min_le_left _ _) (Nat.min_le_right _ _), finish_within_eq] at hleft
    split_ifs at hleft with hsize
    · omega
    · simp at hleft
  simp only [Source.take, Source.readAll, if_pos hle] at hdata
  rw [← Except.ok.inj hdata, ByteArray.size_extract]
  exact Nat.min_eq_left hle

/-- **Members that are read are sound.** -/
lemma Reads.sound (h : Reads c (.ok members)) : ∀ m ∈ members, m.Sound := by
  generalize hr : Except.ok members = r at h
  induction h generalizing members with
  | done next =>
    obtain rfl := Except.ok.inj hr
    simp
  | badHeader | badData => contradiction
  | member next readAll rest ih =>
    obtain ⟨members', rfl, rfl⟩ := map_eq_ok_iff.mp hr.symm
    obtain ⟨front, hfront⟩ := rest.finish_eq
    intro m hm
    rcases List.mem_cons.mp hm with rfl | hm
    · exact sound_of_readAll next readAll hfront
    · exact ih rfl m hm

end Cursor

/-- The draft of a member that is there already. -/
def Member.draft (m : Member) : Draft := ⟨m.header, Source.ofBytes m.data⟩

namespace Member.Sound

variable {m : Member}

lemma draft (h : m.Sound) : m.draft.Sound := ⟨h.legible, h.name_ne, Nat.le_of_eq h.size_eq.symm⟩

lemma member_draft (h : m.Sound) : m.draft.member = m := by
  have hdata : m.data.extract 0 m.header.fileSize.toNat = m.data :=
    extract_of_size_le (Nat.le_of_eq h.size_eq)
  exact congrArg (Member.mk m.header) hdata

end Member.Sound

namespace Builder

/-- **Archives made anew.** If all members of a source can be read, however they are spelled and
padded and whether or not there is a trailer, then a builder makes an archive of them without an
error, and the same members are read of it. -/
theorem builds_members {s : Source} {members : List Member} {sink : Sink}
    (read : (Cursor.ofSource s).members = .ok members) (unbounded : sink.limit = none)
    (flushes : sink.flushFails = false) :
    ({ sink } : Builder Sink).Builds (members.map Member.draft) ∧
    ∃ archive, (({ sink } : Builder Sink).appendAll
        (members.map Member.draft)).finish.1.sink.accepted = sink.accepted ++ archive ∧
      (Cursor.ofSource (Source.ofBytes archive)).members = .ok members := by
  have sound := (Cursor.members_eq_iff.mp read).sound
  have drafts : ∀ d ∈ members.map Member.draft, d.Sound := by
    intro d hd
    obtain ⟨m, hm, rfl⟩ := List.mem_map.mp hd
    exact (sound m hm).draft
  have same : (members.map Member.draft).map Draft.member = members := by
    rw [List.map_map]
    exact (List.map_congr_left fun m hm => (sound m hm).member_draft).trans (List.map_id _)
  have built := builds_of_limit (b := { sink }) unbounded flushes drafts
  have haccepted := built.accepted_eq
  rw [same] at haccepted
  exact ⟨built, archiveBytes members, haccepted, Cursor.members_archiveBytes sound⟩

/-- The fields of a header, spelled with plus signs and digits of either case. -/
def oddFields : List String :=
  ["0000000A", "+00081A4", "0000aBcD", "00000000", "+0000001", "00000000", "+0000005", "00000000",
    "00000000", "00000000", "00000000", "+0000003", "00000000"]

def oddNumbers : List UInt32 := [10, 0o100644, 0xabcd, 0, 1, 0, 5, 0, 0, 0, 0, 3, 0]

/-- A member in this spelling whose padding is not zero, and no trailer behind it. -/
def oddSource : Source := Source.ofBytes <|
  magic ++ (concat (oddFields.map String.toUTF8) ++ (terminated "ab" ++ ("???".toUTF8 ++
    ("hello".toUTF8 ++ "###".toUTF8))))

lemma members_oddSource : (Cursor.ofSource oddSource).members =
    .ok [⟨MemberHeader.ofNumbers oddNumbers "ab", "hello".toUTF8⟩] := by
  have hspells : List.Forall₂ Spells oddFields oddNumbers := by
    refine List.forall₂_iff_zip.mpr ⟨rfl, fun {text n} hmem => ?_⟩
    have hall : ∀ p ∈ oddFields.zip oddNumbers,
        p.1.toUTF8.size = 8 ∧ ofFieldText? p.1 = some p.2 := by
      decide +kernel
    exact hall (text, n) hmem
  have hread : MemberHeader.read ⟨concat (oddFields.map String.toUTF8) ++ (terminated "ab" ++
      ("???".toUTF8 ++ ("hello".toUTF8 ++ "###".toUTF8))), none⟩ =
        .ok (MemberHeader.ofNumbers oddNumbers "ab", ⟨"hello".toUTF8 ++ "###".toUTF8, none⟩) :=
    MemberHeader.read_of_spells rfl hspells (by decide +kernel) (by decide +kernel)
      (by decide +kernel) _ none
  have hnext : (Cursor.ofSource oddSource).next =
      (.within ⟨"hello".toUTF8 ++ "###".toUTF8, none⟩ 5 3,
        .ok (some (MemberHeader.ofNumbers oddNumbers "ab"))) := by
    rw [Cursor.next_of_finish (s := oddSource) rfl, oddSource, Source.ofBytes, Cursor.enter_magic,
      hread]
    exact if_neg (by decide)
  have hlast : (Cursor.within ⟨"###".toUTF8, none⟩ 0 3).next.2 = .ok none := by decide +kernel
  exact Cursor.members_eq_iff.mpr (.member hnext
    (Cursor.readAll_within (by decide +kernel) "###".toUTF8 3) (.done (Prod.ext rfl hlast)))

theorem builds_members_oddSource :
    (Cursor.ofSource oddSource).members =
      .ok [⟨MemberHeader.ofNumbers oddNumbers "ab", "hello".toUTF8⟩] ∧
    ({ sink := {} } : Builder Sink).Builds
      [⟨MemberHeader.ofNumbers oddNumbers "ab", Source.ofBytes "hello".toUTF8⟩] ∧
    ∃ archive, (({ sink := {} } : Builder Sink).appendAll [⟨MemberHeader.ofNumbers oddNumbers "ab",
        Source.ofBytes "hello".toUTF8⟩]).finish.1.sink.accepted = ByteArray.empty ++ archive ∧
      (Cursor.ofSource (Source.ofBytes archive)).members =
        .ok [⟨MemberHeader.ofNumbers oddNumbers "ab", "hello".toUTF8⟩] := by
  have unbounded : ({} : Sink).limit = none := rfl
  exact ⟨members_oddSource, builds_members members_oddSource unbounded rfl⟩

end Builder

end Rpm.Archive

import Mathlib.Logic.Function.Iterate
import Rpm.Archive.Builder
import Rpm.Proofs.Archive.Cursor

/-!
Archives read back member by member.

What a builder writes of a member is its header, its data and zeros up to a multiple of four bytes
(`Member.bytes`). A cursor in front of such bytes finds the header, then the data, and then steps over
the zeros to what follows. So it goes through all members, whatever their data looks like, and stops
at the trailer, whatever follows that.
-/

namespace Rpm.Archive

/-! ### Members -/

namespace Member

def bytes (m : Member) : ByteArray :=
  m.header.bytes ++ (m.data ++ replicateByte (paddingFor 4 m.data.size) 0)

/-- Whether a member is read back from its bytes. -/
structure Sound (m : Member) : Prop where
  legible : m.header.Legible
  name_ne : m.header.name ≠ trailerName
  size_eq : m.data.size = m.header.fileSize.toNat

lemma dvd_size_bytes (m : Member) : 4 ∣ m.bytes.size := by
  rw [bytes, ByteArray.size_append, ByteArray.size_append, size_replicateByte]
  exact Nat.dvd_add m.header.dvd_size_bytes (dvd_add_paddingFor (by decide) m.data.size)

lemma headerSize_lt_size_bytes (m : Member) : headerSize < m.bytes.size := by
  have := m.header.headerSize_lt_size_bytes
  rw [bytes, ByteArray.size_append]
  omega

end Member

/-- The bytes of an archive with the given members. -/
def archiveBytes (members : List Member) : ByteArray :=
  concat (members.map Member.bytes) ++ MemberHeader.trailer.bytes

/-! ### Reading -/

namespace Cursor

/-- Whether a cursor gives members with their data, one after another, and then stands as `last`
does. -/
inductive Yields : Cursor → List Member → Cursor → Prop
  | nil (c : Cursor) : Yields c [] c
  | cons {c entered left last : Cursor} {header : MemberHeader} {data : ByteArray}
      {members : List Member} (next : c.next = (entered, .ok (some header)))
      (readAll : entered.readAll = (left, .ok data)) (rest : Yields left members last) :
      Yields c (⟨header, data⟩ :: members) last

/-- Whether there is no member from here on, however often one is asked for. -/
def Exhausted (c : Cursor) : Prop := ∀ k, ((fun c => c.next.1)^[k] c).next.2 = .ok none

variable {c : Cursor} {h : MemberHeader} {m : Member} {members : List Member}
  {failure : Option StreamError}

lemma enter_bytes (hl : h.Legible) (rest : ByteArray) :
    enter ⟨h.bytes ++ rest, failure⟩ =
      if h.name = trailerName then (.closed, .ok none)
      else (.within ⟨rest, failure⟩ h.fileSize.toNat (paddingFor 4 h.fileSize.toNat),
        .ok (some h)) := by
  rw [h.bytes_eq, ByteArray.append_assoc, enter_magic]
  simp only [ByteArray.append_assoc, MemberHeader.read_bytes hl]

lemma readAll_within {data : ByteArray} {size : Nat} (hsize : size = data.size)
    (rest : ByteArray) (padding : Nat) :
    (within ⟨data ++ rest, failure⟩ size padding).readAll =
      (.within ⟨rest, failure⟩ 0 padding, .ok data) := by
  have hle : size ≤ (data ++ rest).size := by
    rw [ByteArray.size_append]
    omega
  simp only [readAll, Source.take, Source.readAll, Nat.min_eq_left hle, if_pos hle,
    Source.skip, Nat.sub_self]
  rw [ByteArray.extract_append_eq_left hsize, hsize, extract_size_append ByteArray.size_append]

lemma finish_within (count : Nat) (rest : ByteArray) :
    (within ⟨replicateByte count 0 ++ rest, failure⟩ 0 count).finish =
      (.between ⟨rest, failure⟩, .ok ()) := by
  have hcount : 0 + count = (replicateByte count 0).size := by
    rw [size_replicateByte, Nat.zero_add]
  rw [finish_within_eq, if_pos, Source.skip_append rest failure hcount]
  rw [ByteArray.size_append, hcount]
  exact Nat.le_add_right _ _

/-- In front of the bytes of a member, a cursor gives it and comes to stand behind them. -/
lemma exists_step (hm : m.Sound) {rest : ByteArray}
    (hc : c.finish = (.between ⟨m.bytes ++ rest, failure⟩, .ok ())) :
    ∃ entered left, c.next = (entered, .ok (some m.header)) ∧
      entered.readAll = (left, .ok m.data) ∧ left.finish = (.between ⟨rest, failure⟩, .ok ()) := by
  obtain ⟨hl, hname, hsize⟩ := hm
  have hnext := next_of_finish hc
  rw [Member.bytes, ByteArray.append_assoc, ByteArray.append_assoc, enter_bytes hl,
    if_neg hname] at hnext
  refine ⟨_, _, hnext, readAll_within hsize.symm _ _, ?_⟩
  rw [← hsize]
  exact finish_within _ rest

lemma exists_yields (hm : ∀ m ∈ members, m.Sound) {rest : ByteArray}
    (hc : c.finish = (.between ⟨concat (members.map Member.bytes) ++ rest, failure⟩, .ok ())) :
    ∃ last, c.Yields members last ∧ last.finish = (.between ⟨rest, failure⟩, .ok ()) := by
  induction members generalizing c with
  | nil =>
    rw [List.map_nil, concat_nil, ByteArray.empty_append] at hc
    exact ⟨c, .nil c, hc⟩
  | cons m members ih =>
    rw [List.map_cons, concat_cons, ByteArray.append_assoc] at hc
    obtain ⟨entered, left, hnext, hread, hleft⟩ := exists_step (hm m (by simp)) hc
    obtain ⟨last, hyields, hlast⟩ := ih (fun m' hm' => hm m' (by simp [hm'])) hleft
    exact ⟨last, .cons hnext hread hyields, hlast⟩

lemma legible_trailer : MemberHeader.trailer.Legible :=
  ⟨by decide +kernel, by decide +kernel⟩

lemma next_trailer {rest : ByteArray}
    (hc : c.finish = (.between ⟨MemberHeader.trailer.bytes ++ rest, failure⟩, .ok ())) :
    c.next = (.closed, .ok none) := by
  rw [next_of_finish hc, enter_bytes legible_trailer,
    if_pos (show MemberHeader.trailer.name = trailerName from rfl)]

lemma exhausted_of_next (hc : c.next = (.closed, .ok none)) : c.Exhausted := by
  have hclosed : ∀ k, (fun c : Cursor => c.next.1)^[k] .closed = .closed := by
    intro k
    induction k with
    | zero => rfl
    | succ k ih => rw [Function.iterate_succ_apply]; exact ih
  intro k
  cases k with
  | zero => rw [Function.iterate_zero_apply, hc]
  | succ k =>
    rw [Function.iterate_succ_apply, hc, hclosed]
    rfl

lemma exists_yields_archiveBytes (hm : ∀ m ∈ members, m.Sound) (trailing : ByteArray)
    (failure : Option StreamError) :
    ∃ last, (ofSource ⟨archiveBytes members ++ trailing, failure⟩).Yields members last ∧
      last.next = (.closed, .ok none) := by
  rw [archiveBytes, ByteArray.append_assoc]
  obtain ⟨last, hyields, hlast⟩ := exists_yields hm (c := ofSource _) rfl
  exact ⟨last, hyields, next_trailer hlast⟩

lemma Yields.reads {last : Cursor} (h : c.Yields members last)
    (hlast : last.next = (.closed, .ok none)) : Reads c (.ok members) := by
  induction h with
  | nil c => exact .done hlast
  | cons hnext hread _ ih => exact .member hnext hread (ih hlast)

/-- **All members** of an archive are read at once. -/
lemma members_archiveBytes (hm : ∀ m ∈ members, m.Sound) :
    (ofSource (Source.ofBytes (archiveBytes members))).members = .ok members := by
  obtain ⟨last, hyields, hlast⟩ := exists_yields_archiveBytes hm ByteArray.empty none
  rw [ByteArray.append_empty] at hyields
  exact members_eq_iff.mpr (hyields.reads hlast)

end Cursor

/-! ### Writing -/

/-- A member to be appended: its header, and where its data is taken from. -/
structure Draft where
  header : MemberHeader
  source : Source

/-- The member that comes of a draft: of the source, it has as many bytes as the header says. -/
def Draft.member (d : Draft) : Member :=
  ⟨d.header, d.source.rest.extract 0 d.header.fileSize.toNat⟩

/-- Whether a member can be made of a draft and be read back. -/
structure Draft.Sound (d : Draft) : Prop where
  legible : d.header.Legible
  name_ne : d.header.name ≠ trailerName
  size_le : d.header.fileSize.toNat ≤ d.source.rest.size

lemma Draft.size_data {d : Draft} (h : d.header.fileSize.toNat ≤ d.source.rest.size) :
    d.member.data.size = d.header.fileSize.toNat := by
  simp only [member, ByteArray.size_extract]
  omega

lemma Draft.Sound.member {d : Draft} (h : d.Sound) : d.member.Sound :=
  ⟨h.legible, h.name_ne, Draft.size_data h.size_le⟩

namespace Builder

section Append

variable {τ : Type} [ByteSink τ]

/-- Appends drafts in turn, whatever comes of each. -/
def appendAll (b : Builder τ) (drafts : List Draft) : Builder τ :=
  drafts.foldl (fun b d => (b.append d.header d.source).1) b

lemma append_of_write {b : Builder τ} {d : Draft} {s₁ s₂ s₃ : τ}
    (hnul : holdsNul d.header.name = false) (hsize : d.header.fileSize.toNat ≤ d.source.rest.size)
    (h₁ : ByteSink.write b.sink d.header.bytes = (s₁, .ok ()))
    (h₂ : ByteSink.write s₁ d.member.data = (s₂, .ok ()))
    (h₃ : ByteSink.write s₂ (replicateByte (paddingFor 4 d.member.data.size) 0) = (s₃, .ok ())) :
    b.append d.header d.source =
      (⟨s₃, b.offset + d.member.bytes.size⟩, .ok d.member.bytes.size) := by
  have hdata := Draft.size_data hsize
  rw [hdata] at h₃
  have hwrite : d.header.write b.sink = (s₁, .ok d.header.bytes.size) := by
    simp only [MemberHeader.write, hnul, Bool.false_eq_true, if_false, h₁]
  have htake : (d.source.take d.header.fileSize.toNat) = ⟨d.member.data, none⟩ := by
    rw [Source.take, if_pos hsize]
    rfl
  have hbytes : d.member.bytes.size = d.header.bytes.size + d.header.fileSize.toNat +
      paddingFor 4 d.header.fileSize.toNat := by
    rw [Member.bytes, ByteArray.size_append, ByteArray.size_append, size_replicateByte, hdata]
    exact (Nat.add_assoc _ _ _).symm
  simp only [append, putHeader, hwrite, putData, htake, h₂, hdata, ne_eq, not_true_eq_false,
    if_false, put, h₃, size_replicateByte, hbytes]
  refine Prod.ext ?_ ?_ <;> simp only [Except.ok.injEq, mk.injEq, true_and] <;> omega

lemma finish_of_write {b : Builder τ} {s₁ s₂ : τ}
    (h₁ : ByteSink.write b.sink MemberHeader.trailer.bytes = (s₁, .ok ()))
    (h₂ : ByteSink.flush s₁ = (s₂, .ok ())) :
    b.finish = (⟨s₂, b.offset + MemberHeader.trailer.bytes.size⟩, .ok ()) := by
  have hwrite : MemberHeader.trailer.write b.sink =
      (s₁, .ok MemberHeader.trailer.bytes.size) := by
    simp only [MemberHeader.write, Cursor.legible_trailer.hasNul_eq, Bool.false_eq_true, if_false,
      h₁]
  simp only [finish, putHeader, hwrite, h₂, Except.mapError]

end Append

lemma append_of_limit {b : Builder Sink} {d : Draft} (unbounded : b.sink.limit = none)
    (hnul : holdsNul d.header.name = false)
    (hsize : d.header.fileSize.toNat ≤ d.source.rest.size) :
    b.append d.header d.source =
      (⟨{ b.sink with accepted := b.sink.accepted ++ d.member.bytes },
        b.offset + d.member.bytes.size⟩, .ok d.member.bytes.size) := by
  have h₁ := Sink.write_of_limit unbounded d.header.bytes
  set s₁ : Sink := { b.sink with accepted := b.sink.accepted ++ d.header.bytes } with hs₁
  have h₂ := Sink.write_of_limit (s := s₁) unbounded d.member.data
  set s₂ : Sink := { s₁ with accepted := s₁.accepted ++ d.member.data } with hs₂
  have h₃ := Sink.write_of_limit (s := s₂) unbounded
    (replicateByte (paddingFor 4 d.member.data.size) 0)
  rw [append_of_write hnul hsize h₁ h₂ h₃]
  simp only [hs₂, hs₁, Member.bytes, ByteArray.append_assoc]
  rfl

lemma appendAll_of_limit {b : Builder Sink} {drafts : List Draft}
    (unbounded : b.sink.limit = none) (sound : ∀ d ∈ drafts, d.Sound) :
    b.appendAll drafts =
      ⟨{ b.sink with
          accepted := b.sink.accepted ++ concat ((drafts.map Draft.member).map Member.bytes) },
        b.offset + (concat ((drafts.map Draft.member).map Member.bytes)).size⟩ := by
  induction drafts generalizing b with
  | nil => simp [appendAll]
  | cons d drafts ih =>
    have hd := sound d (by simp)
    have hstep := append_of_limit unbounded hd.legible.hasNul_eq hd.size_le
    have hrest := ih (b := (b.append d.header d.source).1) (by rw [hstep]; exact unbounded)
      fun d' hd' => sound d' (by simp [hd'])
    rw [appendAll, List.foldl_cons, ← appendAll, hrest, hstep]
    simp only [List.map_cons, concat_cons, ByteArray.append_assoc, ByteArray.size_append,
      Nat.add_assoc]

lemma finish_of_limit {b : Builder Sink} (unbounded : b.sink.limit = none)
    (flushes : b.sink.flushFails = false) :
    b.finish = (⟨{ b.sink with accepted := b.sink.accepted ++ MemberHeader.trailer.bytes },
      b.offset + MemberHeader.trailer.bytes.size⟩, .ok ()) := by
  refine finish_of_write (Sink.write_of_limit unbounded _) ?_
  simp only [ByteSink.flush, Sink.flush, flushes, Bool.false_eq_true, if_false]

lemma dvd_size_concat (members : List Member) : 4 ∣ (concat (members.map Member.bytes)).size := by
  induction members with
  | nil => simp
  | cons m members ih =>
    rw [List.map_cons, concat_cons, ByteArray.size_append]
    exact Nat.dvd_add m.dvd_size_bytes ih

/-- What a successful append says and leaves behind, in an archive that begins where the sink had
`start` bytes. -/
structure Counts (start : Nat) (b : Builder Sink) (d : Draft) : Prop where
  ok : ∃ n, (b.append d.header d.source).2 = .ok n ∧
    (b.append d.header d.source).1.sink.accepted.size = b.sink.accepted.size + n
  offset_eq : start + (b.append d.header d.source).1.offset =
    (b.append d.header d.source).1.sink.accepted.size
  dvd_offset : 4 ∣ (b.append d.header d.source).1.offset

/-- **Archive round trip.** With a sink that takes everything, each append succeeds and counts what
it wrote; and from the finished archive, a cursor gives the same members with their data and then
nothing more, whatever follows the archive. -/
theorem appendAll_round_trip {sink : Sink} {drafts : List Draft} (unbounded : sink.limit = none)
    (flushes : sink.flushFails = false) (sound : ∀ d ∈ drafts, d.Sound) :
    (∀ before d after, drafts = before ++ d :: after →
      Counts sink.accepted.size (({ sink } : Builder Sink).appendAll before) d) ∧
    (({ sink } : Builder Sink).appendAll drafts).finish.2 = .ok () ∧
    ∃ archive, (({ sink } : Builder Sink).appendAll drafts).finish.1.sink.accepted =
        sink.accepted ++ archive ∧
      ∀ trailing failure, ∃ last,
        (Cursor.ofSource ⟨archive ++ trailing, failure⟩).Yields (drafts.map Draft.member) last ∧
          last.Exhausted := by
  refine ⟨?_, ?_, archiveBytes (drafts.map Draft.member), ?_, fun trailing failure => ?_⟩
  · rintro before d after rfl
    have hd := sound d (by simp)
    have hbefore := appendAll_of_limit (b := { sink }) unbounded
      fun d' hd' => sound d' (List.mem_append_left _ hd')
    have hstep := append_of_limit (b := ({ sink } : Builder Sink).appendAll before)
      (by rw [hbefore]; exact unbounded) hd.legible.hasNul_eq hd.size_le
    refine ⟨⟨d.member.bytes.size, ?_, ?_⟩, ?_, ?_⟩
    · rw [hstep]
    · rw [hstep, ByteArray.size_append]
    · rw [hstep, hbefore]
      simp only [ByteArray.size_append]
      omega
    · rw [hstep, hbefore]
      exact Nat.dvd_add (Nat.dvd_add ⟨0, rfl⟩ (dvd_size_concat _)) d.member.dvd_size_bytes
  · rw [appendAll_of_limit unbounded sound, finish_of_limit unbounded flushes]
  · rw [appendAll_of_limit unbounded sound, finish_of_limit unbounded flushes]
    simp only [archiveBytes, ByteArray.append_assoc]
  · have hmembers : ∀ m ∈ drafts.map Draft.member, m.Sound := by
      intro m hm
      obtain ⟨d, hd, rfl⟩ := List.mem_map.mp hm
      exact (sound d hd).member
    obtain ⟨last, hyields, hlast⟩ :=
      Cursor.exists_yields_archiveBytes hmembers trailing failure
    exact ⟨last, hyields, Cursor.exhausted_of_next hlast⟩

/-- A file whose data begins like a member, taken from a source that fails behind it, and a directory
without a name. -/
def oddDrafts : List Draft := [
  ⟨{ MemberHeader.file "./a" 0o755 7 with inode := 1 }, ⟨"0707010000".toUTF8, some .other⟩⟩,
  ⟨MemberHeader.ofDirectory "" 0o700, Source.ofBytes ByteArray.empty⟩]

theorem appendAll_round_trip_oddDrafts :
    ∃ archive last, (({ sink := {} } : Builder Sink).appendAll oddDrafts).finish.2 = .ok () ∧
      (({ sink := {} } : Builder Sink).appendAll oddDrafts).finish.1.sink.accepted = archive ∧
      (Cursor.ofSource ⟨archive ++ "070701".toUTF8, some .other⟩).Yields
        (oddDrafts.map Draft.member) last ∧
      last.Exhausted := by
  have sound : ∀ d ∈ oddDrafts, d.Sound := by
    intro d hd
    simp only [oddDrafts, List.mem_cons, List.not_mem_nil, or_false] at hd
    rcases hd with rfl | rfl <;>
      exact ⟨⟨by decide +kernel, by decide +kernel⟩, by decide +kernel, by decide +kernel⟩
  have unbounded : ({} : Sink).limit = none := rfl
  obtain ⟨-, hfinish, archive, haccepted, hread⟩ := appendAll_round_trip unbounded rfl sound
  obtain ⟨last, hyields, hlast⟩ := hread "070701".toUTF8 (some .other)
  exact ⟨archive, last, hfinish, haccepted.trans ByteArray.empty_append, hyields, hlast⟩

end Builder

end Rpm.Archive

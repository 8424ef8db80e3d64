import Rpm.Proofs.Archive.RoundTrip

/-!
What a builder has written when it succeeds.

Whatever the sink can take, an append without an error wrote all bytes of a member whose name holds
no zero byte and whose source had enough data, and an end without an error wrote the trailer. So an
archive that was made without an error is that of its members.
-/

namespace Rpm.Archive.Builder

variable {b b' : Builder Sink} {header : MemberHeader} {d : Draft} {drafts : List Draft}

def written (b : Builder Sink) (bytes : ByteArray) : Builder Sink :=
  ⟨{ b.sink with accepted := b.sink.accepted ++ bytes }, b.offset + bytes.size⟩

lemma written_written (b : Builder Sink) (bytes bytes' : ByteArray) :
    (b.written bytes).written bytes' = b.written (bytes ++ bytes') := by
  simp only [written, ByteArray.append_assoc, ByteArray.size_append, Nat.add_assoc]

/-! ### One member -/

lemma put_eq_ok {bytes : ByteArray} (h : b.put bytes = (b', .ok ())) : b' = b.written bytes := by
  unfold put at h
  split at h
  · simp at h
  · rename_i sink hwrite
    rw [← (Prod.mk.inj h).1, Sink.write_eq_ok hwrite]
    rfl

lemma putHeader_eq_ok (h : b.putHeader header = (b', .ok ())) :
    holdsNul header.name = false ∧ b' = b.written header.bytes := by
  unfold putHeader MemberHeader.write at h
  cases hnul : holdsNul header.name with
  | true => simp [hnul] at h
  | false =>
    simp only [hnul, Bool.false_eq_true, if_false] at h
    rcases hwrite : ByteSink.write b.sink header.bytes with ⟨sink, _ | _⟩
    · simp [hwrite] at h
    · simp only [hwrite] at h
      rw [← (Prod.mk.inj h).1, Sink.write_eq_ok hwrite]
      exact ⟨rfl, rfl⟩

lemma putData_eq_ok {data : Source} (h : b.putData header data = (b', .ok ())) :
    header.fileSize.toNat ≤ data.rest.size ∧
      b' = b.written (data.rest.extract 0 header.fileSize.toNat) := by
  unfold putData at h
  dsimp only [Source.take] at h
  split at h
  · simp at h
  rename_i sink hwrite
  split at h
  · simp at h
  split_ifs at h with hsize
  · simp at h
  rw [not_not, ByteArray.size_extract] at hsize
  refine ⟨by omega, ?_⟩
  rw [← (Prod.mk.inj h).1, Sink.write_eq_ok hwrite, written, ByteArray.size_extract, hsize]

/-- **A member that was appended** could be, and all its bytes were written. -/
lemma append_eq_ok {n : Nat} (h : (b.append d.header d.source).2 = .ok n) :
    holdsNul d.header.name = false ∧ d.header.fileSize.toNat ≤ d.source.rest.size ∧
      (b.append d.header d.source).1 = b.written d.member.bytes := by
  unfold append at h ⊢
  rcases hheader : b.putHeader d.header with ⟨b₁, _ | _⟩
  · simp [hheader] at h
  rcases hdata : b₁.putData d.header d.source with ⟨b₂, _ | _⟩
  · simp [hheader, hdata] at h
  rcases hzeros : b₂.put (replicateByte (paddingFor 4 d.header.fileSize.toNat) 0) with ⟨b₃, _ | _⟩
  · simp [hheader, hdata, hzeros] at h
  obtain ⟨hnul, rfl⟩ := putHeader_eq_ok hheader
  obtain ⟨hsize, rfl⟩ := putData_eq_ok hdata
  refine ⟨hnul, hsize, ?_⟩
  simp only [hdata, hzeros]
  rw [put_eq_ok hzeros, written_written, written_written, Member.bytes, Draft.size_data hsize]
  rfl

lemma finish_eq_ok (h : b.finish.2 = .ok ()) :
    b.finish.1.sink.accepted = b.sink.accepted ++ MemberHeader.trailer.bytes := by
  unfold finish at h ⊢
  rcases hheader : b.putHeader .trailer with ⟨b₁, _ | _⟩
  · simp [hheader] at h
  obtain ⟨-, rfl⟩ := putHeader_eq_ok hheader
  rfl

/-! ### A whole archive -/

/-- Whether a builder makes an archive of drafts: it appends each in its turn and then ends the
archive, all without an error. -/
structure Builds (b : Builder Sink) (drafts : List Draft) : Prop where
  append_ok : ∀ before d after, drafts = before ++ d :: after →
    ∃ n, ((b.appendAll before).append d.header d.source).2 = .ok n
  finish_ok : (b.appendAll drafts).finish.2 = .ok ()

lemma appendAll_eq (h : ∀ before d after, drafts = before ++ d :: after →
      ∃ n, ((b.appendAll before).append d.header d.source).2 = .ok n) :
    (∀ d ∈ drafts, holdsNul d.header.name = false ∧
      d.header.fileSize.toNat ≤ d.source.rest.size) ∧
    b.appendAll drafts = b.written (concat ((drafts.map Draft.member).map Member.bytes)) := by
  induction drafts generalizing b with
  | nil => exact ⟨by simp, by simp [appendAll, written]⟩
  | cons d drafts ih =>
    obtain ⟨n, hn⟩ := h [] d drafts rfl
    obtain ⟨hnul, hsize, happend⟩ := append_eq_ok (b := b) hn
    have hstep : ∀ ds, b.appendAll (d :: ds) = (b.written d.member.bytes).appendAll ds := by
      intro ds
      rw [appendAll, List.foldl_cons, happend, ← appendAll]
    obtain ⟨hdrafts, hrest⟩ := ih fun before d' after hsplit => by
      rw [← hstep]
      exact h (d :: before) d' after (by rw [hsplit, List.cons_append])
    refine ⟨by simpa using ⟨⟨hnul, hsize⟩, hdrafts⟩, ?_⟩
    rw [hstep, hrest, written_written, List.map_cons, List.map_cons, concat_cons]

lemma builds_of_limit (unbounded : b.sink.limit = none) (flushes : b.sink.flushFails = false)
    (sound : ∀ d ∈ drafts, d.Sound) : b.Builds drafts := by
  constructor
  · rintro before d after rfl
    have hd := sound d (by simp)
    have hbefore : ∀ d' ∈ before, d'.Sound := fun d' hd' =>
      sound d' (List.mem_append_left _ hd')
    have hstep := append_of_limit (b := b.appendAll before) (d := d)
      (by rw [appendAll_of_limit unbounded hbefore]; exact unbounded) hd.legible.hasNul_eq hd.size_le
    exact ⟨_, congrArg Prod.snd hstep⟩
  · rw [appendAll_of_limit unbounded sound, finish_of_limit]
    · exact unbounded
    · exact flushes

namespace Builds

variable (h : b.Builds drafts)
include h

lemma of_mem {d : Draft} (hd : d ∈ drafts) :
    holdsNul d.header.name = false ∧ d.header.fileSize.toNat ≤ d.source.rest.size :=
  (appendAll_eq h.append_ok).1 d hd

/-- **What is written** is the archive of the members. -/
lemma accepted_eq : (b.appendAll drafts).finish.1.sink.accepted =
    b.sink.accepted ++ archiveBytes (drafts.map Draft.member) := by
  rw [finish_eq_ok h.finish_ok, (appendAll_eq h.append_ok).2, archiveBytes, written,
    ByteArray.append_assoc]

lemma offset_take (j : Nat) : (b.appendAll (drafts.take j)).offset =
    b.offset + (concat (((drafts.map Draft.member).take j).map Member.bytes)).size := by
  have hfirst : ∀ before d after, drafts.take j = before ++ d :: after →
      ∃ n, ((b.appendAll before).append d.header d.source).2 = .ok n := by
    intro before d after hsplit
    refine h.append_ok before d (after ++ drafts.drop j) ?_
    rw [← List.cons_append, ← List.append_assoc, ← hsplit, List.take_append_drop]
  rw [(appendAll_eq hfirst).2, written, List.map_take]

end Builds

end Rpm.Archive.Builder

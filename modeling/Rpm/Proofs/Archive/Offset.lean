import Rpm.Proofs.Archive.FailedAppends

/-!
What a builder counts of what it writes.

An append writes a member in pieces, its header, its data and the zeros behind them, and counts each
of them once all of it is written. So the offset is never more than what the sink has got, and it is
exactly that as long as no append stopped within a piece: of a piece that is begun and not finished,
the sink keeps the front, and nothing is counted. Data of which a source gives too little is no piece
that could be finished.
-/

namespace Rpm.Archive

/-! ### Pieces -/

/-- How many of the first `n` bytes of pieces belong to those that end among them. -/
def wholeSize : List ByteArray → Nat → Nat
  | [], _ => 0
  | piece :: pieces, n =>
    if piece.size ≤ n then piece.size + wholeSize pieces (n - piece.size) else 0

lemma wholeSize_le (pieces : List ByteArray) (n : Nat) : wholeSize pieces n ≤ n := by
  induction pieces generalizing n with
  | nil => exact Nat.zero_le n
  | cons piece pieces ih =>
    unfold wholeSize
    split
    · have := ih (n - piece.size)
      omega
    · exact Nat.zero_le n

lemma wholeSize_eq_self_iff {pieces : List ByteArray} {n : Nat} :
    wholeSize pieces n = n ↔ ∃ front, front <+: pieces ∧ (concat front).size = n := by
  induction pieces generalizing n with
  | nil => simp [wholeSize, eq_comm]
  | cons piece pieces ih =>
    simp only [List.prefix_cons_iff, wholeSize]
    constructor
    · intro h
      split at h
      · obtain ⟨front, hfront, hsize⟩ := ih.mp (show _ = n - piece.size by omega)
        refine ⟨piece :: front, .inr ⟨front, rfl, hfront⟩, ?_⟩
        rw [concat_cons, ByteArray.size_append]
        omega
      · exact ⟨[], .inl rfl, h⟩
    · rintro ⟨front, rfl | ⟨front, rfl, hfront⟩, rfl⟩
      · -- A piece without bytes ends there as well, and so may those behind it.
        have := wholeSize_le pieces (0 - piece.size)
        rw [concat_nil, ByteArray.size_empty]
        split <;> omega
      · have hrest := ih.mpr ⟨front, hfront, rfl⟩
        rw [concat_cons, ByteArray.size_append, if_pos (Nat.le_add_right _ _),
          Nat.add_sub_cancel_left, hrest]

namespace Draft

/-- What an append of a draft writes and counts piece by piece. If the source has too little data,
that is the header alone. -/
def pieces (d : Draft) : List ByteArray :=
  if holdsNul d.header.name then []
  else if d.header.fileSize.toNat ≤ d.source.rest.size then
    [d.header.bytes, d.member.data, replicateByte (paddingFor 4 d.member.data.size) 0]
  else [d.header.bytes]

/-- Whether an append of which a sink takes `n` bytes does not stop within a piece. -/
def StopsBetween (d : Draft) (n : Nat) : Prop :=
  ∃ front, front <+: d.pieces ∧ (concat front).size = n

variable {d : Draft}

lemma stopsBetween_iff {n : Nat} : d.StopsBetween n ↔ wholeSize d.pieces n = n :=
  wholeSize_eq_self_iff.symm

instance (d : Draft) : DecidablePred d.StopsBetween := fun _ =>
  decidable_of_iff _ stopsBetween_iff.symm

lemma pieces_of_size_le (hnul : holdsNul d.header.name = false)
    (hsize : d.header.fileSize.toNat ≤ d.source.rest.size) :
    d.pieces = [d.header.bytes, d.member.data,
      replicateByte (paddingFor 4 d.member.data.size) 0] := by
  rw [pieces, hnul, if_neg Bool.false_ne_true, if_pos hsize]

lemma pieces_of_size_lt (hnul : holdsNul d.header.name = false)
    (hsize : d.source.rest.size < d.header.fileSize.toNat) : d.pieces = [d.header.bytes] := by
  rw [pieces, hnul, if_neg Bool.false_ne_true, if_neg (Nat.not_le_of_lt hsize)]

lemma Accepted.concat_pieces (h : d.Accepted) : concat d.pieces = d.trace := by
  rw [pieces_of_size_le h.1 h.2, h.trace_eq, Member.bytes]
  simp only [concat_cons, concat_nil, ByteArray.append_empty]
  rfl

/-- A sink that takes everything stops within a piece only if the source gives some data, but too
little of it. -/
lemma stopsBetween_trace_iff : d.StopsBetween d.trace.size ↔
    holdsNul d.header.name = true ∨ d.Accepted ∨ d.source.rest.size = 0 := by
  cases hnul : holdsNul d.header.name with
  | true =>
    refine iff_of_true ⟨[], List.nil_prefix, ?_⟩ (.inl rfl)
    rw [trace, if_pos hnul, concat_nil]
  | false =>
    by_cases hsize : d.header.fileSize.toNat ≤ d.source.rest.size
    · have haccepted : d.Accepted := ⟨hnul, hsize⟩
      refine iff_of_true ⟨d.pieces, List.prefix_rfl, ?_⟩ (.inr (.inl haccepted))
      rw [haccepted.concat_pieces]
    · have hlt := Nat.lt_of_not_le hsize
      have hnot : ¬d.Accepted := fun h => hsize h.2
      rw [stopsBetween_iff, pieces_of_size_lt hnul hlt, trace_of_short hnul hlt,
        ByteArray.size_append]
      simp only [wholeSize, if_pos (Nat.le_add_right _ _), hnot, Bool.false_eq_true, false_or]
      omega

end Draft

namespace Builder

variable {b : Builder Sink} {d : Draft}

/-! ### One append -/

/-- A builder whose sink has got what it takes of some bytes, and that counted some of them. -/
def taken (b : Builder Sink) (bytes : ByteArray) (counted : Nat) : Builder Sink :=
  ⟨{ b.sink with accepted := b.sink.accepted ++ bytes.extract 0 (b.sink.room bytes.size) },
    b.offset + counted⟩

lemma taken_empty (b : Builder Sink) : b.taken ByteArray.empty 0 = b := by
  simp [taken, Nat.le_zero.mp (b.sink.room_le 0)]

lemma taken_taken {bytes : ByteArray} (h : b.sink.room bytes.size = bytes.size)
    (more : ByteArray) (counted : Nat) :
    (b.taken bytes bytes.size).taken more counted =
      b.taken (bytes ++ more) (bytes.size + counted) := by
  simp only [taken, h, extract_of_size_le (Nat.le_refl _), ByteArray.size_append,
    Sink.room_add h, extract_append_add, ByteArray.append_assoc, Nat.add_assoc]

lemma taken_append_of_ne {bytes : ByteArray} (h : b.sink.room bytes.size ≠ bytes.size)
    (more : ByteArray) (counted : Nat) :
    b.taken (bytes ++ more) counted = b.taken bytes counted := by
  have hlt := Nat.lt_of_le_of_ne (b.sink.room_le _) h
  simp only [taken, ByteArray.size_append, Sink.room_add_of_ne h,
    extract_append_of_le more (Nat.le_of_lt hlt)]

lemma sink_taken {bytes : ByteArray} (h : b.sink.room bytes.size = bytes.size) (counted : Nat) :
    (b.taken bytes counted).sink = { b.sink with accepted := b.sink.accepted ++ bytes } := by
  simp only [taken, h, extract_of_size_le (Nat.le_refl _)]

/-- A piece that fits is whole, and so are those behind it that fit then; otherwise none is. -/
lemma wholeSize_cons_room (b : Builder Sink) (piece : ByteArray) (pieces : List ByteArray)
    (n : Nat) :
    wholeSize (piece :: pieces) (b.sink.room (piece.size + n)) =
      if b.sink.room piece.size = piece.size then
        piece.size + wholeSize pieces ((b.taken piece piece.size).sink.room n)
      else 0 := by
  by_cases h : b.sink.room piece.size = piece.size
  · rw [if_pos h, wholeSize, Sink.room_add h, if_pos (Nat.le_add_right _ _),
      Nat.add_sub_cancel_left, sink_taken h]
  · have hlt := Nat.lt_of_le_of_ne (b.sink.room_le _) h
    rw [if_neg h, wholeSize, Sink.room_add_of_ne h, if_neg (Nat.not_le_of_lt hlt)]

lemma put_eq (b : Builder Sink) (bytes : ByteArray) :
    b.put bytes = if b.sink.room bytes.size = bytes.size then (b.taken bytes bytes.size, .ok ())
      else (b.taken bytes 0, .error (.stream .other)) := by
  by_cases h : b.sink.room bytes.size = bytes.size
  · simp only [put, Sink.write_eq, if_pos h]
    rfl
  · simp only [put, Sink.write_eq, if_neg h]
    rfl

/-- Writes pieces in turn, up to the first that does not fit. -/
def putAll (b : Builder Sink) : List ByteArray → Builder Sink × Except ArchiveError Unit
  | [] => (b, .ok ())
  | piece :: pieces =>
    match b.put piece with
    | (b, .error e) => (b, .error e)
    | (b, .ok ()) => b.putAll pieces

/-- **Pieces** are taken like one row of bytes, and those that are taken whole are counted. -/
lemma putAll_eq (b : Builder Sink) (pieces : List ByteArray) :
    (b.putAll pieces).1 =
      b.taken (concat pieces) (wholeSize pieces (b.sink.room (concat pieces).size)) := by
  induction pieces generalizing b with
  | nil => exact b.taken_empty.symm
  | cons piece pieces ih =>
    rw [putAll, put_eq, concat_cons, ByteArray.size_append, wholeSize_cons_room]
    by_cases h : b.sink.room piece.size = piece.size
    · simp only [if_pos h, ih, taken_taken h]
    · simp only [if_neg h, taken_append_of_ne h]

lemma putHeader_eq {header : MemberHeader} (hnul : holdsNul header.name = false) :
    b.putHeader header = b.put header.bytes := by
  unfold putHeader MemberHeader.write put
  simp only [hnul, Bool.false_eq_true, if_false]
  rcases ByteSink.write b.sink header.bytes with ⟨sink, _ | _⟩ <;> rfl

lemma putData_eq (hsize : d.header.fileSize.toNat ≤ d.source.rest.size) :
    b.putData d.header d.source = b.put d.member.data := by
  have hdata := Draft.size_data hsize
  have htake : d.source.take d.header.fileSize.toNat = ⟨d.member.data, none⟩ := by
    rw [Source.take, if_pos hsize]
    rfl
  unfold putData put
  simp only [htake, hdata, ne_eq, not_true_eq_false, if_false]

lemma append_eq_putAll (h : d.Accepted) :
    (b.append d.header d.source).1 = (b.putAll d.pieces).1 := by
  obtain ⟨hnul, hsize⟩ := h
  rw [Draft.pieces_of_size_le hnul hsize, Draft.size_data hsize, append, putHeader_eq hnul]
  simp only [putAll]
  rcases b.put d.header.bytes with ⟨b₁, _ | _⟩
  · rfl
  simp only [putData_eq hsize]
  rcases b₁.put d.member.data with ⟨b₂, _ | _⟩
  · rfl
  simp only
  rcases b₂.put (replicateByte (paddingFor 4 d.header.fileSize.toNat) 0) with ⟨b₃, _ | _⟩
  · rfl
  · rfl

lemma exists_putData_eq (b : Builder Sink) (hsize : d.source.rest.size < d.header.fileSize.toNat) :
    ∃ e, b.putData d.header d.source = (b.taken d.source.rest 0, .error e) := by
  have htake : d.source.take d.header.fileSize.toNat = d.source := by
    rw [Source.take, extract_of_size_le (Nat.le_of_lt hsize), if_neg (Nat.not_le_of_lt hsize)]
  unfold putData
  simp only [htake, Sink.write_eq]
  by_cases hroom : b.sink.room d.source.rest.size = d.source.rest.size
  · simp only [if_pos hroom, ne_eq, Nat.ne_of_lt hsize, not_false_eq_true, if_true]
    cases d.source.failure with
    | some e => exact ⟨_, rfl⟩
    | none => exact ⟨_, rfl⟩
  · simp only [if_neg hroom]
    exact ⟨_, rfl⟩

lemma append_eq_of_size_lt (hnul : holdsNul d.header.name = false)
    (hsize : d.source.rest.size < d.header.fileSize.toNat) :
    (b.append d.header d.source).1 =
      match b.put d.header.bytes with
      | (b, .error _) => b
      | (b, .ok ()) => b.taken d.source.rest 0 := by
  rw [append, putHeader_eq hnul]
  rcases b.put d.header.bytes with ⟨b₁, _ | _⟩
  · rfl
  · obtain ⟨e, he⟩ := b₁.exists_putData_eq hsize
    simp only [he]

/-- **What an append leaves**: of all that it would write, the sink has got what it takes, and the
builder counts the pieces that are whole. -/
lemma append_eq_taken (b : Builder Sink) (d : Draft) :
    (b.append d.header d.source).1 =
      b.taken d.trace (wholeSize d.pieces (b.sink.room d.trace.size)) := by
  cases hnul : holdsNul d.header.name with
  | true =>
    rw [append_of_holdsNul b hnul, Draft.trace, Draft.pieces, if_pos hnul, if_pos hnul]
    exact b.taken_empty.symm
  | false =>
    by_cases hsize : d.header.fileSize.toNat ≤ d.source.rest.size
    · have haccepted : d.Accepted := ⟨hnul, hsize⟩
      rw [append_eq_putAll haccepted, putAll_eq, haccepted.concat_pieces]
    · have hlt := Nat.lt_of_not_le hsize
      rw [append_eq_of_size_lt hnul hlt, put_eq, Draft.trace_of_short hnul hlt,
        Draft.pieces_of_size_lt hnul hlt, ByteArray.size_append, wholeSize_cons_room]
      by_cases hroom : b.sink.room d.header.bytes.size = d.header.bytes.size
      · simp only [if_pos hroom, taken_taken hroom, wholeSize]
      · simp only [if_neg hroom, taken_append_of_ne hroom]

/-! ### Appends in turn -/

lemma offset_append (b : Builder Sink) (d : Draft) :
    (b.append d.header d.source).1.offset =
      b.offset + wholeSize d.pieces (b.sink.room d.trace.size) := by
  rw [append_eq_taken, taken]

lemma size_accepted_append (b : Builder Sink) (d : Draft) :
    (b.append d.header d.source).1.sink.accepted.size =
      b.sink.accepted.size + b.sink.room d.trace.size := by
  rw [append_eq_taken, taken, ByteArray.size_append,
    size_extract_of_le (b.sink.room_le _), Nat.sub_zero]

/-- Whether a builder counts all that its sink has got since it had `start` bytes. -/
def CountsAll (start : Nat) (b : Builder Sink) : Prop :=
  start + b.offset = b.sink.accepted.size

/-- **One more append** counts nothing that is not written, and nothing that was written before; and
it counts all that it writes exactly if it does not stop within a piece. -/
lemma countsAll_append_iff {start : Nat} (h : start + b.offset ≤ b.sink.accepted.size) (d : Draft) :
    let b' := (b.append d.header d.source).1
    start + b'.offset ≤ b'.sink.accepted.size ∧
      (b'.CountsAll start ↔ b.CountsAll start ∧ d.StopsBetween (b.sink.room d.trace.size)) := by
  intro b'
  have hle := wholeSize_le d.pieces (b.sink.room d.trace.size)
  rw [Draft.stopsBetween_iff, CountsAll, CountsAll, offset_append, size_accepted_append]
  omega

/-- **Appends in turn** count all that they write exactly if none of them stops within a piece. -/
lemma countsAll_appendAll_iff {start : Nat} (h : start + b.offset ≤ b.sink.accepted.size)
    (drafts : List Draft) :
    start + (b.appendAll drafts).offset ≤ (b.appendAll drafts).sink.accepted.size ∧
      ((b.appendAll drafts).CountsAll start ↔ b.CountsAll start ∧
        ∀ i (hi : i < drafts.length),
          drafts[i].StopsBetween ((b.appendAll (drafts.take i)).sink.room drafts[i].trace.size)) := by
  induction drafts generalizing b with
  | nil => simp [appendAll, h]
  | cons d drafts ih =>
    obtain ⟨hle, hfirst⟩ := countsAll_append_iff h d
    obtain ⟨hle', hrest⟩ := ih hle
    refine ⟨hle', hrest.trans ?_⟩
    rw [hfirst, and_assoc]
    refine and_congr_right fun _ => ⟨?_, fun hall => ⟨?_, fun i hi => ?_⟩⟩
    · rintro ⟨hstops, hall⟩ i hi
      cases i with
      | zero => exact hstops
      | succ i => exact hall i (Nat.lt_of_succ_lt_succ hi)
    · exact hall 0 (Nat.succ_pos _)
    · exact hall (i + 1) (Nat.succ_lt_succ hi)

lemma limit_appendAll (b : Builder Sink) (drafts : List Draft) :
    (b.appendAll drafts).sink.limit = b.sink.limit := by
  induction drafts generalizing b with
  | nil => rfl
  | cons d drafts ih =>
    rw [appendAll, List.foldl_cons, ← appendAll, ih, append_eq_taken, taken]

/-- The number that an append gives is that of the bytes by which the offset grows. -/
lemma offset_of_append_eq_ok {n : Nat} (h : (b.append d.header d.source).2 = .ok n) :
    (b.append d.header d.source).1.offset - b.offset = n := by
  unfold append at h ⊢
  split at h
  · contradiction
  · split at h
    · contradiction
    · split at h
      · contradiction
      · cases h
        simp only [*]

/-- An append that succeeds writes as many bytes as it says, and counts them all. -/
lemma size_of_append_eq_ok {n : Nat} (h : (b.append d.header d.source).2 = .ok n) :
    (b.append d.header d.source).1.offset = b.offset + n ∧
      (b.append d.header d.source).1.sink.accepted.size = b.sink.accepted.size + n := by
  obtain ⟨-, -, hwritten⟩ := append_eq_ok h
  have hn : (b.written d.member.bytes).offset - b.offset = n :=
    hwritten ▸ offset_of_append_eq_ok h
  have hn' : d.member.bytes.size = n := (Nat.add_sub_cancel_left ..).symm.trans hn
  rw [hwritten, written, ByteArray.size_append, hn']
  exact ⟨rfl, rfl⟩

/-- **Offsets.** Whatever is appended to a sink, and whatever comes of it, the offset is never more
than the number of bytes that the sink has got since the archive was begun. It is exactly that number
after some appends if and only if none of them stopped within a piece; with a sink that takes
everything, that is if and only if no source gave some data, but too little of it. An append that
succeeds counts all that it writes. -/
theorem countsAll_iff_stopsBetween (sink : Sink) (drafts : List Draft) :
    let b (ds : List Draft) : Builder Sink := appendAll { sink } ds
    let start := sink.accepted.size
    start + (b drafts).offset ≤ (b drafts).sink.accepted.size ∧
    ((b drafts).CountsAll start ↔ ∀ i (hi : i < drafts.length),
      drafts[i].StopsBetween ((b (drafts.take i)).sink.room drafts[i].trace.size)) ∧
    (sink.limit = none → ((b drafts).CountsAll start ↔
      ∀ d ∈ drafts, holdsNul d.header.name = true ∨ d.Accepted ∨ d.source.rest.size = 0)) ∧
    ∀ (d : Draft) n, ((b drafts).append d.header d.source).2 = .ok n →
      ((b drafts).append d.header d.source).1.offset = (b drafts).offset + n ∧
      ((b drafts).append d.header d.source).1.sink.accepted.size =
        (b drafts).sink.accepted.size + n := by
  intro b start
  have hstart : CountsAll start { sink } := Nat.add_zero start
  obtain ⟨hle, hiff⟩ := countsAll_appendAll_iff (Nat.le_of_eq hstart) drafts
  rw [and_iff_right hstart] at hiff
  refine ⟨hle, hiff, fun unbounded => hiff.trans ?_, fun d n h => size_of_append_eq_ok h⟩
  have hroom : ∀ i n, (appendAll { sink } (drafts.take i)).sink.room n = n := by
    intro i n
    rw [Sink.room, limit_appendAll, unbounded]
  rw [List.forall_mem_iff_forall_getElem]
  simp only [hroom, Draft.stopsBetween_trace_iff]

/-- A sink that is full behind the header of a second small file. -/
def fullSink : Sink := { limit := some 228 }

/-- A file that is refused, one that is appended, and two that the sink has no room for. -/
def crowdedDrafts : List Draft := [refusedDraft, wholeDraft, wholeDraft, tornDraft]

theorem countsAll_iff_stopsBetween_fullSink :
    let b (ds : List Draft) : Builder Sink := appendAll { sink := fullSink } ds
    (∀ i (hi : i < crowdedDrafts.length), crowdedDrafts[i].StopsBetween
      ((b (crowdedDrafts.take i)).sink.room crowdedDrafts[i].trace.size)) ∧
    (b crowdedDrafts).CountsAll 0 ∧ (b crowdedDrafts).offset = 228 ∧
    ((b [refusedDraft]).append wholeDraft.header wholeDraft.source).2 = .ok 116 ∧
    ((b [refusedDraft]).append wholeDraft.header wholeDraft.source).1.sink.accepted.size = 116 ∧
    (appendAll { sink := ({} : Sink) } [refusedDraft, wholeDraft]).CountsAll 0 := by
  intro b
  have hstops : ∀ i (hi : i < crowdedDrafts.length), crowdedDrafts[i].StopsBetween
      ((b (crowdedDrafts.take i)).sink.room crowdedDrafts[i].trace.size) := by
    decide +kernel
  have hok : ((b [refusedDraft]).append wholeDraft.header wholeDraft.source).2 = .ok 116 := by
    decide +kernel
  have hempty : (b [refusedDraft]).sink.accepted.size = 0 := by decide +kernel
  have hall : ∀ d ∈ [refusedDraft, wholeDraft],
      holdsNul d.header.name = true ∨ d.Accepted ∨ d.source.rest.size = 0 := by
    decide +kernel
  obtain ⟨-, hfull, -, -⟩ := countsAll_iff_stopsBetween fullSink crowdedDrafts
  obtain ⟨-, -, -, hsize⟩ := countsAll_iff_stopsBetween fullSink [refusedDraft]
  obtain ⟨-, -, hunbounded, -⟩ := countsAll_iff_stopsBetween {} [refusedDraft, wholeDraft]
  refine ⟨hstops, hfull.mpr hstops, by decide +kernel, hok, ?_, (hunbounded rfl).mpr hall⟩
  rw [(hsize wholeDraft 116 hok).2]
  exact congrArg (· + 116) hempty

/-- Of a file whose source ends too early, the header is counted, and the data that was written behind
it is not. -/
theorem not_countsAll_tornDraft :
    let b : Builder Sink := appendAll { sink := {} } [tornDraft]
    b.offset = 112 ∧ b.sink.accepted.size = 114 ∧ ¬b.CountsAll 0 := by
  have hoffset : (appendAll { sink := ({} : Sink) } [tornDraft]).offset = 112 := by decide +kernel
  have hsize : (appendAll { sink := ({} : Sink) } [tornDraft]).sink.accepted.size = 114 := by
    decide +kernel
  refine ⟨hoffset, hsize, ?_⟩
  rw [CountsAll, hoffset, hsize]
  decide

end Builder

end Rpm.Archive

import Rpm.Proofs.Archive.Truncation

/-!
Archives whose builder went on after an append that failed.

An append that is refused for its name leaves nothing in the sink. One whose source gives too few bytes
leaves a header and less data than the header says, so that a reader takes what comes next for the rest
of the data. So all members are found as long as nothing of that kind happened, and those in front of
the first such append are found in any case; but there is always a member that is lost behind it.
-/

namespace Rpm.Archive

/-! ### Drafts -/

namespace Draft

/-- Whether a sink that takes everything gets all of a draft: its name can be written, and its source
has enough data. -/
def Accepted (d : Draft) : Prop :=
  holdsNul d.header.name = false ∧ d.header.fileSize.toNat ≤ d.source.rest.size

instance : DecidablePred Accepted := fun _ => inferInstanceAs (Decidable (_ ∧ _))

/-- Whether a draft does not spoil what is appended behind it: it is refused for its name, or it can
be read back. -/
def Harmless (d : Draft) : Prop := holdsNul d.header.name = true ∨ d.Sound

/-- What appending a draft leaves in a sink that takes everything. -/
def trace (d : Draft) : ByteArray :=
  if holdsNul d.header.name then ByteArray.empty
  else if d.header.fileSize.toNat ≤ d.source.rest.size then d.member.bytes
  else d.header.bytes ++ d.source.rest

variable {d : Draft}

lemma Sound.accepted (h : d.Sound) : d.Accepted := ⟨h.legible.hasNul_eq, h.size_le⟩

lemma Accepted.trace_eq (h : d.Accepted) : d.trace = d.member.bytes := by
  rw [trace, h.1, if_neg Bool.false_ne_true, if_pos h.2]

lemma Harmless.sound (h : d.Harmless) (ha : d.Accepted) : d.Sound :=
  h.resolve_left (by simp [ha.1])

lemma Harmless.trace_eq (h : d.Harmless) (ha : ¬d.Accepted) : d.trace = ByteArray.empty := by
  rw [trace, if_pos (h.resolve_right fun hs => ha hs.accepted)]

lemma exists_trace_eq (hnul : holdsNul d.header.name = false) :
    ∃ body, d.trace = d.header.bytes ++ body := by
  rw [trace, hnul, if_neg Bool.false_ne_true]
  split
  · exact ⟨_, rfl⟩
  · exact ⟨_, rfl⟩

lemma trace_of_short (hnul : holdsNul d.header.name = false)
    (hshort : d.source.rest.size < d.header.fileSize.toNat) :
    d.trace = d.header.bytes ++ d.source.rest := by
  rw [trace, hnul, if_neg Bool.false_ne_true, if_neg (Nat.not_le_of_lt hshort)]

/-- Drafts that do not spoil anything leave the members of those that are accepted. -/
lemma concat_trace {drafts : List Draft} (h : ∀ d ∈ drafts, d.Harmless) :
    concat (drafts.map trace) =
      concat (((drafts.filter (·.Accepted)).map Draft.member).map Member.bytes) := by
  induction drafts with
  | nil => rfl
  | cons d drafts ih =>
    have hd := h d (by simp)
    have hrest := ih fun d' hd' => h d' (by simp [hd'])
    rw [List.map_cons, concat_cons, hrest, List.filter_cons]
    by_cases ha : d.Accepted
    · rw [if_pos (decide_eq_true ha), ha.trace_eq, List.map_cons, List.map_cons, concat_cons]
    · rw [if_neg (by simpa using ha), hd.trace_eq ha, ByteArray.empty_append]

end Draft

lemma ofTerminated?_extract {s : String} (hnul : holdsNul s = false) {n : Nat}
    (hn : n ≤ s.utf8ByteSize) (rest : ByteArray) :
    ofTerminated? ((terminated s ++ rest).extract 0 n) = none := by
  have hfront : (terminated s ++ rest).extract 0 n = s.toUTF8.extract 0 n := by
    rw [terminated, ← ByteArray.append_toByteArray_singleton, ByteArray.append_assoc]
    exact extract_append_of_le _ hn
  rw [hfront, Option.eq_none_iff_forall_ne_some]
  intro name hname
  obtain ⟨-, hbytes⟩ := eq_terminated_of_ofTerminated? hname
  have hsize := congrArg ByteArray.size hbytes
  rw [ByteArray.size_extract, size_terminated] at hsize
  have hlast : byteAt (s.toUTF8.extract 0 n) name.utf8ByteSize = 0 := by
    rw [hbytes]
    exact byteAt_push_size name.toUTF8 0
  rw [byteAt_extract _ (by omega), Nat.zero_add] at hlast
  exact byteAt_ne_zero hnul (by omega) hlast

namespace MemberHeader

variable {h : MemberHeader}

lemma readName_of_size_le {ns : List UInt32} {name : String} (hnul : holdsNul name = false)
    (hn : (ns.getD 11 0).toNat ≤ name.utf8ByteSize) (rest : ByteArray)
    (failure : Option StreamError) :
    readName ns ⟨terminated name ++ rest, failure⟩ = .error .nameNotText := by
  have hread : (ns.getD 11 0).toNat ≤ (terminated name ++ rest).size := by
    rw [ByteArray.size_append, size_terminated]
    omega
  simp only [readName, Source.readExact, if_pos hread, Except.mapError, bind, Except.bind, nameOf,
    ofTerminated?_extract hnul hn, Except.map]

/-- The field for the size of a name that is too long wraps around, so that a reader takes the front
of the name for all of it and misses the zero byte behind it. -/
lemma read_of_not_legible (hnul : holdsNul h.name = false) (hl : ¬h.Legible) (rest : ByteArray)
    (failure : Option StreamError) :
    MemberHeader.read ⟨concat (h.fields.map fun n => (fieldText n).toUTF8) ++
      (terminated h.name ++ rest), failure⟩ = .error .nameNotText := by
  have hfields := readFields_concat (spells_map h.fields) (terminated h.name ++ rest) failure
  have hlength : (h.fields.map fieldText).length = 13 := by
    rw [List.length_map]
    rfl
  rw [hlength, List.map_map] at hfields
  have hn : ((h.fields.map UInt32.ofNat).getD 11 0).toNat ≤ h.name.utf8ByteSize := by
    have hlong := Nat.le_of_not_lt fun hlt => hl ⟨hnul, hlt⟩
    have hlt := UInt32.toNat_lt ((h.fields.map UInt32.ofNat).getD 11 0)
    exact Nat.le_of_lt_succ (Nat.lt_of_lt_of_le hlt hlong)
  have hread := read_eq ⟨concat (h.fields.map (String.toUTF8 ∘ fieldText)) ++
    (terminated h.name ++ rest), failure⟩
  rw [hfields] at hread
  exact hread.trans (readName_of_size_le hnul hn rest failure)

end MemberHeader

namespace Cursor

variable {c : Cursor} {h : MemberHeader} {d : Draft} {failure : Option StreamError}

/-- A header that is that of a trailer, or whose name is too long, is not found. -/
lemma enter_ne_of_not_legible (hnul : holdsNul h.name = false)
    (hbad : ¬(h.Legible ∧ h.name ≠ trailerName)) (rest : ByteArray) (entered : Cursor)
    (header : MemberHeader) : enter ⟨h.bytes ++ rest, failure⟩ ≠ (entered, .ok (some header)) := by
  by_cases hl : h.Legible
  · rw [enter_bytes hl, if_pos (not_not.mp fun hname => hbad ⟨hl, hname⟩)]
    simp
  · rw [h.bytes_eq, ByteArray.append_assoc, enter_magic, ByteArray.append_assoc,
      ByteArray.append_assoc, MemberHeader.read_of_not_legible hnul hl]
    simp

/-- **A member with too little data** is found, and what follows is taken for the rest of its data
and for its padding. -/
lemma exists_step_of_short (hl : d.header.Legible) (hname : d.header.name ≠ trailerName)
    (hshort : d.source.rest.size < d.header.fileSize.toNat) {after : ByteArray}
    (hc : c.finish = (.between (Source.ofBytes (d.trace ++ after)), .ok ())) :
    let size := d.header.fileSize.toNat
    let body := Source.ofBytes (d.source.rest ++ after)
    ∃ entered left, c.next = (entered, .ok (some d.header)) ∧
      entered.readAll = (left, .ok (body.rest.extract 0 size)) ∧
      left.finish = (within body size (paddingFor 4 size)).finish := by
  intro size body
  have hnext := next_of_finish hc
  rw [Draft.trace_of_short hl.hasNul_eq hshort, ByteArray.append_assoc, Source.ofBytes,
    enter_bytes hl, if_neg hname] at hnext
  exact ⟨_, _, hnext, readAll_of_failure rfl _ _,
    finish_skip (Nat.min_le_left _ _) (Nat.min_le_right _ _) _⟩

lemma Yields.isPrefix {last last' : Cursor} {members members' : List Member}
    (hyields : c.Yields members last)
    (stops : ∀ entered header, last.next ≠ (entered, .ok (some header)))
    (hyields' : c.Yields members' last') : members' <+: members := by
  induction hyields generalizing members' with
  | nil c =>
    cases hyields' with
    | nil => exact List.prefix_rfl
    | cons next => exact absurd next (stops _ _)
  | cons next readAll rest ih =>
    cases hyields' with
    | nil => exact List.nil_prefix
    | cons next' readAll' rest' =>
      obtain ⟨rfl, hheader⟩ := Prod.mk.inj (next.symm.trans next')
      obtain rfl := Option.some.inj (Except.ok.inj hheader)
      obtain ⟨rfl, hdata⟩ := Prod.mk.inj (readAll.symm.trans readAll')
      obtain rfl := Except.ok.inj hdata
      exact List.cons_prefix_cons.mpr ⟨rfl, ih stops rest'⟩

lemma Yields.append {last last' : Cursor} {members members' : List Member}
    (h : c.Yields members last) (h' : last.Yields members' last') :
    c.Yields (members ++ members') last' := by
  induction h with
  | nil => exact h'
  | cons next readAll _ ih => exact .cons next readAll (ih h')

/-- A source whose fourth byte is none of a magic number has no member at its front. -/
lemma enter_of_byteAt_ne {s : Source} (hsize : 6 ≤ s.rest.size)
    (hne : byteAt s.rest 3 ≠ byteAt magic 3) : enter s = (.closed, .error .badMagic) := by
  have hmagic : s.rest.extract 0 6 ≠ magic := by
    intro h
    rw [← h, byteAt_extract _ (by decide), Nat.zero_add] at hne
    exact hne rfl
  unfold enter Source.readExact
  rw [if_pos hsize]
  exact if_pos hmagic

/-- Behind a member with too little data, there may be no magic number where the next one is looked
for. -/
lemma next_eq_badMagic {part after : ByteArray} {size : Nat} (hshort : part.size ≤ size)
    (hroom : size + paddingFor 4 size + 6 ≤ part.size + after.size)
    (hbyte : byteAt after (size - part.size + paddingFor 4 size + 3) ≠ byteAt magic 3)
    (hc : c.finish = (within (Source.ofBytes (part ++ after)) size (paddingFor 4 size)).finish) :
    c.next = (.closed, .error .badMagic) := by
  set skipped := size + paddingFor 4 size with hskipped
  set body := part ++ after with hbody
  have hsize : body.size = part.size + after.size := ByteArray.size_append
  have hle : skipped ≤ (Source.ofBytes body).rest.size := show skipped ≤ body.size by omega
  rw [finish_within_eq, ← hskipped, if_pos hle] at hc
  rw [next_of_finish hc, enter_of_byteAt_ne]
  · rw [Source.size_skip]
    show 6 ≤ body.size - skipped
    omega
  · have hpos : skipped + 3 = part.size + (size - part.size + paddingFor 4 size + 3) := by omega
    have hskip : byteAt (body.extract skipped body.size) 3 = byteAt body (skipped + 3) :=
      byteAt_extract _ (by omega)
    rw [hpos, hbody, byteAt_append_right] at hskip
    exact fun h => hbyte (hskip.symm.trans h)

end Cursor

namespace Builder

/-! ### Appending, whatever comes of it -/

section Append

variable {τ : Type} [ByteSink τ]

/-- The drafts that are appended without an error, of some that are appended in turn. -/
def succeeded : Builder τ → List Draft → List Draft
  | _, [] => []
  | b, d :: drafts =>
    match b.append d.header d.source with
    | (b, .ok _) => d :: b.succeeded drafts
    | (b, .error _) => b.succeeded drafts

lemma append_of_holdsNul (b : Builder τ) {d : Draft} (h : holdsNul d.header.name = true) :
    b.append d.header d.source = (b, .error (.nameHoldsNul d.header.name)) := by
  simp only [append, putHeader, MemberHeader.write, h, if_true]

end Append

variable {b : Builder Sink} {d : Draft} {drafts before rest : List Draft}

lemma append_of_size_lt (unbounded : b.sink.limit = none) (hnul : holdsNul d.header.name = false)
    (hsize : d.source.rest.size < d.header.fileSize.toNat) :
    ∃ e, b.append d.header d.source =
      (⟨{ b.sink with accepted := b.sink.accepted ++ (d.header.bytes ++ d.source.rest) },
        b.offset + d.header.bytes.size⟩, .error e) := by
  have h₁ := Sink.write_of_limit unbounded d.header.bytes
  set s₁ : Sink := { b.sink with accepted := b.sink.accepted ++ d.header.bytes }
  have h₂ := Sink.write_of_limit (s := s₁) unbounded d.source.rest
  have hwrite : d.header.write b.sink = (s₁, .ok d.header.bytes.size) := by
    simp only [MemberHeader.write, hnul, Bool.false_eq_true, if_false, h₁]
  have htake : d.source.take d.header.fileSize.toNat = d.source := by
    rw [Source.take, extract_of_size_le (Nat.le_of_lt hsize), if_neg (Nat.not_le_of_lt hsize)]
  simp only [append, putHeader, hwrite, putData, htake, h₂, ← ByteArray.append_assoc]
  cases d.source.failure with
  | some e => exact ⟨_, rfl⟩
  | none =>
    simp only [ne_eq, Nat.ne_of_lt hsize, not_false_eq_true, if_true]
    exact ⟨_, rfl⟩

/-- **What an append leaves** in a sink that takes everything, and whether it succeeds. -/
lemma append_eq_trace (unbounded : b.sink.limit = none) (d : Draft) :
    (b.append d.header d.source).1.sink =
        { b.sink with accepted := b.sink.accepted ++ d.trace } ∧
      ((∃ n, (b.append d.header d.source).2 = .ok n) ↔ d.Accepted) := by
  cases hnul : holdsNul d.header.name with
  | true =>
    rw [append_of_holdsNul b hnul, Draft.trace, if_pos hnul, ByteArray.append_empty]
    exact ⟨rfl, by simp [Draft.Accepted, hnul]⟩
  | false =>
    rw [Draft.trace, hnul, if_neg Bool.false_ne_true]
    by_cases hsize : d.header.fileSize.toNat ≤ d.source.rest.size
    · rw [append_of_limit unbounded hnul hsize, if_pos hsize]
      exact ⟨rfl, by simp [Draft.Accepted, hnul, hsize]⟩
    · obtain ⟨e, he⟩ := append_of_size_lt unbounded hnul (Nat.lt_of_not_le hsize)
      rw [he, if_neg hsize]
      exact ⟨rfl, by simp [Draft.Accepted, hsize]⟩

lemma sink_appendAll (unbounded : b.sink.limit = none) (drafts : List Draft) :
    (b.appendAll drafts).sink =
      { b.sink with accepted := b.sink.accepted ++ concat (drafts.map Draft.trace) } := by
  induction drafts generalizing b with
  | nil => simp [appendAll]
  | cons d drafts ih =>
    obtain ⟨hsink, -⟩ := append_eq_trace unbounded d
    have hrest := ih (b := (b.append d.header d.source).1) (by rw [hsink]; exact unbounded)
    rw [appendAll, List.foldl_cons, ← appendAll, hrest, hsink]
    simp only [List.map_cons, concat_cons, ByteArray.append_assoc]

lemma succeeded_of_limit (unbounded : b.sink.limit = none) (drafts : List Draft) :
    b.succeeded drafts = drafts.filter (·.Accepted) := by
  induction drafts generalizing b with
  | nil => rfl
  | cons d drafts ih =>
    obtain ⟨hsink, hok⟩ := append_eq_trace unbounded d
    have hrest := ih (b := (b.append d.header d.source).1) (by rw [hsink]; exact unbounded)
    rw [succeeded, List.filter_cons, ← hrest]
    cases happend : b.append d.header d.source with
    | mk b' r =>
      rw [happend] at hok
      cases r with
      | ok n => rw [if_pos (decide_eq_true (hok.mp ⟨n, rfl⟩))]
      | error e =>
        have hnot : ¬d.Accepted := fun ha => by simpa using hok.mpr ha
        rw [if_neg (by simpa using hnot)]

lemma finish_appendAll (unbounded : b.sink.limit = none) (flushes : b.sink.flushFails = false)
    (drafts : List Draft) :
    (b.appendAll drafts).finish.2 = .ok () ∧
      (b.appendAll drafts).finish.1.sink.accepted = b.sink.accepted ++
        (concat (drafts.map Draft.trace) ++ MemberHeader.trailer.bytes) := by
  have hsink := sink_appendAll unbounded drafts
  rw [finish_of_limit (by rw [hsink]; exact unbounded) (by rw [hsink]; exact flushes), hsink]
  exact ⟨rfl, ByteArray.append_assoc⟩

/-! ### What is found of the members -/

/-- Whether all members whose append succeeded are found in the finished archive with their data, in
their order. -/
def Keeps (b : Builder Sink) (drafts : List Draft) : Prop :=
  ∃ archive, (b.appendAll drafts).finish.1.sink.accepted = b.sink.accepted ++ archive ∧
    ∃ members last, (Cursor.ofSource (Source.ofBytes archive)).Yields members last ∧
      ((b.succeeded drafts).map Draft.member).Sublist members

/-- A cursor comes to stand behind the members of drafts that do not spoil anything. -/
lemma exists_yields_of_harmless (unbounded : b.sink.limit = none)
    (harmless : ∀ d ∈ before, d.Harmless) (after : ByteArray) :
    ∃ last, (Cursor.ofSource (Source.ofBytes (concat (before.map Draft.trace) ++ after))).Yields
        ((b.succeeded before).map Draft.member) last ∧
      last.finish = (.between (Source.ofBytes after), .ok ()) := by
  have sound : ∀ m ∈ (b.succeeded before).map Draft.member, m.Sound := by
    intro m hm
    rw [succeeded_of_limit unbounded, List.mem_map] at hm
    obtain ⟨d, hd, rfl⟩ := hm
    obtain ⟨hmem, haccepted⟩ := List.mem_filter.mp hd
    exact ((harmless d hmem).sound (of_decide_eq_true haccepted)).member
  rw [Draft.concat_trace harmless, ← succeeded_of_limit unbounded]
  exact Cursor.exists_yields sound rfl

/-- **No member is lost** if nothing succeeds behind what does harm. -/
lemma keeps_of_harmless (unbounded : b.sink.limit = none) (flushes : b.sink.flushFails = false)
    (harmless : ∀ d ∈ before, d.Harmless) (hrest : (b.appendAll before).succeeded rest = []) :
    b.Keeps (before ++ rest) := by
  have unbounded' : (b.appendAll before).sink.limit = none := by
    rw [sink_appendAll unbounded]
    exact unbounded
  have haccepted := (finish_appendAll unbounded flushes (before ++ rest)).2
  rw [List.map_append, concat_append, ByteArray.append_assoc] at haccepted
  obtain ⟨last, hyields, -⟩ := exists_yields_of_harmless unbounded harmless _
  refine ⟨_, haccepted, _, last, hyields, ?_⟩
  rw [succeeded_of_limit unbounded'] at hrest
  rw [succeeded_of_limit unbounded, List.filter_append, hrest, List.append_nil,
    succeeded_of_limit unbounded]

/-! ### What is lost -/

lemma not_keeps_of_yields (unbounded : b.sink.limit = none) (flushes : b.sink.flushFails = false)
    (harmless : ∀ d ∈ before, d.Harmless)
    (hlost : ∀ c : Cursor, c.finish = (.between (Source.ofBytes (concat (rest.map Draft.trace) ++
        MemberHeader.trailer.bytes)), .ok ()) →
      ∃ found last, c.Yields found last ∧
        (∀ entered header, last.next ≠ (entered, .ok (some header))) ∧
        ¬((rest.filter (·.Accepted)).map Draft.member).Sublist found) :
    ¬b.Keeps (before ++ rest) := by
  have haccepted := (finish_appendAll unbounded flushes (before ++ rest)).2
  rw [List.map_append, concat_append, ByteArray.append_assoc] at haccepted
  obtain ⟨last, hyields, hlast⟩ := exists_yields_of_harmless unbounded harmless _
  obtain ⟨found, last', hyields', stops, hnot⟩ := hlost last hlast
  rintro ⟨archive, haccepted', members, last'', hmembers, hsub⟩
  rw [haccepted, ByteArray.append_right_inj] at haccepted'
  subst haccepted'
  have hsub' := hsub.trans ((hyields.append hyields').isPrefix stops hmembers).sublist
  rw [succeeded_of_limit unbounded, succeeded_of_limit unbounded, List.filter_append,
    List.map_append, List.append_sublist_append_left] at hsub'
  exact hnot hsub'

/-- A file of zeros that is as large as can be. -/
def blankDraft : Draft :=
  ⟨{ name := "a", fileSize := 0xffffffff }, Source.ofBytes (replicateByte (2 ^ 32 - 1) 0)⟩

lemma data_blankDraft : blankDraft.member.data = replicateByte (2 ^ 32 - 1) 0 := by
  have hsize : (replicateByte (2 ^ 32 - 1) 0).size ≤ (0xffffffff : UInt32).toNat := by
    rw [size_replicateByte]
    decide
  exact extract_of_size_le hsize

lemma sound_blankDraft : blankDraft.Sound := by
  refine ⟨⟨by decide +kernel, by decide +kernel⟩, by decide +kernel, ?_⟩
  show (0xffffffff : UInt32).toNat ≤ (replicateByte (2 ^ 32 - 1) 0).size
  rw [size_replicateByte]
  decide

lemma replicateByte_append (m n : Nat) (b : UInt8) :
    replicateByte m b ++ replicateByte n b = replicateByte (m + n) b := by
  refine ByteArray.ext ?_
  rw [ByteArray.data_append]
  exact Array.replicate_append_replicate

lemma exists_bytes_blankDraft : ∃ count, 2 ^ 32 - 1 ≤ count ∧
    blankDraft.member.bytes = blankDraft.header.bytes ++ replicateByte count 0 := by
  refine ⟨_, Nat.le_add_right _ (paddingFor 4 blankDraft.member.data.size), ?_⟩
  rw [Member.bytes, ← replicateByte_append, data_blankDraft]
  rfl

lemma size_bytes_blankDraft : 2 ^ 32 + headerSize ≤ blankDraft.member.bytes.size := by
  obtain ⟨count, hcount, hbytes⟩ := exists_bytes_blankDraft
  have hheader := blankDraft.header.headerSize_lt_size_bytes
  rw [hbytes, ByteArray.size_append, size_replicateByte]
  omega

lemma byteAt_append_zeros_ne {front : ByteArray} {start : Nat} {b : UInt8} (hb : b ≠ 0)
    (hfront : ∀ i < front.size, start ≤ i → byteAt front i ≠ b) (count : Nat) {i : Nat}
    (hi : start ≤ i) : byteAt (front ++ replicateByte count 0) i ≠ b := by
  rw [byteAt_append_zeros]
  rcases Nat.lt_or_ge i front.size with hlt | hge
  · exact hfront i hlt hi
  · rw [byteAt_of_size_le hge]
    exact hb.symm

lemma byteAt_bytes_blankDraft {i : Nat} (hi : 4 ≤ i) :
    byteAt blankDraft.member.bytes i ≠ byteAt magic 3 := by
  obtain ⟨count, -, hbytes⟩ := exists_bytes_blankDraft
  have hheader : ∀ i < blankDraft.header.bytes.size, 4 ≤ i →
      byteAt blankDraft.header.bytes i ≠ byteAt magic 3 := by
    decide +kernel
  rw [hbytes]
  exact byteAt_append_zeros_ne (by decide +kernel) hheader count hi

lemma byteAt_bytes_zero (m : Member) (rest : ByteArray) : byteAt (m.bytes ++ rest) 0 ≠ 0 := by
  rw [Member.bytes, m.header.bytes_eq, ByteArray.append_assoc, ByteArray.append_assoc,
    byteAt_append_left (by decide +kernel)]
  decide +kernel

/-- Behind a member with too little data, what is taken for the next magic number lies within a file
of zeros. -/
lemma next_of_blankDraft {c : Cursor} {part rest : ByteArray} {size : Nat} (hshort : part.size < size)
    (hsize : size < 2 ^ 32)
    (hc : c.finish = (Cursor.within (Source.ofBytes (part ++ (blankDraft.member.bytes ++ rest))) size
      (paddingFor 4 size)).finish) : c.next = (.closed, .error .badMagic) := by
  have hlarge := size_bytes_blankDraft
  rw [headerSize] at hlarge
  have hpadding : paddingFor 4 size < 4 := Nat.mod_lt _ (by decide)
  refine Cursor.next_eq_badMagic (Nat.le_of_lt hshort) ?_ ?_ hc
  · rw [ByteArray.size_append]
    omega
  · rw [byteAt_append_left (by omega)]
    exact byteAt_bytes_blankDraft (by omega)

/-- **A file of zeros is lost** behind a member with too little data: its header is among what is
taken for the rest of that data. -/
lemma exists_yields_of_short {c : Cursor} (hl : d.header.Legible) (hname : d.header.name ≠ trailerName)
    (hshort : d.source.rest.size < d.header.fileSize.toNat)
    (hc : c.finish = (.between (Source.ofBytes (concat ([d, blankDraft].map Draft.trace) ++
      MemberHeader.trailer.bytes)), .ok ())) :
    ∃ found last, c.Yields found last ∧
      (∀ entered header, last.next ≠ (entered, .ok (some header))) ∧
      blankDraft.member ∉ found := by
  set after := blankDraft.member.bytes ++ MemberHeader.trailer.bytes with hafter
  have hbytes : concat ([d, blankDraft].map Draft.trace) ++ MemberHeader.trailer.bytes =
      d.trace ++ after := by
    simp only [List.map_cons, List.map_nil, concat_cons, concat_nil, ByteArray.append_empty,
      sound_blankDraft.accepted.trace_eq, ByteArray.append_assoc, hafter]
  rw [hbytes] at hc
  obtain ⟨entered, left, hnext, hread, hleft⟩ := Cursor.exists_step_of_short hl hname hshort hc
  have hstop := next_of_blankDraft hshort (UInt32.toNat_lt _) hleft
  refine ⟨_, left, .cons hnext hread (.nil left), fun _ _ => by simp [hstop], ?_⟩
  rw [List.mem_singleton]
  intro hmember
  have hdata := congrArg (fun m => byteAt m.data d.source.rest.size) hmember
  simp only [data_blankDraft, byteAt_replicateByte_zero] at hdata
  rw [Source.ofBytes, byteAt_extract _ (by omega), Nat.zero_add] at hdata
  refine byteAt_bytes_zero blankDraft.member MemberHeader.trailer.bytes ?_
  exact (byteAt_append_right _ after 0).symm.trans hdata.symm

/-- **A member is lost** behind every draft that does harm. -/
lemma not_keeps_of_not_harmless (unbounded : b.sink.limit = none)
    (flushes : b.sink.flushFails = false) (harmless : ∀ d ∈ before, d.Harmless)
    (hd : ¬d.Harmless) : ¬b.Keeps (before ++ [d, blankDraft]) := by
  obtain ⟨hnul, hsound⟩ := not_or.mp hd
  rw [Bool.not_eq_true] at hnul
  have hmem : blankDraft.member ∈
      ([d, blankDraft].filter (·.Accepted)).map Draft.member :=
    List.mem_map_of_mem (List.mem_filter.mpr
      ⟨by simp, decide_eq_true sound_blankDraft.accepted⟩)
  refine not_keeps_of_yields unbounded flushes harmless fun c hc => ?_
  suffices h : ∃ found last, c.Yields found last ∧
      (∀ entered header, last.next ≠ (entered, .ok (some header))) ∧
      blankDraft.member ∉ found by
    obtain ⟨found, last, hyields, stops, hlost⟩ := h
    exact ⟨found, last, hyields, stops, fun hsub => hlost (hsub.subset hmem)⟩
  by_cases hl : d.header.Legible ∧ d.header.name ≠ trailerName
  · have hshort : d.source.rest.size < d.header.fileSize.toNat :=
      Nat.lt_of_not_le fun hle => hsound ⟨hl.1, hl.2, hle⟩
    exact exists_yields_of_short hl.1 hl.2 hshort hc
  · obtain ⟨body, hbody⟩ := Draft.exists_trace_eq hnul
    refine ⟨[], c, .nil c, fun entered header => ?_, List.not_mem_nil⟩
    rw [Cursor.next_of_finish hc, List.map_cons, concat_cons, hbody, ByteArray.append_assoc,
      ByteArray.append_assoc]
    exact Cursor.enter_ne_of_not_legible hnul hl _ _ _

/-- **Appends that fail.** With a sink that takes everything, an archive can always be ended. As long
as no append left something that cannot be read back, all members that were appended are found,
whether some other appends were refused for their names or not; but an append that left something of
that kind loses some of the members that may be appended behind it. -/
theorem keeps_iff_harmless {sink : Sink} {before : List Draft} (unbounded : sink.limit = none)
    (flushes : sink.flushFails = false) (harmless : ∀ d ∈ before, d.Harmless) :
    let b : Builder Sink := { sink }
    (∀ drafts, (b.appendAll drafts).finish.2 = .ok ()) ∧
    (∀ rest, (b.appendAll before).succeeded rest = [] → b.Keeps (before ++ rest)) ∧
    ∀ d, (∀ after, (∀ d' ∈ after, d'.Sound) → b.Keeps (before ++ d :: after)) ↔ d.Harmless := by
  intro b
  refine ⟨fun drafts => (finish_appendAll (b := b) unbounded flushes drafts).1,
    fun rest => keeps_of_harmless unbounded flushes harmless, fun d => ⟨fun h => ?_, fun hd => ?_⟩⟩
  · by_contra hd
    refine not_keeps_of_not_harmless unbounded flushes harmless hd (h [blankDraft] ?_)
    simpa using sound_blankDraft
  · intro after hafter
    have hall : ∀ d' ∈ before ++ d :: after, d'.Harmless := by
      intro d' hd'
      rcases List.mem_append.mp hd' with hmem | hmem
      · exact harmless d' hmem
      · rcases List.mem_cons.mp hmem with rfl | hmem
        · exact hd
        · exact .inr (hafter d' hmem)
    have hkeeps : b.Keeps ((before ++ d :: after) ++ []) :=
      keeps_of_harmless unbounded flushes hall rfl
    rwa [List.append_nil] at hkeeps

/-- A small file whose name holds a zero byte. -/
def refusedDraft : Draft := ⟨MemberHeader.file "a\x00" 0o644 2, Source.ofBytes "he".toUTF8⟩

def tornDraft : Draft := ⟨MemberHeader.file "a" 0o644 5, Source.ofBytes "he".toUTF8⟩

def wholeDraft : Draft := ⟨MemberHeader.file "b" 0o644 3, Source.ofBytes "xyz".toUTF8⟩

theorem keeps_iff_harmless_refusedDraft :
    let b : Builder Sink := { sink := {} }
    (∀ d ∈ [refusedDraft, wholeDraft], d.Harmless) ∧
    ¬∀ after, (∀ d ∈ after, d.Sound) → b.Keeps ([refusedDraft, wholeDraft] ++ tornDraft :: after) := by
  have harmless : ∀ d ∈ [refusedDraft, wholeDraft], d.Harmless := by
    intro d hd
    simp only [List.mem_cons, List.not_mem_nil, or_false] at hd
    rcases hd with rfl | rfl
    · exact .inl (by decide +kernel)
    · exact .inr ⟨⟨by decide +kernel, by decide +kernel⟩, by decide +kernel, by decide +kernel⟩
  have htorn : ¬tornDraft.Harmless := by
    rintro (hnul | hsound)
    · exact absurd hnul (by decide +kernel)
    · exact absurd hsound.size_le (by decide +kernel)
  obtain ⟨-, -, hiff⟩ := @keeps_iff_harmless {} _ rfl rfl harmless
  exact ⟨harmless, fun h => htorn ((hiff tornDraft).mp h)⟩

/-- The file behind one whose source ends too early is appended without an error, and not found. -/
theorem not_keeps_tornDraft :
    let b : Builder Sink := { sink := {} }
    let drafts := [tornDraft, wholeDraft]
    (b.append tornDraft.header tornDraft.source).2 = .error (.dataSizeMismatch "a" 5 2) ∧
    b.succeeded drafts = [wholeDraft] ∧
    (b.appendAll drafts).finish.2 = .ok () ∧
    ¬b.Keeps drafts := by
  intro b drafts
  have htorn : ¬tornDraft.Accepted := by decide +kernel
  have hwhole : wholeDraft.Accepted := by decide +kernel
  have hfilter : drafts.filter (·.Accepted) = [wholeDraft] := by simp [drafts, htorn, hwhole]
  refine ⟨by decide +kernel, (succeeded_of_limit (b := b) rfl drafts).trans hfilter,
    (finish_appendAll (b := b) rfl rfl drafts).1, ?_⟩
  have hnone : ∀ d ∈ ([] : List Draft), d.Harmless := by simp
  rw [← List.nil_append drafts]
  refine not_keeps_of_yields rfl rfl hnone fun c hc => ?_
  have hbytes : concat (drafts.map Draft.trace) ++ MemberHeader.trailer.bytes =
      tornDraft.trace ++ (wholeDraft.member.bytes ++ MemberHeader.trailer.bytes) := by
    simp only [drafts, List.map_cons, List.map_nil, concat_cons, concat_nil,
      ByteArray.append_empty, hwhole.trace_eq, ByteArray.append_assoc]
  rw [hbytes] at hc
  obtain ⟨entered, left, hnext, hread, hleft⟩ :=
    Cursor.exists_step_of_short ⟨by decide +kernel, by decide +kernel⟩ (by decide +kernel)
      (by decide +kernel) hc
  have hsize := wholeDraft.member.headerSize_lt_size_bytes
  rw [headerSize] at hsize
  have hstop : left.next = (.closed, .error .badMagic) := by
    refine Cursor.next_eq_badMagic (by decide +kernel) ?_ ?_ hleft
    · rw [ByteArray.size_append]
      have hneeded : tornDraft.header.fileSize.toNat +
        paddingFor 4 tornDraft.header.fileSize.toNat + 6 = 14 := by decide +kernel
      omega
    · rw [byteAt_append_left]
      · decide +kernel
      · refine Nat.lt_trans ?_ hsize
        decide +kernel
  refine ⟨_, left, .cons hnext hread (.nil left), fun _ _ => by simp [hstop], ?_⟩
  rw [hfilter, List.map_cons, List.map_nil, List.singleton_sublist, List.mem_singleton]
  intro hmember
  exact absurd (congrArg (·.header.name) hmember) (by decide +kernel)

end Builder

end Rpm.Archive

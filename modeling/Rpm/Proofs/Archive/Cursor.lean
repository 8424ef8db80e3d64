import Rpm.Archive.Cursor
import Rpm.Proofs.Archive.Reader

/-!
Steps of a cursor, told by what is left of its source.

A step first leaves the current member, which needs its remaining bytes and its padding, and then
enters the next one at the bytes behind these. So it takes at least a header from the source, and
all members are read with fuel for one more than there is room for.
-/

namespace Rpm

namespace Source

lemma size_skip (s : Source) (n : Nat) : (s.skip n).rest.size = s.rest.size - n := by
  rw [skip, ByteArray.size_extract, Nat.min_self]

lemma skip_zero (s : Source) : s.skip 0 = s := by
  rw [skip, extract_of_size_le (Nat.le_refl _)]

lemma skip_skip (s : Source) (m n : Nat) : (s.skip m).skip n = s.skip (m + n) := by
  have hend : min (m + (s.rest.size - m)) s.rest.size = s.rest.size := by omega
  simp only [skip, ByteArray.size_extract, ByteArray.extract_extract, Nat.min_self, hend]

lemma skip_append {a : ByteArray} (rest : ByteArray) (failure : Option StreamError) {n : Nat}
    (h : n = a.size) : skip ⟨a ++ rest, failure⟩ n = ⟨rest, failure⟩ := by
  subst h
  rw [skip]
  exact congrArg (Source.mk · failure) (extract_size_append ByteArray.size_append)

end Source

namespace Archive

namespace Cursor

variable {c entered left : Cursor} {s : Source} {header : MemberHeader}

/-! ### Leaving a member -/

/-- **A member is left** with what is behind its remaining bytes and its padding, if there are so
many. -/
lemma finish_within_eq (s : Source) (remaining padding : Nat) :
    (within s remaining padding).finish =
      if remaining + padding ≤ s.rest.size then (.between (s.skip (remaining + padding)), .ok ())
      else (.closed, .error (.stream (s.failure.getD .unexpectedEnd))) := by
  unfold finish Source.readExact
  by_cases hdata : remaining ≤ s.rest.size
  · simp only [if_pos hdata, Source.size_skip, Source.skip_skip]
    by_cases hpadding : padding ≤ s.rest.size - remaining
    · rw [if_pos hpadding, if_pos (by omega)]
    · rw [if_neg hpadding, if_neg (by omega)]
      rfl
  · simp only [if_neg hdata]
    rw [if_neg (by omega)]

/-- Bytes that were taken from a member already make no difference to leaving it. -/
lemma finish_skip {remaining k : Nat} (hk : k ≤ remaining) (hsize : k ≤ s.rest.size)
    (padding : Nat) :
    (within (s.skip k) (remaining - k) padding).finish = (within s remaining padding).finish := by
  have hskip : k + (remaining - k + padding) = remaining + padding := by omega
  have hiff : remaining - k + padding ≤ s.rest.size - k ↔ remaining + padding ≤ s.rest.size := by
    omega
  simp only [finish_within_eq, Source.size_skip, Source.skip_skip, hskip, hiff]
  rfl

lemma next_of_finish (hc : c.finish = (.between s, .ok ())) : c.next = enter s := by
  simp only [next, hc]

lemma next_of_finish_error {e : ArchiveError} (hc : c.finish = (left, .error e)) :
    c.next = (left, .error e) := by
  simp only [next, hc]

/-- The next step depends on nothing but what leaving the current member comes to. -/
lemma next_congr {c' : Cursor} (h : c.finish = c'.finish) : c.next = c'.next := by
  simp only [next, h]

/-! ### Entering a member -/

/-- **What has been read** where a cursor enters a member: the magic number and the bytes of its
header, whose name is not that of a trailer. -/
structure Enters (s : Source) (header : MemberHeader) (body : Source) (bytes : ByteArray) :
    Prop where
  source_eq : s = ⟨magic ++ (bytes ++ body.rest), body.failure⟩
  consumes : Consumes MemberHeader.read bytes header
  name_ne : header.name ≠ trailerName

/-- Behind the magic number, it is the header that says where a cursor comes to stand. -/
lemma enter_magic (bytes : ByteArray) (failure : Option StreamError) :
    enter ⟨magic ++ bytes, failure⟩ =
      match MemberHeader.read ⟨bytes, failure⟩ with
      | .error e => (.closed, .error e)
      | .ok (header, s) =>
        if header.name = trailerName then (.closed, .ok none)
        else (.within s header.fileSize.toNat (paddingFor 4 header.fileSize.toNat),
          .ok (some header)) := by
  have hmagic : 6 = magic.size := by decide +kernel
  unfold enter
  rw [Source.readExact_append bytes failure hmagic]
  exact if_neg (not_not_intro rfl)

lemma enter_eq_closed_or (s : Source) :
    (enter s).1 = .closed ∨ ∃ header, (enter s).2 = .ok (some header) := by
  unfold enter
  split
  · exact .inl rfl
  · exact .inl rfl
  split_ifs
  · exact .inl rfl
  split
  · exact .inl rfl
  split_ifs
  · exact .inl rfl
  · exact .inr ⟨_, rfl⟩

lemma exists_enters (h : enter s = (entered, .ok (some header))) :
    ∃ body bytes, Enters s header body bytes ∧
      entered = .within body header.fileSize.toNat (paddingFor 4 header.fileSize.toNat) := by
  unfold enter at h
  split at h
  · simp at h
  · simp at h
  rename_i front s₁ hfront
  obtain ⟨-, hrest, hfailure⟩ := Source.readExact_eq_ok hfront
  split_ifs at h with hmagic
  · simp at h
  split at h
  · simp at h
  rename_i header' body hread
  split_ifs at h with hname
  · simp at h
  obtain ⟨rfl, hheader⟩ := Prod.mk.inj h
  obtain rfl : header' = header := by simpa using hheader
  obtain ⟨bytes, rfl, hconsumes⟩ := MemberHeader.sequential_read _ _ _ hread
  obtain rfl : front = magic := not_not.mp hmagic
  refine ⟨body, bytes, ⟨?_, hconsumes, hname⟩, rfl⟩
  rw [← hrest]
  exact congrArg (Source.mk s.rest) hfailure.symm

namespace Enters

variable {body : Source} {bytes : ByteArray}

lemma legible (h : Enters s header body bytes) : header.Legible :=
  MemberHeader.legible_of_read (h.consumes.reads ByteArray.empty none)

/-- **Entering a member takes its header**, as many bytes as it has when it is written. -/
lemma size_eq (h : Enters s header body bytes) :
    s.rest.size = header.bytes.size + body.rest.size := by
  have hread := MemberHeader.size_of_read (h.consumes.reads body.rest body.failure)
  rw [h.source_eq, ByteArray.size_append]
  exact hread

end Enters

lemma exists_enters_of_next (h : c.next = (entered, .ok (some header))) :
    ∃ s body bytes, c.finish = (.between s, .ok ()) ∧ Enters s header body bytes ∧
      entered = .within body header.fileSize.toNat (paddingFor 4 header.fileSize.toNat) := by
  unfold next at h
  split at h
  · simp at h
  · rename_i s hfinish
    obtain ⟨body, bytes, henters, hentered⟩ := exists_enters h
    exact ⟨s, body, bytes, hfinish, henters, hentered⟩
  · simp at h

/-! ### All members -/

/-- What comes of stepping over all members from a cursor on and reading the data of each. -/
inductive Reads : Cursor → Except MembersError (List Member) → Prop
  | done {c left : Cursor} (next : c.next = (left, .ok none)) : Reads c (.ok [])
  | badHeader {c left : Cursor} {e : ArchiveError} (next : c.next = (left, .error e)) :
    Reads c (.error (.header e))
  | badData {c entered left : Cursor} {header : MemberHeader} {e : StreamError}
    (next : c.next = (entered, .ok (some header))) (readAll : entered.readAll = (left, .error e)) :
    Reads c (.error (.data e))
  | member {c entered left : Cursor} {header : MemberHeader} {data : ByteArray}
    {r : Except MembersError (List Member)} (next : c.next = (entered, .ok (some header)))
    (readAll : entered.readAll = (left, .ok data)) (rest : Reads left r) :
    Reads c (r.map (⟨header, data⟩ :: ·))

/-- How many bytes of its source a cursor has not read yet. -/
def unread : Cursor → Nat
  | .between s | .within s _ _ => s.rest.size
  | .closed => 0

lemma fuel_eq (c : Cursor) : c.fuel = c.unread / headerSize + 1 := by cases c <;> rfl

lemma size_le_of_finish (h : c.finish = (.between s, .ok ())) : s.rest.size ≤ c.unread := by
  cases c with
  | between source =>
    obtain ⟨hsource, -⟩ := Prod.mk.inj h
    rw [Cursor.between.inj hsource]
    exact Nat.le_refl _
  | within source remaining padding =>
    rw [finish_within_eq] at h
    split_ifs at h with hsize
    · obtain ⟨hsource, -⟩ := Prod.mk.inj h
      rw [← Cursor.between.inj hsource, Source.size_skip]
      exact Nat.sub_le _ _
    · simp at h
  | closed => simp [finish] at h

/-- **A step to a member takes its header**, besides what was left of the member before. -/
lemma size_add_unread_le (h : c.next = (entered, .ok (some header))) :
    header.bytes.size + entered.unread ≤ c.unread := by
  obtain ⟨s, body, bytes, hfinish, henters, rfl⟩ := exists_enters_of_next h
  exact henters.size_eq ▸ size_le_of_finish hfinish

lemma unread_readAll_le (c : Cursor) : c.readAll.1.unread ≤ c.unread := by
  cases c with
  | within source remaining padding =>
    show (source.skip _).rest.size ≤ source.rest.size
    rw [Source.size_skip]
    exact Nat.sub_le _ _
  | between | closed => exact Nat.le_refl _

lemma fuel_lt_of_next (h : c.next = (entered, .ok (some header))) : entered.fuel < c.fuel := by
  have hsize : headerSize + entered.unread ≤ c.unread :=
    Nat.le_trans (Nat.add_le_add_right (Nat.le_of_lt header.headerSize_lt_size_bytes) _)
      (size_add_unread_le h)
  have hdiv : entered.unread / headerSize + 1 ≤ c.unread / headerSize := by
    rw [← Nat.add_div_right _ (by decide), Nat.add_comm]
    exact Nat.div_le_div_right hsize
  rw [fuel_eq, fuel_eq]
  exact Nat.succ_lt_succ hdiv

lemma fuel_readAll_le (c : Cursor) : c.readAll.1.fuel ≤ c.fuel := by
  rw [fuel_eq, fuel_eq]
  exact Nat.succ_le_succ (Nat.div_le_div_right c.unread_readAll_le)

lemma reads_go {fuel : Nat} (hfuel : c.fuel ≤ fuel) : Reads c (members.go fuel c) := by
  induction fuel generalizing c with
  | zero => cases c <;> exact absurd hfuel (Nat.not_succ_le_zero _)
  | succ fuel ih =>
    unfold members.go
    split
    · rename_i hnext
      exact .badHeader hnext
    · rename_i hnext
      exact .done hnext
    · rename_i entered header hnext
      have hentered := fuel_lt_of_next hnext
      have hleft := fuel_readAll_le entered
      split
      · rename_i hread
        exact .badData hnext hread
      · rename_i left data hread
        simp only [hread] at hleft
        exact .member hnext hread (ih (by omega))

lemma Reads.unique {r r' : Except MembersError (List Member)} (h : Reads c r) (h' : Reads c r') :
    r = r' := by
  induction h generalizing r' with
  | done next | badHeader next | badData next readAll => cases h' <;> simp_all
  | member next readAll _ ih =>
    cases h' with
    | done next' | badHeader next' | badData next' readAll' => simp_all
    | member next' readAll' rest' =>
      rw [next] at next'
      simp only [Prod.mk.injEq, Except.ok.injEq, Option.some.injEq] at next'
      obtain ⟨rfl, rfl⟩ := next'
      rw [readAll] at readAll'
      simp only [Prod.mk.injEq, Except.ok.injEq] at readAll'
      obtain ⟨rfl, rfl⟩ := readAll'
      rw [ih rest']

/-- **Reading all members**, without fuel. -/
lemma members_eq_iff {r : Except MembersError (List Member)} : c.members = r ↔ Reads c r := by
  have hreads : Reads c c.members := reads_go (Nat.le_refl _)
  exact ⟨fun h => h ▸ hreads, hreads.unique⟩

end Cursor

end Archive

end Rpm

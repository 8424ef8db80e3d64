import Rpm.Proofs.Archive.Interleaving

/-!
Iterating over the members of an archive.

Whatever a source holds, an iteration comes to an end. Each step to a member takes its header, which
is 112 bytes at least, and a step that does not lead to one closes the cursor. A closed cursor
answers every call in one way, so that there is no item behind the first error, and none behind the
end.
-/

namespace Rpm.Archive

/-- The shortest header is that of a member without a name: with the zero byte and one more that
fills it up. -/
lemma MemberHeader.le_size_bytes (h : MemberHeader) : 112 ≤ h.bytes.size := by
  obtain ⟨k, hk⟩ := h.dvd_size_bytes
  have hlt : 110 < h.bytes.size := h.headerSize_lt_size_bytes
  omega

/-- What is answered when there is no current member: no step leads to one, and there is none to
read from. -/
def CursorCall.answerAtEnd : CursorCall → CursorAnswer
  | .next => .step (.ok none)
  | .read _ | .readAll => .data (.error .other)

namespace Cursor

open CursorAnswer

variable {c entered : Cursor} {header : MemberHeader}

/-! ### The end -/

lemma next_eq_closed_or (c : Cursor) :
    c.next.1 = .closed ∨ ∃ header, c.next.2 = .ok (some header) := by
  cases c with
  | between s => exact enter_eq_closed_or s
  | within s remaining padding =>
    by_cases hsize : remaining + padding ≤ s.rest.size
    · rw [next_of_finish ((finish_within_eq s remaining padding).trans (if_pos hsize))]
      exact enter_eq_closed_or _
    · rw [next_of_finish_error ((finish_within_eq s remaining padding).trans (if_neg hsize))]
      exact .inl rfl
  | closed => exact .inl rfl

lemma call_closed (k : CursorCall) : closed.call k = (.closed, k.answerAtEnd) := by
  cases k <;> rfl

/-- **A closed cursor stays closed.** -/
lemma run_closed (calls : List CursorCall) :
    closed.run calls = (.closed, calls.map CursorCall.answerAtEnd) := by
  induction calls with
  | nil => rfl
  | cons k calls ih => rw [run, call_closed, ih, List.map_cons]

lemma run_eq_closed {calls : List CursorCall} {r : Except ArchiveError (Option MemberHeader)}
    (hr : r ∈ steps (c.run calls).2) (hend : ∀ header, r ≠ .ok (some header)) :
    (c.run calls).1 = .closed := by
  induction calls generalizing c with
  | nil => contradiction
  | cons k calls ih =>
    by_cases hk : k = .next
    · subst hk
      rw [run, call, steps_cons_step] at hr
      rcases List.mem_cons.mp hr with rfl | hr
      · have hclosed : c.next.1 = .closed := by
          refine c.next_eq_closed_or.resolve_right ?_
          rintro ⟨header, hheader⟩
          exact hend header hheader
        show (c.next.1.run calls).1 = .closed
        rw [hclosed, run_closed]
      · exact ih hr
    · obtain ⟨answer, hanswer⟩ := exists_data hk c
      rw [run, hanswer, steps_cons_data] at hr
      exact ih hr

/-! ### The items -/

/-- **The items are headers**, as many as there is room for, and then one error at most. -/
lemma exists_headers_go (fuel : Nat) (c : Cursor) :
    ∃ (found : List MemberHeader) (failure : Option ArchiveError),
      headers.go fuel c = found.map .ok ++ failure.toList.map .error ∧
        112 * found.length ≤ c.unread := by
  induction fuel generalizing c with
  | zero => exact ⟨[], none, rfl, Nat.zero_le _⟩
  | succ fuel ih =>
    unfold headers.go
    split
    · exact ⟨[], none, rfl, Nat.zero_le _⟩
    · rename_i e _
      exact ⟨[], some e, rfl, Nat.zero_le _⟩
    · rename_i entered header hnext
      obtain ⟨found, failure, hitems, hsize⟩ := ih entered
      have htaken := size_add_unread_le hnext
      have hheader := header.le_size_bytes
      refine ⟨header :: found, failure, by rw [hitems, List.map_cons, List.cons_append], ?_⟩
      rw [List.length_cons]
      omega

lemma headers_go_closed (fuel : Nat) : headers.go fuel .closed = [] := by
  cases fuel <;> rfl

/-- **Steps lead to the items**, one after another, and then to the end each time. -/
lemma steps_replicate {fuel : Nat} (hfuel : c.fuel ≤ fuel) (n : Nat) :
    steps (c.run (List.replicate n .next)).2 =
      (List.range n).map fun i => (headers.go fuel c)[i]?.sequence := by
  induction n generalizing c fuel with
  | zero => rfl
  | succ n ih =>
    have hclosed : steps (closed.run (List.replicate n .next)).2 =
        (List.range n).map fun _ => .ok none := by
      rw [ih (Nat.le_refl _), headers_go_closed]
      rfl
    have hpos : 0 < c.fuel := c.fuel_eq ▸ Nat.succ_pos _
    obtain ⟨fuel, rfl⟩ := Nat.exists_eq_add_of_lt (Nat.lt_of_lt_of_le hpos hfuel)
    rw [Nat.zero_add] at hfuel ⊢
    rw [List.replicate_succ, List.range_succ_eq_map, List.map_cons, List.map_map, run, call,
      steps_cons_step]
    unfold headers.go
    split
    · rename_i last hnext
      have hlast : last = .closed := by simpa [hnext] using c.next_eq_closed_or
      rw [hnext, hlast, hclosed]
      rfl
    · rename_i last e hnext
      have hlast : last = .closed := by simpa [hnext] using c.next_eq_closed_or
      rw [hnext, hlast, hclosed]
      rfl
    · rename_i entered header hnext
      have hentered : entered.fuel ≤ fuel :=
        Nat.le_of_lt_succ (Nat.lt_of_lt_of_le (fuel_lt_of_next hnext) hfuel)
      rw [hnext, ih hentered]
      rfl

/-- **Iteration ends and is fused.** Whatever a source holds and however it ends, the items are
headers, not more than one for each 112 bytes, and behind them one error at most. As many steps as
are made, with whatever reads in between, lead to the items in turn, and all further ones to the
end. Each step to a header takes at least 112 bytes from the source. And once a step has led to an
error or to the end, the cursor is closed: all further steps lead to the end, and all reads find no
current member. -/
theorem iteration_ends (src : Source) :
    (∃ (found : List MemberHeader) (failure : Option ArchiveError),
      (ofSource src).headers = found.map .ok ++ failure.toList.map .error ∧
        112 * found.length ≤ src.rest.size) ∧
    (∀ calls, steps ((ofSource src).run calls).2 =
      (List.range (calls.count .next)).map fun i => (ofSource src).headers[i]?.sequence) ∧
    (∀ before entered header, ((ofSource src).run before).1.next = (entered, .ok (some header)) →
      112 + entered.unread ≤ ((ofSource src).run before).1.unread) ∧
    ∀ before after r, r ∈ steps ((ofSource src).run before).2 →
      (∀ header, r ≠ .ok (some header)) →
        ((ofSource src).run before).1.run after = (.closed, after.map CursorCall.answerAtEnd) := by
  refine ⟨exists_headers_go _ (ofSource src), fun calls => ?_,
    fun before entered header hnext => ?_, fun before after r hr hend => ?_⟩
  · rw [steps_run rfl calls, List.filter_beq]
    exact steps_replicate (Nat.le_refl _) _
  · have htaken := size_add_unread_le hnext
    have hheader := header.le_size_bytes
    omega
  · rw [run_eq_closed hr hend, run_closed]

def strayTail : ByteArray := "hello".toUTF8 ++ replicateByte 3 0 ++ "070702".toUTF8

def straySource : Source := .ofBytes (fiveBytes.bytes ++ strayTail)

theorem iteration_ends_straySource :
    ∃ entered, (ofSource straySource).next = (entered, .ok (some fiveBytes)) ∧
      112 + entered.unread ≤ straySource.rest.size ∧
      .error .badMagic ∈ steps ((ofSource straySource).run [.next, .read 2, .next]).2 ∧
      ((ofSource straySource).run [.next, .read 2, .next]).1.run [.next, .read 0, .readAll] =
        (.closed, [.step (.ok none), .data (.error .other), .data (.error .other)]) := by
  have hl : fiveBytes.Legible := ⟨by decide +kernel, by decide +kernel⟩
  have hnext : (ofSource straySource).next =
      (.within (.ofBytes strayTail) 5 3, .ok (some fiveBytes)) := by
    rw [next_of_finish (s := straySource) rfl, straySource, Source.ofBytes, enter_bytes hl,
      if_neg (show fiveBytes.name ≠ trailerName by decide)]
    rfl
  have hstray : ((within (.ofBytes strayTail) 5 3).read 2).1.next.2 = .error .badMagic := by
    decide +kernel
  have hmem : .error .badMagic ∈ steps ((ofSource straySource).run [.next, .read 2, .next]).2 := by
    simp only [run, call, hnext, hstray, steps_cons_step, steps_cons_data]
    exact List.mem_cons_of_mem _ List.mem_cons_self
  obtain ⟨-, -, htaken, hclosed⟩ := iteration_ends straySource
  refine ⟨_, hnext, htaken [] _ _ hnext, hmem, hclosed _ [.next, .read 0, .readAll] _ hmem ?_⟩
  intro header h
  cases h

end Cursor

end Rpm.Archive

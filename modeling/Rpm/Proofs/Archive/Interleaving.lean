import Rpm.Proofs.Archive.RoundTrip

/-!
Reading the data of members or not, and in which pieces, makes no difference to the members found.

Where a step leads depends only on what leaving the current member comes to (`Cursor.finish`). A
read takes some bytes of the member, and leaving what is then left of it comes to the same: this holds
of each call, and so of all that are made between two steps. What the reads give is the beginning of
the data, for each of them gives what it takes unless the source fails, and then there is nothing
more. A source that hands out fewer bytes than it is asked for is here one that is asked for fewer.
-/

namespace Rpm

namespace Source

variable {s : Source}

lemma extract_min (s : Source) (n : Nat) :
    s.rest.extract 0 (min n s.rest.size) = s.rest.extract 0 n := by
  rcases Nat.le_total n s.rest.size with h | h
  · rw [Nat.min_eq_left h]
  · rw [Nat.min_eq_right h, extract_of_size_le h, extract_of_size_le (Nat.le_refl _)]

lemma skip_min (s : Source) (n : Nat) : s.skip (min n s.rest.size) = s.skip n := by
  rcases Nat.le_total n s.rest.size with h | h
  · rw [Nat.min_eq_left h]
  · rw [Nat.min_eq_right h, skip, skip, ByteArray.extract_eq_empty_iff.mpr (by simp),
      ByteArray.extract_eq_empty_iff.mpr (by simpa using h)]

lemma extract_zero (s : Source) : s.rest.extract 0 0 = ByteArray.empty :=
  ByteArray.extract_eq_empty_iff.mpr (Nat.zero_le _)

lemma extract_add {m : Nat} (h : m ≤ s.rest.size) (n : Nat) :
    s.rest.extract 0 m ++ (s.skip m).rest.extract 0 n = s.rest.extract 0 (m + n) := by
  have hcut : s.rest = s.rest.extract 0 m ++ (s.skip m).rest := by
    rw [skip, ByteArray.extract_append_extract]
    simp [h]
  have hsize : (s.rest.extract 0 m).size = m := size_extract_of_le (by omega)
  have hpiece := extract_append_add (s.rest.extract 0 m) (s.skip m).rest n
  rw [← hcut, hsize] at hpiece
  exact hpiece.symm

/-- A read gives the next bytes, at most so many; an error is met only behind all of them. -/
lemma read_eq_or (s : Source) (n : Nat) :
    (∃ taken, taken ≤ n ∧ taken ≤ s.rest.size ∧
      s.read n = .ok (s.rest.extract 0 taken, s.skip taken)) ∨
    ∃ e, s.read n = .error e ∧ s.rest.size = 0 := by
  unfold read
  split_ifs with hn hsize
  · exact .inl ⟨0, Nat.zero_le _, Nat.zero_le _, by rw [extract_zero, skip_zero]⟩
  · split
    · exact .inl ⟨0, Nat.zero_le _, Nat.zero_le _, by rw [extract_zero, skip_zero]⟩
    · exact .inr ⟨_, rfl, hsize⟩
  · exact .inl ⟨min n s.rest.size, Nat.min_le_left _ _, Nat.min_le_right _ _, by
      rw [extract_min, skip_min]⟩

/-- Whether a source is the end of another one. -/
def Behind (s src : Source) : Prop := ∃ front, src = ⟨front ++ s.rest, s.failure⟩

lemma Behind.refl (s : Source) : s.Behind s := ⟨ByteArray.empty, by rw [ByteArray.empty_append]⟩

lemma Behind.trans {s' src : Source} (h : s'.Behind src) (hs : s.Behind s') : s.Behind src := by
  obtain ⟨front, rfl⟩ := h
  obtain ⟨back, rfl⟩ := hs
  exact ⟨front ++ back, by rw [ByteArray.append_assoc]⟩

lemma Behind.skip {src : Source} (h : s.Behind src) (n : Nat) : (s.skip n).Behind src := by
  refine h.trans ⟨s.rest.extract 0 n, ?_⟩
  rw [Source.skip, ByteArray.extract_append_extract]
  simp

end Source

namespace Archive

/-- What is asked of a cursor. -/
inductive CursorCall where
  | next
  | read (n : Nat)
  | readAll
  deriving DecidableEq

inductive CursorAnswer where
  /-- What a step led to. -/
  | step (r : Except ArchiveError (Option MemberHeader))
  /-- What was read of a member. -/
  | data (r : Except StreamError ByteArray)

namespace CursorAnswer

/-- What a cursor found at its steps. -/
def steps (answers : List CursorAnswer) :
    List (Except ArchiveError (Option MemberHeader)) :=
  answers.filterMap fun
    | .step r => some r
    | .data _ => none

/-- All the data that a cursor gave. -/
def given (answers : List CursorAnswer) : ByteArray :=
  concat (answers.filterMap fun
    | .data (.ok bytes) => some bytes
    | _ => none)

variable (answers : List CursorAnswer)

@[simp] lemma steps_cons_step (r : Except ArchiveError (Option MemberHeader)) :
    steps (.step r :: answers) = r :: steps answers := rfl

@[simp] lemma steps_cons_data (r : Except StreamError ByteArray) :
    steps (.data r :: answers) = steps answers := rfl

@[simp] lemma given_cons_ok (bytes : ByteArray) :
    given (.data (.ok bytes) :: answers) = bytes ++ given answers := concat_cons _ _

@[simp] lemma given_cons_error (e : StreamError) :
    given (.data (.error e) :: answers) = given answers := rfl

end CursorAnswer

namespace Cursor

def call (c : Cursor) : CursorCall → Cursor × CursorAnswer
  | .next => (c.next.1, .step c.next.2)
  | .read n => ((c.read n).1, .data (c.read n).2)
  | .readAll => (c.readAll.1, .data c.readAll.2)

/-- The cursor after some calls, and the answers to them. -/
def run (c : Cursor) : List CursorCall → Cursor × List CursorAnswer
  | [] => (c, [])
  | k :: calls => (((c.call k).1.run calls).1, (c.call k).2 :: ((c.call k).1.run calls).2)

open CursorAnswer

variable {c c' : Cursor} {s : Source} {k : CursorCall}

/-! ### One read -/

/-- What a read of a source gives that takes so many bytes: these, or an error if the source fails
behind them. -/
inductive Gives (s : Source) (taken : Nat) : Except StreamError ByteArray → Prop
  | ok : Gives s taken (.ok (s.rest.extract 0 taken))
  | error (e : StreamError) (all : taken = s.rest.size) : Gives s taken (.error e)

/-- **A read takes bytes of the member** and gives them. -/
lemma exists_taken (hk : k ≠ .next) (s : Source) (remaining padding : Nat) :
    ∃ taken answer, taken ≤ remaining ∧ taken ≤ s.rest.size ∧ Gives s taken answer ∧
      (within s remaining padding).call k =
        (within (s.skip taken) (remaining - taken) padding, .data answer) := by
  cases k with
  | next => exact absurd rfl hk
  | read n =>
    rcases Source.read_eq_or s (min n remaining) with ⟨taken, hle, hsize, hread⟩ | ⟨e, hread, hsize⟩
    · refine ⟨taken, _, by omega, hsize, .ok, ?_⟩
      have htaken : (s.rest.extract 0 taken).size = taken := size_extract_of_le (by omega)
      simp only [call, read, hread, htaken]
    · refine ⟨0, _, Nat.zero_le _, Nat.zero_le _, .error e hsize.symm, ?_⟩
      simp only [call, read, hread, Source.skip_zero, Nat.sub_zero]
  | readAll =>
    refine ⟨min remaining s.rest.size, (s.take remaining).readAll, Nat.min_le_left _ _,
      Nat.min_le_right _ _, ?_, rfl⟩
    unfold Source.readAll Source.take
    dsimp only
    split_ifs with hle
    · dsimp only
      rw [← s.extract_min]
      exact .ok
    · cases s.failure with
      | none =>
        dsimp only
        rw [← s.extract_min]
        exact .ok
      | some e => exact .error e (Nat.min_eq_right (Nat.le_of_not_le hle))

lemma finish_call (hk : k ≠ .next) : (c.call k).1.finish = c.finish := by
  cases c with
  | within s remaining padding =>
    obtain ⟨taken, answer, hle, hsize, -, hcall⟩ := exists_taken hk s remaining padding
    rw [hcall, finish_skip hle hsize]
  | between | closed => cases k <;> first | rfl | exact absurd rfl hk

lemma exists_data (hk : k ≠ .next) (c : Cursor) : ∃ answer, (c.call k).2 = .data answer := by
  cases k with
  | next => exact absurd rfl hk
  | read | readAll => exact ⟨_, rfl⟩

/-! ### Steps -/

/-- Cursors that are left alike find the same at their steps, however often data is read in between
them. -/
lemma steps_run (h : c.finish = c'.finish) (calls : List CursorCall) :
    steps (c.run calls).2 = steps (c'.run (calls.filter (· == .next))).2 := by
  induction calls generalizing c c' with
  | nil => rfl
  | cons k calls ih =>
    by_cases hk : k = .next
    · subst hk
      rw [List.filter_cons_of_pos rfl]
      simp only [run, call, next_congr h, steps_cons_step, ih rfl]
    · obtain ⟨answer, hanswer⟩ := exists_data hk c
      rw [List.filter_cons_of_neg (by simpa using hk), ← ih ((finish_call hk).trans h), run,
        hanswer, steps_cons_data]

/-! ### Data -/

lemma finish_run {reads : List CursorCall} (hreads : .next ∉ reads) (c : Cursor) :
    (c.run reads).1.finish = c.finish := by
  induction reads generalizing c with
  | nil => rfl
  | cons k reads ih =>
    obtain ⟨hk, hreads⟩ := List.ne_and_not_mem_of_not_mem_cons hreads
    exact (ih hreads _).trans (finish_call hk.symm)

/-- **Reads give the beginning of the data**, all together. -/
lemma exists_given {reads : List CursorCall} (hreads : .next ∉ reads) (s : Source)
    (remaining padding : Nat) :
    ∃ n ≤ remaining, given ((within s remaining padding).run reads).2 = s.rest.extract 0 n := by
  induction reads generalizing s remaining with
  | nil => exact ⟨0, Nat.zero_le _, s.extract_zero.symm⟩
  | cons k reads ih =>
    obtain ⟨hk, hreads⟩ := List.ne_and_not_mem_of_not_mem_cons hreads
    obtain ⟨taken, answer, hle, hsize, hgives, hcall⟩ :=
      exists_taken hk.symm s remaining padding
    obtain ⟨n, hn, hgiven⟩ := ih hreads (s.skip taken) (remaining - taken)
    simp only [run, hcall]
    cases hgives with
    | ok =>
      refine ⟨taken + n, by omega, ?_⟩
      rw [given_cons_ok, hgiven, Source.extract_add hsize]
    | error e all =>
      -- Nothing is left to give.
      refine ⟨0, Nat.zero_le _, ?_⟩
      rw [given_cons_error, hgiven, Source.extract_zero, ByteArray.extract_eq_empty_iff,
        Source.size_skip, all]
      omega

/-! ### Positions -/

/-- Whether what a cursor reads is the end of a source. -/
def Over (src : Source) : Cursor → Prop
  | .between s | .within s _ _ => s.Behind src
  | .closed => True

variable {src : Source}

lemma over_finish (h : c.Over src) : c.finish.1.Over src := by
  cases c with
  | within s remaining padding =>
    rw [finish_within_eq]
    split_ifs
    · exact h.skip _
    · trivial
  | between | closed => exact h

lemma over_enter (h : s.Behind src) : (enter s).1.Over src := by
  rcases enter_eq_closed_or s with hclosed | ⟨header, hheader⟩
  · rw [hclosed]
    trivial
  · have hmember : enter s = ((enter s).1, .ok (some header)) := Prod.ext rfl hheader
    obtain ⟨body, bytes, henters, hentered⟩ := exists_enters hmember
    rw [hentered]
    refine h.trans ⟨magic ++ bytes, ?_⟩
    rw [henters.source_eq, ByteArray.append_assoc]

lemma over_call (h : c.Over src) (k : CursorCall) : (c.call k).1.Over src := by
  by_cases hk : k = .next
  · subst hk
    have hfinish := over_finish h
    show c.next.1.Over src
    unfold next
    split <;> rename_i hc <;> rw [hc] at hfinish
    · exact hfinish
    · exact over_enter hfinish
    · exact hfinish
  · cases c with
    | within s remaining padding =>
      obtain ⟨taken, answer, -, -, -, hcall⟩ := exists_taken hk s remaining padding
      rw [hcall]
      exact h.skip _
    | between | closed => cases k <;> first | exact h | exact absurd rfl hk

lemma over_run (h : c.Over src) (calls : List CursorCall) : (c.run calls).1.Over src := by
  induction calls generalizing c with
  | nil => exact h
  | cons k calls ih => exact ih (over_call h k)

/-- **Reads between steps.** Whatever a source holds and however it ends, as many steps find the
same, however the data of members is read in between them. And whatever was called before, where a
step finds a header, this is what is read behind the next magic number; reads up to the next step give
bytes right behind it, from the first one on and at most as many as the header says; and the next step
enters the bytes behind the data and its padding, or finds the source cut off if it ends before. -/
theorem reads_between_steps (src : Source) :
    (∀ calls calls', calls.count .next = calls'.count .next →
      steps ((ofSource src).run calls).2 = steps ((ofSource src).run calls').2) ∧
    ∀ before reads entered header, .next ∉ reads →
      ((ofSource src).run before).1.next = (entered, .ok (some header)) →
      ∃ front bytes body, src = ⟨front ++ (magic ++ (bytes ++ body.rest)), body.failure⟩ ∧
        MemberHeader.read ⟨bytes ++ body.rest, body.failure⟩ = .ok (header, body) ∧
        (∃ n ≤ header.fileSize.toNat, given (entered.run reads).2 = body.rest.extract 0 n) ∧
        let behind := header.fileSize.toNat + paddingFor 4 header.fileSize.toNat
        (entered.run reads).1.next =
          if behind ≤ body.rest.size then enter (body.skip behind)
          else (.closed, .error (.stream (body.failure.getD .unexpectedEnd))) := by
  refine ⟨fun calls calls' hcount => ?_, fun before reads entered header hreads hnext => ?_⟩
  · rw [steps_run rfl calls, steps_run rfl calls', List.filter_beq, List.filter_beq, hcount]
  · obtain ⟨s, body, bytes, hfinish, henters, rfl⟩ := exists_enters_of_next hnext
    have hover : (ofSource src).Over src := Source.Behind.refl src
    have hs := over_finish (over_run hover before)
    rw [hfinish] at hs
    obtain ⟨front, hfront⟩ := hs
    refine ⟨front, bytes, body, ?_, henters.consumes.reads _ _, exists_given hreads _ _ _, ?_⟩
    · rw [hfront, henters.source_eq]
    · rw [next_congr (finish_run hreads _)]
      simp only [next, finish_within_eq]
      split_ifs <;> rfl

def fiveBytes : MemberHeader := MemberHeader.file "a" 0o644 5

/-- A source that fails within the data of a member. -/
def tornSource : Source := ⟨fiveBytes.bytes ++ "hel".toUTF8, some .other⟩

theorem reads_between_steps_tornSource :
    steps ((ofSource tornSource).run [.next, .read 2, .readAll, .next]).2 =
      steps ((ofSource tornSource).run [.readAll, .next, .read 0, .next]).2 ∧
    ∃ entered, (ofSource tornSource).next = (entered, .ok (some fiveBytes)) ∧
      ∃ front bytes body, tornSource = ⟨front ++ (magic ++ (bytes ++ body.rest)), body.failure⟩ ∧
        MemberHeader.read ⟨bytes ++ body.rest, body.failure⟩ = .ok (fiveBytes, body) ∧
        (∃ n ≤ 5, given (entered.run [.read 2, .readAll]).2 = body.rest.extract 0 n) ∧
        (entered.run [.read 2, .readAll]).1.next =
          if 8 ≤ body.rest.size then enter (body.skip 8)
          else (.closed, .error (.stream (body.failure.getD .unexpectedEnd))) := by
  have hl : fiveBytes.Legible := ⟨by decide +kernel, by decide +kernel⟩
  have hnext : (ofSource tornSource).next =
      (.within ⟨"hel".toUTF8, some .other⟩ 5 3, .ok (some fiveBytes)) := by
    rw [next_of_finish (s := tornSource) rfl, tornSource, enter_bytes hl,
      if_neg (show fiveBytes.name ≠ trailerName by decide)]
    rfl
  obtain ⟨hsteps, hdata⟩ := reads_between_steps tornSource
  exact ⟨hsteps _ _ rfl, _, hnext, hdata [] [.read 2, .readAll] _ _ (by decide) hnext⟩

end Cursor

end Archive

end Rpm

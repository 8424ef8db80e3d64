import Rpm.Proofs.Archive.Rebuilding
import Rpm.Proofs.Archive.Truncation
import Rpm.Proofs.Payload.Recording

/-!
Calls of a recorder, some of which fail.

Each call checks what it is given before it changes anything: a call that fails leaves the recorder as
it was, and any other one adds a processor or a member. So what fails leaves no trace, and the archive
has a member for each file that was added, in the order of the calls. Once a recorder is finished,
all calls fail.
-/

namespace Rpm

open Archive Observation

/-! ### Calls -/

/-- A call, and what it gave: the entry of a file, nothing for a processor, or an error. -/
abbrev Answer (σ : Type) := RecorderCall σ × Except Error (Option PayloadEntry)

namespace Answer

variable {σ : Type}

def succeeded (answers : List (Answer σ)) : List (RecorderCall σ) :=
  (answers.filter (·.2.isOk)).map (·.1)

/-- The processors that were added. -/
def registered (answers : List (Answer σ)) : List σ :=
  (succeeded answers).filterMap RecorderCall.processor?

/-- The files that were added, with their entries. -/
def added (answers : List (Answer σ)) : List (FileRequest × PayloadEntry) :=
  answers.filterMap fun
    | (c, .ok (some e)) => c.request?.map (·, e)
    | _ => none

end Answer

namespace Recorder

variable {σ : Type} [PayloadProcessor σ]

/-- The recorder after a call, and what the call gives. -/
def call (r : Recorder σ) : RecorderCall σ → Recorder σ × Except Error (Option PayloadEntry)
  | .addProcessor processor =>
    match r.addProcessor processor with
    | .error e => (r, .error e)
    | .ok r => (r, .ok none)
  | .addFile path data permissions mtime => entryOf (r.addFile path data permissions mtime)
  | .addSource path source permissions mtime => entryOf (r.addSource path source permissions mtime)
  | .addDirectory path permissions mtime => entryOf (r.addDirectory path permissions mtime)
  | .addSymlink path target mtime => entryOf (r.addSymlink path target mtime)
where
  entryOf (result : Recorder σ × Except Error PayloadEntry) :
      Recorder σ × Except Error (Option PayloadEntry) :=
    (result.1, result.2.map some)

def run (r : Recorder σ) (calls : List (RecorderCall σ)) : Recorder σ :=
  calls.foldl (fun r c => (r.call c).1) r

def answers (r : Recorder σ) : List (RecorderCall σ) → List (Answer σ)
  | [] => []
  | c :: calls => (c, (r.call c).2) :: answers (r.call c).1 calls

/-! ### One call -/

variable {flags : PayloadFlags} {fileDigest : DigestAlgorithm} {processors : List σ}
  {members : List Member} {c : RecorderCall σ} {r : Recorder σ}

/-- What can come of a call: a failure that leaves the recorder as it is, one more processor, or one
more member. -/
inductive Proceeds (flags : PayloadFlags) (fileDigest : DigestAlgorithm) (processors : List σ)
    (members : List Member) : RecorderCall σ → Recorder σ × Except Error (Option PayloadEntry) → Prop
  | failed {c : RecorderCall σ} {e : Error} (hfault : c.fault? (!members.isEmpty) = some e) :
    Proceeds flags fileDigest processors members c
      (filled flags fileDigest processors members, .error e)
  | registered {processor : σ} (hmembers : members = []) :
    Proceeds flags fileDigest processors members (.addProcessor processor)
      (filled flags fileDigest (processors ++ [processor]) members, .ok none)
  | added {c : RecorderCall σ} {q : FileRequest} {e : PayloadEntry}
    (hfault : c.fault? (!members.isEmpty) = none) (hq : c.request? = some q)
    (hadded : q.AddedAs fileDigest (UInt32.ofNat (members.length + 1)) e) :
    Proceeds flags fileDigest processors members c
      (filled flags fileDigest processors (members ++ [q.member e.path]), .ok (some e))

lemma Added.proceeds {q : FileRequest} {result : Recorder σ × Except Error PayloadEntry}
    (hq : c.request? = some q)
    (h : Added flags fileDigest processors members q (c.fault? (!members.isEmpty)) result) :
    Proceeds flags fileDigest processors members c (call.entryOf result) := by
  cases h with
  | failed hfault => exact .failed hfault
  | added hfault hadded => exact .added hfault hq hadded

/-- **Every call** fails without a trace or adds what it is asked for. -/
lemma proceeds_call (flags : PayloadFlags) (fileDigest : DigestAlgorithm) (processors : List σ)
    (members : List Member) (c : RecorderCall σ) : Proceeds flags fileDigest processors members c
      ((filled flags fileDigest processors members).call c) := by
  cases c with
  | addProcessor processor =>
    rw [call, addProcessor_filled]
    cases members with
    | nil => exact .registered rfl
    | cons m members => exact .failed rfl
  | addFile path data permissions mtime =>
    exact (added_addFile path data permissions mtime).proceeds rfl
  | addSource path source permissions mtime =>
    exact (added_addSource path source permissions mtime).proceeds rfl
  | addDirectory path permissions mtime =>
    exact (added_addDirectory path permissions mtime).proceeds rfl
  | addSymlink path target mtime => exact (added_addSymlink path target mtime).proceeds rfl

lemma Proceeds.eq_error_iff {result : Recorder σ × Except Error (Option PayloadEntry)} {e : Error}
    (h : Proceeds flags fileDigest processors members c result) :
    result.2 = .error e ↔ c.fault? (!members.isEmpty) = some e := by
  cases h with
  | failed hfault => rw [hfault, Except.error.injEq, Option.some.injEq]
  | registered hmembers =>
    subst hmembers
    constructor <;> intro h <;> contradiction
  | added hfault hq hadded =>
    rw [hfault]
    constructor <;> intro h <;> contradiction

/-! ### All calls -/

lemma answers_cons (r : Recorder σ) (c : RecorderCall σ) (calls : List (RecorderCall σ)) :
    r.answers (c :: calls) = (c, (r.call c).2) :: (r.call c).1.answers calls :=
  rfl

lemma run_cons (r : Recorder σ) (c : RecorderCall σ) (calls : List (RecorderCall σ)) :
    r.run (c :: calls) = (r.call c).1.run calls :=
  rfl

/-- Whether the calls that fail can be left out: the others give the same, and leave the same recorder
behind. -/
def LeaveNoTrace (r : Recorder σ) (calls : List (RecorderCall σ)) : Prop :=
  r.run (Answer.succeeded (r.answers calls)) = r.run calls ∧
    r.answers (Answer.succeeded (r.answers calls)) = (r.answers calls).filter (·.2.isOk)

lemma LeaveNoTrace.cons_of_ok {r' : Recorder σ} {result : Option PayloadEntry}
    {calls : List (RecorderCall σ)} (hresult : r.call c = (r', .ok result))
    (hrest : r'.LeaveNoTrace calls) : r.LeaveNoTrace (c :: calls) := by
  obtain ⟨hrun, hanswers⟩ := hrest
  have hsucceeded : Answer.succeeded (r.answers (c :: calls)) =
      c :: Answer.succeeded (r'.answers calls) := by
    rw [answers_cons, hresult]
    rfl
  unfold LeaveNoTrace
  rw [hsucceeded, run_cons, run_cons, answers_cons, answers_cons, hresult]
  exact ⟨hrun, congrArg _ hanswers⟩

/-- **What fails leaves no trace.** -/
lemma leaveNoTrace_filled (flags : PayloadFlags) (fileDigest : DigestAlgorithm)
    (processors : List σ) (members : List Member) (calls : List (RecorderCall σ)) :
    (filled flags fileDigest processors members).LeaveNoTrace calls := by
  induction calls generalizing processors members with
  | nil => exact ⟨rfl, rfl⟩
  | cons c calls ih =>
    have hcall := proceeds_call flags fileDigest processors members c
    generalize hresult : (filled flags fileDigest processors members).call c = result at hcall
    cases hcall with
    | failed hfault =>
      unfold LeaveNoTrace
      rw [answers_cons, run_cons, hresult]
      exact ih processors members
    | registered hmembers => exact .cons_of_ok hresult (ih _ members)
    | added hfault hq hadded => exact .cons_of_ok hresult (ih processors _)

/-- Whether files were added as they were asked for, under the numbers that follow some others. -/
def Entered (fileDigest : DigestAlgorithm) (before : Nat)
    (added : List (FileRequest × PayloadEntry)) : Prop :=
  ∀ i (q : FileRequest) (e : PayloadEntry), added[i]? = some (q, e) →
    q.AddedAs fileDigest (UInt32.ofNat (before + i + 1)) e

def membersOf (added : List (FileRequest × PayloadEntry)) : List Member :=
  added.map fun f => f.1.member f.2.path

/-- **What is added** is what the recorder has in the end: a processor for each one that was
registered, and a member for each file. -/
lemma run_filled (flags : PayloadFlags) (fileDigest : DigestAlgorithm) (processors : List σ)
    (members : List Member) (calls : List (RecorderCall σ)) :
    let answers := (filled flags fileDigest processors members).answers calls
    (filled flags fileDigest processors members).run calls =
        filled flags fileDigest (processors ++ Answer.registered answers)
          (members ++ membersOf (Answer.added answers)) ∧
      Entered fileDigest members.length (Answer.added answers) := by
  induction calls generalizing processors members with
  | nil =>
    have hnothing : filled flags fileDigest (processors ++ []) (members ++ []) =
        filled flags fileDigest processors members := by
      rw [List.append_nil, List.append_nil]
    exact ⟨hnothing.symm, fun i q e h => by simp [answers, Answer.added] at h⟩
  | cons c calls ih =>
    intro answers
    have hcall := proceeds_call flags fileDigest processors members c
    generalize hresult : (filled flags fileDigest processors members).call c = result at hcall
    have hanswers : answers = (c, result.2) :: result.1.answers calls := by
      rw [← hresult]
      rfl
    rw [run_cons, hresult, hanswers]
    cases hcall with
    | failed hfault => exact ih processors members
    | @registered processor hmembers =>
      obtain ⟨hrun, hentered⟩ := ih (processors ++ [processor]) members
      rw [List.append_assoc] at hrun
      exact ⟨hrun, hentered⟩
    | @added c q e hfault hq hadded =>
      set rest := (filled flags fileDigest processors (members ++ [q.member e.path])).answers calls
      obtain ⟨hrun, hentered⟩ := ih processors (members ++ [q.member e.path])
      have hregistered : Answer.registered ((c, .ok (some e)) :: rest) = Answer.registered rest :=
        List.filterMap_cons_none (RecorderCall.processor?_eq_none hq)
      have hcons : Answer.added ((c, .ok (some e)) :: rest) = (q, e) :: Answer.added rest :=
        List.filterMap_cons_some (congrArg (Option.map (·, e)) hq)
      rw [List.append_assoc] at hrun
      rw [hregistered, hcons, membersOf, List.map_cons]
      refine ⟨hrun, fun i q' e' hi => ?_⟩
      cases i with
      | zero =>
        obtain ⟨rfl, rfl⟩ := Prod.mk.inj (Option.some.inj hi)
        exact hadded
      | succ i =>
        have hlater := hentered i q' e' hi
        rwa [List.length_append, List.length_singleton, Nat.add_right_comm members.length 1 i,
          Nat.add_assoc members.length i 1] at hlater

/-! ### After the end -/

lemma archive_finish (r : Recorder σ) : r.finish.1.archive = none := by
  obtain ⟨flags, fileDigest, inode, archive⟩ := r
  cases archive with
  | none => rfl
  | some b =>
    simp only [finish]
    split <;> rfl

lemma finish_of_finished (h : r.archive = none) : r.finish.2 = .error .recorderFinished := by
  simp only [finish, h]

lemma append_of_finished (h : r.archive = none) (header : MemberHeader) (data : ByteArray) :
    r.append header data = ({ r with nextInode := r.nextInode + 1 }, .error .recorderFinished) := by
  simp only [append, h]

/-- Whether a recorder is finished and a result is an error. -/
def Refused {α : Type} (result : Recorder σ × Except Error α) : Prop :=
  result.1.archive = none ∧ ∃ e, result.2 = .error e

lemma refused_addContent (h : r.archive = none) (path : String) (file : StoredFile)
    (permissions mtime : UInt32) : Refused (r.addContent path file permissions mtime) := by
  unfold addContent
  split
  · exact ⟨h, _, rfl⟩
  · split_ifs
    · exact ⟨h, _, rfl⟩
    · simp only [append_of_finished h]
      exact ⟨h, _, rfl⟩

/-- Whatever is called when a recorder is finished, the call fails and the recorder stays finished. -/
lemma refused_call (h : r.archive = none) (c : RecorderCall σ) : Refused (r.call c) := by
  have hentry : ∀ result : Recorder σ × Except Error PayloadEntry, Refused result →
      Refused (call.entryOf result) := by
    rintro ⟨r', result⟩ ⟨hfinished, e, rfl⟩
    exact ⟨hfinished, e, rfl⟩
  cases c with
  | addProcessor processor =>
    simp only [call, addProcessor, h]
    exact ⟨h, _, rfl⟩
  | addFile path data permissions mtime => exact hentry _ (refused_addContent h path _ _ _)
  | addSource path source permissions mtime =>
    refine hentry _ ?_
    simp only [addSource, h, Option.isNone_none, if_true]
    exact ⟨h, _, rfl⟩
  | addDirectory path permissions mtime =>
    refine hentry _ ?_
    unfold addDirectory
    split
    · exact ⟨h, _, rfl⟩
    · simp only [append_of_finished h]
      exact ⟨h, _, rfl⟩
  | addSymlink path target mtime =>
    refine hentry _ ?_
    unfold addSymlink
    split
    · exact ⟨h, _, rfl⟩
    · split_ifs
      · exact ⟨h, _, rfl⟩
      · simp only [append_of_finished h]
        exact ⟨h, _, rfl⟩

/-- **A finished recorder** stays finished, and all calls fail. -/
lemma answers_of_finished (h : r.archive = none) (calls : List (RecorderCall σ)) :
    (r.run calls).archive = none ∧ ∀ answer ∈ r.answers calls, ∃ e, answer.2 = .error e := by
  induction calls generalizing r with
  | nil => exact ⟨h, fun answer hanswer => absurd hanswer List.not_mem_nil⟩
  | cons c calls ih =>
    obtain ⟨hfinished, herror⟩ := refused_call h c
    obtain ⟨hlast, hrest⟩ := ih hfinished
    refine ⟨hlast, fun answer hanswer => ?_⟩
    rcases List.mem_cons.mp hanswer with rfl | hanswer
    · exact herror
    · exact hrest answer hanswer

/-! ### Reading back -/

/-- Whether a member and an entry both say what was asked for, of the file that was added in a
place. -/
structure Recorded (fileDigest : DigestAlgorithm) (i : Nat) (q : FileRequest) (e : PayloadEntry)
    (m : Member) : Prop where
  path : Path.normalize q.path = .ok e.path
  name : m.header.name = "." ++ e.path
  inode : m.header.inode = UInt32.ofNat (i + 1)
  fileType : m.header.fileType = q.kind.bits
  permissions : m.header.permissions = q.permissions &&& ~~~typeMask
  mtime : m.header.mtime = q.mtime
  data : m.data = q.content
  entry_inode : e.inode = m.header.inode
  entry_size : e.size = m.data.size ∧ m.header.fileSize.toNat = m.data.size
  entry_digest : e.digest = if m.header.isFile then some (fileDigest.digest m.data) else none

lemma recorded_of_addedAs {i : Nat} {q : FileRequest} {e : PayloadEntry}
    (h : q.AddedAs fileDigest (UInt32.ofNat (i + 1)) e) (hsize : q.content.size < 2 ^ 32) :
    Recorded fileDigest i q e ((q.member e.path).withInode (UInt32.ofNat (i + 1))) := by
  have hdata : (q.member e.path).data = q.content := q.data_member e.path hsize
  have htype : (q.member e.path).header.fileType = q.kind.bits := q.fileType_member e.path
  have hinode : e.inode = UInt32.ofNat (i + 1) := congrArg PayloadEntry.inode h.eq_entry
  have hentry : e.size = q.content.size := congrArg PayloadEntry.size h.eq_entry
  have hdigest := congrArg PayloadEntry.digest h.eq_entry
  exact {
    path := h.path
    name := rfl
    inode := rfl
    fileType := htype
    permissions := q.permissions_member e.path
    mtime := rfl
    data := hdata
    entry_inode := hinode
    entry_size :=
      ⟨hentry.trans (congrArg ByteArray.size hdata).symm, (q.size_data_member e.path).symm⟩
    entry_digest := by
      have hfile : ((q.member e.path).withInode (UInt32.ofNat (i + 1))).header.isFile =
          decide (q.kind = .regular) := by
        rw [MemberHeader.isFile, decide_eq_decide, ← q.kind.bits_eq_regularFile_iff]
        exact Eq.congr_left htype
      have hdata' : ((q.member e.path).withInode (UInt32.ofNat (i + 1))).data = q.content := hdata
      rw [hfile, hdata', hdigest]
      simp only [FileRequest.entry, decide_eq_true_eq] }

/-- Whether the sizes of the name and of the data of a file fit into their fields. Only that of the
target of a symbolic link is in question, as larger files are not added. -/
def Fits (f : FileRequest × PayloadEntry) : Prop :=
  f.2.path.utf8ByteSize + 2 < 2 ^ 32 ∧ (f.1.kind = .symbolicLink → f.2.size < 2 ^ 32)

lemma size_content_lt {inode : UInt32} {q : FileRequest} {e : PayloadEntry}
    (h : q.AddedAs fileDigest inode e) (hfits : Fits (q, e)) : q.content.size < 2 ^ 32 := by
  have hsize : e.size = q.content.size := congrArg PayloadEntry.size h.eq_entry
  by_cases hkind : q.kind = .symbolicLink
  · exact hsize ▸ hfits.2 hkind
  · exact h.size_lt hkind

lemma getElem?_numbered_membersOf (added : List (FileRequest × PayloadEntry)) (i : Nat) :
    (numbered (membersOf added))[i]? =
      added[i]?.map fun f => (f.1.member f.2.path).withInode (UInt32.ofNat (i + 1)) := by
  rw [getElem?_numbered, membersOf, List.getElem?_map, Option.map_map]
  rfl

/-- Whether an archive is read as the files that were added: a member of each, in their order. -/
def ReadBackAs (fileDigest : DigestAlgorithm) (archive : ByteArray)
    (added : List (FileRequest × PayloadEntry)) : Prop :=
  ∃ members, (Cursor.ofSource (Source.ofBytes archive)).members = .ok members ∧
    members.length = added.length ∧
    ∀ i q e m, added[i]? = some (q, e) → members[i]? = some m → Recorded fileDigest i q e m

lemma readBackAs_of_fits {added : List (FileRequest × PayloadEntry)}
    (hentered : Entered fileDigest 0 added) (hfits : ∀ f ∈ added, Fits f) :
    ReadBackAs fileDigest (archiveBytes (numbered (membersOf added))) added := by
  have hadded : ∀ i (q : FileRequest) e, added[i]? = some (q, e) →
      q.AddedAs fileDigest (UInt32.ofNat (i + 1)) e := by
    intro i q e hi
    have h := hentered i q e hi
    rwa [Nat.zero_add] at h
  have hsound : ∀ m ∈ numbered (membersOf added), m.Sound := by
    refine sound_of_mem_numbered fun m hm inode => ?_
    obtain ⟨⟨q, e⟩, hf, rfl⟩ := List.mem_map.mp hm
    obtain ⟨i, hi⟩ := List.getElem?_of_mem hf
    exact Member.sound_withInode rfl (Path.normalize_normalize (hadded i q e hi).path)
      (hfits _ hf).1 (q.size_data_member e.path) inode
  refine ⟨_, Cursor.members_archiveBytes hsound, ?_, fun i q e m hq hm => ?_⟩
  · rw [length_numbered, membersOf, List.length_map]
  · rw [getElem?_numbered_membersOf, hq] at hm
    obtain rfl := Option.some.inj hm
    have h := hadded i q e hq
    exact recorded_of_addedAs h (size_content_lt h (hfits _ (List.mem_of_getElem? hq)))

/-- A member that can be read is sound, so that nothing of it was cut. -/
lemma Recorded.fits {i : Nat} {q : FileRequest} {e : PayloadEntry} {m : Member}
    (h : Recorded fileDigest i q e m) (sound : m.Sound) : Fits (q, e) := by
  have hname := sound.legible.size_lt
  have hpoint : ".".utf8ByteSize = 1 := by decide
  rw [h.name, String.utf8ByteSize_append, hpoint] at hname
  have hpath : e.path.utf8ByteSize + 2 < 2 ^ 32 := by omega
  refine ⟨hpath, fun _ => ?_⟩
  rw [h.entry_size.1, ← h.entry_size.2]
  exact m.header.fileSize.toNat_lt

/-- **The archive** of files that were added is read back exactly if all sizes fit. -/
lemma readBackAs_iff {added : List (FileRequest × PayloadEntry)}
    (hentered : Entered fileDigest 0 added) :
    ReadBackAs fileDigest (archiveBytes (numbered (membersOf added))) added ↔
      ∀ f ∈ added, Fits f := by
  constructor
  · rintro ⟨members, hread, hlength, hrecorded⟩ ⟨q, e⟩ hf
    obtain ⟨i, hi⟩ := List.getElem?_of_mem hf
    have hlt : i < members.length := hlength ▸ (List.getElem?_eq_some_iff.mp hi).1
    have sound := (Cursor.members_eq_iff.mp hread).sound _ (List.getElem_mem hlt)
    exact (hrecorded i q e _ hi (List.getElem?_eq_getElem hlt)).fits sound
  · exact readBackAs_of_fits hentered

/-- **Round trip of a recorder without compression.** Of any calls, exactly those fail that something
is wrong with, and they leave no trace: without them, all others give the same, and the recorder is
the same. The end gives the archive, and the header that the registered processors make, to all of
which the archive has been shown. From the archive, a member is read for each file that was added, in
the order of the calls, and the member, the entry that the call gave and what was asked for agree; but
if a path or a target is so long that its size cannot be said, that is not so. From then on, all calls
fail, and so does another end. -/
theorem run_round_trip {given : Option PayloadFlags} {fileDigest : DigestAlgorithm}
    {r : Recorder σ} (fresh : Recorder.new .none given fileDigest = .ok r)
    (calls : List (RecorderCall σ)) :
    (∀ before c e, ((r.run before).call c).2 = .error e ↔
      c.fault? (!(Answer.added (r.answers before)).isEmpty) = some e) ∧
    (r.run (Answer.succeeded (r.answers calls)) = r.run calls ∧
      r.answers (Answer.succeeded (r.answers calls)) = (r.answers calls).filter (·.2.isOk)) ∧
    (∃ archive seen, concat (archivePieces seen) = archive ∧
      concat (payloadPieces seen) = archive ∧
      (r.run calls).finish.2 = (PayloadStream.finishProcessors
        ((Answer.registered (r.answers calls)).map (allShownTo seen))).map (fun header =>
          { bytes := archive, archiveSize := archive.size, payloadSize := archive.size,
            flags := r.flags, header }) ∧
      (ReadBackAs fileDigest archive (Answer.added (r.answers calls)) ↔
        ∀ f ∈ Answer.added (r.answers calls), Fits f)) ∧
    ∀ more : List (RecorderCall σ),
      (∀ answer ∈ (r.run calls).finish.1.answers more, ∃ e, answer.2 = .error e) ∧
        ((r.run calls).finish.1.run more).finish.2 = .error .recorderFinished := by
  obtain ⟨flags, hflags, rfl⟩ := eq_filled_of_new fresh
  refine ⟨fun before c e => ?_, leaveNoTrace_filled flags fileDigest [] [] calls, ?_,
    fun more => ?_⟩
  · obtain ⟨hrun, -⟩ := run_filled flags fileDigest [] [] before
    rw [hrun, (proceeds_call flags fileDigest _ _ c).eq_error_iff, List.nil_append, membersOf,
      List.isEmpty_map]
  · obtain ⟨hrun, hentered⟩ := run_filled flags fileDigest [] [] calls
    set added := Answer.added ((filled flags fileDigest [] []).answers calls)
    obtain ⟨pieces, seen, harchive, hseen, hshown, hfinish⟩ := finish_filled flags fileDigest
      ([] ++ Answer.registered ((filled flags fileDigest [] []).answers calls))
      ([] ++ membersOf added)
    have hpayload : flags.coding.compressor.run pieces = concat pieces := by
      rw [hflags]
      exact Compressor.run_identity pieces
    rw [← hrun, hpayload] at hfinish
    refine ⟨concat pieces, seen, hseen, hshown.trans hpayload, hfinish, ?_⟩
    rw [harchive]
    exact readBackAs_iff hentered
  · have hfinished := archive_finish ((filled flags fileDigest [] []).run calls)
    obtain ⟨hlast, herrors⟩ := answers_of_finished hfinished more
    exact ⟨herrors, finish_of_finished hlast⟩

/-- Calls of which every other one fails: a path that leads elsewhere, a processor that comes too late,
a source that fails, and a symbolic link without a target. -/
def faultyCalls : List (RecorderCall PayloadDigester) := [
  .addProcessor { algorithm := .sha256 },
  .addFile "usr/../tool" ⟨#[1]⟩ 0o644 0,
  .addFile "usr//bin/tool" ⟨#[1, 2, 3]⟩ 0o104755 7,
  .addProcessor { algorithm := .md5 },
  .addDirectory "./usr/bin/" 0o700 8,
  .addSource "/srv" ⟨⟨#[4]⟩, some .other⟩ 0o644 0,
  .addSource "/srv" (Source.ofBytes ⟨#[4]⟩) 0o600 9,
  .addSymlink "/bin" "" 0,
  .addSymlink "/bin" "usr/bin" 10]

theorem run_round_trip_faultyCalls :
    ∃ r : Recorder PayloadDigester, ∃ archive header members,
      Recorder.new .none none .sha256 = .ok r ∧
      (r.answers faultyCalls).map (·.2.isOk) =
        [true, false, true, false, true, false, true, false, true] ∧
      r.run (Answer.succeeded (r.answers faultyCalls)) = r.run faultyCalls ∧
      (r.run faultyCalls).finish.2 = .ok ⟨archive, archive.size, archive.size, r.flags, header⟩ ∧
      (Cursor.ofSource (Source.ofBytes archive)).members = .ok members ∧
      members.map (fun m => (m.header.name, m.data.size)) =
        [("./usr/bin/tool", 3), ("./usr/bin", 0), ("./srv", 1), ("./bin", 7)] := by
  have fresh : Recorder.new .none none .sha256 =
      .ok (filled (PayloadFlags.ofCoding .none) .sha256 ([] : List PayloadDigester) []) := rfl
  set r := filled (PayloadFlags.ofCoding .none) .sha256 ([] : List PayloadDigester) []
  obtain ⟨-, ⟨hrun, -⟩, ⟨archive, seen, -, -, hfinish, hread⟩, -⟩ := run_round_trip fresh faultyCalls
  obtain ⟨header, hheader⟩ := PayloadStream.exists_finishProcessors
    ((Answer.registered (r.answers faultyCalls)).map (allShownTo seen))
  rw [hheader] at hfinish
  have hfits : ∀ f ∈ Answer.added (r.answers faultyCalls),
      f.2.path.utf8ByteSize + 2 < 2 ^ 32 ∧ f.2.size < 2 ^ 32 := by
    decide +kernel
  obtain ⟨members, hmembers, hlength, hrecorded⟩ :=
    hread.mpr fun f hf => ⟨(hfits f hf).1, fun _ => (hfits f hf).2⟩
  have hsame : members.map (fun m => (m.header.name, m.data.size)) =
      (Answer.added (r.answers faultyCalls)).map fun f => ("." ++ f.2.path, f.1.content.size) := by
    refine List.ext_getElem (by simp [hlength]) fun i h₁ h₂ => ?_
    rw [List.length_map] at h₁ h₂
    have h := hrecorded i _ _ _ (List.getElem?_eq_getElem h₂) (List.getElem?_eq_getElem h₁)
    rw [List.getElem_map, List.getElem_map, h.name, h.data]
    rfl
  refine ⟨r, archive, header, members, fresh, by decide +kernel, hrun, hfinish, hmembers, ?_⟩
  rw [hsame]
  decide +kernel

/-! ### Targets that are too long -/

/-- **A target is cut** to what the field for its size can say of it. The call succeeds, and its entry
has the whole size, whatever is left of the target. -/
lemma exists_addSymlink (flags : PayloadFlags) (fileDigest : DigestAlgorithm) (processors : List σ)
    (members : List Member) {path normal target : String} (hpath : Path.normalize path = .ok normal)
    (htarget : isTarget target = true) (mtime : UInt32) :
    ∃ m e, (filled flags fileDigest processors members).call (.addSymlink path target mtime) =
        (filled flags fileDigest processors (members ++ [m]), .ok (some e)) ∧
      m.header.name = Path.archiveName normal ∧
      m.header.fileSize.toNat = target.utf8ByteSize % 2 ^ 32 ∧
      m.data = target.toUTF8.extract 0 (target.utf8ByteSize % 2 ^ 32) ∧
      e.size = target.utf8ByteSize ∧ (e.size = m.data.size ↔ target.utf8ByteSize < 2 ^ 32) := by
  set q : FileRequest := ⟨path, .symbolicLink, 0o777, mtime, target.toUTF8⟩
  have hcall := proceeds_call flags fileDigest processors members (.addSymlink path target mtime)
  generalize (filled flags fileDigest processors members).call (.addSymlink path target mtime) =
    result at hcall
  have hfault : RecorderCall.targetFault? path target = none := by
    simp only [RecorderCall.targetFault?, hpath, htarget, if_true]
  cases hcall with
  | failed hfault' => exact absurd (hfault.symm.trans hfault') (by simp)
  | added _ hq hadded =>
    obtain rfl := Option.some.inj hq
    have hnormal := Except.ok.inj (hpath.symm.trans hadded.path)
    have hsize : (UInt32.ofNat target.toUTF8.size).toNat = target.utf8ByteSize % 2 ^ 32 :=
      UInt32.toNat_ofNat'
    have hentry := congrArg PayloadEntry.size hadded.eq_entry
    refine ⟨_, _, rfl, congrArg Path.archiveName hnormal.symm, hsize, ?_, hentry, ?_⟩
    · rw [← hsize]
      rfl
    · rw [hentry, FileRequest.size_data_member]
      show target.utf8ByteSize = (UInt32.ofNat target.toUTF8.size).toNat ↔ _
      rw [hsize]
      omega

/-- A symbolic link with a target of so many letters. -/
def longLink (n : Nat) : RecorderCall PayloadDigester :=
  .addSymlink "/l" (Builder.longName n) 0

lemma isTarget_longName {n : Nat} (hn : 0 < n) : isTarget (Builder.longName n) = true := by
  have hsome : (Builder.longName n).isEmpty = false := by
    rw [String.isEmpty, Builder.utf8ByteSize_longName]
    exact beq_false_of_ne (Nat.ne_of_gt hn)
  rw [isTarget, hsome, Builder.holdsNul_longName]
  rfl

lemma exists_members_longLink {n : Nat} (hn : 0 < n) :
    ∃ (r : Recorder PayloadDigester) (e : PayloadEntry) (payload : FinishedPayload) (m : Member),
      Recorder.new .none none .sha256 = .ok r ∧
      r.answers [longLink n] = [(longLink n, .ok (some e))] ∧
      (r.run [longLink n]).finish.2 = .ok payload ∧
      (Cursor.ofSource (Source.ofBytes payload.bytes)).members = .ok [m] ∧
      e.size = n ∧ m.header.fileSize.toNat = n % 2 ^ 32 ∧ m.data.size = n % 2 ^ 32 := by
  have hpath : Path.normalize "/l" = .ok "/l" := by decide +kernel
  obtain ⟨m, e, hcall, hname, hfield, hdata, hentry, -⟩ := exists_addSymlink
    (.ofCoding .none) .sha256 ([] : List PayloadDigester) [] hpath (isTarget_longName hn) 0
  rw [Builder.utf8ByteSize_longName] at hfield hdata hentry
  have hsize : m.data.size = n % 2 ^ 32 := by
    have htarget : (Builder.longName n).toUTF8.size = n := Builder.utf8ByteSize_longName n
    rw [hdata, size_extract_of_le (htarget.symm ▸ Nat.mod_le n _), Nat.sub_zero]
  have sound : (m.withInode (UInt32.ofNat 1)).Sound :=
    Member.sound_withInode hname hpath (by decide +kernel) (hsize.trans hfield.symm) _
  obtain ⟨pieces, seen, harchive, -, -, hfinish⟩ :=
    finish_filled (.ofCoding .none) .sha256 ([] : List PayloadDigester) [m]
  obtain ⟨header, hheader⟩ := PayloadStream.exists_finishProcessors
    (([] : List PayloadDigester).map (allShownTo seen))
  rw [hheader] at hfinish
  obtain ⟨payload, hpayload, hbytes⟩ : ∃ payload,
      (filled (.ofCoding .none) .sha256 ([] : List PayloadDigester) [m]).finish.2 = .ok payload ∧
        payload.bytes = concat pieces := ⟨_, hfinish, Compressor.run_identity pieces⟩
  have hmembers : (Cursor.ofSource (Source.ofBytes (archiveBytes (numbered [m])))).members =
      .ok [m.withInode (UInt32.ofNat 1)] :=
    Cursor.members_archiveBytes fun m' hm => List.mem_singleton.mp hm ▸ sound
  rw [← harchive, ← hbytes] at hmembers
  refine ⟨filled (.ofCoding .none) .sha256 [] [], e, payload, _, rfl, ?_, ?_, hmembers, hentry,
    hfield, hsize⟩
  · rw [answers_cons, longLink, hcall]
    rfl
  · rw [run_cons, longLink, hcall]
    exact hpayload

/-- Of a target of some bytes more than a field can say, only these are in the archive, and the entry
says otherwise. -/
theorem not_readBackAs_longLink :
    ∃ (r : Recorder PayloadDigester) (e : PayloadEntry) (payload : FinishedPayload) (m : Member),
      Recorder.new .none none .sha256 = .ok r ∧
      r.answers [longLink (2 ^ 32 + 5)] = [(longLink (2 ^ 32 + 5), .ok (some e))] ∧
      (r.run [longLink (2 ^ 32 + 5)]).finish.2 = .ok payload ∧
      (Cursor.ofSource (Source.ofBytes payload.bytes)).members = .ok [m] ∧
      e.size = 2 ^ 32 + 5 ∧ m.header.fileSize.toNat = 5 ∧ m.data.size = 5 ∧
      ¬ReadBackAs .sha256 payload.bytes (Answer.added (r.answers [longLink (2 ^ 32 + 5)])) := by
  have hpos : 0 < 2 ^ 32 + 5 := Nat.succ_pos _
  have hmod : (2 ^ 32 + 5) % 2 ^ 32 = 5 := by decide
  obtain ⟨r, e, payload, m, hnew, hanswers, hfinish, hmembers, hentry, hfield, hsize⟩ :=
    exists_members_longLink hpos
  rw [hmod] at hfield hsize
  refine ⟨r, e, payload, m, hnew, hanswers, hfinish, hmembers, hentry, hfield, hsize, ?_⟩
  rintro ⟨members, hmembers', -, hrecorded⟩
  obtain rfl : [m] = members := Except.ok.inj (hmembers.symm.trans hmembers')
  rw [hanswers] at hrecorded
  have hsame := (hrecorded 0 _ e m rfl rfl).entry_size.1
  rw [hentry, hsize] at hsame
  exact absurd hsame (by decide)

end Recorder

end Rpm

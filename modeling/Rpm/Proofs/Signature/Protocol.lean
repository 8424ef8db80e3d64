import Mathlib.Data.List.Basic
import Rpm.Signature.Processing

/-!
The order of calls that signature processors are held to.

Whatever is called, the calls that are accepted begin a course: processors are added, the size of
the archive is given or left out, the header is given, then the payload in pieces, and then there is
the end. The phase tells how far a course has come, and all processors have been given the same on
the way. What does not come next in the course is refused, and what is refused changes nothing.
-/

namespace Rpm

/-- A call of processors that are fed together. -/
inductive SignatureCall (σ : Type) where
  | add (p : σ)
  | init (archiveSize : UInt64)
  | feedHeader (bytes : ByteArray)
  | feedPayload (piece : ByteArray)
  | finish

/-- The rule that a call breaks if it is out of order. -/
def SignatureCall.rule {σ : Type} : SignatureCall σ → ProtocolRule
  | add _ => .registerFirst
  | init _ => .initOnce
  | feedHeader _ => .headerOnce
  | feedPayload _ => .payloadAfterHeader
  | finish => .finishOnce

/-- Something that a processor is given. -/
inductive Feed where
  | size (archiveSize : UInt64)
  | header (bytes : ByteArray)
  | payload (piece : ByteArray)
  deriving DecidableEq

namespace Feed

variable {σ : Type} [SignatureProcessor σ]

def givenTo (p : σ) : Feed → σ
  | size n => SignatureProcessor.init p n
  | header bytes => SignatureProcessor.feedHeader p bytes
  | payload piece => SignatureProcessor.feedPayload p piece

/-- A processor that has been given these, one after another, and nothing else. -/
def allGivenTo (feeds : List Feed) (p : σ) : σ := feeds.foldl givenTo p

lemma map_allGivenTo_nil (ps : List σ) : ps.map (allGivenTo []) = ps :=
  List.map_id ps

lemma map_allGivenTo_append (feeds more : List Feed) (ps : List σ) :
    ps.map (allGivenTo (feeds ++ more)) = (ps.map (allGivenTo feeds)).map (allGivenTo more) := by
  simp [allGivenTo]

end Feed

open Feed

/-- A course of calls up to the end: what is added and given in it. -/
structure Course (σ : Type) where
  added : List σ
  /-- The size of the archive, which may be left out. -/
  archiveSize : Option UInt64
  header : ByteArray
  pieces : List ByteArray

namespace Course

variable {σ : Type}

def calls (c : Course σ) : List (SignatureCall σ) :=
  c.added.map .add ++ c.archiveSize.toList.map .init ++ [.feedHeader c.header] ++
    c.pieces.map .feedPayload

/-- What each processor is given in a course. -/
def feeds (c : Course σ) : List Feed :=
  c.archiveSize.toList.map .size ++ [.header c.header] ++ c.pieces.map .payload

/-- The course with another piece of the payload. -/
def push (c : Course σ) (piece : ByteArray) : Course σ := { c with pieces := c.pieces ++ [piece] }

lemma calls_push (c : Course σ) (piece : ByteArray) :
    (c.push piece).calls = c.calls ++ [.feedPayload piece] := by
  simp [calls, push]

lemma feeds_push (c : Course σ) (piece : ByteArray) :
    (c.push piece).feeds = c.feeds ++ [.payload piece] := by
  simp [feeds, push]

end Course

namespace SignatureProcessing

variable {σ : Type} [SignatureProcessor σ]

/-- What is left of the processors after a call, and what the call says. A call that fails leaves
them as they were; only the end takes them all, even if it fails. -/
def call (s : SignatureProcessing σ) :
    SignatureCall σ → SignatureProcessing σ × Except Error (Option (Header .signature))
  | .add p => settle (s.add p)
  | .init n => settle (s.init n)
  | .feedHeader bytes => settle (s.feedHeader bytes)
  | .feedPayload piece => settle (s.feedPayload piece)
  | .finish => (s.finish.1, s.finish.2.map some)
where
  settle : Except Error (SignatureProcessing σ) →
      SignatureProcessing σ × Except Error (Option (Header .signature))
    | .ok s' => (s', .ok none)
    | .error e => (s, .error e)

/-- Whether a call is accepted. The end is if it takes the processors, whether or not they fail. -/
def accepts (s : SignatureProcessing σ) : SignatureCall σ → Bool
  | .finish => s.phase ≠ .finished && s.finish.1.phase = .finished
  | c => (s.call c).2.isOk

/-- The processors after some calls. -/
def run (s : SignatureProcessing σ) (calls : List (SignatureCall σ)) : SignatureProcessing σ :=
  calls.foldl (fun s c => (s.call c).1) s

/-- The calls among some that are accepted. -/
def accepted (s : SignatureProcessing σ) : List (SignatureCall σ) → List (SignatureCall σ)
  | [] => []
  | c :: calls =>
    if s.accepts c then c :: accepted (s.call c).1 calls else accepted (s.call c).1 calls

variable {s : SignatureProcessing σ} {initial : List σ} {done : List (SignatureCall σ)}

/-- How processors that began with some stand after the calls that were accepted. -/
inductive Reached (initial : List σ) : List (SignatureCall σ) → SignatureProcessing σ → Prop
  | created (added : List σ) : Reached initial (added.map .add) ⟨initial ++ added, .created⟩
  | initialized (added : List σ) (n : UInt64) :
      Reached initial (added.map .add ++ [.init n])
        ⟨(initial ++ added).map (allGivenTo [.size n]), .initialized⟩
  | fed (course : Course σ) (phase : Phase) (after : phase.afterHeader = true) :
      Reached initial course.calls ⟨(initial ++ course.added).map (allGivenTo course.feeds), phase⟩
  | finished (course : Course σ) : Reached initial (course.calls ++ [.finish]) ⟨[], .finished⟩

/-! ### What a phase says -/

lemma Reached.exists_added (h : Reached initial done s) (hs : s.phase = .created) :
    ∃ added, done = added.map .add ∧ s.processors = initial ++ added := by
  cases h with
  | created added => exact ⟨added, rfl, rfl⟩
  | initialized => simp at hs
  | fed course phase after =>
    have hphase : phase = .created := hs
    simp [hphase, Phase.afterHeader] at after
  | finished => simp at hs

lemma Reached.exists_course (h : Reached initial done s) (hs : s.phase.afterHeader = true) :
    ∃ course : Course σ, done = course.calls ∧
      s.processors = (initial ++ course.added).map (allGivenTo course.feeds) := by
  cases h with
  | created | initialized | finished => simp [Phase.afterHeader] at hs
  | fed course phase after => exact ⟨course, rfl, rfl⟩

lemma Reached.exists_beforeHeader (h : Reached initial done s)
    (hs : s.phase.beforeHeader = true) :
    ∃ (added : List σ) (archiveSize : Option UInt64),
      done = added.map .add ++ archiveSize.toList.map .init ∧
      s.processors = (initial ++ added).map (allGivenTo (archiveSize.toList.map .size)) := by
  cases h with
  | created added =>
    exact ⟨added, none, (List.append_nil _).symm, (map_allGivenTo_nil (initial ++ added)).symm⟩
  | initialized added n => exact ⟨added, some n, rfl, rfl⟩
  | fed course phase after =>
    have hphase : phase.beforeHeader = true := hs
    cases phase <;> simp [Phase.afterHeader, Phase.beforeHeader] at after hphase
  | finished => simp [Phase.beforeHeader] at hs

lemma Reached.isPrefix (h : Reached initial done s) :
    ∃ course : Course σ, done <+: course.calls ++ [.finish] := by
  cases h with
  | created added =>
    refine ⟨⟨added, none, ByteArray.empty, []⟩, [.feedHeader ByteArray.empty, .finish], ?_⟩
    simp [Course.calls]
  | initialized added n =>
    refine ⟨⟨added, some n, ByteArray.empty, []⟩, [.feedHeader ByteArray.empty, .finish], ?_⟩
    simp [Course.calls]
  | fed course => exact ⟨course, List.prefix_append _ _⟩
  | finished course => exact ⟨course, List.prefix_rfl⟩

/-! ### Calls -/

/-- A call either is accepted and carries the course on, or is refused by its rule. -/
def Proceeds (initial : List σ) (done : List (SignatureCall σ)) (s : SignatureProcessing σ)
    (c : SignatureCall σ) : Prop :=
  (s.accepts c = true ∧ Reached initial (done ++ [c]) (s.call c).1) ∨
    (s.accepts c = false ∧ s.call c = (s, .error (.protocol c.rule)))

lemma Reached.add (h : Reached initial done s) (p : σ) : Proceeds initial done s (.add p) := by
  by_cases hs : s.phase = .created
  · left
    obtain ⟨added, rfl, hprocessors⟩ := h.exists_added hs
    have hcall : s.call (.add p) = (⟨initial ++ (added ++ [p]), .created⟩, .ok none) := by
      simp [call, call.settle, SignatureProcessing.add, hs, hprocessors]
    refine ⟨by simp only [accepts, hcall]; rfl, ?_⟩
    rw [hcall]
    have hnext : Reached initial _ _ := .created (added ++ [p])
    rwa [List.map_append] at hnext
  · right
    have hcall : s.call (.add p) = (s, .error (.protocol .registerFirst)) := by
      simp [call, call.settle, SignatureProcessing.add, hs]
    exact ⟨by simp only [accepts, hcall]; rfl, hcall⟩

lemma Reached.init (h : Reached initial done s) (n : UInt64) :
    Proceeds initial done s (.init n) := by
  by_cases hs : s.phase = .created
  · left
    obtain ⟨added, rfl, hprocessors⟩ := h.exists_added hs
    have hcall : s.call (.init n) =
        (⟨(initial ++ added).map (allGivenTo [.size n]), .initialized⟩, .ok none) := by
      simp only [call, SignatureProcessing.init, hs, hprocessors]
      rfl
    refine ⟨by simp only [accepts, hcall]; rfl, ?_⟩
    rw [hcall]
    exact .initialized added n
  · right
    have hcall : s.call (.init n) = (s, .error (.protocol .initOnce)) := by
      simp [call, call.settle, SignatureProcessing.init, hs]
    exact ⟨by simp only [accepts, hcall]; rfl, hcall⟩

lemma Reached.feedHeader (h : Reached initial done s) (bytes : ByteArray) :
    Proceeds initial done s (.feedHeader bytes) := by
  by_cases hs : s.phase.beforeHeader = true
  · left
    obtain ⟨added, archiveSize, rfl, hprocessors⟩ := h.exists_beforeHeader hs
    let course : Course σ := ⟨added, archiveSize, bytes, []⟩
    have hcalls : course.calls =
        added.map .add ++ archiveSize.toList.map .init ++ [.feedHeader bytes] :=
      List.append_nil _
    have hfeeds : course.feeds = archiveSize.toList.map .size ++ [.header bytes] :=
      List.append_nil _
    have hcall : s.call (.feedHeader bytes) =
        (⟨(initial ++ added).map (allGivenTo course.feeds), .headerFed⟩, .ok none) := by
      rw [hfeeds, map_allGivenTo_append, ← hprocessors]
      simp only [call, SignatureProcessing.feedHeader, hs]
      rfl
    refine ⟨by simp only [accepts, hcall]; rfl, ?_⟩
    rw [hcall, ← hcalls]
    exact .fed course .headerFed rfl
  · right
    have hcall : s.call (.feedHeader bytes) = (s, .error (.protocol .headerOnce)) := by
      simp [call, call.settle, SignatureProcessing.feedHeader, hs]
    exact ⟨by simp only [accepts, hcall]; rfl, hcall⟩

lemma Reached.feedPayload (h : Reached initial done s) (piece : ByteArray) :
    Proceeds initial done s (.feedPayload piece) := by
  by_cases hs : s.phase.afterHeader = true
  · left
    obtain ⟨course, rfl, hprocessors⟩ := h.exists_course hs
    have hcall : s.call (.feedPayload piece) =
        (⟨(initial ++ course.added).map (allGivenTo (course.push piece).feeds), .payloadFed⟩,
          .ok none) := by
      rw [Course.feeds_push, map_allGivenTo_append, ← hprocessors]
      simp only [call, SignatureProcessing.feedPayload, hs]
      rfl
    refine ⟨by simp only [accepts, hcall]; rfl, ?_⟩
    rw [hcall, ← Course.calls_push]
    exact .fed (course.push piece) .payloadFed rfl
  · right
    have hcall : s.call (.feedPayload piece) = (s, .error (.protocol .payloadAfterHeader)) := by
      simp [call, call.settle, SignatureProcessing.feedPayload, hs]
    exact ⟨by simp only [accepts, hcall]; rfl, hcall⟩

lemma finish_of_afterHeader (hs : s.phase.afterHeader = true) :
    s.finish = (⟨[], .finished⟩,
      s.processors.foldlM (fun h p => SignatureProcessor.finish p h) Header.empty) := by
  simp [SignatureProcessing.finish, hs]

lemma accepts_finish : s.accepts .finish = s.phase.afterHeader := by
  cases hs : s.phase <;> simp [accepts, SignatureProcessing.finish, hs, Phase.afterHeader]

lemma Reached.finish (h : Reached initial done s) : Proceeds initial done s .finish := by
  by_cases hs : s.phase.afterHeader = true
  · left
    obtain ⟨course, rfl, -⟩ := h.exists_course hs
    refine ⟨accepts_finish.trans hs, ?_⟩
    rw [call, finish_of_afterHeader hs]
    exact .finished course
  · right
    refine ⟨accepts_finish.trans (Bool.eq_false_iff.mpr hs), ?_⟩
    simp [call, SignatureProcessing.finish, hs, Except.map, SignatureCall.rule]

/-- **One call**, whatever it is. -/
lemma Reached.call (h : Reached initial done s) (c : SignatureCall σ) :
    Proceeds initial done s c := by
  cases c with
  | add p => exact h.add p
  | init n => exact h.init n
  | feedHeader bytes => exact h.feedHeader bytes
  | feedPayload piece => exact h.feedPayload piece
  | finish => exact h.finish

/-- **All calls.** -/
lemma Reached.run (h : Reached initial done s) (calls : List (SignatureCall σ)) :
    Reached initial (done ++ s.accepted calls) (s.run calls) := by
  induction calls generalizing done s with
  | nil => simpa [accepted, SignatureProcessing.run] using h
  | cons c calls ih =>
    change Reached initial _ ((s.call c).1.run calls)
    rcases h.call c with ⟨hc, hnext⟩ | ⟨hc, hsame⟩
    · rw [accepted, if_pos hc]
      simpa using ih hnext
    · rw [accepted, if_neg (by simp [hc]), hsame]
      exact ih h

/-- **Calls keep to one course.** Whatever is called, in whatever order, the accepted calls begin a
course. Any other call is refused by its rule and changes nothing. When the end is accepted, a whole
course has been called before it, all processors that are there have been given what is in it, each
thing once and in the same order, and the end takes each of them once. -/
theorem accepted_run (initial : List σ) (calls : List (SignatureCall σ)) :
    let start : SignatureProcessing σ := ⟨initial, .created⟩
    (∃ course : Course σ, start.accepted calls <+: course.calls ++ [.finish]) ∧
      (∀ c, (start.run calls).accepts c = false →
        (start.run calls).call c = (start.run calls, .error (.protocol c.rule))) ∧
      ((start.run calls).accepts .finish = true →
        ∃ course : Course σ, start.accepted calls = course.calls ∧
          (start.run calls).processors =
            (initial ++ course.added).map (allGivenTo course.feeds) ∧
          (start.run calls).finish = (⟨[], .finished⟩,
            ((initial ++ course.added).map (allGivenTo course.feeds)).foldlM
              (fun h p => SignatureProcessor.finish p h) Header.empty)) := by
  intro start
  have hstart : Reached initial [] start := by
    have hcreated : Reached initial _ _ := .created []
    rwa [List.append_nil] at hcreated
  have hrun : Reached initial (start.accepted calls) (start.run calls) := hstart.run calls
  refine ⟨hrun.isPrefix, fun c hc => ?_, fun hfinish => ?_⟩
  · rcases hrun.call c with ⟨haccepted, -⟩ | ⟨-, hrefused⟩
    · rw [hc] at haccepted
      contradiction
    · exact hrefused
  · have hphase : (start.run calls).phase.afterHeader = true := accepts_finish.symm.trans hfinish
    obtain ⟨course, hcalls, hprocessors⟩ := hrun.exists_course hphase
    refine ⟨course, hcalls, hprocessors, ?_⟩
    rw [finish_of_afterHeader hphase, hprocessors]

/-- A processor that keeps what it is given, and fails in the end. -/
structure Journal where
  feeds : List Feed

instance : SignatureProcessor Journal where
  init j n := ⟨j.feeds ++ [.size n]⟩
  feedHeader j bytes := ⟨j.feeds ++ [.header bytes]⟩
  feedPayload j piece := ⟨j.feeds ++ [.payload piece]⟩
  finish _ _ := .error (.protocol .sizeNotGiven)

/-- Calls of which every other one is out of order. -/
def mixedCalls : List (SignatureCall Journal) := [
  .add ⟨[]⟩, .feedPayload ⟨#[1]⟩, .init 7, .add ⟨[]⟩, .feedHeader ⟨#[2]⟩, .init 8,
  .feedPayload ⟨#[3]⟩, .feedHeader ⟨#[4]⟩, .feedPayload ByteArray.empty]

theorem accepted_run_mixedCalls :
    let s := (⟨[⟨[]⟩], .created⟩ : SignatureProcessing Journal).run mixedCalls
    let j : Journal := ⟨[.size 7, .header ⟨#[2]⟩, .payload ⟨#[3]⟩, .payload ByteArray.empty]⟩
    s.accepts .finish = true ∧ s.processors = [j, j] ∧
      s.finish = (⟨[], .finished⟩, .error (.protocol .sizeNotGiven)) ∧
      s.call (.add ⟨[]⟩) = (s, .error (.protocol .registerFirst)) := by
  intro s j
  obtain ⟨-, hrefused, hfinish⟩ := accepted_run [⟨[]⟩] mixedCalls
  obtain ⟨course, -, hprocessors, hend⟩ := hfinish rfl
  have hj : (([(⟨[]⟩ : Journal)] ++ course.added).map (allGivenTo course.feeds)) = [j, j] :=
    hprocessors.symm
  exact ⟨rfl, hprocessors.trans hj, hend.trans (by rw [hj]; rfl), hrefused (.add ⟨[]⟩) rfl⟩

end SignatureProcessing

end Rpm

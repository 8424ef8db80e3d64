import Rpm.Proofs.Package.RoundTrip

/-!
Files written to sinks that fail.

A sink with a limit holds the beginning of the file, wherever the limit falls among its pieces. What
the headers and the processors make of a package is made before the first piece is written, so that
nothing is written if that fails. A try to write a payload is the last one, whatever comes of it:
`Writer.call` says what a writer makes of calls, and a writer that is finished refuses all that
concern the file.
-/

namespace Rpm

/-- What is called on a writer. -/
inductive WriterCall (σ : Type) where
  /-- The metadata header is set or changed to this one. -/
  | setHeader (header : Header .metadata)
  | setPayload (payload : FinishedPayload)
  | addProcessor (p : σ)
  | finish

namespace Writer

section Calls

variable {τ σ : Type} [ByteSink τ] [SignatureProcessor σ] {w : Writer τ σ}
  {payload : FinishedPayload} {e : Error}

/-- What is left of a writer after a call, and what the call says. -/
def call (w : Writer τ σ) : WriterCall σ → Writer τ σ × Except Error Unit
  | .setHeader header => ({ w with header }, .ok ())
  | .setPayload payload => ({ w with payload := some payload }, .ok ())
  | .addProcessor p =>
    match w.addProcessor p with
    | .error e => (w, .error e)
    | .ok w' => (w', .ok ())
  | .finish => w.finish

def run (w : Writer τ σ) (calls : List (WriterCall σ)) : Writer τ σ :=
  calls.foldl (fun w c => (w.call c).1) w

/-- The same writer with another sink. -/
def withSink (w : Writer τ σ) (sink : τ) : Writer τ σ := { w with sink }

/-- Whether something goes wrong before there is anything to write: the metadata header cannot be
rendered, a processor fails, or what the processors made cannot be rendered. -/
inductive Spoiled (w : Writer τ σ) (payload : FinishedPayload) (e : Error) : Prop
  | header {h : Header .metadata} (made : fileHeader w.header payload = .ok h)
      (fails : h.render true = .error e)
  | processors {h : Header .metadata} {data : ByteArray}
      (made : fileHeader w.header payload = .ok h) (rendered : h.render true = .ok data)
      (fails : signatureHeader w.processing data payload = .error e)
  | signature {h : Header .metadata} {data : ByteArray} {sig : Header .signature}
      (made : fileHeader w.header payload = .ok h) (rendered : h.render true = .ok data)
      (signed : signatureHeader w.processing data payload = .ok sig)
      (fails : sig.render true = .error e)

/-! ### The end of a writer -/

/-- A try to write a payload ends the writer, and what is written is made of the parts. -/
lemma finish_eq_emit {parts : PackageParts} (unfinished : w.finished = false)
    (hp : w.payload = some payload) (hparts : w.parts payload = .ok parts) :
    w.finish = (⟨(emit w.sink parts payload.payloadSize).1, w.lead, w.header, none, .empty, true⟩,
      (emit w.sink parts payload.payloadSize).2) := by
  simp only [finish, unfinished, hp, hparts, Bool.false_eq_true, if_false]

lemma finish_of_parts_eq_error (unfinished : w.finished = false) (hp : w.payload = some payload)
    (hparts : w.parts payload = .error e) :
    w.finish = (⟨w.sink, w.lead, w.header, none, .empty, true⟩, .error e) := by
  simp only [finish, unfinished, hp, hparts, Bool.false_eq_true, if_false]

omit [ByteSink τ] in
lemma Spoiled.parts_eq (h : w.Spoiled payload e) : w.parts payload = .error e := by
  cases h with
  | header made fails => simp [parts, bind, Except.bind, made, fails]
  | processors made rendered fails => simp [parts, bind, Except.bind, made, rendered, fails]
  | signature made rendered signed fails =>
    simp [parts, bind, Except.bind, made, rendered, signed, fails]

lemma finish_of_finished (h : w.finished = true) : w.finish = (w, .error .writerFinished) := by
  simp only [finish, h, if_true]

omit [ByteSink τ] [SignatureProcessor σ] in
lemma addProcessor_of_finished (h : w.finished = true) (p : σ) :
    w.addProcessor p = .error .writerFinished := by
  simp only [addProcessor, h, if_true]

lemma finish_of_payload_eq_none (unfinished : w.finished = false) (hp : w.payload = none) :
    w.finish = (w, .error .payloadNotSet) := by
  simp only [finish, unfinished, hp, Bool.false_eq_true, if_false]

lemma finished_finish (h : w.finished = true ∨ w.payload.isSome) : w.finish.1.finished = true := by
  by_cases hf : w.finished = true
  · rw [finish_of_finished hf, hf]
  · obtain ⟨payload, hp⟩ := Option.isSome_iff_exists.mp (h.resolve_left hf)
    have unfinished := Bool.eq_false_iff.mpr hf
    cases hparts : w.parts payload with
    | error e => rw [finish_of_parts_eq_error unfinished hp hparts]
    | ok parts => rw [finish_eq_emit unfinished hp hparts]

lemma exists_emit_of_finish (h : w.finish.2 = .ok ()) :
    ∃ payload parts, w.finished = false ∧ w.payload = some payload ∧
      w.parts payload = .ok parts ∧ (emit w.sink parts payload.payloadSize).2 = .ok () := by
  cases hf : w.finished with
  | true => simp [finish, hf] at h
  | false =>
    cases hp : w.payload with
    | none => simp [finish, hf, hp] at h
    | some payload =>
      cases hparts : w.parts payload with
      | error e =>
        rw [finish_of_parts_eq_error hf hp hparts] at h
        contradiction
      | ok parts =>
        rw [finish_eq_emit hf hp hparts] at h
        exact ⟨payload, parts, rfl, rfl, hparts, h⟩

lemma call_of_finished (h : w.finished = true) (c : WriterCall σ) :
    (w.call c).1.finished = true ∧ (w.call c).1.sink = w.sink := by
  cases c with
  | setHeader | setPayload => exact ⟨h, rfl⟩
  | addProcessor p =>
    rw [call, addProcessor_of_finished h]
    exact ⟨h, rfl⟩
  | finish =>
    rw [call, finish_of_finished h]
    exact ⟨h, rfl⟩

lemma run_of_finished (h : w.finished = true) (calls : List (WriterCall σ)) :
    (w.run calls).finished = true ∧ (w.run calls).sink = w.sink := by
  induction calls generalizing w with
  | nil => exact ⟨h, rfl⟩
  | cons c calls ih =>
    obtain ⟨hfinished, hsink⟩ := call_of_finished h c
    obtain ⟨hrun, hrest⟩ := ih hfinished
    exact ⟨hrun, hrest.trans hsink⟩

end Calls

/-! ### Sinks -/

section Sinks

variable {σ : Type} [SignatureProcessor σ] {w : Writer Sink σ}

lemma finish_withSink (written : (w.withSink {}).finish.2 = .ok ()) (limit : Option Nat)
    (flushFails : Bool) :
    let file := (w.withSink {}).finish.1.sink.accepted
    let sink : Sink := { limit, flushFails }
    (w.withSink sink).finish.1.sink.accepted = file.extract 0 (sink.room file.size) ∧
      ((w.withSink sink).finish.2 = .ok () ↔
        sink.room file.size = file.size ∧ flushFails = false) ∧
      (sink.room file.size = file.size → flushFails = true →
        (w.withSink sink).finish.2 = .error (.streamDuring .flushing .other)) := by
  obtain ⟨payload, parts, unfinished, hp, hparts, hemit⟩ := exists_emit_of_finish written
  -- The parts do not depend on the sink.
  have hfinish : ∀ sink, (w.withSink sink).finish =
      (⟨(emit sink parts payload.payloadSize).1, w.lead, w.header, none, .empty, true⟩,
        (emit sink parts payload.payloadSize).2) :=
    fun sink => finish_eq_emit (w := w.withSink sink) unfinished hp hparts
  have hfile : (w.withSink {}).finish.1.sink.accepted = parts.bytes := by
    have haccepted := accepted_emit hemit
    rw [withSink, ByteArray.empty_append] at haccepted
    rw [hfinish, haccepted]
  intro file sink
  obtain ⟨hsink, hresult⟩ := emit_eq sink (size_eq_of_emit hemit)
  rw [show file = parts.bytes from hfile, hfinish, hsink]
  exact ⟨ByteArray.empty_append, hresult⟩

/-- **Writers over sinks that fail.** If a file can be written, a sink with a limit gets its beginning,
and writing succeeds exactly if the file fits; and if the sink cannot be flushed, that is the error,
and the sink has all of the file. If the headers cannot be made, nothing is written. A writer without a
payload is left as it was, so that it can be given one; after any other end, whatever is called, it
writes nothing more and refuses to end again or to take a processor. -/
theorem finish_of_failing_sink (w : Writer Sink σ) :
    ((w.withSink {}).finish.2 = .ok () →
      let file := (w.withSink {}).finish.1.sink.accepted
      (∀ k, let cut := (w.withSink { limit := some k }).finish
        (cut.2 = .ok () ↔ file.size ≤ k) ∧
          cut.1.sink.accepted = file.extract 0 (min k file.size)) ∧
      ∀ limit : Option Nat, (∀ k ∈ limit, file.size ≤ k) →
        let unflushed := (w.withSink { limit, flushFails := true }).finish
        unflushed.2 = .error (.streamDuring .flushing .other) ∧
          unflushed.1.sink.accepted = file) ∧
    (∀ payload e, w.finished = false → w.payload = some payload → w.Spoiled payload e →
      w.finish.2 = .error e ∧ w.finish.1.sink = w.sink) ∧
    (w.finished = false → w.payload = none → w.finish = (w, .error .payloadNotSet) ∧
      ∀ calls, w.run (.finish :: calls) = w.run calls) ∧
    (w.finished = true ∨ w.payload.isSome → ∀ calls,
      let after := w.finish.1.run calls
      after.sink = w.finish.1.sink ∧ after.finish = (after, .error .writerFinished) ∧
        ∀ p, after.addProcessor p = .error .writerFinished) := by
  refine ⟨fun written => ⟨fun k => ?_, fun limit hlimit => ?_⟩, ?_, ?_, ?_⟩
  · obtain ⟨haccepted, hok, -⟩ := finish_withSink written (some k) false
    have hroom : ∀ n, Sink.room { limit := some k } n = min k n := fun n => Nat.min_comm n k
    refine ⟨hok.trans ?_, ?_⟩
    · rw [hroom, and_iff_left rfl, min_eq_right_iff]
    · rw [haccepted, hroom]
  · obtain ⟨haccepted, -, hflush⟩ := finish_withSink written limit true
    have hroom : Sink.room { limit, flushFails := true }
        (w.withSink {}).finish.1.sink.accepted.size = (w.withSink {}).finish.1.sink.accepted.size := by
      cases limit with
      | none => rfl
      | some k => exact Nat.min_eq_left (hlimit k rfl)
    refine ⟨hflush hroom rfl, ?_⟩
    rw [haccepted, hroom, extract_of_size_le (Nat.le_refl _)]
  · intro payload e unfinished hp spoiled
    rw [finish_of_parts_eq_error unfinished hp spoiled.parts_eq]
    exact ⟨rfl, rfl⟩
  · intro unfinished hp
    have hfinish := finish_of_payload_eq_none unfinished hp
    refine ⟨hfinish, fun calls => ?_⟩
    rw [run, List.foldl_cons, call, hfinish, run]
  · intro hend calls
    obtain ⟨hfinished, hsink⟩ := run_of_finished (finished_finish hend) calls
    exact ⟨hsink, finish_of_finished hfinished, addProcessor_of_finished hfinished⟩

lemma exists_spoiled_of_region {recorder : Recorder PayloadDigester} {payload : FinishedPayload}
    (recorded : recorder.finish.2 = .ok payload)
    (marked : (w.header.getRaw Namespace.metadata.region).isSome) : ∃ e, w.Spoiled payload e := by
  obtain ⟨-, -, hdigests⟩ := Recorder.finish_eq_ok recorded
  have made := fileHeader_eq w.header payload
  set h := (w.header.extend ⟨payloadEntries payload⟩).extend payload.header
  obtain ⟨value, hvalue⟩ := Option.isSome_iff_exists.mp marked
  have hmarked : (h.getRaw Namespace.metadata.region).isSome := by
    rw [getRaw_fileHeader hdigests made, hvalue]
    simp
  obtain ⟨value', hvalue'⟩ := Option.isSome_iff_exists.mp hmarked
  cases hrender : h.render true with
  | error e => exact ⟨e, .header made hrender⟩
  | ok data => exact absurd rfl (tag_ne_of_render hrender _ (Header.mem_of_lookup hvalue'))

/-- A writer for which all is set but the payload. -/
def waitingWriter : Writer Sink StandardProcessor := { namedWriter with header := namedHeader }

/-- A header with nothing but the mark of its section. -/
def markedHeader : Header .metadata := ⟨[⟨Namespace.metadata.region, .null⟩]⟩

theorem finish_of_failing_sink_waitingWriter :
    ∃ payload, emptyRecorder.finish.2 = .ok payload ∧
      let w := waitingWriter.run [.finish, .setPayload payload]
      let file := w.finish.1.sink.accepted
      waitingWriter.finish = (waitingWriter, .error .payloadNotSet) ∧ w.finish.2 = .ok () ∧
      ((w.withSink { limit := some 95 }).finish.2 ≠ .ok () ∧
        (w.withSink { limit := some 95 }).finish.1.sink.accepted = file.extract 0 95) ∧
      ((w.withSink { flushFails := true }).finish.2 = .error (.streamDuring .flushing .other) ∧
        (w.withSink { flushFails := true }).finish.1.sink.accepted = file) ∧
      (w.run [.setHeader markedHeader, .finish]).sink = {} ∧
      (w.run [.finish, .setPayload payload]).finish.2 = .error .writerFinished := by
  obtain ⟨payload, recorded, hsize⟩ := emptyRecorder_finish
  obtain ⟨-, hflags, -⟩ := Recorder.finish_eq_ok recorded
  obtain ⟨parts, hparts, -, written⟩ := exists_parts_of_small namedWriter.lead recorded hflags
    hsize placeable_namedHeader (by decide +kernel)
  set w := waitingWriter.loaded namedHeader payload
  obtain ⟨-, -, hwaiting, -⟩ := finish_of_failing_sink waitingWriter
  obtain ⟨hrefused, hagain⟩ := hwaiting rfl rfl
  have hw : waitingWriter.run [.finish, .setPayload payload] = w := hagain [.setPayload payload]
  obtain ⟨hsinks, -, -, hlater⟩ := finish_of_failing_sink w
  rw [show w.withSink {} = w from rfl] at hsinks
  obtain ⟨hcut, hflush⟩ := hsinks written
  obtain ⟨hok, hfront⟩ := hcut 95
  obtain ⟨e, spoiled⟩ := exists_spoiled_of_region (w := { w with header := markedHeader }) recorded rfl
  obtain ⟨-, hspoiled, -, -⟩ := finish_of_failing_sink { w with header := markedHeader }
  obtain ⟨-, hfull⟩ := hspoiled payload e rfl rfl spoiled
  obtain ⟨-, hend, -⟩ := hlater (.inr rfl) [.setPayload payload]
  -- The lead alone takes 96 bytes.
  have hlarge : ¬w.finish.1.sink.accepted.size ≤ 95 := by
    obtain ⟨parts', -, hfile⟩ := accepted_finish (w := w) rfl written
    have hlead : parts'.lead.bytes.size = 96 := Lead.size_bytes _
    rw [hfile, ByteArray.size_append, PackageParts.bytes_eq, ByteArray.size_append]
    omega
  refine ⟨payload, recorded, ?_⟩
  rw [hw]
  refine ⟨hrefused, written, ⟨mt hok.mp hlarge, ?_⟩, hflush none (by simp), hfull,
    congrArg Prod.snd hend⟩
  rw [hfront, Nat.min_eq_left (Nat.le_of_not_le hlarge)]

end Sinks

end Writer

end Rpm

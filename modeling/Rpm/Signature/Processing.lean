import Rpm.Signature.Processor

/-!
Feeding signature processors together.

All processors see the same, and in the same order: first the size of the archive, which may be left
out, then the header once, then the payload in pieces. A call out of order is refused and changes
nothing.
-/

namespace Rpm

/-- What processors have seen so far. -/
inductive Phase where
  | created
  | initialized
  | headerFed
  | payloadFed
  | finished
  deriving DecidableEq, Repr

namespace Phase

def beforeHeader (p : Phase) : Bool := p = created || p = initialized

def afterHeader (p : Phase) : Bool := p = headerFed || p = payloadFed

end Phase

/-- Processors that are fed together. -/
structure SignatureProcessing (σ : Type) where
  processors : List σ := []
  phase : Phase := .created

namespace SignatureProcessing

variable {σ : Type} [SignatureProcessor σ]

def empty : SignatureProcessing σ := {}

def defaults : SignatureProcessing StandardProcessor := { processors := StandardProcessor.defaults }

def add (s : SignatureProcessing σ) (p : σ) : Except Error (SignatureProcessing σ) :=
  if s.phase ≠ .created then .error (.protocol .registerFirst)
  else .ok { s with processors := s.processors ++ [p] }

def init (s : SignatureProcessing σ) (archiveSize : UInt64) :
    Except Error (SignatureProcessing σ) :=
  if s.phase ≠ .created then .error (.protocol .initOnce)
  else .ok ⟨s.processors.map (SignatureProcessor.init · archiveSize), .initialized⟩

def feedHeader (s : SignatureProcessing σ) (bytes : ByteArray) :
    Except Error (SignatureProcessing σ) :=
  if !s.phase.beforeHeader then .error (.protocol .headerOnce)
  else .ok ⟨s.processors.map (SignatureProcessor.feedHeader · bytes), .headerFed⟩

def feedPayload (s : SignatureProcessing σ) (piece : ByteArray) :
    Except Error (SignatureProcessing σ) :=
  if !s.phase.afterHeader then .error (.protocol .payloadAfterHeader)
  else .ok ⟨s.processors.map (SignatureProcessor.feedPayload · piece), .payloadFed⟩

/-- The entries that all processors make, one after another. After it, even if a processor fails,
there are no processors left. -/
def finish (s : SignatureProcessing σ) :
    SignatureProcessing σ × Except Error (Header .signature) :=
  if !s.phase.afterHeader then (s, .error (.protocol .finishOnce))
  else
    (⟨[], .finished⟩,
      s.processors.foldlM (fun h p => SignatureProcessor.finish p h) Header.empty)

end SignatureProcessing

end Rpm

import Rpm.Bytes.Stream

/-!
What can be wrong with compressed data, and what is read of it all the same.

Decompressing never fails as a whole: it gives a source whose bytes are those that can be read
before the flaw, and whose end is the flaw.
-/

namespace Rpm.Compression

inductive Flaw where
  /-- It ends in the middle of a stream. -/
  | truncated
  /-- It breaks a rule of its format. -/
  | corrupt
  deriving DecidableEq, Repr

def Flaw.streamError : Flaw → StreamError
  | .truncated => .unexpectedEnd
  | .corrupt => .other

def decoded (bytes : ByteArray) (flaw : Option Flaw) : Source :=
  { rest := bytes, failure := flaw.map Flaw.streamError }

/-- A decoder that looks past the last byte of a block before it hands that byte out loses it
when it finds corruption there. -/
def decodedAhead (bytes : ByteArray) (flaw : Option Flaw) : Source :=
  match flaw with
  | some .corrupt => decoded (bytes.extract 0 (bytes.size - 1)) flaw
  | _ => decoded bytes flaw

def copyBack (distance : Nat) : Nat → ByteArray → ByteArray
  | 0, out => out
  | count + 1, out =>
    let i := out.size - distance
    copyBack distance count (out.push (if h : i < out.size then out[i] else 0))

/-- The decompressed form of a source, given how its bytes decompress: a failure of the source
is met where the compressed data would go on. -/
def throughSource (decompress : ByteArray → Source) (s : Source) : Source :=
  let d := decompress s.rest
  match s.failure with
  | none => d
  | some e => { d with failure := if d.failure = some .other then d.failure else some e }

end Rpm.Compression

/-!
Streams of bytes that are read from and written to.

A source is what is left to read and the failure, if any, that stands in place of its end. A
sink takes bytes up to a limit. Both are plain values: an operation returns the stream after it.
-/

namespace Rpm

inductive StreamError where
  | unexpectedEnd
  /-- There is nothing to read from under the given name. -/
  | notFound
  /-- Any other failure of the stream itself. -/
  | other
  deriving DecidableEq, Repr

/-- A stream to read: what is left of it, and the failure met at its end. -/
structure Source where
  rest : ByteArray
  failure : Option StreamError := none

namespace Source

def ofBytes (bytes : ByteArray) : Source := { rest := bytes }

def skip (s : Source) (n : Nat) : Source := { s with rest := s.rest.extract n s.rest.size }

/-- Reads at most `n` bytes: as many as there are, and none only at the end. Reading zero bytes
never fails. -/
def read (s : Source) (n : Nat) : Except StreamError (ByteArray × Source) :=
  if n = 0 then .ok (ByteArray.empty, s)
  else if s.rest.size = 0 then
    match s.failure with
    | none => .ok (ByteArray.empty, s)
    | some e => .error e
  else .ok (s.rest.extract 0 n, s.skip n)

def readExact (s : Source) (n : Nat) : Except StreamError (ByteArray × Source) :=
  if n ≤ s.rest.size then .ok (s.rest.extract 0 n, s.skip n)
  else .error (s.failure.getD .unexpectedEnd)

def readAll (s : Source) : Except StreamError ByteArray :=
  match s.failure with
  | none => .ok s.rest
  | some e => .error e

/-- The first `limit` bytes of a source, as a source of their own: its failure is met only if
the bytes do not suffice. -/
def take (s : Source) (limit : Nat) : Source :=
  { rest := s.rest.extract 0 limit, failure := if limit ≤ s.rest.size then none else s.failure }

end Source

class ByteSink (τ : Type) where
  /-- Writes all the bytes, or as many as the sink takes before it fails. -/
  write : τ → ByteArray → τ × Except StreamError Unit
  /-- Completes what was written. -/
  flush : τ → τ × Except StreamError Unit

/-- A sink that keeps what it was given, up to a limit if it has one. -/
structure Sink where
  accepted : ByteArray := ByteArray.empty
  limit : Option Nat := none
  flushFails : Bool := false

namespace Sink

def room (s : Sink) (wanted : Nat) : Nat :=
  match s.limit with
  | none => wanted
  | some limit => min wanted (limit - s.accepted.size)

def write (s : Sink) (bytes : ByteArray) : Sink × Except StreamError Unit :=
  let n := s.room bytes.size
  if n = bytes.size then ({ s with accepted := s.accepted ++ bytes }, .ok ())
  else ({ s with accepted := s.accepted ++ bytes.extract 0 n }, .error .other)

def flush (s : Sink) : Sink × Except StreamError Unit :=
  (s, if s.flushFails then .error .other else .ok ())

end Sink

instance : ByteSink Sink where
  write := Sink.write
  flush := Sink.flush

end Rpm

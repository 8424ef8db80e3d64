import Rpm.Bytes.Hex
import Rpm.Bytes.Stream
import Rpm.Error
import Rpm.Hash.Md5
import Rpm.Hash.Sha1
import Rpm.Hash.Sha256
import Rpm.Hash.Sha512

/-!
The digest algorithms of packages, and digests taken of bytes that arrive in pieces.

A digester remembers the message so far, so that taking two pieces in turn is the same as taking
their concatenation.
-/

namespace Rpm

inductive DigestAlgorithm where
  | md5
  | sha1
  | sha256
  | sha384
  | sha512
  deriving DecidableEq, Repr

namespace DigestAlgorithm

/-- The OpenPGP number of an algorithm, by which headers name it. -/
def id : DigestAlgorithm → UInt32
  | md5 => 1
  | sha1 => 2
  | sha256 => 8
  | sha384 => 9
  | sha512 => 10

def ofId? (n : UInt32) : Option DigestAlgorithm :=
  if n = 1 then some md5
  else if n = 2 then some sha1
  else if n = 8 then some sha256
  else if n = 9 then some sha384
  else if n = 10 then some sha512
  else none

@[simp] theorem ofId?_id (a : DigestAlgorithm) : ofId? a.id = some a := by
  cases a <;> rfl

def name : DigestAlgorithm → String
  | md5 => "md5"
  | sha1 => "sha1"
  | sha256 => "sha256"
  | sha384 => "sha384"
  | sha512 => "sha512"

def ofName? (s : String) : Option DigestAlgorithm :=
  if s = "md5" then some md5
  else if s = "sha1" then some sha1
  else if s = "sha256" then some sha256
  else if s = "sha384" then some sha384
  else if s = "sha512" then some sha512
  else none

def parse (s : String) : Except Error DigestAlgorithm :=
  match ofName? s with
  | some a => .ok a
  | none => .error (.unsupported s!"digest algorithm {s}")

def default : DigestAlgorithm := sha256

def outputSize : DigestAlgorithm → Nat
  | md5 => 16
  | sha1 => 20
  | sha256 => 32
  | sha384 => 48
  | sha512 => 64

def digest : DigestAlgorithm → ByteArray → ByteArray
  | md5 => Hash.Md5.digest
  | sha1 => Hash.Sha1.digest
  | sha256 => Hash.Sha256.digest
  | sha384 => Hash.Sha512.digest384
  | sha512 => Hash.Sha512.digest

def digestHex (a : DigestAlgorithm) (message : ByteArray) : String := hexText (a.digest message)

end DigestAlgorithm

/-- A digest in the making: the message so far. -/
structure Digester where
  algorithm : DigestAlgorithm
  message : ByteArray := ByteArray.empty

namespace Digester

def update (d : Digester) (piece : ByteArray) : Digester :=
  { d with message := d.message ++ piece }

def finish (d : Digester) : ByteArray := d.algorithm.digest d.message

theorem update_update (d : Digester) (a b : ByteArray) :
    (d.update a).update b = d.update (a ++ b) := by
  simp [update, ByteArray.append_assoc]

@[simp] theorem update_empty (d : Digester) : d.update ByteArray.empty = d := by
  simp [update]

end Digester

structure DigestingSource where
  source : Source
  digester : Digester

namespace DigestingSource

def new (source : Source) (algorithm : DigestAlgorithm) : DigestingSource :=
  ⟨source, { algorithm }⟩

def bytesRead (d : DigestingSource) : Nat := d.digester.message.size

def read (d : DigestingSource) (n : Nat) : Except StreamError (ByteArray × DigestingSource) := do
  let (bytes, source) ← d.source.read n
  return (bytes, ⟨source, d.digester.update bytes⟩)

def finish (d : DigestingSource) : ByteArray := d.digester.finish

end DigestingSource

def digestAll (algorithm : DigestAlgorithm) (source : Source) :
    Except StreamError (Nat × ByteArray) := do
  let bytes ← source.readAll
  return (bytes.size, algorithm.digest bytes)

end Rpm

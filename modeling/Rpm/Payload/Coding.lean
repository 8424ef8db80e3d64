/-!
The ways in which a payload can be compressed.
-/

namespace Rpm

inductive Coding where
  | none
  | gzip
  | bzip2
  | lzma
  | xz
  | zstd
  deriving DecidableEq, Repr

namespace Coding

def all : List Coding := [none, gzip, bzip2, lzma, xz, zstd]

theorem mem_all (c : Coding) : c ∈ all := by
  cases c <;> decide

def default : Coding := gzip

def name : Coding → String
  | none => "none"
  | gzip => "gzip"
  | bzip2 => "bzip2"
  | lzma => "lzma"
  | xz => "xz"
  | zstd => "zstd"

def ofName? (s : String) : Option Coding := all.find? fun c => c.name = s

@[simp] theorem ofName?_name (c : Coding) : ofName? c.name = some c := by
  cases c <;> decide

/-- The feature of the RPM library that a reader needs for a coding, and the version that brought
it. -/
def feature? : Coding → Option (String × String)
  | none | gzip => Option.none
  | bzip2 => some ("PayloadIsBzip2", "3.0.5-1")
  | lzma => some ("PayloadIsLzma", "4.4.6-1")
  | xz => some ("PayloadIsXz", "5.2-1")
  | zstd => some ("PayloadIsZstd", "5.4.18-1")

def defaultLevel? : Coding → Option UInt32
  | none => Option.none
  | gzip | bzip2 => some 9
  | lzma | xz => some 6
  | zstd => some 19

end Coding

end Rpm
